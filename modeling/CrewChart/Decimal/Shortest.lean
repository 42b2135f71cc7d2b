import CrewChart.Decimal.Binary64

/-!
# The fewest digits that name a number

A binary64 number is written with the fewest significant digits that still round back to it, and
of those the ones nearest to it.  The reals that round to a number form an interval around it; its
ends belong to it when the significand is even, and below a power of two it is only half as wide.

`shortest` walks through decimal grids from coarse to fine.  On each grid only the two points next
to the number can lie in the interval, so these are the only ones tried, and the first grid with a
hit has the fewest digits.
-/

set_option autoImplicit false

namespace CrewChart

/-- The decimal `digits * 10 ^ place`. -/
structure Decimal where
  digits : Nat
  place : Int
deriving DecidableEq, Repr

/-- The power of ten with this many zeros. -/
def Decimal.tenTo (zeros : Nat) : Nat := Nat.pow 10 zeros

namespace Binary64

open Decimal (tenTo)

/-- The interval of magnitudes that round to a number, and the magnitude itself, over one
denominator. -/
structure Interval where
  low : Nat
  value : Nat
  high : Nat
  den : Nat
  closed : Bool

/-- Quarters of the last place are fine enough to write down the three of them. -/
def interval (x : Binary64) : Interval :=
  let m := x.significand
  let below := if m = leadingBit ∧ 2 * leadingBit ≤ x.code then 1 else 2
  let (unit, den) := scaleDown 1 1 (2 - x.exponent)
  { low := (4 * m - below) * unit, value := 4 * m * unit, high := (4 * m + 2) * unit, den,
    closed := m % 2 == 0 }

/-- Whether the ratio `num / den` of the interval's own denominator lies in it. -/
def Interval.holds (i : Interval) (num scale : Nat) : Bool :=
  if i.closed then i.low * scale ≤ num && num ≤ i.high * scale
  else i.low * scale < num && num < i.high * scale

/-- The point of the grid of multiples of `10 ^ place` that lies in the interval; of two, the
nearer one. -/
def Interval.gridPoint? (i : Interval) (place : Int) : Option Nat :=
  let up := tenTo (-place).toNat
  let unit := i.den * tenTo place.toNat
  let d := i.value * up / unit
  match i.holds (d * unit) up, i.holds ((d + 1) * unit) up with
  | true, true => some (nearest (i.value * up) unit)
  | true, false => some d
  | false, true => some (d + 1)
  | false, false => none

/-- The first grid with a hit, from `place` downwards. -/
def Interval.search (i : Interval) (place : Int) : Nat → Option Decimal
  | 0 => none
  | grids + 1 =>
    match i.gridPoint? place with
    | some d => some ⟨d, place⟩
    | none => i.search (place - 1) grids

/-- Two decimal places above the leading digit, or one: `log10 2` is close to `30103 / 100000`. -/
def coarsePlace (x : Binary64) : Int :=
  ((x.significand.log2 + x.exponent) * 30103).fdiv 100000 + 2

/-- The fewest digits that round back to the magnitude of `x`.  Seventeen digits always do, and the
search starts at most three grids too coarse. -/
def shortest (x : Binary64) : Decimal :=
  if x.isZero then ⟨0, 0⟩ else (x.interval.search x.coarsePlace 21).getD ⟨0, 0⟩

end Binary64

end CrewChart

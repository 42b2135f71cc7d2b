import CrewChart.Decimal.Shortest

/-!
# Numbers of a JSON document

A number is an integer that fits 64 bits, signed or unsigned, or a finite binary64 number.  The two
are different values even where they are numerically equal: `1` and `1.0` are told apart when a
document is saved.

`Number.text` is the one spelling a number has in everything the program writes.  A binary64 number
is positional from `0.00001` up to `1e16`, always with a digit after the point, and scientific
outside, with the sign of the exponent always shown.
-/

set_option autoImplicit false

namespace CrewChart.Json

/-- The integers that fit 64 bits, signed or unsigned. -/
def FitsWord (n : Int) : Prop := -0x8000000000000000 ≤ n ∧ n < 0x10000000000000000

instance (n : Int) : Decidable (FitsWord n) := inferInstanceAs (Decidable (_ ∧ _))

inductive Number where
  | integer (n : Int) (fits : FitsWord n)
  | float (x : Binary64)
deriving DecidableEq

instance : Inhabited Number := ⟨.integer 0 (by decide)⟩

namespace Number

/-- A count.  One that fits no word is given as the largest that does. -/
def ofNat (n : Nat) : Number :=
  .integer (min n 0xFFFFFFFFFFFFFFFF : Nat) (by rw [FitsWord]; omega)

/-- The nearest binary64 number. -/
def nearest : Number → Binary64
  | .integer n _ => (Binary64.round? (n < 0) n.natAbs 1).getD .zero
  | .float x => x

/-- Whether the number has a normal binary64 form, as zero and the numbers next to it have not. -/
def isNormal : Number → Bool
  | .integer n _ => n != 0
  | .float x => !x.isSubnormal

/-- A decimal with digits `ds`, the last of which stands for `10 ^ place`. -/
def layout (ds : String) (place : Int) : String :=
  let lead : Int := place + ds.length - 1
  if 16 ≤ lead ∨ lead < -5 then
    let tail := (ds.drop 1).toString
    let mantissa := (ds.take 1).toString ++ (if tail.isEmpty then "" else "." ++ tail)
    mantissa ++ "e" ++ (if 0 ≤ lead then "+" else "-") ++ toString lead.natAbs
  else if 0 ≤ place then ds ++ String.ofList (List.replicate place.toNat '0') ++ ".0"
  else if 0 ≤ lead then
    (ds.take (lead + 1).toNat).toString ++ "." ++ (ds.drop (lead + 1).toNat).toString
  else "0." ++ String.ofList (List.replicate (-lead - 1).toNat '0') ++ ds

def floatText (x : Binary64) : String :=
  let d := x.shortest
  (if x.negative then "-" else "") ++ layout (toString d.digits) d.place

def text : Number → String
  | .integer n _ => toString n
  | .float x => floatText x

end Number

end CrewChart.Json

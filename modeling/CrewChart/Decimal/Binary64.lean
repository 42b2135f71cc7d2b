/-!
# Finite binary64 numbers, exactly

Positions on the canvas and non-integer numbers in attributes are binary64 numbers.  They are kept
here as a sign and a *code*, the 63 bits below the sign read as a natural number.  Codes order the
magnitudes, so the finite numbers are exactly those with a code below the one of infinity, and this
is the one condition the type carries.  Two numbers are equal when sign and code are; in particular
`0` and `-0` differ, which is what a saved file needs.

Everything is computed on natural numbers.  A code stands for `significand * 2 ^ exponent`, and
`round?` goes the other way: it takes a ratio of naturals to the nearest code, a tie to the even
one, and has no answer for a ratio that is too large.  Product and quotient are the exact ratio
rounded once, so a chain of operations rounds where binary64 arithmetic rounds.
-/

set_option autoImplicit false

namespace CrewChart

/-- The code of infinity, `2047 * 2 ^ 52`. -/
def Binary64.infinity : Nat := 0x7FF0000000000000

/-- A finite binary64 number. -/
structure Binary64 where
  negative : Bool
  code : Nat
  finite : code < Binary64.infinity
deriving DecidableEq

namespace Binary64

instance : Inhabited Binary64 := ⟨⟨false, 0, by decide⟩⟩

def zero : Binary64 := ⟨false, 0, by decide⟩

def neg (x : Binary64) : Binary64 := { x with negative := !x.negative }

/-- Zero of either sign. -/
def isZero (x : Binary64) : Bool := x.code == 0

theorem isZero_iff (x : Binary64) : x.isZero = true ↔ x.code = 0 := by
  simp [isZero]

/-! ## The value of a code -/

/-- The leading bit of a significand, `2 ^ 52`. -/
def leadingBit : Nat := 0x10000000000000

/-- Codes without a leading bit. -/
def isSubnormal (x : Binary64) : Bool := x.code < leadingBit

/-- The whole number that is scaled by `2 ^ exponent`.  The code does not show its leading bit. -/
def significand (x : Binary64) : Nat :=
  if x.isSubnormal then x.code else x.code % leadingBit + leadingBit

def exponent (x : Binary64) : Int :=
  if x.isSubnormal then -1074 else (x.code / leadingBit : Nat) - 1075

/-- `num * 2 ^ -e / den` as a ratio of naturals. -/
def scaleDown (num den : Nat) (e : Int) : Nat × Nat :=
  if 0 ≤ e then (num, den <<< e.toNat) else (num <<< (-e).toNat, den)

/-- The magnitude as a ratio of naturals, the second of which is a power of two. -/
def ratio (x : Binary64) : Nat × Nat := scaleDown x.significand 1 (-x.exponent)

/-! ## Rounding -/

/-- `num / den` to the nearest whole number, a half to the even neighbour. -/
def nearest (num den : Nat) : Nat :=
  let q := num / den
  let r := num % den
  if 2 * r < den then q else if den < 2 * r then q + 1 else q + q % 2

/-- The exponent of the last place of the binary64 numbers around `num / den`: 53 bits of the
ratio lie at or above it, unless the subnormal range ends it earlier. -/
def lastPlace (num den : Nat) : Int :=
  let k : Int := (num.log2 : Int) - den.log2
  let (n, d) := scaleDown num den k
  max (-1074) (if d ≤ n then k - 52 else k - 53)

/-- The code nearest to `num / den`.  A significand that rounds up to `2 ^ 53` carries into the
exponent by itself, because codes are consecutive. -/
def nearestCode (num den : Nat) : Nat :=
  if num = 0 then 0
  else
    let e := lastPlace num den
    let (n, d) := scaleDown num den e
    (e + 1074).toNat * leadingBit + nearest n d

/-- The number nearest to `num / den` in magnitude, unless it would be infinite. -/
def round? (negative : Bool) (num den : Nat) : Option Binary64 :=
  if h : nearestCode num den < infinity then some ⟨negative, nearestCode num den, h⟩ else none

theorem round?_eq_none_iff (negative : Bool) (num den : Nat) :
    round? negative num den = none ↔ infinity ≤ nearestCode num den := by
  unfold round?
  split <;> simp <;> omega

/-! ## Product and quotient -/

def mul? (x y : Binary64) : Option Binary64 :=
  round? (x.negative != y.negative) (x.ratio.1 * y.ratio.1) (x.ratio.2 * y.ratio.2)

/-- Division by a number that is not zero. -/
def div? (x y : Binary64) : Option Binary64 :=
  round? (x.negative != y.negative) (x.ratio.1 * y.ratio.2) (x.ratio.2 * y.ratio.1)

end Binary64

end CrewChart

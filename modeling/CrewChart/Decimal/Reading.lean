import CrewChart.Decimal.Shortest

/-!
# Reading decimals that were typed in

A text is a whole number if it is digits, perhaps after a sign.  It is a decimal number if it has
digits with perhaps a point before, between or after them, perhaps after a sign, and perhaps an
exponent.  A decimal number is taken to the nearest binary64 number.

A *word* is a natural number that fits 64 bits; there is more than one way not to be one, and the
first that shows is told.
-/

set_option autoImplicit false

namespace CrewChart

namespace Decimal

def isDigit (c : Char) : Bool := '0' ≤ c && c ≤ '9'

/-- The number that digits make. -/
def ofDigits (ds : List Char) : Nat := ds.foldl (fun n c => n * 10 + (c.toNat - 48)) 0

/-- A sign in front, and what follows it; no sign is a plus. -/
def signed : List Char → Bool × List Char
  | '+' :: s => (false, s)
  | '-' :: s => (true, s)
  | s => (false, s)

/-- A whole number. -/
def integer? (s : String) : Option Int :=
  let (negative, ds) := signed s.toList
  if ds ≠ [] ∧ ds.all isDigit then
    some (if negative then -(ofDigits ds : Int) else ofDigits ds)
  else none

/-- The exponent after the digits; none at all counts as zero. -/
def exponent? : List Char → Option Int
  | [] => some 0
  | c :: s =>
    if c = 'e' ∨ c = 'E' then
      let (negative, ds) := signed s
      if ds ≠ [] ∧ ds.all isDigit then
        some (if negative then -(ofDigits ds : Int) else ofDigits ds)
      else none
    else none

/-- The sign and magnitude of a decimal number. -/
def parse? (s : String) : Option (Bool × Decimal) :=
  let (negative, s) := signed s.toList
  let whole := s.takeWhile isDigit
  let (fraction, rest) := match s.dropWhile isDigit with
    | '.' :: s => (s.takeWhile isDigit, s.dropWhile isDigit)
    | s => ([], s)
  if whole = [] ∧ fraction = [] then none
  else (exponent? rest).map fun e =>
    (negative, ⟨ofDigits (whole ++ fraction), e - fraction.length⟩)

/-- How many digits a number has; zero has none. -/
def width (n : Nat) : Nat := if n = 0 then 0 else (Nat.toDigits 10 n).length

/-- The nearest binary64 number, if there is a finite one.  A magnitude with its leading digit
beyond the 309th place before the point or the 323rd after it needs no arithmetic. -/
def nearest? (negative : Bool) (d : Decimal) : Option Binary64 :=
  let lead : Int := d.place + width d.digits
  if d.digits = 0 ∨ lead < -330 then some { Binary64.zero with negative }
  else if 310 < lead then none
  else Binary64.round? negative (d.digits * tenTo d.place.toNat) (tenTo (-d.place).toNat)

/-! ## Words -/

/-- The least number that does not fit 64 bits, `2 ^ 64`. -/
def wordLimit : Nat := 0x10000000000000000

/-- Why a text is no unsigned 64-bit number. -/
inductive WordFault where
  | empty
  | badDigit
  | tooLarge
deriving DecidableEq, Repr

def WordFault.message : WordFault → String
  | .empty => "cannot parse integer from empty string"
  | .badDigit => "invalid digit found in string"
  | .tooLarge => "number too large to fit in target type"

/-- Appends digits to a number, up to the first that is none or that makes it too large. -/
def appendDigits (n : Nat) : List Char → Except WordFault Nat
  | [] => .ok n
  | c :: s =>
    if !isDigit c then .error .badDigit
    else if wordLimit ≤ n * 10 + (c.toNat - 48) then .error .tooLarge
    else appendDigits (n * 10 + (c.toNat - 48)) s

/-- An unsigned 64-bit number; a plus may come before it. -/
def word (s : String) : Except WordFault Nat :=
  match s.toList with
  | [] => .error .empty
  | ['+'] => .error .badDigit
  | '+' :: ds => appendDigits 0 ds
  | ds => appendDigits 0 ds

end Decimal

end CrewChart

import CrewChart.Text.Blank

/-!
# Instants

A moment in universal time, to the second, written `2024-05-06T07:08:09Z`.

Reading is more lenient than writing.  Blanks may stand before a number and a dash or colon, fewer
digits will do, a small `t` or a blank may stand for the `T`, and `z` or `UTC` for the `Z`.  A text
is read from left to right: a number that cannot be a month, a day, an hour, a minute or a second
is refused where it stands, and whether the calendar has the day is asked at the end.  The sixtieth
second of a minute is let through, for leap seconds.
-/

set_option autoImplicit false

namespace CrewChart.Text

structure Instant where
  year : Int
  month : Nat
  day : Nat
  hour : Nat
  minute : Nat
  second : Nat
deriving DecidableEq, Repr

namespace Instant

def epoch : Instant := ⟨1970, 1, 1, 0, 0, 0⟩

/-! ## Writing -/

/-- Decimal digits with zeros in front, up to a width. -/
def padded (width n : Nat) : String :=
  let digits := Nat.toDigits 10 n
  String.ofList (List.replicate (width - digits.length) '0' ++ digits)

/-- A year has a sign unless four digits hold it. -/
def yearText (year : Int) : String :=
  if year < 0 then "-" ++ padded 4 year.natAbs
  else if 9999 < year then "+" ++ padded 4 year.natAbs
  else padded 4 year.natAbs

def text (i : Instant) : String :=
  yearText i.year ++ "-" ++ padded 2 i.month ++ "-" ++ padded 2 i.day ++ "T"
    ++ padded 2 i.hour ++ ":" ++ padded 2 i.minute ++ ":" ++ padded 2 i.second ++ "Z"

/-! ## The calendar -/

def isLeap (year : Int) : Bool := year % 4 == 0 && (year % 100 != 0 || year % 400 == 0)

def daysIn (year : Int) (month : Nat) : Nat :=
  if month = 2 then (if isLeap year then 29 else 28)
  else if month ∈ [4, 6, 9, 11] then 30
  else 31

/-- Whether the calendar has the day of an instant. -/
def hasDay (i : Instant) : Bool :=
  -262143 ≤ i.year && i.year ≤ 262142 && 1 ≤ i.day && i.day ≤ daysIn i.year i.month

/-- The instant this many seconds after the epoch.  Days are counted from the first of March of the
year zero, so that a leap day is the last of its year. -/
def ofEpochSeconds (seconds : Nat) : Instant :=
  let days := seconds / 86400 + 719468
  let clock := seconds % 86400
  let era := days / 146097
  let dayOfEra := days % 146097
  let yearOfEra := (dayOfEra - dayOfEra / 1460 + dayOfEra / 36524 - dayOfEra / 146096) / 365
  let dayOfYear := dayOfEra - (365 * yearOfEra + yearOfEra / 4 - yearOfEra / 100)
  let shifted := (5 * dayOfYear + 2) / 153
  let month := if shifted < 10 then shifted + 3 else shifted - 9
  { year := (yearOfEra + era * 400 + (if month ≤ 2 then 1 else 0) : Nat), month
    day := dayOfYear - (153 * shifted + 2) / 5 + 1
    hour := clock / 3600, minute := clock % 3600 / 60, second := clock % 60 }

/-! ## Reading -/

/-- Why a text is no instant. -/
inductive Fault where
  | tooShort
  | malformed
  | outOfRange
  | tooLong
deriving DecidableEq, Repr

namespace Fault

def message : Fault → String
  | .tooShort => "premature end of input"
  | .malformed => "input contains invalid characters"
  | .outOfRange => "input is out of range"
  | .tooLong => "trailing input"

end Fault

def skipBlank (s : List Char) : List Char := s.dropWhile isBlank

/-- A number of digits up to a limit, and the rest of the text. -/
def takeDigits (limit : Nat) (s : List Char) : Except Fault (Nat × List Char) :=
  match (s.take limit).takeWhile Char.isDigit, s with
  | [], [] => .error .tooShort
  | [], _ :: _ => .error .malformed
  | ds, s =>
    .ok (ds.foldl (fun n c => n * 10 + (c.toNat - 48)) 0, s.drop ds.length)

/-- A number that has to lie in a range. -/
def takeNumber (low high : Nat) (s : List Char) : Except Fault (Nat × List Char) := do
  let (n, r) ← takeDigits 2 (skipBlank s)
  if low ≤ n ∧ n ≤ high then return (n, r) else throw .outOfRange

/-- A year; after a sign it may have any number of digits. -/
def takeYear (s : List Char) : Except Fault (Int × List Char) := do
  let s := skipBlank s
  let (n, r) ← match s with
    | '-' :: t => (takeDigits t.length t).map fun (n, r) => (-(n : Int), r)
    | '+' :: t => (takeDigits t.length t).map fun (n, r) => ((n : Int), r)
    | s => (takeDigits 4 s).map fun (n, r) => ((n : Int), r)
  if -0x80000000 ≤ n ∧ n < 0x80000000 then return (n, r) else throw .outOfRange

/-- A dash or a colon. -/
def takeMark (c : Char) (s : List Char) : Except Fault (List Char) :=
  match skipBlank s with
  | [] => .error .tooShort
  | d :: r => if c = d then .ok r else .error .malformed

/-- What stands between the date and the time. -/
def takeDivider : List Char → Except Fault (List Char)
  | [] => .error .tooShort
  | c :: r => if c = 'T' ∨ c = 't' ∨ c = ' ' then .ok r else .error .malformed

/-- The mark of universal time. -/
def takeZone (s : List Char) : Except Fault (List Char) :=
  match skipBlank s with
  | [] => .error .tooShort
  | c :: r =>
    if c = 'Z' ∨ c = 'z' then .ok r
    else if ((c :: r).take 3).map Char.toUpper = ['U', 'T', 'C'] then .ok (r.drop 2)
    else .error .malformed

def parse (s : String) : Except Fault Instant := do
  let (year, s) ← takeYear s.toList
  let (month, s) ← takeNumber 1 12 (← takeMark '-' s)
  let (day, s) ← takeNumber 1 31 (← takeMark '-' s)
  let (hour, s) ← takeNumber 0 23 (← takeDivider s)
  let (minute, s) ← takeNumber 0 59 (← takeMark ':' s)
  let (second, s) ← takeNumber 0 60 (← takeMark ':' s)
  let s ← takeZone s
  let i : Instant := ⟨year, month, day, hour, minute, second⟩
  if skipBlank s ≠ [] then throw Fault.tooLong
  else if i.hasDay then return i
  else throw Fault.outOfRange

end Instant

end CrewChart.Text

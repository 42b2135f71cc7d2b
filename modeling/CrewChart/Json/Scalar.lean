import CrewChart.Json.Failure

/-!
# Reading keywords, strings and numbers

Every function here reads from the front of a text and returns what is left.  The lemmas
`_length` say that something was read, which is what ends the loops built on them.

A string is read as it is unescaped; a character outside the sixteen-bit range is written as a pair
of escapes, and half a pair is refused.

A number without point and exponent that fits 64 bits is that integer, except `-0`.  Every other
number is a binary64 number, found as follows: digits are gathered as long as the number they make
fits 64 bits, the digits after that only count for their place, and the gathered number is then
multiplied or divided by a power of ten, each step rounded.  The result may be the neighbour of the
nearest number.
-/

set_option autoImplicit false

namespace CrewChart.Json

/-- A text is read from the front; what is left comes with what was read. -/
abbrev Read (α : Type) := Except Failure (α × List Char)

/-- What comes through a function was read before. -/
theorem map_eq_ok {α β : Type} {e : Except Failure α} {f : α → β} {b : β}
    (h : e.map f = .ok b) : ∃ a, e = .ok a ∧ f a = b := by
  cases e with
  | error f => cases h
  | ok a => exact ⟨a, rfl, Except.ok.inj h⟩

def isBlank (c : Char) : Bool := c == ' ' || c == '\n' || c == '\t' || c == '\r'

def skipBlank (s : List Char) : List Char := s.dropWhile isBlank

theorem skipBlank_length (s : List Char) : (skipBlank s).length ≤ s.length :=
  (List.dropWhile_suffix isBlank).length_le

/-! ## Keywords -/

/-- The remaining letters of a keyword. -/
def keyword : List Char → List Char → Except Failure (List Char)
  | [], s => .ok s
  | _ :: _, [] => .error (.before (.unfinished .value) [])
  | k :: ks, c :: s => if c = k then keyword ks s else .error (.atNext .noKeyword (c :: s))

theorem keyword_length {ks s r : List Char} (h : keyword ks s = .ok r) : r.length ≤ s.length := by
  fun_induction keyword ks s with
  | case1 s => simp_all
  | case2 => simp at h
  | case3 ks c s ih => have := ih h; simp; omega
  | case4 => simp at h

/-! ## Strings -/

/-- The number that four hexadecimal digits make. -/
def hexFour? : List Char → Option Nat
  | a :: b :: c :: d :: _ => do
    let a ← hexValue? a
    let b ← hexValue? b
    let c ← hexValue? c
    let d ← hexValue? d
    some (((a * 16 + b) * 16 + c) * 16 + d)
  | _ => none

/-- The code unit after `\u`.  Four bytes are needed before they are looked at. -/
def codeUnit (s : List Char) : Except Failure Nat :=
  if Text.byteCount (s.take 4) < 4 then .error (.before (.unfinished .string) [])
  else match hexFour? s with
    | some n => .ok n
    | none => .error ⟨.badEscape, s, 4, true⟩

def isLeading (n : Nat) : Bool := 0xD800 ≤ n && n ≤ 0xDBFF

def isTrailing (n : Nat) : Bool := 0xDC00 ≤ n && n ≤ 0xDFFF

/-- The second half of a pair, after the leading code unit. -/
def trailingHalf (leading : Nat) : List Char → Read Char
  | [] | ['\\'] => .error (.before (.unfinished .string) [])
  | '\\' :: 'u' :: s =>
    match codeUnit s with
    | .error f => .error f
    | .ok n =>
      if isTrailing n then
        .ok (Char.ofNat (0x10000 + (leading - 0xD800) * 0x400 + (n - 0xDC00)), s.drop 4)
      else .error (.before .loneSurrogate (s.drop 4))
  | '\\' :: s => .error (.atNext .unpairedSurrogate s)
  | s => .error (.atNext .unpairedSurrogate s)

/-- The character that is written after a backslash. -/
def escaped : List Char → Read Char
  | [] => .error (.before (.unfinished .string) [])
  | 'u' :: s =>
    match codeUnit s with
    | .error f => .error f
    | .ok n =>
      if isTrailing n then .error (.before .loneSurrogate (s.drop 4))
      else if isLeading n then trailingHalf n (s.drop 4)
      else .ok (Char.ofNat n, s.drop 4)
  | c :: s =>
    match unescape? c with
    | some d => .ok (d, s)
    | none => .error (.atNext .badEscape (c :: s))

theorem trailingHalf_length {leading : Nat} {s r : List Char} {c : Char}
    (h : trailingHalf leading s = .ok (c, r)) : r.length < s.length := by
  unfold trailingHalf at h
  split at h
  · simp at h
  · simp at h
  · split at h
    · simp at h
    · split at h
      · simp only [Except.ok.injEq, Prod.mk.injEq] at h
        rw [← h.2]; simp only [List.length_drop, List.length_cons]; omega
      · simp at h
  · simp at h
  · simp at h

theorem escaped_length {s r : List Char} {c : Char} (h : escaped s = .ok (c, r)) :
    r.length < s.length := by
  unfold escaped at h
  split at h
  · simp at h
  · split at h
    · simp at h
    · split at h
      · simp at h
      · split at h
        · have := trailingHalf_length h
          simp only [List.length_drop, List.length_cons] at this ⊢; omega
        · simp only [Except.ok.injEq, Prod.mk.injEq] at h
          rw [← h.2]; simp only [List.length_drop, List.length_cons]; omega
  · split at h
    · simp only [Except.ok.injEq, Prod.mk.injEq] at h
      rw [← h.2]; simp
    · simp at h

/-- The rest of a string after its opening quote; `taken` holds the characters so far, the last one
first. -/
def stringTail (taken : List Char) (s : List Char) : Read String :=
  match s with
  | [] => .error (.before (.unfinished .string) [])
  | c :: s =>
    if c = '"' then .ok (String.ofList taken.reverse, s)
    else if c = '\\' then
      match h : escaped s with
      | .error f => .error f
      | .ok (d, r) =>
        have := escaped_length h
        stringTail (d :: taken) r
    else if c.toNat < 0x20 then .error (.atNext .controlCharacter (c :: s))
    else stringTail (c :: taken) s
termination_by s.length
decreasing_by all_goals simp only [List.length_cons]; omega

theorem stringTail_length {taken s r : List Char} {x : String}
    (h : stringTail taken s = .ok (x, r)) : r.length < s.length := by
  fun_induction stringTail taken s with
  | case1 => simp at h
  | case2 taken s => simp only [Except.ok.injEq, Prod.mk.injEq] at h; simp [← h.2]
  | case3 => simp at h
  | case4 taken s _ d t he hlt ih =>
    have := ih h
    simp only [List.length_cons]; omega
  | case5 => simp at h
  | case6 taken c s _ _ _ ih => have := ih h; simp only [List.length_cons]; omega

/-! ## Numbers -/

def isDigit (c : Char) : Bool := '0' ≤ c && c ≤ '9'

def digitValue (c : Char) : Nat := c.toNat - 48

/-- What digits make of a number that already has some, as long as it fits 64 bits; with the count
of the digits used. -/
def gather (n : Nat) : List Char → Nat × Nat × List Char
  | [] => (n, 0, [])
  | c :: s =>
    if isDigit c && n * 10 + digitValue c < 0x10000000000000000 then
      let (m, count, r) := gather (n * 10 + digitValue c) s
      (m, count + 1, r)
    else (n, 0, c :: s)

theorem gather_length (n : Nat) (s : List Char) : (gather n s).2.2.length ≤ s.length := by
  fun_induction gather n s with
  | case1 => simp
  | case2 n c s _ m count r hr ih => simp only [hr] at ih; simp only [List.length_cons]; omega
  | case3 => simp

def skipDigits (s : List Char) : List Char := s.dropWhile isDigit

theorem skipDigits_length (s : List Char) : (skipDigits s).length ≤ s.length :=
  (List.dropWhile_suffix isDigit).length_le

/-- The power of ten a numeral names by itself.  One whose digits do not fit 32 bits is too large
to be told apart; the text after the digit that showed it is kept. -/
inductive Power where
  | exact (e : Int)
  | huge (negative : Bool) (after : List Char)

/-- The digits of an exponent after the first. -/
def powerDigits (negative : Bool) (e : Nat) : List Char → Power × List Char
  | [] => (.exact (if negative then -e else e), [])
  | c :: s =>
    if isDigit c then
      if e * 10 + digitValue c < 0x80000000 then powerDigits negative (e * 10 + digitValue c) s
      else (.huge negative s, skipDigits s)
    else (.exact (if negative then -e else e), c :: s)

theorem powerDigits_length (negative : Bool) (e : Nat) (s : List Char) :
    (powerDigits negative e s).2.length ≤ s.length := by
  fun_induction powerDigits negative e s with
  | case1 => simp
  | case2 e c s _ _ ih => simp only [List.length_cons]; omega
  | case3 e c s => have := skipDigits_length s; simp only [List.length_cons]; omega
  | case4 => simp

/-- The sign and digits of an exponent. -/
def powerTail (s : List Char) : Read Power :=
  let (negative, s) := match s with
    | '+' :: s => (false, s)
    | '-' :: s => (true, s)
    | s => (false, s)
  match s with
  | [] => .error (.before (.unfinished .value) [])
  | c :: s =>
    if isDigit c then .ok (powerDigits negative (digitValue c) s)
    else .error (.atNext .badNumber (c :: s))

theorem powerTail_length {s r : List Char} {p : Power} (h : powerTail s = .ok (p, r)) :
    r.length < s.length := by
  unfold powerTail at h
  -- After the sign, if there is one, the text is no longer than it was; that is all that is used.
  have key : ∀ (negative : Bool) (t : List Char), t.length ≤ s.length →
      (match t with
        | [] => (.error (.before (.unfinished .value) []) : Read Power)
        | c :: s =>
          if isDigit c then .ok (powerDigits negative (digitValue c) s)
          else .error (.atNext .badNumber (c :: s))) = .ok (p, r) → r.length < s.length := by
    intro negative t ht h
    split at h
    · simp at h
    · rename_i c u
      split at h
      · have := powerDigits_length negative (digitValue c) u
        simp only [Except.ok.injEq] at h
        simp only [h] at this
        simp only [List.length_cons] at ht
        omega
      · simp at h
  split at h
  exact key _ _ (by split at * <;> simp_all) h

/-- An exponent, if there is one. -/
def power (s : List Char) : Read (Option Power) :=
  match s with
  | c :: t =>
    if c = 'e' ∨ c = 'E' then (powerTail t).map fun (p, r) => (some p, r) else .ok (none, s)
  | [] => .ok (none, [])

theorem power_length {s r : List Char} {p : Option Power} (h : power s = .ok (p, r)) :
    r.length ≤ s.length := by
  unfold power at h
  split at h
  · rename_i c t
    split at h
    · obtain ⟨x, hx, hr⟩ := map_eq_ok h
      cases hr
      exact Nat.le_succ_of_le (Nat.le_of_lt (powerTail_length hx))
    · simp only [Except.ok.injEq, Prod.mk.injEq] at h; simp [← h.2]
  · simp only [Except.ok.injEq, Prod.mk.injEq] at h; simp [← h.2]

/-- `10 ^ e`, for an exponent that binary64 numbers reach. -/
def powerOfTen? (e : Nat) : Option Binary64 := Binary64.round? false (Decimal.tenTo e) 1

/-- A binary64 number times a power of ten.  Downwards it goes by 308 places at a time, because
`10 ^ 308` is the largest power of ten there is. -/
def scaleByTen (x : Binary64) (e : Int) : Option Binary64 :=
  if 308 < e then (if x.isZero then some x else none)
  else if 0 ≤ e then (powerOfTen? e.toNat).bind x.mul?
  else if -308 ≤ e then (powerOfTen? (-e).toNat).bind x.div?
  else if x.isZero then some x
  else ((powerOfTen? 308).bind x.div?).bind fun y => scaleByTen y (e + 308)
termination_by e.natAbs
decreasing_by omega

/-- The binary64 number with these gathered digits, times a power of ten. -/
def floatOf? (negative : Bool) (digits : Nat) (e : Int) : Option Binary64 :=
  ((Binary64.round? false digits 1).bind (scaleByTen · e)).map
    fun x => if negative then x.neg else x

/-- The number that the gathered digits and the power stand for; `end` is the text after it. -/
def numberOf (negative : Bool) (digits : Nat) (shift : Int) (p : Power) (rest : List Char) :
    Read Number :=
  match p with
  | .exact e =>
    match floatOf? negative digits (shift + e) with
    | some x => .ok (.float x, rest)
    | none => .error (.before .numberTooLarge rest)
  | .huge down after =>
    if digits ≠ 0 ∧ ¬ down then .error (.before .numberTooLarge after)
    else .ok (.float (if negative then Binary64.zero.neg else .zero), rest)

theorem numberOf_rest {negative : Bool} {digits : Nat} {shift : Int} {p : Power} {t r : List Char}
    {n : Number} (h : numberOf negative digits shift p t = .ok (n, r)) : r = t := by
  unfold numberOf at h
  split at h
  · split at h
    · simp only [Except.ok.injEq, Prod.mk.injEq] at h; exact h.2.symm
    · simp at h
  · split at h
    · simp at h
    · simp only [Except.ok.injEq, Prod.mk.injEq] at h; exact h.2.symm

/-- A number without point and exponent, if it fits 64 bits; `-0` is not an integer. -/
def wholeNumber (negative : Bool) (digits : Nat) : Number :=
  let n : Int := if negative then -digits else digits
  if h : FitsWord n ∧ ¬ (negative ∧ digits = 0) then .integer n h.1
  else .float ((floatOf? negative digits 0).getD .zero)

/-- The part of a number after its whole digits: `dropped` of those did not fit. -/
def numberTail (negative : Bool) (digits dropped : Nat) (s : List Char) : Read Number :=
  match s with
  | '.' :: t =>
    match t with
    | [] => .error (.before (.unfinished .value) [])
    | c :: _ =>
      if isDigit c then
        let (digits, count, u) := gather digits t
        match power (skipDigits u) with
        | .error f => .error f
        | .ok (p, r) => numberOf negative digits ((dropped : Int) - count) (p.getD (.exact 0)) r
      else .error (.atNext .badNumber t)
  | s =>
    match power s with
    | .error f => .error f
    | .ok (some p, r) => numberOf negative digits dropped p r
    | .ok (none, r) =>
      if dropped = 0 then .ok (wholeNumber negative digits, r)
      else numberOf negative digits dropped (.exact 0) r

theorem numberTail_length {negative : Bool} {digits dropped : Nat} {s r : List Char} {n : Number}
    (h : numberTail negative digits dropped s = .ok (n, r)) : r.length ≤ s.length := by
  unfold numberTail at h
  split at h
  · rename_i t
    split at h
    · simp at h
    · rename_i c u
      split at h
      · have hg := gather_length digits (c :: u)
        split at h
        rename_i d count v hv
        rw [hv] at hg
        split at h
        · simp at h
        · rename_i p w hp
          have := power_length hp
          have := skipDigits_length v
          rw [numberOf_rest h]
          simp only [List.length_cons] at hg ⊢
          omega
      · simp at h
  · split at h
    · simp at h
    · rename_i p w hp
      rw [numberOf_rest h]; exact power_length hp
    · rename_i w hp
      have := power_length hp
      split at h
      · simp only [Except.ok.injEq, Prod.mk.injEq] at h; rw [← h.2]; exact this
      · rw [numberOf_rest h]; exact this

/-- A number after its sign. -/
def unsignedNumber (negative : Bool) (s : List Char) : Read Number :=
  match s with
  | [] => .error (.before (.unfinished .value) [])
  | c :: t =>
    if c = '0' then
      match t with
      | d :: _ =>
        if isDigit d then .error (.atNext .badNumber t) else numberTail negative 0 0 t
      | [] => numberTail negative 0 0 []
    else if isDigit c then
      let (digits, _, u) := gather (digitValue c) t
      numberTail negative digits (u.takeWhile isDigit).length (skipDigits u)
    else .error (.atNext .badNumber s)

theorem unsignedNumber_length {negative : Bool} {s r : List Char} {n : Number}
    (h : unsignedNumber negative s = .ok (n, r)) : r.length < s.length := by
  unfold unsignedNumber at h
  split at h
  · simp at h
  · rename_i c t
    split at h
    · split at h
      · split at h
        · simp at h
        · have := numberTail_length h; simp only [List.length_cons] at *; omega
      · have := numberTail_length h; simp only [List.length_cons] at *; omega
    · split at h
      · have hg := gather_length (digitValue c) t
        split at h
        rename_i d count u hu
        rw [hu] at hg
        have := numberTail_length h
        have := skipDigits_length u
        simp only [List.length_cons] at *
        omega
      · simp at h

/-! ## Scalars -/

/-- A value that is neither an array nor an object. -/
def scalar (s : List Char) : Read Value :=
  match s with
  | [] => .error (.before (.unfinished .value) [])
  | c :: t =>
    if c = 'n' then (keyword ['u', 'l', 'l'] t).map (.null, ·)
    else if c = 't' then (keyword ['r', 'u', 'e'] t).map (.boolean true, ·)
    else if c = 'f' then (keyword ['a', 'l', 's', 'e'] t).map (.boolean false, ·)
    else if c = '-' then (unsignedNumber true t).map fun (n, r) => (.number n, r)
    else if isDigit c then (unsignedNumber false s).map fun (n, r) => (.number n, r)
    else if c = '"' then (stringTail [] t).map fun (x, r) => (.string x, r)
    else .error (.atNext .noValue s)

theorem scalar_length {s r : List Char} {v : Value} (h : scalar s = .ok (v, r)) :
    r.length < s.length := by
  unfold scalar at h
  split at h
  · simp at h
  · rename_i c t
    have hkeyword : ∀ {letters : List Char} {u : Value},
        (keyword letters t).map (u, ·) = .ok (v, r) → r.length < (c :: t).length := by
      intro letters u h
      obtain ⟨x, hx, hr⟩ := map_eq_ok h
      cases hr
      exact Nat.lt_succ_of_le (keyword_length hx)
    split at h
    · exact hkeyword h
    split at h
    · exact hkeyword h
    split at h
    · exact hkeyword h
    split at h
    · obtain ⟨x, hx, hr⟩ := map_eq_ok h
      cases hr
      exact Nat.lt_succ_of_lt (unsignedNumber_length hx)
    split at h
    · obtain ⟨x, hx, hr⟩ := map_eq_ok h
      cases hr
      exact unsignedNumber_length hx
    split at h
    · obtain ⟨x, hx, hr⟩ := map_eq_ok h
      cases hr
      exact Nat.lt_succ_of_lt (stringTail_length hx)
    · simp at h

end CrewChart.Json

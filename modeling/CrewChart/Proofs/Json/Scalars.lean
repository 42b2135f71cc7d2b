import CrewChart.Json.Scalar
import Mathlib.Data.List.Basic

/-!
# Scalars are read back as they were written

What is written is followed by a comma, a bracket, a blank or nothing, and none of these goes on
with a number.  `Delimited` says so of the text after a scalar; with it, reading a scalar off the
front of a longer text is the same as reading the scalar alone.

## What is here

* `stringTail_escape` — the escapes of a string are undone, character by character;
* `unsignedNumber_append` — a number that ends with the text also ends before a delimiter;
* `scalar_integer` — an integer that fits a word is read back;
* `ReadsBack`, `scalar_float` — what is asked of a binary64 number, and what follows from it inside
  a document.

That a binary64 number is read back is asked and not shown, because it is not always so: a number
is read with one rounding for its digits and one for its power of ten.
-/

set_option autoImplicit false

namespace CrewChart.Json

/-! ## Strings -/

theorem hexValue?_hexDigit {n : Nat} (h : n < 16) : hexValue? (hexDigit n) = some n := by
  revert n; decide

/-- The escape of a control character that has no letter. -/
theorem hexFour?_control {n : Nat} (h : n < 0x20) (rest : List Char) :
    hexFour? ('0' :: '0' :: hexDigit (n / 16) :: hexDigit (n % 16) :: rest) = some n := by
  have hzero : hexValue? '0' = some 0 := by decide
  have hhigh := hexValue?_hexDigit (n := n / 16) (by omega)
  have hlow := hexValue?_hexDigit (n := n % 16) (by omega)
  simp only [hexFour?, hzero, hhigh, hlow, Option.bind_eq_bind, Option.bind_some]
  congr 1
  omega

/-- A code unit is taken from four bytes, and these four characters have one byte each. -/
theorem codeUnit_control {n : Nat} (h : n < 0x20) (rest : List Char) :
    codeUnit ('0' :: '0' :: hexDigit (n / 16) :: hexDigit (n % 16) :: rest) = .ok n := by
  have hcount : ¬ Text.byteCount
      (('0' :: '0' :: hexDigit (n / 16) :: hexDigit (n % 16) :: rest).take 4) < 4 := by
    show ¬ Text.byteCount ['0', '0', hexDigit (n / 16), hexDigit (n % 16)] < 4
    clear rest
    revert n
    decide
  rw [codeUnit, if_neg hcount, hexFour?_control h]

/-- A backslash and what follows it stand for the character that `escaped` finds. -/
theorem stringTail_backslash {taken s r : List Char} {c : Char} (h : escaped s = .ok (c, r)) :
    stringTail taken ('\\' :: s) = stringTail (c :: taken) r := by
  rw [stringTail, if_neg (by decide), if_pos rfl]
  split
  · rename_i f hf; rw [h] at hf; cases hf
  · rename_i d t hd; rw [h] at hd; cases hd; rfl

theorem escaped_letter {l c : Char} (hl : l ≠ 'u') (h : unescape? l = some c) (rest : List Char) :
    escaped (l :: rest) = .ok (c, rest) := by
  rw [escaped]
  · rw [h]
  · exact fun hu => hl hu

/-- What is written for a character stands for that character. -/
theorem stringTail_escape_cons (taken : List Char) (c : Char) (rest : List Char) :
    stringTail taken (escape c ++ rest) = stringTail (c :: taken) rest := by
  rw [escape]
  split_ifs with hquote hslash hb hf hn hr ht hlow
  · subst hquote; exact stringTail_backslash (escaped_letter (by decide) (by decide) rest)
  · subst hslash; exact stringTail_backslash (escaped_letter (by decide) (by decide) rest)
  · subst hb; exact stringTail_backslash (escaped_letter (by decide) (by decide) rest)
  · subst hf; exact stringTail_backslash (escaped_letter (by decide) (by decide) rest)
  · subst hn; exact stringTail_backslash (escaped_letter (by decide) (by decide) rest)
  · subst hr; exact stringTail_backslash (escaped_letter (by decide) (by decide) rest)
  · subst ht; exact stringTail_backslash (escaped_letter (by decide) (by decide) rest)
  · -- a control character without a letter is written as its code, which is no half of a pair
    refine stringTail_backslash ?_
    show escaped ('u' :: '0' :: '0' :: hexDigit (c.toNat / 16) :: hexDigit (c.toNat % 16) :: rest)
      = _
    have hplain : isTrailing c.toNat = false ∧ isLeading c.toNat = false := by
      simp only [isTrailing, isLeading, Bool.and_eq_false_iff, decide_eq_false_iff_not]
      omega
    rw [escaped, codeUnit_control hlow]
    simp only [hplain.1, hplain.2, Bool.false_eq_true, if_false]
    rw [Char.ofNat_toNat]
    rfl
  · rw [List.singleton_append, stringTail, if_neg hquote, if_neg hslash, if_neg hlow]

/-- **The escapes of a string are undone**, up to the quote that closes it. -/
theorem stringTail_escape (taken s rest : List Char) :
    stringTail taken (s.flatMap escape ++ '"' :: rest)
      = .ok (String.ofList (taken.reverse ++ s), rest) := by
  induction s generalizing taken with
  | nil => rw [List.flatMap_nil, List.nil_append, stringTail, if_pos rfl, List.append_nil]
  | cons c s ih =>
    rw [List.flatMap_cons, List.append_assoc, stringTail_escape_cons, ih, List.reverse_cons,
      List.append_assoc, List.singleton_append]

/-! ## What ends a number -/

/-- A power whose text is followed by more text. -/
def Power.before (rest : List Char) : Power → Power
  | .exact e => .exact e
  | .huge negative after => .huge negative (after ++ rest)

/-- Nothing here goes on with a number that has been read up to this text. -/
def Delimited (s : List Char) : Prop :=
  ∀ c ∈ s.head?, isDigit c = false ∧ c ≠ '.' ∧ c ≠ 'e' ∧ c ≠ 'E'

theorem delimited_nil : Delimited [] := by
  rintro c ⟨⟩

theorem delimited_cons {c : Char} (h : isDigit c = false ∧ c ≠ '.' ∧ c ≠ 'e' ∧ c ≠ 'E')
    (s : List Char) : Delimited (c :: s) := by
  rintro d ⟨rfl⟩
  exact h

theorem powerTail_of_isDigit {c : Char} (hc : isDigit c = true) (t : List Char) :
    powerTail (c :: t) = .ok (powerDigits false (digitValue c) t) := by
  have hplus : c ≠ '+' := by rintro rfl; exact absurd hc (by decide)
  have hminus : c ≠ '-' := by rintro rfl; exact absurd hc (by decide)
  simp [powerTail, hplus, hminus, hc]

/-- An exponent has at least one digit, after a sign if there is one. -/
theorem powerTail_eq_ok_iff {s : List Char} {x : Power × List Char} :
    powerTail s = .ok x ↔ ∃ c t, isDigit c = true ∧
      (s = c :: t ∧ x = powerDigits false (digitValue c) t ∨
        s = '+' :: c :: t ∧ x = powerDigits false (digitValue c) t ∨
        s = '-' :: c :: t ∧ x = powerDigits true (digitValue c) t) := by
  constructor
  · intro h
    rw [powerTail.eq_def] at h
    split at h
    rename_i n t hsign
    cases t with
    | nil => cases h
    | cons c u =>
      simp only at h
      split_ifs at h with hc
      cases h
      refine ⟨c, u, hc, ?_⟩
      -- `hsign` tells which sign has been taken off.
      split at hsign <;> cases hsign
      · exact .inr (.inl ⟨rfl, rfl⟩)
      · exact .inr (.inr ⟨rfl, rfl⟩)
      · exact .inl ⟨rfl, rfl⟩
  · rintro ⟨c, t, hc, ⟨rfl, rfl⟩ | ⟨rfl, rfl⟩ | ⟨rfl, rfl⟩⟩
    · exact powerTail_of_isDigit hc t
    · simp only [powerTail, if_pos hc]
    · simp only [powerTail, if_pos hc]
section Tail

variable {negative : Bool} {digits dropped : Nat} {s r : List Char}

theorem numberTail_of_power {p : Power} (hs : s.head? ≠ some '.')
    (hp : power s = .ok (some p, r)) :
    numberTail negative digits dropped s = numberOf negative digits dropped p r := by
  rw [numberTail, hp]
  rintro t rfl
  exact hs rfl

theorem numberTail_of_end (hs : s.head? ≠ some '.') (hp : power s = .ok (none, r)) :
    numberTail negative digits dropped s =
      if dropped = 0 then .ok (wholeNumber negative digits, r)
      else numberOf negative digits dropped (.exact 0) r := by
  rw [numberTail, hp]
  rintro t rfl
  exact hs rfl

theorem numberTail_of_error {f : Failure} (hs : s.head? ≠ some '.') (hp : power s = .error f) :
    numberTail negative digits dropped s = .error f := by
  rw [numberTail, hp]
  rintro t rfl
  exact hs rfl

end Tail

section Numbers

variable {rest : List Char} (hrest : Delimited rest)
include hrest

theorem gather_delimited (n : Nat) : gather n rest = (n, 0, rest) := by
  cases rest with
  | nil => rfl
  | cons c s => rw [gather, (hrest c rfl).1, Bool.false_and, if_neg Bool.false_ne_true]

/-- A delimiter ends the digits that are counted. -/
theorem gather_append (n : Nat) (s : List Char) :
    gather n (s ++ rest) = ((gather n s).1, (gather n s).2.1, (gather n s).2.2 ++ rest) := by
  induction s generalizing n with
  | nil => exact gather_delimited hrest n
  | cons c s ih =>
    rw [List.cons_append, gather, gather]
    split_ifs with hc
    · rw [ih]
    · rfl

theorem takeWhile_isDigit_append (s : List Char) :
    (s ++ rest).takeWhile isDigit = s.takeWhile isDigit := by
  induction s with
  | nil =>
    cases rest with
    | nil => rfl
    | cons c s => simp [(hrest c rfl).1]
  | cons c s ih => rw [List.cons_append, List.takeWhile_cons, List.takeWhile_cons, ih]

theorem skipDigits_append (s : List Char) : skipDigits (s ++ rest) = skipDigits s ++ rest := by
  induction s with
  | nil =>
    cases rest with
    | nil => rfl
    | cons c s => simp [skipDigits, (hrest c rfl).1]
  | cons c s ih =>
    rw [List.cons_append, skipDigits, skipDigits, List.dropWhile_cons, List.dropWhile_cons]
    split_ifs
    · exact ih
    · rfl

theorem powerDigits_append (negative : Bool) (e : Nat) (s : List Char) :
    powerDigits negative e (s ++ rest)
      = ((powerDigits negative e s).1.before rest, (powerDigits negative e s).2 ++ rest) := by
  induction s generalizing e with
  | nil =>
    cases rest with
    | nil => rfl
    | cons c s =>
      simp only [List.nil_append, powerDigits, (hrest c rfl).1, Bool.false_eq_true, if_false]
      rfl
  | cons c s ih =>
    rw [List.cons_append, powerDigits, powerDigits]
    by_cases hc : isDigit c
    · by_cases hfits : e * 10 + digitValue c < 0x80000000
      · rw [if_pos hc, if_pos hfits, if_pos hc, if_pos hfits]; exact ih _
      · rw [if_pos hc, if_neg hfits, if_pos hc, if_neg hfits, skipDigits_append hrest]; rfl
    · rw [if_neg hc, if_neg hc]; rfl

/-- It ends an exponent, -/
theorem powerTail_append {s r : List Char} {p : Power} (h : powerTail s = .ok (p, r)) :
    powerTail (s ++ rest) = .ok (p.before rest, r ++ rest) := by
  obtain ⟨c, t, hc, hs⟩ := powerTail_eq_ok_iff.1 h
  refine powerTail_eq_ok_iff.2 ⟨c, t ++ rest, hc, ?_⟩
  rw [powerDigits_append hrest, powerDigits_append hrest]
  rcases hs with ⟨rfl, hp⟩ | ⟨rfl, hp⟩ | ⟨rfl, hp⟩
  · exact .inl ⟨rfl, by rw [← hp]⟩
  · exact .inr (.inl ⟨rfl, by rw [← hp]⟩)
  · exact .inr (.inr ⟨rfl, by rw [← hp]⟩)

/-- also one that is not there. -/
theorem power_append {s r : List Char} {p : Option Power} (h : power s = .ok (p, r)) :
    power (s ++ rest) = .ok (p.map (Power.before rest), r ++ rest) := by
  cases s with
  | nil =>
    cases h
    cases rest with
    | nil => rfl
    | cons c s =>
      -- the number has no exponent, and the delimiter begins none
      have hc := hrest c rfl
      rw [List.nil_append, power, if_neg (by simp [hc])]
      rfl
  | cons c s =>
    rw [power] at h
    rw [List.cons_append, power]
    split_ifs at h ⊢ with hc
    · cases hp : powerTail s with
      | error f => rw [hp] at h; cases h
      | ok x =>
        rw [hp] at h
        cases h
        rw [powerTail_append hrest hp]
        rfl
    · cases h; rfl

omit hrest in
theorem numberOf_append {negative : Bool} {digits : Nat} {shift : Int} {p : Power}
    {s r : List Char} {n : Number} (h : numberOf negative digits shift p s = .ok (n, r)) :
    numberOf negative digits shift (p.before rest) (s ++ rest) = .ok (n, r ++ rest) := by
  cases p with
  | exact e =>
    simp only [Power.before, numberOf] at h ⊢
    cases hx : floatOf? negative digits (shift + e) with
    | none => rw [hx] at h; cases h
    | some x => rw [hx] at h; cases h; rfl
  | huge down after =>
    simp only [Power.before, numberOf] at h ⊢
    by_cases hbig : digits ≠ 0 ∧ ¬ down
    · rw [if_pos hbig] at h; cases h
    · rw [if_neg hbig] at h ⊢; cases h; rfl

/-- So it ends whatever may follow the whole digits of a number. -/
theorem numberTail_append {negative : Bool} {digits dropped : Nat} {s r : List Char} {n : Number}
    (h : numberTail negative digits dropped s = .ok (n, r)) :
    numberTail negative digits dropped (s ++ rest) = .ok (n, r ++ rest) := by
  by_cases hs : s.head? = some '.'
  · obtain ⟨t, rfl⟩ : ∃ t, s = '.' :: t := by cases s <;> simp_all
    cases t with
    | nil => cases h
    | cons c t =>
      simp only [numberTail, List.cons_append] at h ⊢
      split_ifs at h ⊢ with hc
      rw [← List.cons_append, gather_append hrest]
      simp only [skipDigits_append hrest]
      cases hp : power (skipDigits (gather digits (c :: t)).2.2) with
      | error f => rw [hp] at h; cases h
      | ok x =>
        obtain ⟨p, u⟩ := x
        rw [hp] at h
        rw [power_append hrest hp]
        cases p with
        | none => exact numberOf_append h
        | some p => exact numberOf_append h
  · have hs' : (s ++ rest).head? ≠ some '.' := by
      cases s with
      | nil => exact fun h => (hrest _ h).2.1 rfl
      | cons c t => exact hs
    cases hp : power s with
    | error f => rw [numberTail_of_error hs hp] at h; cases h
    | ok x =>
      obtain ⟨p, u⟩ := x
      have hp' := power_append hrest hp
      -- where nothing follows the digits the number is whole, unless digits have been dropped
      cases p with
      | none =>
        rw [numberTail_of_end hs hp] at h
        rw [numberTail_of_end hs' hp']
        split_ifs at h ⊢
        · cases h; rfl
        · exact numberOf_append h
      | some p =>
        rw [numberTail_of_power hs hp] at h
        rw [numberTail_of_power hs' hp']
        exact numberOf_append h

/-- **A number that ends with the text also ends before a delimiter.** -/
theorem unsignedNumber_append {negative : Bool} {s r : List Char} {n : Number}
    (h : unsignedNumber negative s = .ok (n, r)) :
    unsignedNumber negative (s ++ rest) = .ok (n, r ++ rest) := by
  cases s with
  | nil => cases h
  | cons c t =>
    rw [List.cons_append]
    simp only [unsignedNumber] at h ⊢
    split_ifs at h ⊢ with hzero hdigit
    · cases t with
      | nil =>
        have := numberTail_append hrest h
        cases rest with
        | nil => exact this
        | cons d u =>
          simp only [List.nil_append, (hrest d rfl).1, Bool.false_eq_true, if_false] at this ⊢
          exact this
      | cons d t =>
        simp only [List.cons_append] at h ⊢
        split_ifs at h ⊢
        exact numberTail_append hrest h
    · rw [gather_append hrest]
      simp only at h ⊢
      rw [takeWhile_isDigit_append hrest, skipDigits_append hrest]
      exact numberTail_append hrest h

end Numbers

/-! ## Integers -/

/-- The digits of a number that is not zero do not begin with a zero, which would be all that is
read. -/
theorem toDigits_head_ne_zero {m : Nat} (hm : 0 < m) {c : Char} {t : List Char}
    (h : Nat.toDigits 10 m = c :: t) : c ≠ '0' := by
  induction m using Nat.strongRecOn generalizing c t with
  | _ m ih =>
    -- the first digit is that of a tenth of the number
    by_cases hlt : m < 10
    · rw [Nat.toDigits_of_lt_base hlt] at h
      rintro rfl
      have := (List.cons.inj h).1
      rw [Nat.digitChar_eq_zero] at this
      omega
    · rw [Nat.toDigits_of_base_le (by decide) (by omega)] at h
      cases hd : Nat.toDigits 10 (m / 10) with
      | nil => exact absurd hd Nat.toDigits_ne_nil
      | cons d u =>
        rw [hd] at h
        rw [← (List.cons.inj h).1]
        exact ih (m / 10) (by omega) (by omega) hd

theorem le_ofDigitChars (ds : List Char) (n : Nat) : n ≤ Nat.ofDigitChars 10 ds n := by
  rw [Nat.ofDigitChars_eq_ofDigitChars_zero]
  have : 1 * n ≤ 10 ^ ds.length * n := Nat.mul_le_mul_right n (Nat.one_le_pow _ _ (by decide))
  omega

/-- Digits of a number that fits a word are all counted. -/
theorem gather_digits {n : Nat} {ds : List Char} (hds : ∀ c ∈ ds, isDigit c = true)
    (hfits : Nat.ofDigitChars 10 ds n < 0x10000000000000000) :
    gather n ds = (Nat.ofDigitChars 10 ds n, ds.length, []) := by
  induction ds generalizing n with
  | nil => rfl
  | cons c ds ih =>
    have hstep : n * 10 + digitValue c = 10 * n + (c.toNat - '0'.toNat) := by
      rw [Nat.mul_comm]; rfl
    rw [Nat.ofDigitChars_cons, ← hstep] at hfits ⊢
    have hle := le_ofDigitChars ds (n * 10 + digitValue c)
    rw [gather, hds c List.mem_cons_self, Bool.true_and,
      if_pos (decide_eq_true (Nat.lt_of_le_of_lt hle hfits)),
      ih (fun d hd => hds d (List.mem_cons_of_mem _ hd)) hfits]
    rfl

/-- The digits of a whole number are read as that number. -/
theorem unsignedNumber_toDigits (negative : Bool) {m : Nat} (hm : m < 0x10000000000000000) :
    unsignedNumber negative (Nat.toDigits 10 m) = .ok (wholeNumber negative m, []) := by
  have hall : ∀ c ∈ Nat.toDigits 10 m, isDigit c = true := fun c hc =>
    Nat.isDigit_of_mem_toDigits (by decide) (by decide) hc
  have hval := Nat.ofDigitChars_ten_toDigits (n := m)
  rcases Nat.eq_zero_or_pos m with rfl | hpos
  · rw [Nat.toDigits_zero]; rfl
  · cases hd : Nat.toDigits 10 m with
    | nil => exact absurd hd Nat.toDigits_ne_nil
    | cons c ds =>
      have hc := toDigits_head_ne_zero hpos hd
      rw [hd] at hall hval
      have hstart : 10 * 0 + (c.toNat - '0'.toNat) = digitValue c := Nat.zero_add _
      rw [Nat.ofDigitChars_cons, hstart] at hval
      have hg : gather (digitValue c) ds = (m, ds.length, []) := by
        rw [gather_digits (fun d hd => hall d (List.mem_cons_of_mem _ hd)) (by rw [hval]; exact hm),
          hval]
      simp only [unsignedNumber, if_neg hc, hall c List.mem_cons_self, if_true, hg]
      rfl

/-- An integer that fits a word stays an integer; only a zero with a sign would not. -/
theorem wholeNumber_natAbs {n : Int} (hn : FitsWord n) :
    wholeNumber (decide (n < 0)) n.natAbs = .integer n hn := by
  have hval : (if decide (n < 0) = true then -(n.natAbs : Int) else n.natAbs) = n := by
    split_ifs with h
    · rw [decide_eq_true_iff] at h; omega
    · rw [decide_eq_true_iff] at h; omega
  have hzero : ¬ (decide (n < 0) = true ∧ n.natAbs = 0) := by
    rw [decide_eq_true_iff]; omega
  rw [wholeNumber]
  simp only [hval]
  rw [dif_pos ⟨hn, hzero⟩]

/-- The text of a number goes on being that number before a delimiter. -/
theorem scalar_number_append {s r rest : List Char} {n : Number} (hrest : Delimited rest)
    (h : scalar s = .ok (.number n, r)) : scalar (s ++ rest) = .ok (.number n, r ++ rest) := by
  -- the other scalars are no numbers
  have other : ∀ {α : Type} {e : Except Failure α} {f : α → Value × List Char},
      (∀ a, (f a).1 ≠ .number n) → e.map f ≠ .ok (.number n, r) := by
    intro α e f hf h
    cases e with
    | error => cases h
    | ok a => exact hf a (by rw [Except.ok.inj h])
  have number : ∀ {negative : Bool} {t : List Char},
      (unsignedNumber negative t).map (fun x => (Value.number x.1, x.2)) = .ok (.number n, r) →
      (unsignedNumber negative (t ++ rest)).map (fun x => (Value.number x.1, x.2))
        = .ok (.number n, r ++ rest) := by
    intro negative t h
    cases hu : unsignedNumber negative t with
    | error f => rw [hu] at h; cases h
    | ok x =>
      rw [hu] at h
      cases h
      rw [unsignedNumber_append hrest hu]
      rfl
  cases s with
  | nil => cases h
  | cons c t =>
    rw [scalar] at h
    rw [List.cons_append, scalar]
    split_ifs at h ⊢
    · exact absurd h (other fun _ => by simp)
    · exact absurd h (other fun _ => by simp)
    · exact absurd h (other fun _ => by simp)
    · exact number h
    · exact number h
    · exact absurd h (other fun _ => by simp)

/-- A number without a sign is known by its digits. -/
theorem scalar_unsigned {s r : List Char} {n : Number} (h : unsignedNumber false s = .ok (n, r)) :
    scalar s = .ok (.number n, r) := by
  cases s with
  | nil => cases h
  | cons c t =>
    have hc : isDigit c = true := by
      by_contra hc
      have hzero : c ≠ '0' := by rintro rfl; exact hc (by decide)
      simp only [unsignedNumber, if_neg hzero, if_neg hc] at h
      cases h
    have hne : ∀ d, isDigit d = false → c ≠ d := by
      rintro d hd rfl
      rw [hc] at hd
      cases hd
    rw [scalar, if_neg (hne 'n' (by decide)), if_neg (hne 't' (by decide)),
      if_neg (hne 'f' (by decide)), if_neg (hne '-' (by decide)), if_pos hc, h]
    rfl

theorem scalar_signed {s r : List Char} {n : Number} (h : unsignedNumber true s = .ok (n, r)) :
    scalar ('-' :: s) = .ok (.number n, r) := by
  rw [scalar, if_neg (by decide), if_neg (by decide), if_neg (by decide), if_pos rfl, h]
  rfl

/-- **An integer that fits a word is read back.** -/
theorem scalar_integer {n : Int} (hn : FitsWord n) {rest : List Char} (hrest : Delimited rest) :
    scalar ((toString n).toList ++ rest) = .ok (.number (.integer n hn), rest) := by
  refine scalar_number_append (r := []) hrest ?_
  cases n with
  | ofNat m =>
    have hsmall : (m : Int) < 0x10000000000000000 := hn.2
    have htext : (toString (Int.ofNat m)).toList = Nat.toDigits 10 m := Nat.toList_repr
    have hread : wholeNumber false m = .integer (Int.ofNat m) hn := wholeNumber_natAbs hn
    rw [htext, ← hread]
    exact scalar_unsigned (unsignedNumber_toDigits false (by omega))
  | negSucc m =>
    have hsmall : -0x8000000000000000 ≤ -((m + 1 : Nat) : Int) := hn.1
    have htext : (toString (Int.negSucc m)).toList = '-' :: Nat.toDigits 10 (m + 1) := by
      show ("-" ++ Nat.repr (m + 1)).toList = _
      rw [String.toList_append, Nat.toList_repr]
      rfl
    have hread := wholeNumber_natAbs hn
    rw [decide_eq_true (Int.negSucc_lt_zero m), Int.natAbs_negSucc] at hread
    rw [htext, ← hread]
    exact scalar_signed (unsignedNumber_toDigits true (by omega))

/-! ## Binary64 numbers -/

/-- A binary64 number that is read back as it was printed. -/
def ReadsBack (x : Binary64) : Prop :=
  scalar (Number.floatText x).toList = .ok (.number (.float x), [])

/-- **A number that is read back alone is read back inside a document.** -/
theorem scalar_float {x : Binary64} (hx : ReadsBack x) {rest : List Char}
    (hrest : Delimited rest) :
    scalar ((Number.floatText x).toList ++ rest) = .ok (.number (.float x), rest) :=
  scalar_number_append hrest hx

end CrewChart.Json

import CrewChart.Decimal.Reading
import CrewChart.Proofs.Decimal.Shortest

/-!
# Reading decimals back

A whole number is read back from its digits, and a decimal from its digits, point and exponent in
whatever way these are set.  Which binary64 number a decimal is taken to depends on its value only:
it is the number the value is rounded to.  The bounds at which the reader skips the arithmetic are
too wide to touch a decimal that is rounded to a number other than zero.

## What is here

* `integer?_toString` — whole numbers.
* `Spelling` — digits, point and exponent, one after the other, and what is read from them.
* `nearest?_of_rounds` — the number a value is rounded to.
* `parse?_toString`, `nearest?_word` — the same for whole numbers.
-/

set_option autoImplicit false

namespace CrewChart.Decimal

/-! ## Digits -/

section Digits

variable {ds rest : List Char}

theorem ofDigits_eq (ds : List Char) : ofDigits ds = Nat.ofDigitChars 10 ds 0 := by
  rw [ofDigits, Nat.ofDigitChars_eq_foldl]
  congr 1
  funext n c
  rw [Nat.mul_comm]
  rfl

theorem ofDigits_toDigits (n : Nat) : ofDigits (Nat.toDigits 10 n) = n := by
  rw [ofDigits_eq, Nat.ofDigitChars_ten_toDigits]

/-- Zeros after the digits multiply by powers of ten, and zeros before them do nothing. -/
theorem ofDigits_append_zeros (ds : List Char) (k : Nat) :
    ofDigits (ds ++ List.replicate k '0') = ofDigits ds * 10 ^ k := by
  rw [ofDigits_eq, ofDigits_eq, Nat.ofDigitChars_append, Nat.ofDigitChars_replicate_zero,
    Nat.mul_comm]

theorem ofDigits_zeros_append (k : Nat) (ds : List Char) :
    ofDigits (List.replicate k '0' ++ ds) = ofDigits ds := by
  rw [ofDigits_eq, ofDigits_eq, Nat.ofDigitChars_append, Nat.ofDigitChars_replicate_zero,
    Nat.mul_zero]

theorem isDigit_of_mem_toDigits {n : Nat} {c : Char} (h : c ∈ Nat.toDigits 10 n) :
    isDigit c = true :=
  Nat.isDigit_of_mem_toDigits (by decide) (by decide) h

/-- A run of characters of one kind, up to the first of another. -/
theorem takeWhile_run {p : Char → Bool} (hds : ∀ c ∈ ds, p c = true)
    (hrest : ∀ c ∈ rest.head?, p c = false) : (ds ++ rest).takeWhile p = ds := by
  rw [List.takeWhile_append_of_pos hds]
  cases rest with
  | nil => exact List.append_nil ds
  | cons c rest => rw [List.takeWhile_cons_of_neg (by simp [hrest c rfl]), List.append_nil]

theorem dropWhile_run {p : Char → Bool} (hds : ∀ c ∈ ds, p c = true)
    (hrest : ∀ c ∈ rest.head?, p c = false) : (ds ++ rest).dropWhile p = rest := by
  rw [List.dropWhile_append_of_pos hds]
  cases rest with
  | nil => rfl
  | cons c rest => rw [List.dropWhile_cons_of_neg (by simp [hrest c rfl])]

/-- The sign of a written number. -/
def signText (negative : Bool) : List Char := if negative then ['-'] else []

theorem signed_signText (negative : Bool) {c : Char} (hc : isDigit c = true) (s : List Char) :
    signed (signText negative ++ c :: s) = (negative, c :: s) := by
  cases negative with
  | true => rfl
  | false =>
    rw [signText, if_neg Bool.false_ne_true, List.nil_append, signed]
    · rintro r ⟨⟩
      exact absurd hc (by decide)
    · rintro r ⟨⟩
      exact absurd hc (by decide)

end Digits

/-! ## Whole numbers -/

theorem integer?_signText (negative : Bool) (n : Nat) :
    integer? (String.ofList (signText negative ++ Nat.toDigits 10 n))
      = some (if negative then -(n : Int) else n) := by
  obtain ⟨c, ds, hds⟩ := List.exists_cons_of_ne_nil (Nat.toDigits_ne_nil (b := 10) (n := n))
  have hall : ∀ d ∈ c :: ds, isDigit d = true := fun d hd =>
    isDigit_of_mem_toDigits (n := n) (hds ▸ hd)
  rw [integer?, String.toList_ofList, hds, signed_signText negative (hall c List.mem_cons_self)]
  dsimp only
  rw [if_pos ⟨List.cons_ne_nil c ds, List.all_eq_true.mpr hall⟩, ← hds, ofDigits_toDigits]

theorem toString_eq_signText (n : Int) :
    toString n = String.ofList (signText (decide (n < 0)) ++ Nat.toDigits 10 n.natAbs) := by
  have hdigits (m : Nat) : toString m = String.ofList (Nat.toDigits 10 m) :=
    Nat.toString_eq_ofList_toDigits
  cases n with
  | ofNat n => exact hdigits n
  | negSucc n =>
    rw [show toString (Int.negSucc n) = "-" ++ toString (n + 1) from rfl, hdigits,
      decide_eq_true (Int.negSucc_lt_zero n), String.ofList_append]
    rfl

/-- **A whole number is read back from its digits.** -/
theorem integer?_toString (n : Int) : integer? (toString n) = some n := by
  rw [toString_eq_signText, integer?_signText]
  congr 1
  split_ifs with h <;> simp only [decide_eq_true_eq] at h <;> omega

/-! ## Decimal numbers -/

/-- Digits after a point; none at all need no point. -/
def pointText (fraction : List Char) : List Char := if fraction = [] then [] else '.' :: fraction

/-- A decimal as it is set: digits, perhaps some after a point, perhaps an exponent. -/
structure Spelling where
  whole : List Char
  fraction : List Char
  power : List Char
  exponent : Int
  whole_ne_nil : whole ≠ []
  isDigit_whole : ∀ c ∈ whole, isDigit c = true
  isDigit_fraction : ∀ c ∈ fraction, isDigit c = true
  exponent?_power : exponent? power = some exponent

namespace Spelling

variable (p : Spelling)

def text : List Char := p.whole ++ (pointText p.fraction ++ p.power)

def decimal : Decimal := ⟨ofDigits (p.whole ++ p.fraction), p.exponent - p.fraction.length⟩

/-- Whether it is more than whole digits. -/
def IsFractional : Prop := p.fraction ≠ [] ∨ p.power ≠ []

theorem head_power : ∀ c ∈ p.power.head?, isDigit c = false ∧ c ≠ '.' := by
  have h := p.exponent?_power
  cases hpower : p.power with
  | nil => exact fun c hc => nomatch hc
  | cons c s =>
    rintro d ⟨⟩
    rw [hpower, exponent?] at h
    split_ifs at h with hc
    all_goals
      obtain rfl | rfl := hc <;> exact ⟨by decide, by decide⟩

/-- The whole digits end where a point or an exponent begins. -/
theorem head_after_whole : ∀ c ∈ (pointText p.fraction ++ p.power).head?, isDigit c = false := by
  rw [pointText]
  split_ifs
  · exact fun c hc => (p.head_power c hc).1
  · rintro c ⟨⟩
    rfl

theorem signed_text (negative : Bool) :
    signed (signText negative ++ p.text) = (negative, p.text) := by
  obtain ⟨c, ds, hwhole⟩ := List.exists_cons_of_ne_nil p.whole_ne_nil
  rw [text, hwhole, List.cons_append]
  exact signed_signText negative (p.isDigit_whole c (hwhole ▸ List.mem_cons_self)) _

/-- **A decimal is read back from what is set**, whatever of its point and its exponent there is. -/
theorem parse?_text (negative : Bool) :
    parse? (String.ofList (signText negative ++ p.text)) = some (negative, p.decimal) := by
  have hdigits (c : Char) (hc : c ∈ p.power.head?) : isDigit c = false := (p.head_power c hc).1
  rw [parse?, String.toList_ofList, p.signed_text, text]
  dsimp only
  rw [takeWhile_run p.isDigit_whole p.head_after_whole,
    dropWhile_run p.isDigit_whole p.head_after_whole, decimal]
  -- without a fraction there is no point, so the exponent comes at once
  obtain hnone | hsome := eq_or_ne p.fraction []
  · rw [hnone, pointText, if_pos rfl, List.nil_append]
    split
    case h_1 r hpower => exact absurd rfl (p.head_power '.' (hpower ▸ rfl)).2
    case h_2 => rw [if_neg (fun h => p.whole_ne_nil h.1), p.exponent?_power]; rfl
  · rw [pointText, if_neg hsome, List.cons_append]
    split
    case h_1 r heq =>
      obtain rfl := (List.cons.inj heq).2
      rw [takeWhile_run p.isDigit_fraction hdigits, dropWhile_run p.isDigit_fraction hdigits,
        if_neg (fun h => p.whole_ne_nil h.1), p.exponent?_power]
      rfl
    case h_2 hpoint => exact absurd rfl (hpoint _)

/-- Such a decimal is no whole number. -/
theorem integer?_text (h : p.IsFractional) (negative : Bool) :
    integer? (String.ofList (signText negative ++ p.text)) = none := by
  have hother : ∃ c ∈ p.text, isDigit c = false := by
    have hrest : pointText p.fraction ++ p.power ≠ [] := by
      rw [pointText]
      split_ifs with hnone
      · exact h.resolve_left (not_not_intro hnone)
      · exact List.cons_ne_nil _ _
    obtain ⟨c, r, hr⟩ := List.exists_cons_of_ne_nil hrest
    exact ⟨c, List.mem_append_right _ (hr ▸ List.mem_cons_self), p.head_after_whole c (hr ▸ rfl)⟩
  obtain ⟨c, hc, hfalse⟩ := hother
  rw [integer?, String.toList_ofList, p.signed_text]
  dsimp only
  rw [if_neg]
  rintro ⟨-, hall⟩
  exact absurd (List.all_eq_true.mp hall c hc) (by simp [hfalse])

theorem exponent?_nil : exponent? [] = some 0 := rfl

/-- Digits alone. -/
def ofNat (n : Nat) : Spelling where
  whole := Nat.toDigits 10 n
  fraction := []
  power := []
  exponent := 0
  whole_ne_nil := Nat.toDigits_ne_nil
  isDigit_whole _ hc := isDigit_of_mem_toDigits hc
  isDigit_fraction _ hc := absurd hc List.not_mem_nil
  exponent?_power := exponent?_nil

end Spelling

/-- A whole number is a decimal number too. -/
theorem parse?_toString (n : Int) :
    parse? (toString n) = some (decide (n < 0), ⟨n.natAbs, 0⟩) := by
  have htext : (Spelling.ofNat n.natAbs).text = Nat.toDigits 10 n.natAbs := by
    simp [Spelling.text, Spelling.ofNat, pointText]
  have hdecimal : (Spelling.ofNat n.natAbs).decimal = ⟨n.natAbs, 0⟩ := by
    simp [Spelling.decimal, Spelling.ofNat, ofDigits_toDigits]
  rw [toString_eq_signText, ← htext, Spelling.parse?_text, hdecimal]

/-! ## The number of a decimal -/

/-- A number of digits tells the size of a number. -/
theorem width_bounds {n : Nat} (hn : 0 < n) : 10 ^ (width n - 1) ≤ n ∧ n < 10 ^ width n := by
  have hpos : 0 < (Nat.toDigits 10 n).length := Nat.length_toDigits_pos
  rw [width, if_neg hn.ne']
  constructor
  · obtain hone | hmore := (show 1 ≤ (Nat.toDigits 10 n).length from hpos).eq_or_lt
    · rw [← hone]
      exact hn
    · rw [← not_lt, ← Nat.length_toDigits_le_iff (by decide) (by omega)]
      omega
  · exact (Nat.length_toDigits_le_iff (by decide) hpos).mp le_rfl

section Nearest

open Binary64 (Rounds)

variable {x : Binary64} {d : Decimal}

/-- A decimal that is rounded to a number other than zero is well inside the range where the
arithmetic is done. -/
theorem lead_bounds (hx : x.isZero = false) (h : Rounds x (d.digits * 10 ^ d.place)) :
    0 < d.digits ∧ -330 ≤ d.place + width d.digits ∧ d.place + width d.digits ≤ 310 := by
  have hdigits : 0 < d.digits := by
    rw [Nat.pos_iff_ne_zero]
    intro hzero
    have := h.pos hx
    rw [hzero, Nat.cast_zero, zero_mul] at this
    exact lt_irrefl _ this
  obtain ⟨hleast, hmost⟩ := width_bounds hdigits
  have hplace : (0 : ℚ) < 10 ^ d.place := by positivity
  -- The least number other than zero is above `10 ^ -330`, and no number reaches `10 ^ 310`.
  have hsmall : (10 : ℚ) ^ (-330 : ℤ) ≤ 10 ^ (d.place + width d.digits) := by
    calc (10 : ℚ) ^ (-330 : ℤ) ≤ 2 ^ (-1075 : ℤ) := Binary64.ten_zpow_le (by decide) (by decide)
      _ ≤ (x.significand - x.gapBelow) * 2 ^ x.exponent := Binary64.le_low hx
      _ ≤ d.digits * 10 ^ d.place := h.low
      _ ≤ 10 ^ width d.digits * 10 ^ d.place := by
        gcongr
        exact_mod_cast hmost.le
      _ = 10 ^ (d.place + width d.digits) := by
        rw [zpow_add₀ (by norm_num), zpow_natCast, mul_comm]
  have hlarge : (10 : ℚ) ^ (d.place + (width d.digits - 1 : Nat)) < 10 ^ (310 : ℤ) := by
    calc (10 : ℚ) ^ (d.place + (width d.digits - 1 : Nat))
        = 10 ^ (width d.digits - 1) * 10 ^ d.place := by
          rw [zpow_add₀ (by norm_num), zpow_natCast, mul_comm]
      _ ≤ d.digits * 10 ^ d.place := by
        gcongr
        exact_mod_cast hleast
      _ < 2 ^ (x.exponent + 53) := h.lt_next
      _ ≤ 2 ^ (1024 : ℤ) :=
        zpow_le_zpow_right₀ (by norm_num) (by have := x.exponent_le; omega)
      _ ≤ 10 ^ (310 : ℤ) := by exact_mod_cast (by decide +kernel : 2 ^ 1024 ≤ 10 ^ 310)
  rw [zpow_le_zpow_iff_right₀ (by norm_num)] at hsmall
  rw [zpow_lt_zpow_iff_right₀ (by norm_num)] at hlarge
  omega

/-- A decimal is taken to the number its value is rounded to. -/
theorem nearest?_of_rounds (hx : x.isZero = false) (negative : Bool)
    (h : Rounds x (d.digits * 10 ^ d.place)) :
    nearest? negative d = some { x with negative } := by
  obtain ⟨hdigits, hlow, hhigh⟩ := lead_bounds hx h
  have hratio : (d.digits * tenTo d.place.toNat : Nat) / (tenTo (-d.place).toNat : ℚ)
      = d.digits * 10 ^ d.place := by rw [← tenTo_ratio, Nat.cast_mul, mul_div_assoc]
  rw [← hratio] at h
  have hcode := Binary64.nearestCode_of_rounds (Nat.mul_pos hdigits (tenTo_pos _)) (tenTo_pos _) h
  have hfinite : Binary64.nearestCode (d.digits * tenTo d.place.toNat) (tenTo (-d.place).toNat)
      < Binary64.infinity := hcode ▸ x.finite
  rw [nearest?]
  dsimp only
  rw [if_neg (by omega), if_neg (by omega), Binary64.round?, dif_pos hfinite]
  simp only [hcode]

theorem nearest?_zero (hx : x.isZero = true) (negative : Bool) (place : Int) :
    nearest? negative ⟨0, place⟩ = some { x with negative } := by
  have hcode : x.code = 0 := (Binary64.isZero_iff x).mp hx
  rw [nearest?]
  dsimp only
  rw [if_pos (.inl rfl)]
  simp only [hcode]
  rfl

/-- A word that no signed word holds is taken to the nearest number. -/
theorem nearest?_word {n : Nat} (hlow : 0x8000000000000000 ≤ n)
    (hhigh : n < 0x10000000000000000) :
    nearest? false ⟨n, 0⟩ = some ((Binary64.round? false n 1).getD .zero) := by
  have hround : ∃ x, Binary64.round? false n 1 = some x := by
    rw [← Option.isSome_iff_exists, Option.isSome_iff_ne_none, ne_eq,
      Binary64.round?_eq_none_iff, not_le]
    exact Binary64.nearestCode_lt_infinity hlow hhigh
  obtain ⟨x, hx⟩ := hround
  have hwidth : width n ≤ 20 := by
    rw [width, if_neg (by omega), Nat.length_toDigits_le_iff (by decide) (by decide)]
    omega
  rw [nearest?]
  dsimp only
  rw [if_neg (by omega), if_neg (by omega), show tenTo (0 : Int).toNat = 1 from rfl,
    show tenTo (-0 : Int).toNat = 1 from rfl, Nat.mul_one, hx]
  rfl

end Nearest

end CrewChart.Decimal

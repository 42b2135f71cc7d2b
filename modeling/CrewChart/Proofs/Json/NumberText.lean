import CrewChart.Json.Number
import CrewChart.Proofs.Decimal.Reading

/-!
# Numbers are read back from their text

`Number.layout` sets the digits of a decimal in one of four ways.  Each of them is a
`Decimal.Spelling` of the same value, so a reader that takes a decimal to the nearest number finds
the number the digits were made from.

## What is here

* `exists_spelling_layout` — the four ways to set digits.
* `exists_spelling_floatText` — the number is read from the text of a binary64 number.
-/

set_option autoImplicit false

namespace CrewChart.Json.Number

open Decimal (Spelling ofDigits pointText signText isDigit)

/-! ## The ways to set digits -/

section Layout

variable {cs : List Char} (hcs : ∀ c ∈ cs, isDigit c = true) (hsome : cs ≠ []) {place : Int}

/-- An exponent is written with its sign, also with a plus. -/
theorem exponent?_lead (lead : Int) :
    Decimal.exponent? ('e' :: (if 0 ≤ lead then '+' else '-') :: Nat.toDigits 10 lead.natAbs)
      = some lead := by
  have hdigits : Nat.toDigits 10 lead.natAbs ≠ [] ∧ (Nat.toDigits 10 lead.natAbs).all isDigit :=
    ⟨Nat.toDigits_ne_nil, List.all_eq_true.mpr fun c hc => Decimal.isDigit_of_mem_toDigits hc⟩
  rw [Decimal.exponent?, if_pos (.inl rfl)]
  split_ifs with hlead
  · rw [show Decimal.signed ('+' :: Nat.toDigits 10 lead.natAbs)
      = (false, Nat.toDigits 10 lead.natAbs) from rfl]
    dsimp only
    rw [if_pos hdigits, Decimal.ofDigits_toDigits, if_neg Bool.false_ne_true]
    congr 1
    omega
  · rw [show Decimal.signed ('-' :: Nat.toDigits 10 lead.natAbs)
      = (true, Nat.toDigits 10 lead.natAbs) from rfl]
    dsimp only
    rw [if_pos hdigits, Decimal.ofDigits_toDigits, if_pos rfl]
    congr 1
    omega

theorem toList_point (t : String) :
    (if t.isEmpty then "" else "." ++ t).toList = pointText t.toList := by
  obtain rfl | ht := eq_or_ne t ""
  · rfl
  · rw [if_neg (by simpa using ht), pointText, if_neg (by simpa using ht), String.toList_append]
    rfl

theorem isDigit_of_mem_zeros {k : Nat} : ∀ c ∈ List.replicate k '0', isDigit c = true :=
  fun c hc => by rw [List.eq_of_mem_replicate hc]; rfl

/-- The point after the first digit. -/
def scientific (place : Int) : Spelling where
  whole := cs.take 1
  fraction := cs.drop 1
  power :=
    let lead : Int := place + cs.length - 1
    'e' :: (if 0 ≤ lead then '+' else '-') :: Nat.toDigits 10 lead.natAbs
  exponent := place + cs.length - 1
  whole_ne_nil := by
    obtain ⟨c, ds, rfl⟩ := List.exists_cons_of_ne_nil hsome
    exact List.cons_ne_nil c _
  isDigit_whole c hc := hcs c (List.mem_of_mem_take hc)
  isDigit_fraction c hc := hcs c (List.mem_of_mem_drop hc)
  exponent?_power := exponent?_lead _

/-- Zeros after the digits. -/
def padded (zeros : Nat) : Spelling where
  whole := cs ++ List.replicate zeros '0'
  fraction := ['0']
  power := []
  exponent := 0
  whole_ne_nil := by simp [hsome]
  isDigit_whole c hc := (List.mem_append.mp hc).elim (hcs c) (isDigit_of_mem_zeros c)
  isDigit_fraction := isDigit_of_mem_zeros (k := 1)
  exponent?_power := rfl

/-- The point inside the digits. -/
def pointed {k : Nat} (hk : 0 < k) : Spelling where
  whole := cs.take k
  fraction := cs.drop k
  power := []
  exponent := 0
  whole_ne_nil := by simp [hsome, hk.ne']
  isDigit_whole c hc := hcs c (List.mem_of_mem_take hc)
  isDigit_fraction c hc := hcs c (List.mem_of_mem_drop hc)
  exponent?_power := rfl

/-- Zeros before the digits. -/
def below (zeros : Nat) : Spelling where
  whole := ['0']
  fraction := List.replicate zeros '0' ++ cs
  power := []
  exponent := 0
  whole_ne_nil := List.cons_ne_nil _ _
  isDigit_whole := isDigit_of_mem_zeros (k := 1)
  isDigit_fraction c hc := (List.mem_append.mp hc).elim (isDigit_of_mem_zeros c) (hcs c)
  exponent?_power := rfl

/-- Each of them has the value of the digits at their place. -/
theorem decimal_scientific : (scientific hcs hsome place).decimal = ⟨ofDigits cs, place⟩ := by
  have hlength : 0 < cs.length := List.length_pos_iff.mpr hsome
  simp only [scientific, Spelling.decimal, List.take_append_drop, List.length_drop]
  congr 1
  omega

theorem decimal_padded (zeros : Nat) :
    (padded hcs hsome zeros).decimal = ⟨ofDigits cs * 10 ^ (zeros + 1), -1⟩ := by
  simp only [padded, Spelling.decimal, List.append_assoc]
  rw [← Decimal.ofDigits_append_zeros, List.replicate_succ']
  rfl

theorem decimal_pointed {k : Nat} (hk : 0 < k) :
    (pointed hcs hsome hk).decimal = ⟨ofDigits cs, -(cs.length - k : Nat)⟩ := by
  simp only [pointed, Spelling.decimal, List.take_append_drop, List.length_drop, zero_sub]

theorem decimal_below (zeros : Nat) :
    (below hcs zeros).decimal = ⟨ofDigits cs, -(zeros + cs.length : Nat)⟩ := by
  simp only [below, Spelling.decimal, List.length_append, List.length_replicate, zero_sub]
  rw [List.cons_append, List.nil_append, ← List.cons_append, ← List.replicate_succ,
    Decimal.ofDigits_zeros_append]

include hcs hsome in
/-- One of them is chosen, by where the point falls. -/
theorem exists_spelling_layout (place : Int) :
    ∃ p : Spelling, (layout (String.ofList cs) place).toList = p.text ∧ p.IsFractional
      ∧ (p.decimal.digits : ℚ) * 10 ^ p.decimal.place = ofDigits cs * 10 ^ place := by
  have hlength : 0 < cs.length := List.length_pos_iff.mpr hsome
  have htake (k : Nat) : ((String.ofList cs).take k).toString.toList = cs.take k := by
    rw [show ((String.ofList cs).take k).toString.toList = (String.ofList cs).toList.take k from
      String.toList_copy_take, String.toList_ofList]
  have hdrop (k : Nat) : ((String.ofList cs).drop k).toString.toList = cs.drop k := by
    rw [show ((String.ofList cs).drop k).toString.toList = (String.ofList cs).toList.drop k from
      String.toList_copy_drop, String.toList_ofList]
  rw [layout, String.length_ofList]
  dsimp only
  -- the four ways, in the order in which they are tried
  split
  case isTrue =>
    refine ⟨scientific hcs hsome place, ?_, .inr (List.cons_ne_nil _ _), ?_⟩
    · have hsign : (if 0 ≤ place + (cs.length : Int) - 1 then "+" else "-").toList
          = [if 0 ≤ place + (cs.length : Int) - 1 then '+' else '-'] := by
        split_ifs <;> rfl
      simp only [String.toList_append, htake, toList_point, hdrop, hsign, Spelling.text, scientific,
        Nat.toString_eq_ofList_toDigits, String.toList_ofList, List.append_assoc]
      rfl
    · rw [decimal_scientific]
  case isFalse hfar =>
    split
    case isTrue hwhole =>
      refine ⟨padded hcs hsome place.toNat, ?_, .inl (List.cons_ne_nil _ _), ?_⟩
      · simp only [String.toList_append, String.toList_ofList, Spelling.text, padded]
        rfl
      · obtain ⟨k, rfl⟩ := Int.eq_ofNat_of_zero_le hwhole
        rw [decimal_padded, Int.toNat_natCast]
        push_cast
        rw [zpow_neg_one, pow_succ, zpow_natCast]
        field_simp
    case isFalse hpart =>
      split
      case isTrue hlead =>
        have hk : 0 < (place + cs.length - 1 + 1).toNat := by omega
        refine ⟨pointed hcs hsome hk, ?_, .inl ?_, ?_⟩
        · have hpoint : pointText (cs.drop (place + cs.length - 1 + 1).toNat)
              = '.' :: cs.drop (place + cs.length - 1 + 1).toNat :=
            if_neg (by rw [List.drop_eq_nil_iff]; omega)
          simp only [String.toList_append, htake, hdrop, Spelling.text, pointed, hpoint,
            List.append_nil, List.append_assoc]
          rfl
        · simp only [pointed, ne_eq, List.drop_eq_nil_iff]
          omega
        · rw [decimal_pointed]
          congr 2
          dsimp only
          omega
      case isFalse hlead =>
        refine ⟨below hcs (-(place + cs.length - 1) - 1).toNat, ?_, .inl ?_, ?_⟩
        · have hpoint (ds : List Char) : pointText (ds ++ cs) = '.' :: (ds ++ cs) :=
            if_neg (by simp [hsome])
          simp only [String.toList_append, String.toList_ofList, Spelling.text, below, hpoint,
            List.append_nil, List.append_assoc]
          rfl
        · simp [below, hsome]
        · rw [decimal_below]
          congr 2
          dsimp only
          omega

end Layout

/-! ## Reading a text back -/

/-- The number is read from the text of its decimal, whichever way that is set. -/
theorem exists_spelling_floatText (x : Binary64) :
    ∃ p : Spelling, floatText x = String.ofList (signText x.negative ++ p.text) ∧ p.IsFractional
      ∧ Decimal.nearest? x.negative p.decimal = some x := by
  have hdigits : ∀ c ∈ Nat.toDigits 10 x.shortest.digits, isDigit c = true :=
    fun c hc => Decimal.isDigit_of_mem_toDigits hc
  obtain ⟨p, htext, hfractional, hvalue⟩ :=
    exists_spelling_layout hdigits Nat.toDigits_ne_nil x.shortest.place
  rw [Decimal.ofDigits_toDigits] at hvalue
  refine ⟨p, ?_, hfractional, ?_⟩
  · rw [floatText, ← htext, String.ofList_append, String.ofList_toList, signText,
      Nat.toString_eq_ofList_toDigits]
    split_ifs <;> rfl
  · -- a zero has a sign but no digits to round, so it is read by a rule of its own
    cases hx : x.isZero with
    | true =>
      have hzero : p.decimal.digits = 0 := by
        rw [Binary64.shortest_of_isZero hx] at hvalue
        rw [Nat.cast_zero, zero_mul] at hvalue
        have hplace : (10 : ℚ) ^ p.decimal.place ≠ 0 := by positivity
        exact_mod_cast (mul_eq_zero.mp hvalue).resolve_right hplace
      rw [show p.decimal = ⟨0, p.decimal.place⟩ by rw [← hzero], Decimal.nearest?_zero hx]
    | false =>
      rw [Decimal.nearest?_of_rounds hx x.negative]
      rw [hvalue]
      exact Binary64.shortest_rounds hx

end CrewChart.Json.Number

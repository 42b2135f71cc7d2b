import CrewChart.Decimal.Binary64
import Mathlib.Algebra.Order.Field.Power
import Mathlib.Data.Int.Log
import Mathlib.Data.Rat.Floor
import Mathlib.Tactic.FieldSimp
import Mathlib.Tactic.Linarith
import Mathlib.Tactic.NormNum
import Mathlib.Tactic.Positivity
import Mathlib.Tactic.Ring

/-!
# What is rounded to a number

`Binary64.nearestCode` works on natural numbers and shifts.  This file says in rational numbers
which ratios it takes to a given code: those not further from the number than half of its last
place, or a quarter below a power of two, where the numbers below are twice as dense.  A ratio right
at an end of this range is taken to the number if its significand is even.

## What is here

* `scaleDown_ratio`, `lastPlace_eq`, `nearest_eq` — the three steps of rounding, one by one.
* `Rounds` — the ratios a number stands for.
* `nearestCode_of_rounds` — these are rounded to it.
* `nearestCode_lt_infinity` — a word is rounded to a finite number.
-/

set_option autoImplicit false

namespace CrewChart.Binary64

/-! ## The steps of rounding -/

section Steps

variable {num den : Nat}

theorem scaleDown_snd_pos (hden : 0 < den) (e : Int) : 0 < (scaleDown num den e).2 := by
  rw [scaleDown]
  split_ifs
  · rw [Nat.shiftLeft_eq]
    positivity
  · exact hden

/-- Scaling down divides by a power of two. -/
theorem scaleDown_ratio (num den : Nat) (e : Int) :
    ((scaleDown num den e).1 : ℚ) / (scaleDown num den e).2 = num / den * 2 ^ (-e) := by
  rw [scaleDown]
  split_ifs with he
  · obtain ⟨k, rfl⟩ := Int.eq_ofNat_of_zero_le he
    rw [Int.toNat_natCast, Nat.shiftLeft_eq, zpow_neg, zpow_natCast]
    push_cast
    rw [div_mul_eq_div_div, div_eq_mul_inv ((num : ℚ) / den)]
  · obtain ⟨k, hk⟩ := Int.eq_ofNat_of_zero_le (by omega : 0 ≤ -e)
    rw [hk, Int.toNat_natCast, Nat.shiftLeft_eq, zpow_natCast]
    push_cast
    rw [mul_div_right_comm]

/-- The nearest whole number, and of two the even one. -/
theorem nearest_eq (hden : 0 < den) {z : Nat} (hlow : (z : ℚ) - 1 / 2 ≤ num / den)
    (hhigh : (num : ℚ) / den ≤ z + 1 / 2)
    (htie : z % 2 = 0 ∨ (z : ℚ) - 1 / 2 < num / den ∧ (num : ℚ) / den < z + 1 / 2) :
    nearest num den = z := by
  have hpos : (0 : ℚ) < den := by exact_mod_cast hden
  rw [le_div_iff₀ hpos] at hlow
  rw [div_le_iff₀ hpos] at hhigh
  rw [lt_div_iff₀ hpos, div_lt_iff₀ hpos] at htie
  -- all of it over whole numbers, with the product of `z` and `den` as a unit
  have hlow' : 2 * (den * z) ≤ 2 * num + den := by
    have : (2 * (den * z) : ℚ) ≤ 2 * num + den := by linarith
    exact_mod_cast this
  have hhigh' : 2 * num ≤ 2 * (den * z) + den := by
    have : (2 * num : ℚ) ≤ 2 * (den * z) + den := by linarith
    exact_mod_cast this
  have htie' : z % 2 = 0 ∨ 2 * (den * z) < 2 * num + den ∧ 2 * num < 2 * (den * z) + den := by
    refine htie.imp_right fun ⟨hl, hh⟩ => ⟨?_, ?_⟩
    · have : (2 * (den * z) : ℚ) < 2 * num + den := by linarith
      exact_mod_cast this
    · have : (2 * num : ℚ) < 2 * (den * z) + den := by linarith
      exact_mod_cast this
  have hparts : den * (num / den) + num % den = num := Nat.div_add_mod num den
  have hrest : num % den < den := Nat.mod_lt num hden
  have hquot : z = num / den ∨ z = num / den + 1 := by
    have hup : den * z < den * (num / den + 2) := by rw [mul_add]; omega
    have hdown : den * (num / den) < den * (z + 1) := by rw [mul_add]; omega
    have := Nat.lt_of_mul_lt_mul_left hup
    have := Nat.lt_of_mul_lt_mul_left hdown
    omega
  rw [nearest]
  obtain hz | hz := hquot
  · rw [← hz] at hparts ⊢
    split_ifs <;> omega
  · have hprod : den * z = den * (num / den) + den := by rw [hz, mul_add, mul_one]
    rw [hprod] at hlow' hhigh' htie'
    split_ifs <;> omega

/-- The last place of 53 bits, unless the subnormal numbers end earlier. -/
theorem lastPlace_eq (hnum : 0 < num) (hden : 0 < den) :
    lastPlace num den = max (-1074) (Int.log 2 ((num : ℚ) / den) - 52) := by
  have hpos : (0 : ℚ) < den := by exact_mod_cast hden
  have hratio : (0 : ℚ) < num / den := by positivity
  have hnumLow : ((2 : ℕ) : ℚ) ^ (num.log2 : ℤ) ≤ num := by
    rw [zpow_natCast]; exact_mod_cast Nat.log2_self_le hnum.ne'
  have hnumHigh : (num : ℚ) < (2 : ℕ) ^ (num.log2 + 1 : ℤ) := by
    rw [← Nat.cast_succ, zpow_natCast]; exact_mod_cast Nat.lt_log2_self
  have hdenLow : ((2 : ℕ) : ℚ) ^ (den.log2 : ℤ) ≤ den := by
    rw [zpow_natCast]; exact_mod_cast Nat.log2_self_le hden.ne'
  have hdenHigh : (den : ℚ) < (2 : ℕ) ^ (den.log2 + 1 : ℤ) := by
    rw [← Nat.cast_succ, zpow_natCast]; exact_mod_cast Nat.lt_log2_self
  -- the logarithms of the two leave one bit open, which the comparison settles
  have hlow : (num.log2 : ℤ) - den.log2 - 1 ≤ Int.log 2 ((num : ℚ) / den) := by
    rw [← Int.zpow_le_iff_le_log one_lt_two hratio, le_div_iff₀ hpos]
    calc ((2 : ℕ) : ℚ) ^ ((num.log2 : ℤ) - den.log2 - 1) * den
        ≤ (2 : ℕ) ^ ((num.log2 : ℤ) - den.log2 - 1) * (2 : ℕ) ^ (den.log2 + 1 : ℤ) := by gcongr
      _ = (2 : ℕ) ^ (num.log2 : ℤ) := by
        rw [← zpow_add₀ (by norm_num)]; congr 1; omega
      _ ≤ num := hnumLow
  have hhigh : Int.log 2 ((num : ℚ) / den) < (num.log2 : ℤ) - den.log2 + 1 := by
    rw [← Int.lt_zpow_iff_log_lt one_lt_two hratio, div_lt_iff₀ hpos]
    calc (num : ℚ) < (2 : ℕ) ^ (num.log2 + 1 : ℤ) := hnumHigh
      _ = (2 : ℕ) ^ ((num.log2 : ℤ) - den.log2 + 1) * (2 : ℕ) ^ (den.log2 : ℤ) := by
        rw [← zpow_add₀ (by norm_num)]; congr 1; omega
      _ ≤ (2 : ℕ) ^ ((num.log2 : ℤ) - den.log2 + 1) * den := by gcongr
  have hbit : (scaleDown num den (num.log2 - den.log2)).2
        ≤ (scaleDown num den (num.log2 - den.log2)).1
      ↔ (num.log2 : ℤ) - den.log2 ≤ Int.log 2 ((num : ℚ) / den) := by
    have hscaled : 0 < (scaleDown num den (num.log2 - den.log2)).2 := scaleDown_snd_pos hden _
    rw [← Int.zpow_le_iff_le_log one_lt_two hratio, ← Nat.cast_le (α := ℚ),
      ← one_le_div (by exact_mod_cast hscaled), scaleDown_ratio, zpow_neg, ← div_eq_mul_inv,
      one_le_div (by positivity), Nat.cast_ofNat]
  rw [lastPlace]
  dsimp only
  split_ifs with h <;> rw [hbit] at h <;> congr 1 <;> omega

end Steps

/-! ## The parts of a number -/

section Parts

variable (x : Binary64)

theorem exponent_ge : -1074 ≤ x.exponent := by
  rw [exponent]
  split_ifs with h
  · exact le_rfl
  · simp only [isSubnormal, decide_eq_true_eq, not_lt] at h
    have : 1 ≤ x.code / leadingBit := (Nat.one_le_div_iff (by decide)).mpr h
    omega

/-- A code is its significand and its exponent, with the leading bit adding one to the exponent. -/
theorem code_eq : x.code = (x.exponent + 1074).toNat * leadingBit + x.significand := by
  rw [exponent, significand]
  split_ifs with h
  · simp
  · simp only [isSubnormal, decide_eq_true_eq, not_lt] at h
    have hone : 1 ≤ x.code / leadingBit := (Nat.one_le_div_iff (by decide)).mpr h
    have hexp : ((x.code / leadingBit : Nat) - 1075 + 1074 : Int).toNat
        = x.code / leadingBit - 1 := by
      omega
    have hparts : leadingBit * (x.code / leadingBit) + x.code % leadingBit = x.code :=
      Nat.div_add_mod x.code leadingBit
    rw [hexp, Nat.sub_one_mul, mul_comm]
    have : leadingBit ≤ leadingBit * (x.code / leadingBit) := Nat.le_mul_of_pos_right _ hone
    omega

theorem exponent_le : x.exponent ≤ 971 := by
  rw [exponent]
  split_ifs
  · decide
  · have : x.code / leadingBit < 2047 := (Nat.div_lt_iff_lt_mul (by decide)).mpr x.finite
    omega

theorem significand_lt : x.significand < 2 * leadingBit := by
  rw [significand]
  split_ifs with h
  · simp only [isSubnormal, decide_eq_true_eq] at h
    omega
  · have := Nat.mod_lt x.code (by decide : 0 < leadingBit)
    omega

/-- Only the numbers of the least exponent may lack the leading bit. -/
theorem leadingBit_le_significand {x : Binary64} (h : -1074 < x.exponent) :
    leadingBit ≤ x.significand := by
  by_cases hx : x.isSubnormal = true
  · rw [exponent, if_pos hx] at h
    exact absurd h (lt_irrefl _)
  · rw [significand, if_neg hx]
    omega

theorem significand_pos {x : Binary64} (h : x.isZero = false) : 0 < x.significand := by
  have hcode : x.code ≠ 0 := by simpa [isZero] using h
  rw [significand]
  split_ifs
  · omega
  · have : 0 < leadingBit := by decide
    omega

end Parts

/-! ## The ratios a number stands for -/

/-- How far below a number the ratios reach that are rounded to it, in units of its last place. -/
def gapBelow (x : Binary64) : ℚ :=
  if x.significand = leadingBit ∧ 2 * leadingBit ≤ x.code then 1 / 4 else 1 / 2

/-- A ratio that is rounded to the magnitude of `x`. -/
structure Rounds (x : Binary64) (r : ℚ) : Prop where
  low : (x.significand - x.gapBelow) * 2 ^ x.exponent ≤ r
  high : r ≤ (x.significand + 1 / 2) * 2 ^ x.exponent
  inside : x.significand % 2 = 0 ∨
    (x.significand - x.gapBelow) * 2 ^ x.exponent < r
      ∧ r < (x.significand + 1 / 2) * 2 ^ x.exponent

theorem gapBelow_pos (x : Binary64) : 0 < x.gapBelow := by
  rw [gapBelow]
  split_ifs <;> norm_num

theorem gapBelow_le (x : Binary64) : x.gapBelow ≤ 1 / 2 := by
  rw [gapBelow]
  split_ifs <;> norm_num

/-- The least ratio of all is half of the least place. -/
theorem le_low {x : Binary64} (hx : x.isZero = false) :
    (2 : ℚ) ^ (-1075 : ℤ) ≤ (x.significand - x.gapBelow) * 2 ^ x.exponent := by
  have hone : (1 : ℚ) ≤ x.significand := by exact_mod_cast significand_pos hx
  have hgap := gapBelow_le x
  calc (2 : ℚ) ^ (-1075 : ℤ) = 1 / 2 * 2 ^ (-1074 : ℤ) := by
        rw [show (-1075 : ℤ) = -1074 - 1 by rfl, zpow_sub_one₀ (by norm_num), mul_comm, one_div]
    _ ≤ (x.significand - x.gapBelow) * 2 ^ x.exponent :=
      mul_le_mul (by linarith) (zpow_le_zpow_right₀ (by norm_num) (exponent_ge x)) (by positivity)
        (by linarith)

namespace Rounds

variable {x : Binary64} {r : ℚ}

theorem of_lt (hlow : (x.significand - x.gapBelow) * 2 ^ x.exponent < r)
    (hhigh : r < (x.significand + 1 / 2) * 2 ^ x.exponent) : Rounds x r :=
  ⟨hlow.le, hhigh.le, .inr ⟨hlow, hhigh⟩⟩

theorem pos (hx : x.isZero = false) (h : Rounds x r) : 0 < r :=
  (by positivity : (0 : ℚ) < 2 ^ (-1075 : ℤ)).trans_le ((le_low hx).trans h.low)

/-- Rounding up stays below the next power of two: a significand of 53 ones is odd. -/
theorem lt_next (h : Rounds x r) : r < 2 ^ (x.exponent + 53) := by
  have hlt : x.significand + 1 ≤ 2 * leadingBit := significand_lt x
  have hbits : ((2 * leadingBit : Nat) : ℚ) = 2 ^ (53 : ℤ) := by norm_num [leadingBit]
  have hscale : (0 : ℚ) < 2 ^ x.exponent := by positivity
  calc r ≤ (x.significand + 1 / 2) * 2 ^ x.exponent := h.high
    _ < (2 * leadingBit : Nat) * 2 ^ x.exponent := by
      have : (x.significand : ℚ) + 1 ≤ (2 * leadingBit : Nat) := by exact_mod_cast hlt
      gcongr
      linarith
    _ = 2 ^ (x.exponent + 53) := by rw [hbits, ← zpow_add₀ (by norm_num), add_comm]

/-- On the scale of its exponent, a ratio rounds to the significand. -/
theorem nearest_scaled {num den : Nat} (hden : 0 < den) (h : Rounds x (num / den)) :
    nearest (scaleDown num den x.exponent).1 (scaleDown num den x.exponent).2 = x.significand := by
  have hscale : (0 : ℚ) < 2 ^ x.exponent := by positivity
  have hgap := gapBelow_le x
  obtain ⟨hlow, hhigh, hinside⟩ := h
  rw [← le_mul_inv_iff₀ hscale] at hlow
  rw [← mul_inv_le_iff₀ hscale] at hhigh
  rw [← lt_mul_inv_iff₀ hscale, ← mul_inv_lt_iff₀ hscale] at hinside
  apply nearest_eq (scaleDown_snd_pos hden _) <;> rw [scaleDown_ratio, zpow_neg]
  · linarith
  · exact hhigh
  · exact hinside.imp_right fun ⟨hl, hh⟩ => ⟨by linarith, hh⟩

/-- Only a power of two stands for ratios below its own power of two, and for few of them. -/
theorem significand_of_lt (h : Rounds x r) (hexp : -1074 < x.exponent)
    (hbelow : r < 2 ^ (x.exponent + 52)) : x.significand = leadingBit ∧ x.gapBelow = 1 / 4 := by
  have hscale : (0 : ℚ) < 2 ^ x.exponent := by positivity
  have hbits : (leadingBit : ℚ) = 2 ^ (52 : ℤ) := by norm_num [leadingBit]
  rw [add_comm, zpow_add₀ (by norm_num), ← hbits] at hbelow
  have hsig : x.significand = leadingBit := by
    refine le_antisymm ?_ (leadingBit_le_significand hexp)
    by_contra! hmore
    have hmore' : (leadingBit : ℚ) + 1 ≤ x.significand := by exact_mod_cast hmore
    have := lt_of_mul_lt_mul_right (h.low.trans_lt hbelow) hscale.le
    linarith [gapBelow_le x]
  refine ⟨hsig, if_pos ⟨hsig, ?_⟩⟩
  have hone : 1 ≤ (x.exponent + 1074).toNat := by omega
  rw [code_eq x, hsig, two_mul]
  exact Nat.add_le_add_right (Nat.le_mul_of_pos_left _ hone) _

/-- A ratio below a number's own power of two is less than half of its own last place away, and the
carry of rounding makes up for the smaller exponent. -/
theorem nearestCode_of_lt {num den : Nat} (hnum : 0 < num) (hden : 0 < den)
    (h : Rounds x (num / den)) (hexp : -1074 < x.exponent)
    (hbelow : (num : ℚ) / den < 2 ^ (x.exponent + 52)) : nearestCode num den = x.code := by
  have hratio : (0 : ℚ) < num / den := by positivity
  have hunit : (0 : ℚ) < 2 ^ (x.exponent - 1) := by positivity
  have hbits : (leadingBit : ℚ) = 2 ^ (52 : ℤ) := by norm_num [leadingBit]
  have hhalf : (2 : ℚ) ^ x.exponent = 2 ^ (x.exponent - 1) * 2 := by
    rw [zpow_sub_one₀ (by norm_num), inv_mul_cancel_right₀ (by norm_num)]
  obtain ⟨hsig, hgap⟩ := h.significand_of_lt hexp hbelow
  -- both bounds on the scale of the smaller exponent
  have hlow : (2 * leadingBit - 1 / 2) * 2 ^ (x.exponent - 1) ≤ (num : ℚ) / den := by
    calc (2 * leadingBit - 1 / 2 : ℚ) * 2 ^ (x.exponent - 1)
        = (leadingBit - 1 / 4) * 2 ^ x.exponent := by rw [hhalf]; ring
      _ ≤ num / den := by rw [← hsig, ← hgap]; exact h.low
  have hhigh : (num : ℚ) / den < 2 * leadingBit * 2 ^ (x.exponent - 1) := by
    calc (num : ℚ) / den < 2 ^ (x.exponent + 52) := hbelow
      _ = 2 * leadingBit * 2 ^ (x.exponent - 1) := by
        rw [add_comm, zpow_add₀ (by norm_num), ← hbits, hhalf]; ring
  have hplace : lastPlace num den = x.exponent - 1 := by
    have hlog : Int.log 2 ((num : ℚ) / den) = x.exponent + 51 := by
      apply le_antisymm
      · rw [← Int.lt_add_one_iff, ← Int.lt_zpow_iff_log_lt one_lt_two hratio, Nat.cast_ofNat,
          add_assoc]
        exact hbelow
      · rw [← Int.zpow_le_iff_le_log one_lt_two hratio, Nat.cast_ofNat,
          show x.exponent + 51 = 52 + (x.exponent - 1) by omega, zpow_add₀ (by norm_num)]
        refine le_trans (mul_le_mul_of_nonneg_right ?_ hunit.le) hlow
        norm_num [leadingBit]
    rw [lastPlace_eq hnum hden, hlog]
    omega
  have hnearest : nearest (scaleDown num den (x.exponent - 1)).1
      (scaleDown num den (x.exponent - 1)).2 = 2 * leadingBit := by
    apply nearest_eq (scaleDown_snd_pos hden _)
    · rw [scaleDown_ratio, zpow_neg, le_mul_inv_iff₀ hunit]
      exact_mod_cast hlow
    · rw [scaleDown_ratio, zpow_neg, mul_inv_le_iff₀ hunit]
      push_cast
      linarith
    · exact .inl (by decide)
  have hcarry : (x.exponent + 1074).toNat = (x.exponent - 1 + 1074).toNat + 1 := by omega
  rw [nearestCode, if_neg hnum.ne']
  dsimp only
  rw [hplace, hnearest, code_eq x, hsig, hcarry]
  ring

end Rounds

/-- Each ratio a number stands for is rounded to it. -/
theorem nearestCode_of_rounds {x : Binary64} {num den : Nat} (hnum : 0 < num) (hden : 0 < den)
    (h : Rounds x (num / den)) : nearestCode num den = x.code := by
  have hratio : (0 : ℚ) < num / den := by positivity
  have hexp := exponent_ge x
  by_cases hbelow : -1074 < x.exponent ∧ (num : ℚ) / den < 2 ^ (x.exponent + 52)
  · exact h.nearestCode_of_lt hnum hden hbelow.1 hbelow.2
  have hplace : lastPlace num den = x.exponent := by
    have hhigh : Int.log 2 ((num : ℚ) / den) < x.exponent + 53 := by
      rw [← Int.lt_zpow_iff_log_lt one_lt_two hratio, Nat.cast_ofNat]
      exact h.lt_next
    rw [lastPlace_eq hnum hden]
    obtain hleast | hmore := hexp.eq_or_lt
    · omega
    · have hlow : x.exponent + 52 ≤ Int.log 2 ((num : ℚ) / den) := by
        rw [← Int.zpow_le_iff_le_log one_lt_two hratio, Nat.cast_ofNat]
        exact not_lt.mp fun hlt => hbelow ⟨hmore, hlt⟩
      omega
  rw [nearestCode, if_neg hnum.ne']
  dsimp only
  rw [hplace, h.nearest_scaled hden, ← code_eq]

/-! ## Whole numbers -/

/-- A word that no signed word holds has 64 bits, and rounding leaves its last eleven off. -/
theorem nearestCode_lt_infinity {n : Nat} (hlow : 0x8000000000000000 ≤ n)
    (hhigh : n < 0x10000000000000000) : nearestCode n 1 < infinity := by
  have hlog : n.log2 = 63 := by
    rw [Nat.log2_eq_iff (by omega)]
    exact ⟨hlow, hhigh⟩
  have hplace : lastPlace n 1 = 11 := by
    rw [lastPlace, hlog, show (1 : Nat).log2 = 0 from rfl]
    dsimp only
    rw [show scaleDown n 1 ((63 : Nat) - (0 : Nat) : Int) = (n, 0x8000000000000000) from rfl,
      if_pos hlow]
    rfl
  have hnearest : nearest n 2048 ≤ n / 2048 + 1 := by
    rw [nearest]
    split_ifs <;> omega
  rw [nearestCode, if_neg (by omega), hplace]
  dsimp only
  rw [show scaleDown n 1 11 = (n, 2048) from rfl, show (11 + 1074 : Int).toNat = 1085 from rfl,
    leadingBit, infinity]
  dsimp only
  omega

end CrewChart.Binary64

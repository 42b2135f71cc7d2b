import CrewChart.Decimal.Shortest
import CrewChart.Proofs.Decimal.Nearest

/-!
# The shortest decimal rounds back

`Binary64.shortest` takes the first decimal it finds in the interval around a number.  Here the
interval is the one of `Binary64.Rounds`, and the search does find a decimal: its last grid is finer
than half of the number's last place, so that it has a point inside the interval.  How fine a grid
is, in powers of two, is a matter of `2 ^ 10` and `10 ^ 3` above the point and of `2 ^ 93` and
`10 ^ 28` below it.

## What is here

* `holds_iff_rounds` — the test of a grid point says whether it is rounded to the number.
* `gridPoint?_isSome` — a grid that is fine enough has such a point.
* `shortest_rounds` — the decimal that is found is rounded to the number.
-/

set_option autoImplicit false

namespace CrewChart

namespace Decimal

theorem tenTo_pos (zeros : Nat) : 0 < tenTo zeros := Nat.pow_pos (by decide)

/-- A power of ten is a whole number over another. -/
theorem tenTo_ratio (place : Int) :
    (tenTo place.toNat : ℚ) / tenTo (-place).toNat = 10 ^ place := by
  have hcast (k : Nat) : (tenTo k : ℚ) = 10 ^ k := Nat.cast_pow 10 k
  obtain hplace | hplace := le_total 0 place
  · obtain ⟨k, rfl⟩ := Int.eq_ofNat_of_zero_le hplace
    rw [Int.toNat_neg_natCast, Int.toNat_natCast, hcast, hcast, pow_zero, div_one, zpow_natCast]
  · obtain ⟨k, hk⟩ := Int.eq_ofNat_of_zero_le (Int.neg_nonneg_of_nonpos hplace)
    rw [show place = -(k : Int) by omega, neg_neg, Int.toNat_neg_natCast, Int.toNat_natCast, hcast,
      hcast, pow_zero, zpow_neg, zpow_natCast, one_div]

end Decimal

namespace Binary64

open Decimal (tenTo tenTo_pos tenTo_ratio)

variable {x : Binary64}

/-! ## The interval around a number -/

section Around

theorem interval_den_pos (x : Binary64) : 0 < x.interval.den := scaleDown_snd_pos one_pos _

/-- A quarter of the last place. -/
theorem quarter_ratio (x : Binary64) :
    ((scaleDown 1 1 (2 - x.exponent)).1 : ℚ) / x.interval.den = 2 ^ x.exponent / 4 := by
  rw [interval]
  dsimp only
  rw [scaleDown_ratio, Nat.cast_one, div_one, one_mul, neg_sub, zpow_sub₀ (by norm_num)]
  norm_num

theorem interval_value (x : Binary64) :
    (x.interval.value : ℚ) / x.interval.den = x.significand * 2 ^ x.exponent := by
  rw [show x.interval.value = 4 * x.significand * (scaleDown 1 1 (2 - x.exponent)).1 from rfl,
    Nat.cast_mul, mul_div_assoc, quarter_ratio]
  push_cast
  ring

theorem interval_high (x : Binary64) :
    (x.interval.high : ℚ) / x.interval.den = (x.significand + 1 / 2) * 2 ^ x.exponent := by
  rw [show x.interval.high = (4 * x.significand + 2) * (scaleDown 1 1 (2 - x.exponent)).1 from rfl,
    Nat.cast_mul, mul_div_assoc, quarter_ratio]
  push_cast
  ring

theorem interval_low (hx : x.isZero = false) :
    (x.interval.low : ℚ) / x.interval.den = (x.significand - x.gapBelow) * 2 ^ x.exponent := by
  have hsig := significand_pos hx
  rw [show x.interval.low = (4 * x.significand
      - if x.significand = leadingBit ∧ 2 * leadingBit ≤ x.code then 1 else 2)
        * (scaleDown 1 1 (2 - x.exponent)).1 from rfl,
    Nat.cast_mul, mul_div_assoc, quarter_ratio, gapBelow]
  split_ifs <;> rw [Nat.cast_sub (by omega)] <;> push_cast <;> ring

/-- The test of a point of a grid. -/
theorem holds_iff_rounds (hx : x.isZero = false) (place : Int) (d : Nat) :
    x.interval.holds (d * (x.interval.den * tenTo place.toNat)) (tenTo (-place).toNat) = true
      ↔ Rounds x (d * 10 ^ place) := by
  have hden : (0 : ℚ) < x.interval.den := by exact_mod_cast interval_den_pos x
  have hup : (0 : ℚ) < tenTo (-place).toNat := by exact_mod_cast tenTo_pos _
  -- The point and both bounds are brought to the denominators that the test multiplies by.
  have hpoint : (d * (x.interval.den * tenTo place.toNat) : Nat)
      = d * (10 : ℚ) ^ place * x.interval.den * tenTo (-place).toNat := by
    rw [← tenTo_ratio]
    push_cast
    field_simp
  have hlow : (x.interval.low : ℚ) = (x.significand - x.gapBelow) * 2 ^ x.exponent
      * x.interval.den := by rw [← interval_low hx, div_mul_cancel₀ _ hden.ne']
  have hhigh : (x.interval.high : ℚ) = (x.significand + 1 / 2) * 2 ^ x.exponent
      * x.interval.den := by rw [← interval_high, div_mul_cancel₀ _ hden.ne']
  rw [Interval.holds, show x.interval.closed = (x.significand % 2 == 0) from rfl]
  -- An even significand takes the bounds in, an odd one leaves them out.
  split_ifs with hclosed
  · simp only [beq_iff_eq] at hclosed
    rw [Bool.and_eq_true, decide_eq_true_iff, decide_eq_true_iff, ← Nat.cast_le (α := ℚ),
      ← Nat.cast_le (α := ℚ), hpoint, Nat.cast_mul, Nat.cast_mul, hlow, hhigh,
      mul_le_mul_iff_left₀ hup, mul_le_mul_iff_left₀ hup, mul_le_mul_iff_left₀ hden,
      mul_le_mul_iff_left₀ hden]
    exact ⟨fun h => ⟨h.1, h.2, .inl hclosed⟩, fun h => ⟨h.low, h.high⟩⟩
  · simp only [beq_iff_eq] at hclosed
    rw [Bool.and_eq_true, decide_eq_true_iff, decide_eq_true_iff, ← Nat.cast_lt (α := ℚ),
      ← Nat.cast_lt (α := ℚ), hpoint, Nat.cast_mul, Nat.cast_mul, hlow, hhigh,
      mul_lt_mul_iff_left₀ hup, mul_lt_mul_iff_left₀ hup, mul_lt_mul_iff_left₀ hden,
      mul_lt_mul_iff_left₀ hden]
    exact ⟨fun h => ⟨h.1.le, h.2.le, .inr h⟩, fun h => h.inside.resolve_left hclosed⟩

end Around

/-! ## A point of a grid -/

theorem nearest_eq_or (num den : Nat) :
    nearest num den = num / den ∨ nearest num den = num / den + 1 := by
  rw [nearest]
  split_ifs <;> omega

theorem gridPoint?_holds {i : Interval} {place : Int} {d : Nat}
    (h : i.gridPoint? place = some d) :
    i.holds (d * (i.den * tenTo place.toNat)) (tenTo (-place).toNat) = true := by
  rw [Interval.gridPoint?] at h
  split at h
  case h_1 hlower hupper =>
    cases h
    obtain hd | hd := nearest_eq_or (i.value * tenTo (-place).toNat) (i.den * tenTo place.toNat)
      <;> rw [hd]
    · exact hlower
    · exact hupper
  case h_2 hlower hupper => cases h; exact hlower
  case h_3 hlower hupper => cases h; exact hupper
  case h_4 => cases h

/-- A grid with steps of at most half the last place has a point in the interval: the number itself
or else the next point above it. -/
theorem gridPoint?_isSome (hx : x.isZero = false) {place : Int}
    (hfine : (10 : ℚ) ^ place ≤ 2 ^ x.exponent / 2) :
    (x.interval.gridPoint? place).isSome = true := by
  have hscale : (0 : ℚ) < 2 ^ x.exponent := by positivity
  have hden : (0 : ℚ) < x.interval.den := by exact_mod_cast interval_den_pos x
  have hup : (0 : ℚ) < tenTo (-place).toNat := by exact_mod_cast tenTo_pos _
  have hunit : 0 < x.interval.den * tenTo place.toNat :=
    Nat.mul_pos (interval_den_pos x) (tenTo_pos _)
  have hgap := mul_pos (gapBelow_pos x) hscale
  -- `d` steps of the grid come to the number, or stay below it by less than a step.
  set d := x.interval.value * tenTo (-place).toNat
    / (x.interval.den * tenTo place.toNat) with hd
  have hbelow : d * (10 : ℚ) ^ place ≤ x.significand * 2 ^ x.exponent := by
    rw [← tenTo_ratio, ← interval_value, mul_div_assoc', div_le_div_iff₀ hup hden]
    have hle : (d * (x.interval.den * tenTo place.toNat) : ℚ)
        ≤ x.interval.value * tenTo (-place).toNat := by exact_mod_cast Nat.div_mul_le_self _ _
    linarith
  have habove : x.significand * 2 ^ x.exponent < (d + 1) * (10 : ℚ) ^ place := by
    rw [← tenTo_ratio, ← interval_value, mul_div_assoc', div_lt_div_iff₀ hden hup]
    have hlt : (x.interval.value * tenTo (-place).toNat : ℚ)
        < x.interval.den * tenTo place.toNat * (d + 1) := by
      exact_mod_cast Nat.lt_mul_div_succ _ hunit
    linarith
  -- One step more goes above it by at most half the last place, which is inside the interval.
  have hpoint : Rounds x (d * 10 ^ place) ∨ Rounds x ((d + 1 : Nat) * 10 ^ place) := by
    obtain hbelow | hat := hbelow.lt_or_eq
    · right
      push_cast
      apply Rounds.of_lt <;> linarith
    · left
      rw [hat]
      apply Rounds.of_lt <;> linarith
  rw [← holds_iff_rounds hx, ← holds_iff_rounds hx] at hpoint
  rw [Interval.gridPoint?, ← hd]
  obtain h | h := hpoint <;> rw [h] <;> split <;> simp_all

theorem search_eq_some {i : Interval} {place : Int} {grids k : Nat} (hk : k < grids)
    (h : (i.gridPoint? (place - k)).isSome = true) :
    ∃ d p, i.search place grids = some ⟨d, p⟩ ∧ i.gridPoint? p = some d := by
  induction grids generalizing place k with
  | zero => exact absurd hk (Nat.not_lt_zero k)
  | succ grids ih =>
    rw [Interval.search]
    split
    case h_1 d hd => exact ⟨d, place, rfl, hd⟩
    case h_2 hnone =>
      cases k with
      | zero => simp [hnone] at h
      | succ k =>
        apply ih (Nat.lt_of_succ_lt_succ hk)
        rwa [show place - 1 - (k : Int) = place - (k + 1 : Nat) by omega]

/-! ## The last grid -/

/-- A power of ten and a smaller power of two, by the comparison of one pair above the point and of
one below it. -/
theorem ten_zpow_le {p e : Int} (hwhole : 0 ≤ p → 10 * p ≤ 3 * e)
    (hfraction : p < 0 → 93 * p ≤ 28 * e) : (10 : ℚ) ^ p ≤ 2 ^ e := by
  obtain hp | hp := le_or_gt 0 p
  · refine le_of_pow_le_pow_left₀ (n := 3) (by decide) (by positivity) ?_
    calc ((10 : ℚ) ^ p) ^ 3 = (10 ^ 3) ^ p := by
          rw [← zpow_natCast, ← zpow_natCast, ← zpow_mul, ← zpow_mul, mul_comm]
      _ ≤ (2 ^ 10) ^ p := zpow_le_zpow_left₀ hp (by norm_num) (by norm_num)
      _ = 2 ^ (10 * p) := by rw [zpow_mul]; norm_num
      _ ≤ 2 ^ (3 * e) := zpow_le_zpow_right₀ (by norm_num) (hwhole hp)
      _ = (2 ^ e) ^ 3 := by rw [← zpow_natCast, ← zpow_mul, mul_comm]; norm_num
  · refine le_of_pow_le_pow_left₀ (n := 28) (by decide) (by positivity) ?_
    have hpair : ((10 : ℚ) ^ 28)⁻¹ ≤ (2 ^ 93)⁻¹ := by norm_num
    calc ((10 : ℚ) ^ p) ^ 28 = ((10 ^ 28)⁻¹) ^ (-p) := by
          rw [inv_zpow', neg_neg, ← zpow_natCast, ← zpow_natCast, ← zpow_mul, ← zpow_mul, mul_comm]
      _ ≤ ((2 ^ 93)⁻¹) ^ (-p) := zpow_le_zpow_left₀ (by omega) (by norm_num) hpair
      _ = 2 ^ (93 * p) := by rw [inv_zpow', neg_neg, zpow_mul]; norm_num
      _ ≤ 2 ^ (28 * e) := zpow_le_zpow_right₀ (by norm_num) (hfraction hp)
      _ = (2 ^ e) ^ 28 := by rw [← zpow_natCast, ← zpow_mul, mul_comm]; norm_num

theorem log2_significand_le (x : Binary64) : x.significand.log2 ≤ 52 := by
  obtain hzero | hpos := Nat.eq_zero_or_pos x.significand
  · rw [hzero]
    decide
  · exact Nat.lt_succ_iff.mp ((Nat.log2_lt hpos.ne').mpr (significand_lt x))

theorem lastGrid_le (x : Binary64) :
    (10 : ℚ) ^ (x.coarsePlace - (20 : Nat)) ≤ 2 ^ x.exponent / 2 := by
  have hlow := exponent_ge x
  have hhigh := exponent_le x
  have hlog := log2_significand_le x
  rw [div_eq_mul_inv, ← zpow_sub_one₀ (by norm_num)]
  rw [coarsePlace, Int.fdiv_eq_ediv_of_nonneg _ (by decide)]
  apply ten_zpow_le <;> omega

/-- What is found is rounded to the number. -/
theorem shortest_rounds (hx : x.isZero = false) :
    Rounds x (x.shortest.digits * 10 ^ x.shortest.place) := by
  obtain ⟨d, p, hsearch, hpoint⟩ :=
    search_eq_some (by decide : 20 < 21) (gridPoint?_isSome hx (lastGrid_le x))
  rw [shortest, hx, hsearch]
  exact (holds_iff_rounds hx p d).mp (gridPoint?_holds hpoint)

theorem shortest_of_isZero (hx : x.isZero = true) : x.shortest = ⟨0, 0⟩ := by
  rw [shortest, if_pos hx]

end Binary64

end CrewChart

import CrewChart.Proofs.Json.PassedOver
import CrewChart.Proofs.Json.Written

/-!
# The value of a text, held as far as it can be

A chart may hold members that are passed over, and what is passed over may be more than a `Value`
can hold: a number beyond all range, half a surrogate pair, brackets without end.  `Reader.lenient`
reads the value of a text all the same, with `null` in place of what cannot be held.  It is not run;
it says what the value of a document is that a chart was read from.

## What is here

* `run_lenient_of_value` — where all of a value can be held, the lenient reader returns that value;
* `exists_run_lenient` — the lenient reader succeeds wherever passing over does, and stops there;
* `run_lenient_object`, `run_lenient_array`, `run_lenient_scalar` — what it does with a value whose
  parts it has read;
* `within_of_run_lenient` — what it returns nests no deeper than it was allowed.
-/

set_option autoImplicit false

namespace CrewChart.Json

namespace Reader

variable {α σ : Type} {s r t : List Char}

/-! ## The first of two readers that succeeds -/

def orElse (p q : Reader α) : Reader α where
  run s :=
    match p.run s with
    | .ok x => .ok x
    | .error _ => q.run s
  consumes := by
    intro s r a h
    split at h
    · rename_i x hp
      rw [h] at hp
      exact p.consumes hp
    · exact q.consumes h

theorem run_orElse_left {p q : Reader α} {x : α × List Char} (h : p.run s = .ok x) :
    (p.orElse q).run s = .ok x := by
  simp only [orElse, h]

theorem run_orElse_right {p q : Reader α} (h : ∀ x, p.run s ≠ .ok x) :
    (p.orElse q).run s = q.run s := by
  simp only [orElse]
  split
  · rename_i x hx; exact absurd hx (h x)
  · rfl

/-- What is returned comes from one of the two. -/
theorem run_orElse {p q : Reader α} {x : α × List Char} (h : (p.orElse q).run s = .ok x) :
    p.run s = .ok x ∨ q.run s = .ok x := by
  simp only [orElse] at h
  split at h
  · rename_i y hy; rw [h] at hy; exact .inl hy
  · exact .inr h

theorem passesOver_orElse {p q : Reader α} (hp : p.PassesOver) (hq : q.PassesOver) :
    (p.orElse q).PassesOver := by
  intro s r a h
  rcases run_orElse h with h | h
  · exact hp h
  · exact hq h

/-! ## Parts of a value -/

theorem passesOver_skipThen (st : σ) : (skipThen st).PassesOver :=
  fun h => (run_skipThen_iff.1 h).2

theorem passesOver_map {β : Type} {f : α → β} {p : Reader α} (hp : p.PassesOver) :
    (p.map f).PassesOver := by
  intro s r b h
  obtain ⟨a, ha, -⟩ := run_map_iff.1 h
  exact hp ha

theorem passesOver_listOf {levels : Nat} {p : Nat → Reader α} (hp : (p levels).PassesOver) :
    (listOf (levels + 1) p).PassesOver := by
  intro s r as h
  obtain ⟨t, hs, hi⟩ := run_listOf_iff.1 h
  rw [skipOpen_bracket (skipStart_bracket (.inl ⟨rfl, rfl⟩) hs), skipOpen_items hp [] hi,
    skipOpen_end]

theorem passesOver_rawShape {levels : Nat} {expected : String} {p : Nat → Reader Value}
    (hp : (p levels).PassesOver) :
    (record (levels + 1) expected fun l => rawShape (p l)).PassesOver := by
  intro s r v h
  obtain ⟨t, hs, h⟩ := run_record_iff.1 h
  obtain ⟨ms, u, hms, rfl, rfl⟩ := object_rawShape_iff.1 h
  rw [skipOpen_bracket (skipStart_bracket (.inr ⟨rfl, rfl⟩) hs), skipOpen_objectMembers hp [] hms,
    skipOpen_end]

/-! ## The lenient reader -/

/-- The value a text holds, with `null` for what can only be passed over. -/
def lenient : Nat → Reader Value
  | 0 => (value 0).orElse (skipThen .null)
  | levels + 1 =>
    ((listOf 1 fun _ => lenient levels).map .array).orElse
      ((record 1 "" fun _ => rawShape (lenient levels)).orElse
        ((value 0).orElse (skipThen .null)))

/-- **The lenient reader ends where passing over does**, because each of the readers it tries
does. -/
theorem passesOver_lenient (levels : Nat) : (lenient levels).PassesOver := by
  induction levels with
  | zero => exact passesOver_orElse (passesOver_value 0) (passesOver_skipThen _)
  | succ levels ih =>
    exact passesOver_orElse (passesOver_map (passesOver_listOf ih))
      (passesOver_orElse (passesOver_rawShape ih)
        (passesOver_orElse (passesOver_value 0) (passesOver_skipThen _)))

/-! ### What it does with each kind of value -/

variable {levels : Nat}

theorem run_lenient_array {vs : List Value} (hs : skipBlank s = '[' :: t)
    (h : items (lenient levels) true t = .ok (vs, r)) :
    (lenient (levels + 1)).run s = .ok (.array vs, r) :=
  run_orElse_left (run_map_iff.2 ⟨vs, run_listOf_iff.2 ⟨t, hs, h⟩, rfl⟩)

theorem run_lenient_object {ms : List (String × Value)} (hs : skipBlank s = '\x7b' :: t)
    (h : ObjectMembers (lenient levels) true t ms r) :
    (lenient (levels + 1)).run s = .ok (.object ms, r.drop 1) := by
  rw [lenient, run_orElse_right]
  · exact run_orElse_left (run_record_iff.2 ⟨t, hs, object_rawShape_iff.2 ⟨ms, r, h, rfl, rfl⟩⟩)
  · -- an object is no array, so the first reader fails
    rintro ⟨v, u⟩ hv
    obtain ⟨vs, hvs, -⟩ := run_map_iff.1 hv
    obtain ⟨w, hw, -⟩ := run_listOf_iff.1 hvs
    rw [hs] at hw
    cases hw

/-- A scalar starts with no bracket, so it is left to the reader of scalars. -/
theorem run_lenient_scalar {v : Value} (h : scalar (skipBlank s) = .ok (v, r)) (levels : Nat) :
    (lenient levels).run s = .ok (v, r) := by
  have hzero := run_value_zero_iff.2 h
  cases levels with
  | zero => exact run_orElse_left hzero
  | succ levels =>
    rw [lenient, run_orElse_right, run_orElse_right]
    · exact run_orElse_left hzero
    · rintro ⟨w, u⟩ hw
      obtain ⟨t, ht, -⟩ := run_record_iff.1 hw
      exact scalar_bracket (by simp) t (ht ▸ h)
    · rintro ⟨w, u⟩ hw
      obtain ⟨vs, hvs, -⟩ := run_map_iff.1 hw
      obtain ⟨t, ht, -⟩ := run_listOf_iff.1 hvs
      exact scalar_bracket (by simp) t (ht ▸ h)

/-- The items are read alike by two readers, if one of them succeeds wherever the other does. -/
theorem items_mono {p q : Reader α} (hpq : ∀ {s x}, p.run s = .ok x → q.run s = .ok x)
    {first : Bool} {as : List α} (h : items p first s = .ok (as, r)) :
    items q first s = .ok (as, r) := by
  refine items_induction (P := fun first s as => items q first s = .ok (as, r)) ?_ ?_ h
  · exact fun hnext hr => items_iff.2 (.inl ⟨_, hnext, rfl, hr⟩)
  · exact fun hnext ha htail => items_iff.2 (.inr ⟨_, _, _, _, hnext, hpq ha, htail, rfl⟩)

/-- So are members. -/
theorem ObjectMembers.mono {p q : Reader Value} (hpq : ∀ {s x}, p.run s = .ok x → q.run s = .ok x)
    {first : Bool} {ms : List (String × Value)} (h : ObjectMembers p first s ms r) :
    ObjectMembers q first s ms r := by
  induction h with
  | done hk => exact .done hk
  | more hk hc hv _ ih => exact .more hk hc (hpq hv) ih

/-- **Where all of a value can be held, the lenient reader returns that value.** -/
theorem run_lenient_of_value {x : Value × List Char} (h : (value levels).run s = .ok x) :
    (lenient levels).run s = .ok x := by
  obtain ⟨v, r⟩ := x
  induction levels generalizing s v r with
  | zero => exact run_lenient_scalar (run_value_zero_iff.1 h) 0
  | succ levels ih =>
    rcases run_value_succ_iff.1 h with ⟨t, vs, hs, hi, rfl⟩ | ⟨t, ms, u, hs, hms, rfl, rfl⟩ | hsc
    · exact run_lenient_array hs (items_mono (fun h => ih _ _ h) hi)
    · exact run_lenient_object hs (hms.mono fun h => ih _ _ h)
    · exact run_lenient_scalar hsc (levels + 1)

theorem read_lenient_of_value {text : String} {v : Value} (h : (value levels).read text = .ok v) :
    (lenient levels).read text = .ok v := by
  obtain ⟨r, hrun, hend⟩ := read_iff.1 h
  exact read_iff.2 ⟨r, run_lenient_of_value hrun, hend⟩

/-- **The lenient reader succeeds wherever passing over does**, and stops there. -/
theorem exists_run_lenient (levels : Nat) (h : skipOpen .value [] s = .ok r) :
    ∃ v, (lenient levels).run s = .ok (v, r) := by
  have hsome : ∃ x, (lenient levels).run s = .ok x := by
    -- the last reader it tries passes over, and that succeeds
    have hskip : (skipThen Value.null).run s = .ok (.null, r) := run_skipThen_iff.2 ⟨rfl, h⟩
    have orElse : ∀ {p q : Reader Value}, (∃ x, q.run s = .ok x) →
        ∃ x, (p.orElse q).run s = .ok x := by
      rintro p q ⟨x, hx⟩
      by_cases hp : ∃ y, p.run s = .ok y
      · exact ⟨_, run_orElse_left hp.choose_spec⟩
      · exact ⟨x, by rw [run_orElse_right (not_exists.1 hp), hx]⟩
    cases levels with
    | zero => exact orElse ⟨_, hskip⟩
    | succ levels => exact orElse (orElse (orElse ⟨_, hskip⟩))
  obtain ⟨⟨v, u⟩, hv⟩ := hsome
  have hu := passesOver_lenient levels hv
  rw [h, Except.ok.injEq] at hu
  exact ⟨v, by rw [hv, hu]⟩

/-! ### How deep it goes -/

/-- What holds of whatever a reader returns holds of all items it reads. -/
theorem items_forall {p : Reader α} {P : α → Prop}
    (hp : ∀ {s r a}, p.run s = .ok (a, r) → P a) {first : Bool} {as : List α}
    (h : items p first s = .ok (as, r)) : ∀ a ∈ as, P a := by
  refine items_induction (P := fun _ _ as => ∀ a ∈ as, P a) ?_ ?_ h
  · exact fun _ _ a ha => absurd ha List.not_mem_nil
  · exact fun _ ha htail => List.forall_mem_cons.2 ⟨hp ha, htail⟩

theorem ObjectMembers.forall {p : Reader Value} {P : Value → Prop}
    (hp : ∀ {s r v}, p.run s = .ok (v, r) → P v) {first : Bool} {ms : List (String × Value)}
    (h : ObjectMembers p first s ms r) : ∀ m ∈ ms, P m.2 := by
  induction h with
  | done hk => exact fun m hm => absurd hm List.not_mem_nil
  | more hk hc hv _ ih => exact List.forall_mem_cons.2 ⟨hp hv, ih⟩

theorem within_of_scalar {v : Value} (h : scalar s = .ok (v, r)) (levels : Nat) :
    v.Within levels := by
  cases s with
  | nil => cases h
  | cons c t =>
    rw [scalar] at h
    split_ifs at h <;>
      (obtain ⟨a, -, hr⟩ := map_eq_ok h; cases hr; cases levels <;> trivial)

/-- **What the lenient reader returns nests no deeper than it was allowed.** -/
theorem within_of_run_lenient {v : Value} (h : (lenient levels).run s = .ok (v, r)) :
    v.Within levels := by
  induction levels generalizing s v r with
  | zero =>
    rcases run_orElse h with h | h
    · exact within_of_scalar (run_value_zero_iff.1 h) 0
    · rw [(run_skipThen_iff.1 h).1]; trivial
  | succ levels ih =>
    -- one case for each of the readers it tries
    rcases run_orElse h with h | h
    · obtain ⟨vs, hvs, rfl⟩ := run_map_iff.1 h
      obtain ⟨t, -, hi⟩ := run_listOf_iff.1 hvs
      exact items_forall ih hi
    rcases run_orElse h with h | h
    · obtain ⟨t, -, h⟩ := run_record_iff.1 h
      obtain ⟨ms, u, hms, rfl, -⟩ := object_rawShape_iff.1 h
      exact hms.forall ih
    rcases run_orElse h with h | h
    · exact within_of_scalar (run_value_zero_iff.1 h) _
    · rw [(run_skipThen_iff.1 h).1]; trivial

end Reader

end CrewChart.Json

import CrewChart.Proofs.Json.Decoding

/-!
# Readers that leave a choice

A field may be `null` instead of a value, and one of a few names may be written as a string or as
the one key of an object.  Both are told apart by what the text begins with, before anything is
read.  They too are functions of the value that stands in the text.

## What is here

* `scalar_null_iff`, `scalar_string_iff` — what `null` and a string begin with;
* `Decodes.optional` — a value or `null`;
* `decodes_variant` — one of a few names, in either form.
-/

set_option autoImplicit false

namespace CrewChart.Json

theorem scalar_null_iff {s r : List Char} :
    scalar s = .ok (.null, r) ↔ ∃ t, s = 'n' :: t ∧ keyword ['u', 'l', 'l'] t = .ok r := by
  constructor
  · intro h
    cases s with
    | nil => cases h
    | cons c t =>
      rw [scalar] at h
      split_ifs at h with hc <;> obtain ⟨x, hx, hr⟩ := map_eq_ok h <;> cases hr
      exact ⟨t, by rw [hc], hx⟩
  · rintro ⟨t, rfl, h⟩
    rw [scalar, if_pos rfl, h]
    rfl

theorem scalar_string_iff {s r : List Char} {k : String} :
    scalar s = .ok (.string k, r) ↔ ∃ t, s = '"' :: t ∧ stringTail [] t = .ok (k, r) := by
  constructor
  · intro h
    cases s with
    | nil => cases h
    | cons c t =>
      rw [scalar] at h
      split_ifs at h with h1 h2 h3 h4 h5 hc <;> obtain ⟨x, hx, hr⟩ := map_eq_ok h <;> cases hr
      exact ⟨t, by rw [hc], hx⟩
  · rintro ⟨t, rfl, h⟩
    show (stringTail [] t).map _ = _
    rw [h]
    rfl

namespace Reader

variable {α : Type} {levels : Nat} {s t r : List Char}

/-! ## Blanks before a value -/

theorem run_orElse_mono {p q : Reader α} (hp : p.run s = p.run t)
    (hq : ∀ {x}, q.run t = .ok x → q.run s = .ok x) {x : α × List Char}
    (h : (p.orElse q).run t = .ok x) : (p.orElse q).run s = .ok x := by
  simp only [orElse, hp] at h ⊢
  cases hr : p.run t with
  | ok y => rw [hr] at h; exact h
  | error f => rw [hr] at h; exact hq h

/-- Blanks before a value make no difference to the lenient reader either. -/
theorem run_lenient_skipBlank (hs : skipBlank s = skipBlank t) {x : Value × List Char}
    (h : (lenient levels).run t = .ok x) : (lenient levels).run s = .ok x := by
  have hskip : ∀ {x}, (skipThen Value.null).run t = .ok x →
      (skipThen Value.null).run s = .ok x := by
    rintro ⟨v, r⟩ hr
    obtain ⟨hv, hr⟩ := run_skipThen_iff.1 hr
    exact run_skipThen_iff.2 ⟨hv, skipOpen_skipBlank hs hr⟩
  have hscalar : ∀ {x}, ((value 0).orElse (skipThen .null)).run t = .ok x →
      ((value 0).orElse (skipThen .null)).run s = .ok x :=
    run_orElse_mono (run_value_skipBlank 0 hs) hskip
  cases levels with
  | zero => exact hscalar h
  | succ levels =>
    refine run_orElse_mono ?_ (run_orElse_mono ?_ hscalar) h
    · simp only [map, listOf, afterBlank, hs]
    · simp only [record, afterBlank, hs]

/-! ## A value or nothing -/

/-- A value is read as a scalar, unless it begins with a bracket. -/
theorem scalar_or_bracket {v : Value} (h : (value levels).run s = .ok (v, r)) :
    scalar (skipBlank s) = .ok (v, r) ∨
      ¬ v.Within 0 ∧ ∃ t, skipBlank s = '[' :: t ∨ skipBlank s = '\x7b' :: t := by
  cases levels with
  | zero => exact .inl (run_value_zero_iff.1 h)
  | succ levels =>
    rcases run_value_succ_iff.1 h with ⟨t, vs, hs, -, rfl⟩ | ⟨t, ms, u, hs, -, rfl, -⟩ | hs
    · exact .inr ⟨id, t, .inl hs⟩
    · exact .inr ⟨id, t, .inr hs⟩
    · exact .inl hs

/-- A value without brackets is read as a scalar. -/
theorem scalar_of_run_value {v : Value} (h : (value levels).run s = .ok (v, r))
    (hv : v.Within 0) : scalar (skipBlank s) = .ok (v, r) :=
  (scalar_or_bracket h).resolve_right fun hbracket => hbracket.1 hv

/-- Only `null` begins with this letter. -/
theorem null_of_run_value {v : Value} (h : (value levels).run s = .ok (v, r))
    (hs : skipBlank s = 'n' :: t) : v = .null := by
  obtain hscalar | ⟨-, u, hu | hu⟩ := scalar_or_bracket h
  · rw [hs, scalar, if_pos rfl] at hscalar
    obtain ⟨x, -, hx⟩ := map_eq_ok hscalar
    cases hx
    rfl
  all_goals
    rw [hs] at hu
    cases hu

/-- What is made of a value that may be `null`. -/
def orNothing (decode : Value → Option α) (v : Value) : Option (Option α) :=
  if v = .null then some none else (decode v).map some

theorem orNothing_eq_some_iff {decode : Value → Option α} (hnull : decode .null = none) {v : Value}
    {a : Option α} : orNothing decode v = some a ↔
      v = .null ∧ a = none ∨ ∃ b, decode v = some b ∧ a = some b := by
  rw [orNothing]
  by_cases hv : v = .null
  · subst hv
    simp [hnull, eq_comm]
  · simp [hv, eq_comm]

theorem run_optional_iff {p : Reader α} {a : Option α} :
    (optional p).run s = .ok (a, r) ↔
      scalar (skipBlank s) = .ok (.null, r) ∧ a = none ∨
        (∀ t, skipBlank s ≠ 'n' :: t) ∧ ∃ b, p.run (skipBlank s) = .ok (b, r) ∧ a = some b := by
  simp only [optional, afterBlank]
  split
  · rename_i t ht
    rw [ht, scalar_null_iff]
    cases hk : keyword ['u', 'l', 'l'] t <;> simp [Except.map, hk, eq_comm, and_comm]
  · rename_i hn
    have hnull : scalar (skipBlank s) ≠ .ok (.null, r) := fun h => by
      obtain ⟨t, ht, -⟩ := scalar_null_iff.1 h
      exact hn t ht
    cases p.run (skipBlank s) with
    | error f => simp [Except.map, hnull]
    | ok x =>
      obtain ⟨b, u⟩ := x
      have hn : ∀ t, skipBlank s ≠ 'n' :: t := hn
      simp [Except.map, hnull, hn, and_comm, eq_comm (a := a)]

/-- **A value or `null`.** -/
theorem Decodes.optional {p : Reader α} {decode : Value → Option α} (h : Decodes levels p decode)
    (hnull : decode .null = none) : Decodes levels (optional p) (orNothing decode) where
  sound {s r a} hr := by
    rcases run_optional_iff.1 hr with ⟨hs, ha⟩ | ⟨-, b, hb, ha⟩
    · exact ⟨.null, run_lenient_scalar hs levels, (orNothing_eq_some_iff hnull).2 (.inl ⟨rfl, ha⟩)⟩
    · obtain ⟨v, hv, hd⟩ := h.sound hb
      exact ⟨v, run_lenient_skipBlank (skipBlank_skipBlank s).symm hv,
        (orNothing_eq_some_iff hnull).2 (.inr ⟨b, hd, ha⟩)⟩
  complete {s r v a} hv ha := by
    refine run_optional_iff.2 ?_
    rcases (orNothing_eq_some_iff hnull).1 ha with ⟨rfl, hnone⟩ | ⟨b, hd, ha⟩
    · exact .inl ⟨scalar_of_run_value hv trivial, hnone⟩
    · refine .inr ⟨fun t ht => ?_, b, h.complete ?_ hd, ha⟩
      · rw [null_of_run_value hv ht, hnull] at hd
        cases hd
      · rw [run_value_skipBlank levels (skipBlank_skipBlank s), hv]

/-! ## One of a few names -/

/-- What is made of a name, or of an object with the name as its one key and nothing under it. -/
def variant? (known : List (String × α)) : Value → Option α
  | .string k => known.lookup k
  | .object [(k, .null)] => known.lookup k
  | _ => none

theorem run_variantName_iff {known : List (String × α)} {a : α} :
    (variantName known).run s = .ok (a, r) ↔
      ∃ k, scalar (skipBlank s) = .ok (.string k, r) ∧ known.lookup k = some a := by
  rw [variantName, run_ofScalar_iff]
  constructor
  · rintro ⟨v, hv, ha⟩
    cases v with
    | string k =>
      refine ⟨k, hv, ?_⟩
      cases hk : known.lookup k with
      | none => simp [hk] at ha
      | some b => simpa [hk] using ha
    | _ => cases ha
  · rintro ⟨k, hk, ha⟩
    exact ⟨.string k, hk, by simp [ha]⟩

theorem noContent_iff :
    noContent s = .ok r ↔ ∃ t u, colon s = .ok t ∧ scalar (skipBlank t) = .ok (.null, u) ∧
      skipBlank u = '\x7d' :: r := by
  rw [noContent]
  cases hc : colon s with
  | error f => simp
  | ok t =>
    simp only [Except.ok.injEq, exists_and_left, exists_eq_left']
    split
    · rename_i w hw
      rw [hw]
      simp only [scalar_null_iff, List.cons.injEq, true_and, exists_eq_left']
      cases hk : keyword ['u', 'l', 'l'] w with
      | error f => simp
      | ok u =>
        simp only [Except.ok.injEq, exists_eq_left']
        cases hu : skipBlank u with
        | nil => simp
        | cons c x => by_cases hc : c = '\x7d' <;> simp [hc]
    · rename_i hn
      have hnull : ∀ u, scalar (skipBlank t) ≠ .ok (.null, u) := fun u h => by
        obtain ⟨w, hw, -⟩ := scalar_null_iff.1 h
        exact hn w hw
      simp [hnull]

theorem longName_iff {known : List (String × α)} {a : α} :
    longName known s = .ok (a, r) ↔ ∃ k u, scalar (skipBlank s) = .ok (.string k, u) ∧
      known.lookup k = some a ∧ noContent u = .ok r := by
  rw [longName]
  cases hs : skipBlank s with
  | nil => simp [scalar]
  | cons c t =>
    by_cases hc : c = '"'
    · subst hc
      have hname : ∀ {b u}, (variantName known).run ('"' :: t) = .ok (b, u) ↔
          ∃ k, scalar ('"' :: t) = .ok (.string k, u) ∧ known.lookup k = some b := by
        intro b u
        rw [run_variantName_iff, skipBlank_of_not_isBlank (by decide)]
      dsimp only
      rw [if_pos rfl]
      constructor
      · intro h
        split at h
        · cases h
        · rename_i b u hb
          obtain ⟨x, hx, hr⟩ := map_eq_ok h
          cases hr
          obtain ⟨k, hk, hb⟩ := hname.1 hb
          exact ⟨k, u, hk, hb, hx⟩
      · rintro ⟨k, u, hk, ha, hr⟩
        rw [hname.2 ⟨k, hk, ha⟩]
        simp only [hr]
        rfl
    · -- A string begins with a quote, so here both sides fail.
      have hno : ∀ k u, scalar (c :: t) ≠ .ok (.string k, u) := fun k u h => by
        obtain ⟨w, hw, -⟩ := scalar_string_iff.1 h
        exact hc (List.cons.inj hw).1
      simp only [if_neg hc, hno, false_and, exists_false, iff_false]
      split_ifs <;> simp

theorem run_variant_iff {known : List (String × α)} {a : α} :
    (variant (levels + 1) known).run s = .ok (a, r) ↔ ∃ k, known.lookup k = some a ∧
      (scalar (skipBlank s) = .ok (.string k, r) ∨ ∃ t u, skipBlank s = '\x7b' :: t ∧
        scalar (skipBlank t) = .ok (.string k, u) ∧ noContent u = .ok r) := by
  simp only [variant, afterBlank]
  -- The first character decides between the two forms.
  split
  · rename_i hs
    simp [hs, scalar]
  · rename_i t hs
    rw [run_variantName_iff, skipBlank_skipBlank]
    simp [hs, and_comm]
  · rename_i t hs
    have hno : ∀ k, scalar ('\x7b' :: t) ≠ .ok (.string k, r) := fun k => scalar_bracket (by simp) t
    rw [longName_iff, hs]
    simp only [hno, false_or, List.cons.injEq, true_and]
    constructor
    · rintro ⟨k, u, hk, ha, hr⟩
      exact ⟨k, ha, t, u, rfl, hk, hr⟩
    · rintro ⟨k, ha, t, u, rfl, hk, hr⟩
      exact ⟨k, u, hk, ha, hr⟩
  · rename_i hquote hbracket
    simp only [reduceCtorEq, false_iff]
    rintro ⟨k, -, h | ⟨t, u, ht, -⟩⟩
    · obtain ⟨t, ht, -⟩ := scalar_string_iff.1 h
      exact hquote t ht
    · exact hbracket t ht

/-- The first key of an object is a string. -/
theorem nextKey_first_iff {k : String} :
    nextKey true s = .ok (some k, r) ↔ scalar (skipBlank s) = .ok (.string k, r) := by
  rw [nextKey_some_iff, scalar_string_iff]
  simp [and_comm]

/-- **One of a few names**, in either form. -/
theorem decodes_variant (known : List (String × α)) :
    Decodes (levels + 1) (variant (levels + 1) known) (variant? known) where
  sound {s r a} hr := by
    obtain ⟨k, ha, hk | ⟨t, u, hs, hk, hu⟩⟩ := run_variant_iff.1 hr
    · exact ⟨.string k, run_lenient_scalar hk _, ha⟩
    · obtain ⟨w, x, hw, hx, hend⟩ := noContent_iff.1 hu
      have hmembers : ObjectMembers (lenient levels) true t [(k, .null)] ('\x7d' :: r) :=
        .more (nextKey_first_iff.2 hk) hw (run_lenient_scalar hx levels)
          (.done (nextKey_none_iff.2 ⟨r, hend, rfl⟩))
      exact ⟨.object [(k, .null)], run_lenient_object hs hmembers, ha⟩
  complete {s r v a} hv ha := by
    refine run_variant_iff.2 ?_
    unfold variant? at ha
    split at ha
    · rename_i k
      exact ⟨k, ha, .inl (scalar_of_run_value hv trivial)⟩
    · rename_i k
      -- Of the ways to read a value only that of an object makes an object.
      rcases run_value_succ_iff.1 hv with ⟨t, vs, -, -, h⟩ | ⟨t, ms, u, hs, hms, h, rfl⟩ | hscalar
      · cases h
      · cases h
        cases hms with
        | more hkey hc hnull hrest =>
          cases hrest with
          | done hend =>
            obtain ⟨x, hx, rfl⟩ := nextKey_none_iff.1 hend
            exact ⟨k, ha, .inr ⟨t, _, hs, nextKey_first_iff.1 hkey,
              noContent_iff.2 ⟨_, _, hc, scalar_of_run_value hnull trivial, hx⟩⟩⟩
      · exact (within_of_scalar hscalar 0).elim
    · cases ha

end Reader

end CrewChart.Json

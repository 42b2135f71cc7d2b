import CrewChart.Json.Skip
import Mathlib.Data.List.DropRight

/-!
# What a reader has done when it succeeds

A reader that succeeds has read its parts one after the other.  Each lemma here says so for one way
to build a reader, as an equivalence, so that a success is taken apart and put together with the
same lemma.

## What is here

* `run_map_iff`, `run_ofScalar_iff`, `run_skipThen_iff` — readers made of another one;
* `items_iff`, `members_iff`, `fields_iff` — one round of the loops inside brackets;
* `items_induction`, `members_induction` — all rounds;
* `ObjectMembers` — the members of an object that is read as a value, in order;
* `run_listOf_iff`, `run_record_iff`, `run_recordOrTuple_iff`, `run_value_succ_iff` — whole
  brackets;
* `read_iff` — the whole of a text.
-/

set_option autoImplicit false

namespace CrewChart.Json

theorem skipBlank_of_not_isBlank {c : Char} (h : isBlank c = false) (t : List Char) :
    skipBlank (c :: t) = c :: t :=
  List.dropWhile_cons_of_neg (by rw [h]; decide)

theorem skipBlank_skipBlank (s : List Char) : skipBlank (skipBlank s) = skipBlank s :=
  List.dropWhile_idempotent isBlank s

namespace Reader

variable {α β σ τ : Type} {s r : List Char}

/-! ## Readers made of one other -/

theorem run_map_iff {f : α → β} {p : Reader α} {b : β} :
    (p.map f).run s = .ok (b, r) ↔ ∃ a, p.run s = .ok (a, r) ∧ f a = b := by
  show (p.run s).map _ = _ ↔ _
  cases p.run s with
  | error e => simp [Except.map]
  | ok x => obtain ⟨a, t⟩ := x; simp [Except.map, and_comm]

theorem run_ofScalar_iff {expected : String} {accept : Value → Option (Except Cause α)} {a : α} :
    (ofScalar expected accept).run s = .ok (a, r) ↔
      ∃ v, scalar (skipBlank s) = .ok (v, r) ∧ accept v = some (.ok a) := by
  simp only [ofScalar, afterBlank]
  cases scalar (skipBlank s) with
  | error e => simp
  | ok x =>
    obtain ⟨v, t⟩ := x
    cases hv : accept v with
    | none => simp [hv]
    | some y => cases y <;> simp [hv, and_comm]

theorem run_skipThen_iff {st st' : σ} :
    (skipThen st).run s = .ok (st', r) ↔ st' = st ∧ skipOpen .value [] s = .ok r := by
  rw [skipThen, run_map_iff]
  show (∃ a, (skipOpen .value [] s).map _ = _ ∧ _) ↔ _
  cases skipOpen .value [] s with
  | error e => simp [Except.map]
  | ok t => simp [Except.map, eq_comm, and_comm]

/-! ## Arrays -/

theorem nextItem_false_iff {first : Bool} :
    nextItem first s = .ok (false, r) ↔ ∃ t, skipBlank s = ']' :: t ∧ r = ']' :: t := by
  rw [nextItem]
  cases hs : skipBlank s with
  | nil => simp
  | cons c t =>
    by_cases hc : c = ']'
    · subst hc; simp [eq_comm]
    · by_cases hcomma : c = ','
      · subst hcomma
        cases ht : skipBlank t with
        | nil => cases first <;> simp [ht]
        | cons d u => cases first <;> simp [ht]; split_ifs <;> simp
      · cases first <;> simp [hc, hcomma]

/-- Another item follows: the first right here, a later one after a comma. -/
theorem nextItem_true_iff {first : Bool} :
    nextItem first s = .ok (true, r) ↔ ∃ c t, r = c :: t ∧ c ≠ ']' ∧
      (first = true ∧ skipBlank s = c :: t ∨
        first = false ∧ ∃ u, skipBlank s = ',' :: u ∧ skipBlank u = c :: t) := by
  rw [nextItem]
  cases hs : skipBlank s with
  | nil => simp
  | cons c t =>
    by_cases hc : c = ']'
    · subst hc; simp
    · by_cases hcomma : c = ','
      · subst hcomma
        cases ht : skipBlank t with
        | nil => cases first <;> simp [ht, eq_comm]
        | cons d u =>
          cases first with
          | true => simp [eq_comm]
          | false => by_cases hd : d = ']' <;> simp [ht, hd, eq_comm]
      · cases first <;> simp [hc, hcomma, eq_comm]

/-- One round: the array ends, or an item is read and the others follow. -/
theorem items_iff {p : Reader α} {first : Bool} {as : List α} :
    items p first s = .ok (as, r) ↔
      (∃ t, nextItem first s = .ok (false, t) ∧ as = [] ∧ r = t.drop 1) ∨
      ∃ t a u bs, nextItem first s = .ok (true, t) ∧ p.run t = .ok (a, u) ∧
        items p false u = .ok (bs, r) ∧ as = a :: bs := by
  rw [items]
  split
  · rename_i f hn; simp [hn]
  · rename_i t hn; simp [hn, eq_comm]
  · rename_i t hn
    split
    · rename_i f hp; simp [hn, hp]
    · rename_i a u hp
      split
      · rename_i f hi; simp [hn, hp, hi]
      · rename_i bs v hi; simp [hn, hp, hi, eq_comm, and_comm]

/-- **What holds at the end of an array, and goes over from the items after one to it and them,
holds of every array that is read.**  There is no list yet to go through, so the induction is on the
text, of which each item takes some. -/
theorem items_induction {p : Reader α} {P : Bool → List Char → List α → Prop}
    (hend : ∀ {first s t}, nextItem first s = .ok (false, t) → r = t.drop 1 → P first s [])
    (hmore : ∀ {first s t a u as}, nextItem first s = .ok (true, t) → p.run t = .ok (a, u) →
      P false u as → P first s (a :: as))
    {first : Bool} {as : List α} (h : items p first s = .ok (as, r)) : P first s as := by
  induction hn : s.length using Nat.strongRecOn generalizing first s as with
  | _ n ih =>
    rcases items_iff.1 h with ⟨t, hnext, rfl, hr⟩ | ⟨t, a, u, as', hnext, ha, htail, rfl⟩
    · exact hend hnext hr
    · have hlt : u.length < n := by
        have := nextItem_length hnext
        have := p.consumes ha
        omega
      exact hmore hnext ha (ih _ hlt htail rfl)

theorem run_listOf_iff {levels : Nat} {p : Nat → Reader α} {as : List α} :
    (listOf (levels + 1) p).run s = .ok (as, r) ↔
      ∃ t, skipBlank s = '[' :: t ∧ items (p levels) true t = .ok (as, r) := by
  simp only [listOf, afterBlank]
  split
  · rename_i t ht
    split
    · rename_i f hi; simp [ht, hi]
    · rename_i x hi; simp [ht, hi]
  · rename_i hs
    constructor
    · intro h; cases h
    · rintro ⟨t, ht, -⟩; exact absurd ht (hs t)

/-! ## Objects -/

theorem nextKey_none_iff {first : Bool} :
    nextKey first s = .ok (none, r) ↔ ∃ t, skipBlank s = '\x7d' :: t ∧ r = '\x7d' :: t := by
  -- a key is never no key
  have hkey : ∀ t : List Char,
      ((stringTail [] t).map fun x => (some x.1, x.2)) ≠ .ok (none, r) := by
    intro t h
    cases hs : stringTail [] t <;> rw [hs] at h <;> cases h
  rw [nextKey]
  cases hs : skipBlank s with
  | nil => simp
  | cons c t =>
    by_cases hc : c = '\x7d'
    · subst hc; simp [eq_comm]
    · cases first with
      | true => by_cases hquote : c = '"' <;> simp [hc, hquote, hkey]
      | false =>
        by_cases hcomma : c = ','
        · subst hcomma
          cases ht : skipBlank t with
          | nil => simp [ht]
          | cons d u =>
            by_cases hquote : d = '"'
            · simp [ht, hquote, hkey]
            · by_cases hend : d = '\x7d' <;> simp [ht, hquote, hend]
        · simp [hc, hcomma]

/-- Another member follows: the first right here, a later one after a comma. -/
theorem nextKey_some_iff {first : Bool} {key : String} :
    nextKey first s = .ok (some key, r) ↔ ∃ t, stringTail [] t = .ok (key, r) ∧
      (first = true ∧ skipBlank s = '"' :: t ∨
        first = false ∧ ∃ u, skipBlank s = ',' :: u ∧ skipBlank u = '"' :: t) := by
  have hkey : ∀ t : List Char,
      ((stringTail [] t).map fun x => (some x.1, x.2)) = .ok (some key, r) ↔
        stringTail [] t = .ok (key, r) := by
    intro t
    cases stringTail [] t with
    | error f => simp [Except.map]
    | ok x => obtain ⟨k, u⟩ := x; simp [Except.map]
  rw [nextKey]
  cases hs : skipBlank s with
  | nil => simp
  | cons c t =>
    by_cases hc : c = '\x7d'
    · subst hc; simp
    · cases first with
      | true => by_cases hquote : c = '"' <;> simp [hc, hquote, hkey]
      | false =>
        by_cases hcomma : c = ','
        · subst hcomma
          cases ht : skipBlank t with
          | nil => simp [ht]
          | cons d u =>
            by_cases hquote : d = '"'
            · simp [ht, hquote, hkey]
            · by_cases hend : d = '\x7d' <;> simp [ht, hquote, hend]
        · simp [hc, hcomma]

/-- One round: the object ends, or a member is taken and the others follow. -/
theorem members_iff {shape : Shape σ α} {first : Bool} {st st' : σ} :
    members shape first st s = .ok (st', r) ↔
      (nextKey first s = .ok (none, r) ∧ st' = st) ∨
      ∃ key t p u st₁ w, nextKey first s = .ok (some key, t) ∧ shape.take st key = .ok p ∧
        colon t = .ok u ∧ p.run u = .ok (st₁, w) ∧ members shape false st₁ w = .ok (st', r) := by
  rw [members]
  split
  · rename_i f hk; simp [hk]
  · rename_i t hk; simp [hk, eq_comm, and_comm]
  · rename_i key t hk
    split
    · rename_i cause hp; simp [hk, hp]
    · rename_i p hp
      split
      · rename_i f hc; simp [hk, hc]
      · rename_i u hc
        split
        · rename_i f hr; simp [hk, hp, hc, hr]
        · rename_i st₁ w hr; simp [hk, hp, hc, hr]

/-- **What holds at the end of an object, and goes over from the members after one to it and them,
holds of every object that is read**, by induction on the text as for arrays. -/
theorem members_induction {shape : Shape σ α} {st' : σ} {P : Bool → σ → List Char → Prop}
    (hend : ∀ {first s}, nextKey first s = .ok (none, r) → P first st' s)
    (hmore : ∀ {first st s key t p u st₁ w}, nextKey first s = .ok (some key, t) →
      shape.take st key = .ok p → colon t = .ok u → p.run u = .ok (st₁, w) → P false st₁ w →
      P first st s)
    {first : Bool} {st : σ} (h : members shape first st s = .ok (st', r)) : P first st s := by
  induction hn : s.length using Nat.strongRecOn generalizing first s st with
  | _ n ih =>
    rcases members_iff.1 h with ⟨hk, rfl⟩ | ⟨key, t, p, u, st₁, w, hk, hp, hc, hr, htail⟩
    · exact hend hk
    · have hlt : w.length < n := by
        have := nextKey_length hk
        have := colon_length hc
        have := p.consumes hr
        omega
      exact hmore hk hp hc hr (ih _ hlt htail rfl)

theorem object_iff {shape : Shape σ α} {a : α} :
    object shape s = .ok (a, r) ↔
      ∃ st t, members shape true shape.start s = .ok (st, t) ∧ shape.finish st = .ok a ∧
        r = t.drop 1 := by
  rw [object]
  cases members shape true shape.start s with
  | error f => simp
  | ok x =>
    obtain ⟨st, t⟩ := x
    cases hf : shape.finish st with
    | error cause => simp [hf]
    | ok b => simp [hf, eq_comm]

theorem run_record_iff {levels : Nat} {expected : String} {shape : Nat → Shape σ α} {a : α} :
    (record (levels + 1) expected shape).run s = .ok (a, r) ↔
      ∃ t, skipBlank s = '\x7b' :: t ∧ object (shape levels) t = .ok (a, r) := by
  simp only [record, afterBlank]
  split
  · rename_i t ht; simp [ht]
  · rename_i hs
    constructor
    · intro h; cases h
    · rintro ⟨t, ht, -⟩; exact absurd ht (hs t)

/-! ## Arrays of fields -/

/-- One round: a field that is left out, or one that is read, and the others follow. -/
theorem fields_iff {shape : Shape σ α} {short : Nat → Option Cause} {first : Bool} {index : Nat}
    {st st' : σ} {key : String} {keys : List String} :
    fields shape short first index st (key :: keys) s = .ok (st', r) ↔
      (∃ t, nextItem first s = .ok (false, t) ∧ short index = none ∧
        fields shape short true (index + 1) st keys t = .ok (st', r)) ∨
      ∃ t p st₁ u, nextItem first s = .ok (true, t) ∧ shape.take st key = .ok p ∧
        p.run t = .ok (st₁, u) ∧
        fields shape short false (index + 1) st₁ keys u = .ok (st', r) := by
  rw [fields]
  cases hn : nextItem first s with
  | error f => simp
  | ok x =>
    obtain ⟨more, t⟩ := x
    cases more with
    | false => cases short index <;> simp
    | true =>
      cases shape.take st key with
      | error cause => simp
      | ok p =>
        cases hr : p.run t with
        | error f => simp [hr]
        | ok y => obtain ⟨st₁, u⟩ := y; simp [hr]

theorem tuple_iff {shape : Shape σ α} {keys : List String} {short : Nat → Option Cause} {a : α} :
    tuple shape keys short s = .ok (a, r) ↔
      ∃ st t, fields shape short true 0 shape.start keys s = .ok (st, t) ∧
        endOfFields t = .ok r ∧ shape.finish st = .ok a := by
  rw [tuple]
  cases fields shape short true 0 shape.start keys s with
  | error f => simp
  | ok x =>
    obtain ⟨st, t⟩ := x
    cases he : endOfFields t with
    | error f => simp [he]
    | ok u =>
      cases hf : shape.finish st with
      | error cause => simp [he, hf]
      | ok b => simp [he, hf, and_comm]

theorem run_recordOrTuple_iff {levels : Nat} {expected : String} {shape : Nat → Shape σ α}
    {keys : List String} {short : Nat → Option Cause} {a : α} :
    (recordOrTuple (levels + 1) expected shape keys short).run s = .ok (a, r) ↔
      ∃ t, skipBlank s = '\x7b' :: t ∧ object (shape levels) t = .ok (a, r) ∨
        skipBlank s = '[' :: t ∧ tuple (shape levels) keys short t = .ok (a, r) := by
  simp only [recordOrTuple, recordOrListed, afterBlank]
  split
  · rename_i t ht; simp [ht]
  · rename_i t ht; simp [ht]
  · rename_i hb hs
    constructor
    · intro h; cases h
    · rintro ⟨t, ⟨ht, -⟩ | ⟨ht, -⟩⟩
      · exact absurd ht (hb t)
      · exact absurd ht (hs t)

/-! ## Values -/

/-- The members of an object from here to its closing bracket at `r`, their values read by `p`. -/
inductive ObjectMembers (p : Reader Value) :
    Bool → List Char → List (String × Value) → List Char → Prop
  | done {first : Bool} {s r : List Char} (hk : nextKey first s = .ok (none, r)) :
    ObjectMembers p first s [] r
  | more {first : Bool} {s t u w r : List Char} {key : String} {v : Value}
    {ms : List (String × Value)} (hk : nextKey first s = .ok (some key, t)) (hc : colon t = .ok u)
    (hv : p.run u = .ok (v, w)) (hms : ObjectMembers p false w ms r) :
    ObjectMembers p first s ((key, v) :: ms) r

theorem members_rawShape_iff {p : Reader Value} {first : Bool}
    {taken taken' : List (String × Value)} :
    members (rawShape p) first taken s = .ok (taken', r) ↔
      ∃ ms, ObjectMembers p first s ms r ∧ taken' = ms.reverse ++ taken := by
  constructor
  · refine members_induction (P := fun first taken s =>
      ∃ ms, ObjectMembers p first s ms r ∧ taken' = ms.reverse ++ taken) ?_ ?_
    · exact fun hk => ⟨[], .done hk, rfl⟩
    · rintro first taken s key t q u st w hk hq hc hv ⟨ms, hms, rfl⟩
      cases hq
      obtain ⟨v, hread, rfl⟩ := run_map_iff.1 hv
      refine ⟨(key, v) :: ms, .more hk hc hread hms, ?_⟩
      rw [List.reverse_cons, List.append_assoc, List.singleton_append]
  · rintro ⟨ms, hms, rfl⟩
    induction hms generalizing taken with
    | done hk => exact members_iff.2 (.inl ⟨hk, rfl⟩)
    | more hk hc hv hms ih =>
      refine members_iff.2 (.inr ⟨_, _, _, _, _, _, hk, rfl, hc, run_map_iff.2 ⟨_, hv, rfl⟩, ?_⟩)
      rw [List.reverse_cons, List.append_assoc, List.singleton_append]
      exact ih

theorem object_rawShape_iff {p : Reader Value} {v : Value} :
    object (rawShape p) s = .ok (v, r) ↔
      ∃ ms t, ObjectMembers p true s ms t ∧ v = .object ms ∧ r = t.drop 1 := by
  rw [object_iff]
  constructor
  · rintro ⟨st, t, hm, hf, rfl⟩
    obtain ⟨ms, hms, rfl⟩ := members_rawShape_iff.1 hm
    refine ⟨ms, t, hms, ?_, rfl⟩
    rw [← Except.ok.inj hf]
    simp [rawShape]
  · rintro ⟨ms, t, hms, rfl, rfl⟩
    refine ⟨ms.reverse, t, members_rawShape_iff.2 ⟨ms, hms, ?_⟩, ?_, rfl⟩
    · simp [rawShape]
    · simp [rawShape]

/-- A scalar begins with no bracket. -/
theorem scalar_bracket {c : Char} (hc : c = '[' ∨ c = ']' ∨ c = '\x7b' ∨ c = '\x7d')
    (t : List Char) {x : Value × List Char} : scalar (c :: t) ≠ .ok x := by
  rcases hc with rfl | rfl | rfl | rfl <;> rintro ⟨⟩

theorem run_value_zero_iff {v : Value} :
    (value 0).run s = .ok (v, r) ↔ scalar (skipBlank s) = .ok (v, r) := by
  simp only [value, afterBlank]
  cases hs : skipBlank s with
  | nil => rfl
  | cons c t =>
    by_cases hlist : c = '['
    · subst hlist
      simp [scalar_bracket]
    · by_cases hobject : c = '\x7b'
      · subst hobject
        simp [scalar_bracket]
      · simp [hlist, hobject]

/-- **A value is an array, an object or a scalar**, and its text tells which. -/
theorem run_value_succ_iff {levels : Nat} {v : Value} :
    (value (levels + 1)).run s = .ok (v, r) ↔
      (∃ t vs, skipBlank s = '[' :: t ∧ items (value levels) true t = .ok (vs, r) ∧
        v = .array vs) ∨
      (∃ t ms u, skipBlank s = '\x7b' :: t ∧ ObjectMembers (value levels) true t ms u ∧
        v = .object ms ∧ r = u.drop 1) ∨
      scalar (skipBlank s) = .ok (v, r) := by
  simp only [value, afterBlank]
  cases hs : skipBlank s with
  | nil => simp
  | cons c t =>
    by_cases hlist : c = '['
    · subst hlist
      have hno : scalar ('[' :: t) ≠ .ok (v, r) := scalar_bracket (.inl rfl) t
      cases hi : items (value levels) true t with
      | error f => simp [hi, hno]
      | ok x => obtain ⟨vs, u⟩ := x; simp [hi, hno, eq_comm, and_comm]
    · by_cases hobject : c = '\x7b'
      · subst hobject
        have hno : scalar ('\x7b' :: t) ≠ .ok (v, r) := scalar_bracket (by simp) t
        simp [object_rawShape_iff, hno]
      · simp [hlist, hobject]

/-! ## The whole of a text -/

theorem read_iff {α : Type} {p : Reader α} {text : String} {a : α} :
    p.read text = .ok a ↔ ∃ r, p.run text.toList = .ok (a, r) ∧ skipBlank r = [] := by
  rw [read]
  cases p.run text.toList with
  | error f => simp
  | ok x =>
    obtain ⟨b, r⟩ := x
    cases hr : skipBlank r <;> simp [hr]

end Reader

end CrewChart.Json

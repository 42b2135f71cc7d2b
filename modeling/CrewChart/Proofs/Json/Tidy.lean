import CrewChart.Json.Value
import Mathlib.Data.String.Basic
import Mathlib.Data.List.Nodup

/-!
# The kept form of a value

`Value.tidy` sorts the members of every object and keeps the last of each key.  Two objects with the
same value under every key therefore have the same kept form, whatever order their members stand in:
this is the sense in which objects are compared as maps.

## What is here

* `lookup_sortMembers`, `Sorted.ext` — sorted members are known by what stands under each key;
* `tidy_tidy` — the kept form is its own kept form;
* `tidy_object_eq` — the criterion for two objects to be the same as maps;
* `DistinctKeys`, `Within` — values that repeat no key, and values that nest no deeper than allowed;
* `Attributes.putAll_of_nodup`, `Attributes.lookup_putAll` — members that are kept in order.
-/

set_option autoImplicit false

namespace CrewChart.Json

/-! ## Looking up members -/

section Lookup

variable {β : Type} {ms : List (String × β)} {key : String} {v : β}

theorem lookup_cons_eq (m : String × β) (ms : List (String × β)) (k : String) :
    (m :: ms).lookup k = if k = m.1 then some m.2 else ms.lookup k := by
  obtain ⟨l, w⟩ := m
  rw [List.lookup_cons]
  by_cases h : k = l
  · subst h; simp
  · rw [beq_false_of_ne h, if_neg h]

theorem lookup_eq_none_of_notMem (h : key ∉ ms.map Prod.fst) : ms.lookup key = none := by
  rw [List.lookup_eq_none_iff]
  rintro m hm
  rw [bne_iff_ne]
  rintro rfl
  exact h (List.mem_map_of_mem hm)

theorem mem_of_lookup (h : ms.lookup key = some v) : (key, v) ∈ ms := by
  induction ms with
  | nil => cases h
  | cons m ms ih =>
    rw [lookup_cons_eq] at h
    split_ifs at h with hk
    · cases h; subst hk; exact List.mem_cons_self
    · exact List.mem_cons_of_mem m (ih h)

theorem mem_keys_of_lookup (h : ms.lookup key = some v) : key ∈ ms.map Prod.fst :=
  List.mem_map_of_mem (mem_of_lookup h)

theorem lookup_of_mem (hms : (ms.map Prod.fst).Nodup) (h : (key, v) ∈ ms) :
    ms.lookup key = some v := by
  induction ms with
  | nil => cases h
  | cons m ms ih =>
    rw [List.map_cons, List.nodup_cons] at hms
    rw [lookup_cons_eq]
    rcases List.mem_cons.1 h with rfl | h
    · rw [if_pos rfl]
    · rw [if_neg, ih hms.2 h]
      intro hk
      exact hms.1 (hk ▸ List.mem_map_of_mem h)

/-- Of distinct keys the order does not matter. -/
theorem lookup_reverse (hms : (ms.map Prod.fst).Nodup) (k : String) :
    ms.reverse.lookup k = ms.lookup k := by
  cases h : ms.lookup k with
  | none =>
    refine lookup_eq_none_of_notMem fun hk => ?_
    rw [List.map_reverse, List.mem_reverse] at hk
    obtain ⟨m, hm, rfl⟩ := List.mem_map.1 hk
    rw [lookup_of_mem hms hm] at h
    cases h
  | some v =>
    refine lookup_of_mem ?_ (List.mem_reverse.2 (mem_of_lookup h))
    rw [List.map_reverse, List.nodup_reverse]
    exact hms

/-- The keys stay when the values are changed. -/
theorem keys_map {γ : Type} (f : String → β → γ) (ms : List (String × β)) :
    (ms.map fun m => (m.1, f m.1 m.2)).map Prod.fst = ms.map Prod.fst := by
  rw [List.map_map]
  rfl

theorem nodup_filter (hms : (ms.map Prod.fst).Nodup) (p : String × β → Bool) :
    ((ms.filter p).map Prod.fst).Nodup :=
  (List.filter_sublist.map Prod.fst).nodup hms

theorem lookup_map {γ : Type} (f : String → β → γ) (ms : List (String × β)) (k : String) :
    (ms.map fun m => (m.1, f m.1 m.2)).lookup k = (ms.lookup k).map (f k) := by
  induction ms with
  | nil => rfl
  | cons m ms ih =>
    rw [List.map_cons, lookup_cons_eq, lookup_cons_eq, ih]
    split_ifs with hk
    · rw [hk]; rfl
    · rfl

theorem lookup_filter (p : String → Bool) (ms : List (String × β)) (k : String) :
    (ms.filter fun m => p m.1).lookup k = if p k then ms.lookup k else none := by
  induction ms with
  | nil => rw [List.filter_nil]; split_ifs <;> rfl
  | cons m ms ih =>
    rw [List.filter_cons, lookup_cons_eq]
    split_ifs <;> grind [lookup_cons_eq]

/-- Members that may be absent, looked up where the absent ones have been left out. -/
theorem lookup_filterMap {ms : List (String × Option β)} (hms : (ms.map Prod.fst).Nodup)
    (k : String) :
    (ms.filterMap fun m => m.2.map (m.1, ·)).lookup k = (ms.lookup k).join := by
  induction ms with
  | nil => rfl
  | cons m ms ih =>
    obtain ⟨l, v?⟩ := m
    obtain ⟨hl, hrest⟩ := List.nodup_cons.1 hms
    rw [lookup_cons_eq, List.filterMap_cons]
    cases v? with
    | none =>
      simp only [Option.map_none]
      split_ifs with hk
      · subst hk; rw [ih hrest, lookup_eq_none_of_notMem hl]; rfl
      · exact ih hrest
    | some v =>
      simp only [Option.map_some]
      rw [lookup_cons_eq, ih hrest]
      split_ifs <;> rfl

theorem keys_filterMap (ms : List (String × Option β)) :
    (((ms.filterMap fun m => m.2.map (m.1, ·)).map Prod.fst).Sublist (ms.map Prod.fst)) := by
  induction ms with
  | nil => exact .slnil
  | cons m ms ih =>
    obtain ⟨l, v?⟩ := m
    rw [List.filterMap_cons]
    cases v? with
    | none => exact ih.cons l
    | some v => exact ih.cons_cons l

end Lookup

variable {ms ns : List (String × Value)} {key : String} {v : Value}

/-! ## Sorted members -/

/-- Keys in strictly increasing order. -/
def Sorted (ms : List (String × Value)) : Prop :=
  ms.Pairwise fun m n => m.1 < n.1

theorem mem_insertSorted {m : String × Value} (h : m ∈ insertSorted key v ms) :
    m = (key, v) ∨ m ∈ ms := by
  induction ms with
  | nil => exact .inl (List.mem_singleton.1 h)
  | cons n ms ih =>
    obtain ⟨k, w⟩ := n
    rw [insertSorted] at h
    split_ifs at h
    · exact List.mem_cons.1 h
    · exact (List.mem_cons.1 h).imp_right (List.mem_cons_of_mem _)
    · rcases List.mem_cons.1 h with rfl | h
      · exact .inr List.mem_cons_self
      · exact (ih h).imp_right (List.mem_cons_of_mem _)

theorem Sorted.insertSorted (h : Sorted ms) : Sorted (insertSorted key v ms) := by
  induction ms with
  | nil => exact List.pairwise_singleton _ _
  | cons n ms ih =>
    obtain ⟨k, w⟩ := n
    obtain ⟨hk, hms⟩ := List.pairwise_cons.1 h
    rw [Json.insertSorted]
    split_ifs with hlt heq
    · exact List.pairwise_cons.2 ⟨List.forall_mem_cons.2 ⟨hlt, fun m hm => hlt.trans (hk m hm)⟩, h⟩
    · exact List.pairwise_cons.2 ⟨heq ▸ hk, hms⟩
    · refine List.pairwise_cons.2 ⟨fun m hm => ?_, ih hms⟩
      rcases mem_insertSorted hm with rfl | hm
      · exact lt_of_le_of_ne (not_lt.1 hlt) (Ne.symm heq)
      · exact hk m hm

theorem lookup_insertSorted (k : String) :
    (insertSorted key v ms).lookup k = if k = key then some v else ms.lookup k := by
  induction ms with
  | nil => rw [insertSorted, lookup_cons_eq]
  | cons n ms ih =>
    obtain ⟨l, w⟩ := n
    rw [insertSorted]
    split_ifs with hlt heq hk hk hk
    all_goals simp only [lookup_cons_eq, ih]
    all_goals grind

theorem sorted_foldl (ms : List (String × Value)) {kept : List (String × Value)}
    (h : Sorted kept) :
    Sorted (ms.foldl (fun kept (k, v) => insertSorted k v kept) kept) := by
  induction ms generalizing kept with
  | nil => exact h
  | cons m ms ih => exact ih h.insertSorted

theorem sorted_sortMembers (ms : List (String × Value)) : Sorted (sortMembers ms) :=
  sorted_foldl ms .nil

/-- **Of a repeated key the last member counts.** -/
theorem lookup_sortMembers (ms : List (String × Value)) (k : String) :
    (sortMembers ms).lookup k = ms.reverse.lookup k := by
  have key : ∀ kept : List (String × Value),
      (ms.foldl (fun kept (k, v) => insertSorted k v kept) kept).lookup k
        = (ms.reverse ++ kept).lookup k := by
    induction ms with
    | nil => exact fun kept => rfl
    | cons m ms ih =>
      intro kept
      rw [List.foldl_cons, ih, List.reverse_cons, List.append_assoc, List.lookup_append,
        List.lookup_append, lookup_insertSorted, List.singleton_append, lookup_cons_eq]
  rw [sortMembers, key, List.append_nil]

theorem mem_sortMembers {m : String × Value} (h : m ∈ sortMembers ms) : m ∈ ms := by
  have key : ∀ kept : List (String × Value),
      m ∈ ms.foldl (fun kept (k, v) => insertSorted k v kept) kept → m ∈ ms ∨ m ∈ kept := by
    clear h
    induction ms with
    | nil => exact fun kept h => .inr h
    | cons n ms ih =>
      intro kept h
      rcases ih _ h with h | h
      · exact .inl (List.mem_cons_of_mem n h)
      · rcases mem_insertSorted h with rfl | h
        · exact .inl List.mem_cons_self
        · exact .inr h
  exact (key [] h).resolve_right List.not_mem_nil

/-- Nothing stands before the first key. -/
theorem Sorted.lookup_of_lt {n : String × Value} (h : Sorted (n :: ns)) {k : String}
    (hk : k < n.1) : (n :: ns).lookup k = none := by
  refine lookup_eq_none_of_notMem fun hmem => ?_
  obtain ⟨m, hm, rfl⟩ := List.mem_map.1 hmem
  rcases List.mem_cons.1 hm with rfl | hm
  · exact lt_irrefl _ hk
  · exact lt_asymm hk ((List.pairwise_cons.1 h).1 m hm)

/-- Behind the first key it does not occur again. -/
theorem Sorted.lookup_tail {n : String × Value} (h : Sorted (n :: ns)) (k : String) :
    ns.lookup k = if k = n.1 then none else (n :: ns).lookup k := by
  rw [lookup_cons_eq]
  split_ifs with hk
  · refine lookup_eq_none_of_notMem fun hmem => ?_
    obtain ⟨m, hm, hkey⟩ := List.mem_map.1 hmem
    exact ((List.pairwise_cons.1 h).1 m hm).ne (hk.symm.trans hkey.symm)
  · rfl

theorem Sorted.head_eq {m n : String × Value} (hms : Sorted (m :: ms)) (hns : Sorted (n :: ns))
    (h : ∀ k, (m :: ms).lookup k = (n :: ns).lookup k) : m = n := by
  have hm : some m.2 = (n :: ns).lookup m.1 := by rw [← h, lookup_cons_eq, if_pos rfl]
  have hn : (m :: ms).lookup n.1 = some n.2 := by rw [h, lookup_cons_eq, if_pos rfl]
  have hkey : m.1 = n.1 := by
    refine le_antisymm (not_lt.1 fun hlt => ?_) (not_lt.1 fun hlt => ?_)
    · rw [hms.lookup_of_lt hlt] at hn
      cases hn
    · rw [hns.lookup_of_lt hlt] at hm
      cases hm
  rw [lookup_cons_eq, if_pos hkey] at hm
  exact Prod.ext hkey (Option.some.inj hm)

/-- **Sorted members are known by what stands under each key.** -/
theorem Sorted.ext (hms : Sorted ms) (hns : Sorted ns)
    (h : ∀ k, ms.lookup k = ns.lookup k) : ms = ns := by
  induction ms generalizing ns with
  | nil =>
    cases ns with
    | nil => rfl
    | cons n ns =>
      have hn := h n.1
      rw [lookup_cons_eq, if_pos rfl] at hn
      cases hn
  | cons m ms ih =>
    cases ns with
    | nil =>
      have hm := h m.1
      rw [lookup_cons_eq, if_pos rfl] at hm
      cases hm
    | cons n ns =>
      obtain rfl := hms.head_eq hns h
      rw [ih (List.pairwise_cons.1 hms).2 (List.pairwise_cons.1 hns).2 fun k => ?_]
      rw [hms.lookup_tail, hns.lookup_tail, h]

/-- Two objects with the same value under every key are sorted alike. -/
theorem sortMembers_eq (h : ∀ k, ms.reverse.lookup k = ns.reverse.lookup k) :
    sortMembers ms = sortMembers ns :=
  (sorted_sortMembers ms).ext (sorted_sortMembers ns) fun k => by
    rw [lookup_sortMembers, lookup_sortMembers, h]

theorem Sorted.nodup (h : Sorted ms) : (ms.map Prod.fst).Nodup :=
  List.pairwise_map.2 (h.imp fun hlt => hlt.ne)

theorem sortMembers_of_sorted (h : Sorted ms) : sortMembers ms = ms :=
  (sorted_sortMembers ms).ext h fun k => by rw [lookup_sortMembers, lookup_reverse h.nodup]

/-! ## Whole values -/

namespace Value

/-- What holds of every value whose parts it holds of. -/
theorem inductionOn {P : Value → Prop} (null : P .null) (boolean : ∀ b, P (.boolean b))
    (number : ∀ n, P (.number n)) (string : ∀ s, P (.string s))
    (array : ∀ items, (∀ v ∈ items, P v) → P (.array items))
    (object : ∀ members, (∀ m ∈ members, P (Prod.snd m)) → P (.object members)) (v : Value) :
    P v :=
  @Value.rec P (fun items => ∀ v ∈ items, P v) (fun members => ∀ m ∈ members, P m.2)
    (fun m => P m.2) null boolean number string array object
    (fun _ hv => absurd hv List.not_mem_nil) (fun _ _ hv hs => List.forall_mem_cons.2 ⟨hv, hs⟩)
    (fun _ hm => absurd hm List.not_mem_nil) (fun _ _ hm hs => List.forall_mem_cons.2 ⟨hm, hs⟩)
    (fun _ _ h => h) v

theorem tidyItems_eq_self {items : List Value} (h : ∀ v ∈ items, v.tidy = v) :
    tidyItems items = items := by
  rw [tidyItems_eq_map, List.map_congr_left h, List.map_id']

theorem tidyMembers_eq_self (h : ∀ m ∈ ms, m.2.tidy = m.2) : tidyMembers ms = ms := by
  rw [tidyMembers_eq_map, List.map_congr_left fun m hm => by rw [h m hm], List.map_id']

/-- **The kept form is its own kept form.** -/
theorem tidy_tidy (v : Value) : v.tidy.tidy = v.tidy := by
  induction v using inductionOn with
  | null => rfl
  | boolean b => rfl
  | number n => rfl
  | string s => rfl
  | array items ih =>
    rw [tidy, tidy, tidyItems_eq_self]
    intro v hv
    rw [tidyItems_eq_map] at hv
    obtain ⟨w, hw, rfl⟩ := List.mem_map.1 hv
    exact ih w hw
  | object members ih =>
    rw [tidy, tidy, tidyMembers_eq_self, sortMembers_of_sorted (sorted_sortMembers _)]
    intro m hm
    have hm' := mem_sortMembers hm
    rw [tidyMembers_eq_map] at hm'
    obtain ⟨n, hn, rfl⟩ := List.mem_map.1 hm'
    exact ih n hn

theorem lookup_tidyMembers (ms : List (String × Value)) (k : String) :
    (tidyMembers ms).lookup k = (ms.lookup k).map tidy := by
  rw [tidyMembers_eq_map]
  exact lookup_map (fun _ => tidy) ms k

/-- **Objects with the same value under every key are the same as maps.** -/
theorem tidy_object_eq (hms : (ms.map Prod.fst).Nodup) (hns : (ns.map Prod.fst).Nodup)
    (h : ∀ k, (ms.lookup k).map tidy = (ns.lookup k).map tidy) :
    (object ms).tidy = (object ns).tidy := by
  have hkeys : ∀ l : List (String × Value), (tidyMembers l).map Prod.fst = l.map Prod.fst := by
    intro l
    rw [tidyMembers_eq_map, keys_map fun _ => tidy]
  rw [tidy, tidy, sortMembers_eq fun k => ?_]
  rw [lookup_reverse (by rw [hkeys]; exact hms), lookup_reverse (by rw [hkeys]; exact hns),
    lookup_tidyMembers, lookup_tidyMembers, h]

/-! ### Repeated keys -/

/-- No object repeats a key, at any depth. -/
inductive DistinctKeys : Value → Prop
  | null : DistinctKeys .null
  | boolean (b : Bool) : DistinctKeys (.boolean b)
  | number (n : Number) : DistinctKeys (.number n)
  | string (s : String) : DistinctKeys (.string s)
  | array {items : List Value} (h : ∀ v ∈ items, DistinctKeys v) : DistinctKeys (.array items)
  | object {members : List (String × Value)} (hkeys : (members.map Prod.fst).Nodup)
    (h : ∀ m ∈ members, DistinctKeys m.2) : DistinctKeys (.object members)

attribute [simp] DistinctKeys.null DistinctKeys.boolean DistinctKeys.number DistinctKeys.string

@[simp] theorem distinctKeys_array_iff {items : List Value} :
    (array items).DistinctKeys ↔ ∀ v ∈ items, v.DistinctKeys :=
  ⟨fun h => by cases h with | array h => exact h, .array⟩

@[simp] theorem distinctKeys_object_iff :
    (object ms).DistinctKeys ↔ (ms.map Prod.fst).Nodup ∧ ∀ m ∈ ms, m.2.DistinctKeys :=
  ⟨fun h => by cases h with | object hkeys h => exact ⟨hkeys, h⟩, fun h => .object h.1 h.2⟩

/-- In the kept form nothing is repeated. -/
theorem distinctKeys_tidy (v : Value) : v.tidy.DistinctKeys := by
  induction v using inductionOn with
  | null => exact .null
  | boolean b => exact .boolean b
  | number n => exact .number n
  | string s => exact .string s
  | array items ih =>
    rw [tidy, tidyItems_eq_map]
    refine .array fun v hv => ?_
    obtain ⟨w, hw, rfl⟩ := List.mem_map.1 hv
    exact ih w hw
  | object members ih =>
    rw [tidy, tidyMembers_eq_map]
    refine .object (sorted_sortMembers _).nodup fun m hm => ?_
    obtain ⟨n, hn, rfl⟩ := List.mem_map.1 (mem_sortMembers hm)
    exact ih n hn

/-! ### Depth -/

/-- Brackets nest at most this deep. -/
def Within : Nat → Value → Prop
  | 0, .array _ | 0, .object _ => False
  | levels + 1, .array items => ∀ v ∈ items, v.Within levels
  | levels + 1, .object members => ∀ m ∈ members, m.2.Within levels
  | _, .null | _, .boolean _ | _, .number _ | _, .string _ => True

instance Within.decidable : (levels : Nat) → (v : Value) → Decidable (v.Within levels)
  | 0, .array _ | 0, .object _ => isFalse not_false
  | levels + 1, .array items =>
    have := Within.decidable levels
    inferInstanceAs (Decidable (∀ v ∈ items, v.Within levels))
  | levels + 1, .object members =>
    have := Within.decidable levels
    inferInstanceAs (Decidable (∀ m ∈ members, m.2.Within levels))
  | 0, .null | 0, .boolean _ | 0, .number _ | 0, .string _
  | _ + 1, .null | _ + 1, .boolean _ | _ + 1, .number _ | _ + 1, .string _ => isTrue trivial

/-- The kept form nests no deeper. -/
theorem Within.tidy {levels : Nat} (h : v.Within levels) : v.tidy.Within levels := by
  induction levels generalizing v with
  | zero =>
    cases v with
    | array items => exact h.elim
    | object members => exact h.elim
    | _ => trivial
  | succ levels ih =>
    cases v with
    | array items =>
      rw [Value.tidy, tidyItems_eq_map]
      intro w hw
      obtain ⟨u, hu, rfl⟩ := List.mem_map.1 hw
      exact ih (h u hu)
    | object members =>
      rw [Value.tidy]
      intro m hm
      have hm' := mem_sortMembers hm
      rw [tidyMembers_eq_map] at hm'
      obtain ⟨n, hn, rfl⟩ := List.mem_map.1 hm'
      exact ih (h n hn)
    | _ => trivial

end Value

/-! ## Members kept in their order -/

namespace Attributes

theorem put_of_notMem {kept : Attributes} (h : key ∉ kept.map Prod.fst) :
    kept.put key v = kept ++ [(key, v)] := by
  induction kept with
  | nil => rfl
  | cons m rest ih =>
    obtain ⟨k, w⟩ := m
    rw [List.map_cons, List.mem_cons, not_or] at h
    rw [put, if_neg (Ne.symm h.1), ih h.2, List.cons_append]

theorem nodup_put {kept : Attributes} (h : (kept.map Prod.fst).Nodup) :
    ((kept.put key v).map Prod.fst).Nodup := by
  induction kept with
  | nil => exact List.nodup_singleton key
  | cons m rest ih =>
    obtain ⟨k, w⟩ := m
    obtain ⟨hk, hrest⟩ := List.nodup_cons.1 h
    rw [put]
    split_ifs with heq
    · exact h
    · refine List.nodup_cons.2 ⟨fun hmem => ?_, ih hrest⟩
      rcases (mem_keys_put rest key v k).1 hmem with hkey | hmem
      · exact heq hkey
      · exact hk hmem

theorem mem_put {kept : Attributes} {m : String × Value} (h : m ∈ kept.put key v) :
    m = (key, v) ∨ m ∈ kept := by
  induction kept with
  | nil => exact .inl (List.mem_singleton.1 h)
  | cons n rest ih =>
    obtain ⟨k, w⟩ := n
    rw [put] at h
    split_ifs at h with heq
    · rcases List.mem_cons.1 h with rfl | h
      · exact .inl (by rw [heq])
      · exact .inr (List.mem_cons_of_mem _ h)
    · rcases List.mem_cons.1 h with rfl | h
      · exact .inr List.mem_cons_self
      · exact (ih h).imp_right (List.mem_cons_of_mem _)

/-- Members put one after the other. -/
def putAll (kept : Attributes) (ms : List (String × Value)) : Attributes :=
  ms.foldl (fun kept (k, v) => kept.put k v) kept

theorem ofMembers_eq (ms : List (String × Value)) : ofMembers ms = putAll [] ms := rfl

variable {kept : Attributes}

theorem nodup_putAll (h : (kept.map Prod.fst).Nodup) (ms : List (String × Value)) :
    ((kept.putAll ms).map Prod.fst).Nodup := by
  induction ms generalizing kept with
  | nil => exact h
  | cons m ms ih => exact ih (nodup_put h)

theorem mem_putAll {m : String × Value} (h : m ∈ kept.putAll ms) : m ∈ ms ∨ m ∈ kept := by
  induction ms generalizing kept with
  | nil => exact .inr h
  | cons n ms ih =>
    rcases ih h with h | h
    · exact .inl (List.mem_cons_of_mem n h)
    · rcases mem_put h with rfl | h
      · exact .inl List.mem_cons_self
      · exact .inr h

/-- Members with keys that are all new stand as they come. -/
theorem putAll_of_nodup (h : ((kept ++ ms).map Prod.fst).Nodup) : kept.putAll ms = kept ++ ms := by
  induction ms generalizing kept with
  | nil => exact (List.append_nil kept).symm
  | cons m ms ih =>
    have hassoc : kept ++ m :: ms = (kept ++ [m]) ++ ms := by simp
    have hm : m.1 ∉ kept.map Prod.fst := by
      rw [List.map_append, List.nodup_append] at h
      exact fun hk => h.2.2 _ hk _ List.mem_cons_self rfl
    rw [hassoc] at h ⊢
    rw [← ih h]
    show (kept.put m.1 m.2).putAll ms = _
    rw [put_of_notMem hm]

/-- **Of a repeated key the last member counts**, as it does when the members are sorted. -/
theorem lookup_putAll (ms : List (String × Value)) (k : String) :
    (kept.putAll ms).lookup k = (ms.reverse ++ kept).lookup k := by
  induction ms generalizing kept with
  | nil => rfl
  | cons m ms ih =>
    rw [putAll, List.foldl_cons, ← putAll, ih, List.reverse_cons, List.append_assoc,
      List.lookup_append, List.lookup_append, lookup_put, List.singleton_append, lookup_cons_eq]

end Attributes

end CrewChart.Json

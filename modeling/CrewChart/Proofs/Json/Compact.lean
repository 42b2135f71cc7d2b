import CrewChart.Proofs.Json.Written

/-!
# Reading what is written on one line

A compact text may be followed by blanks, as a line is by its end, and is still read as the value
that was written.  `Value.parse` gives the kept form of that value.

Of the values the program puts out, all nest a few levels deep at most, and none holds a binary64
number.  They are *plain*, and a plain value is read back without further ado.

## What is here

* `Value.Plain` — a value that is read back, with one law for each way to build a value;
* `read_compact`, `parse_compact` — its compact text, with blanks after it or without;
* `Value.member?_tidy`, `Value.member?_tidy_ofFields` — the members of a kept form.
-/

set_option autoImplicit false

namespace CrewChart.Json

namespace Value

/-! ## Members of a kept form -/

/-- Where no key is repeated, a member of the kept form is the kept form of the member. -/
theorem member?_tidy {ms : List (String × Value)} (hms : (ms.map Prod.fst).Nodup) (key : String) :
    (object ms).tidy.member? key = (ms.lookup key).map tidy := by
  have hkeys : ((tidyMembers ms).map Prod.fst).Nodup := by
    rw [tidyMembers_eq_map, keys_map fun _ => tidy]
    exact hms
  show (sortMembers (tidyMembers ms)).lookup key = _
  rw [lookup_sortMembers, lookup_reverse hkeys, lookup_tidyMembers]

/-- The same of fields, of which some may be left out. -/
theorem member?_tidy_ofFields {fields : List (String × Option Value)}
    (h : (fields.map Prod.fst).Nodup) (key : String) :
    (ofFields fields).tidy.member? key = (fields.lookup key).join.map tidy := by
  rw [ofFields, member?_tidy ((keys_filterMap fields).nodup h), lookup_filterMap h]

/-! ## Plain values -/

/-- A value that nests no deeper than this, and holds no number that might be rounded. -/
structure Plain (levels : Nat) (v : Value) : Prop where
  within : v.Within levels
  exact : ∀ x, ¬ v.HasFloat x

namespace Plain

variable {levels : Nat}

theorem boolean (b : Bool) : Plain levels (.boolean b) :=
  ⟨by cases levels <;> trivial, fun _ => not_hasFloat_boolean⟩

theorem string (s : String) : Plain levels (.string s) :=
  ⟨by cases levels <;> trivial, fun _ => not_hasFloat_string⟩

theorem ofNat (n : Nat) : Plain levels (.ofNat n) :=
  ⟨by cases levels <;> trivial, fun _ h => by cases h⟩

theorem array {items : List Value} (h : ∀ v ∈ items, Plain levels v) :
    Plain (levels + 1) (.array items) where
  within v hv := (h v hv).within
  exact x hx := by
    obtain ⟨v, hv, hx⟩ := hasFloat_array_iff.1 hx
    exact (h v hv).exact x hx

theorem object {ms : List (String × Value)} (h : ∀ m ∈ ms, Plain levels m.2) :
    Plain (levels + 1) (.object ms) where
  within m hm := (h m hm).within
  exact x hx := by
    obtain ⟨m, hm, hx⟩ := hasFloat_object_iff.1 hx
    exact (h m hm).exact x hx

/-- Of fields, those that are there have to be plain. -/
theorem ofFields {fields : List (String × Option Value)}
    (h : ∀ m ∈ fields, ∀ v ∈ m.2, Plain levels v) : Plain (levels + 1) (.ofFields fields) := by
  refine object fun m hm => ?_
  obtain ⟨field, hfield, hm⟩ := List.mem_filterMap.1 hm
  obtain ⟨v, hv, rfl⟩ := Option.map_eq_some_iff.1 hm
  exact h field hfield v hv

/-- **The kept form of a plain value is plain.** -/
theorem tidy {v : Value} (h : Plain levels v) : Plain levels v.tidy := by
  induction levels generalizing v with
  | zero =>
    cases v with
    | array items => exact h.within.elim
    | object ms => exact h.within.elim
    | _ => exact h
  | succ levels ih =>
    cases v with
    | array items =>
      show Plain _ (.array (tidyItems items))
      rw [tidyItems_eq_map]
      refine array fun v hv => ?_
      obtain ⟨w, hw, rfl⟩ := List.mem_map.1 hv
      exact ih ⟨h.within w hw, fun x hx => h.exact x (.item hw hx)⟩
    | object ms =>
      refine object fun m hm => ?_
      have hm := mem_sortMembers hm
      rw [tidyMembers_eq_map] at hm
      obtain ⟨n, hn, rfl⟩ := List.mem_map.1 hm
      exact ih ⟨h.within n hn, fun x hx => h.exact x (.member hn hx)⟩
    | _ => exact h

end Plain

end Value

/-! ## Compact texts -/

theorem delimited_of_blank {s : List Char} (h : ∀ c ∈ s, isBlank c = true) : Delimited s := by
  cases s with
  | nil => exact delimited_nil
  | cons c s =>
    have hc := h c List.mem_cons_self
    simp only [isBlank, Bool.or_eq_true, beq_iff_eq] at hc
    rcases hc with ((rfl | rfl) | rfl) | rfl <;> exact delimited_cons (by decide) s

theorem skipBlank_of_blank {s : List Char} (h : ∀ c ∈ s, isBlank c = true) : skipBlank s = [] :=
  List.dropWhile_eq_nil_iff.2 h

section Compact

variable {v : Value} (hv : v.Plain Reader.maxLevels) {blanks : String}
  (hblanks : ∀ c ∈ blanks.toList, isBlank c = true)
include hv hblanks

theorem read_compact : (Reader.value Reader.maxLevels).read (v.compact ++ blanks) = .ok v := by
  refine Reader.read_iff.2 ⟨blanks.toList, ?_, skipBlank_of_blank hblanks⟩
  rw [String.toList_append, Value.compact, String.toList_ofList]
  exact value_write .compact hv.within (fun x hx => (hv.exact x hx).elim) 0
    (delimited_of_blank hblanks)

/-- **A plain value that is written on a line is read back in its kept form.** -/
theorem parse_compact : Value.parse (v.compact ++ blanks) = .ok v.tidy := by
  rw [Value.parse, read_compact hv hblanks]
  rfl

end Compact

end CrewChart.Json

import CrewChart.Proofs.Json.Brackets
import CrewChart.Proofs.Json.Scalars
import CrewChart.Proofs.Json.Tidy

/-!
# Values are read back as they were written

`value_write` is the round trip of a value: what `Value.write` puts down, in either style and at any
depth, `Reader.value` takes up again, as the same value with its members in the same order.  Two
things are asked.  The brackets of the value must not nest deeper than the reader allows
(`Value.Within`), and the binary64 numbers in it (`Value.HasFloat`) must each be read back.

The proof is by induction on the levels allowed, which is the recursion of the reader; the items of
an array and the members of an object are then taken one by one.
-/

set_option autoImplicit false

namespace CrewChart.Json

namespace Value

/-- A binary64 number that stands somewhere in a value. -/
inductive HasFloat (x : Binary64) : Value → Prop
  | number : HasFloat x (.number (.float x))
  | item {items : List Value} {v : Value} (hv : v ∈ items) (h : HasFloat x v) :
    HasFloat x (.array items)
  | member {members : List (String × Value)} {m : String × Value} (hm : m ∈ members)
    (h : HasFloat x m.2) : HasFloat x (.object members)

section

variable {x : Binary64}

@[simp] theorem hasFloat_number_iff {n : Number} : HasFloat x (.number n) ↔ n = .float x :=
  ⟨fun h => by cases h; rfl, fun h => h ▸ .number⟩

@[simp] theorem hasFloat_array_iff {items : List Value} :
    HasFloat x (.array items) ↔ ∃ v ∈ items, HasFloat x v := by
  constructor
  · intro h
    cases h with
    | item hv h => exact ⟨_, hv, h⟩
  · rintro ⟨v, hv, h⟩
    exact .item hv h

@[simp] theorem hasFloat_object_iff {members : List (String × Value)} :
    HasFloat x (.object members) ↔ ∃ m ∈ members, HasFloat x m.2 := by
  constructor
  · intro h
    cases h with
    | member hm h => exact ⟨_, hm, h⟩
  · rintro ⟨m, hm, h⟩
    exact .member hm h

@[simp] theorem not_hasFloat_null : ¬ HasFloat x .null := by rintro ⟨⟩

@[simp] theorem not_hasFloat_boolean {b : Bool} : ¬ HasFloat x (.boolean b) := by rintro ⟨⟩

@[simp] theorem not_hasFloat_string {s : String} : ¬ HasFloat x (.string s) := by rintro ⟨⟩

end

end Value

/-! ## Blanks and delimiters -/

theorem skipBlank_blank {c : Char} (h : isBlank c = true) (s : List Char) :
    skipBlank (c :: s) = skipBlank s :=
  List.dropWhile_cons_of_pos h

theorem skipBlank_newline (style : Style) (depth : Nat) (s : List Char) :
    skipBlank (style.newline depth ++ s) = skipBlank s := by
  cases style with
  | compact => rfl
  | indented =>
    rw [Style.newline, List.cons_append, skipBlank_blank (by decide)]
    induction 2 * depth with
    | zero => rfl
    | succ n ih => rw [List.replicate_succ, List.cons_append, skipBlank_blank (by decide), ih]

theorem delimited_newline (style : Style) (depth : Nat) {s : List Char} (hs : Delimited s) :
    Delimited (style.newline depth ++ s) := by
  cases style with
  | compact => exact hs
  | indented => exact delimited_cons (by decide) _

namespace Reader

/-- Blanks before a value make no difference. -/
theorem run_value_skipBlank (levels : Nat) {s t : List Char} (h : skipBlank s = skipBlank t) :
    (value levels).run s = (value levels).run t := by
  cases levels <;> simp only [value, afterBlank, h]

/-- A value begins with something, and not with a closing bracket. -/
theorem value_starts {levels : Nat} {s r : List Char} {v : Value}
    (h : (value levels).run s = .ok (v, r)) : ∃ c t, skipBlank s = c :: t ∧ c ≠ ']' := by
  cases hs : skipBlank s with
  | nil =>
    rw [run_value_skipBlank levels (t := []) hs] at h
    cases levels <;> cases h
  | cons c t =>
    refine ⟨c, t, rfl, ?_⟩
    rintro rfl
    rw [run_value_skipBlank levels (t := ']' :: t) hs] at h
    cases levels <;> cases h

/-! ## Colons and keys -/

theorem colon_style (style : Style) (s : List Char) :
    ∃ t, colon (style.colon ++ s) = .ok t ∧ skipBlank t = skipBlank s := by
  cases style with
  | compact => exact ⟨s, rfl, rfl⟩
  | indented => exact ⟨' ' :: s, rfl, skipBlank_blank (by decide) s⟩

theorem quotedChars_append (k : String) (s : List Char) :
    quotedChars k ++ s = '"' :: (k.toList.flatMap escape ++ '"' :: s) := by
  simp [quotedChars]

theorem skipBlank_key (style : Style) (depth : Nat) (k : String) (s : List Char) :
    skipBlank (style.newline depth ++ (quotedChars k ++ s))
      = '"' :: (k.toList.flatMap escape ++ '"' :: s) := by
  rw [skipBlank_newline, quotedChars_append]
  exact skipBlank_of_not_isBlank (by decide) _

theorem stringTail_quoted (k : String) (s : List Char) :
    stringTail [] (k.toList.flatMap escape ++ '"' :: s) = .ok (k, s) := by
  rw [stringTail_escape, List.reverse_nil, List.nil_append, String.ofList_toList]

end Reader

/-! ## What is inside brackets -/

section Brackets

variable {style : Style} {levels : Nat}

/-- What is written for a value is taken up again, wherever it stands. -/
def TakenUp (style : Style) (levels : Nat) (v : Value) : Prop :=
  ∀ (depth : Nat) {rest : List Char}, Delimited rest →
    (Reader.value levels).run (v.write style depth ++ rest) = .ok (v, rest)

theorem delimited_writeItems (style : Style) (depth : Nat) (vs : List Value)
    {rest : List Char} (hrest : Delimited rest) :
    Delimited (Value.writeItems style depth vs ++ rest) := by
  cases vs with
  | nil => exact hrest
  | cons v vs => exact delimited_cons (by decide) _

theorem delimited_writeMembers (style : Style) (depth : Nat) (ms : List (String × Value))
    {rest : List Char} (hrest : Delimited rest) :
    Delimited (Value.writeMembers style depth ms ++ rest) := by
  cases ms with
  | nil => exact hrest
  | cons m ms => exact delimited_cons (by decide) _

/-- One item and those after it. -/
theorem items_cons {first : Bool} {s text rest r : List Char} {v : Value} {vs : List Value}
    (hv : (Reader.value levels).run text = .ok (v, rest))
    (hnext : first = true ∧ skipBlank s = skipBlank text ∨
      first = false ∧ ∃ u, skipBlank s = ',' :: u ∧ skipBlank u = skipBlank text)
    (hvs : Reader.items (Reader.value levels) false rest = .ok (vs, r)) :
    Reader.items (Reader.value levels) first s = .ok (v :: vs, r) := by
  obtain ⟨c, t, hs, hc⟩ := Reader.value_starts hv
  rw [hs] at hnext
  refine Reader.items_iff.2 (.inr ⟨c :: t, v, rest, vs,
    Reader.nextItem_true_iff.2 ⟨c, t, rfl, hc, hnext⟩, ?_, hvs, rfl⟩)
  rw [← hs, Reader.run_value_skipBlank levels (skipBlank_skipBlank _), hv]

theorem items_writeItems {vs : List Value} (hvs : ∀ v ∈ vs, TakenUp style levels v)
    (depth outer : Nat) (rest : List Char) :
    Reader.items (Reader.value levels) false
      (Value.writeItems style depth vs ++ (style.newline outer ++ ']' :: rest))
      = .ok (vs, rest) := by
  induction vs with
  | nil =>
    refine Reader.items_iff.2 (.inl ⟨']' :: rest,
      Reader.nextItem_false_iff.2 ⟨rest, ?_, rfl⟩, rfl, rfl⟩)
    rw [Value.writeItems, List.nil_append, skipBlank_newline]
    exact skipBlank_of_not_isBlank (by decide) _
  | cons v vs ih =>
    have hrest := delimited_writeItems style depth vs
      (delimited_newline style outer (delimited_cons (c := ']') (by decide) rest))
    refine items_cons (hvs v List.mem_cons_self depth hrest)
      (.inr ⟨rfl, _, ?_, skipBlank_newline style depth _⟩)
      (ih fun w hw => hvs w (List.mem_cons_of_mem v hw))
    rw [Value.writeItems]
    simp only [List.cons_append, List.append_assoc]
    exact skipBlank_of_not_isBlank (by decide) _

/-- The items of an array after its opening bracket. -/
theorem items_write {v : Value} {vs : List Value} (hvs : ∀ w ∈ v :: vs, TakenUp style levels w)
    (depth outer : Nat) (rest : List Char) :
    Reader.items (Reader.value levels) true
      (style.newline depth ++ (v.write style depth ++ (Value.writeItems style depth vs
        ++ (style.newline outer ++ ']' :: rest)))) = .ok (v :: vs, rest) := by
  have hrest := delimited_writeItems style depth vs
    (delimited_newline style outer (delimited_cons (c := ']') (by decide) rest))
  exact items_cons (hvs v List.mem_cons_self depth hrest)
    (.inl ⟨rfl, skipBlank_newline style depth _⟩)
    (items_writeItems (fun w hw => hvs w (List.mem_cons_of_mem v hw)) depth outer rest)

/-- One member and those after it. -/
theorem objectMembers_cons (style : Style) {first : Bool} {s text rest r : List Char}
    {k : String} {v : Value} {ms : List (String × Value)}
    (hk : Reader.nextKey first s = .ok (some k, style.colon ++ text))
    (hv : (Reader.value levels).run text = .ok (v, rest))
    (hms : Reader.ObjectMembers (Reader.value levels) false rest ms r) :
    Reader.ObjectMembers (Reader.value levels) first s ((k, v) :: ms) r := by
  obtain ⟨t, hcolon, ht⟩ := Reader.colon_style style text
  rw [← Reader.run_value_skipBlank levels ht] at hv
  exact .more hk hcolon hv hms

theorem objectMembers_writeMembers {ms : List (String × Value)}
    (hms : ∀ m ∈ ms, TakenUp style levels m.2) (depth outer : Nat) (rest : List Char) :
    Reader.ObjectMembers (Reader.value levels) false
      (Value.writeMembers style depth ms ++ (style.newline outer ++ '\x7d' :: rest))
      ms ('\x7d' :: rest) := by
  induction ms with
  | nil =>
    refine .done (Reader.nextKey_none_iff.2 ⟨rest, ?_, rfl⟩)
    rw [Value.writeMembers, List.nil_append, skipBlank_newline]
    exact skipBlank_of_not_isBlank (by decide) _
  | cons m ms ih =>
    obtain ⟨k, v⟩ := m
    have hrest := delimited_writeMembers style depth ms
      (delimited_newline style outer (delimited_cons (c := '\x7d') (by decide) rest))
    refine objectMembers_cons style ?_ (hms (k, v) List.mem_cons_self depth hrest)
      (ih fun m hm => hms m (List.mem_cons_of_mem _ hm))
    refine Reader.nextKey_some_iff.2 ⟨_, Reader.stringTail_quoted k _, .inr ⟨rfl, _, ?_,
      Reader.skipBlank_key style depth k _⟩⟩
    rw [Value.writeMembers]
    simp only [List.cons_append, List.append_assoc]
    exact skipBlank_of_not_isBlank (by decide) _

/-- The members of an object after its opening bracket. -/
theorem objectMembers_write {k : String} {v : Value} {ms : List (String × Value)}
    (hms : ∀ m ∈ (k, v) :: ms, TakenUp style levels m.2) (depth outer : Nat) (rest : List Char) :
    Reader.ObjectMembers (Reader.value levels) true
      (style.newline depth ++ (quotedChars k ++ (style.colon ++ (v.write style depth
        ++ (Value.writeMembers style depth ms ++ (style.newline outer ++ '\x7d' :: rest))))))
      ((k, v) :: ms) ('\x7d' :: rest) := by
  have hrest := delimited_writeMembers style depth ms
    (delimited_newline style outer (delimited_cons (c := '\x7d') (by decide) rest))
  refine objectMembers_cons style ?_ (hms (k, v) List.mem_cons_self depth hrest)
    (objectMembers_writeMembers (fun m hm => hms m (List.mem_cons_of_mem _ hm)) depth outer rest)
  exact Reader.nextKey_some_iff.2 ⟨_, Reader.stringTail_quoted k _,
    .inl ⟨rfl, Reader.skipBlank_key style depth k _⟩⟩

end Brackets

/-! ## Whole values -/

theorem skipBlank_of_scalar {s : List Char} {x : Value × List Char} (h : scalar s = .ok x) :
    skipBlank s = s := by
  cases s with
  | nil => rfl
  | cons c t =>
    refine skipBlank_of_not_isBlank ?_ t
    by_contra hc
    rw [Bool.not_eq_false, isBlank] at hc
    simp only [Bool.or_eq_true, beq_iff_eq] at hc
    rcases hc with ((rfl | rfl) | rfl) | rfl <;> cases h

theorem scalar_write (style : Style) {v : Value} (hv : v.Within 0)
    (hf : ∀ x, v.HasFloat x → ReadsBack x) (depth : Nat) {rest : List Char}
    (hrest : Delimited rest) : scalar (v.write style depth ++ rest) = .ok (v, rest) := by
  cases v with
  | null => rfl
  | boolean b => cases b <;> rfl
  | number n =>
    cases n with
    | integer n hn => exact scalar_integer hn hrest
    | float x => exact scalar_float (hf x .number) hrest
  | string s =>
    rw [Value.write, Reader.quotedChars_append]
    show (stringTail [] _).map _ = _
    rw [Reader.stringTail_quoted]
    rfl
  | array items => exact hv.elim
  | object members => exact hv.elim

/-- **A value that is written is read back**, with its members in the order they were written. -/
theorem value_write (style : Style) {levels : Nat} {v : Value} (hv : v.Within levels)
    (hf : ∀ x, v.HasFloat x → ReadsBack x) : TakenUp style levels v := by
  -- On the levels and not on the value, because the reader counts them down.
  induction levels generalizing v with
  | zero =>
    intro depth rest hrest
    have hs := scalar_write style hv hf depth hrest
    rw [Reader.run_value_zero_iff, skipBlank_of_scalar hs, hs]
  | succ levels ih =>
    intro depth rest hrest
    rw [Reader.run_value_succ_iff]
    -- A scalar is written the same at any number of levels.
    by_cases hscalar : v.Within 0
    · have hs := scalar_write style hscalar hf depth hrest
      exact .inr (.inr (by rw [skipBlank_of_scalar hs, hs]))
    · cases v with
      | array vs =>
        have hvs : ∀ v ∈ vs, TakenUp style levels v := fun v hv' =>
          ih (hv v hv') fun x hx => hf x (.item hv' hx)
        refine .inl ?_
        cases vs with
        | nil => exact ⟨']' :: rest, [], rfl, Reader.items_iff.2 (.inl ⟨_, rfl, rfl, rfl⟩), rfl⟩
        | cons v vs =>
          refine ⟨_, v :: vs, ?_, items_write hvs (depth + 1) depth rest, rfl⟩
          rw [Value.write]
          simp only [List.cons_append, List.append_assoc]
          exact skipBlank_of_not_isBlank (by decide) _
      | object ms =>
        have hms : ∀ m ∈ ms, TakenUp style levels m.2 := fun m hm =>
          ih (hv m hm) fun x hx => hf x (.member hm hx)
        refine .inr (.inl ?_)
        cases ms with
        | nil => exact ⟨'\x7d' :: rest, [], '\x7d' :: rest, rfl, .done rfl, rfl, rfl⟩
        | cons m ms =>
          obtain ⟨k, v⟩ := m
          refine ⟨_, (k, v) :: ms, _, ?_, objectMembers_write hms (depth + 1) depth rest, rfl, rfl⟩
          rw [Value.write]
          simp only [List.cons_append, List.append_assoc]
          exact skipBlank_of_not_isBlank (by decide) _
      | null | boolean | number | string => exact absurd trivial hscalar

/-- **The whole of a written text is read as the value that was written.** -/
theorem read_write (style : Style) {v : Value} (hv : v.Within Reader.maxLevels)
    (hf : ∀ x, v.HasFloat x → ReadsBack x) :
    (Reader.value Reader.maxLevels).read (String.ofList (v.write style 0)) = .ok v := by
  have hrun := value_write style hv hf 0 delimited_nil
  rw [List.append_nil] at hrun
  exact Reader.read_iff.2 ⟨[], by rw [String.toList_ofList]; exact hrun, rfl⟩

end CrewChart.Json

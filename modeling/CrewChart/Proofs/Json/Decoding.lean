import CrewChart.Proofs.Json.Lenient

/-!
# Readers as functions of the value they read

A document is read straight into what it describes, without a `Value` in between.  All the same,
what is read depends only on the value that stands in the text: `Decodes levels p decode` says that
the reader `p` is the function `decode` of that value.  This is what lets a question about texts be
asked about values.

The two directions are of different strength, because a reader may pass over what no `Value` holds.
Whatever `p` reads is what is made of the value that the lenient reader finds; the other way round,
the value has to be one that is read in full.

## What is here

* `Decodes` — the relation, and one lemma for each way to build a reader;
* `Shape.Steps` — the same for the members of an object, taken in one by one;
* `decodeRecord`, `decodeTuple` — what is made of an object or an array of fields.
-/

set_option autoImplicit false

namespace CrewChart.Json

namespace Reader

variable {α β σ : Type} {levels : Nat}

/-- The reader `p` is the function `decode` of the value in the text. -/
structure Decodes (levels : Nat) (p : Reader α) (decode : Value → Option α) : Prop where
  /-- What is read is what is made of the value that stands there. -/
  sound : ∀ {s r : List Char} {a : α}, p.run s = .ok (a, r) →
    ∃ v, (lenient levels).run s = .ok (v, r) ∧ decode v = some a
  /-- What can be made of a value that is held is read. -/
  complete : ∀ {s r : List Char} {v : Value} {a : α}, (value levels).run s = .ok (v, r) →
    decode v = some a → p.run s = .ok (a, r)

/-! ## Readers of one value -/

theorem decodes_value (levels : Nat) : Decodes levels (value levels) some where
  sound h := ⟨_, run_lenient_of_value h, rfl⟩
  complete h ha := by rw [h, Option.some.inj ha]

/-- Whatever is passed over, the same is made of it. -/
theorem decodes_skipThen (levels : Nat) (st : σ) :
    Decodes levels (skipThen st) fun _ => some st where
  sound h := by
    obtain ⟨rfl, hr⟩ := run_skipThen_iff.1 h
    obtain ⟨v, hv⟩ := exists_run_lenient levels hr
    exact ⟨v, hv, rfl⟩
  complete h hst := run_skipThen_iff.2 ⟨(Option.some.inj hst).symm, passesOver_value levels h⟩

theorem Decodes.map {p : Reader α} {decode : Value → Option α} (h : Decodes levels p decode)
    (f : α → β) : Decodes levels (p.map f) fun v => (decode v).map f where
  sound hr := by
    obtain ⟨a, ha, rfl⟩ := run_map_iff.1 hr
    obtain ⟨v, hv, hd⟩ := h.sound ha
    exact ⟨v, hv, by rw [hd]; rfl⟩
  complete hv hb := by
    obtain ⟨a, ha, rfl⟩ := Option.map_eq_some_iff.1 hb
    exact run_map_iff.2 ⟨a, h.complete hv ha, rfl⟩

/-- What a reader of scalars makes of a value. -/
def accepted (accept : Value → Option (Except Cause α)) (v : Value) : Option α :=
  (accept v).bind Except.toOption

theorem accepted_eq_some_iff {accept : Value → Option (Except Cause α)} {v : Value} {a : α} :
    accepted accept v = some a ↔ accept v = some (.ok a) := by
  rw [accepted]
  cases accept v with
  | none => simp
  | some x => cases x <;> simp [Except.toOption]

/-- A reader of scalars is the function it accepts them by. -/
theorem decodes_ofScalar (levels : Nat) (expected : String)
    {accept : Value → Option (Except Cause α)} {decode : Value → Option α}
    (harray : ∀ vs, accept (.array vs) = none) (hobject : ∀ ms, accept (.object ms) = none)
    (hdecode : ∀ v, accepted accept v = decode v) :
    Decodes levels (ofScalar expected accept) decode where
  sound h := by
    obtain ⟨v, hv, ha⟩ := run_ofScalar_iff.1 h
    exact ⟨v, run_lenient_scalar hv levels, hdecode v ▸ accepted_eq_some_iff.2 ha⟩
  complete {s r v a} h ha := by
    rw [← hdecode, accepted_eq_some_iff] at ha
    refine run_ofScalar_iff.2 ⟨v, ?_, ha⟩
    cases levels with
    | zero => exact run_value_zero_iff.1 h
    | succ levels =>
      rcases run_value_succ_iff.1 h with ⟨t, vs, -, -, rfl⟩ | ⟨t, ms, u, -, -, rfl, -⟩ | hsc
      · rw [harray] at ha; cases ha
      · rw [hobject] at ha; cases ha
      · exact hsc

/-! ## Arrays -/

/-- What is made of an array, item by item. -/
def decodeItems (decode : Value → Option α) : Value → Option (List α)
  | .array vs => vs.mapM decode
  | _ => none

/-- Items are read as `decode` says, each of them and in order. -/
theorem items_sound {p : Reader α} {decode : Value → Option α} (h : Decodes levels p decode)
    {first : Bool} {s r : List Char} {as : List α} (hi : items p first s = .ok (as, r)) :
    ∃ vs, items (lenient levels) first s = .ok (vs, r) ∧ vs.mapM decode = some as := by
  refine items_induction (P := fun first s as => ∃ vs,
    items (lenient levels) first s = .ok (vs, r) ∧ vs.mapM decode = some as) ?_ ?_ hi
  · exact fun hnext hr => ⟨[], items_iff.2 (.inl ⟨_, hnext, rfl, hr⟩), rfl⟩
  · rintro first s t a u as hnext ha ⟨vs, hvs, hds⟩
    obtain ⟨v, hv, hd⟩ := h.sound ha
    refine ⟨v :: vs, items_iff.2 (.inr ⟨t, v, u, vs, hnext, hv, hvs, rfl⟩), ?_⟩
    rw [List.mapM_cons, hd, hds]
    rfl

theorem items_complete {p : Reader α} {decode : Value → Option α} (h : Decodes levels p decode)
    {first : Bool} {s r : List Char} {vs : List Value} {as : List α}
    (hi : items (value levels) first s = .ok (vs, r)) (hds : vs.mapM decode = some as) :
    items p first s = .ok (as, r) := by
  induction vs generalizing first s as with
  | nil =>
    cases hds
    rcases items_iff.1 hi with ⟨t, hnext, -, hr⟩ | ⟨t, v, u, vs, -, -, -, hvs⟩
    · exact items_iff.2 (.inl ⟨t, hnext, rfl, hr⟩)
    · cases hvs
  | cons v vs ih =>
    rcases items_iff.1 hi with ⟨t, -, hvs, -⟩ | ⟨t, w, u, ws, hnext, hv, htail, hvs⟩
    · cases hvs
    · cases hvs
      rw [List.mapM_cons] at hds
      obtain ⟨a, ha, hds⟩ := Option.bind_eq_some_iff.1 hds
      obtain ⟨as', has, hds⟩ := Option.bind_eq_some_iff.1 hds
      cases hds
      exact items_iff.2 (.inr ⟨t, a, u, as', hnext, h.complete hv ha, ih htail has, rfl⟩)

/-- **A reader of lists makes a list of an array**, and nothing of any other value. -/
theorem decodes_listOf {p : Nat → Reader α} {decode : Value → Option α}
    (h : Decodes levels (p levels) decode) :
    Decodes (levels + 1) (listOf (levels + 1) p) (decodeItems decode) where
  sound hr := by
    obtain ⟨t, hs, hi⟩ := run_listOf_iff.1 hr
    obtain ⟨vs, hvs, hds⟩ := items_sound h hi
    exact ⟨.array vs, run_lenient_array hs hvs, hds⟩
  complete {s r v as} hv ha := by
    rcases run_value_succ_iff.1 hv with ⟨t, vs, hs, hi, rfl⟩ | ⟨t, ms, u, -, -, rfl, -⟩ | hsc
    · exact run_listOf_iff.2 ⟨t, hs, items_complete h hi ha⟩
    · cases ha
    · have := within_of_scalar hsc 0
      cases v with
      | array => exact this.elim
      | _ => cases ha

/-! ## Objects -/

/-- What is to be read next is read as `decode` says; a refusal is where nothing is made. -/
def Takes (levels : Nat) (next : Except Cause (Reader σ)) (decode : Value → Option σ) : Prop :=
  match next with
  | .ok p => Decodes levels p decode
  | .error _ => ∀ v, decode v = none

/-- A shape asks for one key after the other, and so does a step. -/
theorem Takes.ite {c : Prop} [Decidable c] {x y : Except Cause (Reader σ)}
    {f g : Value → Option σ} (hx : Takes levels x f) (hy : Takes levels y g) :
    Takes levels (if c then x else y) (if c then f else g) := by
  by_cases h : c
  · rw [if_pos h, if_pos h]; exact hx
  · rw [if_neg h, if_neg h]; exact hy

theorem Decodes.takes {p : Reader σ} {decode : Value → Option σ} (h : Decodes levels p decode) :
    Takes levels (.ok p) decode :=
  h

/-- A shape takes members in as `step` does. -/
def Shape.Steps (levels : Nat) (shape : Shape σ α) (step : σ → String → Value → Option σ) : Prop :=
  ∀ st key, Takes levels (shape.take st key) (step st key)

/-- What is made of a member that may occur once. -/
def once (taken : Option β) (decode : Value → Option β) (set : β → σ) : Value → Option σ :=
  if taken.isSome then fun _ => none else fun v => (decode v).map set

/-- A member that has been taken in is refused when it comes again. -/
theorem Decodes.takes_once {p : Reader β} {decode : Value → Option β} (h : Decodes levels p decode)
    (taken : Option β) (cause : Cause) (set : β → σ) :
    Takes levels (if taken.isSome then .error cause else .ok (p.map set))
      (once taken decode set) := by
  rw [once]
  cases taken with
  | none => exact h.map set
  | some b => exact fun v => rfl

/-- Members taken in one by one. -/
def takeAll (step : σ → String → Value → Option σ) (st : σ) (ms : List (String × Value)) :
    Option σ :=
  ms.foldlM (fun st m => step st m.1 m.2) st

/-- What is made of an object, member by member. -/
def decodeRecord (shape : Shape σ α) (step : σ → String → Value → Option σ) :
    Value → Option α
  | .object ms => (takeAll step shape.start ms).bind fun st => (shape.finish st).toOption
  | _ => none

theorem toOption_eq_some_iff {x : Except Cause α} {a : α} : x.toOption = some a ↔ x = .ok a := by
  cases x <;> simp [Except.toOption]

variable {shape : Shape σ α} {step : σ → String → Value → Option σ}

/-- Members are taken in as `step` says, each of them and in order. -/
theorem members_sound (h : shape.Steps levels step) {first : Bool} {st st' : σ} {s r : List Char}
    (hm : members shape first st s = .ok (st', r)) :
    ∃ ms, ObjectMembers (lenient levels) first s ms r ∧ takeAll step st ms = some st' := by
  refine members_induction (P := fun first st s => ∃ ms,
    ObjectMembers (lenient levels) first s ms r ∧ takeAll step st ms = some st') ?_ ?_ hm
  · exact fun hk => ⟨[], .done hk, rfl⟩
  · rintro first st s key t p u st₁ w hk hp hc hr ⟨ms, hms, hds⟩
    have hstep := h st key
    rw [hp] at hstep
    obtain ⟨v, hv, hd⟩ := hstep.sound hr
    refine ⟨(key, v) :: ms, .more hk hc hv hms, ?_⟩
    rw [takeAll, List.foldlM_cons, hd]
    exact hds

theorem members_complete (h : shape.Steps levels step) {first : Bool} {st st' : σ}
    {s r : List Char} {ms : List (String × Value)}
    (hm : ObjectMembers (value levels) first s ms r) (hds : takeAll step st ms = some st') :
    members shape first st s = .ok (st', r) := by
  induction hm generalizing st with
  | done hk =>
    cases hds
    exact members_iff.2 (.inl ⟨hk, rfl⟩)
  | @more first s t u w r key v ms hk hc hv hms ih =>
    rw [takeAll, List.foldlM_cons] at hds
    obtain ⟨st₁, hd, hds⟩ := Option.bind_eq_some_iff.1 hds
    have hstep := h st key
    -- a shape that refuses the key would make nothing of its value
    cases hp : shape.take st key with
    | error cause =>
      rw [hp] at hstep
      rw [hstep v] at hd
      cases hd
    | ok p =>
      rw [hp] at hstep
      exact members_iff.2 (.inr ⟨key, t, p, u, st₁, w, hk, hp, hc, hstep.complete hv hd, ih hds⟩)

theorem object_sound (h : shape.Steps levels step) {s r : List Char} {a : α}
    (ho : object shape s = .ok (a, r)) :
    ∃ ms t, ObjectMembers (lenient levels) true s ms t ∧ r = t.drop 1 ∧
      decodeRecord shape step (.object ms) = some a := by
  obtain ⟨st, t, hm, hf, rfl⟩ := object_iff.1 ho
  obtain ⟨ms, hms, hds⟩ := members_sound h hm
  refine ⟨ms, t, hms, rfl, ?_⟩
  rw [decodeRecord, hds]
  exact toOption_eq_some_iff.2 hf

theorem object_complete (h : shape.Steps levels step) {s t : List Char} {a : α}
    {ms : List (String × Value)} (hms : ObjectMembers (value levels) true s ms t)
    (hd : decodeRecord shape step (.object ms) = some a) :
    object shape s = .ok (a, t.drop 1) := by
  obtain ⟨st, hds, hf⟩ := Option.bind_eq_some_iff.1 hd
  exact object_iff.2 ⟨st, t, members_complete h hms hds, toOption_eq_some_iff.1 hf, rfl⟩

/-- **A reader of records makes what `step` does of the members of an object**, and nothing of any
other value. -/
theorem decodes_record {shape : Nat → Shape σ α} (h : (shape levels).Steps levels step)
    (expected : String) :
    Decodes (levels + 1) (record (levels + 1) expected shape)
      (decodeRecord (shape levels) step) where
  sound hr := by
    obtain ⟨t, hs, ho⟩ := run_record_iff.1 hr
    obtain ⟨ms, u, hms, rfl, hd⟩ := object_sound h ho
    exact ⟨.object ms, run_lenient_object hs hms, hd⟩
  complete {s r v a} hv ha := by
    rcases run_value_succ_iff.1 hv with ⟨t, vs, -, -, rfl⟩ | ⟨t, ms, u, hs, hms, rfl, rfl⟩ | hsc
    · cases ha
    · exact run_record_iff.2 ⟨t, hs, object_complete h hms ha⟩
    · have := within_of_scalar hsc 0
      cases v with
      | object => exact this.elim
      | _ => cases ha

/-! ## Arrays of fields -/

/-- The items of an array taken in one by one, each as the member of its place. -/
def takeFields (short : Nat → Option Cause) (step : σ → String → Value → Option σ) (index : Nat)
    (st : σ) : List String → List Value → Option σ
  | [], [] => some st
  | [], _ :: _ => none
  | _ :: keys, [] =>
    if (short index).isSome then none else takeFields short step (index + 1) st keys []
  | key :: keys, v :: vs =>
    (step st key v).bind fun st => takeFields short step (index + 1) st keys vs

/-- What is made of an object, or of the array of its fields. -/
def decodeTuple (shape : Shape σ α) (step : σ → String → Value → Option σ) (keys : List String)
    (short : Nat → Option Cause) : Value → Option α
  | .array vs =>
    (takeFields short step 0 shape.start keys vs).bind fun st => (shape.finish st).toOption
  | v => decodeRecord shape step v

/-- After the last field the array has to end; not even a comma may follow. -/
theorem endOfFields_iff {s r : List Char} :
    endOfFields s = .ok r ↔ skipBlank s = ']' :: r := by
  rw [endOfFields]
  cases hs : skipBlank s with
  | nil => simp
  | cons c t =>
    by_cases hc : c = ']'
    · subst hc; simp
    · by_cases hcomma : c = ','
      · subst hcomma
        cases ht : skipBlank t with
        | nil => simp [ht]
        | cons d u => by_cases hd : d = ']' <;> simp [ht, hd]
      · simp [hc, hcomma]

variable {short : Nat → Option Cause}

theorem items_nil_of_end {p : Reader β} {s r : List Char} (first : Bool)
    (hs : skipBlank s = ']' :: r) : items p first s = .ok ([], r) :=
  items_iff.2 (.inl ⟨']' :: r, nextItem_false_iff.2 ⟨r, hs, rfl⟩, rfl, rfl⟩)

/-- Fields are read as items of an array, each of them under the key of its place. -/
theorem fields_sound (h : shape.Steps levels step) {keys : List String} {first : Bool}
    {index : Nat} {st st' : σ} {s t r : List Char}
    (hf : fields shape short first index st keys s = .ok (st', t))
    (he : endOfFields t = .ok r) :
    ∃ vs, items (lenient levels) first s = .ok (vs, r) ∧
      takeFields short step index st keys vs = some st' := by
  induction keys generalizing first index st s with
  | nil =>
    rw [fields] at hf
    cases hf
    exact ⟨[], items_nil_of_end first (endOfFields_iff.1 he), rfl⟩
  | cons key keys ih =>
    rcases fields_iff.1 hf with ⟨u, hnext, hshort, hf⟩ | ⟨u, p, st₁, w, hnext, hp, hr, hf⟩
    · -- nothing follows: all the keys that are left are left out
      obtain ⟨x, hs, rfl⟩ := nextItem_false_iff.1 hnext
      obtain ⟨vs, hvs, hds⟩ := ih hf
      rw [items_nil_of_end true (skipBlank_of_not_isBlank (c := ']') (by decide) x)] at hvs
      cases hvs
      refine ⟨[], items_nil_of_end first hs, ?_⟩
      rw [takeFields, hshort]
      exact hds
    · have hstep := h st key
      rw [hp] at hstep
      obtain ⟨v, hv, hd⟩ := hstep.sound hr
      obtain ⟨vs, hvs, hds⟩ := ih hf
      refine ⟨v :: vs, items_iff.2 (.inr ⟨u, v, w, vs, hnext, hv, hvs, rfl⟩), ?_⟩
      rw [takeFields, hd]
      exact hds

/-- Items of an array are read as fields, as many as there are; the keys that are left after them
are left out. -/
theorem fields_complete (h : shape.Steps levels step) {keys : List String} {first : Bool}
    {index : Nat} {st st' : σ} {s r : List Char} {vs : List Value}
    (hi : items (value levels) first s = .ok (vs, r))
    (hds : takeFields short step index st keys vs = some st') :
    ∃ t, fields shape short first index st keys s = .ok (st', t) ∧ endOfFields t = .ok r := by
  induction keys generalizing first index st s vs with
  | nil =>
    cases vs with
    | cons v vs => cases hds
    | nil =>
      cases hds
      rcases items_iff.1 hi with ⟨t, hnext, -, rfl⟩ | ⟨t, v, u, vs, -, -, -, hvs⟩
      · obtain ⟨w, hs, rfl⟩ := nextItem_false_iff.1 hnext
        exact ⟨s, rfl, endOfFields_iff.2 hs⟩
      · cases hvs
  | cons key keys ih =>
    cases vs with
    | nil =>
      rw [takeFields] at hds
      split_ifs at hds with hshort
      rw [Option.isSome_iff_ne_none, not_not] at hshort
      rcases items_iff.1 hi with ⟨t, hnext, -, rfl⟩ | ⟨t, v, u, vs, -, -, -, hvs⟩
      · obtain ⟨w, hs, rfl⟩ := nextItem_false_iff.1 hnext
        -- The closing bracket stays where it is, and the keys that are left all find it there.
        have hend := items_nil_of_end (p := value levels) true
          (skipBlank_of_not_isBlank (c := ']') (by decide) w)
        obtain ⟨t, hf, he⟩ := ih hend hds
        exact ⟨t, fields_iff.2 (.inl ⟨_, hnext, hshort, hf⟩), he⟩
      · cases hvs
    | cons v vs =>
      obtain ⟨st₁, hd, hds⟩ := Option.bind_eq_some_iff.1 hds
      rcases items_iff.1 hi with ⟨t, -, hvs, -⟩ | ⟨t, w, u, ws, hnext, hv, htail, hvs⟩
      · cases hvs
      · cases hvs
        obtain ⟨x, hf, he⟩ := ih htail hds
        have hstep := h st key
        cases hp : shape.take st key with
        | error cause =>
          rw [hp] at hstep
          rw [hstep v] at hd
          cases hd
        | ok p =>
          rw [hp] at hstep
          exact ⟨x, fields_iff.2 (.inr ⟨t, p, st₁, u, hnext, hp, hstep.complete hv hd, hf⟩), he⟩

/-- **A reader of records that may come as arrays** makes the same of an object as one that reads
only objects, and of an array what comes of its items in their places. -/
theorem decodes_recordOrTuple {shape : Nat → Shape σ α} (h : (shape levels).Steps levels step)
    (expected : String) (keys : List String) (short : Nat → Option Cause) :
    Decodes (levels + 1) (recordOrTuple (levels + 1) expected shape keys short)
      (decodeTuple (shape levels) step keys short) where
  sound hr := by
    obtain ⟨t, ⟨hs, ho⟩ | ⟨hs, ht⟩⟩ := run_recordOrTuple_iff.1 hr
    · obtain ⟨ms, u, hms, rfl, hd⟩ := object_sound h ho
      exact ⟨.object ms, run_lenient_object hs hms, hd⟩
    · obtain ⟨st, u, hf, he, hfin⟩ := tuple_iff.1 ht
      obtain ⟨vs, hvs, hds⟩ := fields_sound h hf he
      refine ⟨.array vs, run_lenient_array hs hvs, ?_⟩
      rw [decodeTuple, hds]
      exact toOption_eq_some_iff.2 hfin
  complete {s r v a} hv ha := by
    rcases run_value_succ_iff.1 hv with ⟨t, vs, hs, hi, rfl⟩ | ⟨t, ms, u, hs, hms, rfl, rfl⟩ | hsc
    · obtain ⟨st, hds, hfin⟩ := Option.bind_eq_some_iff.1 ha
      obtain ⟨u, hf, he⟩ := fields_complete h hi hds
      exact run_recordOrTuple_iff.2 ⟨t, .inr ⟨hs,
        tuple_iff.2 ⟨st, u, hf, he, toOption_eq_some_iff.1 hfin⟩⟩⟩
    · exact run_recordOrTuple_iff.2 ⟨t, .inl ⟨hs, object_complete h hms ha⟩⟩
    · have := within_of_scalar hsc 0
      cases v with
      | array => exact this.elim
      | object => exact this.elim
      | _ => cases ha

/-! ## The whole of a text -/

/-- **What is read from a text is what is made of its value.** -/
theorem Decodes.read_sound {p : Reader α} {decode : Value → Option α} (h : Decodes levels p decode)
    {text : String} {a : α} (hr : p.read text = .ok a) :
    ∃ v, (lenient levels).read text = .ok v ∧ decode v = some a := by
  obtain ⟨r, hrun, hend⟩ := read_iff.1 hr
  obtain ⟨v, hv, hd⟩ := h.sound hrun
  exact ⟨v, read_iff.2 ⟨r, hv, hend⟩, hd⟩

/-- **What is made of the value of a text is read from the text.** -/
theorem Decodes.read_complete {p : Reader α} {decode : Value → Option α}
    (h : Decodes levels p decode) {text : String} {v : Value} {a : α}
    (hv : (value levels).read text = .ok v) (hd : decode v = some a) : p.read text = .ok a := by
  obtain ⟨r, hrun, hend⟩ := read_iff.1 hv
  exact read_iff.2 ⟨r, h.complete hrun hd, hend⟩

end Reader

end CrewChart.Json

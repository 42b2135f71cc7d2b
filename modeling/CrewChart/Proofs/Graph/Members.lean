import CrewChart.Proofs.Graph.OfValue
import CrewChart.Proofs.Graph.Sheets
import CrewChart.Proofs.Json.Records

/-!
# What a chart holds of the members it is read from

A node, an edge and a chart are read in one pass over their members.  Here it is said, without the
pass, what each of them has from which member: a field from the member of its key, the component
of a node from the two members that make one, and everything else in the order it came.

## What is here

* `Component.ofMembers_eq_ok_iff` — a component is made of one kind and one sheet;
* `Node.ReadFrom`, `Edge.ReadFrom` — what each holds of its members, and `readFrom_of_ofValue`,
  that this is so of whatever was read;
* `Position.members_of_ofValue`, `Graph.members_of_ofValue` — the same where other members are
  passed over;
* `Graph.forall₂_documentNodes` — the nodes of a chart are those of its document.
-/

set_option autoImplicit false

namespace CrewChart

open Json (Value)
open Json.Reader (takeAll_required takeAll_optional takeAll_later once_eq_some_iff decodeItems
  decodeItems_eq_some_iff takeFields TakesOnce takesOnce_ite keeps_some toOption_eq_some_iff)

/-- Only a text is a text. -/
theorem Json.Value.eq_string_of_string? {v : Value} {s : String} (h : v.string? = some s) :
    v = .string s := by
  cases v with
  | string t => exact congrArg _ (Option.some.inj h)
  | _ => cases h

/-! ## Components -/

namespace Component

/-- The members of a node that hold its component. -/
def isPart (key : String) : Bool := key == "type" || key == "data"

theorem isPart_eq_true_iff {key : String} :
    isPart key = true ↔ key = "type" ∨ key = "data" := by
  rw [isPart, Bool.or_eq_true, beq_iff_eq, beq_iff_eq]

/-- **A component is made of one kind and one sheet**, in either order. -/
theorem ofMembers_eq_ok_iff {ms : List (String × Value)} {c : Component} :
    ofMembers ms = .ok c ↔ ∃ tag sheet kind,
      (ms.filter (isPart ·.1) = [("type", tag), ("data", sheet)] ∨
        ms.filter (isPart ·.1) = [("data", sheet), ("type", tag)]) ∧
      Kind.ofValue tag = .ok kind ∧ ofValue kind sheet = .ok c := by
  have hcomplete : ∀ kind sheet rest, ofMembers.complete kind sheet rest = .ok c ↔
      ofValue kind sheet = .ok c ∧ rest = [] := by
    intro kind sheet rest
    rw [ofMembers.complete]
    cases ofValue kind sheet with
    | error cause => simp
    | ok d => cases rest <;> simp
  have hpart : ∀ m ∈ ms.filter (isPart ·.1), m.1 = "type" ∨ m.1 = "data" := fun m hm =>
    isPart_eq_true_iff.1 (List.mem_filter.1 hm).2
  rw [ofMembers, List.filter_congr (q := fun m => isPart m.1) fun m _ => ?_]
  swap
  · rfl
  generalize ms.filter (isPart ·.1) = parts at hpart
  -- Of `type` and `data` there are too few, one of them twice, or both in one of two orders.
  rcases parts with _ | ⟨⟨key, v⟩, _ | ⟨⟨key', w⟩, rest⟩⟩
  · simp
  · rcases hpart _ List.mem_cons_self with hkey | hkey
    · cases hkey
      cases hv : Kind.ofValue v <;> simp [hv]
    · cases hkey
      simp
  · rcases hpart _ List.mem_cons_self with hkey | hkey <;>
      rcases hpart _ (List.mem_cons_of_mem _ List.mem_cons_self) with hkey' | hkey' <;>
      cases hkey <;> cases hkey'
    · cases hv : Kind.ofValue v <;> simp [hv]
    · cases hv : Kind.ofValue v with
      | error cause => simp [hv]
      | ok kind => simp [hv, hcomplete, and_comm]
    · cases hw : Kind.ofValue w with
      | error cause => simp [hw]
      | ok kind => simp [hw, hcomplete, and_comm]
    · simp

end Component

/-! ## Positions -/

namespace Position

theorem takesOnce_x : TakesOnce step "x" Prod.fst Value.binary64? :=
  takesOnce_ite (fun _ _ => rfl) (.ite (fun _ _ => rfl) (keeps_some fun _ _ _ => rfl))

theorem takesOnce_y : TakesOnce step "y" Prod.snd Value.binary64? :=
  .ite (by decide) (fun _ _ => rfl) (takesOnce_ite (fun _ _ => rfl) (keeps_some fun _ _ _ => rfl))

theorem finish_eq_ok_iff {st : Option Binary64 × Option Binary64} {p : Position} :
    shape.finish st = .ok p ↔ st.1 = some p.x ∧ st.2 = some p.y := by
  obtain ⟨x?, y?⟩ := st
  obtain ⟨x, y⟩ := p
  cases x? <;> cases y? <;> simp [shape]

/-- **A position is made of two numbers**, under `x` and `y`. -/
theorem members_of_ofValue {ms : List (String × Value)} {p : Position}
    (h : ofValue? (.object ms) = some p) :
    (∃ v, ms.lookup "x" = some v ∧ v.binary64? = some p.x) ∧
      ∃ v, ms.lookup "y" = some v ∧ v.binary64? = some p.y := by
  obtain ⟨st, hst, hfinish⟩ := Option.bind_eq_some_iff.1 h
  obtain ⟨hx, hy⟩ := finish_eq_ok_iff.1 (toOption_eq_some_iff.1 hfinish)
  exact ⟨takeAll_required takesOnce_x hst rfl hx, takeAll_required takesOnce_y hst rfl hy⟩

end Position

/-! ## Nodes -/

namespace Node

/-- The members of a node that are kept for later. -/
def isLate (key : String) : Bool := key != "id" && key != "position"

theorem isLate_eq_true_iff {key : String} :
    isLate key = true ↔ key ≠ "id" ∧ key ≠ "position" := by
  rw [isLate, Bool.and_eq_true, bne_iff_ne, bne_iff_ne]

/-- What a node holds of the members it is read from. -/
structure ReadFrom (ms : List (String × Value)) (n : Node) : Prop where
  /-- The id is a text. -/
  id : ms.lookup "id" = some (.string n.id)
  /-- The position may be left out. -/
  position : (ms.lookup "position").elim (some .origin) Position.ofValue? = some n.position
  /-- The component is made of two members. -/
  component : Component.ofMembers (ms.filter fun m => isLate m.1) = .ok n.component
  /-- Everything else is carried along. -/
  extra : n.extra = extraOf (ms.filter fun m => isLate m.1 && !Component.isPart m.1)

theorem takesOnce_id : TakesOnce step "id" Draft.id Value.string? :=
  takesOnce_ite (fun _ _ => rfl) (.ite (fun _ _ => rfl) (keeps_some fun _ _ _ => rfl))

theorem takesOnce_position : TakesOnce step "position" Draft.position Position.ofValue? :=
  .ite (by decide) (fun _ _ => rfl) (takesOnce_ite (fun _ _ => rfl) (keeps_some fun _ _ _ => rfl))

theorem step_later {st st' : Draft} {key : String} {v : Value} (h : step st key v = some st') :
    st'.later = if isLate key then (key, v) :: st.later else st.later := by
  rw [step] at h
  split_ifs at h <;> grind [once_eq_some_iff, isLate]

theorem finish_eq_ok_iff {st : Draft} {n : Node} :
    (shape 0).finish st = .ok n ↔ st.id = some n.id ∧ st.position.getD .origin = n.position ∧
      Component.ofMembers st.later.reverse = .ok n.component ∧
      extraOf (st.later.reverse.filter fun m => !Component.isPart m.1) = n.extra := by
  have hextra : (fun m : String × Value => m.1 != "type" && m.1 != "data")
      = fun m => !Component.isPart m.1 := by
    funext m
    rw [Component.isPart, Bool.not_or]
    rfl
  obtain ⟨id?, position?, later⟩ := st
  obtain ⟨id, position, component, extra⟩ := n
  cases id? with
  | none => simp [shape]
  | some id' =>
    simp only [shape, hextra]
    cases Component.ofMembers later.reverse with
    | error cause => simp [Except.map]
    | ok c => simp [Except.map, and_left_comm]

/-- **A node is made of its members**, each of them in one place. -/
theorem readFrom_of_ofValue {v : Value} {n : Node} (h : ofValue? v = some n) :
    ∃ ms, v = .object ms ∧ n.ReadFrom ms := by
  cases v with
  | object ms =>
    obtain ⟨st, hst, hfinish⟩ := Option.bind_eq_some_iff.1 h
    obtain ⟨hid, hposition, hcomponent, hextra⟩ :=
      finish_eq_ok_iff.1 (toOption_eq_some_iff.1 hfinish)
    have hlater : st.later.reverse = ms.filter fun m => isLate m.1 := by
      rw [takeAll_later step_later hst, List.reverse_append, List.reverse_reverse]
      rfl
    obtain ⟨v, hv, hs⟩ := takeAll_required takesOnce_id hst rfl hid
    refine ⟨ms, rfl, by rw [hv, Value.eq_string_of_string? hs], ?_, hlater ▸ hcomponent, ?_⟩
    · rw [← hposition]
      exact takeAll_optional takesOnce_position hst rfl _
    · rw [← hextra, hlater, List.filter_filter]
      exact congrArg extraOf (List.filter_congr fun m _ => Bool.and_comm _ _)
  | _ => cases h

/-- Kind and sheet are among the members. -/
theorem ReadFrom.parts {ms : List (String × Value)} {n : Node} (h : n.ReadFrom ms) :
    ∃ tag sheet, ("type", tag) ∈ ms ∧ ("data", sheet) ∈ ms ∧
      Kind.ofValue tag = .ok n.component.kind ∧
      Component.ofValue n.component.kind sheet = .ok n.component := by
  obtain ⟨tag, sheet, kind, hparts, htag, hsheet⟩ := Component.ofMembers_eq_ok_iff.1 h.component
  have hmem : ∀ m ∈ [("type", tag), ("data", sheet)], m ∈ ms := by
    intro m hm
    have hm : m ∈ (ms.filter fun m => isLate m.1).filter (Component.isPart ·.1) := by
      rcases hparts with hparts | hparts
      · rwa [hparts]
      · rw [hparts]
        exact (List.Perm.swap _ _ _).mem_iff.1 hm
    exact List.mem_of_mem_filter (List.mem_of_mem_filter hm)
  have hkind : n.component.kind = kind := by
    obtain ⟨_, s, -, -, hc⟩ := Component.ofValue_eq_ok_iff.1 hsheet
    rw [← hc, Component.kind_ofSheet]
  rw [hkind]
  exact ⟨tag, sheet, hmem _ (by simp), hmem _ (by simp), htag, hsheet⟩

/-- The sheet of the component is the value under `data`. -/
theorem ReadFrom.ofValue_data {ms : List (String × Value)} {n : Node} (h : n.ReadFrom ms)
    {sheet : Value} (hsheet : ms.lookup "data" = some sheet) :
    Component.ofValue n.component.kind sheet = .ok n.component := by
  obtain ⟨tag, sheet', kind, hparts, -, hc⟩ := Component.ofMembers_eq_ok_iff.1 h.component
  have hkind : n.component.kind = kind := by
    obtain ⟨_, s, -, -, hs⟩ := Component.ofValue_eq_ok_iff.1 hc
    rw [← hs, Component.kind_ofSheet]
  have hmem : ("data", sheet) ∈ (ms.filter fun m => isLate m.1).filter (Component.isPart ·.1) :=
    List.mem_filter.2 ⟨List.mem_filter.2 ⟨Json.mem_of_lookup hsheet, rfl⟩, rfl⟩
  have heq : sheet = sheet' := by
    rcases hparts with hparts | hparts <;> simpa [hparts] using hmem
  rw [hkind, heq]
  exact hc

end Node

/-! ## Edges -/

namespace Edge

/-- The members of an edge that are kept for later. -/
def isLate (key : String) : Bool := key != "id" && key != "source" && key != "target"

theorem isLate_eq_true_iff {key : String} :
    isLate key = true ↔ key ≠ "id" ∧ key ≠ "source" ∧ key ≠ "target" := by
  rw [isLate, Bool.and_eq_true, Bool.and_eq_true, bne_iff_ne, bne_iff_ne, bne_iff_ne, and_assoc]

/-- What an edge holds of the members it is read from. -/
structure ReadFrom (ms : List (String × Value)) (e : Edge) : Prop where
  id : ms.lookup "id" = some (.string e.id)
  source : ms.lookup "source" = some (.string e.source)
  target : ms.lookup "target" = some (.string e.target)
  /-- Everything else is carried along. -/
  extra : e.extra = extraOf (ms.filter fun m => isLate m.1)

theorem takesOnce_id : TakesOnce step "id" Draft.id Value.string? :=
  takesOnce_ite (fun _ _ => rfl)
    (.ite (fun _ _ => rfl) (.ite (fun _ _ => rfl) (keeps_some fun _ _ _ => rfl)))

theorem takesOnce_source : TakesOnce step "source" Draft.source Value.string? :=
  .ite (by decide) (fun _ _ => rfl)
    (takesOnce_ite (fun _ _ => rfl) (.ite (fun _ _ => rfl) (keeps_some fun _ _ _ => rfl)))

theorem takesOnce_target : TakesOnce step "target" Draft.target Value.string? :=
  .ite (by decide) (fun _ _ => rfl)
    (.ite (by decide) (fun _ _ => rfl)
      (takesOnce_ite (fun _ _ => rfl) (keeps_some fun _ _ _ => rfl)))

theorem step_later {st st' : Draft} {key : String} {v : Value} (h : step st key v = some st') :
    st'.later = if isLate key then (key, v) :: st.later else st.later := by
  rw [step] at h
  split_ifs at h <;> grind [once_eq_some_iff, isLate]

theorem finish_eq_ok_iff {st : Draft} {e : Edge} :
    (shape 0).finish st = .ok e ↔ st.id = some e.id ∧ st.source = some e.source ∧
      st.target = some e.target ∧ extraOf st.later.reverse = e.extra := by
  obtain ⟨id?, source?, target?, later⟩ := st
  obtain ⟨id, source, target, extra⟩ := e
  cases id? <;> cases source? <;> cases target? <;> simp [shape]

/-- **An edge is made of its members**, each of them in one place. -/
theorem readFrom_of_ofValue {v : Value} {e : Edge} (h : ofValue? v = some e) :
    ∃ ms, v = .object ms ∧ e.ReadFrom ms := by
  cases v with
  | object ms =>
    obtain ⟨st, hst, hfinish⟩ := Option.bind_eq_some_iff.1 h
    obtain ⟨hid, hsource, htarget, hextra⟩ :=
      finish_eq_ok_iff.1 (toOption_eq_some_iff.1 hfinish)
    obtain ⟨v, hv, hs⟩ := takeAll_required takesOnce_id hst rfl hid
    obtain ⟨w, hw, ht⟩ := takeAll_required takesOnce_source hst rfl hsource
    obtain ⟨x, hx, hu⟩ := takeAll_required takesOnce_target hst rfl htarget
    refine ⟨ms, rfl, by rw [hv, Value.eq_string_of_string? hs],
      by rw [hw, Value.eq_string_of_string? ht], by rw [hx, Value.eq_string_of_string? hu], ?_⟩
    rw [← hextra, takeAll_later step_later hst, List.reverse_append, List.reverse_reverse]
    rfl
  | _ => cases h

end Edge

/-! ## Graphs -/

namespace Graph

theorem takesOnce_nodes : TakesOnce step "nodes" Prod.fst (decodeItems Node.ofValue?) :=
  takesOnce_ite (fun _ _ => rfl) (.ite (fun _ _ => rfl) (keeps_some fun _ _ _ => rfl))

theorem takesOnce_edges : TakesOnce step "edges" Prod.snd (decodeItems Edge.ofValue?) :=
  .ite (by decide) (fun _ _ => rfl) (takesOnce_ite (fun _ _ => rfl) (keeps_some fun _ _ _ => rfl))

/-- **A chart is made of two members**, each of which may be left out. -/
theorem members_of_ofValue {ms : List (String × Value)} {g : Graph}
    (h : ofValue? (.object ms) = some g) :
    (ms.lookup "nodes").elim (some []) (decodeItems Node.ofValue?) = some g.nodes ∧
      (ms.lookup "edges").elim (some []) (decodeItems Edge.ofValue?) = some g.edges := by
  obtain ⟨st, hst, hfinish⟩ := Option.bind_eq_some_iff.1 h
  cases toOption_eq_some_iff.1 hfinish
  exact ⟨takeAll_optional takesOnce_nodes hst rfl [], takeAll_optional takesOnce_edges hst rfl []⟩

/-- The nodes in a document, which has them under their key or as its first field. -/
def documentNodes : Value → List Value
  | .object ms =>
    match ms.lookup "nodes" with
    | some (.array vs) => vs
    | _ => []
  | .array (.array vs :: _) => vs
  | _ => []

/-- A document in the form of an array has at most two fields. -/
theorem takeFields_cases {vs : List Value} {st : Option (List Node) × Option (List Edge)}
    (h : takeFields (fun _ => none) step 0 (none, none) ["nodes", "edges"] vs = some st) :
    vs = [] ∧ st.1 = none ∨
      ∃ v rest nodes, vs = v :: rest ∧ decodeItems Node.ofValue? v = some nodes ∧
        st.1 = some nodes := by
  cases vs with
  | nil => cases h; exact .inl ⟨rfl, rfl⟩
  | cons v rest =>
    obtain ⟨st₁, hst₁, h⟩ := Option.bind_eq_some_iff.1 h
    obtain ⟨-, nodes, hnodes, hst₁⟩ := takesOnce_nodes.taken hst₁
    refine .inr ⟨v, rest, nodes, rfl, hnodes, ?_⟩
    rcases rest with _ | ⟨w, rest⟩
    · cases h
      exact hst₁
    · obtain ⟨st₂, hst₂, h⟩ := Option.bind_eq_some_iff.1 h
      have hkept := takesOnce_nodes.other (by decide) hst₂
      cases rest with
      | nil => cases h; exact hkept.trans hst₁
      | cons x rest => cases h

/-- **The nodes of a chart are those of its document**, in order. -/
theorem forall₂_documentNodes {v : Value} {g : Graph} (h : ofValue? v = some g) :
    List.Forall₂ (fun w n => Node.ofValue? w = some n) (documentNodes v) g.nodes := by
  cases v with
  | object ms =>
    have hnodes := (members_of_ofValue h).1
    rw [documentNodes]
    cases hlookup : ms.lookup "nodes" with
    | none =>
      rw [hlookup] at hnodes
      rw [← Option.some.inj hnodes]
      exact .nil
    | some w =>
      rw [hlookup] at hnodes
      obtain ⟨vs, rfl, hvs⟩ := decodeItems_eq_some_iff.1 hnodes
      exact hvs
  | array vs =>
    obtain ⟨st, hst, hfinish⟩ := Option.bind_eq_some_iff.1 h
    cases toOption_eq_some_iff.1 hfinish
    rcases takeFields_cases hst with ⟨rfl, hnone⟩ | ⟨w, rest, nodes, rfl, hnodes, hsome⟩
    · show List.Forall₂ _ [] (st.1.getD [])
      rw [hnone]
      exact .nil
    · obtain ⟨ws, rfl, hws⟩ := decodeItems_eq_some_iff.1 hnodes
      show List.Forall₂ _ ws (st.1.getD [])
      rw [hsome]
      exact hws
  | _ => cases h

end Graph

end CrewChart

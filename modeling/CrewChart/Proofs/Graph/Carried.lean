import CrewChart.Proofs.Graph.Members
import CrewChart.Graph.Saved

/-!
# The attributes a chart carries along

Whatever the editor attaches is carried along in `extra`.  `Carried` is what is true of these
attributes in every chart that was read: their keys are distinct and not among those that mean
something, and their values are in their kept form.  It is the reason a saved chart can be read
again: no attribute that is carried along takes the place of another when it is read back.

## What is here

* `Carried` — the invariant, and `carried_putAll`, which is where it comes from;
* `Component.ofValue_sheet` — the sheet of a component is read as that component;
* `Graph.Kept`, `Graph.kept_of_ofValue` — every part of a chart that was read has the invariant;
* `Graph.within_toValue` — what is saved nests no deeper than what was read.
-/

set_option autoImplicit false

namespace CrewChart

open Json (Value Attributes)
open Json.Reader (decodeItems_forall decodeTuple_preserves once_eq_some_iff)

/-- Attributes that are carried along beside the `known` ones. -/
structure Carried (levels : Nat) (known : List String) (extra : Attributes) : Prop where
  /-- No key occurs twice. -/
  distinct : (extra.map Prod.fst).Nodup
  /-- No key means anything else. -/
  unknown : ∀ m ∈ extra, m.1 ∉ known
  /-- The values are in their kept form. -/
  tidy : ∀ m ∈ extra, m.2.tidy = m.2
  /-- The values nest at most this deep. -/
  within : ∀ m ∈ extra, m.2.Within levels

/-- **Unknown members put one after the other are carried along.** -/
theorem carried_putAll {levels : Nat} {known : List String} {ms : List (String × Value)}
    (hunknown : ∀ m ∈ ms, m.1 ∉ known) (hwithin : ∀ m ∈ ms, m.2.Within levels) :
    Carried levels known (Attributes.putAll [] (ms.map fun m => (m.1, m.2.tidy))) := by
  have hmem : ∀ m ∈ Attributes.putAll [] (ms.map fun m => (m.1, m.2.tidy)),
      ∃ n ∈ ms, (n.1, n.2.tidy) = m := fun m hm =>
    List.mem_map.1 ((Attributes.mem_putAll hm).resolve_right List.not_mem_nil)
  have hnil : (([] : Attributes).map Prod.fst).Nodup := .nil
  refine ⟨Attributes.nodup_putAll hnil _, fun m hm => ?_, fun m hm => ?_, fun m hm => ?_⟩
  · obtain ⟨n, hn, rfl⟩ := hmem m hm
    exact hunknown n hn
  · obtain ⟨n, hn, rfl⟩ := hmem m hm
    exact Value.tidy_tidy n.2
  · obtain ⟨n, hn, rfl⟩ := hmem m hm
    exact (hwithin n hn).tidy

/-- Attributes that are carried along are put together again as they are. -/
theorem Carried.putAll_eq {levels : Nat} {known : List String} {extra : Attributes}
    (h : Carried levels known extra) :
    Attributes.putAll [] (extra.map fun m => (m.1, m.2.tidy)) = extra := by
  have hmap : extra.map (fun m => (m.1, m.2.tidy)) = extra := by
    rw [List.map_congr_left fun m hm => by rw [h.tidy m hm], List.map_id']
  have hnodup : ((([] : Attributes) ++ extra).map Prod.fst).Nodup := h.distinct
  rw [hmap, Attributes.putAll_of_nodup hnodup, List.nil_append]

theorem Carried.notMem {levels : Nat} {known : List String} {extra : Attributes}
    (h : Carried levels known extra) {key : String} (hk : key ∈ known) :
    key ∉ extra.map Prod.fst := by
  rintro hmem
  obtain ⟨m, hm, rfl⟩ := List.mem_map.1 hmem
  exact h.unknown m hm hk

/-! ## Components -/

namespace Component

/-- The keys a component of its kind knows. -/
def knownKeys (c : Component) : List String := c.kind.known.map Prod.fst

theorem carried_of_ofValue {levels : Nat} {kind : Kind} {v : Value} {c : Component}
    (hv : v.Within (levels + 1)) (h : ofValue kind v = .ok c) :
    Carried levels c.knownKeys c.sheet.extra := by
  obtain ⟨ms, s, rfl, hs, rfl⟩ := ofValue_eq_ok_iff.1 h
  rw [knownKeys, kind_ofSheet, sheet_ofSheet_extra, Sheet.extra_of_enterAll hs, Sheet.unknown]
  refine carried_putAll (fun m hm hk => ?_) fun m hm => hv m (List.mem_of_mem_filter hm)
  obtain ⟨form, hform⟩ := Kind.mem_known_iff.1 hk
  have hunknown := (List.mem_filter.1 hm).2
  rw [hform] at hunknown
  cases hunknown

/-- A saved attribute that is not known is one of those carried along. -/
theorem mem_extra_of_unknown {c : Component} {m : String × Value} (hm : m ∈ c.sheet.members)
    (hk : c.kind.known.lookup m.1 = none) : m ∈ c.sheet.extra := by
  refine (List.mem_append.1 hm).resolve_left fun hknown => ?_
  have hkey := (Json.keys_filterMap c.sheet.known).subset (List.mem_map_of_mem hknown)
  rw [sheet_known_keys] at hkey
  obtain ⟨form, hform⟩ := Kind.mem_known_iff.1 hkey
  rw [hk] at hform
  cases hform

section Saved

variable {levels : Nat} {c : Component} (h : Carried levels c.knownKeys c.sheet.extra)
include h

theorem nodup_sheet_members : (c.sheet.members.map Prod.fst).Nodup := by
  have hsub := Json.keys_filterMap c.sheet.known
  rw [Sheet.members, List.map_append, List.nodup_append]
  refine ⟨hsub.nodup c.nodup_sheet_known, h.distinct, fun k hk l hl hkl => ?_⟩
  have hknown := hsub.subset hk
  rw [sheet_known_keys] at hknown
  exact h.notMem hknown (hkl ▸ hl)

/-- Under a known key stands what the component has there, and in its form. -/
theorem lookup_sheet_members_of_known {key : String} {form : Form}
    (hk : c.kind.known.lookup key = some form) :
    c.sheet.members.lookup key = (c.sheet.known.lookup key).join ∧
      form.held (c.sheet.known.lookup key).join = (c.sheet.known.lookup key).join := by
  have hextra : c.sheet.extra.lookup key = none :=
    Json.lookup_eq_none_of_notMem (h.notMem (Kind.mem_known_iff.2 ⟨form, hk⟩))
  have hheld := c.lookup_sheet_known key
  rw [hk, Option.map_some] at hheld
  refine ⟨by rw [lookup_sheet_members, hextra, Option.or_none], ?_⟩
  conv_rhs => rw [hheld]
  rfl

theorem held_of_mem_sheet_members {m : String × Value} (hm : m ∈ c.sheet.members) {form : Form}
    (hk : c.kind.known.lookup m.1 = some form) : form.held (some m.2) = some m.2 := by
  obtain ⟨hmembers, hheld⟩ := lookup_sheet_members_of_known h hk
  rw [Json.lookup_of_mem (nodup_sheet_members h) hm] at hmembers
  rwa [← hmembers] at hheld

theorem unknown_sheet_members :
    Sheet.unknown c.kind c.sheet.members = c.sheet.extra.map fun m => (m.1, m.2.tidy) := by
  rw [Sheet.unknown, Sheet.members, List.filter_append, List.filter_eq_nil_iff.2,
    List.filter_eq_self.2, List.nil_append]
  · intro m hm
    cases hk : c.kind.known.lookup m.1 with
    | none => rfl
    | some form => exact absurd (Kind.mem_known_iff.2 ⟨form, hk⟩) (h.unknown m hm)
  · intro m hm
    have hknown := (Json.keys_filterMap c.sheet.known).subset (List.mem_map_of_mem hm)
    rw [sheet_known_keys] at hknown
    obtain ⟨form, hk⟩ := Kind.mem_known_iff.1 hknown
    rw [hk]
    exact Bool.false_ne_true

/-- **The sheet of a component is read as that component.** -/
theorem ofValue_sheet : ofValue c.kind c.sheet.toValue = .ok c := by
  -- The attributes are in normal form already, so to enter them changes nothing.
  have hn : ∀ m ∈ c.sheet.members, ∀ form, c.kind.known.lookup m.1 = some form →
      form.normal m.2.tidy = .ok (some m.2) := by
    intro m hm form hk
    obtain ⟨htidy, hnormal⟩ := Form.normal_of_held (held_of_mem_sheet_members h hm hk)
    rw [htidy, hnormal]
  obtain ⟨s, hs⟩ : ∃ s, ({} : Sheet).enterAll c.kind c.sheet.members = .ok s :=
    Sheet.exists_enterAll (nodup_sheet_members h) (fun _ _ => rfl)
      fun m hm form hk => ⟨some m.2, hn m hm form hk⟩
  have hsheet : ofSheet c.kind s = ofSheet c.kind c.sheet := by
    refine ofSheet_congr (fun key hkey => ?_) ?_
    · obtain ⟨form, hk⟩ := Kind.mem_known_iff.1 hkey
      have hlookup := Sheet.lookup_known_of_enterAll hk rfl hs
      rw [← (lookup_sheet_members_of_known h hk).1]
      cases hm : c.sheet.members.lookup key with
      | none =>
        rw [hm] at hlookup
        rw [hlookup]
        rfl
      | some v =>
        rw [hm] at hlookup
        obtain ⟨v?, hv, hlookup⟩ := hlookup
        rw [hn (key, v) (Json.mem_of_lookup hm) form hk] at hv
        rw [hlookup, ← Except.ok.inj hv]
        rfl
    · rw [Sheet.extra_of_enterAll hs, unknown_sheet_members h]
      exact h.putAll_eq
  rw [Sheet.toValue_eq]
  exact ofValue_eq_ok_iff.2 ⟨_, s, rfl, hs, hsheet.trans (ofSheet_sheet c)⟩

end Saved

end Component

/-! ## Nodes and edges -/

/-- Members that are put together are carried along if none of their keys is known. -/
theorem carried_extraOf {levels : Nat} {known : List String} {ms : List (String × Value)}
    {p : String × Value → Bool} (hp : ∀ m, p m = true → m.1 ∉ known)
    (hwithin : ∀ m ∈ ms, m.2.Within levels) :
    Carried levels known (extraOf (ms.filter p)) :=
  carried_putAll (fun m hm => hp m (List.mem_filter.1 hm).2)
    fun m hm => hwithin m (List.mem_of_mem_filter hm)

namespace Node

/-- The keys a node knows. -/
def knownKeys : List String := ["id", "position", "type", "data"]

/-- What a node carries along, in its sheet and beside it. -/
structure Kept (levels : Nat) (n : Node) : Prop where
  component : Carried levels n.component.knownKeys n.component.sheet.extra
  extra : Carried (levels + 1) knownKeys n.extra

theorem kept_of_ofValue {levels : Nat} {v : Value} {n : Node} (hv : v.Within (levels + 2))
    (h : ofValue? v = some n) : n.Kept levels := by
  obtain ⟨ms, rfl, hms⟩ := readFrom_of_ofValue h
  obtain ⟨tag, sheet, -, hdata, -, hsheet⟩ := hms.parts
  refine ⟨Component.carried_of_ofValue (hv _ hdata) hsheet, hms.extra ▸
    carried_extraOf (fun m hm hk => ?_) hv⟩
  rw [Bool.and_eq_true, isLate_eq_true_iff, Bool.not_eq_true', ← Bool.not_eq_true,
    Component.isPart_eq_true_iff] at hm
  simp only [knownKeys, List.mem_cons, List.not_mem_nil, or_false] at hk
  rcases hk with hk | hk | hk | hk
  · exact hm.1.1 hk
  · exact hm.1.2 hk
  · exact hm.2 (.inl hk)
  · exact hm.2 (.inr hk)

end Node

namespace Edge

/-- The keys an edge knows. -/
def knownKeys : List String := ["id", "source", "target"]

theorem carried_of_ofValue {levels : Nat} {v : Value} {e : Edge} (hv : v.Within (levels + 1))
    (h : ofValue? v = some e) : Carried levels knownKeys e.extra := by
  obtain ⟨ms, rfl, hms⟩ := readFrom_of_ofValue h
  refine hms.extra ▸ carried_extraOf (fun m hm hk => ?_) hv
  rw [isLate_eq_true_iff] at hm
  simp only [knownKeys, List.mem_cons, List.not_mem_nil, or_false] at hk
  rcases hk with hk | hk | hk
  · exact hm.1 hk
  · exact hm.2.1 hk
  · exact hm.2.2 hk

end Edge

/-! ## Graphs -/

namespace Graph

/-- What the nodes and edges of a chart carry along. -/
structure Kept (levels : Nat) (g : Graph) : Prop where
  nodes : ∀ n ∈ g.nodes, n.Kept levels
  edges : ∀ e ∈ g.edges, Carried (levels + 1) Edge.knownKeys e.extra

/-- What has been read of a chart so far is kept. -/
structure KeptSoFar (levels : Nat) (st : Option (List Node) × Option (List Edge)) : Prop where
  nodes : ∀ nodes, st.1 = some nodes → ∀ n ∈ nodes, n.Kept levels
  edges : ∀ edges, st.2 = some edges → ∀ e ∈ edges, Carried (levels + 1) Edge.knownKeys e.extra

theorem KeptSoFar.step {levels : Nat} {st st' : Option (List Node) × Option (List Edge)}
    {key : String} {v : Value} (hst : KeptSoFar levels st) (hv : v.Within (levels + 3))
    (h : Graph.step st key v = some st') : KeptSoFar levels st' := by
  rw [Graph.step] at h
  split_ifs at h
  · obtain ⟨-, nodes, hnodes, rfl⟩ := once_eq_some_iff.1 h
    refine ⟨fun _ heq => ?_, hst.edges⟩
    cases heq
    exact decodeItems_forall hv Node.kept_of_ofValue hnodes
  · obtain ⟨-, edges, hedges, rfl⟩ := once_eq_some_iff.1 h
    refine ⟨hst.nodes, fun _ heq => ?_⟩
    cases heq
    exact decodeItems_forall hv Edge.carried_of_ofValue hedges
  · cases h
    exact hst

/-- **A chart that was read carries along only what it may.** -/
theorem kept_of_ofValue {levels : Nat} {v : Value} {g : Graph} (hv : v.Within (levels + 4))
    (h : ofValue? v = some g) : g.Kept levels := by
  have hstart : KeptSoFar levels (none, none) := ⟨by rintro _ ⟨⟩, by rintro _ ⟨⟩⟩
  obtain ⟨st, hst, hfinish⟩ := decodeTuple_preserves hv
    (fun _ _ hw hst hstep => hst.step hw hstep) h hstart
  cases hfinish
  refine ⟨?_, ?_⟩
  · cases hnodes : st.1 with
    | none => simp
    | some nodes => exact hst.nodes nodes hnodes
  · cases hedges : st.2 with
    | none => simp
    | some edges => exact hst.edges edges hedges

end Graph

/-! ## Depth -/

theorem Position.within_toValue (levels : Nat) (p : Position) :
    p.toValue.Within (levels + 1) := by
  rintro m hm
  simp only [List.mem_cons, List.not_mem_nil, or_false] at hm
  rcases hm with rfl | rfl <;> cases levels <;> trivial

theorem Form.within_of_held {form : Form} {v? : Option Value} {v : Value}
    (h : form.held v? = some v) (levels : Nat) : v.Within levels := by
  cases form with
  | text =>
    obtain ⟨s, -, rfl⟩ := Option.map_eq_some_iff.1 h
    cases levels <;> trivial
  | flag =>
    obtain ⟨b, -, rfl⟩ := Option.map_eq_some_iff.1 h
    cases levels <;> trivial

theorem Component.within_sheet {levels : Nat} {c : Component}
    (h : Carried levels c.knownKeys c.sheet.extra) : c.sheet.toValue.Within (levels + 1) := by
  intro m hm
  cases hk : c.kind.known.lookup m.1 with
  | some form => exact Form.within_of_held (held_of_mem_sheet_members h hm hk) levels
  | none => exact h.within m (mem_extra_of_unknown hm hk)

theorem Node.within_toValue {levels : Nat} {n : Node} (h : n.Kept levels) :
    n.toValue.Within (levels + 2) := by
  intro m hm
  rcases List.mem_append.1 hm with hm | hm
  · simp only [Component.members, List.cons_append, List.nil_append, List.mem_cons,
      List.not_mem_nil, or_false] at hm
    rcases hm with rfl | rfl | rfl | rfl
    · trivial
    · exact n.position.within_toValue levels
    · trivial
    · exact Component.within_sheet h.component
  · exact h.extra.within m hm

theorem Edge.within_toValue {levels : Nat} {e : Edge} (h : Carried levels knownKeys e.extra) :
    e.toValue.Within (levels + 1) := by
  intro m hm
  rcases List.mem_append.1 hm with hm | hm
  · simp only [List.mem_cons, List.not_mem_nil, or_false] at hm
    rcases hm with rfl | rfl | rfl <;> cases levels <;> trivial
  · exact h.within m hm

/-- **What is saved nests no deeper than what was read.** -/
theorem Graph.within_toValue {levels : Nat} {g : Graph} (h : g.Kept levels) :
    g.toValue.Within (levels + 4) := by
  intro m hm
  simp only [List.mem_cons, List.not_mem_nil, or_false] at hm
  rcases hm with rfl | rfl
  · intro v hv
    obtain ⟨n, hn, rfl⟩ := List.mem_map.1 hv
    exact Node.within_toValue (h.nodes n hn)
  · intro v hv
    obtain ⟨e, he, rfl⟩ := List.mem_map.1 hv
    exact Edge.within_toValue (h.edges e he)

end CrewChart

import CrewChart.Proofs.Graph.RoundTrip

/-!
# What loading and saving make of a document

A document is not saved as it was typed in: what stands beside the nodes and the edges is dropped,
a position is left with its two coordinates, and the known attributes of a component are brought
into their form.  `Graph.normalised` says so, as a function of the value of the document, and
`Graph.save_normalised` says that this is all: the saved text has exactly this value, up to the
order of the members of its objects.

The proof compares two objects key by key (`Value.tidy_object_eq`), first for a position and a
sheet, then for a node and an edge, then for the chart.

## What is here

* `Position.normalised`, `Kind.normalised`, `Node.normalised`, `Graph.normalised` — what is made of
  a document;
* `Graph.Ordinary` — the documents this is said of;
* `Graph.tidy_toValue` — a chart that was read is saved as its document, normalised;
* `Graph.save_normalised` — the same of texts.
-/

set_option autoImplicit false

namespace CrewChart

open Json (Value Attributes Reader ReadsBack)
open Json.Reader (decodeItems decodeItems_eq_some_iff map_eq_of_forall₂)

/-! ## The normalised document -/

namespace Json.Value

/-- The items of an array. -/
def items : Value → List Value
  | .array items => items
  | _ => []

/-- An array item by item; anything else as it is. -/
def mapItems (f : Value → Value) : Value → Value
  | .array items => .array (items.map f)
  | v => v

theorem mapItems_id (v : Value) : v.mapItems id = v := by
  cases v <;> simp [mapItems]

/-- A number as a binary64 number; anything else as it is. -/
def asBinary64 : Value → Value
  | .number n => .number (.float n.nearest)
  | v => v

end Json.Value

/-- A position keeps its two coordinates, as binary64 numbers. -/
def Position.normalised : Value → Value
  | .object ms =>
    .object ((ms.filter fun m => m.1 == "x" || m.1 == "y").map fun m => (m.1, m.2.asBinary64))
  | v => v

/-- A known attribute is left out if it is `null`.  A number or a boolean stands for its text, and a
text for a flag if it spells one. -/
def Form.normalised : Form → Value → Option Value
  | _, .null => none
  | .text, .number n => some (.string n.text)
  | .text, .boolean b => some (.string (toString b))
  | .flag, .string s =>
    if s = "true" then some (.boolean true)
    else if s = "false" ∨ s = "" then some (.boolean false)
    else some (.string s)
  | _, v => some v

namespace Kind

/-- An attribute that is not known is kept as it is. -/
def normalisedAttribute (kind : Kind) (key : String) (v : Value) : Option Value :=
  match kind.known.lookup key with
  | some form => form.normalised v
  | none => some v

theorem normalisedAttribute_of_unknown {kind : Kind} {key : String}
    (h : kind.known.lookup key = none) : kind.normalisedAttribute key = some := by
  funext v
  rw [normalisedAttribute, h]

/-- The sheet of a component of this kind, attribute by attribute. -/
def normalised (kind : Kind) : Value → Value
  | .object ms => .ofFields (ms.map fun m => (m.1, kind.normalisedAttribute m.1 m.2))
  | v => v

end Kind

namespace Node

/-- The kind that the members of a node name. -/
def kind? (ms : List (String × Value)) : Option Kind :=
  ((ms.lookup "type").bind Value.string?).bind fun s => Kind.named.lookup s

/-- Position and sheet are normalised; any other member is kept as it is. -/
def normalisedMember (kind? : Option Kind) (key : String) (v : Value) : Value :=
  if key = "position" then Position.normalised v
  else if key = "data" then kind?.elim v (·.normalised v)
  else v

theorem normalisedMember_of_ne {k? : Option Kind} {key : String} (hposition : key ≠ "position")
    (hdata : key ≠ "data") : normalisedMember k? key = fun v => v := by
  funext v
  rw [normalisedMember, if_neg hposition, if_neg hdata]

/-- A node without a position is at the origin. -/
def normalised : Value → Value
  | .object ms =>
    .object ((ms.map fun m => (m.1, normalisedMember (kind? ms) m.1 m.2)) ++
      if (ms.lookup "position").isSome then [] else [("position", Position.origin.toValue)])
  | v => v

/-- The kind of a node is a text, and its position, if it has one, an object. -/
def Ordinary (v : Value) : Prop :=
  (∃ s, v.member? "type" = some (.string s)) ∧
    ∀ p, v.member? "position" = some p → ∃ ms, p = .object ms

end Node

namespace Graph

/-- Of a document only the nodes and the edges are kept; either may be left out. -/
def normalised : Value → Value
  | .object ms => .object [
    ("nodes", ((ms.lookup "nodes").getD (.array [])).mapItems Node.normalised),
    ("edges", (ms.lookup "edges").getD (.array []))]
  | v => v

/-- A document that is an object, as are the positions in it, where kinds are given by their names
and no key is repeated. -/
structure Ordinary (v : Value) : Prop where
  object : ∃ ms, v = .object ms
  distinct : v.DistinctKeys
  nodes : ∀ n ∈ ((v.member? "nodes").getD .null).items, Node.Ordinary n

end Graph

/-! ## Positions -/

theorem Json.Value.asBinary64_of_binary64? {v : Value} {x : Binary64}
    (h : v.binary64? = some x) : v.asBinary64 = .number (.float x) := by
  cases v with
  | number n => rw [← Option.some.inj h]; rfl
  | _ => cases h

theorem Position.tidy_toValue {ms : List (String × Value)} {p : Position}
    (hms : (ms.map Prod.fst).Nodup) (h : ofValue? (.object ms) = some p) :
    p.toValue.tidy = (normalised (.object ms)).tidy := by
  obtain ⟨⟨v, hx, hv⟩, w, hy, hw⟩ := members_of_ofValue h
  refine Value.tidy_object_eq (by simp) ?_ fun k => congrArg _ ?_
  · rw [Json.keys_map fun _ (v : Value) => v.asBinary64]
    exact Json.nodup_filter hms _
  · rw [Json.lookup_map (fun _ (v : Value) => v.asBinary64),
      Json.lookup_filter fun k => k == "x" || k == "y", Json.lookup_cons_eq, Json.lookup_cons_eq]
    by_cases hkx : k = "x"
    · rw [hkx, if_pos rfl, hx]
      exact congrArg some (Value.asBinary64_of_binary64? hv).symm
    · by_cases hky : k = "y"
      · rw [hky, if_neg (by simp), if_pos rfl, hy]
        exact congrArg some (Value.asBinary64_of_binary64? hw).symm
      · rw [if_neg hkx, if_neg hky, if_neg (by simp [hkx, hky])]
        rfl

/-! ## Sheets -/

/-- The form of a value is its normal form, as far as it has one. -/
theorem Form.normalised_of_normal {form : Form} {v : Value} {v? : Option Value}
    (h : form.normal v.tidy = .ok v?) : (form.normalised v).map Value.tidy = v?.map Value.tidy := by
  cases v with
  | array items => cases form <;> cases h
  | object members => cases form <;> cases h
  | string s =>
    cases form with
    | text => cases h; rfl
    | flag =>
      rw [Value.tidy, normal] at h
      rw [normalised]
      split_ifs at h ⊢
      · cases h; rfl
      · cases h; rfl
  | number n =>
    cases form with
    | text => cases h; rfl
    | flag => cases h
  | boolean b => cases form <;> (cases h; rfl)
  | null => cases form <;> (cases h; rfl)

theorem lookup_extraOf {ms : List (String × Value)} (hms : (ms.map Prod.fst).Nodup)
    {p : String → Bool} {k : String} (hk : p k = true) :
    (extraOf (ms.filter fun m => p m.1)).lookup k = (ms.lookup k).map Value.tidy := by
  rw [extraOf, Attributes.ofMembers_eq, Attributes.lookup_putAll, List.append_nil,
    Json.lookup_reverse, Json.lookup_map fun _ => Value.tidy, Json.lookup_filter, if_pos hk]
  rw [Json.keys_map fun _ => Value.tidy]
  exact Json.nodup_filter hms _

/-- **What is carried along under a key is what was there.** -/
theorem tidy_lookup_extraOf {ms : List (String × Value)} (hms : (ms.map Prod.fst).Nodup)
    {p : String → Bool} {k : String} (hk : p k = true) :
    ((extraOf (ms.filter fun m => p m.1)).lookup k).map Value.tidy
      = (ms.lookup k).map Value.tidy := by
  rw [lookup_extraOf hms hk]
  cases ms.lookup k with
  | none => rfl
  | some v => exact congrArg some (Value.tidy_tidy v)

namespace Kind

/-- The members of a normalised sheet. -/
def normalisedMembers (kind : Kind) (ms : List (String × Value)) : List (String × Value) :=
  (ms.map fun m => (m.1, kind.normalisedAttribute m.1 m.2)).filterMap fun m => m.2.map (m.1, ·)

theorem normalised_object (kind : Kind) (ms : List (String × Value)) :
    kind.normalised (.object ms) = .object (kind.normalisedMembers ms) := rfl

variable {kind : Kind} {ms : List (String × Value)} (hms : (ms.map Prod.fst).Nodup)
include hms

theorem nodup_map_attribute :
    ((ms.map fun m => (m.1, kind.normalisedAttribute m.1 m.2)).map Prod.fst).Nodup := by
  rw [Json.keys_map kind.normalisedAttribute]
  exact hms

theorem nodup_normalisedMembers : ((kind.normalisedMembers ms).map Prod.fst).Nodup :=
  (Json.keys_filterMap _).nodup (nodup_map_attribute hms)

theorem lookup_normalisedMembers (k : String) :
    (kind.normalisedMembers ms).lookup k
      = (ms.lookup k).bind (kind.normalisedAttribute k) := by
  rw [normalisedMembers, Json.lookup_filterMap (nodup_map_attribute hms),
    Json.lookup_map kind.normalisedAttribute]
  cases ms.lookup k <;> rfl

end Kind

namespace Component

/-- What is saved under a key is what was filled in there. -/
theorem lookup_sheet_ofSheet (kind : Kind) (s : Sheet) (k : String) :
    (ofSheet kind s).sheet.members.lookup k
      = ((kind.known.lookup k).bind fun form => form.held (s.known.lookup k).join).or
        (s.extra.lookup k) := by
  rw [lookup_sheet_members, sheet_ofSheet_known, sheet_ofSheet_extra,
    Json.lookup_map fun key (form : Form) => form.held (s.known.lookup key).join]
  cases kind.known.lookup k <;> rfl

section Entered

variable {kind : Kind} {ms : List (String × Value)} {s : Sheet} {k : String}
  (hs : ({} : Sheet).enterAll kind ms = .ok s)
include hs

theorem tidy_lookup_unknown (hms : (ms.map Prod.fst).Nodup) (hk : kind.known.lookup k = none) :
    (s.extra.lookup k).map Value.tidy
      = ((ms.lookup k).bind (kind.normalisedAttribute k)).map Value.tidy := by
  have hextra : s.extra = extraOf (ms.filter fun m => (kind.known.lookup m.1).isNone) :=
    Sheet.extra_of_enterAll hs
  have hunknown : (kind.known.lookup k).isNone = true := by rw [hk]; rfl
  rw [hextra, tidy_lookup_extraOf hms (p := fun k => (kind.known.lookup k).isNone) hunknown,
    Kind.normalisedAttribute_of_unknown hk, Option.bind_fun_some]

/-- Under a known key stands the normal form of what was given there. -/
theorem tidy_lookup_known {form : Form} (hk : kind.known.lookup k = some form) :
    (form.held (s.known.lookup k).join).map Value.tidy
      = ((ms.lookup k).bind (kind.normalisedAttribute k)).map Value.tidy := by
  have hknown := Sheet.lookup_known_of_enterAll hk rfl hs
  cases hv : ms.lookup k with
  | none =>
    rw [hv] at hknown
    rw [hknown]
    cases form <;> rfl
  | some v =>
    rw [hv] at hknown
    obtain ⟨v?, hnormal, hknown⟩ := hknown
    rw [hknown, Option.bind_some, Kind.normalisedAttribute, hk]
    show (form.held v?).map Value.tidy = (form.normalised v).map Value.tidy
    rw [Form.held_of_normal hnormal, Form.normalised_of_normal hnormal]

end Entered

/-- **A sheet is saved as it was given**, normalised. -/
theorem tidy_sheet {levels : Nat} {kind : Kind} {ms : List (String × Value)}
    {c : Component} (hms : (ms.map Prod.fst).Nodup)
    (hc : Carried levels c.knownKeys c.sheet.extra) (h : ofValue kind (.object ms) = .ok c) :
    c.sheet.toValue.tidy = (kind.normalised (.object ms)).tidy := by
  rw [Sheet.toValue_eq, Kind.normalised_object]
  refine Value.tidy_object_eq (nodup_sheet_members hc) (Kind.nodup_normalisedMembers hms)
    fun k => ?_
  obtain ⟨_, s, hobject, hs, rfl⟩ := ofValue_eq_ok_iff.1 h
  cases hobject
  rw [Kind.lookup_normalisedMembers hms, lookup_sheet_ofSheet]
  cases hk : kind.known.lookup k with
  | none =>
    rw [Option.bind_none, Option.none_or]
    exact tidy_lookup_unknown hs hms hk
  | some form =>
    have hextra : s.extra.lookup k = none := by
      rw [← sheet_ofSheet_extra kind s]
      refine Json.lookup_eq_none_of_notMem (hc.notMem (Kind.mem_known_iff.2 ⟨form, ?_⟩))
      rw [kind_ofSheet, hk]
    rw [hextra, Option.or_none]
    exact tidy_lookup_known hs hk

end Component

/-! ## Nodes -/

theorem Kind.eq_name_of_ofValue {s : String} {kind : Kind} (h : ofValue (.string s) = .ok kind) :
    s = kind.name ∧ named.lookup s = some kind := by
  rw [ofValue, ofValue.ofName] at h
  cases hs : named.lookup s with
  | none => rw [hs] at h; cases h
  | some k =>
    rw [hs] at h
    cases h
    obtain ⟨l, -, hl⟩ := List.mem_map.1 (Json.mem_of_lookup hs)
    cases hl
    exact ⟨rfl, rfl⟩

namespace Node

/-- The members that are saved of a node. -/
def savedMembers (n : Node) : List (String × Value) :=
  ("id", .string n.id) :: ("position", n.position.toValue) ::
    ("type", .string n.component.kind.name) :: ("data", n.component.sheet.toValue) :: n.extra

theorem toValue_eq (n : Node) : n.toValue = .object n.savedMembers := rfl

theorem nodup_savedMembers {levels : Nat} {n : Node} (h : n.Kept levels) :
    (n.savedMembers.map Prod.fst).Nodup := by
  have hkeys : n.savedMembers.map Prod.fst = knownKeys ++ n.extra.map Prod.fst := rfl
  rw [hkeys, List.nodup_append]
  exact ⟨by decide, h.extra.distinct, fun k hk l hl hkl => h.extra.notMem hk (hkl ▸ hl)⟩

theorem lookup_savedMembers (n : Node) (k : String) :
    n.savedMembers.lookup k =
      if k = "id" then some (.string n.id)
      else if k = "position" then some n.position.toValue
      else if k = "type" then some (.string n.component.kind.name)
      else if k = "data" then some n.component.sheet.toValue
      else n.extra.lookup k := by
  rw [savedMembers, Json.lookup_cons_eq, Json.lookup_cons_eq, Json.lookup_cons_eq,
    Json.lookup_cons_eq]

/-- The members of a normalised node. -/
def normalisedMembers (ms : List (String × Value)) : List (String × Value) :=
  (ms.map fun m => (m.1, normalisedMember (kind? ms) m.1 m.2)) ++
    if (ms.lookup "position").isSome then [] else [("position", Position.origin.toValue)]

theorem normalised_object (ms : List (String × Value)) :
    normalised (.object ms) = .object (normalisedMembers ms) := rfl

section

variable {ms : List (String × Value)} (hms : (ms.map Prod.fst).Nodup)
include hms

theorem nodup_normalisedMembers : ((normalisedMembers ms).map Prod.fst).Nodup := by
  rw [normalisedMembers, List.map_append, Json.keys_map (normalisedMember (kind? ms))]
  cases hp : ms.lookup "position" with
  | some v =>
    rw [if_pos Option.isSome_some, List.map_nil, List.append_nil]
    exact hms
  | none =>
    rw [if_neg (by simp), List.nodup_append]
    refine ⟨hms, List.nodup_singleton _, fun k hk l hl hkl => ?_⟩
    have hkey : k = "position" := hkl.trans (List.mem_singleton.1 hl)
    obtain ⟨m, hm, rfl⟩ := List.mem_map.1 hk
    rw [← hkey, Json.lookup_of_mem hms hm] at hp
    cases hp

end

/-- Under every key but `position` there is what was there. -/
theorem lookup_normalisedMembers {ms : List (String × Value)} {k : String} (hk : k ≠ "position") :
    (normalisedMembers ms).lookup k = (ms.lookup k).map (normalisedMember (kind? ms) k) := by
  rw [normalisedMembers, List.lookup_append, Json.lookup_map (normalisedMember (kind? ms))]
  cases ms.lookup k with
  | some v => rfl
  | none =>
    split_ifs
    · rfl
    · rw [Json.lookup_cons_eq, if_neg hk]
      rfl

theorem lookup_position_normalisedMembers (ms : List (String × Value)) :
    (normalisedMembers ms).lookup "position"
      = some ((ms.lookup "position").elim Position.origin.toValue Position.normalised) := by
  rw [normalisedMembers, List.lookup_append, Json.lookup_map (normalisedMember (kind? ms))]
  cases ms.lookup "position" <;> rfl

/-- A position that is left out is the origin, in the node as in the document. -/
theorem tidy_position {ms : List (String × Value)} {n : Node}
    (hdistinct : ∀ m ∈ ms, m.2.DistinctKeys)
    (hobject : ∀ p, ms.lookup "position" = some p → ∃ ps, p = .object ps) (h : n.ReadFrom ms) :
    n.position.toValue.tidy
      = ((ms.lookup "position").elim Position.origin.toValue Position.normalised).tidy := by
  have hread := h.position
  cases hp : ms.lookup "position" with
  | none =>
    rw [hp] at hread
    rw [← Option.some.inj hread]
    rfl
  | some p =>
    rw [hp] at hread
    obtain ⟨ps, rfl⟩ := hobject p hp
    exact Position.tidy_toValue
      (Value.distinctKeys_object_iff.1 (hdistinct _ (Json.mem_of_lookup hp))).1 hread

/-- **A node is saved as it was given**, normalised. -/
theorem tidy_toValue {levels : Nat} {ms : List (String × Value)} {n : Node}
    (hdistinct : (Value.object ms).DistinctKeys) (hordinary : Ordinary (.object ms))
    (hkept : n.Kept levels) (h : n.ReadFrom ms) :
    n.toValue.tidy = (normalised (.object ms)).tidy := by
  obtain ⟨hms, hvs⟩ := Value.distinctKeys_object_iff.1 hdistinct
  obtain ⟨⟨s, htype⟩, hposition⟩ := hordinary
  obtain ⟨tag, sheet, htagmem, hdatamem, hkind, hsheet⟩ := h.parts
  have htag : ms.lookup "type" = some tag := Json.lookup_of_mem hms htagmem
  have hdata : ms.lookup "data" = some sheet := Json.lookup_of_mem hms hdatamem
  cases htag.symm.trans htype
  obtain ⟨rfl, hnamed⟩ := Kind.eq_name_of_ofValue hkind
  have hkind? : kind? ms = some n.component.kind := by
    rw [kind?, htag]
    exact hnamed
  rw [toValue_eq, normalised_object]
  -- Without repeated keys, objects are told apart by what stands under each key.
  refine Value.tidy_object_eq (nodup_savedMembers hkept) (nodup_normalisedMembers hms) fun k => ?_
  rw [lookup_savedMembers]
  split_ifs with hid hpos htyp hdat
  · rw [hid, lookup_normalisedMembers (by decide), h.id]
    rfl
  · rw [hpos, lookup_position_normalisedMembers]
    exact congrArg some (tidy_position hvs hposition h)
  · rw [htyp, lookup_normalisedMembers (by decide), htag]
    rfl
  · rw [hdat, lookup_normalisedMembers (by decide), hdata, hkind?]
    obtain ⟨ss, -, rfl, -, -⟩ := Component.ofValue_eq_ok_iff.1 hsheet
    exact congrArg some (Component.tidy_sheet
      (Value.distinctKeys_object_iff.1 (hvs _ hdatamem)).1 hkept.component hsheet)
  · have hlate : (isLate k && !Component.isPart k) = true := by
      simp [isLate, Component.isPart, hid, hpos, htyp, hdat]
    rw [lookup_normalisedMembers hpos, h.extra,
      tidy_lookup_extraOf hms (p := fun key => isLate key && !Component.isPart key) hlate,
      normalisedMember_of_ne hpos hdat, Option.map_id']

end Node

/-! ## Edges -/

namespace Edge

/-- The members that are saved of an edge. -/
def savedMembers (e : Edge) : List (String × Value) :=
  ("id", .string e.id) :: ("source", .string e.source) :: ("target", .string e.target) :: e.extra

theorem toValue_eq (e : Edge) : e.toValue = .object e.savedMembers := rfl

theorem nodup_savedMembers {levels : Nat} {e : Edge} (h : Carried levels knownKeys e.extra) :
    (e.savedMembers.map Prod.fst).Nodup := by
  have hkeys : e.savedMembers.map Prod.fst = knownKeys ++ e.extra.map Prod.fst := rfl
  rw [hkeys, List.nodup_append]
  exact ⟨by decide, h.distinct, fun k hk l hl hkl => h.notMem hk (hkl ▸ hl)⟩

theorem lookup_savedMembers (e : Edge) (k : String) :
    e.savedMembers.lookup k =
      if k = "id" then some (.string e.id)
      else if k = "source" then some (.string e.source)
      else if k = "target" then some (.string e.target)
      else e.extra.lookup k := by
  rw [savedMembers, Json.lookup_cons_eq, Json.lookup_cons_eq, Json.lookup_cons_eq]

/-- **An edge is saved as it was given.** -/
theorem tidy_toValue {levels : Nat} {ms : List (String × Value)} {e : Edge}
    (hms : (ms.map Prod.fst).Nodup) (hkept : Carried levels knownKeys e.extra)
    (h : e.ReadFrom ms) : e.toValue.tidy = (Value.object ms).tidy := by
  rw [toValue_eq]
  refine Value.tidy_object_eq (nodup_savedMembers hkept) hms fun k => ?_
  rw [lookup_savedMembers]
  split_ifs with hid hsource htarget
  · rw [hid, h.id]
  · rw [hsource, h.source]
  · rw [htarget, h.target]
  · have hlate : isLate k = true := isLate_eq_true_iff.2 ⟨hid, hsource, htarget⟩
    rw [h.extra, tidy_lookup_extraOf hms hlate]

end Edge

/-! ## Graphs -/

namespace Graph

variable {levels : Nat} {g : Graph}

/-- Items that are read are saved one by one; no array counts as an empty one. -/
theorem tidy_items {α : Type} {decode : Value → Option α} {encode : α → Value}
    {f : Value → Value} {v? : Option Value} {as : List α}
    (h : v?.elim (some []) (decodeItems decode) = some as)
    (hitem : ∀ vs, v? = some (.array vs) → ∀ w ∈ vs, ∀ a ∈ as, decode w = some a →
      (encode a).tidy = (f w).tidy) :
    (Value.array (as.map encode)).tidy = ((v?.getD (.array [])).mapItems f).tidy := by
  cases v? with
  | none =>
    rw [← Option.some.inj h]
    rfl
  | some v =>
    obtain ⟨vs, rfl, hvs⟩ := decodeItems_eq_some_iff.1 h
    show Value.array (Value.tidyItems _) = Value.array (Value.tidyItems _)
    rw [Value.tidyItems_eq_map, Value.tidyItems_eq_map, List.map_map, List.map_map]
    exact congrArg Value.array (map_eq_of_forall₂ hvs (hitem vs rfl))

/-- **A chart is saved as its document**, normalised. -/
theorem tidy_toValue {v : Value} (hordinary : Ordinary v) (hkept : g.Kept levels)
    (h : ofValue? v = some g) : g.toValue.tidy = (normalised v).tidy := by
  obtain ⟨ms, rfl⟩ := hordinary.object
  obtain ⟨hnodes, hedges⟩ := members_of_ofValue h
  -- That keys are distinct in the document says so of each node and each edge in it.
  have hdistinct : ∀ key vs, ms.lookup key = some (.array vs) → ∀ w ∈ vs, w.DistinctKeys :=
    fun key vs hvs => Value.distinctKeys_array_iff.1
      ((Value.distinctKeys_object_iff.1 hordinary.distinct).2 _ (Json.mem_of_lookup hvs))
  have htidynodes : (Value.array (g.nodes.map Node.toValue)).tidy
      = (((ms.lookup "nodes").getD (.array [])).mapItems Node.normalised).tidy := by
    refine tidy_items hnodes fun vs hvs w hw n hn hread => ?_
    obtain ⟨ns, rfl, hns⟩ := Node.readFrom_of_ofValue hread
    refine Node.tidy_toValue (hdistinct _ vs hvs _ hw) (hordinary.nodes _ ?_)
      (hkept.nodes n hn) hns
    rw [Value.member?, hvs]
    exact hw
  have htidyedges : (Value.array (g.edges.map Edge.toValue)).tidy
      = (((ms.lookup "edges").getD (.array [])).mapItems id).tidy := by
    refine tidy_items hedges fun vs hvs w hw e he hread => ?_
    obtain ⟨es, rfl, hes⟩ := Edge.readFrom_of_ofValue hread
    exact Edge.tidy_toValue (Value.distinctKeys_object_iff.1 (hdistinct _ vs hvs _ hw)).1
      (hkept.edges e he) hes
  rw [toValue, normalised, Value.tidy, Value.tidy, Value.tidyMembers, Value.tidyMembers,
    Value.tidyMembers, Value.tidyMembers, htidynodes, htidyedges, Value.mapItems_id]
  rfl

end Graph

/-! ## Repeated keys in what is saved -/

theorem Carried.distinctKeys {levels : Nat} {known : List String} {extra : Attributes}
    (h : Carried levels known extra) {m : String × Value} (hm : m ∈ extra) : m.2.DistinctKeys :=
  h.tidy m hm ▸ Value.distinctKeys_tidy m.2

theorem Component.distinctKeys_sheet {levels : Nat} {c : Component}
    (h : Carried levels c.knownKeys c.sheet.extra) : c.sheet.toValue.DistinctKeys := by
  refine .object (nodup_sheet_members h) fun m hm => ?_
  cases hk : c.kind.known.lookup m.1 with
  | some form =>
    rw [← (Form.normal_of_held (held_of_mem_sheet_members h hm hk)).1]
    exact Value.distinctKeys_tidy m.2
  | none => exact h.distinctKeys (mem_extra_of_unknown hm hk)

theorem Node.distinctKeys_toValue {levels : Nat} {n : Node} (h : n.Kept levels) :
    n.toValue.DistinctKeys := by
  have hposition : n.position.toValue.DistinctKeys :=
    .object (by simp) (by simp [Value.DistinctKeys.number])
  rw [toValue_eq]
  refine .object (nodup_savedMembers h) ?_
  rw [savedMembers]
  simp only [List.forall_mem_cons]
  exact ⟨.string _, hposition, .string _, Component.distinctKeys_sheet h.component,
    fun m hm => h.extra.distinctKeys hm⟩

theorem Edge.distinctKeys_toValue {levels : Nat} {e : Edge}
    (h : Carried levels knownKeys e.extra) : e.toValue.DistinctKeys := by
  rw [toValue_eq]
  refine .object (nodup_savedMembers h) ?_
  rw [savedMembers]
  simp only [List.forall_mem_cons]
  exact ⟨.string _, .string _, .string _, fun m hm => h.distinctKeys hm⟩

namespace Graph

variable {levels : Nat} {g : Graph}

/-- **Nothing is saved twice.** -/
theorem distinctKeys_toValue (h : g.Kept levels) : g.toValue.DistinctKeys := by
  refine .object (by simp) (List.forall_mem_cons.2 ⟨.array fun v hv => ?_,
    List.forall_mem_cons.2 ⟨.array fun v hv => ?_, fun _ h => by cases h⟩⟩)
  · obtain ⟨n, hn, rfl⟩ := List.mem_map.1 hv
    exact Node.distinctKeys_toValue (h.nodes n hn)
  · obtain ⟨e, he, rfl⟩ := List.mem_map.1 hv
    exact Edge.distinctKeys_toValue (h.edges e he)

/-! ## Texts -/

/-- **Loading and saving normalises a document, and does nothing else to it.**  The document is the
value in the text; where the text holds more than a value can, which is only where it is passed
over, there is `null`. -/
theorem save_normalised {text : String} (h : parse text = .ok g)
    (hfloat : ∀ x, g.toValue.HasFloat x → ReadsBack x) :
    ∃ v, (Reader.lenient Reader.maxLevels).read text = .ok v ∧
      (∀ u, (Reader.value Reader.maxLevels).read text = .ok u → u = v) ∧
      (Ordinary v → ∃ w, (Reader.value Reader.maxLevels).read g.save = .ok w ∧
        w.DistinctKeys ∧ w.tidy = (normalised v).tidy) := by
  obtain ⟨v, hv, hg⟩ := exists_value_of_parse h
  have hkept := kept_of_parse h
  refine ⟨v, hv, fun u hu => ?_, fun hordinary => ⟨g.toValue, read_save hkept hfloat,
    distinctKeys_toValue hkept, tidy_toValue hordinary hkept hg⟩⟩
  rw [Json.Reader.read_lenient_of_value hu] at hv
  exact Except.ok.inj hv

theorem ordinary_typed : Ordinary typed where
  object := ⟨_, rfl⟩
  distinct := by simp [typed, Value.ofNat]
  nodes := by
    rintro n (_ | ⟨_, ⟨⟩⟩)
    exact ⟨⟨"task", rfl⟩, fun p hp => ⟨_, (Option.some.inj hp).symm⟩⟩

theorem save_normalised_typed : parse typed.compact = .ok typedChart ∧
    ∃ w, (Reader.value Reader.maxLevels).read typedChart.save = .ok w ∧
      w.DistinctKeys ∧ w.tidy = (normalised typed).tidy := by
  obtain ⟨v, -, hvalue, hsave⟩ := save_normalised parse_typed fun x hx => readsBack_of_typedChart hx
  obtain rfl := hvalue typed read_typed
  exact ⟨parse_typed, hsave ordinary_typed⟩

end Graph

end CrewChart

import CrewChart.Graph.Store
import CrewChart.Proofs.Graph.Carried
import CrewChart.Proofs.Json.Written

/-!
# Saving a chart and loading it again

What is saved of a chart is read as that chart.  On values this is `Graph.ofValue?_toValue`, which
needs to know of the chart only that it carries along what it may (`Graph.Kept`); every chart that
was read is like this.  On texts it is `Graph.parse_save`, which also needs the saved value to be
no deeper than a reader goes, and its binary64 numbers to be read back as they were printed: a
number is printed with the fewest digits that round to it, but is read in steps, each of which
rounds.

## What is here

* `Node.ofValue?_toValue`, `Edge.ofValue?_toValue`, `Graph.ofValue?_toValue` — the round trip of
  values;
* `Graph.parse_save`, `Graph.loadText_save` — the round trip of texts.
-/

set_option autoImplicit false

namespace CrewChart

open Json (Value Number Reader ReadsBack read_write)
open Json.Reader (takeAll takeAll_cons_iff takeAll_all_later toOption_eq_some_iff once_eq_some_iff
  decodeItems mapM_eq_some_iff read_iff within_of_run_lenient)

theorem Kind.ofValue_name (kind : Kind) : ofValue (.string kind.name) = .ok kind := by
  cases kind <;> decide

/-! ## Nodes -/

namespace Node

variable {levels : Nat} {n : Node}

/-- A node of which only some members for later have not been read yet. -/
def drafted (n : Node) (later : List (String × Value)) : Draft :=
  { id := some n.id, position := some n.position, later }

theorem late_of_mem_members {m : String × Value} (hm : m ∈ n.component.members) :
    isLate m.1 = true ∧ Component.isPart m.1 = true := by
  simp only [Component.members, List.mem_cons, List.not_mem_nil, or_false] at hm
  rcases hm with rfl | rfl <;> exact ⟨rfl, rfl⟩

theorem late_of_mem_extra (h : n.Kept levels) {m : String × Value} (hm : m ∈ n.extra) :
    isLate m.1 = true ∧ ¬ Component.isPart m.1 = true := by
  have hkeys := h.extra.unknown m hm
  simp only [knownKeys, List.mem_cons, List.not_mem_nil, or_false, not_or] at hkeys
  obtain ⟨hid, hposition, htype, hdata⟩ := hkeys
  rw [isLate_eq_true_iff, Component.isPart_eq_true_iff]
  exact ⟨⟨hid, hposition⟩, not_or.2 ⟨htype, hdata⟩⟩

/-- Of the members that are kept for later, two make the component. -/
theorem filter_isPart (h : n.Kept levels) :
    (n.component.members ++ n.extra).filter (Component.isPart ·.1) = n.component.members ∧
      (n.component.members ++ n.extra).filter (fun m => !Component.isPart m.1) = n.extra := by
  rw [List.filter_append, List.filter_append]
  have hmembers : ∀ m ∈ n.component.members, Component.isPart m.1 = true := fun m hm =>
    (late_of_mem_members hm).2
  have hextra : ∀ m ∈ n.extra, ¬ Component.isPart m.1 = true := fun m hm =>
    (late_of_mem_extra h hm).2
  constructor
  · rw [List.filter_eq_self.2 hmembers, List.filter_eq_nil_iff.2 hextra, List.append_nil]
  · rw [List.filter_eq_nil_iff.2 fun m hm => by rw [hmembers m hm]; exact Bool.false_ne_true,
      List.filter_eq_self.2 fun m hm => by rw [Bool.eq_false_of_not_eq_true (hextra m hm)]; rfl,
      List.nil_append]

/-- **A node is read from what is saved of it.** -/
theorem ofValue?_toValue (h : n.Kept levels) : ofValue? n.toValue = some n := by
  -- Id and position come first; every member after them is only collected.
  have hlater : ∀ later, ∀ m ∈ n.component.members ++ n.extra,
      step (n.drafted later) m.1 m.2 = some (n.drafted (m :: later)) := by
    intro later m hm
    have hlate : isLate m.1 = true := (List.mem_append.1 hm).elim
      (fun hm => (late_of_mem_members hm).1) fun hm => (late_of_mem_extra h hm).1
    obtain ⟨hid, hposition⟩ := isLate_eq_true_iff.1 hlate
    rw [step, if_neg hid, if_neg hposition]
    rfl
  have htake := takeAll_all_later hlater []
  rw [List.append_nil] at htake
  have hfinish : (shape 0).finish (n.drafted (n.component.members ++ n.extra).reverse) = .ok n := by
    obtain ⟨hparts, hextra⟩ := filter_isPart h
    refine finish_eq_ok_iff.2 ⟨rfl, rfl, ?_, ?_⟩
    · show Component.ofMembers (n.component.members ++ n.extra).reverse.reverse = _
      rw [List.reverse_reverse]
      exact Component.ofMembers_eq_ok_iff.2 ⟨_, _, n.component.kind, .inl hparts,
        Kind.ofValue_name _, Component.ofValue_sheet h.component⟩
    · show extraOf ((n.component.members ++ n.extra).reverse.reverse.filter _) = _
      rw [List.reverse_reverse, hextra]
      exact h.extra.putAll_eq
  show (takeAll step (n.drafted []) (n.component.members ++ n.extra)).bind _ = _
  rw [htake]
  exact toOption_eq_some_iff.2 hfinish

end Node

/-! ## Edges -/

namespace Edge

variable {levels : Nat} {e : Edge}

/-- An edge of which only some members for later have not been read yet. -/
def drafted (e : Edge) (later : List (String × Value)) : Draft :=
  { id := some e.id, source := some e.source, target := some e.target, later }

/-- **An edge is read from what is saved of it.** -/
theorem ofValue?_toValue (h : Carried levels knownKeys e.extra) : ofValue? e.toValue = some e := by
  have hlater : ∀ later, ∀ m ∈ e.extra,
      step (e.drafted later) m.1 m.2 = some (e.drafted (m :: later)) := by
    intro later m hm
    have hkeys := h.unknown m hm
    simp only [knownKeys, List.mem_cons, List.not_mem_nil, or_false, not_or] at hkeys
    obtain ⟨hid, hsource, htarget⟩ := hkeys
    rw [step, if_neg hid, if_neg hsource, if_neg htarget]
    rfl
  have htake := takeAll_all_later hlater []
  rw [List.append_nil] at htake
  have hfinish : (shape 0).finish (e.drafted e.extra.reverse) = .ok e := by
    refine finish_eq_ok_iff.2 ⟨rfl, rfl, rfl, ?_⟩
    show extraOf e.extra.reverse.reverse = _
    rw [List.reverse_reverse]
    exact h.putAll_eq
  show (takeAll step (e.drafted []) e.extra).bind _ = _
  rw [htake]
  exact toOption_eq_some_iff.2 hfinish

end Edge

/-! ## Graphs -/

namespace Graph

variable {levels : Nat} {g : Graph}

theorem mapM_map_eq_some {α : Type} {decode : Value → Option α} {encode : α → Value} {as : List α}
    (h : ∀ a ∈ as, decode (encode a) = some a) : (as.map encode).mapM decode = some as := by
  rw [mapM_eq_some_iff, List.forall₂_map_left_iff, List.forall₂_same]
  exact h

/-- **A chart is read from what is saved of it.** -/
theorem ofValue?_toValue (h : g.Kept levels) : ofValue? g.toValue = some g := by
  have hnodes : decodeItems Node.ofValue? (.array (g.nodes.map Node.toValue)) = some g.nodes :=
    mapM_map_eq_some fun n hn => Node.ofValue?_toValue (h.nodes n hn)
  have hedges : decodeItems Edge.ofValue? (.array (g.edges.map Edge.toValue)) = some g.edges :=
    mapM_map_eq_some fun e he => Edge.ofValue?_toValue (h.edges e he)
  have htake : takeAll step (none, none) [("nodes", .array (g.nodes.map Node.toValue)),
      ("edges", .array (g.edges.map Edge.toValue))] = some (some g.nodes, some g.edges) :=
    takeAll_cons_iff.2 ⟨(some g.nodes, none), once_eq_some_iff.2 ⟨rfl, g.nodes, hnodes, rfl⟩,
      takeAll_cons_iff.2 ⟨_, once_eq_some_iff.2 ⟨rfl, g.edges, hedges, rfl⟩, rfl⟩⟩
  show (takeAll step (none, none) _).bind _ = _
  rw [htake]
  rfl

/-- A chart that is read from a text is kept, and its saved value is one that can be read. -/
theorem kept_of_parse {text : String} (h : parse text = .ok g) : g.Kept 123 := by
  obtain ⟨v, hv, hg⟩ := exists_value_of_parse h
  obtain ⟨r, hrun, -⟩ := read_iff.1 hv
  exact kept_of_ofValue (within_of_run_lenient hrun) hg

/-- **The text that is saved is the text of the saved value.** -/
theorem read_save (h : g.Kept 123) (hfloat : ∀ x, g.toValue.HasFloat x → ReadsBack x) :
    (Reader.value Reader.maxLevels).read g.save = .ok g.toValue :=
  read_write .indented (within_toValue h) hfloat

/-- **A chart that was read is read again from the text that is saved**, as far as its numbers
are. -/
theorem parse_save {text : String} (h : parse text = .ok g)
    (hfloat : ∀ x, g.toValue.HasFloat x → ReadsBack x) : parse g.save = .ok g :=
  parse_of_value (read_save (kept_of_parse h) hfloat) (ofValue?_toValue (kept_of_parse h))

/-- **Saving and loading again changes nothing**: what is loaded is the same chart, and what would
be saved of it is the same text. -/
theorem loadText_save {text : String} (h : loadText text = .ok g)
    (hfloat : ∀ x, g.toValue.HasFloat x → ReadsBack x) :
    loadText g.save = .ok g ∧ (loadText g.save).map save = .ok g.save := by
  obtain ⟨hparse, hwell⟩ := (load_eq_ok_iff _ _ _).1 h
  have hload : loadText g.save = .ok g := (load_eq_ok_iff _ _ _).2 ⟨parse_save hparse hfloat, hwell⟩
  exact ⟨hload, by rw [hload]; rfl⟩

/-! ### A chart as it may be typed in -/

/-- Three halves. -/
def threeHalves : Binary64 := ⟨false, 0x3FF8000000000000, by decide⟩

/-- A chart with its members in no particular order, a label that is a number and attributes that
the editor does not know. -/
def typed : Value := .object [
  ("edges", .array [.object [("target", .string "a"), ("animated", .boolean true),
    ("id", .string "e"), ("source", .string "a")]]),
  ("viewport", .null),
  ("nodes", .array [.object [
    ("data", .object [("label", .ofNat 7),
      ("color", .object [("r", .null), ("a", .number (.float threeHalves))])]),
    ("selected", .boolean false), ("type", .string "task"), ("id", .string "a"),
    ("position", .object [("y", .ofNat 0),
      ("x", .number (.float threeHalves))])]])]

/-- The same chart as it is kept. -/
def typedChart : Graph where
  nodes := [{
    id := "a", position := ⟨threeHalves, .zero⟩
    component := .task {
      label := some "7"
      extra := [("color", .object [("a", .number (.float threeHalves)), ("r", .null)])] }
    extra := [("selected", .boolean false)] }]
  edges := [⟨"e", "a", "a", [("animated", .boolean true)]⟩]

/-- A number with one digit after the point is read back if its digits name it. -/
theorem readsBack_of_tenths {x : Binary64} (digits : Nat) (s : List Char)
    (htext : (Number.floatText x).toList = s)
    (hread : Json.scalar s = (Json.numberOf false digits (-1) (.exact 0) []).map
      fun y => (.number y.1, y.2))
    (hfloat : Json.floatOf? false digits (-1) = some x) : ReadsBack x := by
  rw [ReadsBack, htext, hread, Json.numberOf, Int.add_zero, hfloat]
  rfl

theorem readsBack_threeHalves : ReadsBack threeHalves :=
  readsBack_of_tenths 15 ['1', '.', '5'] (by decide +kernel) rfl (by decide +kernel)

theorem readsBack_zero : ReadsBack .zero :=
  readsBack_of_tenths 0 ['0', '.', '0'] (by decide +kernel) rfl (by decide +kernel)

theorem read_typed : (Reader.value Reader.maxLevels).read typed.compact = .ok typed := by
  refine read_write .compact (by decide) fun x hx => ?_
  have hx : threeHalves = x := by
    simpa [typed, Value.ofNat, Number.ofNat, Json.FitsWord] using hx
  exact hx ▸ readsBack_threeHalves

theorem parse_typed : parse typed.compact = .ok typedChart :=
  parse_of_value read_typed (by decide)

theorem readsBack_of_typedChart {x : Binary64} (hx : typedChart.toValue.HasFloat x) :
    ReadsBack x := by
  have hx : (threeHalves = x ∨ Binary64.zero = x) ∨ threeHalves = x := by
    simpa [typedChart, toValue, Node.toValue, Edge.toValue, Position.toValue, Component.members,
      Component.sheet, Sheet.toValue] using hx
  rcases hx with (rfl | rfl) | rfl
  · exact readsBack_threeHalves
  · exact readsBack_zero
  · exact readsBack_threeHalves

theorem loadText_save_typed : loadText typed.compact = .ok typedChart ∧
    loadText typedChart.save = .ok typedChart ∧
      (loadText typedChart.save).map save = .ok typedChart.save := by
  have hload : loadText typed.compact = .ok typedChart :=
    (load_eq_ok_iff _ _ _).2 ⟨parse_typed, by decide, by decide, by decide, by decide⟩
  exact ⟨hload, loadText_save hload fun x hx => readsBack_of_typedChart hx⟩

end Graph

end CrewChart

import CrewChart.Graph.Integrity
import Mathlib.Data.List.Nodup
import Mathlib.Order.Bounds.Defs
import Mathlib.Order.Nat

/-!
# The fault that is told

`Graph.checkIntegrity` goes through the nodes and then through the edges.  It keeps the ids it has
met, and stops at the first thing that is wrong.  This file says which thing that is by its place in
the chart, and does without the ids that are kept on the way.

## What is here

* `Repeats`, `Faulty` — the id at a place was met before; the edge at a place is wrong in some way.
* `EdgeFault` — what is told of an edge: first that its id was met before, then that its source is
  missing, then that its target is.
* `checkNodes_of_isLeast`, `checkEdges_of_isLeast` — a pass stops at the least such place.
* `FirstFault`, `checkIntegrity_tells_first_fault` — the check tells the first fault of a chart, and
  none exactly if the chart has integrity.
-/

set_option autoImplicit false

namespace CrewChart.Graph

/-- Where a fault is, with the texts around its place put together. -/
theorem faultAt_eq (list field : String) (index : Nat) (cause : Fault.Cause) :
    faultAt list index field cause
      = ⟨cause, { path := some (list ++ "[" ++ toString index ++ ("]." ++ field)) }⟩ := by
  simp only [faultAt, String.append_assoc]

/-! ## The first of some places -/

section Least

variable {p : Nat → Prop} {i : Nat}

theorem eq_zero_of_isLeast (h : p 0) (hi : IsLeast {i | p i} i) : i = 0 := Nat.le_zero.1 (hi.2 h)

/-- After a place that is none of them, places are counted from the next one. -/
theorem exists_isLeast_succ (h : ¬ p 0) (hi : IsLeast {i | p i} i) :
    ∃ k, i = k + 1 ∧ IsLeast {i | p (i + 1)} k := by
  cases i with
  | zero => exact absurd hi.1 h
  | succ k => exact ⟨k, rfl, hi.1, fun j hj => Nat.succ_le_succ_iff.1 (hi.2 hj)⟩

theorem exists_isLeast (h : ∃ i, p i) : ∃ i, IsLeast {i | p i} i := by
  classical
  exact ⟨Nat.find h, Nat.find_spec h, fun _ hi => Nat.find_min' h hi⟩

end Least

/-! ## Ids that were met before -/

/-- The id at this place is among those seen, or among those before it. -/
def Repeats (seen ids : List String) (i : Nat) : Prop :=
  ∃ id, ids[i]? = some id ∧ (id ∈ seen ∨ id ∈ ids.take i)

section Repeats

variable {seen ids : List String} {id : String} {i : Nat}

theorem repeats_zero_iff : Repeats seen (id :: ids) 0 ↔ id ∈ seen := by simp [Repeats]

/-- What a pass has left behind is seen. -/
theorem repeats_succ_iff : Repeats seen (id :: ids) (i + 1) ↔ Repeats (id :: seen) ids i := by
  refine exists_congr fun x => and_congr_right fun _ => ?_
  rw [List.take_succ_cons, List.mem_cons, List.mem_cons]
  tauto

theorem exists_repeats_iff :
    (∃ i, Repeats seen ids i) ↔ ¬ (ids.Nodup ∧ ∀ id ∈ ids, id ∉ seen) := by
  induction ids generalizing seen with
  | nil => simp [Repeats]
  | cons id ids ih =>
    have hsplit : (∃ i, Repeats seen (id :: ids) i)
        ↔ id ∈ seen ∨ ∃ i, Repeats (id :: seen) ids i := by
      rw [← Nat.or_exists_add_one, repeats_zero_iff]
      simp only [repeats_succ_iff]
    rw [hsplit, ih, List.nodup_cons, List.forall_mem_cons]
    grind

end Repeats

/-- **The nodes are gone through up to the first id that repeats.** -/
theorem checkNodes_of_isLeast {seen : List String} {index : Nat} {nodes : List Node} {i : Nat}
    {n : Node} (hi : IsLeast {i | Repeats seen (nodes.map Node.id) i} i) (hn : nodes[i]? = some n) :
    checkNodes seen index nodes
      = .error (faultAt "nodes" (index + i) "id" (.duplicateNode n.id)) := by
  induction nodes generalizing seen index i with
  | nil => simp at hn
  | cons m rest ih =>
    rw [checkNodes]
    by_cases hm : m.id ∈ seen
    · obtain rfl := eq_zero_of_isLeast (repeats_zero_iff.2 hm) hi
      obtain rfl : m = n := Option.some.inj hn
      rw [if_pos hm, Nat.add_zero]
    · obtain ⟨k, rfl, hk⟩ := exists_isLeast_succ (mt repeats_zero_iff.1 hm) hi
      simp only [repeats_succ_iff] at hk
      rw [if_neg hm, ih hk hn, Nat.add_right_comm, Nat.add_assoc]

/-! ## Edges that are wrong -/

/-- What is told of an edge at a place; `again` says that its id was met before. -/
inductive EdgeFault (again : Prop) (ids : List String) (j : Nat) (e : Edge) : Fault → Prop
  /-- The id was met before, -/
  | duplicate (hid : again) : EdgeFault again ids j e
      ⟨.duplicateEdge e.id, { path := some ("edges[" ++ toString j ++ "].id") }⟩
  /-- or else the source is missing, -/
  | noSource (hid : ¬ again) (hsource : e.source ∉ ids) : EdgeFault again ids j e
      ⟨.danglingEdge e.id e.source, { path := some ("edges[" ++ toString j ++ "].source") }⟩
  /-- or else the target is. -/
  | noTarget (hid : ¬ again) (hsource : e.source ∈ ids) (htarget : e.target ∉ ids) :
      EdgeFault again ids j e
      ⟨.danglingEdge e.id e.target, { path := some ("edges[" ++ toString j ++ "].target") }⟩

/-- The edge at this place has an id that repeats, or has an end that is none of these ids. -/
def Faulty (ids seen : List String) (edges : List Edge) (j : Nat) : Prop :=
  Repeats seen (edges.map Edge.id) j ∨
    ∃ e, edges[j]? = some e ∧ (e.source ∉ ids ∨ e.target ∉ ids)

section Edges

variable {ids seen : List String} {edges : List Edge} {e : Edge} {j : Nat}

theorem faulty_zero_iff : Faulty ids seen (e :: edges) 0
    ↔ e.id ∈ seen ∨ e.source ∉ ids ∨ e.target ∉ ids := by
  simp [Faulty, repeats_zero_iff]

theorem faulty_succ_iff :
    Faulty ids seen (e :: edges) (j + 1) ↔ Faulty ids (e.id :: seen) edges j := by
  rw [Faulty, List.map_cons, repeats_succ_iff, List.getElem?_cons_succ]
  rfl

theorem exists_faulty_iff : (∃ j, Faulty ids seen edges j) ↔
    ¬ ((edges.map Edge.id).Nodup ∧ (∀ e ∈ edges, e.id ∉ seen) ∧
      ∀ e ∈ edges, e.source ∈ ids ∧ e.target ∈ ids) := by
  have hends : (∃ j : Nat, ∃ e : Edge, edges[j]? = some e ∧ (e.source ∉ ids ∨ e.target ∉ ids))
      ↔ ¬ ∀ e ∈ edges, e.source ∈ ids ∧ e.target ∈ ids := by
    rw [exists_comm]
    simp only [List.mem_iff_getElem?, exists_and_right, not_forall, not_and_or, exists_prop]
  simp only [Faulty, exists_or, exists_repeats_iff, hends, List.forall_mem_map]
  tauto

/-- What is told of the first edge is told of it alone. -/
theorem checkEdges_cons_of_fault {index : Nat} {f : Fault}
    (hf : EdgeFault (e.id ∈ seen) ids index e f) :
    checkEdges ids seen index (e :: edges) = .error f := by
  rw [checkEdges]
  cases hf with
  | duplicate hid => rw [if_pos hid, faultAt_eq]; rfl
  | noSource hid hsource => rw [if_neg hid, if_pos hsource, faultAt_eq]; rfl
  | noTarget hid hsource htarget =>
    rw [if_neg hid, if_neg (not_not_intro hsource), if_pos htarget, faultAt_eq]; rfl

/-- **The edges are gone through up to the first that is wrong.** -/
theorem checkEdges_of_isLeast {index : Nat} {f : Fault}
    (hj : IsLeast {j | Faulty ids seen edges j} j) (he : edges[j]? = some e)
    (hf : EdgeFault (Repeats seen (edges.map Edge.id) j) ids (index + j) e f) :
    checkEdges ids seen index edges = .error f := by
  induction edges generalizing seen index j with
  | nil => simp at he
  | cons m rest ih =>
    by_cases hm : m.id ∈ seen ∨ m.source ∉ ids ∨ m.target ∉ ids
    · obtain rfl := eq_zero_of_isLeast (faulty_zero_iff.2 hm) hj
      obtain rfl : m = e := Option.some.inj he
      rw [List.map_cons, repeats_zero_iff] at hf
      exact checkEdges_cons_of_fault hf
    · obtain ⟨k, rfl, hk⟩ := exists_isLeast_succ (mt faulty_zero_iff.1 hm) hj
      simp only [faulty_succ_iff] at hk
      rw [List.map_cons, repeats_succ_iff, ← Nat.add_assoc, Nat.add_right_comm] at hf
      obtain ⟨hid, hsource, htarget⟩ : m.id ∉ seen ∧ m.source ∈ ids ∧ m.target ∈ ids := by
        tauto
      rw [checkEdges, if_neg hid, if_neg (not_not_intro hsource), if_neg (not_not_intro htarget)]
      exact ih hk he hf

end Edges

/-! ## The fault of a chart -/

/-- The first fault of a chart.  The nodes come before the edges. -/
inductive FirstFault (g : Graph) : Fault → Prop
  /-- Some id of a node repeats, first at this place. -/
  | node {i : Nat} {n : Node} (hi : IsLeast {i | Repeats [] (g.nodes.map Node.id) i} i)
      (hn : g.nodes[i]? = some n) : FirstFault g
      ⟨.duplicateNode n.id, { path := some ("nodes[" ++ toString i ++ "].id") }⟩
  /-- No id of a node repeats, and the first edge that is wrong is at this place. -/
  | edge {j : Nat} {e : Edge} {f : Fault} (hnodes : (g.nodes.map Node.id).Nodup)
      (hj : IsLeast {j | Faulty (g.nodes.map Node.id) [] g.edges j} j) (he : g.edges[j]? = some e)
      (hf : EdgeFault (Repeats [] (g.edges.map Edge.id) j) (g.nodes.map Node.id) j e f) :
      FirstFault g f

variable {g : Graph} {f : Fault}

theorem FirstFault.checkIntegrity_eq (h : g.FirstFault f) : g.checkIntegrity = .error f := by
  cases h with
  | @node i n hi hn =>
    rw [checkIntegrity, checkNodes_of_isLeast hi hn, Nat.zero_add, faultAt_eq]
    rfl
  | @edge j _ _ hnodes hj he hf =>
    have hok : checkNodes [] 0 g.nodes = .ok () :=
      (checkNodes_eq_ok_iff ..).2 ⟨hnodes, fun _ _ => List.not_mem_nil⟩
    rw [checkIntegrity, hok]
    exact checkEdges_of_isLeast hj he (by rwa [Nat.zero_add])

/-- Every edge that is wrong has something told of it. -/
theorem exists_edgeFault {ids seen : List String} {edges : List Edge} {j : Nat} {e : Edge}
    (hj : Faulty ids seen edges j) (he : edges[j]? = some e) :
    ∃ f, EdgeFault (Repeats seen (edges.map Edge.id) j) ids j e f := by
  by_cases hid : Repeats seen (edges.map Edge.id) j
  · exact ⟨_, .duplicate hid⟩
  · by_cases hsource : e.source ∈ ids
    · obtain ⟨e', he', hends⟩ := hj.resolve_left hid
      obtain rfl := Option.some.inj (he.symm.trans he')
      exact ⟨_, .noTarget hid hsource (hends.resolve_left (not_not_intro hsource))⟩
    · exact ⟨_, .noSource hid hsource⟩

theorem exists_firstFault (h : ¬ g.WellFormed) : ∃ f, g.FirstFault f := by
  by_cases hnodes : (g.nodes.map Node.id).Nodup
  · have hfaulty : ∃ j, Faulty (g.nodes.map Node.id) [] g.edges j := by
      refine exists_faulty_iff.2 fun ⟨hedges, _, hends⟩ => h ?_
      exact ⟨hnodes, hedges, fun e he => (hends e he).1, fun e he => (hends e he).2⟩
    obtain ⟨j, hj⟩ := exists_isLeast hfaulty
    obtain ⟨e, he⟩ : ∃ e, g.edges[j]? = some e := by
      obtain ⟨id, hid, -⟩ | ⟨e, he, -⟩ := hj.1
      · rw [List.getElem?_map, Option.map_eq_some_iff] at hid
        exact hid.imp fun _ h => h.1
      · exact ⟨e, he⟩
    obtain ⟨f, hf⟩ := exists_edgeFault hj.1 he
    exact ⟨f, .edge hnodes hj he hf⟩
  · have hrepeats : ∃ i, Repeats [] (g.nodes.map Node.id) i :=
      exists_repeats_iff.2 fun hall => hnodes hall.1
    obtain ⟨i, hi⟩ := exists_isLeast hrepeats
    obtain ⟨id, hid, -⟩ := hi.1
    rw [List.getElem?_map, Option.map_eq_some_iff] at hid
    obtain ⟨n, hn, -⟩ := hid
    exact ⟨_, .node hi hn⟩

/-- **Which fault is told.**  A chart is accepted exactly if the ids of its nodes are distinct, the
ids of its edges are, and both ends of every edge are nodes.  Any other chart is refused with its
first fault. -/
theorem checkIntegrity_tells_first_fault (g : Graph) :
    (g.checkIntegrity = .ok () ↔ (g.nodes.map Node.id).Nodup ∧ (g.edges.map Edge.id).Nodup ∧
      ∀ e ∈ g.edges, e.source ∈ g.nodes.map Node.id ∧ e.target ∈ g.nodes.map Node.id) ∧
    ∀ f, g.checkIntegrity = .error f ↔ g.FirstFault f := by
  refine ⟨?_, fun f => ⟨fun hf => ?_, FirstFault.checkIntegrity_eq⟩⟩
  · rw [checkIntegrity_eq_ok_iff]
    constructor
    · exact fun h => ⟨h.nodes, h.edges, fun e he => ⟨h.source e he, h.target e he⟩⟩
    · exact fun ⟨hnodes, hedges, hends⟩ =>
        ⟨hnodes, hedges, fun e he => (hends e he).1, fun e he => (hends e he).2⟩
  · have hnot : ¬ g.WellFormed := by
      rw [← checkIntegrity_eq_ok_iff, hf]
      simp
    obtain ⟨f', hf'⟩ := exists_firstFault hnot
    obtain rfl : f = f' := Except.error.inj (hf.symm.trans hf'.checkIntegrity_eq)
    exact hf'

end CrewChart.Graph

import CrewChart.Graph.Basic
import CrewChart.Fault

/-!
# Integrity

A chart has *integrity* when its node ids are distinct, its edge ids are distinct, and both ends of
every edge are nodes.  The editor never saves any other chart, so a chart without integrity is
refused, with the first fault: all nodes are looked at before the edges, and of an edge first its
id, then its source, then its target.
-/

set_option autoImplicit false

namespace CrewChart

namespace Graph

/-- The fault at a path like `edges[2].target`. -/
def faultAt (list : String) (index : Nat) (field : String) (cause : Fault.Cause) : Fault :=
  ⟨cause, { path := some (list ++ "[" ++ toString index ++ "]." ++ field) }⟩

/-- The first node whose id is among those seen before; `index` is the place of the first node. -/
def checkNodes (seen : List String) (index : Nat) : List Node → Except Fault Unit
  | [] => .ok ()
  | n :: rest =>
    if n.id ∈ seen then .error (faultAt "nodes" index "id" (.duplicateNode n.id))
    else checkNodes (n.id :: seen) (index + 1) rest

/-- The first edge whose id is among those seen before, or that has an end outside `ids`. -/
def checkEdges (ids : List String) (seen : List String) (index : Nat) :
    List Edge → Except Fault Unit
  | [] => .ok ()
  | e :: rest =>
    if e.id ∈ seen then .error (faultAt "edges" index "id" (.duplicateEdge e.id))
    else if e.source ∉ ids then
      .error (faultAt "edges" index "source" (.danglingEdge e.id e.source))
    else if e.target ∉ ids then
      .error (faultAt "edges" index "target" (.danglingEdge e.id e.target))
    else checkEdges ids (e.id :: seen) (index + 1) rest

def checkIntegrity (g : Graph) : Except Fault Unit := do
  checkNodes [] 0 g.nodes
  checkEdges (g.nodes.map Node.id) [] 0 g.edges

/-- What `checkIntegrity` accepts. -/
structure WellFormed (g : Graph) : Prop where
  nodes : (g.nodes.map Node.id).Nodup
  edges : (g.edges.map Edge.id).Nodup
  source : ∀ e ∈ g.edges, e.source ∈ g.nodes.map Node.id
  target : ∀ e ∈ g.edges, e.target ∈ g.nodes.map Node.id

theorem checkNodes_eq_ok_iff (seen : List String) (index : Nat) (nodes : List Node) :
    checkNodes seen index nodes = .ok () ↔
      (nodes.map Node.id).Nodup ∧ ∀ n ∈ nodes, n.id ∉ seen := by
  induction nodes generalizing seen index with
  | nil => simp [checkNodes]
  | cons n rest ih =>
    by_cases h : n.id ∈ seen
    · simp [checkNodes, h]
    · simp only [checkNodes, if_neg h, ih, List.map_cons, List.nodup_cons, List.mem_cons,
        forall_eq_or_imp]
      grind

theorem checkEdges_eq_ok_iff (ids seen : List String) (index : Nat) (edges : List Edge) :
    checkEdges ids seen index edges = .ok () ↔
      (edges.map Edge.id).Nodup ∧ (∀ e ∈ edges, e.id ∉ seen) ∧
        ∀ e ∈ edges, e.source ∈ ids ∧ e.target ∈ ids := by
  induction edges generalizing seen index with
  | nil => simp [checkEdges]
  | cons e rest ih =>
    by_cases h : e.id ∈ seen
    · simp [checkEdges, h]
    · by_cases hs : e.source ∈ ids
      · by_cases ht : e.target ∈ ids
        · simp only [checkEdges, if_neg h, hs, ht, not_true, if_false, ih, List.map_cons,
            List.nodup_cons, List.mem_cons, forall_eq_or_imp]
          grind
        · simp [checkEdges, h, hs, ht]
      · simp [checkEdges, h, hs]

theorem checkIntegrity_eq_ok_iff (g : Graph) : g.checkIntegrity = .ok () ↔ g.WellFormed := by
  have h : g.checkIntegrity = .ok () ↔
      checkNodes [] 0 g.nodes = .ok () ∧
        checkEdges (g.nodes.map Node.id) [] 0 g.edges = .ok () := by
    unfold checkIntegrity
    cases checkNodes [] 0 g.nodes <;> simp [bind, Except.bind]
  rw [h, checkNodes_eq_ok_iff, checkEdges_eq_ok_iff]
  constructor
  · rintro ⟨⟨h1, -⟩, h2, -, h3⟩
    exact ⟨h1, h2, fun e he => (h3 e he).1, fun e he => (h3 e he).2⟩
  · rintro ⟨h1, h2, h3, h4⟩
    exact ⟨⟨h1, by simp⟩, h2, by simp, fun e he => ⟨h3 e he, h4 e he⟩⟩

end Graph

end CrewChart

import CrewChart.Proofs.Coverage
import CrewChart.Proofs.CycleRecursion
import CrewChart.Proofs.Wiring

/-!
# Edges that lack an end lead nowhere

A chart may be looked at before it is whole, with edges to nodes that are gone.  Such an edge still
touches the node at its other end, but it cannot be followed.  This file compares a chart with the
same chart without these edges.

Taking them out moves the other edges up, so no link is the same as before.  But nobody asks for the
place of an edge: a search for cycles and a plan ask where the links of a node lead, and in which
order, and that is as it was.  A simulation asks besides where it may start.  An edge from nowhere
keeps its target from being a start, so without it there may be more starts, and more is reached.

## What is here

* `Graph.attached` — a chart without the edges that lack an end.
* `Graph.filterMap_attached`, `Graph.successors_attached`, `Graph.head?_incoming_attached` — nothing
  that leaves out such edges anyway is different there.
* `Lint.cycles_attached`, `Plan.resolve_attached` — the same findings and the same plan.
* `Simulation.mem_evaluationOrder_mono` — with more starts and the same links more is evaluated.
* `loose_edges_lead_nowhere` — all of it.
-/

set_option autoImplicit false

namespace CrewChart

/-! ## A chart without loose edges -/

namespace Graph

/-- Whether both ends of an edge are nodes. -/
def attaches (g : Graph) (e : Edge) : Bool := g.hasNode e.source && g.hasNode e.target

/-- The chart without the edges that lack an end.  It is an abbreviation, because the places of its
nodes are those of the chart. -/
abbrev attached (g : Graph) : Graph := { g with edges := g.edges.filter g.attaches }

variable {g : Graph}

/-- What an edge that lacks an end does not add to is as it was. -/
theorem filterMap_attached {β : Type} {f : Edge → Option β}
    (hf : ∀ e, g.attaches e = false → f e = none) :
    g.attached.edges.filterMap f = g.edges.filterMap f := by
  rw [List.filterMap_filter]
  refine congrArg (List.filterMap · g.edges) (funext fun e => ?_)
  cases he : g.attaches e with
  | false => rw [hf e he]; rfl
  | true => rfl

/-- An edge that goes from a place to a place has both ends. -/
theorem attaches_of_position? {e : Edge} {i j : Fin g.size} (hi : g.position? e.source = some i)
    (hj : g.position? e.target = some j) : g.attaches e = true := by
  rw [attaches, ← isSome_position?, ← isSome_position?, hi, hj]
  rfl

theorem ite_position?_eq_none {near far : String} {i : Fin g.size}
    (h : ∀ j, g.position? near = some i → ¬ g.position? far = some j) :
    (if g.position? near = some i then g.position? far else none) = none := by
  split
  · rename_i hnear
    exact Option.eq_none_iff_forall_ne_some.2 fun j => h j hnear
  · rfl

/-- **The links of a node lead where they did.** -/
theorem successors_attached (i : Fin g.size) : g.attached.successors i = g.successors i := by
  refine filterMap_attached fun e he => ite_position?_eq_none fun j hi hj => ?_
  exact absurd (attaches_of_position? hi hj) (Bool.eq_false_iff.1 he)

/-- The first link to a node comes from where it did. -/
theorem head?_incoming_attached (i : Fin g.size) :
    (g.attached.adjacency.incoming.get i).head?.map Link.node
      = (g.adjacency.incoming.get i).head?.map Link.node := by
  rw [head?_incoming, head?_incoming, ← List.head?_filterMap, ← List.head?_filterMap]
  refine congrArg List.head? (filterMap_attached fun e he => ite_position?_eq_none ?_)
  exact fun j hi hj => absurd (attaches_of_position? hj hi) (Bool.eq_false_iff.1 he)

end Graph

/-! ## Findings -/

namespace Lint

/-- **The same cycles are found.** -/
theorem cycles_attached (g : Graph) :
    cycles g.attached g.attached.adjacency = cycles g g.adjacency := by
  have hnext : ∀ i, (g.attached.adjacency.outgoing.get i).map Link.node = g.successors i := by
    intro i
    rw [Graph.map_node_outgoing, Graph.successors_attached]
  rw [cycles, cycles, cycleNodes_eq_searchAll hnext, cycleNodes_eq_searchAll g.map_node_outgoing]
  rfl

end Lint

/-! ## Plans -/

namespace Plan

variable (g : Graph) (model : String)

theorem toolsOf_attached (emitted : List String) (i : Fin g.size) :
    toolsOf g.attached g.attached.adjacency emitted i = toolsOf g g.adjacency emitted i := by
  rw [toolsOf, toolsOf, Graph.map_id_outgoing, Graph.map_id_outgoing, Graph.successors_attached]
  rfl

theorem agentOf_attached (i : Fin g.size) :
    agentOf g.attached g.attached.adjacency i = agentOf g g.adjacency i := by
  rw [agentOf_eq_bind, agentOf_eq_bind, Graph.head?_incoming_attached]
  rfl

/-- **The same plan is made.** -/
theorem resolve_attached : resolve g.attached model = resolve g model := by
  have hagent : ∀ emitted i, agentEntry g.attached g.attached.adjacency emitted model i
      = agentEntry g g.adjacency emitted model i := by
    intro emitted i
    funext agent
    rw [agentEntry, toolsOf_attached]
    rfl
  have htask : ∀ i, taskEntry g.attached g.attached.adjacency i = taskEntry g g.adjacency i := by
    intro i
    funext t
    rw [taskEntry, agentOf_attached]
    rfl
  simp only [resolve, hagent, htask]
  rfl

end Plan

/-! ## Simulations -/

namespace Simulation

/-- With fewer incoming edges there are more starts, and what was reached from them still is. -/
theorem mem_evaluationOrder_mono {n : Nat} {a b : Adjacency n}
    (hincoming : ∀ i, b.hasIncoming i = true → a.hasIncoming i = true)
    (hlinked : ∀ i j, a.Linked i j → b.Linked i j) {i : Fin n} (h : i ∈ evaluationOrder a) :
    i ∈ evaluationOrder b := by
  obtain ⟨s, hs, hsi⟩ := mem_evaluationOrder_iff.1 h
  refine mem_evaluationOrder_iff.2 ⟨s, ?_, Relation.ReflTransGen.mono hlinked _ _ hsi⟩
  rw [Adjacency.mem_starts, ← Bool.not_eq_true] at hs ⊢
  exact mt (hincoming s) hs

theorem mem_evaluationOrder_attached {g : Graph} {i : Fin g.size}
    (h : i ∈ evaluationOrder g.adjacency) : i ∈ evaluationOrder g.attached.adjacency := by
  refine mem_evaluationOrder_mono (fun j hj => ?_) (fun j k hjk => ?_) h
  · obtain ⟨e, he, htarget⟩ := (Graph.hasIncoming_iff _ _).1 hj
    exact (Graph.hasIncoming_iff _ _).2 ⟨e, (List.mem_filter.1 he).1, htarget⟩
  · obtain ⟨e, he, hj, hk⟩ := Graph.linked_iff.1 hjk
    refine Graph.linked_iff.2 ⟨e, List.mem_filter.2 ⟨he, ?_⟩, hj, hk⟩
    exact Graph.attaches_of_position? hj hk

end Simulation

/-! ## All of it -/

/-- **Edges that lack an end lead nowhere.**  Without them a chart has the same cycles and the same
plan, whatever the default model.  A simulation evaluates every node that it did, whatever the clock
shows, and maybe more, because an edge that comes from nowhere keeps its target from being a
start. -/
theorem loose_edges_lead_nowhere {σ : Type} (stamp : Bool → StateM σ Text.Instant) (clock : σ)
    (g : Graph) :
    Lint.cycles g.attached g.attached.adjacency = Lint.cycles g g.adjacency ∧
    (∀ model, Plan.resolve g.attached model = Plan.resolve g model) ∧
    (Simulation.evaluationOrder g.adjacency).map Fin.val
      ⊆ (Simulation.evaluationOrder g.attached.adjacency).map Fin.val ∧
    ((Simulation.simulateM stamp g).run clock).1.completed
      ⊆ ((Simulation.simulateM stamp g.attached).run clock).1.completed := by
  have hsub : ∀ {β : Type} (f : Fin g.size → β), (Simulation.evaluationOrder g.adjacency).map f
      ⊆ (Simulation.evaluationOrder g.attached.adjacency).map f :=
    fun f => List.map_subset f fun _ => Simulation.mem_evaluationOrder_attached
  refine ⟨Lint.cycles_attached g, Plan.resolve_attached g, hsub Fin.val, ?_⟩
  rw [Simulation.completed_simulateM, Simulation.completed_simulateM,
    Simulation.outcomes_map_node, Simulation.outcomes_map_node]
  exact hsub fun i => (g.nodeAt i).id

/-- An edge from nowhere is not followed, but there is no start either. -/
example : let g : Graph := ⟨[{ id := "a", component := .flow {} }], [⟨"1", "x", "a", []⟩]⟩
    (Simulation.evaluationOrder g.adjacency).map Fin.val = [] ∧
      (Simulation.evaluationOrder g.attached.adjacency).map Fin.val = [0] := by
  constructor <;> cbv

end CrewChart

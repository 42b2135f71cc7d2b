import CrewChart.Proofs.Coverage

/-!
# The outcomes of a simulation, without their order

Which nodes are evaluated, and how each of them is assessed, depends on the nodes and edges of a
chart and not on their places.  Only the order of the records does.

## What is here

* `mem_outcomes_iff` — there is an outcome for each node that arcs lead to from a start.
* `nodup_map_node_outcomes` — no node has two.
* `exists_record_of_mem_completed` — a completed node has one record, and it says how the node is
  assessed.
-/

set_option autoImplicit false

namespace CrewChart.Simulation

variable {g : Graph}

theorem mem_outcomes_iff (hd : (g.nodes.map Node.id).Nodup) {o : Outcome} : o ∈ outcomes g ↔
    ∃ n ∈ g.nodes, (∃ s ∈ startIds g, Relation.ReflTransGen g.Arc s n.id) ∧
      o = assess n (g.edges.any fun e => e.target == n.id) := by
  rw [outcomes, List.mem_map]
  constructor
  · rintro ⟨i, hi, rfl⟩
    refine ⟨g.nodeAt i, g.nodeAt_mem i, (mem_evaluationOrder_iff_arcs hd).1 hi, ?_⟩
    rw [Graph.hasIncoming_eq hd]
  · rintro ⟨n, hn, hreached, rfl⟩
    obtain ⟨i, rfl⟩ := Graph.exists_nodeAt hn
    refine ⟨i, (mem_evaluationOrder_iff_arcs hd).2 hreached, ?_⟩
    rw [Graph.hasIncoming_eq hd]

theorem nodup_map_node_outcomes (hd : (g.nodes.map Node.id).Nodup) :
    ((outcomes g).map Outcome.node).Nodup := by
  rw [outcomes_map_node]
  exact (evaluationOrder_nodup _).map (Graph.nodeAt_id_injective hd)

theorem nodup_outcomes (hd : (g.nodes.map Node.id).Nodup) : (outcomes g).Nodup :=
  (nodup_map_node_outcomes hd).of_map _

section Report

variable {σ : Type} (stamp : Bool → StateM σ Text.Instant) (clock : σ)

/-- **A completed node has one record**, and it says how the node is assessed. -/
theorem exists_record_of_mem_completed (hd : (g.nodes.map Node.id).Nodup) {n : Node}
    (hn : n ∈ g.nodes) (hcompleted : n.id ∈ ((simulateM stamp g).run clock).1.completed) :
    ∃ x, ((simulateM stamp g).run clock).1.records.filter (fun x => x.outcome.node == n.id) = [x] ∧
      x.outcome = assess n (g.edges.any fun e => e.target == n.id) := by
  rw [completed_simulateM] at hcompleted
  have hrecords := outcome_simulateM stamp clock g
  generalize ((simulateM stamp g).run clock).1.records = records at hrecords ⊢
  obtain ⟨o, ho, hid⟩ := List.mem_map.1 hcompleted
  rw [if_neg (List.ne_nil_of_mem ho)] at hrecords
  obtain ⟨m, hm, -, rfl⟩ := (mem_outcomes_iff hd).1 ho
  obtain rfl : m = n := List.inj_on_of_nodup_map hd hm hn hid
  rw [← hrecords] at ho
  obtain ⟨x, hx, hxo⟩ := List.mem_map.1 ho
  have hnodup : (records.map fun x => x.outcome.node).Nodup := by
    have hnodes := nodup_map_node_outcomes hd
    rw [← hrecords, List.map_map] at hnodes
    exact hnodes
  have hfilter := filter_key_eq_singleton hnodup hx
  rw [hxo] at hfilter
  exact ⟨x, hfilter, hxo⟩

end Report

end CrewChart.Simulation

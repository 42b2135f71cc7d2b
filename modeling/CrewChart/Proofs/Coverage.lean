import CrewChart.Graph.Integrity
import CrewChart.Proofs.CycleSearch
import CrewChart.Proofs.Reached
import Mathlib.Data.Fintype.EquivFin

/-!
# What a simulation leaves out lies behind a cycle

A simulation starts where no edge leads, so it may leave nodes out.  The check for cycles starts
everywhere.  This file relates the two, for charts with integrity: there every edge is a link, so a
node with an incoming edge has a node before it.

## What is here

* `exists_transGen_self_of_backward` — in a finite graph, whoever can always go one step back comes
  to a cycle.
* `Simulation.exists_cyclic_of_notMem_evaluationOrder` — a node that is left out can be reached from
  a node on a cycle.
* `Simulation.evaluationOrder_perm` — without cycles nothing is left out.
* `Simulation.completed_simulateM`, `Simulation.outcome_simulateM` — what a report lists, whatever
  the clock shows.
* `Simulation.simulateM_leaves_out_behind_cycles` — the same for the report and the findings of a
  chart.
-/

set_option autoImplicit false

namespace CrewChart

/-! ## Going back -/

section Backward

variable {α : Type} [Finite α] {r : α → α → Prop}

/-- Before each of these nodes there is another one.  The induction goes back along the nodes that
are on no cycle, which is well-founded because there are finitely many. -/
theorem exists_transGen_self_of_backward {P : α → Prop} (hback : ∀ i, P i → ∃ j, P j ∧ r j i)
    {i : α} (hi : P i) : ∃ j, Relation.TransGen r j j ∧ Relation.ReflTransGen r j i := by
  let before (j k : {j // ¬ Relation.TransGen r j j}) : Prop := Relation.TransGen r j.1 k.1
  have hwf : WellFounded before := by
    have : IsTrans _ before := ⟨fun _ _ _ => Relation.TransGen.trans⟩
    have : Std.Irrefl before := ⟨fun j => j.2⟩
    exact Finite.wellFounded_of_trans_of_irrefl before
  have key : ∀ k : {j // ¬ Relation.TransGen r j j}, P k.1 →
      ∃ j, Relation.TransGen r j j ∧ Relation.ReflTransGen r j k.1 := by
    intro k
    induction k using hwf.induction with
    | _ k ih =>
      intro hk
      obtain ⟨j, hj, hjk⟩ := hback k.1 hk
      by_cases hcyclic : Relation.TransGen r j j
      · exact ⟨j, hcyclic, .single hjk⟩
      · obtain ⟨m, hm, hmj⟩ := ih ⟨j, hcyclic⟩ (.single hjk) hj
        exact ⟨m, hm, hmj.tail hjk⟩
  by_cases hcyclic : Relation.TransGen r i i
  · exact ⟨i, hcyclic, .refl⟩
  · exact key ⟨i, hcyclic⟩ hi

end Backward

/-! ## Links of a chart with integrity -/

variable {g : Graph}

/-- An incoming edge comes from somewhere. -/
theorem Graph.WellFormed.exists_linked (h : g.WellFormed) {i : Fin g.size}
    (hi : g.adjacency.hasIncoming i = true) : ∃ j, g.adjacency.Linked j i := by
  obtain ⟨e, he, ht⟩ := (hasIncoming_iff g i).1 hi
  obtain ⟨source, hmem, hsource⟩ := List.mem_map.1 (h.source e he)
  obtain ⟨j, rfl⟩ := exists_nodeAt hmem
  exact ⟨j, linked_iff.2 ⟨e, he, (position?_eq_some_iff_of_nodup h.nodes).2 hsource, ht⟩⟩

namespace Simulation

/-! ## Places -/

/-- A node that is left out has an incoming edge, from a node that is left out too. -/
theorem exists_linked_of_notMem_evaluationOrder (h : g.WellFormed) {i : Fin g.size}
    (hi : i ∉ evaluationOrder g.adjacency) :
    ∃ j, j ∉ evaluationOrder g.adjacency ∧ g.adjacency.Linked j i := by
  have hincoming : g.adjacency.hasIncoming i = true := by
    by_contra hnone
    rw [Bool.not_eq_true, ← Adjacency.mem_starts] at hnone
    exact hi (mem_evaluationOrder_iff.2 ⟨i, hnone, .refl⟩)
  obtain ⟨j, hl⟩ := h.exists_linked hincoming
  refine ⟨j, fun hj => ?_, hl⟩
  obtain ⟨s, hs, hsj⟩ := mem_evaluationOrder_iff.1 hj
  exact hi (mem_evaluationOrder_iff.2 ⟨s, hs, hsj.tail hl⟩)

/-- **What is left out lies behind a cycle.** -/
theorem exists_cyclic_of_notMem_evaluationOrder (h : g.WellFormed) {i : Fin g.size}
    (hi : i ∉ evaluationOrder g.adjacency) :
    ∃ j, Relation.TransGen g.adjacency.Linked j j ∧
      Relation.ReflTransGen g.adjacency.Linked j i :=
  exists_transGen_self_of_backward (P := (· ∉ evaluationOrder g.adjacency))
    (fun _ => exists_linked_of_notMem_evaluationOrder h) hi

theorem mem_evaluationOrder_of_acyclic (h : g.WellFormed)
    (hc : Lint.cycles g g.adjacency = []) (i : Fin g.size) :
    i ∈ evaluationOrder g.adjacency := by
  by_contra hi
  obtain ⟨j, hj, -⟩ := exists_cyclic_of_notMem_evaluationOrder h hi
  exact Lint.cycleNodes_eq_nil_iff.1 (Lint.cycles_eq_nil_iff.1 hc) j hj

/-- **Without cycles nothing is left out.** -/
theorem evaluationOrder_perm (h : g.WellFormed) (hc : Lint.cycles g g.adjacency = []) :
    (evaluationOrder g.adjacency).Perm (List.finRange g.size) := by
  rw [List.perm_ext_iff_of_nodup (evaluationOrder_nodup _) (List.nodup_finRange _)]
  exact fun i => iff_of_true (mem_evaluationOrder_of_acyclic h hc i) (List.mem_finRange i)

/-! ## Reports -/

section Report

variable {σ : Type} (stamp : Bool → StateM σ Text.Instant) (clock : σ)

theorem completed_simulateM (g : Graph) : ((simulateM stamp g).run clock).1.completed
    = (outcomes g).map Outcome.node := by
  rw [simulateM]
  split
  · rename_i hnone
    rw [hnone]
    rfl
  · conv_rhs => rw [← outcome_mapM stamp (outcomes g) clock, List.map_map]
    rfl

theorem outcome_simulateM (g : Graph) :
    ((simulateM stamp g).run clock).1.records.map Record.outcome
      = if outcomes g = [] then [noStart] else outcomes g := by
  rw [simulateM]
  split
  · rename_i hnone
    rw [if_pos hnone]
    rfl
  · rename_i hsome
    rw [if_neg hsome]
    exact outcome_mapM stamp (outcomes g) clock

theorem mem_completed_iff {i : Fin g.size} (hd : (g.nodes.map Node.id).Nodup) :
    (g.nodeAt i).id ∈ ((simulateM stamp g).run clock).1.completed ↔
      i ∈ evaluationOrder g.adjacency := by
  rw [completed_simulateM, outcomes_map_node]
  exact List.mem_map_of_injective (Graph.nodeAt_id_injective hd)

end Report

/-- The record of a chart without a start is no record of a node. -/
theorem assess_ne_noStart (node : Node) (reached : Bool) : assess node reached ≠ noStart := by
  intro h
  have hstatus : (readiness node reached).1 = .error := congrArg Outcome.status h
  have hmessage : (readiness node reached).2 = noStart.message := congrArg Outcome.message h
  revert hstatus hmessage
  rw [readiness]
  repeat' split
  all_goals simp [noStart]

theorem noStart_notMem_outcomes (g : Graph) : noStart ∉ outcomes g := by
  intro h
  obtain ⟨i, -, hi⟩ := List.mem_map.1 h
  exact assess_ne_noStart _ _ hi

/-- **What a simulation leaves out lies behind a cycle.**  So if the check finds no cycle, every
node is completed, each once; and a simulation that finds nowhere to start has nothing to simulate
or a cycle in its way. -/
theorem simulateM_leaves_out_behind_cycles {σ : Type} (stamp : Bool → StateM σ Text.Instant)
    (clock : σ) (g : Graph) (h : g.checkIntegrity = .ok ()) :
    let r := ((simulateM stamp g).run clock).1
    (∀ u ∈ g.nodes.map Node.id, u ∉ r.completed →
      ∃ c, IsCycle g.Arc c ∧ ∃ v ∈ c, Relation.ReflTransGen g.Arc v u) ∧
    (Lint.cycles g g.adjacency = [] → r.completed.Perm (g.nodes.map Node.id)) ∧
    (noStart ∈ r.records.map Record.outcome →
      g.nodes = [] ∨ Lint.cycles g g.adjacency ≠ []) := by
  have hw := g.checkIntegrity_eq_ok_iff.1 h
  -- The last two parts rest on this: without a finding, every place is in the order.
  have hperm : Lint.cycles g g.adjacency = [] →
      ((outcomes g).map Outcome.node).Perm (g.nodes.map Node.id) := by
    intro hc
    have hnodes : g.nodes.map Node.id = (List.finRange g.size).map fun i => (g.nodeAt i).id := by
      conv_lhs => rw [← g.map_nodeAt_finRange, List.map_map]
      rfl
    rw [outcomes_map_node, hnodes]
    exact (evaluationOrder_perm hw hc).map _
  refine ⟨fun u hu hleft => ?_, fun hc => ?_, fun hnowhere => ?_⟩
  · -- What is left out lies behind a place that comes back to itself, on a cycle of places.
    obtain ⟨node, hmem, rfl⟩ := List.mem_map.1 hu
    obtain ⟨i, rfl⟩ := Graph.exists_nodeAt hmem
    rw [mem_completed_iff stamp clock hw.nodes] at hleft
    obtain ⟨j, hj, hji⟩ := exists_cyclic_of_notMem_evaluationOrder hw hleft
    obtain ⟨c, hc, hjc⟩ := exists_isCycle_iff.2 hj
    exact ⟨c.map fun k => (g.nodeAt k).id,
      (isCycle_map fun _ _ => (Graph.linked_iff_arc hw.nodes).symm).2 hc,
      (g.nodeAt j).id, List.mem_map_of_mem hjc,
      (Graph.reflTransGen_arc_iff hw.nodes).2 ⟨i, rfl, hji⟩⟩
  · rw [completed_simulateM]
    exact hperm hc
  · rw [outcome_simulateM] at hnowhere
    by_cases hnone : outcomes g = []
    · refine or_iff_not_imp_right.2 fun hc => ?_
      have hids := (hperm (not_not.1 hc)).symm
      rw [hnone, List.map_nil, List.perm_nil, List.map_eq_nil_iff] at hids
      exact hids
    · rw [if_neg hnone] at hnowhere
      exact absurd hnowhere (noStart_notMem_outcomes g)

/-- A start with a node after it, and a cycle with a node behind it. -/
def behindCycle : Graph where
  nodes := ["a", "b", "c", "d", "e"].map fun id => { id, component := .flow {} }
  edges := [⟨"1", "a", "b", []⟩, ⟨"2", "c", "d", []⟩, ⟨"3", "d", "c", []⟩, ⟨"4", "d", "e", []⟩]

theorem simulateM_leaves_out_behindCycle : behindCycle.checkIntegrity = .ok () ∧
    ((simulateM ticking behindCycle).run 0).1.completed = ["a", "b"] ∧
    ∃ c, IsCycle behindCycle.Arc c ∧ ∃ v ∈ c, Relation.ReflTransGen behindCycle.Arc v "e" := by
  have hstarts : behindCycle.adjacency.starts = [⟨0, by decide⟩] := by decide
  have horder : evaluationOrder behindCycle.adjacency = [⟨0, by decide⟩, ⟨1, by decide⟩] := by
    rw [evaluationOrder, Walk.all, hstarts]
    simp only [List.foldl]
    rw [Walk.start, if_neg (by decide), Walk.run_cons _ rfl, Walk.run_cons _ rfl,
      Walk.run_cons _ rfl, Walk.run_nil _ rfl]
    decide
  have hc : ((simulateM ticking behindCycle).run 0).1.completed = ["a", "b"] := by
    rw [completed_simulateM, outcomes_map_node, horder]
    rfl
  refine ⟨by rfl, hc, ?_⟩
  exact (simulateM_leaves_out_behind_cycles ticking 0 behindCycle (by rfl)).1 "e" (by decide)
    (by rw [hc]; decide)

end Simulation

end CrewChart

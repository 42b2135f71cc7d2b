import CrewChart.Proofs.CyclePath
import CrewChart.Proofs.Findings
import CrewChart.Proofs.Outcomes

/-!
# Verdicts do not depend on order

The search for cycles starts from the first node, and a simulation evaluates what it comes to first.
So which nodes of a cycle are reported, and in which order records are made, depends on how the
nodes and edges of a chart are listed.  What is found does not.

No walk is compared with another here.  What a check and a simulation find is said of nodes, edges
and arcs in `Findings` and `Outcomes`, and these are the same in every order.

## What is here

* `Graph.Reordered` — the same nodes and the same edges, in whatever order; the arcs are the same.
* `Lint.isolation_perm`, `Lint.required_perm`, `Lint.cycles_eq_nil_iff_of_reordered` — rule by rule,
  what is found.
* `Lint.SameVerdicts` — two lists of findings that say the same of a chart.
* `Simulation.outcomes_perm` — a simulation has the same outcomes.
* `verdicts_of_reordered` — all of it, said of the check and of the reports.
-/

set_option autoImplicit false

namespace CrewChart

/-! ## Charts in another order -/

/-- The same nodes and the same edges, in whatever order. -/
structure Graph.Reordered (g g' : Graph) : Prop where
  nodes : g.nodes.Perm g'.nodes
  edges : g.edges.Perm g'.edges

namespace Graph.Reordered

variable {g g' : Graph}

theorem nodup (h : g.Reordered g') (hd : (g.nodes.map Node.id).Nodup) :
    (g'.nodes.map Node.id).Nodup :=
  (h.nodes.map Node.id).nodup_iff.1 hd

/-- **The arcs are the same in every order.** -/
theorem arc_eq (h : g.Reordered g') : g.Arc = g'.Arc := by
  funext u v
  simp only [Graph.Arc, h.edges.mem_iff, (h.nodes.map Node.id).mem_iff]

end Graph.Reordered

/-! ## Findings -/

namespace Lint

section Rules

variable {g g' : Graph}

theorem isolation_perm (h : g.Reordered g') (hd : (g.nodes.map Node.id).Nodup) :
    (isolation g g.adjacency).Perm (isolation g' g'.adjacency) := by
  rw [isolation_eq hd, isolation_eq (h.nodup hd)]
  simp only [h.edges.any_eq]
  exact (h.nodes.filter _).map _

theorem required_perm (h : g.Reordered g') (hd : (g.nodes.map Node.id).Nodup) :
    (required g g.adjacency).Perm (required g' g'.adjacency) := by
  rw [required_eq hd, required_eq (h.nodup hd)]
  simp only [h.edges.any_eq]
  exact h.nodes.flatMap_right _

theorem cycles_eq_nil_iff_of_reordered (h : g.Reordered g')
    (hd : (g.nodes.map Node.id).Nodup) :
    cycles g g.adjacency = [] ↔ cycles g' g'.adjacency = [] := by
  rw [cycles_eq_nil_iff_acyclic hd, cycles_eq_nil_iff_acyclic (h.nodup hd), h.arc_eq]

end Rules

/-- Two lists of findings that say the same, but for the nodes that cycles are reported at. -/
structure SameVerdicts (findings findings' : List Finding) : Prop where
  /-- What is not about cycles is found in both, each as often as in the other. -/
  rest : (findings.filter fun f => f.code != cycleCode).Perm
    (findings'.filter fun f => f.code != cycleCode)
  /-- If a cycle is found in one, it is in the other. -/
  cyclic : (∃ f ∈ findings, f.code = cycleCode) ↔ ∃ f ∈ findings', f.code = cycleCode
  /-- Both keep a chart from passing, or neither. -/
  errors : hasErrors findings = hasErrors findings'

section Verdicts

variable {g g' : Graph}

theorem check_sameVerdicts (h : g.Reordered g') (hd : (g.nodes.map Node.id).Nodup) :
    SameVerdicts (check g) (check g') := by
  have hrequired := required_perm h hd
  have hcycles := cycles_eq_nil_iff_of_reordered h hd
  refine ⟨?_, ?_, ?_⟩
  · rw [filter_check, filter_check]
    exact (isolation_perm h hd).append hrequired
  · rw [exists_cycleCode_iff, exists_cycleCode_iff]
    exact not_congr hcycles
  · rw [Bool.eq_iff_iff, hasErrors_check_iff_required, hasErrors_check_iff_required, Ne, hcycles]
    simp only [hrequired.mem_iff, Ne]

end Verdicts

end Lint

/-! ## Outcomes -/

namespace Simulation

section Outcomes

variable {g g' : Graph}

theorem startIds_perm (h : g.Reordered g') : (startIds g).Perm (startIds g') := by
  rw [startIds, startIds]
  simp only [h.edges.any_eq]
  exact (h.nodes.filter _).map _

/-- **A simulation has the same outcomes**, whichever it comes to first. -/
theorem outcomes_perm (h : g.Reordered g') (hd : (g.nodes.map Node.id).Nodup) :
    (outcomes g).Perm (outcomes g') := by
  rw [List.perm_ext_iff_of_nodup (nodup_outcomes hd) (nodup_outcomes (h.nodup hd))]
  intro o
  rw [mem_outcomes_iff hd, mem_outcomes_iff (h.nodup hd)]
  simp only [h.nodes.mem_iff, (startIds_perm h).mem_iff, h.arc_eq, h.edges.any_eq]

end Outcomes

/-- **Verdicts do not depend on order.**  However the nodes and edges of a chart are listed, and
whatever the clocks show, the check says the same of it and the records of a simulation say the
same. -/
theorem verdicts_of_reordered {σ σ' : Type} (stamp : Bool → StateM σ Text.Instant) (clock : σ)
    (stamp' : Bool → StateM σ' Text.Instant) (clock' : σ') (g g' : Graph)
    (hd : (g.nodes.map Node.id).Nodup) (h : g.Reordered g') :
    Lint.SameVerdicts (Lint.check g) (Lint.check g') ∧
      (((simulateM stamp g).run clock).1.records.map Record.outcome).Perm
        (((simulateM stamp' g').run clock').1.records.map Record.outcome) := by
  refine ⟨Lint.check_sameVerdicts h hd, ?_⟩
  have hperm := outcomes_perm h hd
  rw [outcome_simulateM, outcome_simulateM]
  by_cases hnone : outcomes g = []
  · rw [hnone, List.nil_perm] at hperm
    rw [if_pos hnone, if_pos hperm]
  · have hnone' : outcomes g' ≠ [] := by
      intro hnil
      rw [hnil, List.perm_nil] at hperm
      exact hnone hperm
    rw [if_neg hnone, if_neg hnone']
    exact hperm

/-- A cycle behind a start, a node on the cycle that a missing node leads to as well, and a node
that lacks its type. -/
def roundabout : Graph where
  nodes := [⟨"a", .origin, .agent { role := some "Analyst", goals := some "Find out" }, []⟩,
    ⟨"k", .origin, .task { description := some "Draft" }, []⟩,
    ⟨"m", .origin, .task { description := some "Review" }, []⟩, ⟨"t", .origin, .tool {}, []⟩]
  edges := [⟨"1", "a", "k", []⟩, ⟨"2", "k", "m", []⟩, ⟨"3", "m", "k", []⟩, ⟨"4", "x", "m", []⟩]

/-- The same chart, listed backwards. -/
def roundaboutBackwards : Graph := ⟨roundabout.nodes.reverse, roundabout.edges.reverse⟩

/-- The cycle is reported at another node and the records are made in another order. -/
theorem verdicts_of_roundabout : (roundabout.nodes.map Node.id).Nodup ∧
    roundabout.Reordered roundaboutBackwards ∧
    Lint.SameVerdicts (Lint.check roundabout) (Lint.check roundaboutBackwards) ∧
    (Lint.cycles roundabout roundabout.adjacency
      ≠ Lint.cycles roundaboutBackwards roundaboutBackwards.adjacency) ∧
    (((simulateM ticking roundabout).run 0).1.records.map Record.outcome).Perm
      (((simulateM ticking roundaboutBackwards).run 0).1.records.map Record.outcome) := by
  have hd : (roundabout.nodes.map Node.id).Nodup := by decide
  have h : roundabout.Reordered roundaboutBackwards :=
    ⟨(List.reverse_perm _).symm, (List.reverse_perm _).symm⟩
  obtain ⟨hcheck, hrecords⟩ :=
    verdicts_of_reordered ticking 0 ticking 0 roundabout roundaboutBackwards hd h
  have hforwards : (Lint.cycles roundabout roundabout.adjacency).map Lint.Finding.node
      = [some "k"] := by
    rw [Lint.cycles, Lint.cycleNodes, ← Lint.Search.turns_eq_all (k := 12) rfl]
    rfl
  have hbackwards : (Lint.cycles roundaboutBackwards roundaboutBackwards.adjacency).map
      Lint.Finding.node = [some "m"] := by
    rw [Lint.cycles, Lint.cycleNodes, ← Lint.Search.turns_eq_all (k := 12) rfl]
    rfl
  refine ⟨hd, h, hcheck, fun heq => ?_, hrecords⟩
  rw [heq, hbackwards] at hforwards
  exact absurd hforwards (by decide)

end Simulation

end CrewChart

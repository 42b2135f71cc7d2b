import CrewChart.Proofs.Coverage
import CrewChart.Proofs.Findings

/-!
# Readiness and required attributes

A simulation asks of a node whether it could run, and a check what it lacks.  The two rules are
written apart: readiness stops at the first thing amiss, the check lists all of them, and what is an
error for one may be a warning for the other.  This file compares them.

## What is here

* `status_eq_error_iff` — a node is in error when it lacks an attribute that is an error for the
  check too, or when the configuration of a tool is no JSON.
* `Report.hasErrors_simulateM_iff` — what makes a simulation fail, node by node.
* `simulateM_fails_only_by_configuration` — a chart that passes fails only for want of nodes or by
  the configuration of a tool.
-/

set_option autoImplicit false

namespace CrewChart.Simulation

variable {g : Graph}

/-! ## One node -/

theorem badConfiguration_iff (t : Tool) : badConfiguration t = true ↔
    ∃ text, t.configuration = some text ∧ text ≠ "" ∧ ∀ v, Json.Value.parse text ≠ .ok v := by
  rw [badConfiguration]
  cases hfilled : filled t.configuration with
  | none =>
    refine ⟨fun h => absurd h (by simp), fun ⟨_, hs, hne, _⟩ => ?_⟩
    rw [(filled_eq_some_iff _ _).2 ⟨hs, hne⟩] at hfilled
    exact absurd hfilled (by simp)
  | some text =>
    obtain ⟨hs, hne⟩ := (filled_eq_some_iff _ _).1 hfilled
    have hparse : (Json.Value.parse text).toOption.isNone = true ↔
        ∀ v, Json.Value.parse text ≠ .ok v := by
      cases Json.Value.parse text <;> simp [Except.toOption]
    constructor
    · exact fun h => ⟨text, hs, hne, hparse.1 h⟩
    · rintro ⟨text', hs', -, hbad⟩
      obtain rfl : text = text' := Option.some.inj (hs.symm.trans hs')
      exact hparse.2 hbad

/-- **Where a simulation finds an error, so does the check**, but for configurations.  A task that
no edge leads to is an error for the check alone. -/
theorem status_eq_error_iff (node : Node) (reached : Bool) :
    (assess node reached).status = .error ↔
      (∃ f ∈ Lint.lacks node reached, f.isError = true ∧ f.code ≠ "TASK_AGENT_REQUIRED") ∨
        ∃ t, node.tool? = some t ∧ badConfiguration t = true := by
  have hstatus : (assess node reached).status = (readiness node reached).1 := rfl
  rw [hstatus, readiness, Lint.lacks, Node.tool?]
  -- Both go by the kind and by which texts are blank; those are made booleans and run through.
  cases node.component with
  | agent a =>
    dsimp only
    generalize (filled a.role).isNone = role, (filled a.goals).isNone = goals
    cases role <;> cases goals <;>
      simp [Lint.findingIf, Lint.Finding.error, Lint.Finding.isError]
  | task t =>
    dsimp only
    generalize (filled t.description).isNone = description
    cases description <;> cases reached <;>
      simp [Lint.findingIf, Lint.Finding.error, Lint.Finding.isError]
  | tool t =>
    dsimp only
    generalize (filled t.toolType).isNone = toolType
    cases toolType <;> cases hbad : badConfiguration t <;>
      simp [hbad, Lint.findingIf, Lint.Finding.error, Lint.Finding.isError]
  | flow f =>
    dsimp only
    generalize (f.isConditional && (filled f.condition).isNone) = lacking
    cases lacking <;> simp [Lint.findingIf, Lint.Finding.warning, Lint.Finding.isError]

/-! ## All nodes -/

section Report

variable {σ : Type} (stamp : Bool → StateM σ Text.Instant) (clock : σ)

/-- **What makes a simulation fail**: that there is no start, or that a node it comes to is in
error. -/
theorem Report.hasErrors_simulateM_iff :
    ((simulateM stamp g).run clock).1.hasErrors = true ↔ outcomes g = [] ∨
      ∃ i ∈ evaluationOrder g.adjacency,
        (assess (g.nodeAt i) (g.adjacency.hasIncoming i)).status = .error := by
  have hrecorded : ((simulateM stamp g).run clock).1.hasErrors
      = (((simulateM stamp g).run clock).1.records.map Record.outcome).any
          fun o => o.status == .error := by
    rw [hasErrors, List.any_map]
    rfl
  rw [hrecorded, outcome_simulateM, List.any_eq_true]
  simp only [beq_iff_eq]
  by_cases hnone : outcomes g = []
  · rw [if_pos hnone]
    exact iff_of_true ⟨noStart, List.mem_singleton_self _, rfl⟩ (.inl hnone)
  · rw [if_neg hnone, or_iff_right hnone]
    constructor
    · rintro ⟨o, ho, herror⟩
      obtain ⟨i, hi, rfl⟩ := List.mem_map.1 ho
      exact ⟨i, hi, herror⟩
    · rintro ⟨i, hi, herror⟩
      exact ⟨_, List.mem_map_of_mem hi, herror⟩

/-- **A chart that passes fails only for want of nodes or by the configuration of a tool.**  The
check leaves no cycle, so the simulation comes to every node, and it leaves nothing lacking. -/
theorem simulateM_fails_only_by_configuration (g : Graph) (h : g.checkIntegrity = .ok ())
    (hpass : Lint.hasErrors (Lint.check g) = false) :
    ((simulateM stamp g).run clock).1.hasErrors = true ↔ g.nodes = [] ∨
      ∃ node ∈ g.nodes, ∃ t, node.tool? = some t ∧ ∃ text, t.configuration = some text ∧
        text ≠ "" ∧ ∀ v, Json.Value.parse text ≠ .ok v := by
  have hw := g.checkIntegrity_eq_ok_iff.1 h
  rw [← Bool.not_eq_true, Lint.hasErrors_check_iff, not_or, not_not] at hpass
  obtain ⟨hlacks, hcycles⟩ := hpass
  have hall := mem_evaluationOrder_of_acyclic hw hcycles
  have hnone : outcomes g = [] ↔ g.nodes = [] := by
    rw [outcomes, List.map_eq_nil_iff, List.eq_nil_iff_forall_not_mem,
      List.eq_nil_iff_forall_not_mem]
    constructor
    · intro hno node hnode
      obtain ⟨i, -⟩ := Graph.exists_nodeAt hnode
      exact hno i (hall i)
    · exact fun hno i _ => hno _ (g.nodeAt_mem i)
  -- Every other error of a step would have been an error of the check.
  have herror : ∀ i, (assess (g.nodeAt i) (g.adjacency.hasIncoming i)).status = .error ↔
      ∃ t, (g.nodeAt i).tool? = some t ∧ badConfiguration t = true := by
    intro i
    rw [status_eq_error_iff, or_iff_right]
    rintro ⟨f, hf, hferror, -⟩
    exact hlacks ⟨i, f, hf, hferror⟩
  rw [Report.hasErrors_simulateM_iff, hnone]
  simp only [herror, badConfiguration_iff]
  refine or_congr_right ⟨?_, ?_⟩
  · rintro ⟨i, -, hi⟩
    exact ⟨_, g.nodeAt_mem i, hi⟩
  · rintro ⟨node, hnode, ht⟩
    obtain ⟨i, rfl⟩ := Graph.exists_nodeAt hnode
    exact ⟨i, hall i, ht⟩

end Report

/-- An agent that uses a tool whose configuration breaks off. -/
def brokenConfiguration : Graph where
  nodes := [⟨"a", .origin, .agent { role := some "Analyst", goals := some "Find out" }, []⟩,
    ⟨"t", .origin, .tool { toolType := some "FileReadTool", configuration := some "[1," }, []⟩]
  edges := [⟨"1", "a", "t", []⟩]

theorem simulateM_fails_brokenConfiguration : brokenConfiguration.checkIntegrity = .ok () ∧
    Lint.hasErrors (Lint.check brokenConfiguration) = false ∧
    ((simulateM ticking brokenConfiguration).run 0).1.hasErrors = true := by
  have hpass : Lint.hasErrors (Lint.check brokenConfiguration) = false :=
    Lint.hasErrors_check_of_lt (by decide) (by decide)
  refine ⟨by rfl, hpass, ?_⟩
  exact (simulateM_fails_only_by_configuration ticking 0 _ (by rfl) hpass).2
    (.inr ⟨_, List.mem_cons_of_mem _ (List.mem_singleton_self _), _, rfl,
      (badConfiguration_iff _).1 (by decide +kernel)⟩)

end CrewChart.Simulation

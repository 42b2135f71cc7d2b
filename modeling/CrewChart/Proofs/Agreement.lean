import CrewChart.Proofs.Findings
import CrewChart.Proofs.Outcomes
import CrewChart.Proofs.Readiness

/-!
# Records agree with findings

A check lists all that a node lacks, a simulation says of each node it comes to whether it could
run.  This file says, status by status, which findings a record goes with.

The two part in two places only.  A simulation reads the configuration of a tool, which the check
does not look at; and a task without an edge that leads to it is an error for the check, but only a
warning for the simulation, and that only if nothing else is amiss.

## What is here

* `status_eq_error_iff_lacks`, `status_eq_warning_iff_lacks` — one node, by what it lacks.
* `Fails`, `Doubtful`, `Agrees` — what the findings about a node say of its record.
* `simulateM_agrees_with_check` — every record agrees with the findings about its node.
-/

set_option autoImplicit false

namespace CrewChart.Simulation

open Lint (Lacks Reports)

/-! ## One node -/

section Node

variable {node : Node} {reached : Bool}

/-- The errors among what a node lacks, but for a task that nobody does, are told by their codes. -/
theorem isError_iff_code_of_mem_lacks {f : Lint.Finding} (hf : f ∈ Lint.lacks node reached) :
    (f.isError = true ∧ f.code ≠ "TASK_AGENT_REQUIRED") ↔
      f.code = "AGENT_ROLE_REQUIRED" ∨ f.code = "AGENT_GOALS_REQUIRED" ∨
        f.code = "TASK_DESCRIPTION_REQUIRED" ∨ f.code = "TOOL_TYPE_REQUIRED" := by
  obtain ⟨-, ⟨herror, hcode⟩ | ⟨herror, hcode⟩⟩ := Lint.mem_lacks_cases hf
  · simp only [List.mem_cons, List.not_mem_nil, or_false] at hcode
    rw [herror]
    obtain h | h | h | h | h := hcode <;> rw [h] <;> decide
  · rw [herror, hcode]
    decide

theorem status_eq_error_iff_lacks : (assess node reached).status = .error ↔
    (Lacks node reached "AGENT_ROLE_REQUIRED" ∨ Lacks node reached "AGENT_GOALS_REQUIRED" ∨
      Lacks node reached "TASK_DESCRIPTION_REQUIRED" ∨ Lacks node reached "TOOL_TYPE_REQUIRED") ∨
      ∃ t, node.tool? = some t ∧ badConfiguration t = true := by
  have hcodes : (∃ f ∈ Lint.lacks node reached, f.isError = true ∧ f.code ≠ "TASK_AGENT_REQUIRED") ↔
      ∃ f ∈ Lint.lacks node reached, f.code = "AGENT_ROLE_REQUIRED" ∨
        f.code = "AGENT_GOALS_REQUIRED" ∨ f.code = "TASK_DESCRIPTION_REQUIRED" ∨
          f.code = "TOOL_TYPE_REQUIRED" :=
    exists_congr fun _ => and_congr_right isError_iff_code_of_mem_lacks
  rw [status_eq_error_iff, hcodes]
  simp only [Lacks, and_or_left, exists_or]

theorem status_eq_warning_iff_lacks : (assess node reached).status = .warning ↔
    Lacks node reached "FLOW_CONDITION_REQUIRED" ∨
      (Lacks node reached "TASK_AGENT_REQUIRED" ∧
        ¬ Lacks node reached "TASK_DESCRIPTION_REQUIRED") := by
  have hstatus : (assess node reached).status = (readiness node reached).1 := rfl
  rw [hstatus, readiness, Lacks, Lacks, Lacks, Lint.lacks]
  cases node.component with
  | agent a =>
    dsimp only
    generalize (filled a.role).isNone = role, (filled a.goals).isNone = goals
    cases role <;> cases goals <;> simp [Lint.findingIf, Lint.Finding.error]
  | task t =>
    dsimp only
    generalize (filled t.description).isNone = description
    cases description <;> cases reached <;> simp [Lint.findingIf, Lint.Finding.error]
  | tool t =>
    dsimp only
    generalize (filled t.toolType).isNone = toolType
    cases toolType <;> cases badConfiguration t <;> simp [Lint.findingIf, Lint.Finding.error]
  | flow f =>
    dsimp only
    generalize (f.isConditional && (filled f.condition).isNone) = lacking
    cases lacking <;> simp [Lint.findingIf, Lint.Finding.warning]

end Node

/-! ## Records and findings -/

/-- The check reports something about a node that a simulation takes for an error too, or the node
is a tool with a configuration that is no JSON. -/
def Fails (g : Graph) (node : Node) : Prop :=
  (Reports g node.id "AGENT_ROLE_REQUIRED" ∨ Reports g node.id "AGENT_GOALS_REQUIRED" ∨
    Reports g node.id "TASK_DESCRIPTION_REQUIRED" ∨ Reports g node.id "TOOL_TYPE_REQUIRED") ∨
    ∃ t, node.tool? = some t ∧ ∃ text, t.configuration = some text ∧ text ≠ "" ∧
      ∀ v, Json.Value.parse text ≠ .ok v

/-- The check reports something about a node that a simulation only warns of. -/
def Doubtful (g : Graph) (node : Node) : Prop :=
  Reports g node.id "FLOW_CONDITION_REQUIRED" ∨
    (Reports g node.id "TASK_AGENT_REQUIRED" ∧ ¬ Reports g node.id "TASK_DESCRIPTION_REQUIRED")

/-- The status a node is recorded with goes with what the check reports about it. -/
structure Agrees (g : Graph) (node : Node) (s : Status) : Prop where
  error : s = .error ↔ Fails g node
  warning : s = .warning ↔ Doubtful g node
  success : s = .success ↔ ¬ Fails g node ∧ ¬ Doubtful g node

variable {g : Graph}

/-- How a node is assessed agrees with the findings about it. -/
theorem agrees_assess (hd : (g.nodes.map Node.id).Nodup) {node : Node} (hn : node ∈ g.nodes) :
    Agrees g node (assess node (g.edges.any fun e => e.target == node.id)).status := by
  have hreports : ∀ code, code ≠ Lint.isolationCode → code ≠ Lint.cycleCode →
      (Reports g node.id code ↔ Lacks node (g.edges.any fun e => e.target == node.id) code) :=
    fun _ hisolation hcycle => Lint.reports_iff_lacks hd hn hisolation hcycle
  have herror : (assess node (g.edges.any fun e => e.target == node.id)).status = .error ↔
      Fails g node := by
    rw [status_eq_error_iff_lacks, Fails, hreports _ (by decide) (by decide),
      hreports _ (by decide) (by decide), hreports _ (by decide) (by decide),
      hreports _ (by decide) (by decide)]
    simp only [badConfiguration_iff]
  have hwarning : (assess node (g.edges.any fun e => e.target == node.id)).status = .warning ↔
      Doubtful g node := by
    rw [status_eq_warning_iff_lacks, Doubtful, hreports _ (by decide) (by decide),
      hreports _ (by decide) (by decide), hreports _ (by decide) (by decide)]
  refine ⟨herror, hwarning, ?_⟩
  rw [← herror, ← hwarning]
  cases (assess node (g.edges.any fun e => e.target == node.id)).status <;> decide

/-- **Records agree with findings.**  Every node a simulation evaluates has one record, and its
status goes with what the check reports about the node. -/
theorem simulateM_agrees_with_check {σ : Type} (stamp : Bool → StateM σ Text.Instant) (clock : σ)
    (g : Graph) (hd : (g.nodes.map Node.id).Nodup) :
    let r := ((simulateM stamp g).run clock).1
    ∀ node ∈ g.nodes, node.id ∈ r.completed →
      ∃ x, r.records.filter (fun x => x.outcome.node == node.id) = [x] ∧
        Agrees g node x.outcome.status := by
  intro r node hn hcompleted
  obtain ⟨x, hx, hassessed⟩ := exists_record_of_mem_completed stamp clock hd hn hcompleted
  refine ⟨x, hx, ?_⟩
  rw [hassessed]
  exact agrees_assess hd hn

/-- A task that nobody does, one that a missing node does, and an agent without a role. -/
def halfAssigned : Graph where
  nodes := [⟨"k", .origin, .task { description := some "Draft" }, []⟩,
    ⟨"m", .origin, .task { description := some "Review" }, []⟩,
    ⟨"a", .origin, .agent { goals := some "Find out" }, []⟩]
  edges := [⟨"1", "k", "m", []⟩, ⟨"2", "x", "m", []⟩, ⟨"3", "m", "a", []⟩]

theorem simulateM_agrees_halfAssigned : (halfAssigned.nodes.map Node.id).Nodup ∧
    ∃ node ∈ halfAssigned.nodes,
      node.id ∈ ((simulateM ticking halfAssigned).run 0).1.completed ∧
      ∃ x, ((simulateM ticking halfAssigned).run 0).1.records.filter
          (fun x => x.outcome.node == node.id) = [x] ∧
        Agrees halfAssigned node x.outcome.status ∧ x.outcome.status = .warning := by
  have hd : (halfAssigned.nodes.map Node.id).Nodup := by decide
  have hcycles : Lint.cycles halfAssigned halfAssigned.adjacency = [] :=
    Lint.cycles_eq_nil_iff.2 (Lint.cycleNodes_eq_nil_of_lt (by decide))
  have hfindings : (Lint.check halfAssigned).map (fun f => (f.node, f.code))
      = [(some "k", "TASK_AGENT_REQUIRED"), (some "a", "AGENT_ROLE_REQUIRED")] := by
    rw [Lint.check, hcycles]
    rfl
  have hreports : ∀ code, Lint.Reports halfAssigned "k" code ↔ code = "TASK_AGENT_REQUIRED" := by
    intro code
    have hmem : Lint.Reports halfAssigned "k" code ↔
        (some "k", code) ∈ (Lint.check halfAssigned).map fun f => (f.node, f.code) := by
      simp only [Lint.Reports, List.mem_map, Prod.mk.injEq]
    rw [hmem, hfindings]
    simp
  have hk : ⟨"k", .origin, .task { description := some "Draft" }, []⟩ ∈ halfAssigned.nodes :=
    List.mem_cons_self
  have hstart : (⟨0, by decide⟩ : Fin halfAssigned.size) ∈ halfAssigned.adjacency.starts := by
    decide
  have hmem : "k" ∈ ((simulateM ticking halfAssigned).run 0).1.completed :=
    (mem_completed_iff ticking 0 hd).2 (mem_evaluationOrder_iff.2 ⟨_, hstart, .refl⟩)
  obtain ⟨x, hx, hagrees⟩ := simulateM_agrees_with_check ticking 0 halfAssigned hd _ hk hmem
  refine ⟨hd, _, hk, hmem, x, hx, hagrees, hagrees.warning.2 (.inr ?_)⟩
  rw [hreports, hreports]
  decide

end CrewChart.Simulation

import CrewChart.Lint.Check
import CrewChart.Proofs.CycleSearch

/-!
# What a check finds, said of nodes and edges

The rules are evaluated place by place, on flags that were set while the edges were taken in.  Where
the ids of a chart are distinct they can be read off its nodes and edges, and this file says how.

## What is here

* `isolation_eq`, `required_eq` — the two rules without places and flags.
* `cycles_eq_nil_iff_acyclic` — there is a cycle to report exactly when some arcs lead back to where
  they came from.
* `mem_lacks_cases` — whom a finding about required attributes is about, and which code it has.
* `hasErrors_check_iff` — what keeps a chart from passing, node by node.
* `Lacks`, `Reports` — a node lacks something, and the check reports something about a node.
* `reports_iff_lacks` — what is reported about required attributes is what the node lacks.
-/

set_option autoImplicit false

namespace CrewChart.Lint

variable {g : Graph}

/-! ## The rules, without places -/

/-- A node is isolated when it is no end of any edge. -/
theorem isolation_eq (hd : (g.nodes.map Node.id).Nodup) : isolation g g.adjacency
    = (g.nodes.filter fun n => !g.edges.any fun e => e.source == n.id || e.target == n.id).map
        isolatedNode := by
  conv_rhs => rw [← g.map_nodeAt_finRange, List.filter_map, List.map_map]
  rw [isolation]
  simp only [Graph.isConnected_eq hd, Function.comp_def]

/-- What a node lacks depends on the node, and on whether it is the target of an edge. -/
theorem required_eq (hd : (g.nodes.map Node.id).Nodup) : required g g.adjacency
    = g.nodes.flatMap fun n => lacks n (g.edges.any fun e => e.target == n.id) := by
  conv_rhs => rw [← g.map_nodeAt_finRange, List.flatMap_map]
  rw [required]
  simp only [Graph.hasIncoming_eq hd]

/-- **There is a cycle to report exactly when arcs lead from some node back to it.** -/
theorem cycles_eq_nil_iff_acyclic (hd : (g.nodes.map Node.id).Nodup) :
    cycles g g.adjacency = [] ↔ ∀ u, ¬ Relation.TransGen g.Arc u u := by
  rw [cycles, List.map_eq_nil_iff, List.eq_nil_iff_forall_not_mem]
  constructor
  · intro hnone u hu
    obtain ⟨c, hc, -⟩ := exists_isCycle_iff.2 hu
    obtain ⟨c', hc', rfl⟩ := exists_isCycle_linked hd hc
    obtain ⟨i, -, hi⟩ := exists_mem_cycleNodes hc'
    exact hnone i hi
  · intro hacyclic i hi
    obtain ⟨c, -, hc, hic⟩ := exists_cycle_of_mem_cycleNodes hi
    have harcs := (isCycle_map fun i j => (Graph.linked_iff_arc hd).symm).2 hc
    exact hacyclic _ (exists_isCycle_iff.1 ⟨_, harcs, List.mem_map_of_mem hic⟩)

/-! ## The findings of each rule -/

theorem code_of_mem_isolation {f : Finding} (hf : f ∈ isolation g g.adjacency) :
    f.code = isolationCode := by
  obtain ⟨i, -, rfl⟩ := List.mem_map.1 hf
  rfl

theorem isError_of_mem_isolation {f : Finding} (hf : f ∈ isolation g g.adjacency) :
    f.isError = false := by
  obtain ⟨i, -, rfl⟩ := List.mem_map.1 hf
  rfl

theorem code_of_mem_cycles {f : Finding} (hf : f ∈ cycles g g.adjacency) : f.code = cycleCode := by
  obtain ⟨i, -, rfl⟩ := List.mem_map.1 hf
  rfl

theorem isError_of_mem_cycles {f : Finding} (hf : f ∈ cycles g g.adjacency) :
    f.isError = true := by
  obtain ⟨i, -, rfl⟩ := List.mem_map.1 hf
  rfl

/-- **What a node can lack.**  What is found is said of the node, and its code tells whether it is
an error. -/
theorem mem_lacks_cases {n : Node} {reached : Bool} {f : Finding} (hf : f ∈ lacks n reached) :
    f.node = some n.id ∧
      (f.isError = true ∧ f.code ∈ ["AGENT_ROLE_REQUIRED", "AGENT_GOALS_REQUIRED",
          "TASK_DESCRIPTION_REQUIRED", "TASK_AGENT_REQUIRED", "TOOL_TYPE_REQUIRED"] ∨
        f.isError = false ∧ f.code = "FLOW_CONDITION_REQUIRED") := by
  rw [lacks] at hf
  cases hkind : n.component with
  | agent a =>
    simp only [hkind, List.mem_append, mem_findingIf] at hf
    obtain ⟨-, rfl⟩ | ⟨-, rfl⟩ := hf
    · exact ⟨rfl, .inl ⟨rfl, by simp [Finding.error]⟩⟩
    · exact ⟨rfl, .inl ⟨rfl, by simp [Finding.error]⟩⟩
  | task t =>
    simp only [hkind, List.mem_append, mem_findingIf] at hf
    obtain ⟨-, rfl⟩ | ⟨-, rfl⟩ := hf
    · exact ⟨rfl, .inl ⟨rfl, by simp [Finding.error]⟩⟩
    · exact ⟨rfl, .inl ⟨rfl, by simp [Finding.error]⟩⟩
  | tool t =>
    simp only [hkind, mem_findingIf] at hf
    obtain ⟨-, rfl⟩ := hf
    exact ⟨rfl, .inl ⟨rfl, by simp [Finding.error]⟩⟩
  | flow f =>
    simp only [hkind, mem_findingIf] at hf
    obtain ⟨-, rfl⟩ := hf
    exact ⟨rfl, .inr ⟨rfl, rfl⟩⟩

theorem code_ne_of_mem_required {f : Finding} (hf : f ∈ required g g.adjacency) :
    f.code ≠ cycleCode := by
  obtain ⟨i, -, hi⟩ := List.mem_flatMap.1 hf
  obtain ⟨-, ⟨-, hcode⟩ | ⟨-, hcode⟩⟩ := mem_lacks_cases hi
  · have hne : cycleCode ∉ ["AGENT_ROLE_REQUIRED", "AGENT_GOALS_REQUIRED",
        "TASK_DESCRIPTION_REQUIRED", "TASK_AGENT_REQUIRED", "TOOL_TYPE_REQUIRED"] := by decide
    exact ne_of_mem_of_not_mem hcode hne
  · rw [hcode]
    decide

/-! ## The findings of a check -/

theorem mem_check_iff {f : Finding} : f ∈ check g ↔
    (f ∈ isolation g g.adjacency ∨ f ∈ required g g.adjacency) ∨ f ∈ cycles g g.adjacency := by
  rw [check, List.mem_append, List.mem_append]

/-- What is not about cycles is what the other two rules find. -/
theorem filter_check (g : Graph) : ((check g).filter fun f => f.code != cycleCode)
    = isolation g g.adjacency ++ required g g.adjacency := by
  have hkept : ∀ f ∈ isolation g g.adjacency ++ required g g.adjacency,
      (f.code != cycleCode) = true := by
    intro f hf
    rw [bne_iff_ne]
    rcases List.mem_append.1 hf with hf | hf
    · rw [code_of_mem_isolation hf]
      decide
    · exact code_ne_of_mem_required hf
  have hdropped : ∀ f ∈ cycles g g.adjacency, ¬ (f.code != cycleCode) = true := by
    intro f hf
    rw [code_of_mem_cycles hf]
    decide
  rw [check, List.filter_append, List.filter_eq_self.2 hkept, List.filter_eq_nil_iff.2 hdropped,
    List.append_nil]

theorem exists_cycleCode_iff : (∃ f ∈ check g, f.code = cycleCode) ↔ cycles g g.adjacency ≠ [] := by
  constructor
  · rintro ⟨f, hf, hcode⟩ hnone
    have hkept : f ∈ isolation g g.adjacency ++ required g g.adjacency := by
      rw [check, hnone, List.append_nil] at hf
      exact hf
    rw [← filter_check, List.mem_filter, hcode] at hkept
    exact absurd hkept.2 (by decide)
  · intro hsome
    obtain ⟨f, hf⟩ := List.exists_mem_of_ne_nil _ hsome
    exact ⟨f, mem_check_iff.2 (.inr hf), code_of_mem_cycles hf⟩

/-- An error among what is required keeps a chart from passing, and so does a cycle. -/
theorem hasErrors_check_iff_required : hasErrors (check g) = true ↔
    (∃ f ∈ required g g.adjacency, f.isError = true) ∨ cycles g g.adjacency ≠ [] := by
  rw [hasErrors, List.any_eq_true]
  constructor
  · rintro ⟨f, hf, herror⟩
    obtain (hf | hf) | hf := mem_check_iff.1 hf
    · rw [isError_of_mem_isolation hf] at herror
      exact absurd herror (by simp)
    · exact .inl ⟨f, hf, herror⟩
    · exact .inr (List.ne_nil_of_mem hf)
  · rintro (⟨f, hf, herror⟩ | hcycle)
    · exact ⟨f, mem_check_iff.2 (.inl (.inr hf)), herror⟩
    · obtain ⟨f, hf⟩ := List.exists_mem_of_ne_nil _ hcycle
      exact ⟨f, mem_check_iff.2 (.inr hf), isError_of_mem_cycles hf⟩

/-- **What keeps a chart from passing**: a node that lacks something it has to have, or a cycle. -/
theorem hasErrors_check_iff : hasErrors (check g) = true ↔
    (∃ i, ∃ f ∈ lacks (g.nodeAt i) (g.adjacency.hasIncoming i), f.isError = true) ∨
      cycles g g.adjacency ≠ [] := by
  rw [hasErrors_check_iff_required]
  refine or_congr_left ⟨?_, ?_⟩
  · rintro ⟨f, hf, herror⟩
    obtain ⟨i, -, hi⟩ := List.mem_flatMap.1 hf
    exact ⟨i, f, hi, herror⟩
  · rintro ⟨i, f, hf, herror⟩
    exact ⟨f, List.mem_flatMap.2 ⟨i, List.mem_finRange i, hf⟩, herror⟩

/-- A chart passes if all its links lead to later places, and no node lacks what it has to have. -/
theorem hasErrors_check_of_lt (hlinks : ∀ i, ∀ link ∈ g.adjacency.outgoing.get i, i < link.node)
    (hrequired : ∀ f ∈ required g g.adjacency, f.isError = false) :
    hasErrors (check g) = false := by
  rw [Bool.eq_false_iff, ne_eq, hasErrors_check_iff_required]
  rintro (⟨f, hf, herror⟩ | hcycle)
  · rw [hrequired f hf] at herror
    exact absurd herror (by simp)
  · exact hcycle (cycles_eq_nil_iff.2 (cycleNodes_eq_nil_of_lt hlinks))

/-! ## What is reported about a node -/

/-- Something a node lacks has this code; `reached` tells whether an edge leads to it. -/
def Lacks (n : Node) (reached : Bool) (code : String) : Prop :=
  ∃ f ∈ lacks n reached, f.code = code

/-- The check reports something with this code about the node of this id. -/
def Reports (g : Graph) (id code : String) : Prop :=
  ∃ f ∈ check g, f.node = some id ∧ f.code = code

/-- **What is reported about required attributes is what the node lacks.** -/
theorem reports_iff_lacks (hd : (g.nodes.map Node.id).Nodup) {n : Node} (hn : n ∈ g.nodes)
    {code : String} (hisolation : code ≠ isolationCode) (hcycle : code ≠ cycleCode) :
    Reports g n.id code ↔ Lacks n (g.edges.any fun e => e.target == n.id) code := by
  constructor
  · rintro ⟨f, hf, hnode, rfl⟩
    obtain (hf | hf) | hf := mem_check_iff.1 hf
    · exact absurd (code_of_mem_isolation hf) hisolation
    · rw [required_eq hd] at hf
      obtain ⟨m, hm, hfm⟩ := List.mem_flatMap.1 hf
      have hid : m.id = n.id := Option.some.inj ((mem_lacks_cases hfm).1.symm.trans hnode)
      rw [List.inj_on_of_nodup_map hd hm hn hid] at hfm
      exact ⟨f, hfm, rfl⟩
    · exact absurd (code_of_mem_cycles hf) hcycle
  · rintro ⟨f, hf, rfl⟩
    have hmem : f ∈ required g g.adjacency := by
      rw [required_eq hd]
      exact List.mem_flatMap.2 ⟨n, hn, hf⟩
    exact ⟨f, mem_check_iff.2 (.inl (.inr hmem)), (mem_lacks_cases hf).1, rfl⟩

end CrewChart.Lint

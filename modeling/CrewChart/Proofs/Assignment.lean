import CrewChart.Graph.Integrity
import CrewChart.Plan.Resolve
import CrewChart.Proofs.Findings

/-!
# Who does the tasks of a chart that passes

A check asks of a task that some edge leads to it.  A plan looks at the first of these edges only,
and gives the task to the node it comes from if that is an agent.  So in a chart that passes every
task has a first edge, but it has an agent only if an agent is at the other end of that edge.

## What is here

* `head?_incoming` — where the first incoming link of a node comes from, read off the edges.
* `agentOf_eq_some_iff` — who does a task, by the first edge that leads to it.
* `hasIncoming_of_passes` — in a chart that passes, some edge leads to each task.
* `resolve_assigns_by_first_edge` — the two put together, for the plan of a chart.
* `resolve_leaves_out_fedByTool` — a chart that passes, with a task that nobody does.
-/

set_option autoImplicit false

namespace CrewChart

variable {g : Graph}

/-! ## The first edge that leads to a node -/

/-- The first incoming link of a node is the first edge that leads to it and comes from a node. -/
theorem Graph.head?_incoming (g : Graph) (i : Fin g.size) :
    (g.adjacency.incoming.get i).head?.map Link.node
      = g.edges.findSome? fun e =>
          if g.position? e.target = some i then g.position? e.source else none := by
  conv_rhs => rw [← List.zipIdx_map_fst 0 g.edges, List.findSome?_map]
  rw [get_incoming, List.head?_filterMap, List.map_findSome?]
  refine congrArg (List.findSome? · g.edges.zipIdx) (funext fun (e, k) => ?_)
  show (Adjacency.linkFrom k _ _ i).map Link.node = ite _ _ _
  rw [Adjacency.linkFrom]
  split
  · cases g.position? e.source <;> rfl
  · rfl

/-- Where every edge comes from a node, the first edge that leads to a node is a link. -/
theorem Graph.WellFormed.head?_incoming_eq (h : g.WellFormed) {i j : Fin g.size} {e : Edge}
    (he : g.edges.find? (fun e => e.target == (g.nodeAt i).id) = some e)
    (hj : (g.nodeAt j).id = e.source) :
    (g.adjacency.incoming.get i).head?.map Link.node = some j := by
  obtain ⟨htarget, before, after, hedges, hbefore⟩ := List.find?_eq_some_iff_append.1 he
  rw [Graph.head?_incoming, List.findSome?_eq_some_iff]
  refine ⟨before, e, after, hedges, ?_, fun e' he' => if_neg fun hi => ?_⟩
  · rw [if_pos ((position?_eq_some_iff_of_nodup h.nodes).2 (beq_iff_eq.1 htarget).symm)]
    exact (position?_eq_some_iff_of_nodup h.nodes).2 hj
  · have hne := hbefore e' he'
    rw [nodeAt_of_position? hi, beq_self_eq_true] at hne
    exact absurd hne (by decide)

namespace Plan

/-- **Who does a task**: the node its first edge comes from, if that is an agent. -/
theorem agentOf_eq_some_iff (h : g.WellFormed) {i j : Fin g.size} {e : Edge}
    (he : g.edges.find? (fun e => e.target == (g.nodeAt i).id) = some e)
    (hj : (g.nodeAt j).id = e.source) (key : String) :
    agentOf g g.adjacency i = some key ↔
      (g.nodeAt j).agent?.isSome = true ∧ key = (g.nodeAt j).id := by
  have hhead := h.head?_incoming_eq he hj
  rw [agentOf]
  cases hlinks : g.adjacency.incoming.get i with
  | nil =>
    rw [hlinks] at hhead
    exact absurd hhead (by simp)
  | cons l rest =>
    rw [hlinks, List.head?_cons, Option.map_some, Option.some.injEq] at hhead
    subst hhead
    dsimp only
    cases (g.nodeAt l.node).agent? with
    | none => simp
    | some a => simp [eq_comm]

/-! ## Charts that pass -/

/-- **In a chart that passes, some edge leads to each task.** -/
theorem hasIncoming_of_passes (hpass : Lint.hasErrors (Lint.check g) = false) {i : Fin g.size}
    {t : Task} (ht : (g.nodeAt i).task? = some t) : g.adjacency.hasIncoming i = true := by
  rw [← Bool.not_eq_true, Lint.hasErrors_check_iff, not_or] at hpass
  by_contra hnone
  rw [Node.task?] at ht
  split at ht
  · rename_i task hcomponent
    have hlacks : Lint.Finding.error (g.nodeAt i).id "TASK_AGENT_REQUIRED"
        ("Task '" ++ (g.nodeAt i).label ++ "' needs to be assigned to an agent")
          ∈ Lint.lacks (g.nodeAt i) (g.adjacency.hasIncoming i) := by
      rw [Lint.lacks, hcomponent]
      refine List.mem_append_right _ ((Lint.mem_findingIf _ _ _).2 ⟨?_, rfl⟩)
      rw [Bool.eq_false_iff.2 hnone]
      rfl
    exact hpass.1 ⟨i, _, hlacks, rfl⟩
  · exact absurd ht (by simp)

/-- **A chart that passes gives its tasks to the agents at their first edges.**  Some edge leads to
each task, and whoever is at the other end of the first one does the task exactly when it is an
agent. -/
theorem resolve_assigns_by_first_edge (g : Graph) (model : String)
    (h : g.checkIntegrity = .ok ()) (hpass : Lint.hasErrors (Lint.check g) = false) :
    ∀ t ∈ (resolve g model).tasks, ∃ e, ∃ n ∈ g.nodes,
      g.edges.find? (fun e => e.target == t.id) = some e ∧ n.id = e.source ∧
      ∀ key, t.agent = some key ↔ n.agent?.isSome = true ∧ key = n.id := by
  have hw := g.checkIntegrity_eq_ok_iff.1 h
  intro t ht
  obtain ⟨i, -, hi⟩ := List.mem_filterMap.1 ht
  obtain ⟨task, htask, rfl⟩ := Option.map_eq_some_iff.1 hi
  have hincoming := hasIncoming_of_passes hpass htask
  rw [Graph.hasIncoming_eq hw.nodes, List.any_eq_true, ← List.find?_isSome] at hincoming
  obtain ⟨e, he⟩ := Option.isSome_iff_exists.1 hincoming
  obtain ⟨n, hn, hsource⟩ := List.mem_map.1 (hw.source e (List.mem_of_find?_eq_some he))
  obtain ⟨j, rfl⟩ := Graph.exists_nodeAt hn
  exact ⟨e, g.nodeAt j, hn, he, hsource, agentOf_eq_some_iff hw he hsource⟩

/-- Two tasks, both joined to an agent and to a tool, the one first to the tool. -/
def fedByTool : Graph where
  nodes := [⟨"a1", .origin, .agent { role := some "Analyst", goals := some "Find out" }, []⟩,
    ⟨"t1", .origin, .tool { toolType := some "FileReadTool" }, []⟩,
    ⟨"k1", .origin, .task { description := some "Report" }, []⟩,
    ⟨"k2", .origin, .task { description := some "Review" }, []⟩]
  edges := [⟨"e1", "t1", "k1", []⟩, ⟨"e2", "a1", "k1", []⟩, ⟨"e3", "a1", "k2", []⟩,
    ⟨"e4", "t1", "k2", []⟩]

theorem resolve_assigns_fedByTool : fedByTool.checkIntegrity = .ok () ∧
    Lint.hasErrors (Lint.check fedByTool) = false ∧
    ∃ t ∈ (resolve fedByTool defaultModel).tasks, t.id = "k2" ∧ t.agent = some "a1" := by
  have hpass : Lint.hasErrors (Lint.check fedByTool) = false :=
    Lint.hasErrors_check_of_lt (by decide) (by decide)
  have hk : "k2" ∈ (resolve fedByTool defaultModel).tasks.map TaskEntry.id := by decide +kernel
  obtain ⟨t, ht, hid⟩ := List.mem_map.1 hk
  obtain ⟨e, n, hn, he, hsource, hagent⟩ :=
    resolve_assigns_by_first_edge fedByTool defaultModel rfl hpass t ht
  have hfirst : fedByTool.edges.find? (fun e => e.target == t.id)
      = some ⟨"e3", "a1", "k2", []⟩ := by
    rw [hid]
    rfl
  obtain rfl := Option.some.inj (hfirst.symm.trans he)
  have hisAgent : ∀ n ∈ fedByTool.nodes, n.id = "a1" → n.agent?.isSome = true := by decide
  exact ⟨rfl, hpass, t, ht, hid, (hagent "a1").2 ⟨hisAgent n hn hsource, hsource.symm⟩⟩

/-- The check passes this chart, but one of its tasks is done by nobody. -/
theorem resolve_leaves_out_fedByTool : fedByTool.checkIntegrity = .ok () ∧
    Lint.hasErrors (Lint.check fedByTool) = false ∧
    ∃ t ∈ (resolve fedByTool defaultModel).tasks, t.id = "k1" ∧ t.agent = none := by
  refine ⟨rfl, Lint.hasErrors_check_of_lt (by decide) (by decide), ?_⟩
  decide +kernel

end Plan

end CrewChart

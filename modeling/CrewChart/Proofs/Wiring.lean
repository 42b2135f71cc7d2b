import CrewChart.Proofs.Assignment
import CrewChart.Proofs.References

/-!
# Who uses what, read off the edges

A plan is resolved through links between places.  Where the ids of a chart are distinct, the same
can be read off its edges with no index at all: one looks through them in order for those with the
right id at one end, and asks what the id at the other end is the id of.

## What is here

* `Graph.hasNode`, `Graph.hasKind` — whether a node, or a node of some kind, has an id.
* `Graph.map_id_successors` — what a node links to, by the ids in the edges.
* `Plan.makes_eq`, `Plan.toolsOf_eq` — what the plan makes of the tools of a chart, and what an
  agent uses.
* `Plan.agentOf_eq` — who does a task.
* `Plan.resolve_scans_edges` — both, for the entries of the plan of a chart.
-/

set_option autoImplicit false

namespace CrewChart

variable {g : Graph}

/-! ## Ids of nodes -/

theorem Node.isSome_agent? (n : Node) : n.agent?.isSome = (n.kind == .agent) := by
  obtain ⟨id, position, component, extra⟩ := n
  cases component <;> rfl

theorem Node.isSome_tool? (n : Node) : n.tool?.isSome = (n.kind == .tool) := by
  obtain ⟨id, position, component, extra⟩ := n
  cases component <;> rfl

namespace Graph

/-- Whether a node has this id. -/
def hasNode (g : Graph) (id : String) : Bool := g.nodes.any fun n => n.id == id

/-- Whether a node of this kind has this id. -/
def hasKind (g : Graph) (k : Kind) (id : String) : Bool :=
  g.nodes.any fun n => n.id == id && n.kind == k

theorem hasNode_of_hasKind {k : Kind} {id : String} (h : g.hasKind k id = true) :
    g.hasNode id = true := by
  obtain ⟨n, hn, hid⟩ := List.any_eq_true.1 h
  exact List.any_eq_true.2 ⟨n, hn, (Bool.and_eq_true_iff.1 hid).1⟩

/-- Where ids are distinct, an id is of the kind of its node. -/
theorem hasKind_id (hd : (g.nodes.map Node.id).Nodup) (k : Kind) (i : Fin g.size) :
    g.hasKind k (g.nodeAt i).id = ((g.nodeAt i).kind == k) := by
  rw [Bool.eq_iff_iff, hasKind, List.any_eq_true]
  constructor
  · rintro ⟨n, hn, h⟩
    obtain ⟨hid, hkind⟩ := Bool.and_eq_true_iff.1 h
    rw [← List.inj_on_of_nodup_map hd hn (g.nodeAt_mem i) (beq_iff_eq.1 hid)]
    exact hkind
  · intro hkind
    exact ⟨g.nodeAt i, g.nodeAt_mem i, Bool.and_eq_true_iff.2 ⟨beq_self_eq_true _, hkind⟩⟩

theorem isSome_position? (g : Graph) (id : String) : (g.position? id).isSome = g.hasNode id := by
  rw [position?, hasNode, List.isSome_findFinIdx?]

theorem map_id_position? (g : Graph) (id : String) :
    (g.position? id).map (fun j => (g.nodeAt j).id) = if g.hasNode id then some id else none := by
  rw [← isSome_position?]
  cases h : g.position? id with
  | none => rfl
  | some j => exact congrArg some (nodeAt_of_position? h)

/-- The ids of the nodes that the links of a node lead to. -/
theorem map_id_outgoing (g : Graph) (i : Fin g.size) :
    (g.adjacency.outgoing.get i).map (fun l => (g.nodeAt l.node).id)
      = (g.successors i).map fun j => (g.nodeAt j).id := by
  rw [← g.map_node_outgoing, List.map_map]
  rfl

/-- **What a node links to, by the ids in the edges.** -/
theorem map_id_successors (hd : (g.nodes.map Node.id).Nodup) (i : Fin g.size) :
    (g.successors i).map (fun j => (g.nodeAt j).id)
      = (g.edges.filter fun e => e.source == (g.nodeAt i).id && g.hasNode e.target).map
          Edge.target := by
  rw [successors, List.map_filterMap, ← List.filterMap_eq_map, List.filterMap_filter]
  refine congrArg (List.filterMap · g.edges) (funext fun e => ?_)
  have hsource : g.position? e.source = some i ↔ e.source = (g.nodeAt i).id :=
    (position?_eq_some_iff_of_nodup hd).trans eq_comm
  by_cases hs : e.source = (g.nodeAt i).id
  · rw [if_pos (hsource.2 hs), map_id_position?]
    simp [hs]
  · rw [if_neg (mt hsource.1 hs)]
    simp [hs]

end Graph

namespace Plan

/-! ## Tools -/

/-- Whether an id is that of a tool, and the entry of the tool is made. -/
def makes (g : Graph) (p : Plan) (id : String) : Bool :=
  g.hasKind .tool id && p.tools.any fun t => t.id == id && t.making.isEmitted

/-- What is made is a tool, so it is enough to look at the entries. -/
theorem makes_eq (g : Graph) (model : String) (id : String) :
    makes g (resolve g model) id = (emittedIds (toolEntries g.nodes)).contains id := by
  rw [Bool.eq_iff_iff, makes, Bool.and_eq_true, List.any_eq_true, List.contains_iff_mem]
  constructor
  · rintro ⟨-, t, ht, h⟩
    obtain ⟨hid, hemitted⟩ := Bool.and_eq_true_iff.1 h
    exact List.mem_map.2 ⟨t, List.mem_filter.2 ⟨ht, hemitted⟩, beq_iff_eq.1 hid⟩
  · intro hmade
    obtain ⟨t, hfilter, rfl⟩ := List.mem_map.1 hmade
    obtain ⟨ht, hemitted⟩ := List.mem_filter.1 hfilter
    refine ⟨?_, t, ht, Bool.and_eq_true_iff.2 ⟨beq_self_eq_true _, hemitted⟩⟩
    obtain ⟨n, hn, hentry⟩ := List.mem_filterMap.1 ht
    obtain ⟨tool, htool, rfl⟩ := Option.map_eq_some_iff.1 hentry
    refine List.any_eq_true.2 ⟨n, hn, Bool.and_eq_true_iff.2 ⟨beq_self_eq_true _, ?_⟩⟩
    rw [← n.isSome_tool?, htool]
    rfl

/-- **What an agent uses**: the targets of the edges that leave it, as far as they are made. -/
theorem toolsOf_eq (hd : (g.nodes.map Node.id).Nodup) (model : String) (i : Fin g.size) :
    toolsOf g g.adjacency (emittedIds (toolEntries g.nodes)) i
      = ((g.edges.filter fun e =>
          e.source == (g.nodeAt i).id && makes g (resolve g model) e.target).map
            Edge.target).eraseDups := by
  rw [toolsOf, g.map_id_outgoing, g.map_id_successors hd, List.filter_map, List.filter_filter]
  refine congrArg (fun l => (l.map Edge.target).eraseDups) (List.filter_congr fun e _ => ?_)
  rw [Function.comp_apply, ← makes_eq g model]
  cases hmade : makes g (resolve g model) e.target with
  | false => simp
  | true =>
    have hnode := Graph.hasNode_of_hasKind (Bool.and_eq_true_iff.1 hmade).1
    rw [hnode, Bool.true_and]

/-! ## Tasks -/

theorem agentOf_eq_bind (g : Graph) (i : Fin g.size) : agentOf g g.adjacency i
    = ((g.adjacency.incoming.get i).head?.map Link.node).bind fun j =>
        (g.nodeAt j).agent?.map fun _ => (g.nodeAt j).id := by
  rw [agentOf]
  cases g.adjacency.incoming.get i <;> rfl

/-- The first result of a search is the result at the first place that has one. -/
theorem findSome?_eq_bind_find? {α β : Type} (f : α → Option β) (l : List α) :
    l.findSome? f = (l.find? fun x => (f x).isSome).bind f := by
  induction l with
  | nil => rfl
  | cons x l ih =>
    rw [List.findSome?_cons, List.find?_cons]
    cases h : f x with
    | none => exact ih
    | some y => exact h.symm

/-- **Who does a task**: the source of the first edge that leads to it and comes from a node, if
that is an agent. -/
theorem agentOf_eq (hd : (g.nodes.map Node.id).Nodup) (i : Fin g.size) :
    agentOf g g.adjacency i
      = ((g.edges.find? fun e => e.target == (g.nodeAt i).id && g.hasNode e.source).map
          Edge.source).filter (g.hasKind .agent) := by
  have htarget : ∀ e : Edge, g.position? e.target = some i ↔ e.target = (g.nodeAt i).id :=
    fun e => (Graph.position?_eq_some_iff_of_nodup hd).trans eq_comm
  -- An edge is the first link of the task if it is the first that has both its ends.
  have hfound : (fun e : Edge =>
      (if g.position? e.target = some i then g.position? e.source else none).isSome)
        = fun e => e.target == (g.nodeAt i).id && g.hasNode e.source := by
    funext e
    by_cases ht : e.target = (g.nodeAt i).id
    · rw [if_pos ((htarget e).2 ht), g.isSome_position?]
      simp [ht]
    · rw [if_neg (mt (htarget e).1 ht)]
      simp [ht]
  rw [agentOf_eq_bind, Graph.head?_incoming, findSome?_eq_bind_find?, hfound]
  cases he : g.edges.find? fun e => e.target == (g.nodeAt i).id && g.hasNode e.source with
  | none => rfl
  | some e =>
    have hends := List.find?_some he
    obtain ⟨ht, hsource⟩ := Bool.and_eq_true_iff.1 hends
    rw [← g.isSome_position?] at hsource
    obtain ⟨j, hj⟩ := Option.isSome_iff_exists.1 hsource
    have hid := Graph.nodeAt_of_position? hj
    rw [Option.bind_some, if_pos ((htarget e).2 (beq_iff_eq.1 ht)), hj, Option.bind_some,
      Option.map_some, ← hid, Option.filter_some, Graph.hasKind_id hd, ← Node.isSome_agent?]
    cases (g.nodeAt j).agent? <;> rfl

/-! ## The plan of a chart -/

/-- **Who uses what, read off the edges.**  Where ids are distinct, the tools of an agent are the
targets of the edges that leave it, in order and each where it comes first, without those that are
no tools or are not made; and a task is done by the source of the first edge that leads to it from a
node, if that is an agent.  Edges may lack an end. -/
theorem resolve_scans_edges (g : Graph) (model : String) (hd : (g.nodes.map Node.id).Nodup) :
    (∀ a ∈ (resolve g model).agents, a.tools
      = ((g.edges.filter fun e =>
          e.source == a.id && makes g (resolve g model) e.target).map Edge.target).eraseDups) ∧
    ∀ t ∈ (resolve g model).tasks, t.agent
      = ((g.edges.find? fun e => e.target == t.id && g.hasNode e.source).map
          Edge.source).filter (g.hasKind .agent) := by
  constructor
  · intro a ha
    obtain ⟨i, -, hi⟩ := List.mem_filterMap.1 ha
    obtain ⟨agent, -, rfl⟩ := Option.map_eq_some_iff.1 hi
    exact toolsOf_eq hd model i
  · intro t ht
    obtain ⟨i, -, hi⟩ := List.mem_filterMap.1 ht
    obtain ⟨task, -, rfl⟩ := Option.map_eq_some_iff.1 hi
    exact agentOf_eq hd i

/-- An agent joined to two tools, to one of them twice, to a tool without a type, to a node that is
missing and to tasks.  Both tasks have an edge from nowhere first; of the others the first comes
from the agent for one of them and from a tool for the other. -/
def crossWired : Graph where
  nodes := [⟨"a", .origin, .agent {}, []⟩,
    ⟨"t", .origin, .tool { toolType := some "FileReadTool" }, []⟩,
    ⟨"u", .origin, .tool { toolType := some "CustomTool" }, []⟩, ⟨"v", .origin, .tool {}, []⟩,
    ⟨"k", .origin, .task {}, []⟩, ⟨"l", .origin, .task {}, []⟩]
  edges := [⟨"1", "a", "u", []⟩, ⟨"2", "a", "x", []⟩, ⟨"3", "a", "t", []⟩, ⟨"4", "x", "k", []⟩,
    ⟨"5", "a", "k", []⟩, ⟨"6", "a", "u", []⟩, ⟨"7", "x", "l", []⟩, ⟨"8", "t", "l", []⟩,
    ⟨"9", "a", "l", []⟩, ⟨"10", "a", "v", []⟩, ⟨"11", "t", "k", []⟩]

theorem resolve_scans_crossWired : (crossWired.nodes.map Node.id).Nodup ∧
    (resolve crossWired defaultModel).agents.map AgentEntry.tools = [["u", "t"]] ∧
    (resolve crossWired defaultModel).tasks.map TaskEntry.agent = [some "a", none] := by
  have hd : (crossWired.nodes.map Node.id).Nodup := by decide
  obtain ⟨hagents, htasks⟩ := resolve_scans_edges crossWired defaultModel hd
  refine ⟨hd, ?_, ?_⟩
  · rw [List.map_congr_left hagents]
    decide +kernel
  · rw [List.map_congr_left htasks]
    decide +kernel

end Plan

end CrewChart

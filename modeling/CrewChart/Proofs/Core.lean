import CrewChart.Lint.Check
import CrewChart.Plan.Resolve
import CrewChart.Proofs.Coverage

/-!
# Secrets and the looks of a chart decide nothing

The editor keeps more in a chart than the crew is made from: where a node is drawn, the id of an
edge, attributes of its own, the keys that were typed in.  None of it has a say in what a check
finds, in what a simulation records, or in what a plan is made of.

Two charts that differ in nothing else have the same *core*, the chart with all of that taken out.
So it is enough to compare a chart with its core.  The one thing a plan keeps of the keys is its
list of credentials.

## What is here

* `Graph.core` — a chart without secrets and without what only the editor reads.
* `Graph.look_core` — what is seen of the core of a chart: the cores of its nodes, and its links.
* `Lint.check_core`, `Simulation.outcomes_core`, `Plan.resolve_core` — check, simulation and plan
  look at no more.
* `verdicts_and_plan_of_core` — all of it, said of two charts with one core.
-/

set_option autoImplicit false

namespace CrewChart

/-! ## The core of a chart -/

/-- An agent without its key. -/
def Agent.core (a : Agent) : Agent := { a with apiKey := none, extra := [] }

/-- A task without its place in an order of execution. -/
def Task.core (t : Task) : Task := { t with executionOrder := none, extra := [] }

def Tool.core (t : Tool) : Tool := { t with extra := [] }

/-- A flow without the key of its manager and without limits. -/
def Flow.core (f : Flow) : Flow :=
  { f with managerApiKey := none, maxRetries := none, timeout := none, extra := [] }

def Component.core : Component → Component
  | .agent a => .agent a.core
  | .task t => .task t.core
  | .tool t => .tool t.core
  | .flow f => .flow f.core

def Node.core (n : Node) : Node := { id := n.id, component := n.component.core }

def Edge.core (e : Edge) : Edge := { id := "", source := e.source, target := e.target }

/-- A chart without secrets and without what only the editor reads: of a node its id and its
component, and of an edge its two ends. -/
def Graph.core (g : Graph) : Graph := ⟨g.nodes.map Node.core, g.edges.map Edge.core⟩

namespace Node

@[simp] theorem id_core (n : Node) : n.core.id = n.id := rfl

@[simp] theorem kind_core (n : Node) : n.core.kind = n.kind := by
  rcases n with ⟨id, position, _ | _ | _ | _, extra⟩ <;> rfl

@[simp] theorem label_core (n : Node) : n.core.label = n.label := by
  rcases n with ⟨id, position, _ | _ | _ | _, extra⟩ <;> rfl

@[simp] theorem agent?_core (n : Node) : n.core.agent? = n.agent?.map Agent.core := by
  rcases n with ⟨id, position, _ | _ | _ | _, extra⟩ <;> rfl

@[simp] theorem task?_core (n : Node) : n.core.task? = n.task?.map Task.core := by
  rcases n with ⟨id, position, _ | _ | _ | _, extra⟩ <;> rfl

@[simp] theorem tool?_core (n : Node) : n.core.tool? = n.tool?.map Tool.core := by
  rcases n with ⟨id, position, _ | _ | _ | _, extra⟩ <;> rfl

@[simp] theorem flow?_core (n : Node) : n.core.flow? = n.flow?.map Flow.core := by
  rcases n with ⟨id, position, _ | _ | _ | _, extra⟩ <;> rfl

end Node

/-! ## Looking at a chart -/

namespace Graph

/-- The links of nodes with these ids, along edges with these ends. -/
def wiring {n : Nat} (id : Fin n → String) (ends : List (String × String)) : Adjacency n :=
  ends.zipIdx.foldr
    (fun (e, k) a =>
      a.addEdge k (Fin.find? fun i => id i == e.1) (Fin.find? fun i => id i == e.2)) (.empty n)

/-- The ends of the edges. -/
def ends (g : Graph) : List (String × String) := g.edges.map fun e => (e.source, e.target)

theorem position?_eq_find? (g : Graph) (id : String) :
    g.position? id = Fin.find? fun i => (g.nodeAt i).id == id := by
  refine Option.ext fun i => ?_
  rw [position?_eq_some_iff, Fin.find?_eq_some_iff]
  simp only [beq_iff_eq, beq_eq_false_iff_ne]

/-- The links of a chart depend on the ids of its nodes and the ends of its edges only. -/
theorem adjacency_eq_wiring (g : Graph) :
    g.adjacency = wiring (fun i => (g.nodeAt i).id) g.ends := by
  rw [adjacency, wiring, ends, List.zipIdx_map, List.foldr_map]
  simp only [position?_eq_find?]
  rfl

/-- Mapping a list is mapping what is at its places. -/
theorem sigma_get_map {α β : Type} (f : α → β) (l : List α) :
    (⟨(l.map f).length, (l.map f).get⟩ : Σ n, Fin n → β) = ⟨l.length, f ∘ l.get⟩ := by
  refine List.equivSigmaTuple.symm.injective ?_
  show List.ofFn (l.map f).get = List.ofFn (f ∘ l.get)
  rw [List.ofFn_get, ← List.map_ofFn, List.ofFn_get]

/-- **What is seen of the core of a chart**: the cores of its nodes, and its links.  The places in
the two are numbers below lengths that are equal but not the same term, which is why `look` is given
for every number of nodes. -/
theorem look_core {β : Type} (look : (n : Nat) → (Fin n → Node) → Adjacency n → β) (g : Graph) :
    look g.core.size g.core.nodeAt g.core.adjacency
      = look g.size (fun i => (g.nodeAt i).core) g.adjacency := by
  have hends : g.core.ends = g.ends := by
    rw [ends, core, List.map_map]
    rfl
  let seen (p : Σ n, Fin n → Node) : β :=
    look p.1 p.2 (wiring (fun i => (p.2 i).id) g.ends)
  calc look g.core.size g.core.nodeAt g.core.adjacency
      = seen ⟨g.core.size, g.core.nodeAt⟩ := by rw [adjacency_eq_wiring, hends]
    _ = seen ⟨g.size, fun i => (g.nodeAt i).core⟩ :=
        congrArg seen (sigma_get_map Node.core g.nodes)
    _ = look g.size (fun i => (g.nodeAt i).core) g.adjacency := by rw [adjacency_eq_wiring]; rfl

end Graph

/-! ## Checks -/

namespace Lint

theorem isolatedNode_core (n : Node) : isolatedNode n.core = isolatedNode n := by
  rw [isolatedNode, n.id_core, n.kind_core, n.label_core, isolatedNode]

theorem lacks_core (n : Node) (reached : Bool) : lacks n.core reached = lacks n reached := by
  rcases n with ⟨id, position, _ | _ | _ | _, extra⟩ <;> rfl

theorem isolation_core (g : Graph) :
    isolation g.core g.core.adjacency = isolation g g.adjacency := by
  have h := g.look_core fun n node a =>
    ((List.finRange n).filter fun i => !a.isConnected i).map fun i => isolatedNode (node i)
  simp only [isolatedNode_core] at h
  exact h

theorem required_core (g : Graph) : required g.core g.core.adjacency = required g g.adjacency := by
  have h := g.look_core fun n node a =>
    (List.finRange n).flatMap fun i => lacks (node i) (a.hasIncoming i)
  simp only [lacks_core] at h
  exact h

theorem cycles_core (g : Graph) : cycles g.core g.core.adjacency = cycles g g.adjacency :=
  g.look_core fun _ node a => (cycleNodes a).map fun i => cycleAt (node i)

/-- **A check looks at the core of a chart only.** -/
theorem check_core (g : Graph) : check g.core = check g := by
  rw [check, check, isolation_core, required_core, cycles_core]

end Lint

/-! ## Simulations -/

namespace Simulation

theorem assess_core (n : Node) (reached : Bool) : assess n.core reached = assess n reached := by
  rcases n with ⟨id, position, _ | _ | _ | _, extra⟩ <;> rfl

/-- **A simulation looks at the core of a chart only.** -/
theorem outcomes_core (g : Graph) : outcomes g.core = outcomes g := by
  have h := g.look_core fun _ node a =>
    (evaluationOrder a).map fun i => assess (node i) (a.hasIncoming i)
  simp only [assess_core] at h
  exact h

theorem complete_simulateM {σ : Type} (stamp : Bool → StateM σ Text.Instant) (clock : σ)
    (g : Graph) : ((simulateM stamp g).run clock).1.complete = true := by
  rw [simulateM]
  split <;> rfl

end Simulation

/-! ## Plans -/

namespace Plan

/-- A plan without its keys. -/
def withoutCredentials (p : Plan) : Plan := { p with credentials := [] }

theorem toolEntries_core (g : Graph) : toolEntries g.core.nodes = toolEntries g.nodes := by
  rw [toolEntries, Graph.core, List.filterMap_map, toolEntries]
  refine List.filterMap_congr fun n _ => ?_
  rw [Function.comp_apply, n.tool?_core, Option.map_map]
  refine Option.map_congr fun t _ => ?_
  show toolEntry n.core t.core = toolEntry n t
  rw [toolEntry, n.label_core, n.id_core, toolEntry]
  rfl

/-- The entry of an agent that stands alone.  Links only add tools to it. -/
def agentAlone (model : String) (n : Node) (agent : Agent) : AgentEntry :=
  agentEntry ⟨[n], []⟩ (.empty 1) [] model 0 agent

/-- The entry of a task that stands alone.  Links only add an agent to it. -/
def taskAlone (n : Node) (t : Task) : TaskEntry := taskEntry ⟨[n], []⟩ (.empty 1) 0 t

theorem agents_core (g : Graph) (model : String) :
    (resolve g.core model).agents = (resolve g model).agents := by
  have h := g.look_core fun n node a => (List.finRange n).filterMap fun i =>
    (node i).agent?.map fun agent =>
      { agentAlone model (node i) agent with
        tools := (((a.outgoing.get i).map fun l : Link n => (node l.node).id).filter
          ((emittedIds (toolEntries g.nodes)).contains ·)).eraseDups }
  simp only [Node.agent?_core, Option.map_map] at h
  rw [resolve, toolEntries_core]
  exact h

/-- An incoming link adds an agent to the entry of a task. -/
theorem taskEntry_eq (g : Graph) (a : Adjacency g.size) (i : Fin g.size) :
    taskEntry g a i = fun t =>
      { taskAlone (g.nodeAt i) t with
        agent := (a.incoming.get i).head?.bind fun l =>
          (g.nodeAt l.node).agent?.map fun _ => (g.nodeAt l.node).id } := by
  funext t
  rw [taskEntry, agentOf]
  cases a.incoming.get i <;> rfl

theorem tasks_core (g : Graph) (model : String) :
    (resolve g.core model).tasks = (resolve g model).tasks := by
  have h := g.look_core fun n node a => (List.finRange n).filterMap fun i =>
    (node i).task?.map fun t =>
      { taskAlone (node i) t with
        agent := (a.incoming.get i).head?.bind fun l =>
          (node l.node).agent?.map fun _ => (node l.node).id }
  simp only [Node.task?_core, Node.agent?_core, Option.map_map] at h
  simp only [resolve, taskEntry_eq]
  exact h

/-- The flow that counts is the core of the flow that counts. -/
theorem flow_core (g : Graph) : (g.core.nodes.findSome? Node.flow?).getD {}
    = ((g.nodes.findSome? Node.flow?).getD {}).core := by
  have hfirst : g.core.nodes.findSome? Node.flow?
      = (g.nodes.findSome? Node.flow?).map Flow.core := by
    rw [Graph.core, List.findSome?_map, List.map_findSome?]
    exact congrArg (List.findSome? · g.nodes) (funext Node.flow?_core)
  rw [hfirst]
  cases g.nodes.findSome? Node.flow? <;> rfl

/-- **A plan is made from the core of a chart only**, but for its keys. -/
theorem resolve_core (g : Graph) (model : String) :
    (resolve g.core model).withoutCredentials = (resolve g model).withoutCredentials := by
  have htools : (resolve g.core model).tools = (resolve g model).tools := toolEntries_core g
  have himports : (resolve g.core model).imports = (resolve g model).imports :=
    congrArg importsOf htools
  have hprocess : (resolve g.core model).process = (resolve g model).process := by
    simp only [resolve, flow_core]
    rfl
  have hmanager : (resolve g.core model).managerModel = (resolve g model).managerModel := by
    simp only [resolve, flow_core]
    rfl
  simp only [withoutCredentials, himports, htools, agents_core, tasks_core, hprocess, hmanager]

end Plan

/-! ## Two charts with one core -/

/-- **What a chart has besides its core decides nothing.**  Two charts with one core have the same
findings, simulations with the same outcomes, whatever the clocks show, and plans that differ in
their credentials at most. -/
theorem verdicts_and_plan_of_core {σ σ' : Type} (stamp : Bool → StateM σ Text.Instant) (clock : σ)
    (stamp' : Bool → StateM σ' Text.Instant) (clock' : σ') (g g' : Graph) (h : g.core = g'.core) :
    Lint.check g = Lint.check g' ∧
      (let r := ((Simulation.simulateM stamp g).run clock).1
       let r' := ((Simulation.simulateM stamp' g').run clock').1
       r.completed = r'.completed ∧
         r.records.map Simulation.Record.outcome = r'.records.map Simulation.Record.outcome ∧
         r.complete = r'.complete) ∧
      ∀ model, (Plan.resolve g model).withoutCredentials
        = (Plan.resolve g' model).withoutCredentials := by
  have houtcomes : Simulation.outcomes g = Simulation.outcomes g' := by
    rw [← Simulation.outcomes_core, h, Simulation.outcomes_core]
  refine ⟨by rw [← Lint.check_core, h, Lint.check_core], ⟨?_, ?_, ?_⟩, fun model => ?_⟩
  · rw [Simulation.completed_simulateM, houtcomes, Simulation.completed_simulateM]
  · rw [Simulation.outcome_simulateM, houtcomes, Simulation.outcome_simulateM]
  · rw [Simulation.complete_simulateM, Simulation.complete_simulateM]
  · rw [← Plan.resolve_core, h, Plan.resolve_core]

/-- A chart with two keys. -/
def keyed : Graph where
  nodes := [
    { id := "a", component := .agent { role := some "Analyst", apiKey := some "sk-1" } },
    { id := "k", component := .task { description := some "Draft", executionOrder := some "1" } },
    { id := "f", component := .flow { managerApiKey := some "sk-2", timeout := some "60" } }]
  edges := [⟨"1", "a", "k", []⟩]

/-- The same chart moved about in the editor, with another key and without a limit. -/
def rekeyed : Graph where
  nodes := [
    { id := "a", position := ⟨⟨false, 0x3FF0000000000000, by decide⟩, .zero⟩
      component := .agent {
        role := some "Analyst", apiKey := some "sk-3", extra := [("color", .string "red")] } },
    { id := "k", component := .task { description := some "Draft", executionOrder := some "7" }
      extra := [("selected", .boolean true)] },
    { id := "f", component := .flow { maxRetries := some "3" } }]
  edges := [⟨"e", "a", "k", [("animated", .boolean true)]⟩]

/-- Their credentials differ, and nothing else does. -/
theorem verdicts_and_plan_of_rekeyed : keyed.core = rekeyed.core ∧
    Lint.check keyed = Lint.check rekeyed ∧
    (Lint.check keyed).map Lint.Finding.code = ["NODE_ISOLATED", "AGENT_GOALS_REQUIRED"] ∧
    (Plan.resolve keyed "m").withoutCredentials = (Plan.resolve rekeyed "m").withoutCredentials ∧
    (Plan.resolve keyed "m").credentials ≠ (Plan.resolve rekeyed "m").credentials := by
  have h : keyed.core = rekeyed.core := by rfl
  obtain ⟨hcheck, -, hplan⟩ :=
    verdicts_and_plan_of_core Simulation.ticking 0 Simulation.ticking 7 keyed rekeyed h
  have hcycles : Lint.cycles keyed keyed.adjacency = [] :=
    Lint.cycles_eq_nil_iff.2 (Lint.cycleNodes_eq_nil_of_lt (by decide))
  refine ⟨h, hcheck, ?_, hplan "m", by decide⟩
  rw [Lint.check, hcycles]
  rfl

end CrewChart

import CrewChart.Decimal.Reading
import CrewChart.Graph.Adjacency
import CrewChart.Json.Reader
import CrewChart.Plan.Basic
import CrewChart.Script.Literal

/-!
# Resolving a chart

Tools, agents and tasks become entries in the order of their nodes.  An agent uses the tools its
outgoing links lead to, in order and each once, without those that are not made.  A task is done by
the node its first incoming link comes from, if that is an agent.  The first flow of the chart sets
the process and the model of the manager.

What is missing is made up for, so every chart has a plan.
-/

set_option autoImplicit false

namespace CrewChart.Plan

open Json (Value Number Attributes)

/-! ## Values -/

def textOr (text : Option String) (fallback : String) : String := (filled text).getD fallback

/-- The model an agent or manager runs on: the one it names, where the choice of a custom model
stands for the name typed in beside it. -/
def modelOf (selected custom : Option String) (fallback : String) : String :=
  match filled selected with
  | none => fallback
  | some model => if model = customModel then (filled custom).getD customModel else model

/-- The key goes to the provider of the model that was named, not of the default model. -/
def credential (selected : Option String) (key : String) : Credential where
  keyVariable :=
    match filled selected with
    | none => Provider.custom.keyVariable
    | some model =>
      match Model.find? model with
      | some m => m.provider.keyVariable
      | none => (Provider.ofModel model).keyVariable
  key := key

def credential? (selected key : Option String) : Option Credential :=
  (filled key).map (credential selected)

/-- An integer that a signed word can hold. -/
def signedWord? (s : String) : Option Number :=
  match Decimal.integer? s with
  | some n =>
    if h : -0x8000000000000000 ≤ n ∧ n < 0x8000000000000000 then
      some (.integer n ⟨h.1, by omega⟩)
    else none
  | none => none

/-- A decimal number. -/
def decimal? (s : String) : Option Number :=
  match Decimal.parse? s with
  | some (negative, d) => (d.nearest? negative).map .float
  | none => none

/-- What was typed in as the memory of an agent: a truth value, a number or a text. -/
def memoryValue (memory : Option String) : Value :=
  match filled memory with
  | none => .null
  | some "true" => .boolean true
  | some "false" => .boolean false
  | some s =>
    match signedWord? s <|> decimal? s with
    | some n => .number n
    | none => .string s

/-! ## Tools -/

def makingOf (toolType : Option String) : Making :=
  match filled toolType with
  | none => .skipped .noType
  | some t =>
    if t = customTool then .custom
    else if Script.isName t then .library t
    else .skipped (.unsupported t)

/-- The configuration of a tool; what was typed in counts only if it is an object.  If nothing was
typed in, a tool of the catalog has the configuration it comes with. -/
def configurationOf (t : Tool) : Attributes :=
  match filled t.configuration with
  | some text =>
    match Value.parse text with
    | .ok (.object members) => members
    | _ => []
  | none => (((filled t.toolType).bind ToolSpec.find?).map ToolSpec.configuration).getD []

def toolEntry (n : Node) (t : Tool) : ToolEntry where
  id := n.id
  making := makingOf t.toolType
  name := n.label
  description := textOr t.description ""
  returnDirect := t.returnDirect.getD false
  configuration := configurationOf t

def toolEntries (nodes : List Node) : List ToolEntry :=
  nodes.filterMap fun n => n.tool?.map (toolEntry n)

/-- The ids of the tools that are made. -/
def emittedIds (tools : List ToolEntry) : List String :=
  (tools.filter fun t => t.making.isEmitted).map ToolEntry.id

/-- Puts a name among sorted names, unless it is there. -/
def insertName (name : String) : List String → List String
  | [] => [name]
  | x :: rest =>
    if name < x then name :: x :: rest
    else if name = x then x :: rest
    else x :: insertName name rest

/-- The classes to be imported, sorted, each once. -/
def importsOf (tools : List ToolEntry) : List String :=
  (tools.filterMap fun t => t.making.class?).foldr insertName []

theorem mem_insertName (name x : String) (names : List String) :
    x ∈ insertName name names ↔ x = name ∨ x ∈ names := by
  induction names with
  | nil => simp [insertName]
  | cons y rest ih => grind [insertName]

/-! ## Agents and tasks -/

/-- The tools an agent uses. -/
def toolsOf (g : Graph) (a : Adjacency g.size) (emitted : List String) (i : Fin g.size) :
    List String :=
  (((a.outgoing.get i).map fun l => (g.nodeAt l.node).id).filter (emitted.contains ·)).eraseDups

def agentEntry (g : Graph) (a : Adjacency g.size) (emitted : List String) (model : String)
    (i : Fin g.size) (agent : Agent) : AgentEntry where
  id := (g.nodeAt i).id
  role := textOr agent.role ""
  goal := textOr agent.goals ""
  backstory := textOr agent.backstory ""
  allowDelegation := filled agent.allowDelegation == some "true"
  memory := memoryValue agent.memory
  model := modelOf agent.llmModel agent.customModel model
  tools := toolsOf g a emitted i

/-- Who does a task. -/
def agentOf (g : Graph) (a : Adjacency g.size) (i : Fin g.size) : Option String :=
  match a.incoming.get i with
  | [] => none
  | l :: _ => (g.nodeAt l.node).agent?.map fun _ => (g.nodeAt l.node).id

def taskEntry (g : Graph) (a : Adjacency g.size) (i : Fin g.size) (t : Task) : TaskEntry where
  id := (g.nodeAt i).id
  description := textOr t.description ""
  expectedOutput := textOr t.expectedOutput ""
  agent := agentOf g a i
  context := textOr t.context ""
  priority := textOr t.priority "medium"

/-! ## The plan -/

def processOf (flowType : Option String) : Process :=
  if filled flowType = some "parallel" then .parallel else .sequential

/-- The plan of a chart; `model` is for agents and managers that name none. -/
def resolve (g : Graph) (model : String) : Plan :=
  let a := g.adjacency
  let tools := toolEntries g.nodes
  let emitted := emittedIds tools
  let flow := (g.nodes.findSome? Node.flow?).getD {}
  let places := List.finRange g.size
  { imports := importsOf tools
    credentials :=
      (g.nodes.filterMap (fun n => n.agent?.bind fun agent =>
          credential? agent.llmModel agent.apiKey)
        ++ (credential? flow.managerModel flow.managerApiKey).toList).eraseDups
    tools
    agents := places.filterMap fun i => (g.nodeAt i).agent?.map (agentEntry g a emitted model i)
    tasks := places.filterMap fun i => (g.nodeAt i).task?.map (taskEntry g a i)
    process := processOf flow.flowType
    managerModel := modelOf flow.managerModel flow.customManagerModel model }

end CrewChart.Plan

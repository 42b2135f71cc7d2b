import CrewChart.Json.Value

/-!
# Crew charts

A chart is what the editor saves: nodes and edges, each in an order that matters.  A node is one of
four components: an *agent* with a model and goals, a *task* for an agent, a *tool* that agents
use, or a *flow* that sets how the crew works together.  An edge joins two nodes by their ids.

The attributes a component is known to have are fields; all of them are optional and all but one
are texts, because that is how the editor keeps what is typed in.  Whatever else the editor
attaches to a node, to its attributes or to an edge is carried along in `extra`.

Ids are not assumed to be distinct, nor the ends of an edge to exist.
-/

set_option autoImplicit false

namespace CrewChart

open Json (Value Attributes)

/-- Where the editor shows a node. -/
structure Position where
  x : Binary64
  y : Binary64
deriving DecidableEq

def Position.origin : Position := ⟨.zero, .zero⟩

inductive Kind where
  | agent
  | task
  | tool
  | flow
deriving DecidableEq, Repr

namespace Kind

def name : Kind → String
  | .agent => "agent"
  | .task => "task"
  | .tool => "tool"
  | .flow => "flow"

def all : List Kind := [.agent, .task, .tool, .flow]

/-- Kinds by name. -/
def named : List (String × Kind) := all.map fun k => (k.name, k)

end Kind

structure Agent where
  label : Option String := none
  role : Option String := none
  goals : Option String := none
  backstory : Option String := none
  llmModel : Option String := none
  customModel : Option String := none
  apiKey : Option String := none
  allowDelegation : Option String := none
  memory : Option String := none
  extra : Attributes := []
deriving DecidableEq

structure Task where
  label : Option String := none
  description : Option String := none
  expectedOutput : Option String := none
  priority : Option String := none
  context : Option String := none
  executionOrder : Option String := none
  extra : Attributes := []
deriving DecidableEq

/-- The configuration of a tool is kept as the text that was typed; whether it is JSON is only
asked when it is used. -/
structure Tool where
  label : Option String := none
  toolType : Option String := none
  configuration : Option String := none
  description : Option String := none
  returnDirect : Option Bool := none
  extra : Attributes := []
deriving DecidableEq

structure Flow where
  label : Option String := none
  flowType : Option String := none
  condition : Option String := none
  managerModel : Option String := none
  customManagerModel : Option String := none
  managerApiKey : Option String := none
  maxRetries : Option String := none
  timeout : Option String := none
  extra : Attributes := []
deriving DecidableEq

inductive Component where
  | agent (a : Agent)
  | task (t : Task)
  | tool (t : Tool)
  | flow (f : Flow)
deriving DecidableEq

structure Node where
  id : String
  position : Position := .origin
  component : Component
  extra : Attributes := []
deriving DecidableEq

structure Edge where
  id : String
  source : String
  target : String
  extra : Attributes := []
deriving DecidableEq

structure Graph where
  nodes : List Node := []
  edges : List Edge := []
deriving DecidableEq

/-! ## Texts that were filled in -/

/-- The editor leaves an empty text where nothing was typed; it counts as absent. -/
def filled (text : Option String) : Option String := text.filter fun s => s ≠ ""

theorem filled_eq_none_iff (text : Option String) :
    filled text = none ↔ text = none ∨ text = some "" := by
  cases text <;> simp [filled, Option.filter]

theorem filled_eq_some_iff (text : Option String) (s : String) :
    filled text = some s ↔ text = some s ∧ s ≠ "" := by
  simp only [filled, Option.filter_eq_some_iff, decide_not, Bool.not_eq_true',
    decide_eq_false_iff_not, ne_eq]

/-! ## Components -/

namespace Component

def kind : Component → Kind
  | .agent _ => .agent
  | .task _ => .task
  | .tool _ => .tool
  | .flow _ => .flow

def label : Component → Option String
  | .agent a => a.label
  | .task t => t.label
  | .tool t => t.label
  | .flow f => f.label

end Component

/-- A conditional flow goes on only if its condition holds. -/
def Flow.isConditional (f : Flow) : Bool := filled f.flowType == some "conditional"

theorem Flow.isConditional_iff (f : Flow) :
    f.isConditional = true ↔ f.flowType = some "conditional" := by
  simp [Flow.isConditional, filled_eq_some_iff]

/-! ## Nodes -/

namespace Node

def kind (n : Node) : Kind := n.component.kind

/-- What a node is called in messages: its label, or its id when none was entered. -/
def label (n : Node) : String := (filled n.component.label).getD n.id

def agent? (n : Node) : Option Agent :=
  match n.component with
  | .agent a => some a
  | _ => none

def task? (n : Node) : Option Task :=
  match n.component with
  | .task t => some t
  | _ => none

def tool? (n : Node) : Option Tool :=
  match n.component with
  | .tool t => some t
  | _ => none

def flow? (n : Node) : Option Flow :=
  match n.component with
  | .flow f => some f
  | _ => none

end Node

/-! ## Graphs -/

namespace Graph

/-- The first node with this id. -/
def node? (g : Graph) (id : String) : Option Node := g.nodes.find? fun n => n.id == id

end Graph

end CrewChart

import CrewChart.Catalog
import CrewChart.Graph.Basic
import CrewChart.Json.Quoted

/-!
# Plans

A plan is a chart with every reference resolved: which tools an agent uses, which agent does a
task, which model each of them runs on.  The script says what the plan says and nothing else.

Every tool of the chart has an entry, also one the script cannot make; that entry says why and is
left out of the lists of tools.
-/

set_option autoImplicit false

namespace CrewChart.Plan

open Json (Value Attributes)

inductive Process where
  | sequential
  | parallel
deriving DecidableEq, Repr

namespace Process

def name : Process → String
  | .sequential => "sequential"
  | .parallel => "parallel"

end Process

/-- Why a tool cannot be made. -/
inductive SkipReason where
  | noType
  | unsupported (toolType : String)
deriving DecidableEq, Repr

def SkipReason.message : SkipReason → String
  | .noType => "no tool type"
  | .unsupported toolType => "unsupported tool type " ++ Json.quoted toolType

/-- What becomes of a tool: an object of a class of the library, a function of one's own, or
nothing. -/
inductive Making where
  | library (className : String)
  | custom
  | skipped (reason : SkipReason)
deriving DecidableEq, Repr

namespace Making

def class? : Making → Option String
  | .library c => some c
  | _ => none

def reason? : Making → Option SkipReason
  | .skipped r => some r
  | _ => none

def isCustom : Making → Bool
  | .custom => true
  | _ => false

def isEmitted : Making → Bool
  | .skipped _ => false
  | _ => true

end Making

structure ToolEntry where
  id : String
  making : Making
  name : String
  description : String
  returnDirect : Bool
  configuration : Attributes
deriving DecidableEq

structure AgentEntry where
  id : String
  role : String
  goal : String
  backstory : String
  allowDelegation : Bool
  memory : Value
  model : String
  tools : List String
deriving DecidableEq

structure TaskEntry where
  id : String
  description : String
  expectedOutput : String
  agent : Option String
  context : String
  priority : String
deriving DecidableEq

/-- A key, and the environment variable it is put into. -/
structure Credential where
  keyVariable : String
  key : String
deriving DecidableEq, Repr

/-- The line of the script that sets the variable. -/
def Credential.line (c : Credential) : String :=
  "os.environ[\"" ++ c.keyVariable ++ "\"] = " ++ Json.quoted c.key

end Plan

open Json (Value)

open Plan in
structure Plan where
  imports : List String
  credentials : List Credential
  tools : List ToolEntry
  agents : List AgentEntry
  tasks : List TaskEntry
  process : Process
  managerModel : String
deriving DecidableEq

namespace Plan

/-- Whether some tool is a function of one's own. -/
def usesCustomTool (p : Plan) : Bool := p.tools.any fun t => t.making.isCustom

/-- The first agent with this id. -/
def agent? (p : Plan) (id : String) : Option AgentEntry := p.agents.find? fun a => a.id == id

/-- The first task with this id. -/
def task? (p : Plan) (id : String) : Option TaskEntry := p.tasks.find? fun t => t.id == id

/-! ## The plan as a document -/

def orNull (s : Option String) : Value :=
  match s with
  | some s => .string s
  | none => .null

def ToolEntry.toValue (t : ToolEntry) : Value :=
  .object [("id", .string t.id), ("class", orNull t.making.class?),
    ("custom", .boolean t.making.isCustom), ("name", .string t.name),
    ("description", .string t.description), ("return_direct", .boolean t.returnDirect),
    ("config", .object t.configuration), ("has_config", .boolean !t.configuration.isEmpty),
    ("reason", orNull (t.making.reason?.map SkipReason.message))]

def AgentEntry.toValue (a : AgentEntry) : Value :=
  .object [("id", .string a.id), ("role", .string a.role), ("goal", .string a.goal),
    ("backstory", .string a.backstory), ("allow_delegation", .boolean a.allowDelegation),
    ("memory", a.memory), ("llm", .string a.model), ("tools", .array (a.tools.map .string))]

def TaskEntry.toValue (t : TaskEntry) : Value :=
  .object [("id", .string t.id), ("description", .string t.description),
    ("expected_output", .string t.expectedOutput), ("agent", orNull t.agent),
    ("context", .string t.context), ("priority", .string t.priority)]

def toValue (p : Plan) : Value :=
  .object [("tool_imports", .string (", ".intercalate p.imports)),
    ("uses_custom_tool", .boolean p.usesCustomTool),
    ("credentials", .array (p.credentials.map fun c => .string c.line)),
    ("tools", .array (p.tools.map ToolEntry.toValue)),
    ("agents", .array (p.agents.map AgentEntry.toValue)),
    ("tasks", .array (p.tasks.map TaskEntry.toValue)),
    ("process", .string p.process.name), ("manager_llm", .string p.managerModel)]

end Plan

end CrewChart

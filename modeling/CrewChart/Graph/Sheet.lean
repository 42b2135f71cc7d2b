import CrewChart.Graph.Basic
import CrewChart.Json.Failure

/-!
# Attribute sheets

The attributes of a component are saved as one object, its *sheet*.  Each kind of component knows
some keys; `Kind.known` lists them in the order in which they are saved, with the form their values
have.  An attribute in the form of a text may have been saved as a number or a boolean, which then
stands for its JSON text; a flag may have been saved as a text.  `null` is as good as nothing.

A sheet is filled in attribute by attribute.  A known key may occur once only; any other attribute
goes with the extra ones.  `Component.ofSheet` and `Component.sheet` go between a sheet and the
fields of a component, and going there and back changes nothing.
-/

set_option autoImplicit false

namespace CrewChart

open Json (Value Attributes Cause Found)

inductive Form where
  | text
  | flag
deriving DecidableEq

/-- The value of an attribute in its form, if there is one. -/
def Form.normal : Form → Value → Except Cause (Option Value)
  | _, .null => .ok none
  | .text, .string s => .ok (some (.string s))
  | .text, .number n => .ok (some (.string n.text))
  | .text, .boolean b => .ok (some (.string (toString b)))
  | .text, v => .error (.notText v)
  | .flag, .boolean b => .ok (some (.boolean b))
  | .flag, .string s =>
    if s = "true" then .ok (some (.boolean true))
    else if s = "false" ∨ s = "" then .ok (some (.boolean false))
    else .error (.notFlag (.string s))
  | .flag, v => .error (.notFlag v)

namespace Kind

/-- The known attributes of a kind, in the order they are saved. -/
def known : Kind → List (String × Form)
  | .agent =>
    [("label", .text), ("role", .text), ("goals", .text), ("backstory", .text),
      ("llmModel", .text), ("customModel", .text), ("apiKey", .text), ("allowDelegation", .text),
      ("memory", .text)]
  | .task =>
    [("label", .text), ("description", .text), ("expectedOutput", .text), ("priority", .text),
      ("context", .text), ("executionOrder", .text)]
  | .tool =>
    [("label", .text), ("toolType", .text), ("configuration", .text), ("description", .text),
      ("returnDirect", .flag)]
  | .flow =>
    [("label", .text), ("flowType", .text), ("condition", .text), ("managerLLM", .text),
      ("customManagerModel", .text), ("managerApiKey", .text), ("maxRetries", .text),
      ("timeout", .text)]

/-- What a sheet of this kind is called when something else stands in its place. -/
def sheetName : Kind → String
  | .agent => "struct AgentProps"
  | .task => "struct TaskProps"
  | .tool => "struct ToolProps"
  | .flow => "struct FlowProps"

end Kind

/-- The attributes of a component, as far as they are filled in.  Keys that were given as `null`
are among the known ones, with nothing. -/
structure Sheet where
  known : List (String × Option Value) := []
  extra : Attributes := []

namespace Sheet

/-- A known key is refused the second time, before its value is looked at. -/
def mayEnter (kind : Kind) (sheet : Sheet) (key : String) : Except Cause Unit :=
  if (kind.known.lookup key).isSome && (sheet.known.lookup key).isSome then
    .error (.repeatedField key)
  else .ok ()

/-- Fills in one attribute. -/
def enter (kind : Kind) (sheet : Sheet) (key : String) (v : Value) : Except Cause Sheet :=
  match kind.known.lookup key with
  | some form => (form.normal v.tidy).map fun v? => { sheet with known := (key, v?) :: sheet.known }
  | none => .ok { sheet with extra := sheet.extra.put key v.tidy }

/-- Fills in attributes in order, up to the first that is refused. -/
def enterAll (kind : Kind) (sheet : Sheet) : List (String × Value) → Except Cause Sheet
  | [] => .ok sheet
  | (key, v) :: rest =>
    match sheet.mayEnter kind key with
    | .error cause => .error cause
    | .ok () =>
      match sheet.enter kind key v with
      | .error cause => .error cause
      | .ok sheet => sheet.enterAll kind rest

/-- The text under a known key. -/
def text? (sheet : Sheet) (key : String) : Option String :=
  (sheet.known.lookup key).join.bind Value.string?

/-- The flag under a known key. -/
def flag? (sheet : Sheet) (key : String) : Option Bool :=
  (sheet.known.lookup key).join.bind Value.boolean?

/-- The sheet as it is saved: the known attributes that have a value, then the extra ones. -/
def toValue (sheet : Sheet) : Value :=
  .object ((sheet.known.filterMap fun (key, v?) => v?.map (key, ·)) ++ sheet.extra)

end Sheet

namespace Component

def ofSheet (kind : Kind) (s : Sheet) : Component :=
  match kind with
  | .agent => .agent {
      label := s.text? "label", role := s.text? "role", goals := s.text? "goals"
      backstory := s.text? "backstory", llmModel := s.text? "llmModel"
      customModel := s.text? "customModel", apiKey := s.text? "apiKey"
      allowDelegation := s.text? "allowDelegation", memory := s.text? "memory"
      extra := s.extra }
  | .task => .task {
      label := s.text? "label", description := s.text? "description"
      expectedOutput := s.text? "expectedOutput", priority := s.text? "priority"
      context := s.text? "context", executionOrder := s.text? "executionOrder"
      extra := s.extra }
  | .tool => .tool {
      label := s.text? "label", toolType := s.text? "toolType"
      configuration := s.text? "configuration", description := s.text? "description"
      returnDirect := s.flag? "returnDirect", extra := s.extra }
  | .flow => .flow {
      label := s.text? "label", flowType := s.text? "flowType", condition := s.text? "condition"
      managerModel := s.text? "managerLLM"
      customManagerModel := s.text? "customManagerModel"
      managerApiKey := s.text? "managerApiKey", maxRetries := s.text? "maxRetries"
      timeout := s.text? "timeout", extra := s.extra }

/-- The filled-in sheet of a component, in the order it is saved. -/
def sheet : Component → Sheet
  | .agent a => {
      known := [("label", a.label.map .string), ("role", a.role.map .string),
        ("goals", a.goals.map .string), ("backstory", a.backstory.map .string),
        ("llmModel", a.llmModel.map .string), ("customModel", a.customModel.map .string),
        ("apiKey", a.apiKey.map .string), ("allowDelegation", a.allowDelegation.map .string),
        ("memory", a.memory.map .string)]
      extra := a.extra }
  | .task t => {
      known := [("label", t.label.map .string), ("description", t.description.map .string),
        ("expectedOutput", t.expectedOutput.map .string), ("priority", t.priority.map .string),
        ("context", t.context.map .string), ("executionOrder", t.executionOrder.map .string)]
      extra := t.extra }
  | .tool t => {
      known := [("label", t.label.map .string), ("toolType", t.toolType.map .string),
        ("configuration", t.configuration.map .string),
        ("description", t.description.map .string),
        ("returnDirect", t.returnDirect.map .boolean)]
      extra := t.extra }
  | .flow f => {
      known := [("label", f.label.map .string), ("flowType", f.flowType.map .string),
        ("condition", f.condition.map .string), ("managerLLM", f.managerModel.map .string),
        ("customManagerModel", f.customManagerModel.map .string),
        ("managerApiKey", f.managerApiKey.map .string), ("maxRetries", f.maxRetries.map .string),
        ("timeout", f.timeout.map .string)]
      extra := f.extra }

/-- The component of a kind whose sheet is this value. -/
def ofValue (kind : Kind) (v : Value) : Except Cause Component :=
  match v with
  | .object members => (({} : Sheet).enterAll kind members).map (ofSheet kind)
  | v => .error (.wrongType (Found.ofValue v) kind.sheetName)

theorem kind_ofSheet (kind : Kind) (s : Sheet) : (ofSheet kind s).kind = kind := by
  cases kind <;> rfl

theorem sheet_known_keys (c : Component) :
    c.sheet.known.map Prod.fst = c.kind.known.map Prod.fst := by
  cases c <;> rfl

theorem ofSheet_sheet (c : Component) : ofSheet c.kind c.sheet = c := by
  cases c <;> simp [ofSheet, sheet, kind, Sheet.text?, Sheet.flag?, List.lookup_cons]

end Component

end CrewChart

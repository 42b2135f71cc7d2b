import CrewChart.Catalog
import CrewChart.Decimal.Reading
import CrewChart.Disk
import CrewChart.Json.Skip
import CrewChart.Json.Writer
import CrewChart.Text.Blank

/-!
# Settings

How long a simulation dwells on a node, and which model a script falls back on.  Settings may be
read from a file, in which every part may be missing, and the delay may be overridden by the
environment.

A fault of the settings is told as a chain of messages, from the attempt to its cause.
-/

set_option autoImplicit false

namespace CrewChart

open Json (Value Reader)
open Json.Reader (Shape)

structure Settings where
  stepDelay : Nat := 1000
  defaultModel : String := CrewChart.defaultModel
deriving DecidableEq, Repr

namespace Settings

/-- The environment variable that overrides the delay. -/
def delayVariable : String := "CREW_FLOW_STEP_DELAY_MS"

inductive Fault where
  | unreadable (path : String) (why : DiskFault)
  | unsupported (path : String)
  | badDelay (why : Decimal.WordFault)
deriving DecidableEq, Repr

/-- The messages of a fault, the cause last. -/
def Fault.chain : Fault → List String
  | .unreadable path why => ["unable to read settings at " ++ path, why.message]
  | .unsupported path =>
    ["unsupported settings format in " ++ path
      ++ ": expected JSON (enable `toml` feature for TOML support)"]
  | .badDelay why =>
    [delayVariable ++ " must be a whole number of milliseconds", why.message]

/-! ## Files -/

/-- A record with one field, which may be missing. -/
def oneField {α : Type} (name : String) (value : Reader α) (default : α) : Shape (Option α) α where
  start := none
  take st key :=
    if key = name then
      if st.isSome then .error (.repeatedField name) else .ok (value.map some)
    else .ok (Reader.skipThen st)
  finish st := .ok (st.getD default)

def simulatorReader (levels : Nat) : Reader Nat :=
  Reader.recordOrTuple levels "settings of the simulator"
    (fun _ => oneField "step_delay_ms" Reader.word ({} : Settings).stepDelay) ["step_delay_ms"]
    fun _ => none

def generatorReader (levels : Nat) : Reader String :=
  Reader.recordOrTuple levels "settings of the generator"
    (fun _ => oneField "default_model" Reader.string ({} : Settings).defaultModel)
    ["default_model"] fun _ => none

def shape (levels : Nat) : Shape (Option Nat × Option String) Settings where
  start := (none, none)
  take st key :=
    if key = "simulator" then
      if st.1.isSome then .error (.repeatedField "simulator")
      else .ok ((simulatorReader levels).map fun delay => (some delay, st.2))
    else if key = "generator" then
      if st.2.isSome then .error (.repeatedField "generator")
      else .ok ((generatorReader levels).map fun model => (st.1, some model))
    else .ok (Reader.skipThen st)
  finish st := .ok {
    stepDelay := st.1.getD ({} : Settings).stepDelay
    defaultModel := st.2.getD ({} : Settings).defaultModel }

/-- The settings a text holds. -/
def parse (text : String) : Except Json.Report Settings :=
  (Reader.recordOrTuple Reader.maxLevels "settings" shape ["simulator", "generator"]
    fun _ => none).read text

variable {m : Type → Type} [Monad m]

def loadFile (disk : Disk m) (path : String) : m (Except Fault Settings) := do
  match ← disk.read path with
  | .error why => return .error (.unreadable path why)
  | .ok text =>
    match parse text with
    | .ok s => return .ok s
    | .error _ => return .error (.unsupported path)

/-! ## The environment -/

/-- Settings with the delay that the environment asks for, if it asks for one. -/
def override (s : Settings) (delay : Option String) : Except Fault Settings :=
  match delay with
  | none => .ok s
  | some text =>
    match Decimal.word (Text.trimmed text) with
    | .ok n => .ok { s with stepDelay := n }
    | .error why => .error (.badDelay why)

/-- The settings from a file, if one is named, and the environment. -/
def resolve (disk : Disk m) (path delay : Option String) : m (Except Fault Settings) := do
  match path with
  | none => return ({} : Settings).override delay
  | some path => return (← loadFile disk path).bind (·.override delay)

/-! ## Writing -/

def toValue (s : Settings) : Value :=
  .object [("simulator", .object [("step_delay_ms", .ofNat s.stepDelay)]),
    ("generator", .object [("default_model", .string s.defaultModel)])]

end Settings

end CrewChart

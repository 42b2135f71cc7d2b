import CrewChart.Json.Writer

/-!
# Faults

What can go wrong with a chart before anything is done with it.  A `Fault` has a cause and a
location; the location is a path in the chart or the name of a source, the file it came from, and a
line and column, as far as they are known.  `Fault.message` holds the wording, and `Fault.report` is
the entry a machine-readable answer has for it.
-/

set_option autoImplicit false

namespace CrewChart

open Json (Value)

structure Location where
  path : Option String := none
  sourcePath : Option String := none
  line : Option Nat := none
  column : Option Nat := none
deriving DecidableEq, Repr

namespace Location

/-- The file, or the path if there is none. -/
def base (l : Location) : Option String := l.sourcePath <|> l.path

/-- `path:line:column`, as far as it is known.  A column counts only after a line. -/
def describe (l : Location) : Option String :=
  l.base.map fun base =>
    match l.line, l.column with
    | some line, some column => base ++ ":" ++ toString line ++ ":" ++ toString column
    | some line, none => base ++ ":" ++ toString line
    | none, _ => base

/-- The location as part of a message. -/
def suffix (l : Location) : String :=
  match l.describe with
  | some place => " at " ++ place
  | none => ""

end Location

namespace Fault

inductive Cause where
  | notAChart (why : String)
  | duplicateNode (id : String)
  | duplicateEdge (id : String)
  | danglingEdge (edge : String) (missing : String)
  | template (why : String)
  | storage (why : String)
deriving DecidableEq, Repr

end Fault

structure Fault where
  cause : Fault.Cause
  location : Location
deriving DecidableEq, Repr

namespace Fault

def message (f : Fault) : String :=
  match f.cause with
  | .notAChart why => "JSON parse error" ++ f.location.suffix ++ ": " ++ why
  | .duplicateNode id => "Duplicate node id '" ++ id ++ "'" ++ f.location.suffix
  | .duplicateEdge id => "Duplicate edge id '" ++ id ++ "'" ++ f.location.suffix
  | .danglingEdge edge missing =>
    "Edge '" ++ edge ++ "' references missing node '" ++ missing ++ "'" ++ f.location.suffix
  | .template why => "Template error: " ++ why
  | .storage why => "Internal error: " ++ why

/-- A message with the location that goes with it. -/
def entry (message : String) (l : Location) : Value :=
  .ofFields [("message", some (.string message)), ("source_path", l.base.map .string),
    ("line", l.line.map .ofNat), ("col", l.column.map .ofNat)]

/-- The list of entries a machine-readable answer has for a fault: one. -/
def report (f : Fault) : Value := .array [entry f.message f.location]

end Fault

end CrewChart

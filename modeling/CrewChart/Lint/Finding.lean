import CrewChart.Json.Skip

/-!
# Findings

A finding is what a check has to say about a node.  It is a value, not a fault: a chart with
findings is still a chart.  Only findings that are errors keep it from passing.

Findings are also read back, from the form they are reported in.
-/

set_option autoImplicit false

namespace CrewChart.Lint

open Json (Value Reader Cause)
open Json.Reader (Shape)

inductive Severity where
  | error
  | warning
deriving DecidableEq, Repr

namespace Severity

def name : Severity → String
  | .error => "error"
  | .warning => "warning"

def named : List (String × Severity) := [.error, .warning].map fun s => (s.name, s)

/-- An error comes before a warning. -/
def le : Severity → Severity → Bool
  | .warning, .error => false
  | _, _ => true

end Severity

structure Finding where
  node : Option String
  code : String
  message : String
  severity : Severity
deriving DecidableEq, Repr

namespace Finding

def error (node code message : String) : Finding := ⟨some node, code, message, .error⟩

def warning (node code message : String) : Finding := ⟨some node, code, message, .warning⟩

def isError (f : Finding) : Bool := f.severity == .error

/-- Errors first, and otherwise in the order they were found. -/
def sorted (findings : List Finding) : List Finding :=
  findings.mergeSort fun f g => f.severity.le g.severity

def toValue (f : Finding) : Value :=
  .ofFields [("nodeId", f.node.map .string), ("code", some (.string f.code)),
    ("message", some (.string f.message)), ("severity", some (.string f.severity.name))]

/-! ## Reading a finding -/

structure Draft where
  node : Option (Option String) := none
  code : Option String := none
  message : Option String := none
  severity : Option Severity := none

def shape (levels : Nat) : Shape Draft Finding where
  start := {}
  take st key :=
    if key = "nodeId" then
      if st.node.isSome then .error (.repeatedField "nodeId")
      else .ok ((Reader.optional Reader.string).map fun id => { st with node := some id })
    else if key = "code" then
      if st.code.isSome then .error (.repeatedField "code")
      else .ok (Reader.string.map fun s => { st with code := some s })
    else if key = "message" then
      if st.message.isSome then .error (.repeatedField "message")
      else .ok (Reader.string.map fun s => { st with message := some s })
    else if key = "severity" then
      if st.severity.isSome then .error (.repeatedField "severity")
      else .ok ((Reader.variant levels Severity.named).map fun s => { st with severity := some s })
    else .ok (Reader.skipThen st)
  finish st :=
    match st.code, st.message, st.severity with
    | none, _, _ => .error (.missingField "code")
    | _, none, _ => .error (.missingField "message")
    | _, _, none => .error (.missingField "severity")
    | some code, some message, some severity =>
      .ok { node := st.node.join, code, message, severity }

def reader (levels : Nat) : Reader Finding :=
  Reader.recordOrTuple levels "struct Diagnostic" shape ["nodeId", "code", "message", "severity"]
    fun length =>
      if length = 0 then none
      else some (.wrongLength length "struct Diagnostic with 4 elements")

/-- The findings a text lists. -/
def parseAll (text : String) : Except Json.Report (List Finding) :=
  (Reader.listOf Reader.maxLevels reader).read text

end Finding

/-- Whether a list of findings keeps a chart from passing. -/
def hasErrors (findings : List Finding) : Bool := findings.any Finding.isError

end CrewChart.Lint

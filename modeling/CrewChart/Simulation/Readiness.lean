import CrewChart.Graph.Basic
import CrewChart.Json.Reader

/-!
# Readiness

A simulation calls no model and runs no tool.  It asks of each node it reaches whether it could
run: an agent needs a role and goals, a task a description, a tool a type and a configuration that
is JSON if there is one, a conditional flow its condition.  A task that no edge leads to, and a
conditional flow without condition, are only warnings.  Of several things amiss the first is
reported.
-/

set_option autoImplicit false

namespace CrewChart.Simulation

inductive Status where
  | success
  | error
  | warning
deriving DecidableEq, Repr

namespace Status

def name : Status → String
  | .success => "success"
  | .error => "error"
  | .warning => "warning"

def named : List (String × Status) := [.success, .error, .warning].map fun s => (s.name, s)

end Status

/-- What a simulation found out about a node. -/
structure Outcome where
  node : String
  status : Status
  message : String
deriving DecidableEq, Repr

/-- A configuration may be left out, but has to be JSON otherwise. -/
def badConfiguration (t : Tool) : Bool :=
  match filled t.configuration with
  | none => false
  | some text => (Json.Value.parse text).toOption.isNone

/-- Whether a node is ready; `reached` tells whether an edge leads to it. -/
def readiness (n : Node) (reached : Bool) : Status × String :=
  match n.component with
  | .agent a =>
    if (filled a.role).isNone || (filled a.goals).isNone then
      (.error, "Agent requires role and goals")
    else (.success, "Agent '" ++ n.label ++ "' initialized successfully")
  | .task t =>
    if (filled t.description).isNone then (.error, "Task requires a description")
    else if !reached then (.warning, "Task has no assigned agent")
    else (.success, "Task '" ++ n.label ++ "' validated successfully")
  | .tool t =>
    if (filled t.toolType).isNone then (.error, "Tool requires a type")
    else if badConfiguration t then (.error, "Invalid tool configuration JSON")
    else (.success, "Tool '" ++ n.label ++ "' configured successfully")
  | .flow f =>
    if f.isConditional && (filled f.condition).isNone then
      (.warning, "Conditional flow missing condition")
    else (.success, "Flow '" ++ n.label ++ "' validated successfully")

def assess (n : Node) (reached : Bool) : Outcome :=
  let (status, message) := readiness n reached
  ⟨n.id, status, message⟩

end CrewChart.Simulation

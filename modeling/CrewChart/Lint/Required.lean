import CrewChart.Graph.Adjacency
import CrewChart.Lint.Finding

/-!
# Required attributes

What a node has to have before a crew can be made of it: an agent its role and goals, a task its
description and an edge that leads to it, a tool its type, and a conditional flow its condition.
The last is only a warning.  Findings come in the order of the nodes, and of a node in the order
above.
-/

set_option autoImplicit false

namespace CrewChart.Lint

/-- A finding, if it applies. -/
def findingIf (applies : Bool) (f : Finding) : List Finding := if applies then [f] else []

theorem mem_findingIf (applies : Bool) (f g : Finding) :
    g ∈ findingIf applies f ↔ applies = true ∧ g = f := by
  cases applies <;> simp [findingIf]

/-- What a node lacks; `reached` tells whether an edge leads to it. -/
def lacks (n : Node) (reached : Bool) : List Finding :=
  match n.component with
  | .agent a =>
    findingIf (filled a.role).isNone
      (.error n.id "AGENT_ROLE_REQUIRED" ("Agent '" ++ n.label ++ "' requires a role"))
    ++ findingIf (filled a.goals).isNone
      (.error n.id "AGENT_GOALS_REQUIRED" ("Agent '" ++ n.label ++ "' requires at least one goal"))
  | .task t =>
    findingIf (filled t.description).isNone
      (.error n.id "TASK_DESCRIPTION_REQUIRED" ("Task '" ++ n.label ++ "' requires a description"))
    ++ findingIf (!reached)
      (.error n.id "TASK_AGENT_REQUIRED"
        ("Task '" ++ n.label ++ "' needs to be assigned to an agent"))
  | .tool t =>
    findingIf (filled t.toolType).isNone
      (.error n.id "TOOL_TYPE_REQUIRED" ("Tool '" ++ n.label ++ "' requires a tool type"))
  | .flow f =>
    findingIf (f.isConditional && (filled f.condition).isNone)
      (.warning n.id "FLOW_CONDITION_REQUIRED"
        ("Conditional flow '" ++ n.label ++ "' requires a condition"))

def required (g : Graph) (a : Adjacency g.size) : List Finding :=
  (List.finRange g.size).flatMap fun i => lacks (g.nodeAt i) (a.hasIncoming i)

end CrewChart.Lint

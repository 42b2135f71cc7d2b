import CrewChart.Graph.Sheet
import CrewChart.Json.Writer

/-!
# The saved form of a chart

A chart is saved as `{ nodes, edges }`, one item a line.  A node has its id, its position, its kind
under `type` and its sheet under `data`; what else it carried follows at the end.  An edge has its
id and its two ends, and then what else it carried.
-/

set_option autoImplicit false

namespace CrewChart

open Json (Value)

namespace Position

def toValue (p : Position) : Value :=
  .object [("x", .number (.float p.x)), ("y", .number (.float p.y))]

end Position

namespace Component

/-- The two members that hold a component. -/
def members (c : Component) : List (String × Value) :=
  [("type", .string c.kind.name), ("data", c.sheet.toValue)]

def toValue (c : Component) : Value := .object c.members

end Component

namespace Node

def toValue (n : Node) : Value :=
  .object ([("id", .string n.id), ("position", n.position.toValue)] ++ n.component.members
    ++ n.extra)

end Node

namespace Edge

def toValue (e : Edge) : Value :=
  .object ([("id", .string e.id), ("source", .string e.source), ("target", .string e.target)]
    ++ e.extra)

end Edge

namespace Graph

def toValue (g : Graph) : Value :=
  .object [("nodes", .array (g.nodes.map Node.toValue)),
    ("edges", .array (g.edges.map Edge.toValue))]

/-- The text that is saved. -/
def save (g : Graph) : String := g.toValue.indented

end Graph

end CrewChart

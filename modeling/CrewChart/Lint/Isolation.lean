import CrewChart.Graph.Adjacency
import CrewChart.Lint.Finding

/-!
# Isolated nodes

A node that no edge touches is reported as a warning, in the order of the nodes.
-/

set_option autoImplicit false

namespace CrewChart.Lint

def isolationCode : String := "NODE_ISOLATED"

def isolatedNode (n : Node) : Finding :=
  .warning n.id isolationCode
    (n.kind.name ++ " '" ++ n.label ++ "' is not connected to any other component")

def isolation (g : Graph) (a : Adjacency g.size) : List Finding :=
  ((List.finRange g.size).filter fun i => !a.isConnected i).map fun i =>
    isolatedNode (g.nodeAt i)

end CrewChart.Lint

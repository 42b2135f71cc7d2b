import CrewChart.Lint.Cycles
import CrewChart.Lint.Isolation
import CrewChart.Lint.Required

/-!
# Checking a chart

The three rules, one after the other.  Every chart can be checked, with integrity or without.
-/

set_option autoImplicit false

namespace CrewChart.Lint

def check (g : Graph) : List Finding :=
  let a := g.adjacency
  isolation g a ++ required g a ++ cycles g a

end CrewChart.Lint

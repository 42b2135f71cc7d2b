import CrewChart.Graph.Integrity
import CrewChart.Plan.Resolve
import CrewChart.Script.Layout
import CrewChart.Template.Registry

/-!
# Generating the script

A chart with integrity is resolved and its plan put into the layout.  A chart without integrity is
refused.
-/

set_option autoImplicit false

namespace CrewChart.Script

/-- The file name and type a script is offered under. -/
def fileName : String := "crew_script.py"

def mimeType : String := "text/x-python"

/-- The name of the layout among templates. -/
def layoutName : String := "crew.py"

/-- The script of a plan. -/
def ofPlan (p : Plan) : Except Fault String :=
  (layout.render p.toValue).mapError (Template.renderFault layoutName)

def generate (g : Graph) (model : String) : Except Fault String := do
  g.checkIntegrity
  ofPlan (Plan.resolve g model)

end CrewChart.Script

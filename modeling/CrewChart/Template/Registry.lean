import CrewChart.Fault
import CrewChart.Template.Render
import CrewChart.Template.Tree

/-!
# Named templates

Templates are kept by name.  Registering a name again replaces its template, unless the new text
cannot be read.
-/

set_option autoImplicit false

namespace CrewChart.Template

open Json (Value)

/-- The fault of the template with this name. -/
def faultOf (name why : String) : Fault where
  cause := .template ("template '" ++ name ++ "' " ++ why)
  location := { path := some ("templates/" ++ name) }

/-- Where in the template with this name something went wrong, ahead of what did. -/
def Place.heading (name : String) (p : Place) : String :=
  "Error rendering \"" ++ name ++ "\" line " ++ toString p.line ++ ", col " ++ toString p.column
    ++ ": "

/-- The fault of a template that could not be rendered. -/
def renderFault (name : String) (f : Failure) : Fault :=
  faultOf name ("failed to render: " ++ (f.2.map (·.heading name)).getD "" ++ f.1.message)

abbrev Registry := List (String × Template)

namespace Registry

def register (r : Registry) (name text : String) : Except Fault Registry :=
  match parse? text with
  | some t => .ok ((name, t) :: r)
  | none => .error (faultOf name "failed to compile")

def render (r : Registry) (name : String) (v : Value) : Except Fault String :=
  match r.lookup name with
  | some t => (t.render v).mapError (renderFault name)
  | none => .error (faultOf name ("failed to render: Template not found " ++ name))

end Registry

end CrewChart.Template

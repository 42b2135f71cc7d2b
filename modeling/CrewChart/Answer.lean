import CrewChart.Graph.Store
import CrewChart.Lint.Check
import CrewChart.Simulation.Report

/-!
# Answers for other programs

What a check or a simulation found, as one line of JSON.  An answer says whether all is well, and
then either what was found or why nothing could be looked for.
-/

set_option autoImplicit false

namespace CrewChart

open Json (Value)

structure Answer where
  ok : Bool
  body : List (String × Value)

namespace Answer

def toValue (a : Answer) : Value := .object (("ok", .boolean a.ok) :: a.body)

def text (a : Answer) : String := a.toValue.compact

def ofFindings (findings : List Lint.Finding) : Answer where
  ok := !Lint.hasErrors findings
  body := [("diagnostics", .array (findings.map Lint.Finding.toValue))]

/-- A chart that could not be checked. -/
def uncheckable (f : Fault) : Answer where
  ok := false
  body := [("diagnostics", .array []), ("errors", f.report)]

def ofReport (r : Simulation.Report) : Answer where
  ok := !r.hasErrors
  body := [("counts", r.counts.toValue), ("report", r.toValue)]

/-- A chart that could not be simulated. -/
def unrunnable (f : Fault) : Answer where
  ok := false
  body := [("errors", f.report)]

/-- The answer to a check of what was loaded. -/
def ofCheck (loaded : Except Fault Graph) : Answer :=
  match loaded with
  | .ok g => ofFindings (Lint.check g)
  | .error f => uncheckable f

/-- The answer to a check of a text. -/
def check (text : String) : Answer := ofCheck (Graph.loadText text)

end Answer

end CrewChart

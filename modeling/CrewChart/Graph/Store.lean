import CrewChart.Graph.Integrity
import CrewChart.Graph.Reader
import CrewChart.Graph.Saved
import CrewChart.Disk

/-!
# Loading and saving

A chart is loaded from a text or from a file, and only with integrity.  A fault is located in the
source it came from: the place of a fault of the text by line and column, the place of a fault of
integrity by its path in the chart, which is put after the name of the source.
-/

set_option autoImplicit false

namespace CrewChart

/-- Where a text comes from. -/
structure Source where
  name : String
  file : Option String := none

namespace Source

/-- A text that was handed over. -/
def inline : Source := { name := "<inline>" }

def ofFile (path : String) : Source := { name := path, file := some path }

/-- A fault of integrity, with its path in this source. -/
def qualify (source : Source) (f : Fault) : Fault :=
  { f with
    location := {
      path := some (match f.location.path with
        | some path => source.name ++ "::" ++ path
        | none => source.name)
      sourcePath := source.file } }

/-- A text that is no chart. -/
def refuse (source : Source) (r : Json.Report) : Fault where
  cause := .notAChart r.message
  location := {
    path := some source.name, sourcePath := source.file
    line := some r.position.line, column := some r.position.column }

end Source

namespace Graph

/-- The file name the editor saves a chart under. -/
def fileName : String := "crew-flow.json"

def load (source : Source) (text : String) : Except Fault Graph :=
  match parse text with
  | .error r => .error (source.refuse r)
  | .ok g =>
    match g.checkIntegrity with
    | .error f => .error (source.qualify f)
    | .ok () => .ok g

def loadText (text : String) : Except Fault Graph := load .inline text

/-- A file that could not be read or written. -/
def storageFault (verb path : String) (f : DiskFault) : Fault where
  cause := .storage ("failed to " ++ verb ++ " " ++ path ++ ": " ++ f.message)
  location := { path := some path, sourcePath := some path }

variable {m : Type → Type} [Monad m]

def loadFile (disk : Disk m) (path : String) : m (Except Fault Graph) := do
  match ← disk.read path with
  | .error f => return .error (storageFault "read" path f)
  | .ok text => return load (.ofFile path) text

def saveFile (disk : Disk m) (path : String) (g : Graph) : m (Except Fault Unit) := do
  match ← disk.write path g.save with
  | .error f => return .error (storageFault "write" path f)
  | .ok () => return .ok ()

theorem load_eq_ok_iff (source : Source) (text : String) (g : Graph) :
    load source text = .ok g ↔ parse text = .ok g ∧ g.WellFormed := by
  unfold load
  cases parse text with
  | error r => simp
  | ok h =>
    simp only [Except.ok.injEq]
    cases hc : h.checkIntegrity with
    | error f =>
      simp only [reduceCtorEq, false_iff, not_and]
      rintro rfl hw
      rw [(checkIntegrity_eq_ok_iff h).2 hw] at hc
      cases hc
    | ok u =>
      simp only [Except.ok.injEq]
      constructor
      · rintro rfl; exact ⟨rfl, (checkIntegrity_eq_ok_iff h).1 hc⟩
      · exact fun hh => hh.1

end Graph

end CrewChart

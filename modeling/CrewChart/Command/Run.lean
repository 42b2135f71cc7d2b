import CrewChart.Answer
import CrewChart.Command.Help
import CrewChart.Preset
import CrewChart.Script.Generate
import CrewChart.Settings

/-!
# Running a command

A run reads at most two files, the settings and the chart, and writes at most one, the script.  All
that it does to the outside is in the operations of a `World`, so a run can be followed in a folder
in memory as well as on a disk.

It ends with what goes to the two output streams and an exit code: `0` if all is well, `1` if the
chart or something on the way to it is not, `2` if the command line makes no sense.
-/

set_option autoImplicit false

namespace CrewChart.Command

structure World (m : Type → Type) extends Disk m where
  now : m Text.Instant
  pause : Nat → m Unit

structure Result where
  code : Nat
  output : String := ""
  errors : String := ""
deriving DecidableEq, Repr

namespace Result

/-- A run that came to a bad end, after what it had put out.  The first message is what failed, the
others are why. -/
def failed (output : String) : List String → Result
  | [] => { code := 1, output }
  | message :: causes =>
    let why := match causes with
      | [] => ""
      | causes => "\nCaused by:\n" ++ String.join (causes.map fun c => "    " ++ c ++ "\n")
    { code := 1, output, errors := "Error: " ++ message ++ "\n" ++ why }

/-- The line of an answer for other programs. -/
def ofAnswer (a : Answer) : Result := { code := if a.ok then 0 else 1, output := a.text ++ "\n" }

end Result

/-! ## Lines of a table -/

/-- A text with blanks after it, up to a width. -/
def padded (width : Nat) (s : String) : String :=
  s ++ String.ofList (List.replicate (width - s.length) ' ')

def findingLine (f : Lint.Finding) : String :=
  padded 7 f.severity.name ++ " " ++ padded 26 f.code ++ " " ++ f.node.getD "-" ++ ": " ++ f.message
    ++ "\n"

def statusWord : Simulation.Status → String
  | .success => "ok"
  | .warning => "warn"
  | .error => "error"

def outcomeLine (o : Simulation.Outcome) : String :=
  padded 5 (statusWord o.status) ++ " " ++ (if o.node = "" then "-" else o.node) ++ ": "
    ++ o.message ++ "\n"

def countsLine (c : Simulation.Counts) : String :=
  toString c.success ++ " success, " ++ toString c.warning ++ " warning(s), "
    ++ toString c.error ++ " error(s)\n"

/-! ## What each command has to say -/

/-- The findings of a check, one a line, and the verdict. -/
def checkResult (chart : String) (findings : List Lint.Finding) : Result :=
  let lines := String.join (findings.map findingLine)
  if Lint.hasErrors findings then .failed lines [chart ++ " failed validation"]
  else
    { code := 0
      output := lines ++ "OK  " ++ chart ++ " (" ++ toString findings.length ++ " finding(s))\n" }

/-- The records of a simulation, one a line, and how many there are of each status. -/
def simulateResult (chart : String) (r : Simulation.Report) : Result :=
  let lines := String.join (r.records.map fun x => outcomeLine x.outcome) ++ countsLine r.counts
  if r.hasErrors then .failed lines ["simulation of " ++ chart ++ " reported errors"]
  else { code := 0, output := lines }

def presetsResult (kind : Option Kind) : Result :=
  let presets := match kind with
    | some k => Preset.ofKind k.name
    | none => Preset.all
  { code := 0, output := (Json.Value.array (presets.map Preset.toValue)).indented ++ "\n" }

/-! ## Running -/

variable {m : Type → Type} [Monad m]

def runCheck (w : World m) (chart : String) (json : Bool) : m Result := do
  let loaded ← Graph.loadFile w.toDisk chart
  if json then return .ofAnswer (.ofCheck loaded)
  match loaded with
  | .error f => return .failed "" [f.message]
  | .ok g => return checkResult chart (Lint.check g)

/-- A simulation that dwells on each node. -/
def simulateIn (w : World m) (delay : Nat) (g : Graph) : m Simulation.Report :=
  Simulation.simulateM (fun evaluated => do
    if evaluated then w.pause delay
    w.now) g

def runSimulate (w : World m) (chart : String) (delay : Nat) (json : Bool) : m Result := do
  match ← Graph.loadFile w.toDisk chart with
  | .error f =>
    if json then return .ofAnswer (.unrunnable f)
    return .failed "" [f.message]
  | .ok g =>
    let report ← simulateIn w delay g
    if json then return .ofAnswer (.ofReport report)
    return simulateResult chart report

def runGenerate (w : World m) (chart : String) (out : Option String) (model : String) :
    m Result := do
  match (← Graph.loadFile w.toDisk chart).bind (Script.generate · model) with
  | .error f => return .failed "" [f.message]
  | .ok script =>
    match out with
    | none => return { code := 0, output := script }
    | some path =>
      match ← w.write path script with
      | .ok () => return { code := 0, errors := "Wrote " ++ path ++ "\n" }
      | .error why => return .failed "" ["failed to write " ++ path, why.message]

def runRequest (w : World m) (settings : Settings) : Request → m Result
  | .check chart json => runCheck w chart json
  | .simulate chart delay json => runSimulate w chart (delay.getD settings.stepDelay) json
  | .generate chart out => runGenerate w chart out settings.defaultModel
  | .presets kind => return presetsResult kind

/-- Runs a line; `delay` is what the environment has to say about the delay. -/
def runLine (w : World m) (delay : Option String) : Line → m Result
  | .misuse => return { code := 2, errors := usage "[OPTIONS] <COMMAND>" }
  | .help topic => return { code := 0, output := helpText topic }
  | .run config request => do
    match ← Settings.resolve w.toDisk config delay with
    | .error f => return .failed "" f.chain
    | .ok settings => runRequest w settings request

/-- Runs the program with these arguments. -/
def run (w : World m) (delay : Option String) (args : List String) : m Result :=
  runLine w delay (Line.ofArguments args)

end CrewChart.Command

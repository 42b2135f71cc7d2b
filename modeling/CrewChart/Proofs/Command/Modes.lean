import CrewChart.Command.Run
import CrewChart.Proofs.Answers
import CrewChart.Proofs.Readiness

/-!
# The two modes of a command

A check and a simulation put out a table, or an answer for other programs.  The two modes are
written apart, but whoever runs them in a script goes by the exit code, and that is the same in
both.  An answer says the same once more, in its member `ok`.

The settings are loaded before the command begins.  Settings that cannot be used end the run there,
in either mode, with nothing put out.

## What is here

* `Found`, `Found.passes` — what a run has found by the time its command decides, and whether that
  is all well.
* `run_line`, `run_check`, `run_simulate` — the result of a run, step by step.
* `code_check`, `code_simulate` — the exit code tells whether all is well, in either mode.
* `output_check`, `answers_check`, `answers_simulate` — the mode for programs puts out an answer, if
  anything, and its `ok` tells the exit code.
* `ofArguments_chart`, `ofArguments_simulate` — lines that ask for the two modes.
* `Agree`, `modes_agree` — what the results of the two modes of one command have in common.
-/

set_option autoImplicit false

namespace CrewChart

open Json (Value)

/-! ## Errors of a simulation -/

namespace Simulation

theorem outcome_simulate (instant : Text.Instant) (g : Graph) :
    (simulate instant g).records.map Record.outcome
      = if outcomes g = [] then [noStart] else outcomes g := by
  rw [simulate, simulateM]
  split
  · rename_i hnone
    rw [if_pos hnone]
    rfl
  · rename_i hsome
    rw [if_neg hsome]
    show ((outcomes g).mapM fun o => (pure ⟨o, instant⟩ : Id Record)).run.map Record.outcome = _
    rw [List.mapM_pure]
    show ((outcomes g).map _).map Record.outcome = _
    rw [List.map_map]
    exact List.map_id _

/-- **Whether a simulation reports an error has nothing to do with the clock.** -/
theorem hasErrors_simulateM_eq {σ : Type} (stamp : Bool → StateM σ Text.Instant) (clock : σ)
    (instant : Text.Instant) (g : Graph) :
    ((simulateM stamp g).run clock).1.hasErrors = (simulate instant g).hasErrors := by
  have hrecorded : ∀ r : Report,
      r.hasErrors = (r.records.map Record.outcome).any fun o => o.status == .error := by
    intro r
    rw [Report.hasErrors, List.any_map]
    rfl
  rw [hrecorded, hrecorded, outcome_simulateM, outcome_simulate]

end Simulation

namespace Command

/-! ## What a run finds -/

/-- What a run has found by the time its command decides: the settings, what was in the file of the
chart once they had been loaded, and the chart that was. -/
structure Found where
  settings : Except Settings.Fault Settings
  content : Except DiskFault String
  chart : Except Fault Graph

/-- Whether the settings can be used, and there is a chart that passes. -/
def Found.passes (f : Found) (passing : Graph → Bool) : Bool :=
  match f.settings, f.chart with
  | .ok _, .ok g => passing g
  | _, _ => false

theorem Found.passes_eq_true_iff {f : Found} {passing : Graph → Bool} : f.passes passing = true ↔
    (∃ settings, f.settings = .ok settings) ∧ ∃ g, f.chart = .ok g ∧ passing g = true := by
  obtain ⟨_ | settings, -, _ | g⟩ := f <;> simp [passes]

section Run

variable {σ : Type} (w : World (StateM σ)) (s : σ) (config env : Option String) (chart : String)

/-- What a run finds that begins in the state `s`. -/
def found : Found :=
  let settings := (Settings.resolve w.toDisk config env).run s
  ⟨settings.1, ((w.read chart).run settings.2).1,
    ((Graph.loadFile w.toDisk chart).run settings.2).1⟩

/-- A chart that is read from its file is the one its text holds. -/
theorem chart_of_content {text : String} {g : Graph}
    (hcontent : (found w s config env chart).content = .ok text)
    (hload : Graph.loadText text = .ok g) : (found w s config env chart).chart = .ok g := by
  rw [found] at hcontent ⊢
  generalize (Settings.resolve w.toDisk config env).run s = settings at hcontent ⊢
  dsimp only at hcontent ⊢
  rw [Graph.loadFile, StateT.run_bind]
  generalize (w.read chart).run settings.2 = content at hcontent ⊢
  obtain ⟨_, t⟩ := content
  obtain rfl := hcontent
  show Graph.load (.ofFile chart) text = .ok g
  exact (Graph.load_eq_ok_iff _ _ _).2 ((Graph.load_eq_ok_iff _ _ _).1 hload)

/-! ## The result of a run -/

theorem run_line (request : Request) :
    ((runLine w env (.run config request)).run s).1 =
      match ((Settings.resolve w.toDisk config env).run s).1 with
      | .error f => .failed "" f.chain
      | .ok settings =>
        ((runRequest w settings request).run
          ((Settings.resolve w.toDisk config env).run s).2).1 := by
  rw [runLine, StateT.run_bind]
  generalize (Settings.resolve w.toDisk config env).run s = settings
  obtain ⟨f | x, t⟩ := settings <;> rfl

theorem run_check (json : Bool) :
    ((runCheck w chart json).run s).1 =
      match json, ((Graph.loadFile w.toDisk chart).run s).1 with
      | true, loaded => .ofAnswer (.ofCheck loaded)
      | false, .error f => .failed "" [f.message]
      | false, .ok g => checkResult chart (Lint.check g) := by
  rw [runCheck, StateT.run_bind]
  generalize (Graph.loadFile w.toDisk chart).run s = loaded
  obtain ⟨f | g, t⟩ := loaded <;> cases json <;> rfl

theorem run_simulate (delay : Nat) (json : Bool) :
    ((runSimulate w chart delay json).run s).1 =
      match json, (Graph.loadFile w.toDisk chart).run s with
      | true, (.error f, _) => .ofAnswer (.unrunnable f)
      | false, (.error f, _) => .failed "" [f.message]
      | true, (.ok g, t) => .ofAnswer (.ofReport ((simulateIn w delay g).run t).1)
      | false, (.ok g, t) => simulateResult chart ((simulateIn w delay g).run t).1 := by
  rw [runSimulate, StateT.run_bind]
  generalize (Graph.loadFile w.toDisk chart).run s = loaded
  obtain ⟨f | g, t⟩ := loaded <;> cases json <;> rfl

/-! ## The exit code -/

theorem code_failed (output : String) (messages : List String) :
    (Result.failed output messages).code = 1 := by
  cases messages <;> rfl

theorem output_failed (output : String) (messages : List String) :
    (Result.failed output messages).output = output := by
  cases messages <;> rfl

theorem code_ofAnswer (a : Answer) : (Result.ofAnswer a).code = if a.ok then 0 else 1 := rfl

theorem code_checkResult (findings : List Lint.Finding) :
    (checkResult chart findings).code = if Lint.hasErrors findings then 1 else 0 := by
  rw [checkResult]
  split <;> rfl

theorem code_simulateResult (r : Simulation.Report) :
    (simulateResult chart r).code = if r.hasErrors then 1 else 0 := by
  rw [simulateResult]
  split <;> rfl

/-- **A check exits with `0` when all is well, in either mode.** -/
theorem code_check (json : Bool) :
    ((runLine w env (.run config (.check chart json))).run s).1.code
      = if (found w s config env chart).passes fun g => !Lint.hasErrors (Lint.check g)
        then 0 else 1 := by
  rw [run_line, found]
  generalize (Settings.resolve w.toDisk config env).run s = settings
  obtain ⟨f | x, t⟩ := settings
  · exact code_failed "" f.chain
  · dsimp only
    rw [runRequest, run_check, Found.passes]
    generalize ((Graph.loadFile w.toDisk chart).run t).1 = loaded
    obtain f | g := loaded <;> cases json
    · rfl
    · rfl
    · dsimp only
      rw [code_checkResult]
      by_cases h : Lint.hasErrors (Lint.check g) = true <;> simp [h]
    · rfl

/-- **A simulation exits with `0` when all is well, in either mode** and however long it takes. -/
theorem code_simulate (instant : Text.Instant) (delay : Option Nat) (json : Bool) :
    ((runLine w env (.run config (.simulate chart delay json))).run s).1.code
      = if (found w s config env chart).passes fun g =>
          !(Simulation.simulate instant g).hasErrors
        then 0 else 1 := by
  rw [run_line, found]
  generalize (Settings.resolve w.toDisk config env).run s = settings
  obtain ⟨f | x, t⟩ := settings
  · exact code_failed "" f.chain
  · dsimp only
    rw [runRequest, run_simulate, Found.passes]
    generalize (Graph.loadFile w.toDisk chart).run t = loaded
    obtain ⟨f | g, u⟩ := loaded <;> cases json
    · rfl
    · rfl
    · dsimp only
      rw [code_simulateResult, simulateIn, Simulation.hasErrors_simulateM_eq _ u instant]
      by_cases h : (Simulation.simulate instant g).hasErrors = true <;> simp [h]
    · dsimp only
      rw [code_ofAnswer, simulateIn, Answer.ofReport,
        Simulation.hasErrors_simulateM_eq _ u instant]

/-! ## What the other mode puts out -/

/-- A result of the mode for other programs: an answer that can be read, unless the settings could
not be used, and then nothing. -/
def Answers (f : Found) (r : Result) : Prop :=
  match f.settings with
  | .error _ => r.output = ""
  | .ok _ => ∃ a : Answer, a.Plain ∧ r = .ofAnswer a

/-- **A check puts out the answer to what was loaded.** -/
theorem output_check : ((runLine w env (.run config (.check chart true))).run s).1
    = match (found w s config env chart).settings with
      | .error f => .failed "" f.chain
      | .ok _ => .ofAnswer (.ofCheck (found w s config env chart).chart) := by
  rw [run_line, found]
  generalize (Settings.resolve w.toDisk config env).run s = settings
  obtain ⟨f | x, t⟩ := settings
  · rfl
  · dsimp only
    rw [runRequest, run_check]

theorem answers_check : Answers (found w s config env chart)
    ((runLine w env (.run config (.check chart true))).run s).1 := by
  rw [output_check, Answers]
  cases (found w s config env chart).settings with
  | error f => exact output_failed "" f.chain
  | ok x => exact ⟨_, Answer.plain_ofCheck _, rfl⟩

theorem answers_simulate (delay : Option Nat) : Answers (found w s config env chart)
    ((runLine w env (.run config (.simulate chart delay true))).run s).1 := by
  rw [run_line, found, Answers]
  generalize (Settings.resolve w.toDisk config env).run s = settings
  obtain ⟨f | x, t⟩ := settings
  · exact output_failed "" f.chain
  · dsimp only
    rw [runRequest, run_simulate]
    generalize (Graph.loadFile w.toDisk chart).run t = loaded
    obtain ⟨f | g, u⟩ := loaded
    · exact ⟨_, Answer.plain_unrunnable f, rfl⟩
    · exact ⟨_, Answer.plain_ofReport _, rfl⟩

end Run

/-! ## The two modes agree -/

/-- What a check and a simulation of a chart may look like.  The name of a chart may be anything
that does not look like an option. -/
theorem ofArguments_chart {chart : String} (hoperand : Argument.ofText chart = .operand chart)
    (hne : chart ≠ "") : Line.ofArguments ["check", chart] = .run none (.check chart false) ∧
      Line.ofArguments ["check", "--json", chart] = .run none (.check chart true) ∧
      Line.ofArguments ["simulate", chart] = .run none (.simulate chart none false) ∧
      Line.ofArguments ["simulate", "--json", chart] = .run none (.simulate chart none true) := by
  have hjson : Argument.ofText "--json" = .long "json" none := by cbv
  have hcheck : Argument.ofText "check" = .operand "check" ∧ Name.ofText? "check" = some .check :=
    ⟨by cbv, by cbv⟩
  have hsimulate : Argument.ofText "simulate" = .operand "simulate" ∧
      Name.ofText? "simulate" = some .simulate := ⟨by cbv, by cbv⟩
  refine ⟨?_, ?_, ?_, ?_⟩ <;>
    simp [Line.ofArguments, line, hcheck, hsimulate, command, arguments, hjson, hoperand, hne,
      Given.addOperand, Given.addFlag, Name.takesChart, Name.flags, request?]

/-- A simulation may be asked to wait between two records, and the flag may come last. -/
theorem ofArguments_simulate {chart delay : String} {ms : Nat}
    (hoperand : Argument.ofText chart = .operand chart) (hne : chart ≠ "")
    (hvalue : Argument.ofText delay = .operand delay) (hms : Decimal.word delay = .ok ms) :
    Line.ofArguments ["simulate", "--delay-ms", delay, chart, "--json"]
      = .run none (.simulate chart (some ms) true) := by
  have hsimulate : Argument.ofText "simulate" = .operand "simulate" ∧
      Name.ofText? "simulate" = some .simulate := ⟨by cbv, by cbv⟩
  have hdelay : Argument.ofText "--delay-ms" = .long "delay-ms" none := by cbv
  have hjson : Argument.ofText "--json" = .long "json" none := by cbv
  simp [Line.ofArguments, line, hsimulate, command, arguments, hdelay, isValue, hvalue, allowed,
    hms, hoperand, hne, hjson, Given.addOption, Given.addOperand, Given.addFlag, Name.takesChart,
    Name.flags, Name.options, request?, Except.toOption]

/-- What the results of a command in its two modes have in common, where `passing` is what the
command asks of a chart. -/
structure Agree (f : Found) (passing : Graph → Bool) (plain json : Result) : Prop where
  /-- The exit codes are the same. -/
  code : plain.code = json.code
  /-- They are `0` when the settings can be used and there is a chart that passes. -/
  zero : plain.code = 0 ↔
    (∃ settings, f.settings = .ok settings) ∧ ∃ g, f.chart = .ok g ∧ passing g = true
  /-- What is put out for other programs tells the exit code. -/
  tells : ∀ settings, f.settings = .ok settings → ∃ v, Value.parse json.output = .ok v ∧
    v.member? "ok" = some (.boolean (json.code == 0))
  /-- Settings that cannot be used end the run before anything is put out. -/
  silent : ∀ fault, f.settings = .error fault → json.output = ""

theorem Answers.agree {f : Found} {passing : Graph → Bool} {plain json : Result}
    (hanswers : Answers f json) (hplain : plain.code = if f.passes passing then 0 else 1)
    (hjson : json.code = if f.passes passing then 0 else 1) : Agree f passing plain json where
  code := hplain.trans hjson.symm
  zero := by
    rw [hplain, ← Found.passes_eq_true_iff]
    cases f.passes passing <;> simp
  tells settings hsettings := by
    rw [Answers, hsettings] at hanswers
    obtain ⟨a, ha, rfl⟩ := hanswers
    refine ⟨a.toValue.tidy, ha.parse_text (by simp [Json.isBlank]), ?_⟩
    rw [ha.member?_ok, code_ofAnswer]
    cases a.ok <;> rfl
  silent fault hfault := by
    rw [Answers, hfault] at hanswers
    exact hanswers

/-- **The two modes of a command agree.**  Lines that ask for the check of a chart exit with the
same code in either mode, and so do lines that ask for its simulation, however long a step takes;
and what is put out for other programs tells the code.  If the settings can be used and the chart
holds a text that can be loaded, the check puts out the answer to the check of that text. -/
theorem modes_agree {σ : Type} (w : World (StateM σ)) (s : σ) (env config : Option String)
    (chart : String) (delay delay' : Option Nat) (instant : Text.Instant)
    {check checkJson simulate simulateJson : List String}
    (hcheck : Line.ofArguments check = .run config (.check chart false))
    (hcheckJson : Line.ofArguments checkJson = .run config (.check chart true))
    (hsimulate : Line.ofArguments simulate = .run config (.simulate chart delay false))
    (hsimulateJson : Line.ofArguments simulateJson = .run config (.simulate chart delay' true)) :
    let f := found w s config env chart
    let result (args : List String) := ((run w env args).run s).1
    Agree f (fun g => !Lint.hasErrors (Lint.check g)) (result check) (result checkJson) ∧
      Agree f (fun g => !(Simulation.simulate instant g).hasErrors) (result simulate)
        (result simulateJson) ∧
      ∀ settings text g, f.settings = .ok settings → f.content = .ok text →
        Graph.loadText text = .ok g →
          (result checkJson).output = (Answer.check text).text ++ "\n" := by
  intro f result
  refine ⟨?_, ?_, fun settings text g hsettings hcontent hload => ?_⟩
  · -- The output for programs tells the verdict; what is left is that both modes exit by it.
    have hanswers := answers_check w s config env chart
    rw [← hcheckJson] at hanswers
    refine hanswers.agree ?_ ?_
    · show ((runLine w env (Line.ofArguments check)).run s).1.code = _
      rw [hcheck, code_check]
    · rw [hcheckJson, code_check]
  · have hanswers := answers_simulate w s config env chart delay'
    rw [← hsimulateJson] at hanswers
    refine hanswers.agree ?_ ?_
    · show ((runLine w env (Line.ofArguments simulate)).run s).1.code = _
      rw [hsimulate, code_simulate w s config env chart instant]
    · rw [hsimulateJson, code_simulate w s config env chart instant]
  · have hchart : f.chart = .ok g := chart_of_content w s config env chart hcontent hload
    show ((runLine w env (Line.ofArguments checkJson)).run s).1.output = _
    rw [hcheckJson, output_check, hsettings, Answer.check, hload]
    show (Answer.ofCheck f.chart).text ++ "\n" = _
    rw [hchart]

/-! ### A task that has nothing to do -/

/-- A place with one file in it, where nothing can be written and no time passes. -/
def oneFile (name text : String) : World (StateM Unit) where
  read path := return if path = name then .ok text else .error .notFound
  write _ _ := return .error .notFolder
  now := return .epoch
  pause _ := return

/-- A task without a description. -/
def idle : Value := .object [
  ("nodes", .array [.object [("id", .string "k"), ("type", .string "task"),
    ("position", .object [("x", .ofNat 0), ("y", .ofNat 0)]), ("data", .object [])]]),
  ("edges", .array [])]

def idleChart : Graph where
  nodes := [{ id := "k", component := .task {} }]

theorem loadText_idle : Graph.loadText idle.compact = .ok idleChart := by
  have hplain : idle.Plain Json.Reader.maxLevels :=
    ⟨by decide, fun x hx => by simp [idle, Value.ofNat, Json.Number.ofNat] at hx⟩
  have hread := @Json.read_compact _ hplain "" (by simp)
  rw [String.append_empty] at hread
  have hparse : Graph.parse idle.compact = .ok idleChart := Graph.parse_of_value hread (by decide)
  exact (Graph.load_eq_ok_iff _ _ _).2 ⟨hparse, by decide, by decide, by decide, by decide⟩

/-- The result of a run where this chart is the one file. -/
def resultOnIdle (env : Option String) (args : List String) : Result :=
  ((run (oneFile "f.json" idle.compact) env args).run ()).1

/-- The task lacks its description, and every mode says so. -/
theorem modes_agree_idle :
    (resultOnIdle none ["check", "f.json"]).code
        = (resultOnIdle none ["check", "--json", "f.json"]).code ∧
      (resultOnIdle none ["simulate", "f.json"]).code
        = (resultOnIdle none ["simulate", "--delay-ms", "5", "f.json", "--json"]).code ∧
      (resultOnIdle none ["check", "--json", "f.json"]).output
        = (Answer.check idle.compact).text ++ "\n" := by
  obtain ⟨hcheck, hcheckJson, hsimulate, -⟩ := @ofArguments_chart "f.json" (by cbv) (by decide)
  have hsimulateJson : Line.ofArguments ["simulate", "--delay-ms", "5", "f.json", "--json"]
      = .run none (.simulate "f.json" (some 5) true) :=
    ofArguments_simulate (by cbv) (by decide) (by cbv) (by cbv)
  obtain ⟨hchecks, hsimulates, houtput⟩ := modes_agree (oneFile "f.json" idle.compact) () none none
    "f.json" none (some 5) .epoch hcheck hcheckJson hsimulate hsimulateJson
  have hsettings : (found (oneFile "f.json" idle.compact) () none none "f.json").settings
      = .ok {} := rfl
  have hcontent : (found (oneFile "f.json" idle.compact) () none none "f.json").content
      = .ok idle.compact := rfl
  have hanswer := houtput _ _ _ hsettings hcontent loadText_idle
  unfold resultOnIdle
  exact ⟨hchecks.code, hsimulates.code, hanswer⟩

/-- With a delay in the environment that is no number, nothing is put out, though the chart is there
and can be loaded. -/
theorem check_silent_idle : ((oneFile "f.json" idle.compact).read "f.json").run ()
      = (.ok idle.compact, ()) ∧
    Graph.loadText idle.compact = .ok idleChart ∧
    (resultOnIdle (some "soon") ["check", "--json", "f.json"]).output
      ≠ (Answer.check idle.compact).text ++ "\n" := by
  obtain ⟨-, hcheckJson, -, -⟩ := @ofArguments_chart "f.json" (by cbv) (by decide)
  have hsettings : Settings.resolve (oneFile "f.json" idle.compact).toDisk none (some "soon")
      = pure (.error (.badDelay .badDigit)) := by
    have hdelay : Decimal.word (Text.trimmed "soon") = .error .badDigit := by cbv
    rw [Settings.resolve, Settings.override, hdelay]
  have hsilent : (resultOnIdle (some "soon") ["check", "--json", "f.json"]).output = "" := by
    rw [resultOnIdle, run, hcheckJson, run_line, hsettings]
    exact output_failed "" _
  refine ⟨rfl, loadText_idle, fun h => ?_⟩
  rw [hsilent] at h
  have hnewline := congrArg String.toList h
  rw [String.toList_append] at hnewline
  exact absurd hnewline.symm (by simp)

end Command

end CrewChart

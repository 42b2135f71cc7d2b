import CrewChart.Proofs.Command.Modes
import CrewChart.Proofs.Script.Printed

/-!
# What a run does to files

A run reads the settings and the chart, and a run that generates a script writes it if it is told
where to.  This file says that nothing else happens to files: whatever is asked for, whatever the
files hold, and however the run ends.

What there is of files is given by a view of the state, `Files`, and what is relied on of the
outside is `World.Keeps`: nothing but a write that succeeds changes a file, and such a write changes
the one file it names.

## What is here

* `Leaves` — a computation that leaves all files as they were, and how such computations are put
  together.
* `World.Keeps.runLine` — a line that names no file to write to leaves them.
* `run_generate`, `OnlyWrites`, `onlyWrites_runLine` — a line that names one: either the run fails
  and leaves them too, or it writes to that file what it would have printed.
* `Folder.keeps_world` — a folder in memory can be relied on: a path leads to the same file before
  and after something has been put into it.
* `run_writes_only_script` — what a run does to files, for all arguments.
* `ofArguments_generate` — the lines that ask for a script.
-/

set_option autoImplicit false

namespace CrewChart

/-- The files at one time: which file a path leads to, if there is a place for one, and what each
file holds. -/
structure Files (ι : Type) where
  place : String → Option ι
  content : ι → Option ByteArray

/-- The text has been put into the file that the path leads to, and nothing else has changed. -/
def Files.Written {ι : Type} (before after : Files ι) (path text : String) : Prop :=
  ∃ p, before.place path = some p ∧ after.place path = some p ∧
    after.content p = some text.toUTF8 ∧ ∀ q, q ≠ p → after.content q = before.content q

namespace Command

variable {σ ι : Type} {files : σ → Files ι}

/-- What a run relies on, where `files` are those of a state. -/
structure World.Keeps (w : World (StateM σ)) (files : σ → Files ι) : Prop where
  /-- Reading changes no file. -/
  read : ∀ path s, files ((w.read path).run s).2 = files s
  /-- Looking at the clock changes no file. -/
  now : ∀ s, files (w.now.run s).2 = files s
  /-- Waiting changes no file. -/
  pause : ∀ delay s, files ((w.pause delay).run s).2 = files s
  /-- A write that fails changes no file. -/
  refused : ∀ path text s why t, (w.write path text).run s = (.error why, t) → files t = files s
  /-- A write that succeeds changes the file it names. -/
  written : ∀ path text s t, (w.write path text).run s = (.ok (), t) →
    (files s).Written (files t) path text

/-! ## Leaving the files as they were -/

/-- The second of two computations begins where the first ends. -/
theorem run_bind {α β : Type} (x : StateM σ α) (f : α → StateM σ β) (s : σ) :
    (x >>= f).run s = (f (x.run s).1).run (x.run s).2 := rfl

/-- The files are the same after the computation, whatever its result. -/
def Leaves (files : σ → Files ι) {α : Type} (x : StateM σ α) : Prop :=
  ∀ s, files (x.run s).2 = files s

theorem Leaves.pure {α : Type} (a : α) : Leaves files (pure a : StateM σ α) := fun _ => rfl

theorem Leaves.bind {α β : Type} {x : StateM σ α} {f : α → StateM σ β} (hx : Leaves files x)
    (hf : ∀ a, Leaves files (f a)) : Leaves files (x >>= f) := by
  intro s
  rw [run_bind]
  exact (hf _ _).trans (hx s)

theorem Leaves.mapM {α β : Type} {f : α → StateM σ β} (hf : ∀ a, Leaves files (f a))
    (l : List α) : Leaves files (l.mapM f) := by
  induction l with
  | nil => exact .pure _
  | cons a l ih =>
    rw [List.mapM_cons]
    exact .bind (hf a) fun _ => .bind ih fun _ => .pure _

/-- The file a line asks to have written. -/
def Line.output? : Line → Option String
  | .run _ (.generate _ out) => out
  | _ => none

namespace World.Keeps

variable {w : World (StateM σ)} (hw : w.Keeps files)
include hw

theorem loadFile (chart : String) : Leaves files (Graph.loadFile w.toDisk chart) := by
  refine .bind (hw.read chart) fun content => ?_
  split <;> exact .pure _

theorem resolve (config env : Option String) :
    Leaves files (Settings.resolve w.toDisk config env) := by
  cases config with
  | none => exact .pure _
  | some path =>
    refine .bind (.bind (hw.read path) fun content => ?_) fun _ => .pure _
    split
    · exact .pure _
    · split <;> exact .pure _

theorem simulateIn (delay : Nat) (g : Graph) : Leaves files (simulateIn w delay g) := by
  have hwait : Leaves files (w.pause delay >>= fun _ => w.now) :=
    .bind (hw.pause delay) fun _ => hw.now
  rw [Command.simulateIn, Simulation.simulateM]
  split
  · exact .bind hw.now fun _ => .pure _
  · exact .bind (.mapM (fun _ => .bind hwait fun _ => .pure _) _) fun _ => .pure _

theorem runCheck (chart : String) (json : Bool) :
    Leaves files (runCheck w chart json) := by
  refine .bind (hw.loadFile chart) fun loaded => ?_
  cases json
  · cases loaded <;> exact .pure _
  · exact .pure _

theorem runSimulate (chart : String) (delay : Nat) (json : Bool) :
    Leaves files (runSimulate w chart delay json) := by
  refine .bind (hw.loadFile chart) fun loaded => ?_
  cases loaded with
  | error f => cases json <;> exact .pure _
  | ok g =>
    refine .bind (hw.simulateIn delay g) fun report => ?_
    cases json <;> exact .pure _

/-- A script that is printed is written nowhere. -/
theorem runGenerate (chart model : String) : Leaves files (runGenerate w chart none model) := by
  refine .bind (hw.loadFile chart) fun loaded => ?_
  split <;> exact .pure _

/-- **A line that names no file to write to leaves all files as they were.** -/
theorem runLine (env : Option String) {line : Line} (h : line.output? = none) :
    Leaves files (runLine w env line) := by
  cases line with
  | misuse => exact .pure _
  | help topic => exact .pure _
  | run config request =>
    refine .bind (hw.resolve config env) fun settings => ?_
    cases settings with
    | error f => exact .pure _
    | ok settings =>
      cases request with
      | check chart json => exact hw.runCheck chart json
      | simulate chart delay json => exact hw.runSimulate chart _ json
      | presets kind => exact .pure _
      | generate chart out =>
        obtain rfl : out = none := h
        exact hw.runGenerate chart _

end World.Keeps

/-! ## Writing the script -/

/-- What becomes of the script of a chart, once it has been read. -/
theorem run_generate (w : World (StateM σ)) (chart : String) (out : Option String) (model : String)
    (s : σ) : (runGenerate w chart out model).run s =
      let loaded := (Graph.loadFile w.toDisk chart).run s
      match loaded.1.bind (Script.generate · model), out with
      | .error f, _ => (.failed "" [f.message], loaded.2)
      | .ok script, none => ({ code := 0, output := script }, loaded.2)
      | .ok script, some path =>
        match (w.write path script).run loaded.2 with
        | (.ok (), t) => ({ code := 0, errors := "Wrote " ++ path ++ "\n" }, t)
        | (.error why, t) => (.failed "" ["failed to write " ++ path, why.message], t) := by
  rw [runGenerate, run_bind]
  generalize (Graph.loadFile w.toDisk chart).run s = loaded
  obtain ⟨loaded, t⟩ := loaded
  dsimp only
  generalize loaded.bind (Script.generate · model) = generated
  obtain f | script := generated
  · rfl
  · obtain _ | path := out
    · rfl
    · dsimp only
      rw [run_bind]
      generalize (w.write path script).run t = outcome
      obtain ⟨_ | _, u⟩ := outcome <;> rfl

/-- What a run that is told where to write does to files.  `printed` is the result of the run that
is told nothing and prints the script. -/
structure OnlyWrites (before after : Files ι) (path : String) (result printed : Result) : Prop where
  /-- A run that fails leaves all files as they were. -/
  failed : result.code ≠ 0 → after = before
  /-- A run that succeeds puts into the file what would have been printed. -/
  succeeded : result.code = 0 → printed.code = 0 ∧ before.Written after path printed.output

theorem OnlyWrites.of_failed {before after : Files ι} {path output : String}
    {messages : List String} {printed : Result} (h : after = before) :
    OnlyWrites before after path (.failed output messages) printed where
  failed _ := h
  succeeded hcode := absurd ((code_failed output messages).symm.trans hcode) (by decide)

theorem onlyWrites_runGenerate {w : World (StateM σ)} (hw : w.Keeps files)
    (chart path model : String) (s : σ) :
    let after := (runGenerate w chart (some path) model).run s
    OnlyWrites (files s) (files after.2) path after.1
      ((runGenerate w chart none model).run s).1 := by
  have hread := hw.loadFile chart s
  rw [run_generate, run_generate]
  generalize (Graph.loadFile w.toDisk chart).run s = loaded at hread ⊢
  obtain ⟨loaded, t⟩ := loaded
  dsimp only at hread ⊢
  generalize loaded.bind (Script.generate · model) = generated
  obtain f | script := generated <;> dsimp only
  · exact .of_failed hread
  · rcases houtcome : (w.write path script).run t with ⟨why | _, u⟩ <;> dsimp only
    · exact .of_failed ((hw.refused path script t why u houtcome).trans hread)
    · refine ⟨fun h => absurd rfl h, fun _ => ⟨rfl, ?_⟩⟩
      rw [← hread]
      exact hw.written path script t u houtcome

/-- **A line that names a file to write to writes that file or none.** -/
theorem onlyWrites_runLine {w : World (StateM σ)} (hw : w.Keeps files)
    (env config : Option String) (chart path : String) (s : σ) :
    let after := (runLine w env (.run config (.generate chart (some path)))).run s
    OnlyWrites (files s) (files after.2) path after.1
      ((runLine w env (.run config (.generate chart none))).run s).1 := by
  have hread := hw.resolve config env s
  rw [runLine, runLine, run_bind, run_bind]
  generalize (Settings.resolve w.toDisk config env).run s = resolved at hread ⊢
  obtain ⟨settings, t⟩ := resolved
  dsimp only at hread
  obtain f | settings := settings
  · exact .of_failed hread
  · rw [← hread]
    exact onlyWrites_runGenerate hw chart path settings.defaultModel t

end Command

/-! ## A folder in memory -/

namespace Folder

/-- A folder as all there is of the outside, where no time passes. -/
def world : Command.World (StateM Folder) where
  toDisk := disk
  now := return .epoch
  pause _ := return

def view (d : Folder) : Files Names where
  place path := (d.target path).toOption
  content := d.content?

section Put

variable {d : Folder} (file : Names) (bytes : ByteArray)

theorem isFolder_put {here : Names} (h : d.isFolder here = true) :
    (d.put file bytes).isFolder here = true := by
  rw [isFolder, Bool.or_eq_true, List.any_eq_true] at h ⊢
  obtain houter | ⟨⟨p, old⟩, hfile, hbelow⟩ := h
  · exact .inl houter
  · right
    by_cases hp : p = file
    · exact ⟨(file, bytes), List.mem_cons_self, hp ▸ hbelow⟩
    · refine ⟨(p, old), List.mem_cons_of_mem _ (List.mem_filter.2 ⟨hfile, ?_⟩), hbelow⟩
      exact decide_eq_true hp

/-- Where names lead, they lead still when a file has been put somewhere. -/
theorem resolve_put {names : List String} {here p : Names} (h : d.resolve here names = .ok p) :
    (d.put file bytes).resolve here names = .ok p := by
  -- Putting a file takes no folder away, so the two ways branch alike at every name.
  induction names generalizing here with
  | nil => exact h
  | cons name rest ih =>
    rw [resolve] at h ⊢
    by_cases hfolder : d.isFolder here = true
    · rw [if_pos hfolder] at h
      rw [if_pos (isFolder_put file bytes hfolder)]
      by_cases hstay : name = "" ∨ name = "."
      · rw [if_pos hstay] at h ⊢
        exact ih h
      · rw [if_neg hstay] at h ⊢
        by_cases hup : name = ".."
        · rw [if_pos hup] at h ⊢
          exact ih h
        · rw [if_neg hup] at h ⊢
          by_cases hlong : maxName < name.utf8ByteSize
          · rw [if_pos hlong] at h
            contradiction
          · rw [if_neg hlong] at h ⊢
            exact ih h
    · rw [if_neg hfolder] at h
      split at h <;> contradiction

theorem bind_eq_ok {ε α β : Type} {x : Except ε α} {f : α → Except ε β} {b : β} :
    x >>= f = .ok b ↔ ∃ a, x = .ok a ∧ f a = .ok b := by
  cases x <;> simp [bind, Except.bind]

theorem target_put {path : String} {p : Names} (h : d.target path = .ok p) :
    (d.put file bytes).target path = .ok p := by
  rw [target] at h ⊢
  obtain ⟨names, hnames, h⟩ := bind_eq_ok.1 h
  refine bind_eq_ok.2 ⟨names, hnames, ?_⟩
  generalize names.reverse = reversed at h ⊢
  obtain _ | ⟨last, before⟩ := reversed
  · exact h
  · obtain ⟨folder, hfolder, h⟩ := bind_eq_ok.1 h
    refine bind_eq_ok.2 ⟨folder, resolve_put file bytes hfolder, ?_⟩
    split_ifs at h ⊢
    exact resolve_put file bytes h

end Put

theorem writeText_eq_ok_iff {d t : Folder} {path text : String} : d.writeText path text = .ok t ↔
    ∃ p, d.target path = .ok p ∧ d.isFolder p = false ∧ d.put p text.toUTF8 = t := by
  rw [writeText, bind_eq_ok]
  simp only [← Bool.not_eq_true]
  refine exists_congr fun p => and_congr_right fun _ => ?_
  split_ifs with hfolder <;> simp [hfolder]

/-- A text that has been put into a file is there to be read. -/
theorem readText_of_content? {d : Folder} {path text : String} {p : Names}
    (hlocate : d.locate path = .ok p) (hcontent : d.content? p = some text.toUTF8) :
    d.readText path = .ok text := by
  have htext : String.fromUTF8? text.toUTF8 = some text := by
    simp only [String.fromUTF8?, String.toUTF8_eq_toByteArray, dif_pos text.isValidUTF8]
    rfl
  have hbytes : d.readBytes path = .ok text.toUTF8 := by
    refine bind_eq_ok.2 ⟨p, hlocate, ?_⟩
    rw [hcontent]
  refine bind_eq_ok.2 ⟨_, hbytes, ?_⟩
  rw [htext]

theorem view_put {d : Folder} {path : String} {p : Names} (h : d.target path = .ok p)
    (text : String) : d.view.Written (d.put p text.toUTF8).view path text := by
  refine ⟨p, ?_, ?_, ?_, fun q hq => ?_⟩
  · exact congrArg Except.toOption h
  · exact congrArg Except.toOption (target_put p _ h)
  · exact (content?_put d p _ p).trans (if_pos rfl)
  · exact (content?_put d p _ q).trans (if_neg hq)

theorem run_write (d : Folder) (path text : String) : (world.write path text).run d =
    match d.writeText path text with
    | .ok t => (.ok (), t)
    | .error f => (.error f, d) := by
  rw [world, disk, Command.run_bind]
  show StateT.run (match d.writeText path text with | .ok _ => _ | .error _ => _) d = _
  cases d.writeText path text <;> rfl

/-- **A folder can be relied on.** -/
theorem keeps_world : world.Keeps view where
  read _ _ := rfl
  now _ := rfl
  pause _ _ := rfl
  refused path text d why t h := by
    rw [run_write] at h
    split at h
    · obtain ⟨houtcome, -⟩ := Prod.mk.inj h
      contradiction
    · rw [(Prod.mk.inj h).2]
  written path text d t h := by
    rw [run_write] at h
    split at h
    · rename_i hwritten
      obtain ⟨p, hp, -, hput⟩ := writeText_eq_ok_iff.1 hwritten
      rw [← (Prod.mk.inj h).2, ← hput]
      exact view_put hp text
    · obtain ⟨houtcome, -⟩ := Prod.mk.inj h
      contradiction

end Folder

/-! ## All runs -/

namespace Command

variable {σ ι : Type} {files : σ → Files ι}

/-- **A run touches only the file it is asked to write, and only if it succeeds.**  A run that is
not asked to write leaves all files as they were: a check, a simulation, a list of presets, a script
that is printed, help, or a line that makes no sense.  So does a run that fails, with whatever was
asked.  A run that succeeds in writing a script puts into that file what it prints when it is not
told where to write, and changes no other. -/
theorem run_writes_only_script {w : World (StateM σ)} (hw : w.Keeps files) (s : σ)
    (env : Option String) (args : List String) :
    let after := (run w env args).run s
    ((Line.ofArguments args).output? = none → files after.2 = files s) ∧
      (after.1.code ≠ 0 → files after.2 = files s) ∧
      ∀ config chart path,
        Line.ofArguments args = .run config (.generate chart (some path)) → after.1.code = 0 →
          let printed := ((runLine w env (.run config (.generate chart none))).run s).1
          printed.code = 0 ∧ (files s).Written (files after.2) path printed.output := by
  have hasked : (Line.ofArguments args).output? = none ∨ ∃ config chart path,
      Line.ofArguments args = .run config (.generate chart (some path)) := by
    generalize Line.ofArguments args = line
    rcases line with ⟨config, _ | _ | ⟨chart, _ | path⟩ | _⟩ | _ | _
    case run.generate.some => exact .inr ⟨config, chart, path, rfl⟩
    all_goals exact .inl rfl
  rw [run]
  refine ⟨fun hnone => hw.runLine env hnone s, fun hfailed => ?_, fun config chart path hline => ?_⟩
  · rcases hasked with hnone | ⟨config, chart, path, hline⟩
    · exact hw.runLine env hnone s
    · rw [hline] at hfailed ⊢
      exact (onlyWrites_runLine hw env config chart path s).failed hfailed
  · rw [hline]
    exact (onlyWrites_runLine hw env config chart path s).succeeded

/-! ### A script written over its chart -/

/-- A folder in which the chart is the one file. -/
def idleFolder : Folder := ⟨[(["f.json"], idle.compact.toUTF8)]⟩

theorem namesOf_idle : Folder.namesOf "f.json" = .ok ["f.json"] ∧
    Folder.namesOf "./f.json" = .ok [".", "f.json"] := by
  constructor <;> simp +decide [Folder.namesOf, String.splitOn, String.splitOnAux.eq_1]

theorem target_idleFolder : idleFolder.target "./f.json" = .ok ["f.json"] := by
  rw [Folder.target, namesOf_idle.2]
  rfl

theorem loadFile_idleFolder : (Graph.loadFile Folder.world.toDisk "f.json").run idleFolder
    = (.ok idleChart, idleFolder) := by
  have hlocate : idleFolder.locate "f.json" = .ok ["f.json"] := by
    rw [Folder.locate, namesOf_idle.1]
    rfl
  have hread : (Folder.world.read "f.json").run idleFolder = (.ok idle.compact, idleFolder) :=
    congrArg (·, idleFolder) (Folder.readText_of_content? hlocate rfl)
  have hload : Graph.load (.ofFile "f.json") idle.compact = .ok idleChart :=
    (Graph.load_eq_ok_iff _ _ _).2 ((Graph.load_eq_ok_iff _ _ _).1 loadText_idle)
  rw [Graph.loadFile, run_bind, hread]
  exact congrArg (·, idleFolder) hload

/-- A script is printed, or put where it was asked for. -/
theorem ofArguments_generate {chart out : String}
    (hoperand : Argument.ofText chart = .operand chart) (hne : chart ≠ "")
    (hvalue : Argument.ofText out = .operand out) (hout : out ≠ "") :
    Line.ofArguments ["generate", chart] = .run none (.generate chart none) ∧
      Line.ofArguments ["generate", chart, "--out", out]
        = .run none (.generate chart (some out)) := by
  have hgenerate : Argument.ofText "generate" = .operand "generate" ∧
      Name.ofText? "generate" = some .generate := ⟨by cbv, by cbv⟩
  have hoption : Argument.ofText "--out" = .long "out" none := by cbv
  refine ⟨?_, ?_⟩ <;>
    simp [Line.ofArguments, line, hgenerate, command, arguments, hoperand, hne, hoption, isValue,
      hvalue, hout, allowed, Given.addOption, Given.addOperand, Name.takesChart, Name.flags,
      Name.options, request?]

/-- The chart is read before its file is written over. -/
theorem run_writes_only_idle :
    let after := (run Folder.world none ["generate", "f.json", "--out", "./f.json"]).run idleFolder
    let printed := (run Folder.world none ["generate", "f.json"]).run idleFolder
    after.1.code = 0 ∧ after.2.content? ["f.json"] = some printed.1.output.toUTF8 ∧
      printed.1.code = 0 ∧ printed.2.content? ["f.json"] = some idle.compact.toUTF8 := by
  obtain ⟨hprint, hline⟩ := @ofArguments_generate "f.json" "./f.json" (by cbv) (by decide) (by cbv)
    (by decide)
  have hcode : ((run Folder.world none ["generate", "f.json", "--out", "./f.json"]).run
      idleFolder).1.code = 0 := by
    have hscript := Script.generate_eq (g := idleChart) (by decide) ({} : Settings).defaultModel
    rw [run, hline]
    show ((runGenerate Folder.world "f.json" (some "./f.json") _).run idleFolder).1.code = 0
    rw [run_generate, loadFile_idleFolder]
    dsimp only [Except.bind]
    rw [hscript]
    dsimp only
    rw [Folder.run_write, Folder.writeText_eq_ok_iff.2 ⟨_, target_idleFolder, rfl, rfl⟩]
  -- The two texts are not computed: the theorem says that they are the same.
  obtain ⟨-, -, hwrites⟩ := run_writes_only_script Folder.keeps_world idleFolder none
    ["generate", "f.json", "--out", "./f.json"]
  obtain ⟨hprints, -⟩ := run_writes_only_script Folder.keeps_world idleFolder none
    ["generate", "f.json"]
  obtain ⟨hprinted, p, hplace, -, hcontent, -⟩ := hwrites none "f.json" "./f.json" hline hcode
  have hsame := congrArg (Files.content · ["f.json"]) (hprints (by rw [hprint]; rfl))
  obtain rfl : ["f.json"] = p := by
    have htarget := congrArg Except.toOption target_idleFolder
    exact Option.some.inj (htarget.symm.trans hplace)
  rw [← hprint] at hprinted hcontent
  exact ⟨hcode, hcontent, hprinted, hsame⟩

end Command

end CrewChart

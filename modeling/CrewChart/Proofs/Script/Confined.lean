import CrewChart.Proofs.Script.Lines

/-!
# Texts stay inside the literals of the script

Whoever draws a chart chooses its texts, and the script is code.  This file shows that the one never
becomes the other: a text of the plan stands between quotes that it cannot close, on a line that it
cannot end.

What the texts have no part in is said by a second plan, the one without its texts: its script has
the same code in the same places, so a scan of either leaves the same.

## What is here

* `Plan.emptied` — a plan without its texts: what is left is how it is built.
* `Alike` — parts of the same code, with a law for each way to put parts together.
* `alike_scriptParts` — a script is alike to that of its plan without the texts.
* `Confined`, `generate_confines_texts` — the texts of a plan stay inside the literals.
-/

set_option autoImplicit false

namespace CrewChart

/-! ## What is left without texts -/

namespace Json

mutual

/-- A value with every string and every key emptied. -/
def Value.emptied : Value → Value
  | .string _ => .string ""
  | .array items => .array (Value.emptiedItems items)
  | .object members => .object (Value.emptiedMembers members)
  | .null => .null
  | .boolean b => .boolean b
  | .number n => .number n

def Value.emptiedItems : List Value → List Value
  | [] => []
  | v :: rest => v.emptied :: Value.emptiedItems rest

def Value.emptiedMembers : List (String × Value) → List (String × Value)
  | [] => []
  | (_, v) :: rest => ("", v.emptied) :: Value.emptiedMembers rest

end

end Json

namespace Plan

open Json (Value)

/-- A reason with the type it names emptied. -/
def SkipReason.emptied : SkipReason → SkipReason
  | .noType => .noType
  | .unsupported _ => .unsupported ""

def Making.emptied : Making → Making
  | .library className => .library className
  | .custom => .custom
  | .skipped reason => .skipped reason.emptied

def ToolEntry.emptied (t : ToolEntry) : ToolEntry where
  id := ""
  making := t.making.emptied
  name := ""
  description := ""
  returnDirect := t.returnDirect
  configuration := Value.emptiedMembers t.configuration

def AgentEntry.emptied (a : AgentEntry) : AgentEntry where
  id := ""
  role := ""
  goal := ""
  backstory := ""
  allowDelegation := a.allowDelegation
  memory := a.memory.emptied
  model := ""
  tools := a.tools.map fun _ => ""

/-- Of the agent of a task is left whether there is one. -/
def TaskEntry.emptied (t : TaskEntry) : TaskEntry where
  id := ""
  description := ""
  expectedOutput := ""
  agent := (filled t.agent).map fun _ => "agent"
  context := ""
  priority := ""

/-- A plan without its texts.  What is left is how long its lists are, the class names of its tools,
with the imports that follow from them, and how each tool is made; which tasks have an agent; its
truth values and numbers, and how its values are nested; and the process. -/
def emptied (p : Plan) : Plan where
  imports := importsOf p.tools
  credentials := p.credentials.map fun _ => ⟨"", ""⟩
  tools := p.tools.map ToolEntry.emptied
  agents := p.agents.map AgentEntry.emptied
  tasks := p.tasks.map TaskEntry.emptied
  process := p.process
  managerModel := ""

end Plan

namespace Script

open Json (Value)
open Plan (ToolEntry AgentEntry TaskEntry)

/-! ## The same script without the texts -/

/-- Parts of the same code, that quote texts in the same places. -/
def Alike (parts more : List Part) : Prop := parts.map Part.emptied = more.map Part.emptied

section Alike

variable {parts parts' rest rest' : List Part}

theorem Alike.refl (parts : List Part) : Alike parts parts := rfl

theorem Alike.code (s : String) (h : Alike rest rest') :
    Alike (.code s :: rest) (.code s :: rest') := by
  rw [Alike, List.map_cons, List.map_cons, h]

/-- It does not matter what is quoted. -/
theorem Alike.quoted (s t : String) (h : Alike rest rest') :
    Alike (.quoted s :: rest) (.quoted t :: rest') := by
  rw [Alike, List.map_cons, List.map_cons, h]
  rfl

theorem Alike.append (hparts : Alike parts parts') (h : Alike rest rest') :
    Alike (parts ++ rest) (parts' ++ rest') := by
  rw [Alike, List.map_append, List.map_append, hparts, h]

/-- Entry by entry: what is changed in an entry is not in its code. -/
theorem Alike.flatMap {α : Type} {entries : List α} {change : α → α} {out : α → List Part}
    (h : ∀ a, Alike (out (change a)) (out a)) :
    Alike ((entries.map change).flatMap out) (entries.flatMap out) := by
  induction entries with
  | nil => exact .refl []
  | cons a entries ih => exact (h a).append ih

theorem Alike.sectionParts {α : Type} {entries : List α} {change : α → α} {out : α → List Part}
    (heading ending : String) (h : ∀ a, Alike (out (change a)) (out a)) :
    Alike (Script.sectionParts heading out (entries.map change) ending)
      (Script.sectionParts heading out entries ending) :=
  .code heading ((Alike.flatMap h).append (.refl _))

end Alike

mutual

/-- The literal of a value has the same code as that of the value without its texts: how the value
is nested is all that is left of it. -/
theorem alike_literalParts : ∀ v : Value, Alike (literalParts v.emptied) (literalParts v)
  | .null | .boolean true | .boolean false | .number _ | .string _ | .array [] | .object [] => rfl
  | .array (v :: rest) =>
    ((Alike.code "[" (alike_literalParts v)).append (alike_itemParts rest)).append (.refl _)
  | .object ((_, v) :: rest) =>
    ((Alike.code _ (.quoted _ _ (.code _ (alike_literalParts v)))).append
      (alike_memberParts rest)).append (.refl _)

theorem alike_itemParts :
    ∀ items : List Value, Alike (itemParts (Value.emptiedItems items)) (itemParts items)
  | [] => rfl
  | v :: rest => (Alike.code _ (alike_literalParts v)).append (alike_itemParts rest)

theorem alike_memberParts : ∀ members : List (String × Value),
    Alike (memberParts (Value.emptiedMembers members)) (memberParts members)
  | [] => rfl
  | (_, v) :: rest =>
    (Alike.code _ (.quoted _ _ (.code _ (alike_literalParts v)))).append (alike_memberParts rest)

end

theorem alike_keywordParts (keyword ending : String) (v : Value) :
    Alike (keywordParts keyword v.emptied ending) (keywordParts keyword v ending) :=
  (Alike.code _ (alike_literalParts v)).append (.refl _)

/-- To empty the texts of a configuration leaves no member out. -/
theorem emptiedMembers_eq_nil_iff {members : List (String × Value)} :
    Value.emptiedMembers members = [] ↔ members = [] := by
  cases members with
  | nil => exact iff_of_true rfl rfl
  | cons m members => exact iff_of_false (List.cons_ne_nil _ _) (List.cons_ne_nil _ _)

/-- A tool is made in the same way without its texts.  Whether it has settings to pass on is asked
of its configuration, and that keeps its members. -/
theorem alike_toolParts (t : ToolEntry) : Alike (toolParts t.emptied) (toolParts t) := by
  have hconfiguration := alike_literalParts (.object t.configuration)
  rw [toolParts, toolParts]
  show Alike (match t.making.emptied with | .library _ => _ | .custom => _ | .skipped _ => _) _
  -- the block of a tool depends on how it is made, and that is kept
  cases t.making with
  | library className =>
    have hhas : Alike (if Value.emptiedMembers t.configuration = [] then [] else
          .code "**" :: literalParts (.object (Value.emptiedMembers t.configuration)))
        (if t.configuration = [] then [] else
          .code "**" :: literalParts (.object t.configuration)) := by
      by_cases hnone : t.configuration = []
      · rw [if_pos hnone, if_pos (emptiedMembers_eq_nil_iff.2 hnone)]
        exact .refl []
      · rw [if_neg hnone, if_neg (mt emptiedMembers_eq_nil_iff.1 hnone)]
        exact .code _ hconfiguration
    exact ((Alike.code _ (.quoted _ _ (.refl _))).append hhas).append (.refl _)
  | custom =>
    have hid : Alike [.code "    ", .quoted "", .code ": Tool(\n"]
      [.code "    ", .quoted t.id, .code ": Tool(\n"] := .code _ (.quoted _ _ (.refl _))
    exact (((hid.append (alike_keywordParts _ _ (.string t.name))).append
      (alike_keywordParts _ _ (.string t.description))).append
      (alike_keywordParts _ _ (.boolean t.returnDirect))).append
      ((Alike.code _ hconfiguration).append (.refl _))
  | skipped reason =>
    have hreason : Alike (reasonParts reason.emptied) (reasonParts reason) := by
      cases reason with
      | noType => exact .refl _
      | unsupported toolType => exact .code _ (.quoted _ _ (.refl _))
    exact ((Alike.code _ (.quoted _ _ (.refl _))).append hreason).append (.refl _)

theorem alike_toolListParts (keys : List String) :
    Alike (toolListParts (keys.map fun _ => "")) (toolListParts keys) := by
  have hused : ∀ key, Alike (usedParts "") (usedParts key) := fun key =>
    .code _ (.quoted _ _ (.refl _))
  cases keys with
  | nil => exact .refl []
  | cons key keys => exact (hused key).append (.flatMap fun key => .code _ (hused key))

theorem alike_agentParts (a : AgentEntry) : Alike (agentParts a.emptied) (agentParts a) := by
  have hid : Alike [.code "    ", .quoted "", .code ": Agent(\n"]
    [.code "    ", .quoted a.id, .code ": Agent(\n"] := .code _ (.quoted _ _ (.refl _))
  have htools := (Alike.code "        tools=[" (alike_toolListParts a.tools)).append
    (.refl [.code "]\n"])
  exact (((((((hid.append (alike_keywordParts _ _ (.string a.role))).append
    (alike_keywordParts _ _ (.string a.goal))).append
    (alike_keywordParts _ _ (.string a.backstory))).append
    (alike_keywordParts _ _ (.boolean a.allowDelegation))).append
    (alike_keywordParts _ _ a.memory)).append
    (alike_keywordParts _ _ (.string a.model))).append htools).append (.refl _)

/-- Of the agent of a task the code shows only whether there is one. -/
theorem alike_taskAgentParts (agent : Option String) :
    Alike (taskAgentParts ((filled agent).map fun _ => "agent")) (taskAgentParts agent) := by
  rw [taskAgentParts, taskAgentParts]
  cases filled agent with
  | none => exact .refl _
  | some key => exact .code _ (.quoted _ _ (.refl _))

theorem alike_taskParts (t : TaskEntry) : Alike (taskParts t.emptied) (taskParts t) := by
  have hid : Alike [.code "    ", .quoted "", .code ": Task(\n"]
    [.code "    ", .quoted t.id, .code ": Task(\n"] := .code _ (.quoted _ _ (.refl _))
  have hagent := (Alike.code "        agent=" (alike_taskAgentParts t.agent)).append
    (.refl [.code ",\n"])
  exact (((((hid.append (alike_keywordParts _ _ (.string t.description))).append
    (alike_keywordParts _ _ (.string t.expectedOutput))).append hagent).append
    (alike_keywordParts _ _ (.string t.context))).append
    (alike_keywordParts _ _ (.string t.priority))).append (.refl _)

theorem class?_emptied (t : ToolEntry) : t.emptied.making.class? = t.making.class? := by
  show t.making.emptied.class? = _
  cases t.making <;> rfl

/-- Imports name the classes of tools, which are no texts of the chart. -/
theorem importsOf_emptied (tools : List ToolEntry) :
    Plan.importsOf (tools.map ToolEntry.emptied) = Plan.importsOf tools := by
  rw [Plan.importsOf, Plan.importsOf, List.filterMap_map]
  exact congrArg _ (List.filterMap_congr fun t _ => class?_emptied t)

theorem isCustom_emptied (t : ToolEntry) : t.emptied.making.isCustom = t.making.isCustom := by
  show t.making.emptied.isCustom = _
  cases t.making <;> rfl

variable {p : Plan}

theorem alike_importParts (hp : Printable p) : Alike (importParts p.emptied) (importParts p) := by
  have himports : p.emptied.imports = p.imports := hp.imports.symm
  have htext : p.emptied.importText = p.importText := congrArg (", ".intercalate ·) himports
  have hcustom : p.emptied.usesCustomTool = p.usesCustomTool := by
    rw [Plan.usesCustomTool, Plan.usesCustomTool]
    show (p.tools.map ToolEntry.emptied).any _ = _
    rw [List.any_map]
    exact congrArg _ (funext isCustom_emptied)
  rw [importParts, importParts, himports, htext, hcustom]
  exact .refl _

/-- **A script is alike to that of its plan without the texts.** -/
theorem alike_scriptParts (hp : Printable p) : Alike (scriptParts p.emptied) (scriptParts p) := by
  have hcredentials : Alike (credentialSection p.emptied) (credentialSection p) :=
    .sectionParts _ _ fun c => .code _ (.quoted _ _ (.code _ (.quoted _ _ (.refl _))))
  have hcrew : Alike (crewParts p.emptied) (crewParts p) :=
    .code _ (.code _ (.code _ (.quoted _ _ (.refl _))))
  exact ((((((alike_importParts hp).append hcredentials).append
    (.sectionParts _ _ alike_toolParts)).append (.sectionParts _ _ alike_agentParts)).append
    (.sectionParts _ _ alike_taskParts)).append hcrew).append (.refl _)

/-- A plan without its texts can be printed if the plan can. -/
theorem printable_emptied (hp : Printable p) : Printable p.emptied where
  imports := (importsOf_emptied p.tools).symm
  className _ hmem name hclass := by
    obtain ⟨t, ht, rfl⟩ := List.mem_map.1 hmem
    exact hp.className t ht name ((class?_emptied t).symm.trans hclass)
  keyVariable c hc := by
    obtain ⟨c, -, rfl⟩ := List.mem_map.1 hc
    exact fun ch hch => absurd hch List.not_mem_nil

/-! ## Texts stay inside the literals -/

/-- What is left of a script without what is in its literals. -/
def codeOf (script : String) : Option (List Char) := outside .code script.toList

/-- The texts of a plan stay inside the literals of its script. -/
structure Confined (p : Plan) (script : String) : Prop where
  /-- Every literal is closed on the line it is opened on. -/
  closed : (codeOf script).isSome = true
  /-- Outside its literals, the script is that of the plan without its texts. -/
  code : ∃ bare, ofPlan p.emptied = .ok bare ∧ codeOf script = codeOf bare
  /-- No text brings in a control character, so a line ends only where the layout ends it. -/
  controls : ∀ c ∈ script.toList, c.toNat < 0x20 → c = '\n'
  /-- There are so many lines for the layout, and so many for each entry of the plan. -/
  lines : script.toList.count '\n' = lineCount p

/-- What is left of a script without what is in its literals is the code of its parts. -/
theorem codeOf_spell {parts : List Part} (h : ∀ c ∈ codeChars parts, isPlain c = true) :
    codeOf (String.ofList (spell parts)) = some (spell (parts.map Part.emptied)) := by
  rw [codeOf, String.toList_ofList, outside_spell h]

/-- **Texts stay inside the literals**, for every plan that can be printed. -/
theorem confined_ofPlan (hp : Printable p) :
    ∃ script, ofPlan p = .ok script ∧ Confined p script := by
  have hlines := lines_scriptParts hp
  have hbare := printable_emptied hp
  refine ⟨_, ofPlan_eq hp, ?_, ⟨_, ofPlan_eq hbare, ?_⟩, ?_, ?_⟩
  · rw [codeOf_spell hlines.plain, Option.isSome_some]
  · -- both scripts leave the code of their parts, and the parts are alike
    rw [codeOf_spell hlines.plain, codeOf_spell (lines_scriptParts hbare).plain,
      alike_scriptParts hp]
  · rw [String.toList_ofList]
    exact fun c => eq_newline_of_mem_spell hlines.plain
  · rw [String.toList_ofList, count_newline_spell, hlines.count]

/-- **Texts cannot break out of the literals of a script.**  A chart with integrity generates a
script, and of the texts of its plan nothing is seen outside the literals. -/
theorem generate_confines_texts {g : Graph} (h : g.checkIntegrity = .ok ()) (model : String) :
    ∃ script, generate g model = .ok script ∧ Confined (Plan.resolve g model) script := by
  rw [generate, h]
  exact confined_ofPlan (printable_resolve g model)

/-- A chart whose texts try to close the literals they are put into. -/
def hostile : Graph where
  nodes := [⟨"a\"]\n", .origin, .agent { role := some "\\", apiKey := some "\"\r\n\\" }, []⟩,
    ⟨"\\\"", .origin, .tool { toolType := some "\"\n" }, []⟩,
    ⟨"#", .origin, .tool { toolType := some CrewChart.customTool, description := some "\r" }, []⟩,
    ⟨"k\u0000", .origin, .task { description := some "\"\"\"" }, []⟩]
  edges := [⟨"1", "a\"]\n", "k\u0000", []⟩, ⟨"2", "a\"]\n", "#", []⟩]

theorem generate_confines_hostile : hostile.checkIntegrity = .ok () ∧
    ∃ script, generate hostile defaultModel = .ok script ∧
      Confined (Plan.resolve hostile defaultModel) script ∧ script.toList.count '\n' = 53 := by
  have h : hostile.checkIntegrity = .ok () := rfl
  have hlines : lineCount (Plan.resolve hostile defaultModel) = 53 := by decide +kernel
  obtain ⟨script, hscript, hconfined⟩ := generate_confines_texts h defaultModel
  exact ⟨h, script, hscript, hconfined, hconfined.lines.trans hlines⟩

end Script

end CrewChart

import CrewChart.Proofs.Script.LayoutText
import CrewChart.Proofs.Script.TaskAgents

/-!
# The script, printed line by line

A plan can be written down as a script without a template: so many lines for every entry, one entry
after the other.  This file does so, and says that a chart generates this script.

A line here ends no line itself, so the lines of the printer are the lines of the script, and a
blank one is there only where the printer has one.

## What is here

* `listing` — the lines of the script of a plan, section by section.
* `typeset_toolParts`, `typeset_agentParts`, `typeset_scriptLines` — the parts of a script come out
  as these lines.
* `generate_lines` — the lines of every script.
* `render_layout_listing`, `render_text_listing` — the layout makes these lines of a plan, and so
  does its text.
* `generate_prints_listing` — what a chart generates.  An agent with the empty id is left out of
  this: the layout takes it for none.
-/

set_option autoImplicit false

namespace CrewChart.Script

open Json (Value)
open Plan (ToolEntry AgentEntry TaskEntry Credential SkipReason)

/-! ## The printer -/

/-- The line that opens the call for an entry of a dictionary. -/
def callLine (id function : String) : String :=
  "    " ++ literal (.string id) ++ ": " ++ function ++ "("

def importLines (p : Plan) : List String :=
  ["from crewai import Agent, Task, Crew, Process"]
    ++ (if p.imports = [] then [] else ["from crewai_tools import " ++ ", ".intercalate p.imports])
    ++ (if p.usesCustomTool then ["from langchain_core.tools import Tool"] else [])
    ++ ["import os", ""]

/-- A tool of the library on one line, one of one's own on six, and one that cannot be made as a
comment. -/
def toolLines (t : ToolEntry) : List String :=
  match t.making with
  | .library className =>
    [callLine t.id className
      ++ (if t.configuration = [] then "" else "**" ++ literal (.object t.configuration)) ++ "),"]
  | .custom =>
    [callLine t.id "Tool",
      argumentLine "name" (literal (.string t.name)) ",",
      argumentLine "description" (literal (.string t.description)) ",",
      argumentLine "return_direct" (literal (.boolean t.returnDirect)) ",",
      "        **" ++ literal (.object t.configuration),
      closingLine]
  | .skipped reason =>
    ["    # tool " ++ literal (.string t.id) ++ " skipped: " ++ reason.message]

/-- A tool is looked up by its id. -/
def toolExpression (key : String) : String := "tools[" ++ literal (.string key) ++ "]"

def agentLines (a : AgentEntry) : List String :=
  [callLine a.id "Agent",
    argumentLine "role" (literal (.string a.role)) ",",
    argumentLine "goal" (literal (.string a.goal)) ",",
    argumentLine "backstory" (literal (.string a.backstory)) ",",
    argumentLine "allow_delegation" (literal (.boolean a.allowDelegation)) ",",
    argumentLine "memory" (literal a.memory) ",",
    argumentLine "llm" (literal (.string a.model)) ",",
    argumentLine "tools" ("[" ++ ", ".intercalate (a.tools.map toolExpression) ++ "]") "",
    closingLine]

/-- The task with its agent, whatever the id of the agent is. -/
def assignedLines (t : TaskEntry) : List String :=
  [callLine t.id "Task",
    argumentLine "description" (literal (.string t.description)) ",",
    argumentLine "expected_output" (literal (.string t.expectedOutput)) ",",
    argumentLine "agent" (agentExpression t.agent) ",",
    argumentLine "context" (literal (.string t.context)) ",",
    argumentLine "priority" (literal (.string t.priority)) "",
    closingLine]

def crewLines (p : Plan) : List String :=
  ["# Create crew", "crew = Crew(", "    agents=list(agents.values()),",
    "    tasks=list(tasks.values()),", "    process=Process." ++ p.process.name ++ ",",
    "    manager_llm=" ++ literal (.string p.managerModel), ")", ""]

def kickoffLines : List String :=
  ["# Execute the crew", "result = crew.kickoff()",
    "print(\"\\nCrew Execution Result:\\n\", result)"]

/-- The lines of a dictionary with these entries. -/
def dictionaryLines {α : Type} (heading opening : String) (lines : α → List String)
    (entries : List α) : List String :=
  [heading, opening] ++ entries.flatMap lines ++ ["\x7d", ""]

/-- **The script of a plan, line by line.** -/
def listing (p : Plan) : List String :=
  importLines p
    ++ (["# Set API keys for LLMs"] ++ p.credentials.map Credential.line ++ [""])
    ++ dictionaryLines "# Initialize tools" "tools = \x7b" toolLines p.tools
    ++ dictionaryLines "# Create agents" "agents = \x7b" agentLines p.agents
    ++ dictionaryLines "# Define tasks" "tasks = \x7b" assignedLines p.tasks
    ++ crewLines p ++ kickoffLines

/-- The same, but a task has the agent the layout looks up for it, which is none if its id is
empty. -/
def scriptLines (p : Plan) : List String :=
  importLines p
    ++ (["# Set API keys for LLMs"] ++ p.credentials.map Credential.line ++ [""])
    ++ dictionaryLines "# Initialize tools" "tools = \x7b" toolLines p.tools
    ++ dictionaryLines "# Create agents" "agents = \x7b" agentLines p.agents
    ++ dictionaryLines "# Define tasks" "tasks = \x7b" taskLines p.tasks
    ++ crewLines p ++ kickoffLines

/-! ## Lines without a break -/

theorem unbroken_ofList {cs : List Char} (h : cs.all (· != '\n') = true) :
    Unbroken (String.ofList cs) := by
  rw [Unbroken, String.toList_ofList]
  intro hbreak
  exact absurd (List.all_eq_true.1 h _ hbreak) (by decide)

theorem unbroken_of_inline {s : String} (h : Inline s) : Unbroken s :=
  List.count_eq_zero.1 h.count_newline

theorem unbroken_callLine {function : String} (id : String) (h : Unbroken function) :
    Unbroken (callLine id function) := by
  have hindent : Unbroken "    " := by decide
  have hcolon : Unbroken ": " := by decide
  have hopen : Unbroken "(" := by decide
  exact (((hindent.append (unbroken_literal _)).append hcolon).append h).append hopen

theorem toList_callLine (id function : String) : (callLine id function).toList
    = "    ".toList ++ (Json.quotedChars id ++ (": ".toList ++ (function.toList ++ ['(']))) := by
  simp only [callLine, literal, literalChars, String.toList_append, String.toList_ofList,
    List.append_assoc]
  rfl

theorem unbroken_message (reason : SkipReason) : Unbroken reason.message := by
  have hfront : Unbroken "unsupported tool type " := by decide
  cases reason with
  | noType => decide
  | unsupported toolType => exact hfront.append (unbroken_literal (.string toolType))

theorem unbroken_intercalate {l : List String} (h : ∀ s ∈ l, Unbroken s) :
    Unbroken (", ".intercalate l) := by
  induction l with
  | nil => decide
  | cons s l ih =>
    obtain ⟨hs, hl⟩ := List.forall_mem_cons.1 h
    cases l with
    | nil =>
      rw [String.intercalate_singleton]
      exact hs
    | cons next l =>
      have hcomma : Unbroken ", " := by decide
      rw [String.intercalate_cons_cons]
      exact (hs.append hcomma).append (ih hl)

/-! ## The parts of a script in lines -/

/-- Code of the layout that is one line, -/
theorem Typeset.line {cs code : List Char} (h : cs.all (· != '\n') = true)
    (hcode : code = cs ++ ['\n']) : Typeset [String.ofList cs] [.code (String.ofList code)] := by
  refine .singleton (unbroken_ofList h) ?_
  simp [Part.chars, hcode]

/-- or one line and more. -/
theorem Typeset.lineCons {cs code rest : List Char} {lines : List String}
    (h : cs.all (· != '\n') = true) (hcode : code = cs ++ '\n' :: rest)
    (hrest : Typeset lines [.code (String.ofList rest)]) :
    Typeset (String.ofList cs :: lines) [.code (String.ofList code)] := by
  refine ⟨?_, List.forall_mem_cons.2 ⟨unbroken_ofList h, hrest.unbroken⟩⟩
  have hspelled := hrest.spelled
  simp only [spell_cons, spell_nil, Part.chars, String.toList_ofList, List.append_nil] at hspelled
  simp [Part.chars, hcode, hspelled]

/-- The line that opens a call, from its parts. -/
theorem typeset_callLine (id : String) {function : String} (h : Unbroken function)
    {parts : List Part}
    (hparts : spell parts = "    ".toList ++ (Json.quotedChars id ++ (": ".toList
      ++ (function.toList ++ ['(', '\n'])))) :
    Typeset [callLine id function] parts := by
  refine .singleton (unbroken_callLine id h) ?_
  rw [hparts, toList_callLine]
  simp only [List.append_assoc, List.cons_append, List.nil_append]

theorem typeset_closingLine : Typeset [closingLine] [.code "    ),\n"] := .singleton (by decide) rfl

/-- **A tool takes the lines of the branch for how it is made.** -/
theorem typeset_toolParts {t : ToolEntry}
    (hclass : ∀ name, t.making.class? = some name → isName name = true) :
    Typeset (toolLines t) (toolParts t) := by
  rw [toolLines, toolParts]
  cases hmaking : t.making with
  | library className =>
    have hname : Unbroken className :=
      unbroken_of_inline (inline_of_isName (hclass _ (by rw [hmaking]; rfl)))
    have hstars : Unbroken "**" := by decide
    have hclose : Unbroken ")," := by decide
    by_cases hnone : t.configuration = []
    · rw [if_pos hnone, if_pos hnone]
      refine .singleton (((unbroken_callLine _ hname).append (by decide)).append hclose) ?_
      simp [toList_callLine, Part.chars]
    · rw [if_neg hnone, if_neg hnone]
      refine .singleton (((unbroken_callLine _ hname).append
        (hstars.append (unbroken_literal _))).append hclose) ?_
      simp [toList_callLine, Part.chars, spell_literalParts, literal]
  | custom =>
    have hcall : Typeset [callLine t.id "Tool"] [.code "    ", .quoted t.id, .code ": Tool(\n"] :=
      typeset_callLine _ (by decide) (by simp [Part.chars])
    have hconfiguration : Typeset ["        **" ++ literal (.object t.configuration), closingLine]
        (.code "        **" :: literalParts (.object t.configuration)
          ++ [.code "\n    ),\n"]) := by
      have hstars : Unbroken "        **" := by decide
      refine ⟨?_, ?_⟩
      · simp [Part.chars, spell_literalParts, literal, closingLine]
      · rw [List.forall_mem_cons, List.forall_mem_singleton]
        exact ⟨hstars.append (unbroken_literal _), by decide⟩
    exact (((hcall.append (typeset_keywordParts _ (by decide) (by decide))).append
      (typeset_keywordParts _ (by decide) (by decide))).append
      (typeset_keywordParts _ (by decide) (by decide))).append hconfiguration
  | skipped reason =>
    have hfront : Unbroken "    # tool " := by decide
    have hskipped : Unbroken " skipped: " := by decide
    refine .singleton (((hfront.append (unbroken_literal _)).append hskipped).append
      (unbroken_message reason)) ?_
    simp [Part.chars, spell_reasonParts, literal, literalChars]

/-- The tools of an agent are set apart by commas, with none before the first and none after the
last. -/
theorem spell_toolListParts (keys : List String) :
    spell (toolListParts keys) = (", ".intercalate (keys.map toolExpression)).toList := by
  have hused : ∀ key, spell (usedParts key) = (toolExpression key).toList := fun key => by
    simp [usedParts, toolExpression, Part.chars, literal, literalChars]
  cases keys with
  | nil => rfl
  | cons key keys =>
    rw [toolListParts]
    induction keys generalizing key with
    | nil => simp [hused, String.intercalate_singleton]
    | cons next keys ih =>
      rw [List.flatMap_cons, List.map_cons, List.map_cons, String.intercalate_cons_cons,
        String.toList_append, String.toList_append, ← List.map_cons, ← ih next]
      simp [hused, Part.chars]

theorem unbroken_toolExpression (key : String) : Unbroken (toolExpression key) := by
  have hopen : Unbroken "tools[" := by decide
  exact (hopen.append (unbroken_literal _)).append (by decide)

/-- **An agent is set in nine lines.** -/
theorem typeset_agentParts (a : AgentEntry) : Typeset (agentLines a) (agentParts a) := by
  have hcall : Typeset [callLine a.id "Agent"] [.code "    ", .quoted a.id, .code ": Agent(\n"] :=
    typeset_callLine _ (by decide) (by simp [Part.chars])
  have htools : Unbroken ("[" ++ ", ".intercalate (a.tools.map toolExpression) ++ "]") := by
    have hopen : Unbroken "[" := by decide
    refine (hopen.append (unbroken_intercalate fun s hs => ?_)).append (by decide)
    obtain ⟨key, -, rfl⟩ := List.mem_map.1 hs
    exact unbroken_toolExpression key
  have hlist : Typeset
      [argumentLine "tools" ("[" ++ ", ".intercalate (a.tools.map toolExpression) ++ "]") ""]
      (.code "        tools=[" :: toolListParts a.tools ++ [.code "]\n"]) := by
    refine .singleton (unbroken_argumentLine (by decide) htools (by decide)) ?_
    simp [toList_argumentLine, Part.chars, spell_toolListParts]
  exact ((((((((hcall.append (typeset_keywordParts _ (by decide) (by decide))).append
    (typeset_keywordParts _ (by decide) (by decide))).append
    (typeset_keywordParts _ (by decide) (by decide))).append
    (typeset_keywordParts _ (by decide) (by decide))).append
    (typeset_keywordParts _ (by decide) (by decide))).append
    (typeset_keywordParts _ (by decide) (by decide))).append hlist).append typeset_closingLine)

/-- A task whose agent has an id is set in the lines that name the agent. -/
theorem taskLines_eq {t : TaskEntry} (h : t.agent ≠ some "") : taskLines t = assignedLines t := by
  have hagent : filled t.agent = t.agent := by
    cases hagent : t.agent with
    | none => rfl
    | some key =>
      rw [filled_eq_some_iff]
      exact ⟨rfl, fun hkey => h (hagent.trans (congrArg some hkey))⟩
  have hopening : openingLine t = callLine t.id "Task" := by
    rw [← String.toList_inj, toList_openingLine, toList_callLine]
    simp
  rw [taskLines, assignedLines, hopening, agentLine, hagent]

/-! ### Sections -/

variable {p : Plan}

theorem typeset_importParts (hp : Printable p) : Typeset (importLines p) (importParts p) := by
  have himports : Typeset
      (if p.imports = [] then [] else ["from crewai_tools import " ++ ", ".intercalate p.imports])
      (if p.imports = [] then [] else
        [.code "from crewai_tools import ", .code p.importText, .code "\n"]) := by
    split_ifs
    · exact .nil
    · have hfront : Unbroken "from crewai_tools import " := unbroken_ofList rfl
      refine .singleton (hfront.append (unbroken_intercalate fun name hname => ?_)) ?_
      · rw [hp.imports] at hname
        obtain ⟨t, ht, hclass⟩ := Plan.mem_importsOf_iff.1 hname
        exact unbroken_of_inline (inline_of_isName (hp.className t ht name hclass))
      · simp [Part.chars, Plan.importText]
  have hcustom : Typeset
      (if p.usesCustomTool then ["from langchain_core.tools import Tool"] else [])
      (if p.usesCustomTool then [.code "from langchain_core.tools import Tool\n"] else []) := by
    split_ifs
    · exact .line rfl rfl
    · exact .nil
  have hfirst : Typeset ["from crewai import Agent, Task, Crew, Process"]
      [.code "from crewai import Agent, Task, Crew, Process\n"] := .line rfl rfl
  have hlast : Typeset ["import os", ""] [.code "import os\n\n"] :=
    .lineCons rfl rfl (.line rfl rfl)
  rw [importLines, List.append_assoc, List.append_assoc]
  exact hfirst.append (himports.append (hcustom.append hlast))

theorem typeset_credentialSection (hp : Printable p) :
    Typeset (["# Set API keys for LLMs"] ++ p.credentials.map Credential.line ++ [""])
      (credentialSection p) := by
  have hheading : Typeset ["# Set API keys for LLMs"] [.code "# Set API keys for LLMs\n"] :=
    .line rfl rfl
  have hending : Typeset [""] [.code "\n"] := .line rfl rfl
  have hlines : Typeset (p.credentials.flatMap fun c => [c.line])
      (p.credentials.flatMap credentialParts) := by
    refine .flatMap fun c hc => ?_
    have hvariable := hp.keyVariable c hc
    have hfront : Unbroken "os.environ[\"" := by decide
    have hset : Unbroken "\"] = " := by decide
    have hname : Unbroken c.keyVariable :=
      unbroken_of_inline fun ch hch => isInline_of_isNamePart (hvariable ch hch)
    refine .singleton
      (((hfront.append hname).append hset).append (unbroken_literal (.string c.key))) ?_
    rw [← spell_credential hvariable]
    simp [credentialParts, Part.chars]
  rw [← List.flatMap_pure_eq_map]
  exact (hheading.append hlines).append hending

/-- The lines of a dictionary, from those of its entries. -/
theorem typeset_dictionary {α : Type} {heading opening front : String} {lines : α → List String}
    {parts : α → List Part} {entries : List α} (hfront : Typeset [heading, opening] [.code front])
    (hentries : ∀ a ∈ entries, Typeset (lines a) (parts a)) :
    Typeset (dictionaryLines heading opening lines entries)
      (sectionParts front parts entries "\x7d\n\n") := by
  have hending : Typeset ["\x7d", ""] [.code "\x7d\n\n"] := ⟨rfl, by decide⟩
  exact (hfront.append (.flatMap hentries)).append hending

theorem typeset_crewParts (p : Plan) : Typeset (crewLines p) (crewParts p) := by
  have hprocess : Unbroken ("    process=Process." ++ p.process.name ++ ",") := by
    have hfront : Unbroken "    process=Process." := unbroken_ofList rfl
    have hname : Unbroken p.process.name := by
      cases p.process with
      | sequential => exact unbroken_ofList rfl
      | parallel => exact unbroken_ofList rfl
    exact (hfront.append hname).append (by decide)
  have hmanager : Unbroken ("    manager_llm=" ++ literal (.string p.managerModel)) := by
    have hfront : Unbroken "    manager_llm=" := unbroken_ofList rfl
    exact hfront.append (unbroken_literal _)
  refine ⟨?_, ?_⟩
  · simp [crewParts, crewLines, Part.chars, literal, literalChars]
  · simp only [crewLines, List.forall_mem_cons]
    exact ⟨unbroken_ofList rfl, unbroken_ofList rfl, unbroken_ofList rfl, unbroken_ofList rfl,
      hprocess, hmanager, unbroken_ofList rfl, unbroken_ofList rfl,
      fun _ h => absurd h List.not_mem_nil⟩

theorem typeset_kickoffParts : Typeset kickoffLines kickoffParts := by
  have hprint : Typeset ["print(\"\\nCrew Execution Result:\\n\", result)"]
      [.code "print(", .quoted "\nCrew Execution Result:\n", .code ", result)\n"] :=
    .singleton (unbroken_ofList rfl) rfl
  exact (Typeset.lineCons rfl rfl (.line rfl rfl)).append hprint

/-- **The parts of a script in lines**, whatever the plan is. -/
theorem typeset_scriptLines (hp : Printable p) : Typeset (scriptLines p) (scriptParts p) := by
  have htools : Typeset (dictionaryLines "# Initialize tools" "tools = \x7b" toolLines p.tools)
      (toolSection p) :=
    typeset_dictionary (.lineCons rfl rfl (.line rfl rfl)) fun t ht =>
      typeset_toolParts (hp.className t ht)
  have hagents : Typeset
      (dictionaryLines "# Create agents" "agents = \x7b" agentLines p.agents) (agentSection p) :=
    typeset_dictionary (.lineCons rfl rfl (.line rfl rfl)) fun a _ => typeset_agentParts a
  have htasks : Typeset (dictionaryLines "# Define tasks" "tasks = \x7b" taskLines p.tasks)
      (taskSection p) :=
    typeset_dictionary (.lineCons rfl rfl (.line rfl rfl)) fun t _ => typeset_taskParts t
  exact ((((((typeset_importParts hp).append (typeset_credentialSection hp)).append htools).append
    hagents).append htasks).append (typeset_crewParts p)).append typeset_kickoffParts

/-- The two differ only in a task whose agent has the empty id. -/
theorem listing_eq (hagents : ∀ t ∈ p.tasks, t.agent ≠ some "") : listing p = scriptLines p := by
  have htasks : p.tasks.flatMap assignedLines = p.tasks.flatMap taskLines :=
    List.flatMap_congr fun t ht => (taskLines_eq (hagents t ht)).symm
  rw [listing, scriptLines, dictionaryLines, dictionaryLines, dictionaryLines, dictionaryLines,
    htasks]

/-- **The parts of a script come out as its listing.** -/
theorem typeset_listing (hp : Printable p) (hagents : ∀ t ∈ p.tasks, t.agent ≠ some "") :
    Typeset (listing p) (scriptParts p) :=
  listing_eq hagents ▸ typeset_scriptLines hp

theorem linesOf_textOf {lines : List String} (h : ∀ l ∈ lines, Unbroken l) :
    linesOf (textOf lines) = lines ++ [""] := by
  rw [linesOf, toList_textOf, charsOf]
  induction lines with
  | nil => rfl
  | cons l lines ih =>
    obtain ⟨hl, hlines⟩ := List.forall_mem_cons.1 h
    rw [List.flatMap_cons, List.append_assoc, List.singleton_append,
      List.splitOn_append_cons_self_of_not_mem hl, List.map_cons, ih hlines, String.ofList_toList,
      List.cons_append]

/-- **Every script, line by line.** -/
theorem generate_lines {g : Graph} (h : g.checkIntegrity = .ok ()) (model : String) :
    ∃ script, generate g model = .ok script ∧
      linesOf script = scriptLines (Plan.resolve g model) ++ [""] := by
  have hset := typeset_scriptLines (printable_resolve g model)
  refine ⟨_, generate_eq h model, ?_⟩
  have hlast := hset.splitOn []
  rw [List.append_nil] at hlast
  rw [linesOf, String.toList_ofList, hlast, List.map_append, List.map_map]
  simp

/-- The layout makes the listing of a plan, -/
theorem render_layout_listing (hp : Printable p) (hagents : ∀ t ∈ p.tasks, t.agent ≠ some "") :
    layout.render p.toValue = .ok (textOf (listing p)) := by
  have hlayout : Template.renderAll ⟨{ item := p.toValue }, []⟩ layout
      = .ok (spell (scriptParts p)) := renders_layout hp rfl
  have hspelled : spell (scriptParts p) = (textOf (listing p)).toList := by
    rw [toList_textOf, charsOf, (typeset_listing hp hagents).spelled]
  rw [Template.render, hlayout, hspelled, Except.map, String.ofList_toList]

/-- and so does its text. -/
theorem render_text_listing (hp : Printable p) (hagents : ∀ t ∈ p.tasks, t.agent ≠ some "") :
    ∃ r, Template.Registry.register [] layoutName layoutText = .ok r ∧
      r.render layoutName p.toValue = .ok (textOf (listing p)) := by
  obtain ⟨r, hregister, hrender⟩ := register_layout
  exact ⟨r, hregister, (hrender _ _).2 (render_layout_listing hp hagents)⟩

/-- **What a chart generates**, line by line: if it has integrity, and no task is done by an agent
with the empty id, the listing of its plan.  The text of the layout makes the same of the plan. -/
theorem generate_prints_listing {g : Graph} (h : g.checkIntegrity = .ok ()) (model : String)
    (hagents : ∀ t ∈ (Plan.resolve g model).tasks, t.agent ≠ some "") :
    generate g model = .ok (textOf (listing (Plan.resolve g model))) ∧
      linesOf (textOf (listing (Plan.resolve g model))) = listing (Plan.resolve g model) ++ [""] ∧
      ∃ r, Template.Registry.register [] layoutName layoutText = .ok r ∧
        r.render layoutName (Plan.resolve g model).toValue
          = .ok (textOf (listing (Plan.resolve g model))) := by
  have hp := printable_resolve g model
  refine ⟨?_, linesOf_textOf (typeset_listing hp hagents).unbroken, render_text_listing hp hagents⟩
  have hscript : ofPlan (Plan.resolve g model) = .ok (textOf (listing (Plan.resolve g model))) := by
    rw [ofPlan, render_layout_listing hp hagents]
    rfl
  rw [generate, h]
  exact hscript

/-- An agent with a tool of the library, one that cannot be made and one of its own, and two tasks,
of which it does one. -/
def furnished : Graph where
  nodes := [⟨"a1", .origin, .agent { role := some "Analyst", goals := some "Find out" }, []⟩,
    ⟨"t1", .origin, .tool { toolType := some "ScrapeWebsiteTool" }, []⟩,
    ⟨"t2", .origin, .tool {}, []⟩,
    ⟨"t3", .origin, .tool { toolType := some CrewChart.customTool }, []⟩,
    ⟨"k1", .origin, .task { description := some "Collect" }, []⟩,
    ⟨"k2", .origin, .task { description := some "Report" }, []⟩]
  edges := [⟨"e1", "a1", "t1", []⟩, ⟨"e2", "a1", "t2", []⟩, ⟨"e3", "a1", "t3", []⟩,
    ⟨"e4", "a1", "k1", []⟩]

theorem generate_prints_furnished : furnished.checkIntegrity = .ok () ∧
    (∀ t ∈ (Plan.resolve furnished defaultModel).tasks, t.agent ≠ some "") ∧
    ∃ script, generate furnished defaultModel = .ok script ∧
      "        tools=[tools[\"t1\"], tools[\"t3\"]]" ∈ linesOf script ∧
      ∃ r, Template.Registry.register [] layoutName layoutText = .ok r ∧
        r.render layoutName (Plan.resolve furnished defaultModel).toValue = .ok script := by
  have hagents : ∀ t ∈ (Plan.resolve furnished defaultModel).tasks, t.agent ≠ some "" := by
    decide +kernel
  have hline : "        tools=[tools[\"t1\"], tools[\"t3\"]]"
      ∈ listing (Plan.resolve furnished defaultModel) := by decide +kernel
  obtain ⟨hscript, hlines, htext⟩ :=
    generate_prints_listing (g := furnished) rfl defaultModel hagents
  refine ⟨rfl, hagents, _, hscript, ?_, htext⟩
  rw [hlines]
  exact List.mem_append_left _ hline

end CrewChart.Script

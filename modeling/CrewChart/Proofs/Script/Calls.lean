import CrewChart.Proofs.Json.Tidy
import CrewChart.Proofs.Script.Listing

/-!
# The keys of the calls in a script

The tools, agents and tasks of a script and its crew are made by calls.  An argument of a call is
passed under a keyword of its own, or it is a dictionary that is unpacked, and every member of it is
passed under its key.  The script is read all the same if a key is passed twice, but it stops there
when it is run.

Only a tool has a dictionary to unpack, the configuration that was typed in or is in the catalog.  A
tool of the library has nothing else.  A tool of one's own has three keywords besides, and nothing
keeps its configuration from having one of them as a key.

## What is here

* `CallArgument`, `Call` — a call, its keys and its lines.
* `toolCall?`, `agentCall`, `taskCall`, `crewCall` — the calls of a script.
* `calledLines_eq` — the script consists of these calls and the lines around them.
* `nodup_configurationOf` — no configuration repeats a key.
* `generate_passes_keys_once_iff` — which calls of a script pass a key twice.
-/

set_option autoImplicit false

namespace CrewChart

open Json (Value Attributes)

/-! ## Configurations -/

/-- A value that is read in its kept form repeats no key, whatever the text does. -/
theorem Json.Value.distinctKeys_of_parse {text : String} {v : Value} (h : parse text = .ok v) :
    v.DistinctKeys := by
  rw [parse] at h
  cases hread : (Json.Reader.value Json.Reader.maxLevels).read text with
  | error report =>
    rw [hread] at h
    cases h
  | ok w =>
    rw [hread] at h
    cases h
    exact distinctKeys_tidy w

namespace Plan

theorem nodup_of_mem_catalog :
    ∀ spec ∈ ToolSpec.all, (spec.configuration.map Prod.fst).Nodup := by
  decide

/-- **No configuration repeats a key**, whether it was typed in or is in the catalog. -/
theorem nodup_configurationOf (t : Tool) : ((configurationOf t).map Prod.fst).Nodup := by
  rw [configurationOf]
  split
  · split
    · rename_i members hmembers
      exact (Value.distinctKeys_object_iff.1 (Value.distinctKeys_of_parse hmembers)).1
    · exact List.nodup_nil
  · cases hspec : (filled t.toolType).bind ToolSpec.find? with
    | none => exact List.nodup_nil
    | some spec =>
      obtain ⟨toolType, -, hfind⟩ := Option.bind_eq_some_iff.1 hspec
      exact nodup_of_mem_catalog spec (List.mem_of_find?_eq_some hfind)

end Plan

namespace Script

open Plan (ToolEntry AgentEntry TaskEntry Credential)

/-! ## Calls -/

/-- An argument under a keyword of its own, or members that are passed under their keys. -/
inductive CallArgument where
  | keyword (name expression : String)
  | unpacked (members : Attributes)
deriving DecidableEq

namespace CallArgument

def keys : CallArgument → List String
  | .keyword name _ => [name]
  | .unpacked members => members.map Prod.fst

def text : CallArgument → String
  | .keyword name expression => name ++ "=" ++ expression
  | .unpacked members => "**" ++ literal (.object members)

end CallArgument

/-- A call is set on one line, or every argument has a line of its own, with an indent. -/
structure Call where
  opening : String
  arguments : List CallArgument
  closing : String
  indent : Option String
deriving DecidableEq

namespace Call

/-- The keys under which something is passed, in order. -/
def keys (c : Call) : List String := c.arguments.flatMap CallArgument.keys

/-- Arguments one below the other, with a comma between any two. -/
def argumentLines (indent : String) : List CallArgument → List String
  | [] => []
  | [a] => [indent ++ a.text]
  | a :: b :: rest => (indent ++ a.text ++ ",") :: argumentLines indent (b :: rest)

def lines (c : Call) : List String :=
  match c.indent with
  | none => [c.opening ++ ", ".intercalate (c.arguments.map CallArgument.text) ++ c.closing]
  | some indent => [c.opening] ++ argumentLines indent c.arguments ++ [c.closing]

end Call

/-! ## The calls of a script -/

/-- The keywords a tool of one's own has. -/
def customKeywords : List String := ["name", "description", "return_direct"]

/-- The call that makes a tool, if it can be made. -/
def toolCall? (t : ToolEntry) : Option Call :=
  match t.making with
  | .library className => some {
      opening := callLine t.id className
      arguments := if t.configuration = [] then [] else [.unpacked t.configuration]
      closing := "),"
      indent := none }
  | .custom => some {
      opening := callLine t.id "Tool"
      arguments := [.keyword "name" (literal (.string t.name)),
        .keyword "description" (literal (.string t.description)),
        .keyword "return_direct" (literal (.boolean t.returnDirect)),
        .unpacked t.configuration]
      closing := closingLine
      indent := some "        " }
  | .skipped _ => none

def agentCall (a : AgentEntry) : Call where
  opening := callLine a.id "Agent"
  arguments := [.keyword "role" (literal (.string a.role)),
    .keyword "goal" (literal (.string a.goal)),
    .keyword "backstory" (literal (.string a.backstory)),
    .keyword "allow_delegation" (literal (.boolean a.allowDelegation)),
    .keyword "memory" (literal a.memory),
    .keyword "llm" (literal (.string a.model)),
    .keyword "tools" ("[" ++ ", ".intercalate (a.tools.map toolExpression) ++ "]")]
  closing := closingLine
  indent := some "        "

def taskCall (t : TaskEntry) : Call where
  opening := openingLine t
  arguments := [.keyword "description" (literal (.string t.description)),
    .keyword "expected_output" (literal (.string t.expectedOutput)),
    .keyword "agent" (agentExpression (filled t.agent)),
    .keyword "context" (literal (.string t.context)),
    .keyword "priority" (literal (.string t.priority))]
  closing := closingLine
  indent := some "        "

def crewCall (p : Plan) : Call where
  opening := "crew = Crew("
  arguments := [.keyword "agents" "list(agents.values())",
    .keyword "tasks" "list(tasks.values())",
    .keyword "process" ("Process." ++ p.process.name),
    .keyword "manager_llm" (literal (.string p.managerModel))]
  closing := ")"
  indent := some "    "

/-- A tool that cannot be made leaves a comment. -/
def toolComment (t : ToolEntry) : String :=
  "    # tool " ++ literal (.string t.id) ++ " skipped: "
    ++ ((t.making.reason?.map Plan.SkipReason.message).getD "")

/-- The lines of a script, with its calls as calls. -/
def calledLines (p : Plan) : List String :=
  importLines p
    ++ (["# Set API keys for LLMs"] ++ p.credentials.map Credential.line ++ [""])
    ++ dictionaryLines "# Initialize tools" "tools = \x7b"
        (fun t => (toolCall? t).elim [toolComment t] Call.lines) p.tools
    ++ dictionaryLines "# Create agents" "agents = \x7b" (fun a => (agentCall a).lines) p.agents
    ++ dictionaryLines "# Define tasks" "tasks = \x7b" (fun t => (taskCall t).lines) p.tasks
    ++ (["# Create crew"] ++ (crewCall p).lines ++ [""]) ++ kickoffLines

theorem argumentLine_eq (keyword expression ending : String) :
    argumentLine keyword expression ending
      = "        " ++ (CallArgument.keyword keyword expression).text ++ ending := by
  simp only [argumentLine, CallArgument.text, String.append_assoc]

theorem lines_toolCall? (t : ToolEntry) :
    (toolCall? t).elim [toolComment t] Call.lines = toolLines t := by
  rw [toolCall?, toolLines, toolComment]
  cases t.making with
  | library className =>
    by_cases hnone : t.configuration = []
    · simp [hnone, Call.lines]
    · simp [hnone, Call.lines, CallArgument.text, String.intercalate_singleton]
  | custom =>
    simp [Call.lines, Call.argumentLines, argumentLine_eq, CallArgument.text,
      ← String.append_assoc]
  | skipped reason => rfl

theorem lines_agentCall (a : AgentEntry) : (agentCall a).lines = agentLines a := by
  simp [agentCall, agentLines, Call.lines, Call.argumentLines, argumentLine_eq]

theorem lines_taskCall (t : TaskEntry) : (taskCall t).lines = taskLines t := by
  simp [taskCall, taskLines, agentLine, Call.lines, Call.argumentLines, argumentLine_eq]

theorem lines_crewCall (p : Plan) :
    ["# Create crew"] ++ (crewCall p).lines ++ [""] = crewLines p := by
  simp [crewCall, crewLines, Call.lines, Call.argumentLines, CallArgument.text,
    ← String.append_assoc]

/-- **A script consists of these calls and the lines around them.** -/
theorem calledLines_eq (p : Plan) : calledLines p = scriptLines p := by
  rw [calledLines, funext lines_toolCall?, funext lines_agentCall, funext lines_taskCall,
    lines_crewCall, scriptLines]

/-! ## Which keys are passed twice -/

/-- The keys of a configuration come last. -/
theorem keys_toolCall? {t : ToolEntry} {c : Call} (hc : toolCall? t = some c) :
    c.keys = (if t.making = .custom then customKeywords else [])
      ++ t.configuration.map Prod.fst := by
  rw [toolCall?] at hc
  cases hmaking : t.making with
  | library className =>
    rw [hmaking] at hc
    cases hc
    by_cases hnone : t.configuration = [] <;> simp [Call.keys, CallArgument.keys, hnone]
  | custom =>
    rw [hmaking] at hc
    cases hc
    simp [Call.keys, CallArgument.keys, customKeywords]
  | skipped reason =>
    rw [hmaking] at hc
    cases hc

/-- A call for a tool repeats a key only if the configuration has one of the keywords. -/
theorem nodup_keys_toolCall? {t : ToolEntry} {c : Call} (hc : toolCall? t = some c)
    (hconfiguration : (t.configuration.map Prod.fst).Nodup) :
    c.keys.Nodup ↔
      (t.making = .custom → ∀ key ∈ customKeywords, key ∉ t.configuration.map Prod.fst) := by
  have hkeywords : customKeywords.Nodup := by decide
  rw [keys_toolCall? hc]
  by_cases hmaking : t.making = .custom
  · rw [if_pos hmaking, List.nodup_append']
    exact ⟨fun hnodup _ => hnodup.2.2, fun hnone => ⟨hkeywords, hconfiguration, hnone hmaking⟩⟩
  · rw [if_neg hmaking, List.nil_append]
    exact ⟨fun _ hcustom => absurd hcustom hmaking, fun _ => hconfiguration⟩

/-- **Which calls of a script pass a key twice.**  The script consists of the calls for its tools,
agents, tasks and its crew, and of the lines around them.  The call for a tool of one's own passes
every key once exactly if its configuration has none of the three keywords as a key; any other call
does whatever was filled in. -/
theorem generate_passes_keys_once_iff {g : Graph} (h : g.checkIntegrity = .ok ())
    (model : String) :
    ∃ script, generate g model = .ok script ∧
      linesOf script = calledLines (Plan.resolve g model) ++ [""] ∧
      (∀ t ∈ (Plan.resolve g model).tools, ∀ c, toolCall? t = some c → (c.keys.Nodup ↔
        (t.making = .custom → ∀ key ∈ customKeywords, key ∉ t.configuration.map Prod.fst))) ∧
      (∀ a ∈ (Plan.resolve g model).agents, (agentCall a).keys.Nodup) ∧
      (∀ t ∈ (Plan.resolve g model).tasks, (taskCall t).keys.Nodup) ∧
      (crewCall (Plan.resolve g model)).keys.Nodup := by
  obtain ⟨script, hscript, hlines⟩ := generate_lines h model
  rw [← calledLines_eq] at hlines
  refine ⟨script, hscript, hlines, fun t ht c hc => ?_, fun a _ => ?_, fun t _ => ?_, ?_⟩
  · obtain ⟨n, -, htool⟩ := List.mem_filterMap.1 ht
    obtain ⟨tool, -, rfl⟩ := Option.map_eq_some_iff.1 htool
    exact nodup_keys_toolCall? hc (Plan.nodup_configurationOf tool)
  · show ["role", "goal", "backstory", "allow_delegation", "memory", "llm", "tools"].Nodup
    decide
  · show ["description", "expected_output", "agent", "context", "priority"].Nodup
    decide
  · show ["agents", "tasks", "process", "manager_llm"].Nodup
    decide

/-- Two tools of one's own.  The settings of the second have one of its keywords as a key. -/
def ownTools : Graph where
  nodes := [⟨"t1", .origin, .tool {
      toolType := some CrewChart.customTool, configuration := some "\x7b\"size\": 3\x7d" }, []⟩,
    ⟨"t2", .origin, .tool {
      toolType := some CrewChart.customTool, configuration := some "\x7b\"name\": 3\x7d" }, []⟩]

/-- The call for the first tool passes every key once. -/
theorem generate_passes_keys_once_ownTools : ownTools.checkIntegrity = .ok () ∧
    ∃ script, generate ownTools defaultModel = .ok script ∧
      ∃ t ∈ (Plan.resolve ownTools defaultModel).tools, t.id = "t1" ∧
        ∃ c, toolCall? t = some c ∧ c.keys.Nodup := by
  have htool : ∃ t ∈ (Plan.resolve ownTools defaultModel).tools, t.id = "t1" ∧
      (toolCall? t).isSome ∧ ∀ key ∈ customKeywords, key ∉ t.configuration.map Prod.fst := by
    decide +kernel
  obtain ⟨t, ht, hid, hsome, hnone⟩ := htool
  obtain ⟨c, hc⟩ := Option.isSome_iff_exists.1 hsome
  obtain ⟨script, hscript, -, htools, -⟩ :=
    generate_passes_keys_once_iff (g := ownTools) rfl defaultModel
  exact ⟨rfl, script, hscript, t, ht, hid, c, hc, (htools t ht c hc).2 fun _ => hnone⟩

/-- The call for the second passes the name twice. -/
theorem generate_passes_name_twice_ownTools : ownTools.checkIntegrity = .ok () ∧
    ∃ script, generate ownTools defaultModel = .ok script ∧
      ∃ t ∈ (Plan.resolve ownTools defaultModel).tools, ∃ c, toolCall? t = some c ∧
        c.lines = ["    \"t2\": Tool(", "        name=\"t2\",", "        description=\"\",",
          "        return_direct=False,", "        **\x7b\"name\": 3\x7d", "    ),"] ∧
        c.lines <:+: linesOf script ∧
        c.keys = ["name", "description", "return_direct", "name"] ∧ ¬ c.keys.Nodup := by
  have htool : ∃ t ∈ (Plan.resolve ownTools defaultModel).tools, ∃ c ∈ toolCall? t,
      c.lines = ["    \"t2\": Tool(", "        name=\"t2\",", "        description=\"\",",
        "        return_direct=False,", "        **\x7b\"name\": 3\x7d", "    ),"] ∧
      c.lines <:+: calledLines (Plan.resolve ownTools defaultModel) ∧
      c.keys = ["name", "description", "return_direct", "name"] := by
    decide +kernel
  obtain ⟨t, ht, c, hc, hset, hplace, hkeys⟩ := htool
  obtain ⟨script, hscript, hlines⟩ := generate_lines (g := ownTools) rfl defaultModel
  rw [← calledLines_eq] at hlines
  refine ⟨rfl, script, hscript, t, ht, c, hc, hset, ?_, hkeys, by rw [hkeys]; decide⟩
  rw [hlines]
  exact hplace.trans (List.prefix_append _ _).isInfix

end Script

end CrewChart

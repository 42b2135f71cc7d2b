import CrewChart.Proofs.Json.Written
import CrewChart.Proofs.Script.Lines

/-!
# The agents in the tasks of a script

The tasks of a plan come out as blocks of lines, one block after the other between the lines that
open and close their dictionary.  One line of a block says who does the task: it looks an agent up
by its id, or has `None`.

Whether there is an agent is asked twice.  The plan has one or has none; the layout asks whether its
id is filled in.  An agent may have the empty id, and then the two differ: the plan has an agent,
and the line has `None` all the same.

## What is here

* `linesOf` — the lines of a text.
* `Typeset` — parts that come out as these lines, with a law to put them together.
* `typeset_taskParts` — the seven lines of a task.
* `agentLine_eq_iff`, `agentLine_mem_taskLines_iff` — two agents do not share a line, and a block
  has the line of one agent only.
* `IsTaskBlock`, `generate_names_agents` — every task has its block in the script, and which agent
  is looked up there.
-/

set_option autoImplicit false

namespace CrewChart.Script

open Json (Value)
open Plan (TaskEntry)

/-! ## The lines of a text -/

def linesOf (text : String) : List String := (text.toList.splitOn '\n').map String.ofList

/-- A text that ends no line. -/
def Unbroken (s : String) : Prop := '\n' ∉ s.toList

instance (s : String) : Decidable (Unbroken s) := inferInstanceAs (Decidable ('\n' ∉ s.toList))

theorem Unbroken.append {s t : String} (hs : Unbroken s) (ht : Unbroken t) : Unbroken (s ++ t) := by
  intro h
  rw [String.toList_append] at h
  exact (List.mem_append.1 h).elim hs ht

theorem unbroken_literal (v : Value) : Unbroken (literal v) := by
  rw [Unbroken, literal, String.toList_ofList, ← spell_literalParts, ← List.count_eq_zero,
    count_newline_spell, (lines_literalParts v).count]

/-- These parts come out as these lines, each with its line break. -/
structure Typeset (lines : List String) (parts : List Part) : Prop where
  spelled : spell parts = lines.flatMap fun l => l.toList ++ ['\n']
  unbroken : ∀ l ∈ lines, Unbroken l

section Typeset

variable {lines more : List String} {parts rest : List Part}

theorem Typeset.nil : Typeset [] [] := ⟨rfl, fun _ h => absurd h List.not_mem_nil⟩

theorem Typeset.singleton {l : String} (hl : Unbroken l)
    (h : spell parts = l.toList ++ ['\n']) : Typeset [l] parts :=
  ⟨h.trans (List.flatMap_singleton ..).symm, fun _ hmem => List.mem_singleton.1 hmem ▸ hl⟩

theorem Typeset.append (hparts : Typeset lines parts) (h : Typeset more rest) :
    Typeset (lines ++ more) (parts ++ rest) := by
  refine ⟨?_, fun l hl => ?_⟩
  · rw [spell_append, hparts.spelled, h.spelled, List.flatMap_append]
  · exact (List.mem_append.1 hl).elim (hparts.unbroken l) (h.unbroken l)

theorem Typeset.flatMap {α : Type} {lines : α → List String} {out : α → List Part} {l : List α}
    (h : ∀ a ∈ l, Typeset (lines a) (out a)) : Typeset (l.flatMap lines) (l.flatMap out) := by
  induction l with
  | nil => exact .nil
  | cons a l ih =>
    obtain ⟨ha, hl⟩ := List.forall_mem_cons.1 h
    exact ha.append (ih hl)

/-- What is set in lines is read as these lines, whatever follows. -/
theorem Typeset.splitOn (h : Typeset lines parts) (text : List Char) :
    (spell parts ++ text).splitOn '\n' = lines.map String.toList ++ text.splitOn '\n' := by
  obtain ⟨hspelled, hunbroken⟩ := h
  rw [hspelled]
  clear hspelled
  induction lines with
  | nil => rfl
  | cons l lines ih =>
    obtain ⟨hl, hlines⟩ := List.forall_mem_cons.1 hunbroken
    rw [List.flatMap_cons, List.append_assoc, List.append_assoc, List.singleton_append,
      List.splitOn_append_cons_self_of_not_mem hl, ih hlines, List.map_cons, List.cons_append]

end Typeset

/-! ## The lines of a task -/

/-- The line of a keyword argument. -/
def argumentLine (keyword expression ending : String) : String :=
  "        " ++ keyword ++ "=" ++ expression ++ ending

/-- The agent of a task is looked up by its id, unless there is none. -/
def agentExpression : Option String → String
  | some key => "agents[" ++ literal (.string key) ++ "]"
  | none => "None"

/-- The line that says who does a task. -/
def agentLine (agent : Option String) : String := argumentLine "agent" (agentExpression agent) ","

def openingLine (t : TaskEntry) : String := "    " ++ literal (.string t.id) ++ ": Task("

def closingLine : String := "    ),"

def taskLines (t : TaskEntry) : List String :=
  [openingLine t,
    argumentLine "description" (literal (.string t.description)) ",",
    argumentLine "expected_output" (literal (.string t.expectedOutput)) ",",
    agentLine (filled t.agent),
    argumentLine "context" (literal (.string t.context)) ",",
    argumentLine "priority" (literal (.string t.priority)) "",
    closingLine]

theorem toList_argumentLine (keyword expression ending : String) :
    (argumentLine keyword expression ending).toList
      = "        ".toList ++ (keyword.toList ++ '=' :: (expression.toList ++ ending.toList)) := by
  simp only [argumentLine, String.toList_append, List.append_assoc]
  rfl

theorem toList_agentExpression_some (key : String) :
    (agentExpression (some key)).toList = "agents[".toList ++ (Json.quotedChars key ++ [']']) := by
  simp only [agentExpression, literal, literalChars, String.toList_append, String.toList_ofList,
    List.append_assoc]
  rfl

theorem toList_openingLine (t : TaskEntry) :
    (openingLine t).toList = "    ".toList ++ (Json.quotedChars t.id ++ ": Task(".toList) := by
  simp only [openingLine, literal, literalChars, String.toList_append, String.toList_ofList,
    List.append_assoc]

theorem unbroken_argumentLine {keyword expression ending : String} (hkeyword : Unbroken keyword)
    (hexpression : Unbroken expression) (hending : Unbroken ending) :
    Unbroken (argumentLine keyword expression ending) := by
  have hindent : Unbroken "        " := by decide
  have hequals : Unbroken "=" := by decide
  exact (((hindent.append hkeyword).append hequals).append hexpression).append hending

theorem unbroken_agentExpression (agent : Option String) : Unbroken (agentExpression agent) := by
  have hopen : Unbroken "agents[" := by decide
  have hclose : Unbroken "]" := by decide
  cases agent with
  | none => decide
  | some key => exact (hopen.append (unbroken_literal _)).append hclose

theorem typeset_openingLine (t : TaskEntry) :
    Typeset [openingLine t] [.code "    ", .quoted t.id, .code ": Task(\n"] := by
  have hindent : Unbroken "    " := by decide
  have hcall : Unbroken ": Task(" := by decide
  refine .singleton ((hindent.append (unbroken_literal _)).append hcall) ?_
  simp [toList_openingLine, Part.chars]

theorem typeset_keywordParts {keyword ending : String} (v : Value) (hkeyword : Unbroken keyword)
    (hending : Unbroken ending) :
    Typeset [argumentLine keyword (literal v) ending] (keywordParts keyword v ending) := by
  refine .singleton (unbroken_argumentLine hkeyword (unbroken_literal v) hending) ?_
  simp [argumentLine, keywordParts, Part.chars, spell_literalParts, literal]

theorem typeset_taskAgentParts (agent : Option String) :
    Typeset [agentLine (filled agent)]
      (.code "        agent=" :: taskAgentParts agent ++ [.code ",\n"]) := by
  refine .singleton
    (unbroken_argumentLine (by decide) (unbroken_agentExpression _) (by decide)) ?_
  rw [taskAgentParts, agentLine, toList_argumentLine]
  cases filled agent with
  | none => rfl
  | some key =>
    rw [toList_agentExpression_some]
    simp [Part.chars]

/-- **A task is set in seven lines.** -/
theorem typeset_taskParts (t : TaskEntry) : Typeset (taskLines t) (taskParts t) := by
  have hclosing : Typeset [closingLine] [.code "    ),\n"] := .singleton (by decide) rfl
  exact ((((((typeset_openingLine t).append
    (typeset_keywordParts _ (by decide) (by decide))).append
    (typeset_keywordParts _ (by decide) (by decide))).append
    (typeset_taskAgentParts t.agent)).append
    (typeset_keywordParts _ (by decide) (by decide))).append
    (typeset_keywordParts _ (by decide) (by decide))).append hclosing

/-! ### Which line is that of an agent -/

/-- What is quoted is read back from its quotes. -/
theorem quotedChars_append_inj {s t : String} {r r' : List Char}
    (h : Json.quotedChars s ++ r = Json.quotedChars t ++ r') : s = t := by
  have hs := Json.Reader.stringTail_quoted s r
  rw [Json.Reader.quotedChars_append, Json.Reader.quotedChars_append] at h
  rw [(List.cons.inj h).2, Json.Reader.stringTail_quoted t r'] at hs
  exact (Prod.mk.inj (Except.ok.inj hs)).1.symm

theorem agentExpression_some_ne (key : String) :
    agentExpression (some key) ≠ agentExpression none := by
  intro h
  have hchars := congrArg String.toList h
  rw [toList_agentExpression_some] at hchars
  have hhead : some 'a' = some 'N' := congrArg List.head? hchars
  exact absurd hhead (by decide)

theorem agentExpression_injective : Function.Injective agentExpression := by
  rintro (_ | key) (_ | other) h
  · rfl
  · exact absurd h.symm (agentExpression_some_ne other)
  · exact absurd h (agentExpression_some_ne key)
  · have hchars := congrArg String.toList h
    rw [toList_agentExpression_some, toList_agentExpression_some, List.append_right_inj] at hchars
    rw [quotedChars_append_inj hchars]

/-- Keyword arguments on one line are of one keyword. -/
theorem keyword_eq_of_argumentLine_eq {k k' e e' x x' : String}
    (hk : '=' ∉ k.toList) (hk' : '=' ∉ k'.toList)
    (h : argumentLine k e x = argumentLine k' e' x') : k = k' := by
  have hchars := congrArg String.toList h
  rw [toList_argumentLine, toList_argumentLine, List.append_right_inj] at hchars
  have hsplit := congrArg (List.splitOn '=') hchars
  rw [List.splitOn_append_cons_self_of_not_mem hk,
    List.splitOn_append_cons_self_of_not_mem hk'] at hsplit
  exact String.toList_inj.1 (List.cons.inj hsplit).1

/-- Two expressions do not share a line. -/
theorem argumentLine_inj {k e e' x : String} :
    argumentLine k e x = argumentLine k e' x ↔ e = e' := by
  refine ⟨fun h => ?_, fun h => by rw [h]⟩
  have hchars := congrArg String.toList h
  rw [toList_argumentLine, toList_argumentLine, List.append_right_inj, List.append_right_inj,
    List.cons.injEq, List.append_left_inj] at hchars
  exact String.toList_inj.1 hchars.2

/-- **Two agents do not share a line.** -/
theorem agentLine_eq_iff {a b : Option String} : agentLine a = agentLine b ↔ a = b :=
  argumentLine_inj.trans agentExpression_injective.eq_iff

/-- An argument is further to the right than the lines around the arguments. -/
theorem fifth_argumentLine (keyword expression ending : String) :
    (argumentLine keyword expression ending).toList[4]? = some ' ' := by
  rw [toList_argumentLine]
  rfl

theorem argumentLine_ne_closingLine (keyword expression ending : String) :
    argumentLine keyword expression ending ≠ closingLine := by
  intro h
  have hfifth := fifth_argumentLine keyword expression ending
  rw [h] at hfifth
  exact absurd hfifth (by decide)

/-- An agent has the fourth line of a block and no other. -/
theorem agentLine_mem_taskLines_iff {t : TaskEntry} {agent : Option String} :
    agentLine agent ∈ taskLines t ↔ agent = filled t.agent := by
  have hkeyword : ∀ keyword {e x : String}, '=' ∉ keyword.toList → "agent" ≠ keyword →
      agentLine agent ≠ argumentLine keyword e x := fun _ _ _ hk hne h =>
    hne (keyword_eq_of_argumentLine_eq (by decide) hk h)
  have hopening : agentLine agent ≠ openingLine t := by
    intro h
    have hfifth := fifth_argumentLine "agent" (agentExpression agent) ","
    rw [← agentLine, h, toList_openingLine] at hfifth
    have hquote : some '"' = some ' ' := hfifth
    exact absurd hquote (by decide)
  have hclosing : agentLine agent ≠ closingLine := argumentLine_ne_closingLine _ _ _
  simp only [taskLines, List.mem_cons, List.not_mem_nil, or_false, hopening, hclosing, false_or,
    agentLine_eq_iff, hkeyword "description" (by decide) (by decide),
    hkeyword "expected_output" (by decide) (by decide),
    hkeyword "context" (by decide) (by decide),
    hkeyword "priority" (by decide) (by decide)]

/-! ## The block of a task -/

/-- These lines are the block of this task. -/
structure IsTaskBlock (t : TaskEntry) (block : List String) : Prop where
  /-- It opens with the id of the task, -/
  opens : block.head? = some (openingLine t)
  closes : block.getLast? = some closingLine
  length : block.length = 7
  /-- looks an agent up if it is the agent of the task and its id is filled in, -/
  named : ∀ key, agentLine (some key) ∈ block ↔ t.agent = some key ∧ key ≠ ""
  /-- and has `None` for an agent with the empty id as it has for no agent. -/
  unnamed : agentLine none ∈ block ↔ t.agent = none ∨ t.agent = some ""

theorem isTaskBlock_taskLines (t : TaskEntry) : IsTaskBlock t (taskLines t) where
  opens := rfl
  closes := rfl
  length := rfl
  named key := by rw [agentLine_mem_taskLines_iff, eq_comm, filled_eq_some_iff]
  unnamed := by rw [agentLine_mem_taskLines_iff, eq_comm, filled_eq_none_iff]

theorem typeset_taskSection (p : Plan) :
    Typeset (["# Define tasks", "tasks = \x7b"] ++ p.tasks.flatMap taskLines ++ ["\x7d", ""])
      (taskSection p) := by
  have hheading : Typeset ["# Define tasks", "tasks = \x7b"]
      [.code "# Define tasks\ntasks = \x7b\n"] := ⟨rfl, by decide⟩
  have hending : Typeset ["\x7d", ""] [.code "\x7d\n\n"] := ⟨rfl, by decide⟩
  exact (hheading.append (.flatMap fun t _ => typeset_taskParts t)).append hending

/-- The tasks start on a line of their own. -/
theorem exists_spell_scriptParts (p : Plan) : ∃ front back : List Char,
    spell (scriptParts p) = front ++ '\n' :: (spell (taskSection p) ++ back) := by
  refine ⟨spell (importParts p ++ credentialSection p ++ toolSection p
    ++ .code "# Create agents\nagents = \x7b\n" :: p.agents.flatMap agentParts)
    ++ ['\x7d', '\n'], spell (crewParts p ++ kickoffParts), ?_⟩
  simp [scriptParts, agentSection, sectionParts, Part.chars]

/-- **The lines of the tasks among those of the script.** -/
theorem exists_linesOf_scriptParts (p : Plan) : ∃ before after,
    linesOf (String.ofList (spell (scriptParts p)))
      = before ++ ["# Define tasks", "tasks = \x7b"] ++ p.tasks.flatMap taskLines
        ++ "\x7d" :: after := by
  obtain ⟨front, back, hspell⟩ := exists_spell_scriptParts p
  have hlines : ∀ lines : List String, (lines.map String.toList).map String.ofList = lines := by
    simp [List.map_map]
  refine ⟨linesOf (String.ofList front), "" :: linesOf (String.ofList back), ?_⟩
  simp only [linesOf, String.toList_ofList, hspell, List.splitOn_append_cons_self,
    (typeset_taskSection p).splitOn, List.map_append, hlines, List.append_assoc, List.cons_append,
    List.nil_append]

/-- **Which agents the script looks up.**  The tasks of the plan have their blocks in the script,
one after the other.  The agent of a task is looked up in its block exactly if its id is filled in;
for an agent with the empty id the block has `None`, as if there were no agent. -/
theorem generate_names_agents {g : Graph} (h : g.checkIntegrity = .ok ()) (model : String) :
    ∃ script before after, ∃ block : TaskEntry → List String, generate g model = .ok script ∧
      linesOf script = before ++ ["# Define tasks", "tasks = \x7b"]
        ++ (Plan.resolve g model).tasks.flatMap block ++ "\x7d" :: after ∧
      ∀ t ∈ (Plan.resolve g model).tasks, IsTaskBlock t (block t) := by
  obtain ⟨before, after, hlines⟩ := exists_linesOf_scriptParts (Plan.resolve g model)
  exact ⟨_, before, after, taskLines, generate_eq h model, hlines,
    fun t _ => isTaskBlock_taskLines t⟩

/-- One task is done by an agent with an id, one by an agent with the empty id, one by nobody. -/
def nameless : Graph where
  nodes := [⟨"a1", .origin, .agent { role := some "Analyst", goals := some "Find out" }, []⟩,
    ⟨"", .origin, .agent { role := some "Writer", goals := some "Write" }, []⟩,
    ⟨"k1", .origin, .task { description := some "Collect" }, []⟩,
    ⟨"k2", .origin, .task { description := some "Report" }, []⟩,
    ⟨"k3", .origin, .task { description := some "Review" }, []⟩]
  edges := [⟨"e1", "a1", "k1", []⟩, ⟨"e2", "", "k2", []⟩]

theorem generate_names_agents_nameless : nameless.checkIntegrity = .ok () ∧
    ∃ script, generate nameless defaultModel = .ok script ∧
      agentLine (some "a1") ∈ linesOf script := by
  have htask : ∃ t ∈ (Plan.resolve nameless defaultModel).tasks, t.agent = some "a1" := by
    decide +kernel
  obtain ⟨t, ht, hagent⟩ := htask
  obtain ⟨script, before, after, block, hscript, hlines, hblocks⟩ :=
    generate_names_agents (g := nameless) rfl defaultModel
  have hline : agentLine (some "a1") ∈ block t :=
    ((hblocks t ht).named "a1").2 ⟨hagent, by decide⟩
  refine ⟨rfl, script, hscript, ?_⟩
  rw [hlines, List.mem_append, List.mem_append]
  exact .inl (.inr (List.mem_flatMap.2 ⟨t, ht, hline⟩))

/-- The plan has an agent for this task, but its block has `None`. -/
theorem generate_leaves_out_nameless : nameless.checkIntegrity = .ok () ∧
    ∃ t ∈ (Plan.resolve nameless defaultModel).tasks, t.id = "k2" ∧ t.agent = some "" ∧
    ∃ script before block after, generate nameless defaultModel = .ok script ∧
      linesOf script = before ++ block ++ after ∧
      block.head? = some (openingLine t) ∧ block.getLast? = some closingLine ∧ block.length = 7 ∧
      agentLine (some "") ∉ block ∧ agentLine none ∈ block := by
  have htask : ∃ t ∈ (Plan.resolve nameless defaultModel).tasks,
      t.id = "k2" ∧ t.agent = some "" := by decide +kernel
  obtain ⟨t, ht, hid, hagent⟩ := htask
  have hblock := isTaskBlock_taskLines t
  obtain ⟨before, after, hlines⟩ := exists_linesOf_scriptParts (Plan.resolve nameless defaultModel)
  obtain ⟨earlier, later, htasks⟩ := List.append_of_mem ht
  refine ⟨rfl, t, ht, hid, hagent, _, before ++ ["# Define tasks", "tasks = \x7b"]
    ++ earlier.flatMap taskLines, taskLines t, later.flatMap taskLines ++ "\x7d" :: after,
    generate_eq rfl _, ?_, hblock.opens, hblock.closes, hblock.length, ?_,
    hblock.unnamed.2 (.inr hagent)⟩
  · rw [hlines, htasks, List.flatMap_append, List.flatMap_cons]
    simp only [List.append_assoc]
  · exact fun h => ((hblock.named "").1 h).2 rfl

end CrewChart.Script

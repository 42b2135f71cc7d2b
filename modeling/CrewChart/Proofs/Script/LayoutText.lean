import CrewChart.Proofs.Template.Sources
import CrewChart.Script.Generate

/-!
# The layout as a text

The layout is kept as the text of a template.  This file has that text, line by line, and shows that
it is read as the layout: what comes out of it is the same, whatever plan goes in.

Most lines of the text are either text with tags for values in it, or one tag of a block and nothing
else.  A line of the second kind is no line of the script.  Two blocks are inside a line, the one
for the settings of a tool and the one for the agent of a task, and the tools of an agent are a
block with another one inside, all in a line.

## What is here

* `layoutLines`, `layoutText` — the text.
* `ReadsLines` — whole lines add these pieces.
* `readsLines_layout` — the text adds the layout.
* `register_layout` — so it can be registered, and comes out as the layout.
-/

set_option autoImplicit false

namespace CrewChart.Script

open Template (Helper IsWord Line Piece Reads Registry braced isPlainText
  isArgument_loop isArgument_word isTag_closing isTag_literal isTag_opening isTag_shown memberOf)

/-! ## The text -/

/-- Lines, each with its line break. -/
def textOf (lines : List String) : String := String.join (lines.map (· ++ "\n"))

def importLayout : List String :=
  ["from crewai import Agent, Task, Crew, Process",
    "\x7b\x7b#if tool_imports\x7d\x7d",
    "from crewai_tools import \x7b\x7btool_imports\x7d\x7d",
    "\x7b\x7b/if\x7d\x7d",
    "\x7b\x7b#if uses_custom_tool\x7d\x7d",
    "from langchain_core.tools import Tool",
    "\x7b\x7b/if\x7d\x7d",
    "import os",
    ""]

def credentialLayout : List String :=
  ["# Set API keys for LLMs",
    "\x7b\x7b#each credentials\x7d\x7d",
    "\x7b\x7bthis\x7d\x7d",
    "\x7b\x7b/each\x7d\x7d",
    ""]

/-- A tool of the library is on one line, and its settings are a block inside. -/
def libraryToolLayout : List String :=
  ["    \x7b\x7bpy id\x7d\x7d: \x7b\x7bclass\x7d\x7d(\x7b\x7b#if has_config\x7d\x7d**\x7b\x7bpy config\x7d\x7d\x7b\x7b/if\x7d\x7d),"]

def customToolLayout : List String :=
  ["    \x7b\x7bpy id\x7d\x7d: Tool(",
    "        name=\x7b\x7bpy name\x7d\x7d,",
    "        description=\x7b\x7bpy description\x7d\x7d,",
    "        return_direct=\x7b\x7bpy return_direct\x7d\x7d,",
    "        **\x7b\x7bpy config\x7d\x7d",
    "    ),"]

def skippedToolLayout : List String :=
  ["    # tool \x7b\x7bpy id\x7d\x7d skipped: \x7b\x7breason\x7d\x7d"]

/-- A tool that is not of the library. -/
def otherToolLayout : List String :=
  ["\x7b\x7b#if custom\x7d\x7d"] ++ customToolLayout
    ++ ["\x7b\x7belse\x7d\x7d"] ++ skippedToolLayout ++ ["\x7b\x7b/if\x7d\x7d"]

def toolEntryLayout : List String :=
  ["\x7b\x7b#if class\x7d\x7d"] ++ libraryToolLayout
    ++ ["\x7b\x7belse\x7d\x7d"] ++ otherToolLayout ++ ["\x7b\x7b/if\x7d\x7d"]

def toolLayout : List String :=
  ["# Initialize tools", "tools = \x7b"] ++ ["\x7b\x7b#each tools\x7d\x7d"] ++ toolEntryLayout
    ++ ["\x7b\x7b/each\x7d\x7d", "\x7d", ""]

/-- The tools of an agent are set apart by a block inside the block for each. -/
def toolListLine : String :=
  "        tools=[\x7b\x7b#each tools\x7d\x7d\x7b\x7b#unless @first\x7d\x7d, \x7b\x7b/unless\x7d\x7dtools[\x7b\x7bpy this\x7d\x7d]\x7b\x7b/each\x7d\x7d]"

def agentEntryLayout : List String :=
  ["    \x7b\x7bpy id\x7d\x7d: Agent(",
    "        role=\x7b\x7bpy role\x7d\x7d,",
    "        goal=\x7b\x7bpy goal\x7d\x7d,",
    "        backstory=\x7b\x7bpy backstory\x7d\x7d,",
    "        allow_delegation=\x7b\x7bpy allow_delegation\x7d\x7d,",
    "        memory=\x7b\x7bpy memory\x7d\x7d,",
    "        llm=\x7b\x7bpy llm\x7d\x7d,",
    toolListLine,
    "    ),"]

def agentLayout : List String :=
  ["# Create agents", "agents = \x7b"] ++ ["\x7b\x7b#each agents\x7d\x7d"] ++ agentEntryLayout
    ++ ["\x7b\x7b/each\x7d\x7d", "\x7d", ""]

/-- The agent of a task, if it has one. -/
def taskAgentLine : String :=
  "        agent=\x7b\x7b#if agent\x7d\x7dagents[\x7b\x7bpy agent\x7d\x7d]\x7b\x7belse\x7d\x7dNone\x7b\x7b/if\x7d\x7d,"

def taskEntryLayout : List String :=
  ["    \x7b\x7bpy id\x7d\x7d: Task(",
    "        description=\x7b\x7bpy description\x7d\x7d,",
    "        expected_output=\x7b\x7bpy expected_output\x7d\x7d,",
    taskAgentLine,
    "        context=\x7b\x7bpy context\x7d\x7d,",
    "        priority=\x7b\x7bpy priority\x7d\x7d",
    "    ),"]

def taskLayout : List String :=
  ["# Define tasks", "tasks = \x7b"] ++ ["\x7b\x7b#each tasks\x7d\x7d"] ++ taskEntryLayout
    ++ ["\x7b\x7b/each\x7d\x7d", "\x7d", ""]

def crewLayout : List String :=
  ["# Create crew",
    "crew = Crew(",
    "    agents=list(agents.values()),",
    "    tasks=list(tasks.values()),",
    "    process=Process.\x7b\x7bprocess\x7d\x7d,",
    "    manager_llm=\x7b\x7bpy manager_llm\x7d\x7d",
    ")",
    ""]

def kickoffLayout : List String :=
  ["# Execute the crew",
    "result = crew.kickoff()",
    "print(\"\\nCrew Execution Result:\\n\", result)"]

/-- The text of the layout, line by line. -/
def layoutLines : List String :=
  importLayout ++ credentialLayout ++ toolLayout ++ agentLayout ++ taskLayout ++ crewLayout
    ++ kickoffLayout

def layoutText : String := textOf layoutLines

/-! ## Lines of text -/

/-- The characters of lines, each with its line break. -/
def charsOf (lines : List String) : List Char := lines.flatMap fun l => l.toList ++ ['\n']

theorem toList_textOf (lines : List String) : (textOf lines).toList = charsOf lines := by
  induction lines with
  | nil => rfl
  | cons l lines ih =>
    rw [charsOf, List.flatMap_cons, ← charsOf, ← ih, textOf, textOf, List.map_cons]
    simp

theorem charsOf_nil : charsOf [] = [] := rfl

theorem charsOf_cons (cs : List Char) (lines : List String) :
    charsOf (String.ofList cs :: lines) = cs ++ '\n' :: charsOf lines := by
  rw [charsOf, List.flatMap_cons, String.toList_ofList, List.append_assoc]
  rfl

theorem charsOf_append (lines lines' : List String) :
    charsOf (lines ++ lines') = charsOf lines ++ charsOf lines' := List.flatMap_append

/-- Whole lines that add these pieces. -/
def ReadsLines (lines : List String) (ps : List Piece) : Prop :=
  Reads .fresh (charsOf lines) ps .fresh

theorem ReadsLines.append {lines lines' : List String} {ps qs : List Piece}
    (h : ReadsLines lines ps) (h' : ReadsLines lines' qs) :
    ReadsLines (lines ++ lines') (ps ++ qs) := by
  rw [ReadsLines, charsOf_append]
  exact Reads.append h h'

theorem ReadsLines.cons {line : String} {lines : List String} {ps qs : List Piece}
    (h : ReadsLines [line] ps) (h' : ReadsLines lines qs) : ReadsLines (line :: lines) (ps ++ qs) :=
  h.append h'

/-- Lines that are spelled like this. -/
theorem ReadsLines.of {lines : List String} {cs : List Char} {ps : List Piece}
    (h : Reads .fresh cs ps .fresh) (hcs : charsOf lines = cs) : ReadsLines lines ps := by
  rw [ReadsLines, hcs]
  exact h

theorem ReadsLines.line {cs line : List Char} {ps : List Piece} (h : Reads .fresh cs ps .fresh)
    (hcs : cs = line ++ ['\n']) : ReadsLines [String.ofList line] ps := by
  refine .of h ?_
  rw [charsOf_cons, charsOf_nil, hcs]

/-! ## Tags of the layout -/

/-- A word that names a member, as a helper or a part of a block does not. -/
structure IsMember (name : List Char) : Prop where
  word : IsWord name
  ne_this : String.ofList name ≠ "this"
  not_else : ¬ "else".toList <+: name
  not_helper : (Helper.ofName (String.ofList name)).isKnown = false

instance (name : List Char) : Decidable (IsMember name) :=
  decidable_of_iff (IsWord name ∧ String.ofList name ≠ "this" ∧ ¬ "else".toList <+: name ∧
      (Helper.ofName (String.ofList name)).isKnown = false)
    ⟨fun ⟨h, h', h'', h'''⟩ => ⟨h, h', h'', h'''⟩, fun h => ⟨h.1, h.2, h.3, h.4⟩⟩

section Tags

variable {l m n : Line} {name cs cs' : List Char} {ps qs : List Piece}

theorem IsMember.memberOf_eq (h : IsMember name) : memberOf name = field (String.ofList name) := by
  simp [memberOf, field, h.ne_this]

/-- Text without a brace adds itself. -/
theorem reads_text (h : isPlainText cs = true) (hm : l.after cs = m) :
    Reads l cs [text (String.ofList cs)] m := .plain h hm

theorem reads_shown (hname : IsMember name) :
    Reads l (braced name) [shown (String.ofList name)] .begun := by
  rw [shown, ← hname.memberOf_eq]
  exact .value (isTag_shown hname.word hname.not_else hname.not_helper)

theorem reads_quoted (hname : IsMember name) :
    Reads l (braced ('p' :: 'y' :: ' ' :: name)) [quoted (String.ofList name)] .begun := by
  rw [quoted, ← hname.memberOf_eq]
  exact .literal (isTag_literal (isArgument_word hname.word))

/-- A condition on a member, with nothing for when it fails.  The ends of lines after its tags go
with the tags. -/
theorem reads_ifHolds (hname : IsMember name) (hl : l ≠ .unsettled) (hbody : Reads l cs ps m)
    (hm : m ≠ .unsettled) :
    Reads l (braced ('#' :: 'i' :: 'f' :: ' ' :: name) ++ (l.ending ++ (cs
      ++ (braced ['/', 'i', 'f'] ++ m.ending)))) [ifHolds (String.ofList name) ps []] m := by
  rw [ifHolds, ← hname.memberOf_eq]
  exact Reads.block (h := .cond false) hl hm rfl
    (isTag_opening (w := ['i', 'f']) (by decide) (isArgument_word hname.word)) hbody
    (isTag_closing (w := ['i', 'f']) (by decide))

theorem reads_ifElse (hname : IsMember name) (hl : l ≠ .unsettled) (hyes : Reads l cs ps m)
    (hm : m ≠ .unsettled) (hno : Reads m cs' qs n) (hn : n ≠ .unsettled) :
    Reads l (braced ('#' :: 'i' :: 'f' :: ' ' :: name) ++ (l.ending ++ (cs
        ++ (braced ['e', 'l', 's', 'e'] ++ (m.ending ++ (cs'
        ++ (braced ['/', 'i', 'f'] ++ n.ending)))))))
      [ifHolds (String.ofList name) ps qs] n := by
  rw [ifHolds, ← hname.memberOf_eq]
  exact Reads.divided (h := .cond false) hl hm hn rfl
    (isTag_opening (w := ['i', 'f']) (by decide) (isArgument_word hname.word)) hyes hno
    (isTag_closing (w := ['i', 'f']) (by decide))

/-- A loop over the items of a member. -/
theorem reads_forEach (hname : IsMember name) (hl : l ≠ .unsettled) (hbody : Reads l cs ps m)
    (hm : m ≠ .unsettled) :
    Reads l (braced ('#' :: 'e' :: 'a' :: 'c' :: 'h' :: ' ' :: name) ++ (l.ending ++ (cs
      ++ (braced ['/', 'e', 'a', 'c', 'h'] ++ m.ending)))) [forEach (String.ofList name) ps] m := by
  rw [forEach, ← hname.memberOf_eq]
  exact Reads.block (h := .each) hl hm rfl
    (isTag_opening (w := ['e', 'a', 'c', 'h']) (by decide) (isArgument_word hname.word)) hbody
    (isTag_closing (w := ['e', 'a', 'c', 'h']) (by decide))

end Tags

/-! ## Sections -/

/-- Lines with no tag in them. -/
theorem ReadsLines.plain {lines : List String} {cs : List Char} (hcs : charsOf lines = cs)
    (h : isPlainText cs = true) (hm : Line.after .fresh cs = .fresh) :
    ReadsLines lines [text (String.ofList cs)] := .of (reads_text h hm) hcs

/-- The lines of a block are those of its body, between the lines of its tags. -/
theorem ReadsLines.block {first last : List Char} {lines body : List String} {ps : List Piece}
    (h : Reads .fresh (braced first ++ (Line.fresh.ending ++ (charsOf body
      ++ (braced last ++ Line.fresh.ending)))) ps .fresh)
    (hlines : lines = String.ofList (braced first) :: (body ++ [String.ofList (braced last)])) :
    ReadsLines lines ps := by
  refine .of h ?_
  rw [hlines, charsOf_cons, charsOf_append, charsOf_cons, charsOf_nil]
  rfl

/-- A block in two parts, with `else` on a line of its own between them. -/
theorem ReadsLines.divided {first last : List Char} {lines body other : List String}
    {ps : List Piece}
    (h : Reads .fresh (braced first ++ (Line.fresh.ending ++ (charsOf body
      ++ (braced ['e', 'l', 's', 'e'] ++ (Line.fresh.ending ++ (charsOf other
        ++ (braced last ++ Line.fresh.ending))))))) ps .fresh)
    (hlines : lines = String.ofList (braced first) :: (body ++ "\x7b\x7belse\x7d\x7d"
      :: (other ++ [String.ofList (braced last)]))) :
    ReadsLines lines ps := by
  have helse : "\x7b\x7belse\x7d\x7d" = String.ofList (braced ['e', 'l', 's', 'e']) := rfl
  refine .of h ?_
  rw [hlines, charsOf_cons, charsOf_append, helse, charsOf_cons, charsOf_append, charsOf_cons,
    charsOf_nil]
  rfl

theorem readsLines_imports : ReadsLines importLayout imports := by
  have htools : ReadsLines ["from crewai_tools import \x7b\x7btool_imports\x7d\x7d"]
      [text "from crewai_tools import ", shown "tool_imports", text "\n"] :=
    .line ((reads_text rfl rfl).append ((reads_shown (by decide)).append (reads_text rfl rfl))) rfl
  have hifTools : ReadsLines ["\x7b\x7b#if tool_imports\x7d\x7d",
      "from crewai_tools import \x7b\x7btool_imports\x7d\x7d", "\x7b\x7b/if\x7d\x7d"]
      [ifHolds "tool_imports"
        [text "from crewai_tools import ", shown "tool_imports", text "\n"] []] :=
    .block (reads_ifHolds (by decide) (by decide) htools (by decide)) rfl
  have hcustom : ReadsLines ["from langchain_core.tools import Tool"]
      [text "from langchain_core.tools import Tool\n"] := .line (reads_text rfl rfl) rfl
  have hifCustom : ReadsLines ["\x7b\x7b#if uses_custom_tool\x7d\x7d",
      "from langchain_core.tools import Tool", "\x7b\x7b/if\x7d\x7d"]
      [ifHolds "uses_custom_tool" [text "from langchain_core.tools import Tool\n"] []] :=
    .block (reads_ifHolds (by decide) (by decide) hcustom (by decide)) rfl
  have hlast : ReadsLines ["import os", ""] [text "import os\n\n"] := .plain rfl rfl rfl
  exact .cons (.line (reads_text rfl rfl) rfl) (hifTools.append (hifCustom.append hlast))

/-- The item at hand, whatever the helper. -/
theorem memberOf_this : memberOf ['t', 'h', 'i', 's'] = .path 0 [] := by decide

theorem readsLines_credentials : ReadsLines credentialLayout credentials := by
  have hheading : ReadsLines ["# Set API keys for LLMs"] [text "# Set API keys for LLMs\n"] :=
    .line (reads_text rfl rfl) rfl
  have hthis : Reads .fresh (braced ['t', 'h', 'i', 's']) [.value (.path 0 [])] .begun :=
    memberOf_this ▸ Reads.value (isTag_shown (by decide) (by decide) rfl)
  have hline : ReadsLines ["\x7b\x7bthis\x7d\x7d"] [.value (.path 0 []), text "\n"] :=
    .line (hthis.append (reads_text rfl rfl)) rfl
  have hlast : ReadsLines [""] [text "\n"] := .line (reads_text rfl rfl) rfl
  have heach : ReadsLines ["\x7b\x7b#each credentials\x7d\x7d", "\x7b\x7bthis\x7d\x7d",
      "\x7b\x7b/each\x7d\x7d"] [forEach "credentials" [.value (.path 0 []), text "\n"]] :=
    .block (reads_forEach (by decide) (by decide) hline (by decide)) rfl
  exact hheading.append (heach.append hlast)

/-- A line with one value in it, as a literal. -/
theorem readsLines_quoted {front name back line : List Char} (hname : IsMember name)
    (hfront : isPlainText front = true) (hback : isPlainText back = true)
    (hend : Line.after .begun back = .fresh)
    (hline : front ++ (braced ('p' :: 'y' :: ' ' :: name) ++ back) = line ++ ['\n']) :
    ReadsLines [String.ofList line]
      [text (String.ofList front), quoted (String.ofList name), text (String.ofList back)] :=
  .line ((reads_text hfront rfl).append ((reads_quoted hname).append (reads_text hback hend))) hline

/-- A keyword argument is such a line. -/
theorem readsLines_keywordLine {keyword name ending line : List Char} (hname : IsMember name)
    (hkeyword : isPlainText (List.replicate 8 ' ' ++ keyword ++ ['=']) = true)
    (hending : isPlainText (ending ++ ['\n']) = true)
    (hline : line = List.replicate 8 ' ' ++ keyword ++ '='
      :: (braced ('p' :: 'y' :: ' ' :: name) ++ ending)) :
    ReadsLines [String.ofList line]
      (keywordLine (String.ofList keyword) (String.ofList name) (String.ofList ending)) := by
  have hindent : "        " ++ String.ofList keyword ++ "="
      = String.ofList (List.replicate 8 ' ' ++ keyword ++ ['=']) := by
    rw [String.ofList_append, String.ofList_append]
    rfl
  have hbreak : String.ofList ending ++ "\n" = String.ofList (ending ++ ['\n']) := by
    rw [String.ofList_append]
  have hend : Line.after .begun (ending ++ ['\n']) = .fresh := by
    rw [Line.after, List.foldl_concat]
    rfl
  rw [keywordLine, hindent, hbreak]
  refine readsLines_quoted hname hkeyword hending hend ?_
  rw [hline]
  simp

theorem readsLines_libraryTool : ReadsLines libraryToolLayout libraryTool := by
  have hconfig : Reads .begun _ [text "**", quoted "config"] .begun :=
    (reads_text rfl rfl).append (reads_quoted (by decide))
  have hif : Reads .begun _ [ifHolds "has_config" [text "**", quoted "config"] []] .begun :=
    reads_ifHolds (by decide) (by decide) hconfig (by decide)
  exact .line ((reads_text rfl rfl).append ((reads_quoted (by decide)).append
    ((reads_text rfl rfl).append ((reads_shown (by decide)).append ((reads_text rfl rfl).append
    (hif.append (reads_text rfl rfl))))))) rfl

theorem readsLines_customTool : ReadsLines customToolLayout customTool := by
  -- The text after the settings goes on in the next line, so these two lines are read at once.
  have hconfig : ReadsLines ["        **\x7b\x7bpy config\x7d\x7d", "    ),"]
      [text "        **", quoted "config", text "\n    ),\n"] :=
    .of ((reads_text rfl rfl).append ((reads_quoted (by decide)).append (reads_text rfl rfl))) rfl
  simp only [customTool, List.append_assoc]
  exact .cons (readsLines_quoted (by decide) rfl rfl rfl rfl) <|
    .cons (readsLines_keywordLine (by decide) rfl rfl rfl) <|
    .cons (readsLines_keywordLine (by decide) rfl rfl rfl) <|
    .cons (readsLines_keywordLine (by decide) rfl rfl rfl) hconfig

theorem readsLines_skippedTool : ReadsLines skippedToolLayout skippedTool :=
  .line ((reads_text rfl rfl).append ((reads_quoted (by decide)).append
    ((reads_text rfl rfl).append ((reads_shown (by decide)).append (reads_text rfl rfl))))) rfl

theorem readsLines_otherTool :
    ReadsLines otherToolLayout [ifHolds "custom" customTool skippedTool] :=
  .divided (reads_ifElse (by decide) (by decide) readsLines_customTool (by decide)
    readsLines_skippedTool (by decide)) rfl

/-- How a tool is made decides between three forms, by one condition inside another. -/
theorem readsLines_toolEntry : ReadsLines toolEntryLayout
    [ifHolds "class" libraryTool [ifHolds "custom" customTool skippedTool]] :=
  .divided (reads_ifElse (by decide) (by decide) readsLines_libraryTool (by decide)
    readsLines_otherTool (by decide)) rfl

/-- A section that is a dictionary, from the layout of an entry. -/
theorem readsLines_dictionary {name front opening : List Char} {heading entry : List String}
    {ps : List Piece} (hname : IsMember name) (hheading : charsOf heading = front)
    (hfront : isPlainText front = true) (hend : Line.after .fresh front = .fresh)
    (hentry : ReadsLines entry ps)
    (hopening : opening = braced ('#' :: 'e' :: 'a' :: 'c' :: 'h' :: ' ' :: name)) :
    ReadsLines (heading ++ [String.ofList opening] ++ entry
        ++ ["\x7b\x7b/each\x7d\x7d", "\x7d", ""])
      [text (String.ofList front), forEach (String.ofList name) ps, text "\x7d\n\n"] := by
  have heach : ReadsLines (String.ofList opening :: (entry ++ ["\x7b\x7b/each\x7d\x7d"]))
      [forEach (String.ofList name) ps] :=
    .block (reads_forEach hname (by decide) hentry (by decide)) (by rw [hopening]; rfl)
  have hlast : ReadsLines ["\x7d", ""] [text "\x7d\n\n"] := .plain rfl rfl rfl
  have hlines := (ReadsLines.plain hheading hfront hend).append (heach.append hlast)
  simpa using hlines

theorem readsLines_tools : ReadsLines toolLayout tools :=
  readsLines_dictionary (by decide) rfl rfl rfl readsLines_toolEntry rfl

/-- The whole list is one line, so no tag of it takes a line with it. -/
theorem readsLines_toolList : ReadsLines [toolListLine] toolList := by
  have hcomma : Reads .begun _ [.cond (.ofLoop 0 "first") [] [text ", "]] .begun :=
    Reads.block (h := .cond true) (by decide) (by decide) rfl
      (isTag_opening (w := ['u', 'n', 'l', 'e', 's', 's']) (by decide)
        (isArgument_loop (w := ['f', 'i', 'r', 's', 't']) (by decide) (by decide)))
      (reads_text rfl rfl) (isTag_closing (w := ['u', 'n', 'l', 'e', 's', 's']) (by decide))
  have hthis : Reads .begun (braced ['p', 'y', ' ', 't', 'h', 'i', 's']) [.literal (.path 0 [])]
      .begun := memberOf_this ▸ Reads.literal (isTag_literal (isArgument_word (by decide)))
  have hloop : Reads .begun _ [forEach "tools" [.cond (.ofLoop 0 "first") [] [text ", "],
      text "tools[", .literal (.path 0 []), text "]"]] .begun :=
    reads_forEach (by decide) (by decide)
      (hcomma.append ((reads_text rfl rfl).append (hthis.append (reads_text rfl rfl)))) (by decide)
  exact .line ((reads_text rfl rfl).append (hloop.append (reads_text rfl rfl))) rfl

theorem readsLines_agents : ReadsLines agentLayout agents := by
  refine readsLines_dictionary (by decide) rfl rfl rfl ?_ rfl
  simp only [List.append_assoc]
  exact .cons (readsLines_quoted (by decide) rfl rfl rfl rfl) <|
    .cons (readsLines_keywordLine (by decide) rfl rfl rfl) <|
    .cons (readsLines_keywordLine (by decide) rfl rfl rfl) <|
    .cons (readsLines_keywordLine (by decide) rfl rfl rfl) <|
    .cons (readsLines_keywordLine (by decide) rfl rfl rfl) <|
    .cons (readsLines_keywordLine (by decide) rfl rfl rfl) <|
    .cons (readsLines_keywordLine (by decide) rfl rfl rfl) <|
    .cons readsLines_toolList (.line (reads_text rfl rfl) rfl)

theorem readsLines_taskAgent : ReadsLines [taskAgentLine] taskAgent := by
  have hyes : Reads .begun _ [text "agents[", quoted "agent", text "]"] .begun :=
    (reads_text rfl rfl).append ((reads_quoted (by decide)).append (reads_text rfl rfl))
  have hif : Reads .begun _ [ifHolds "agent" [text "agents[", quoted "agent", text "]"]
      [text "None"]] .begun :=
    reads_ifElse (by decide) (by decide) hyes (by decide) (reads_text rfl rfl) (by decide)
  exact .line ((reads_text rfl rfl).append (hif.append (reads_text rfl rfl))) rfl

theorem readsLines_tasks : ReadsLines taskLayout tasks := by
  refine readsLines_dictionary (by decide) rfl rfl rfl ?_ rfl
  simp only [List.append_assoc]
  exact .cons (readsLines_quoted (by decide) rfl rfl rfl rfl) <|
    .cons (readsLines_keywordLine (by decide) rfl rfl rfl) <|
    .cons (readsLines_keywordLine (by decide) rfl rfl rfl) <|
    .cons readsLines_taskAgent <|
    .cons (readsLines_keywordLine (by decide) rfl rfl rfl) <|
    .cons (readsLines_keywordLine (by decide) rfl rfl rfl) (.line (reads_text rfl rfl) rfl)

/-- Text that is spelled in two parts. -/
theorem reads_joined {l m : Line} {cs cs' : List Char} (h : isPlainText (cs ++ cs') = true)
    (hm : l.after (cs ++ cs') = m) :
    Reads l (cs ++ cs') [text (String.ofList cs ++ String.ofList cs')] m := by
  rw [← String.ofList_append]
  exact reads_text h hm

theorem readsLines_crew : ReadsLines crewLayout crew :=
  .of ((reads_joined rfl rfl).append ((reads_shown (by decide)).append ((reads_text rfl rfl).append
    ((reads_quoted (by decide)).append (reads_text rfl rfl))))) rfl

theorem readsLines_kickoff : ReadsLines kickoffLayout kickoff := .of (reads_joined rfl rfl) rfl

/-- **The text adds the layout.** -/
theorem readsLines_layout : ReadsLines layoutLines layout :=
  (((((readsLines_imports.append readsLines_credentials).append readsLines_tools).append
    readsLines_agents).append readsLines_tasks).append readsLines_crew).append readsLines_kickoff

/-- **The text can be registered**, and what comes out of it is what comes out of the layout. -/
theorem register_layout : ∃ r, Registry.register [] layoutName layoutText = .ok r ∧
    ∀ v s, r.render layoutName v = .ok s ↔ layout.render v = .ok s := by
  have hreads : Reads .fresh layoutText.toList layout .fresh := by
    rw [layoutText, toList_textOf]
    exact readsLines_layout
  obtain ⟨t, hparse, hsame⟩ := Template.exists_parse? hreads
  refine ⟨[(layoutName, t)], ?_, fun v s => ?_⟩
  · rw [Registry.register, hparse]
  · rw [Registry.render, List.lookup_cons_self]
    dsimp only
    rw [← hsame.render_eq_ok_iff]
    cases t.render v <;> simp [Except.mapError]

end CrewChart.Script

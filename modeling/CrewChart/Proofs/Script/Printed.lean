import CrewChart.Proofs.References
import CrewChart.Script.Generate

/-!
# The script, printed from its plan

The script is a template that is filled in.  This file says what comes out without one: the script
as a list of parts, each a stretch of code or a text between quotes.

The two agree, by one law for each kind of piece: a text is a part, a field is looked up in the item
at hand, a condition takes the branch the plan is for, and a loop goes through a list of the plan.

## What is here

* `Part`, `spell` — the parts of a script, and the script they spell.
* `scriptParts` — the parts of the script of a plan, section by section.
* `Renders` — a template, or a stretch of one, comes out as these parts.
* `ofPlan_eq` — the script of a plan is the one its parts spell.
* `generate_eq`, `generate_fails_only_by_integrity` — a chart generates the script of its plan, or
  fails as the check of its integrity does.
-/

set_option autoImplicit false

namespace CrewChart.Script

open Json (Value)
open Plan (ToolEntry AgentEntry TaskEntry Credential SkipReason)

/-! ## Parts -/

/-- A stretch of code, or a text between quotes. -/
inductive Part where
  | code (s : String)
  | quoted (s : String)
deriving DecidableEq

def Part.chars : Part → List Char
  | .code s => s.toList
  | .quoted s => Json.quotedChars s

/-- The text that parts make up. -/
def spell (parts : List Part) : List Char := parts.flatMap Part.chars

@[simp] theorem spell_nil : spell [] = [] := rfl

@[simp] theorem spell_cons (p : Part) (parts : List Part) :
    spell (p :: parts) = p.chars ++ spell parts := rfl

@[simp] theorem spell_append (parts parts' : List Part) :
    spell (parts ++ parts') = spell parts ++ spell parts' := List.flatMap_append

mutual

/-- The parts of a literal. -/
def literalParts : Value → List Part
  | .null => [.code "None"]
  | .boolean true => [.code "True"]
  | .boolean false => [.code "False"]
  | .number n => [.code n.text]
  | .string s => [.quoted s]
  | .array [] => [.code "[]"]
  | .array (v :: rest) => .code "[" :: literalParts v ++ itemParts rest ++ [.code "]"]
  | .object [] => [.code "\x7b\x7d"]
  | .object ((k, v) :: rest) =>
    .code "\x7b" :: .quoted k :: .code ": " :: literalParts v ++ memberParts rest
      ++ [.code "\x7d"]

def itemParts : List Value → List Part
  | [] => []
  | v :: rest => .code ", " :: literalParts v ++ itemParts rest

def memberParts : List (String × Value) → List Part
  | [] => []
  | (k, v) :: rest =>
    .code ", " :: .quoted k :: .code ": " :: literalParts v ++ memberParts rest

end

mutual

theorem spell_literalParts : ∀ v : Value, spell (literalParts v) = literalChars v
  | .null | .boolean true | .boolean false | .array [] | .object [] => rfl
  | .number n => by simp [literalParts, literalChars, Part.chars]
  | .string s => by simp [literalParts, literalChars, Part.chars]
  | .array (v :: rest) => by
    simp [literalParts, literalChars, Part.chars, spell_literalParts v, spell_itemParts rest]
  | .object ((k, v) :: rest) => by
    simp [literalParts, literalChars, Part.chars, spell_literalParts v, spell_memberParts rest]

theorem spell_itemParts : ∀ items : List Value, spell (itemParts items) = literalItems items
  | [] => rfl
  | v :: rest => by
    simp [itemParts, literalItems, Part.chars, spell_literalParts v, spell_itemParts rest]

theorem spell_memberParts :
    ∀ members : List (String × Value), spell (memberParts members) = literalMembers members
  | [] => rfl
  | (k, v) :: rest => by
    simp [memberParts, literalMembers, Part.chars, spell_literalParts v, spell_memberParts rest]

end

/-! ## The parts of a script -/

/-- One keyword argument on a line of its own. -/
def keywordParts (keyword : String) (v : Value) (ending : String) : List Part :=
  .code ("        " ++ keyword ++ "=") :: literalParts v ++ [.code (ending ++ "\n")]

def importParts (p : Plan) : List Part :=
  .code "from crewai import Agent, Task, Crew, Process\n"
    :: ((if p.imports = [] then [] else
        [.code "from crewai_tools import ", .code p.importText, .code "\n"])
      ++ ((if p.usesCustomTool then [.code "from langchain_core.tools import Tool\n"] else [])
      ++ [.code "import os\n\n"]))

def credentialParts (c : Credential) : List Part :=
  [.code "os.environ[", .quoted c.keyVariable, .code "] = ", .quoted c.key, .code "\n"]

def reasonParts : SkipReason → List Part
  | .noType => [.code "no tool type"]
  | .unsupported toolType => [.code "unsupported tool type ", .quoted toolType]

def toolParts (t : ToolEntry) : List Part :=
  match t.making with
  | .library className =>
    [.code "    ", .quoted t.id, .code ": ", .code className, .code "("]
      ++ (if t.configuration = [] then [] else
        .code "**" :: literalParts (.object t.configuration))
      ++ [.code "),\n"]
  | .custom =>
    [.code "    ", .quoted t.id, .code ": Tool(\n"]
      ++ keywordParts "name" (.string t.name) ","
      ++ keywordParts "description" (.string t.description) ","
      ++ keywordParts "return_direct" (.boolean t.returnDirect) ","
      ++ (.code "        **" :: literalParts (.object t.configuration) ++ [.code "\n    ),\n"])
  | .skipped reason =>
    [.code "    # tool ", .quoted t.id, .code " skipped: "] ++ reasonParts reason ++ [.code "\n"]

/-- A tool an agent uses, taken from the dictionary of tools. -/
def usedParts (key : String) : List Part := [.code "tools[", .quoted key, .code "]"]

/-- The tools an agent uses, set apart by commas. -/
def toolListParts : List String → List Part
  | [] => []
  | key :: rest => usedParts key ++ rest.flatMap fun key => .code ", " :: usedParts key

def agentParts (a : AgentEntry) : List Part :=
  [.code "    ", .quoted a.id, .code ": Agent(\n"]
    ++ keywordParts "role" (.string a.role) "," ++ keywordParts "goal" (.string a.goal) ","
    ++ keywordParts "backstory" (.string a.backstory) ","
    ++ keywordParts "allow_delegation" (.boolean a.allowDelegation) ","
    ++ keywordParts "memory" a.memory "," ++ keywordParts "llm" (.string a.model) ","
    ++ (.code "        tools=[" :: toolListParts a.tools ++ [.code "]\n"])
    ++ [.code "    ),\n"]

/-- The agent of a task.  An agent without an id counts as none. -/
def taskAgentParts (agent : Option String) : List Part :=
  match filled agent with
  | some key => [.code "agents[", .quoted key, .code "]"]
  | none => [.code "None"]

def taskParts (t : TaskEntry) : List Part :=
  [.code "    ", .quoted t.id, .code ": Task(\n"]
    ++ keywordParts "description" (.string t.description) ","
    ++ keywordParts "expected_output" (.string t.expectedOutput) ","
    ++ (.code "        agent=" :: taskAgentParts t.agent ++ [.code ",\n"])
    ++ keywordParts "context" (.string t.context) ","
    ++ keywordParts "priority" (.string t.priority) "" ++ [.code "    ),\n"]

def crewParts (p : Plan) : List Part :=
  [.code ("# Create crew\ncrew = Crew(\n    agents=list(agents.values()),\n"
      ++ "    tasks=list(tasks.values()),\n    process=Process."),
    .code p.process.name, .code ",\n    manager_llm=", .quoted p.managerModel, .code "\n)\n\n"]

def kickoffParts : List Part :=
  [.code "# Execute the crew\nresult = crew.kickoff()\n",
    .code "print(", .quoted "\nCrew Execution Result:\n", .code ", result)\n"]

/-- A section of the script: its heading, its entries, and what it ends with. -/
def sectionParts {α : Type} (heading : String) (parts : α → List Part) (entries : List α)
    (ending : String) : List Part :=
  .code heading :: entries.flatMap parts ++ [.code ending]

def credentialSection (p : Plan) : List Part :=
  sectionParts "# Set API keys for LLMs\n" credentialParts p.credentials "\n"

def toolSection (p : Plan) : List Part :=
  sectionParts "# Initialize tools\ntools = \x7b\n" toolParts p.tools "\x7d\n\n"

def agentSection (p : Plan) : List Part :=
  sectionParts "# Create agents\nagents = \x7b\n" agentParts p.agents "\x7d\n\n"

def taskSection (p : Plan) : List Part :=
  sectionParts "# Define tasks\ntasks = \x7b\n" taskParts p.tasks "\x7d\n\n"

/-- The script of a plan. -/
def scriptParts (p : Plan) : List Part :=
  importParts p ++ credentialSection p ++ toolSection p ++ agentSection p ++ taskSection p
    ++ crewParts p ++ kickoffParts

/-! ## What a template comes out as -/

section Renders

open Template (Scope Level Piece Argument Failure renderAll renderPiece concatM levelsOf holds)

/-- A stretch of a template comes out as these parts. -/
def Renders (s : Scope) (pieces : List Piece) (parts : List Part) : Prop :=
  renderAll s pieces = .ok (spell parts)

variable {s : Scope} {pieces rest : List Piece} {parts more : List Part} {name : String}

theorem renderAll_cons_iff {p : Piece} {x : List Char} : renderAll s (p :: rest) = .ok x ↔
    ∃ t u, renderPiece s p = .ok t ∧ renderAll s rest = .ok u ∧ t ++ u = x := by
  rw [Template.renderAll_cons]
  cases renderPiece s p with
  | error e => simp
  | ok t => cases renderAll s rest <;> simp

theorem Renders.nil : Renders s [] [] := rfl

theorem Renders.cons {p : Piece} (hp : renderPiece s p = .ok (spell parts))
    (h : Renders s rest more) : Renders s (p :: rest) (parts ++ more) :=
  renderAll_cons_iff.2 ⟨_, _, hp, h, (spell_append parts more).symm⟩

theorem renderAll_append {x y : List Char} (hx : renderAll s pieces = .ok x)
    (hy : renderAll s rest = .ok y) : renderAll s (pieces ++ rest) = .ok (x ++ y) := by
  induction pieces generalizing x with
  | nil =>
    cases hx
    exact hy
  | cons p pieces ih =>
    obtain ⟨t, u, ht, hu, rfl⟩ := renderAll_cons_iff.1 hx
    exact renderAll_cons_iff.2 ⟨t, u ++ y, ht, ih hu, (List.append_assoc ..).symm⟩

theorem Renders.append (hpieces : Renders s pieces parts) (h : Renders s rest more) :
    Renders s (pieces ++ rest) (parts ++ more) := by
  rw [Renders, spell_append]
  exact renderAll_append hpieces h

theorem Renders.text (t : String) (h : Renders s rest more) :
    Renders s (Script.text t :: rest) (.code t :: more) := by
  have ht : renderPiece s (Script.text t) = .ok (spell [.code t]) := by
    rw [Script.text, Template.renderPiece_text, spell_cons, spell_nil, List.append_nil, Part.chars]
  exact Renders.cons ht h

/-- What is given as an argument is looked up once. -/
theorem value_of_look {arg : Argument} {v : Option Value} (h : s.look arg = .ok v) :
    s.value arg = .ok v := by
  rw [Scope.value, h, Except.mapError]

/-- The literal of what is looked up, whatever it is. -/
theorem Renders.literal {arg : Argument} {v : Value} (hv : s.look arg = .ok (some v))
    (h : Renders s rest more) : Renders s (.literal arg :: rest) (literalParts v ++ more) := by
  refine Renders.cons ?_ h
  rw [Template.renderPiece_literal, value_of_look hv, spell_literalParts]
  rfl

/-- A text is shown as it is, in whatever parts it is spelled. -/
theorem Renders.value {arg : Argument} {t : String} (ht : s.look arg = .ok (some (.string t)))
    (hparts : spell parts = t.toList) (h : Renders s rest more) :
    Renders s (.value arg :: rest) (parts ++ more) := by
  refine Renders.cons ?_ h
  rw [Template.renderPiece_value, value_of_look ht, hparts]
  rfl

/-- A text is shown without quotes, -/
theorem Renders.shown {arg : Argument} {t : String} (ht : s.look arg = .ok (some (.string t)))
    (h : Renders s rest more) : Renders s (.value arg :: rest) (.code t :: more) := by
  have hspell : spell [.code t] = t.toList := List.append_nil _
  exact Renders.value ht hspell h

/-- and its literal is the text between quotes. -/
theorem Renders.quoted {arg : Argument} {t : String} (ht : s.look arg = .ok (some (.string t)))
    (h : Renders s rest more) : Renders s (.literal arg :: rest) (.quoted t :: more) :=
  Renders.literal ht h

/-- A condition takes one of its branches. -/
theorem Renders.cond {arg : Argument} {v : Option Value} {yes no : List Piece}
    (hv : s.look arg = .ok v) (hbranch : Renders s (if holds v then yes else no) parts)
    (h : Renders s rest more) : Renders s (.cond arg yes no :: rest) (parts ++ more) := by
  refine Renders.cons ?_ h
  rw [Template.renderPiece_cond, value_of_look hv, ← hbranch]
  exact (apply_ite (renderAll s) ..).symm

theorem concatM_map_eq_ok {α β : Type} {f : α → Except Failure (List Char)} {item : β → α}
    {out : β → List Part} {l : List β} (h : ∀ b ∈ l, f (item b) = .ok (spell (out b))) :
    concatM f (l.map item) = .ok (spell (l.flatMap out)) := by
  induction l with
  | nil => rfl
  | cons b l ih =>
    obtain ⟨hb, hl⟩ := List.forall_mem_cons.1 h
    rw [List.map_cons, concatM, hb, ih hl, List.flatMap_cons, spell_append]

/-- The level of the item at this place. -/
def levelAt (count : Nat) (item : Value) (i : Nat) : Level :=
  ⟨item, [("first", .boolean (i == 0)), ("last", .boolean (i + 1 == count)), ("index", .ofNat i)]⟩

theorem levelsOf_array (items : List Value) :
    levelsOf (some (.array items)) = items.zipIdx.map fun x => levelAt items.length x.1 x.2 := rfl

theorem renderPiece_each {arg : Argument} {v : Option Value} {body : List Piece}
    (hv : s.look arg = .ok v) : renderPiece s (.each arg body [])
      = concatM (fun level => renderAll (s.enter level) body) (levelsOf v) := by
  rw [Template.renderPiece_each, value_of_look hv]
  dsimp only
  split
  · rename_i hl
    rw [hl]
    rfl
  · rename_i hl
    rw [hl]

/-- **A loop goes through the items of its list.** -/
theorem Renders.each {α : Type} {arg : Argument} {items : List α} {value : α → Value}
    {body : List Piece} (out : α → Nat → List Part)
    (hitems : s.look arg = .ok (some (.array (items.map value))))
    (hbody : ∀ a ∈ items, ∀ i, Renders (s.enter (levelAt items.length (value a) i)) body (out a i))
    (h : Renders s rest more) :
    Renders s (.each arg body [] :: rest)
      (items.zipIdx.flatMap (fun x => out x.1 x.2) ++ more) := by
  refine Renders.cons ?_ h
  rw [renderPiece_each hitems, levelsOf_array, List.length_map, List.zipIdx_map, List.map_map]
  exact concatM_map_eq_ok fun x hx => hbody x.1 (List.fst_mem_of_mem_zipIdx hx) x.2

/-- A loop whose body does not ask where in the list it is. -/
theorem Renders.forEach {α : Type} {arg : Argument} {items : List α} {value : α → Value}
    {body : List Piece} {out : α → List Part}
    (hitems : s.look arg = .ok (some (.array (items.map value))))
    (hbody : ∀ a ∈ items, ∀ i, Renders (s.enter (levelAt items.length (value a) i)) body (out a))
    (h : Renders s rest more) :
    Renders s (.each arg body [] :: rest) (items.flatMap out ++ more) := by
  have heach := Renders.each (fun a _ => out a) hitems hbody h
  have hfst : items.zipIdx.flatMap (fun x => out x.1) = items.flatMap out := by
    conv_rhs => rw [← List.zipIdx_map_fst 0 items, List.flatMap_map]
  rw [hfst] at heach
  exact heach

end Renders

/-! ## The script of a plan -/

section Plan

open Template (Scope Level Piece renderAll)

/-- A plan as charts are resolved to: what is shown without quotes has the form of names. -/
structure Printable (p : Plan) : Prop where
  /-- The imports are the classes of the tools. -/
  imports : p.imports = Plan.importsOf p.tools
  className : ∀ t ∈ p.tools, ∀ name, t.making.class? = some name → isName name = true
  keyVariable : ∀ c ∈ p.credentials, ∀ ch ∈ c.keyVariable.toList, isNamePart ch = true

variable {s : Scope}

/-- A field is looked up among the members of the item at hand. -/
theorem look_field {members : List (String × Value)} (hitem : s.here.item = .object members)
    (name : String) : s.look (field name) = .ok (members.lookup name) := by
  show Template.descend (some s.here.item) [name] = _
  rw [hitem]
  rfl

theorem renders_keywordLine {name : String} {v : Value} (keyword ending : String)
    (hv : s.look (field name) = .ok (some v)) :
    Renders s (keywordLine keyword name ending) (keywordParts keyword v ending) :=
  .text _ (.literal hv (.text _ .nil))

theorem renders_libraryTool {t : ToolEntry} {className : String} (hitem : s.here.item = t.toValue)
    (hmaking : t.making = .library className) : Renders s libraryTool (toolParts t) := by
  have hlook := look_field hitem
  have hclass : s.look (field "class") = .ok (some (.string className)) := by
    refine (hlook "class").trans ?_
    show Except.ok (some (Plan.orNull t.making.class?)) = _
    rw [hmaking]
    rfl
  rw [toolParts, hmaking]
  refine .text _ (.quoted (hlook "id") (.text _ (.shown hclass (.text _ ?_))))
  refine .cond (hlook "has_config") ?_ (.text _ .nil)
  show Renders s (if !t.configuration.isEmpty then _ else _) _
  by_cases hnone : t.configuration = []
  · rw [if_pos hnone, if_neg (by simp [hnone])]
    exact .nil
  · have hsome : Renders s [text "**", Script.quoted "config"] _ :=
      .text _ (.literal (hlook "config") .nil)
    rw [if_neg hnone, if_pos (by simpa using hnone)]
    rwa [List.append_nil] at hsome

theorem renders_customTool {t : ToolEntry} (hitem : s.here.item = t.toValue)
    (hmaking : t.making = .custom) : Renders s customTool (toolParts t) := by
  have hlook := look_field hitem
  have hid : Renders s [text "    ", Script.quoted "id", text ": Tool(\n"] _ :=
    .text _ (.quoted (hlook "id") (.text _ .nil))
  have hconfiguration :
      Renders s [text "        **", Script.quoted "config", text "\n    ),\n"] _ :=
    .text _ (.literal (hlook "config") (.text _ .nil))
  rw [toolParts, hmaking]
  exact (((hid.append (renders_keywordLine _ _ (hlook "name"))).append
    (renders_keywordLine _ _ (hlook "description"))).append
    (renders_keywordLine _ _ (hlook "return_direct"))).append hconfiguration

/-- The reason is a text of the plan that is shown as it is; what it quotes is quoted. -/
theorem spell_reasonParts (reason : SkipReason) :
    spell (reasonParts reason) = reason.message.toList := by
  cases reason with
  | noType => rfl
  | unsupported toolType =>
    show "unsupported tool type ".toList ++ (Json.quotedChars toolType ++ [])
      = ("unsupported tool type " ++ Json.quoted toolType).toList
    rw [List.append_nil, String.toList_append]
    exact congrArg _ String.toList_ofList.symm

theorem renders_skippedTool {t : ToolEntry} {reason : SkipReason} (hitem : s.here.item = t.toValue)
    (hmaking : t.making = .skipped reason) : Renders s skippedTool (toolParts t) := by
  have hlook := look_field hitem
  have hreason : s.look (field "reason") = .ok (some (.string reason.message)) := by
    refine (hlook "reason").trans ?_
    show Except.ok (some (Plan.orNull (t.making.reason?.map SkipReason.message))) = _
    rw [hmaking]
    rfl
  rw [toolParts, hmaking]
  refine .text _ (.quoted (hlook "id") (.text _ ?_))
  exact .value hreason (spell_reasonParts reason) (.text _ .nil)

/-- A tool takes the branch for how it is made. -/
theorem renders_tool {t : ToolEntry} (hitem : s.here.item = t.toValue)
    (hclass : ∀ name, t.making.class? = some name → name ≠ "") :
    Renders s [ifHolds "class" libraryTool [ifHolds "custom" customTool skippedTool]]
      (toolParts t) := by
  have hclass? : s.look (field "class") = .ok (some (Plan.orNull t.making.class?)) :=
    look_field hitem "class"
  have hcustom : s.look (field "custom") = .ok (some (.boolean t.making.isCustom)) :=
    look_field hitem "custom"
  rw [← List.append_nil (toolParts t)]
  refine .cond hclass? ?_ .nil
  cases hmaking : t.making with
  | library className =>
    have hne : className ≠ "" := hclass className (by rw [hmaking]; rfl)
    rw [if_pos (by simpa [Plan.Making.class?, Plan.orNull, Template.holds] using hne)]
    exact renders_libraryTool hitem hmaking
  | custom =>
    rw [hmaking] at hcustom
    rw [← List.append_nil (toolParts t)]
    exact .cond hcustom (renders_customTool hitem hmaking) .nil
  | skipped reason =>
    rw [hmaking] at hcustom
    rw [← List.append_nil (toolParts t)]
    exact .cond hcustom (renders_skippedTool hitem hmaking) .nil

/-- A tool an agent uses, with a comma in front unless it is the first. -/
def listedParts (key : String) (i : Nat) : List Part :=
  (if i = 0 then [] else [.code ", "]) ++ usedParts key

/-- Only the first tool has no comma in front. -/
theorem flatMap_listedParts (keys : List String) :
    keys.zipIdx.flatMap (fun x => listedParts x.1 x.2) = toolListParts keys := by
  cases keys with
  | nil => rfl
  | cons key keys =>
    have hrest : ∀ n, 0 < n → (keys.zipIdx n).flatMap (fun x => listedParts x.1 x.2)
        = keys.flatMap fun key => .code ", " :: usedParts key := by
      intro n hn
      induction keys generalizing n with
      | nil => rfl
      | cons key keys ih =>
        rw [List.zipIdx_cons, List.flatMap_cons, List.flatMap_cons, ih (n + 1) n.succ_pos,
          listedParts, if_neg hn.ne']
        rfl
    rw [List.zipIdx_cons, List.flatMap_cons, hrest 1 Nat.one_pos]
    rfl

/-- The tools of an agent are a list of its own, inside the list of agents. -/
theorem renders_toolList {keys : List String} {members : List (String × Value)}
    (hitem : s.here.item = .object members)
    (hkeys : members.lookup "tools" = some (.array (keys.map .string))) :
    Renders s toolList (.code "        tools=[" :: toolListParts keys ++ [.code "]\n"]) := by
  refine .text _ ?_
  rw [← flatMap_listedParts]
  refine .each _ ((look_field hitem "tools").trans (congrArg _ hkeys)) (fun key _ i => ?_)
    (.text _ .nil)
  have hfirst : (s.enter (levelAt keys.length (.string key) i)).look (.ofLoop 0 "first")
      = .ok (some (.boolean (i == 0))) := rfl
  refine .cond hfirst ?_ (.text _ (.quoted rfl (.text _ .nil)))
  show Renders _ (if (i == 0) = true then [] else [text ", "]) _
  by_cases hi : i = 0
  · rw [if_pos (beq_iff_eq.2 hi), if_pos hi]
    exact .nil
  · rw [if_neg (mt beq_iff_eq.1 hi), if_neg hi]
    exact .text _ .nil

theorem renders_agent {a : AgentEntry} (hitem : s.here.item = a.toValue) :
    Renders s ([text "    ", quoted "id", text ": Agent(\n"]
      ++ keywordLine "role" "role" "," ++ keywordLine "goal" "goal" ","
      ++ keywordLine "backstory" "backstory" ","
      ++ keywordLine "allow_delegation" "allow_delegation" ","
      ++ keywordLine "memory" "memory" "," ++ keywordLine "llm" "llm" ","
      ++ toolList ++ [text "    ),\n"]) (agentParts a) := by
  have hlook := look_field hitem
  have hid : Renders s [text "    ", Script.quoted "id", text ": Agent(\n"] _ :=
    .text _ (.quoted (hlook "id") (.text _ .nil))
  exact (((((((hid.append (renders_keywordLine _ _ (hlook "role"))).append
    (renders_keywordLine _ _ (hlook "goal"))).append
    (renders_keywordLine _ _ (hlook "backstory"))).append
    (renders_keywordLine _ _ (hlook "allow_delegation"))).append
    (renders_keywordLine _ _ (hlook "memory"))).append
    (renders_keywordLine _ _ (hlook "llm"))).append
    (renders_toolList hitem rfl)).append (.text _ .nil)

theorem renders_taskAgent {t : TaskEntry} (hitem : s.here.item = t.toValue) :
    Renders s taskAgent (.code "        agent=" :: taskAgentParts t.agent ++ [.code ",\n"]) := by
  have hagent : s.look (field "agent") = .ok (some (Plan.orNull t.agent)) :=
    look_field hitem "agent"
  refine .text _ (.cond hagent ?_ (.text _ .nil))
  rw [taskAgentParts]
  cases hfilled : filled t.agent with
  | none =>
    have hnot : Template.holds (some (Plan.orNull t.agent)) = false := by
      rcases (filled_eq_none_iff _).1 hfilled with h | h <;> rw [h] <;> rfl
    rw [hnot]
    exact .text _ .nil
  | some key =>
    obtain ⟨hkey, hne⟩ := (filled_eq_some_iff _ _).1 hfilled
    have hholds : Template.holds (some (Plan.orNull t.agent)) = true := by
      rw [hkey]
      exact bne_iff_ne.2 hne
    rw [hholds]
    rw [hkey] at hagent
    exact .text _ (.quoted hagent (.text _ .nil))

theorem renders_task {t : TaskEntry} (hitem : s.here.item = t.toValue) :
    Renders s ([text "    ", Script.quoted "id", text ": Task(\n"]
      ++ keywordLine "description" "description" ","
      ++ keywordLine "expected_output" "expected_output" ","
      ++ taskAgent ++ keywordLine "context" "context" "," ++ keywordLine "priority" "priority" ""
      ++ [text "    ),\n"]) (taskParts t) := by
  have hlook := look_field hitem
  have hid : Renders s [text "    ", Script.quoted "id", text ": Task(\n"] _ :=
    .text _ (.quoted (hlook "id") (.text _ .nil))
  exact (((((hid.append (renders_keywordLine _ _ (hlook "description"))).append
    (renders_keywordLine _ _ (hlook "expected_output"))).append
    (renders_taskAgent hitem)).append
    (renders_keywordLine _ _ (hlook "context"))).append
    (renders_keywordLine _ _ (hlook "priority"))).append (.text _ .nil)

/-- A section goes through a list of the plan. -/
theorem renders_section {α : Type} {name : String} {items : List α} {value : α → Value}
    {body : List Piece} {parts : α → List Part} (heading ending : String)
    (hitems : s.look (field name) = .ok (some (.array (items.map value))))
    (hbody : ∀ a ∈ items, ∀ s' : Scope, s'.here.item = value a → Renders s' body (parts a)) :
    Renders s [text heading, forEach name body, text ending]
      (sectionParts heading parts items ending) := by
  have heach : Renders s [text heading, forEach name body, text ending] _ :=
    .text _ (.forEach hitems (fun a ha i => hbody a ha _ rfl) (.text _ .nil))
  exact heach

/-! ### What is shown without quotes -/

theorem toNat_of_isNamePart {c : Char} (h : isNamePart c = true) :
    0x30 ≤ c.toNat ∧ c.toNat ≠ 0x5c := by
  simp only [isNamePart, isNameStart, Bool.or_eq_true, Bool.and_eq_true, decide_eq_true_eq,
    beq_iff_eq, Char.le_def, UInt32.le_iff_toNat_le, ← Char.toNat_val] at h ⊢
  rcases h with ((⟨hA, hZ⟩ | ⟨ha, -⟩) | rfl) | ⟨h0, h9⟩
  · change 0x41 ≤ _ at hA
    change _ ≤ 0x5a at hZ
    omega
  · change 0x61 ≤ _ at ha
    omega
  · decide
  · change 0x30 ≤ _ at h0
    change _ ≤ 0x39 at h9
    omega

theorem escape_of_isNamePart {c : Char} (h : isNamePart c = true) : Json.escape c = [c] := by
  obtain ⟨hle, hslash⟩ := toNat_of_isNamePart h
  have hne : ∀ d : Char, d.toNat < 0x30 ∨ d.toNat = 0x5c → c ≠ d := by
    rintro d hd rfl
    omega
  rw [Json.escape, if_neg (hne _ (by decide)), if_neg (hne _ (by decide)),
    if_neg (hne _ (by decide)), if_neg (hne _ (by decide)), if_neg (hne _ (by decide)),
    if_neg (hne _ (by decide)), if_neg (hne _ (by decide)), if_neg (by omega)]

/-- A name needs no escapes. -/
theorem quotedChars_of_isNamePart {name : String} (h : ∀ c ∈ name.toList, isNamePart c = true) :
    Json.quotedChars name = '"' :: name.toList ++ ['"'] := by
  rw [Json.quotedChars, List.flatMap_congr fun c hc => escape_of_isNamePart (h c hc),
    List.flatMap_singleton']

/-- The line of a credential is a text of the plan that is shown without quotes; it is code and two
texts between quotes all the same. -/
theorem spell_credential {c : Credential}
    (hvariable : ∀ ch ∈ c.keyVariable.toList, isNamePart ch = true) :
    spell [.code "os.environ[", .quoted c.keyVariable, .code "] = ", .quoted c.key]
      = c.line.toList := by
  show _ = ("os.environ[\"" ++ c.keyVariable ++ "\"] = " ++ Json.quoted c.key).toList
  simp only [spell_cons, spell_nil, Part.chars, quotedChars_of_isNamePart hvariable, Json.quoted,
    String.toList_append, String.toList_ofList, List.append_assoc, List.append_nil]
  rfl

theorem renders_credential {c : Credential} (hitem : s.here.item = .string c.line)
    (hvariable : ∀ ch ∈ c.keyVariable.toList, isNamePart ch = true) :
    Renders s [.value (.path 0 []), text "\n"] (credentialParts c) := by
  have hline : s.look (.path 0 []) = .ok (some (.string c.line)) := by
    rw [← hitem]
    rfl
  exact .value hline (spell_credential hvariable) (.text _ .nil)

variable {p : Plan}

/-- There is a line of imports if there are any. -/
theorem Printable.importText_eq_empty_iff (hp : Printable p) :
    p.importText = "" ↔ p.imports = [] := by
  refine Plan.intercalate_eq_empty_iff fun name hname => ?_
  rw [hp.imports] at hname
  obtain ⟨t, ht, hclass⟩ := Plan.mem_importsOf_iff.1 hname
  exact Plan.notMem_comma_of_isName (hp.className t ht name hclass)

theorem renders_imports (hp : Printable p) (hitem : s.here.item = p.toValue) :
    Renders s imports (importParts p) := by
  have hlook := look_field hitem
  refine .text _ (.cond (hlook "tool_imports") ?_ (.cond (hlook "uses_custom_tool") ?_
    (.text _ .nil)))
  · show Renders s (if (p.importText != "") = true then _ else _) _
    by_cases hnone : p.imports = []
    · rw [hp.importText_eq_empty_iff.2 hnone, if_pos hnone]
      exact .nil
    · rw [if_pos (bne_iff_ne.2 (mt hp.importText_eq_empty_iff.1 hnone)), if_neg hnone]
      exact .text _ (.shown (hlook "tool_imports") (.text _ .nil))
  · show Renders s (if p.usesCustomTool = true then _ else _) _
    split_ifs
    · exact .text _ .nil
    · exact .nil

theorem renders_crew (hitem : s.here.item = p.toValue) : Renders s crew (crewParts p) := by
  have hlook := look_field hitem
  exact .text _ (.shown (hlook "process") (.text _ (.quoted (hlook "manager_llm")
    (.text _ .nil))))

theorem renders_kickoff : Renders s kickoff kickoffParts := by
  rw [← List.append_nil kickoffParts]
  refine Renders.cons ?_ .nil
  rw [text, Template.renderPiece_text, String.toList_append]
  rfl

theorem renders_layout (hp : Printable p) (hitem : s.here.item = p.toValue) :
    Renders s layout (scriptParts p) := by
  have hlook := look_field hitem
  have hcredentials : Renders s credentials (credentialSection p) :=
    renders_section _ _ (hlook "credentials") fun c hc s' hs =>
      renders_credential hs (hp.keyVariable c hc)
  have htools : Renders s tools (toolSection p) :=
    renders_section _ _ (hlook "tools") fun t ht s' hs => renders_tool hs fun name h =>
      (Plan.notMem_comma_of_isName (hp.className t ht name h)).1
  have hagents : Renders s agents (agentSection p) :=
    renders_section _ _ (hlook "agents") fun a _ s' hs => renders_agent hs
  have htasks : Renders s tasks (taskSection p) :=
    renders_section _ _ (hlook "tasks") fun t _ s' hs => renders_task hs
  exact ((((((renders_imports hp hitem).append hcredentials).append htools).append hagents).append
    htasks).append (renders_crew hitem)).append renders_kickoff

/-- **The script of a plan is the one its parts spell.** -/
theorem ofPlan_eq (hp : Printable p) : ofPlan p = .ok (String.ofList (spell (scriptParts p))) := by
  have hlayout : Template.renderAll ⟨{ item := p.toValue }, []⟩ layout
      = .ok (spell (scriptParts p)) := renders_layout hp rfl
  rw [ofPlan, Template.render, hlayout]
  rfl

theorem isNamePart_keyVariable (provider : Provider) :
    ∀ c ∈ provider.keyVariable.toList, isNamePart c = true := by
  rw [← List.all_eq_true]
  cases provider <;> rfl

/-- Every credential is of some provider. -/
theorem exists_provider (selected : Option String) (key : String) :
    ∃ provider : Provider, (Plan.credential selected key).keyVariable = provider.keyVariable := by
  rw [Plan.credential]
  dsimp only
  split
  · exact ⟨_, rfl⟩
  · split <;> exact ⟨_, rfl⟩

theorem exists_provider_of_credential? {selected key : Option String} {c : Credential}
    (h : Plan.credential? selected key = some c) :
    ∃ provider : Provider, c.keyVariable = provider.keyVariable := by
  obtain ⟨key, -, rfl⟩ := Option.map_eq_some_iff.1 h
  exact exists_provider selected key

/-- Charts are resolved to plans that can be printed. -/
theorem printable_resolve (g : Graph) (model : String) : Printable (Plan.resolve g model) where
  imports := rfl
  className _ ht _ := Plan.isName_of_mem_tools g model ht
  keyVariable c hc := by
    have hprovider : ∃ provider : Provider, c.keyVariable = provider.keyVariable := by
      rcases List.mem_append.1 (List.mem_eraseDups.1 hc) with hc | hc
      · obtain ⟨n, -, hn⟩ := List.mem_filterMap.1 hc
        obtain ⟨agent, -, hagent⟩ := Option.bind_eq_some_iff.1 hn
        exact exists_provider_of_credential? hagent
      · exact exists_provider_of_credential? (Option.mem_toList.1 hc)
    obtain ⟨provider, hc⟩ := hprovider
    rw [hc]
    exact isNamePart_keyVariable provider

/-- **What a chart generates**: the script its plan spells, if the chart has integrity. -/
theorem generate_eq {g : Graph} (h : g.checkIntegrity = .ok ()) (model : String) :
    generate g model = .ok (String.ofList (spell (scriptParts (Plan.resolve g model)))) := by
  rw [generate, h]
  exact ofPlan_eq (printable_resolve g model)

/-- **Only a fault of integrity keeps a chart from its script**, and then it is the fault that is
told.  A chart with integrity generates a script however little was filled in, and whatever was. -/
theorem generate_fails_only_by_integrity (g : Graph) (model : String) :
    (∀ f, generate g model = .error f ↔ g.checkIntegrity = .error f) ∧
      ((∃ script, generate g model = .ok script) ↔ g.checkIntegrity = .ok ()) := by
  cases h : g.checkIntegrity with
  | ok =>
    have hscript := generate_eq h model
    exact ⟨fun f => by rw [hscript]; simp, iff_of_true ⟨_, hscript⟩ rfl⟩
  | error fault =>
    have hfault : generate g model = .error fault := by rw [generate, h]; rfl
    exact ⟨fun f => by rw [hfault, Except.error.injEq, Except.error.injEq], by rw [hfault]; simp⟩

end Plan

end CrewChart.Script

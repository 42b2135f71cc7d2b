import CrewChart.Graph.Store
import CrewChart.Proofs.Graph.Members
import CrewChart.Proofs.Json.Compact
import CrewChart.Proofs.Json.NumberText
import CrewChart.Proofs.Script.Listing

/-!
# The memory of an agent in the script

What is entered as the memory of an agent may be a number.  On its way from the document to the
script it goes through four forms: it is a number of the document, the text that stands for it, the
number that is read from this text, and the literal of that number.

The forms do not have the same range.  A document has the integers of 64 bits, signed or unsigned,
and their texts have all their digits; but what is read from a text as an integer is an integer of a
signed word, and any other number is a binary64 number.  So the larger half of the unsigned words
comes out rounded, and in the form of a binary64 number even where it is not rounded.

## What is here

* `retyped`, `memoryValue_toString` — the number that is read from the digits of an integer.
* `text_retyped_iff` — it has the same text exactly if it is an integer still.
* `memory_of_ofValue` — the memory of an agent is the text of the value in its sheet.
* `IsAgentBlock`, `memory_mem_agentLines_iff` — the line of the memory in the block of an agent.
* `generate_prints_memory` — what the script has for an integer in the document.
-/

set_option autoImplicit false

namespace CrewChart

open Json (Value Number FitsWord Reader)

/-! ## Integers that are typed in -/

namespace Plan

/-- The number that is read from the digits of an integer. -/
def retyped (n : Int) (fits : FitsWord n) : Number :=
  if n < 0x8000000000000000 then .integer n fits
  else .float (Number.nearest (.integer n fits))

variable {n : Int} (fits : FitsWord n)

/-- Digits are no truth value, and not nothing. -/
theorem memoryValue_of_integer {s : String} (h : Decimal.integer? s = some n) :
    memoryValue (some s) = match signedWord? s <|> decimal? s with
      | some m => .number m
      | none => .string s := by
  have hne : ∀ t, Decimal.integer? t = none → s ≠ t := by
    rintro t ht rfl
    rw [ht] at h
    cases h
  have hfilled : filled (some s) = some s :=
    (filled_eq_some_iff _ _).2 ⟨rfl, hne "" (by decide)⟩
  rw [memoryValue, hfilled]
  split
  · rename_i heq
    cases heq
  · rename_i heq
    exact absurd (Option.some.inj heq) (hne "true" (by decide))
  · rename_i heq
    exact absurd (Option.some.inj heq) (hne "false" (by decide))
  · rename_i heq
    cases heq
    rfl

include fits in
/-- An integer is read as a signed word if it is one, -/
theorem signedWord?_toString (hn : n < 0x8000000000000000) :
    signedWord? (toString n) = some (.integer n fits) := by
  rw [signedWord?, Decimal.integer?_toString]
  exact dif_pos ⟨fits.1, hn⟩

/-- and as a decimal number if it is too large. -/
theorem decimal?_toString (hn : ¬ n < 0x8000000000000000) :
    signedWord? (toString n) = none ∧
      decimal? (toString n) = some (.float (Number.nearest (.integer n fits))) := by
  constructor
  · rw [signedWord?, Decimal.integer?_toString]
    exact dif_neg fun h => hn h.2
  · have hpositive : decide (n < 0) = false := decide_eq_false (by omega)
    have hlow : 0x8000000000000000 ≤ n.natAbs := by omega
    have hhigh : n.natAbs < 0x10000000000000000 := by
      have := fits.2
      omega
    rw [decimal?, Decimal.parse?_toString, hpositive]
    dsimp only
    rw [Decimal.nearest?_word hlow hhigh, Number.nearest, hpositive]
    rfl

/-- **What an integer is read as from its digits.** -/
theorem memoryValue_toString : memoryValue (some (toString n)) = .number (retyped n fits) := by
  rw [memoryValue_of_integer (Decimal.integer?_toString n), retyped]
  split_ifs with hn
  · rw [signedWord?_toString fits hn]
    rfl
  · obtain ⟨hsigned, hdecimal⟩ := decimal?_toString fits hn
    rw [hsigned, hdecimal]
    rfl

/-- **The digits come back if the integer is a signed word, and only then**: a binary64 number is
never written without a point or an exponent. -/
theorem text_retyped_iff : (retyped n fits).text = toString n ↔ n < 0x8000000000000000 := by
  rw [retyped]
  split_ifs with hn
  · exact ⟨fun _ => hn, fun _ => rfl⟩
  · refine ⟨fun h => ?_, fun h => absurd h hn⟩
    obtain ⟨p, hp, hfractional, -⟩ :=
      Number.exists_spelling_floatText (Number.nearest (.integer n fits))
    have hinteger := Decimal.integer?_toString n
    rw [← h, Number.text, hp, p.integer?_text hfractional] at hinteger
    cases hinteger

end Plan

/-! ## From the document to the text -/

/-- A value that gives an integer, as a number or by its digits. -/
def Json.Value.Gives (v : Value) (n : Int) : Prop :=
  (∃ fits, v = .number (.integer n fits)) ∨ v = .string (toString n)

/-- What a node of a document has for its memory. -/
def Node.memory? (v : Value) : Option Value := (v.member? "data").bind (·.member? "memory")

/-- The memory of an agent is the normal form of what its sheet has. -/
theorem Agent.normal_memory {ms : List (String × Value)} {agent : Agent} {v : Value}
    (h : Component.ofValue .agent (.object ms) = .ok (.agent agent))
    (hv : ms.lookup "memory" = some v) :
    Form.text.normal v.tidy = .ok (agent.memory.map .string) := by
  obtain ⟨_, s, ⟨⟩, hs, hagent⟩ := Component.ofValue_eq_ok_iff.1 h
  have hlookup := @Sheet.lookup_known_of_enterAll _ _ _ _ "memory" .text rfl rfl hs
  rw [hv] at hlookup
  obtain ⟨v?, hnormal, hknown⟩ := hlookup
  have hmemory : agent.memory = s.text? "memory" := by
    cases hagent
    rfl
  have hheld : (v?.bind Value.string?).map .string = v? := Form.held_of_normal hnormal
  rw [hmemory, Sheet.text?, hknown, hnormal, Option.join_some, hheld]

/-- **The memory of an agent is the text of an integer that its node has.** -/
theorem Node.memory_of_ofValue {v w : Value} {node : Node} {agent : Agent} {n : Int}
    (h : ofValue? v = some node) (hagent : node.agent? = some agent)
    (hw : memory? v = some w) (hn : w.Gives n) : agent.memory = some (toString n) := by
  obtain ⟨ms, rfl, hread⟩ := readFrom_of_ofValue h
  obtain ⟨sheet, hsheet, hmember⟩ := Option.bind_eq_some_iff.1 hw
  have hcomponent : node.component = .agent agent := by
    rw [agent?] at hagent
    split at hagent
    · cases hagent
      assumption
    · cases hagent
  have hdata := hread.ofValue_data hsheet
  rw [hcomponent] at hdata
  cases sheet with
  | object members =>
    have hnormal := Agent.normal_memory hdata hmember
    have htext : Form.text.normal w.tidy = .ok (some (.string (toString n))) := by
      rcases hn with ⟨fits, rfl⟩ | rfl <;> rfl
    rw [htext] at hnormal
    obtain ⟨s, hs, htext⟩ := Option.map_eq_some_iff.1 (Except.ok.inj hnormal).symm
    cases htext
    exact hs
  | _ => cases hmember

/-! ## The block of an agent -/

namespace Script

open Plan (AgentEntry retyped)

/-- These lines are the block of the agent with this id. -/
structure IsAgentBlock (id : String) (block : List String) : Prop where
  opens : block.head? = some (callLine id "Agent")
  closes : block.getLast? = some closingLine
  length : block.length = 9

theorem isAgentBlock_agentLines (a : AgentEntry) : IsAgentBlock a.id (agentLines a) where
  opens := rfl
  closes := rfl
  length := rfl

theorem argumentLine_ne_callLine (keyword expression ending id function : String) :
    argumentLine keyword expression ending ≠ callLine id function := by
  intro h
  have hfifth := fifth_argumentLine keyword expression ending
  rw [h, toList_callLine] at hfifth
  have hquote : some '"' = some ' ' := hfifth
  exact absurd hquote (by decide)

/-- The memory has the sixth line of a block and no other. -/
theorem memory_mem_agentLines_iff {a : AgentEntry} {expression : String} :
    argumentLine "memory" expression "," ∈ agentLines a ↔ expression = literal a.memory := by
  have hkeyword : ∀ keyword {e x : String}, '=' ∉ keyword.toList → "memory" ≠ keyword →
      argumentLine "memory" expression "," ≠ argumentLine keyword e x := fun _ _ _ hk hne h =>
    hne (keyword_eq_of_argumentLine_eq (by decide) hk h)
  simp only [agentLines, List.mem_cons, List.not_mem_nil, or_false, argumentLine_ne_callLine,
    argumentLine_ne_closingLine, false_or, argumentLine_inj,
    hkeyword "role" (by decide) (by decide), hkeyword "goal" (by decide) (by decide),
    hkeyword "backstory" (by decide) (by decide),
    hkeyword "allow_delegation" (by decide) (by decide),
    hkeyword "llm" (by decide) (by decide), hkeyword "tools" (by decide) (by decide)]

/-- An agent of the plan has its block in the script. -/
theorem isInfix_agentLines {p : Plan} {a : AgentEntry} (ha : a ∈ p.agents) :
    agentLines a <:+: scriptLines p := by
  have hentries : agentLines a <:+: p.agents.flatMap agentLines :=
    List.infix_of_mem_flatten (List.mem_map_of_mem ha)
  have hsection : agentLines a
      <:+: dictionaryLines "# Create agents" "agents = \x7b" agentLines p.agents :=
    hentries.trans (List.infix_append _ _ _)
  rw [scriptLines]
  -- the tasks, the crew and its start are behind the agents
  iterate 3 refine List.IsInfix.trans ?_ (List.prefix_append _ _).isInfix
  exact hsection.trans (List.suffix_append _ _).isInfix

/-- Every agent of a chart has an entry in the plan. -/
theorem exists_agentEntry {g : Graph} {node : Node} {agent : Agent} (model : String)
    (hnode : node ∈ g.nodes) (hagent : node.agent? = some agent) :
    ∃ a ∈ (Plan.resolve g model).agents, a.id = node.id ∧
      a.memory = Plan.memoryValue agent.memory := by
  obtain ⟨i, hi⟩ : ∃ i : Fin g.size, g.nodeAt i = node := by
    obtain ⟨k, hk, rfl⟩ := List.getElem_of_mem hnode
    exact ⟨⟨k, hk⟩, rfl⟩
  refine ⟨Plan.agentEntry g g.adjacency (Plan.emittedIds (Plan.toolEntries g.nodes)) model i agent,
    List.mem_filterMap.2 ⟨i, List.mem_finRange i, ?_⟩, congrArg Node.id hi, rfl⟩
  rw [hi, hagent]
  rfl

/-- **What the script has for an integer that is the memory of an agent.**  The chart has the nodes
of the document, one for one.  For a node that is an agent and has an integer for its memory, as a
number or in digits, there is the block of the agent, and on its line for the memory stands the
number that is read from the digits.  So the integer itself stands there if it is a signed word, and
only then. -/
theorem generate_prints_memory {text : String} {g : Graph} (h : Graph.loadText text = .ok g)
    (model : String) :
    ∃ document script, (Reader.lenient Reader.maxLevels).read text = .ok document ∧
      generate g model = .ok script ∧
      List.Forall₂ (fun v node => ∀ agent w n (fits : FitsWord n), node.agent? = some agent →
          Node.memory? v = some w → w.Gives n →
          ∃ block, block <:+: linesOf script ∧ IsAgentBlock node.id block ∧
            (∀ expression, argumentLine "memory" expression "," ∈ block ↔
              expression = (retyped n fits).text) ∧
            (argumentLine "memory" (toString n) "," ∈ block ↔ n < 0x8000000000000000))
        (Graph.documentNodes document) g.nodes := by
  obtain ⟨hparse, hwell⟩ := (Graph.load_eq_ok_iff _ _ _).1 h
  obtain ⟨document, hdocument, hvalue⟩ := Graph.exists_value_of_parse hparse
  obtain ⟨script, hscript, hlines⟩ := generate_lines ((Graph.checkIntegrity_eq_ok_iff g).2 hwell)
    model
  refine ⟨document, script, hdocument, hscript, ?_⟩
  have hnodes := Graph.forall₂_documentNodes hvalue
  refine (List.forall₂_iff_get.2 ⟨hnodes.length_eq, fun k hk hk' => ?_⟩)
  intro agent w n fits hagent hw hn
  have hmemory := Node.memory_of_ofValue (hnodes.get hk hk') hagent hw hn
  obtain ⟨a, ha, hid, hentry⟩ := exists_agentEntry model (List.get_mem _ _) hagent
  have hliteral : literal a.memory = (retyped n fits).text := by
    rw [hentry, hmemory, Plan.memoryValue_toString fits, literal, literalChars,
      String.ofList_toList]
  -- The block has one line for the memory, and the literal of the entry stands on it.
  have hline : ∀ expression, argumentLine "memory" expression "," ∈ agentLines a ↔
      expression = (retyped n fits).text := fun expression => by
    rw [memory_mem_agentLines_iff, hliteral]
  refine ⟨agentLines a, ?_, hid ▸ isAgentBlock_agentLines a, hline, ?_⟩
  · rw [hlines]
    exact (isInfix_agentLines ha).trans (List.prefix_append _ _).isInfix
  · rw [hline, eq_comm, Plan.text_retyped_iff]

/-! ### The ends of the range -/

/-- The least integer of a document in digits, and the greatest as a number. -/
def wide : Value := .object [
  ("nodes", .array [
    .object [("id", .string "a1"), ("type", .string "agent"),
      ("data", .object [("memory", .string "-9223372036854775808")])],
    .object [("id", .string "a2"), ("type", .string "agent"),
      ("data", .object [("memory", .number (.integer 0xFFFFFFFFFFFFFFFF (by decide)))])]]),
  ("edges", .array [])]

def wideChart : Graph where
  nodes := [⟨"a1", .origin, .agent { memory := some "-9223372036854775808" }, []⟩,
    ⟨"a2", .origin, .agent { memory := some "18446744073709551615" }, []⟩]

theorem read_wide : (Reader.value Reader.maxLevels).read wide.compact = .ok wide := by
  have hplain : wide.Plain Reader.maxLevels := ⟨by decide, fun x hx => by simp [wide] at hx⟩
  have hread := @Json.read_compact _ hplain "" (by simp)
  rwa [String.append_empty] at hread

theorem loadText_wide : Graph.loadText wide.compact = .ok wideChart :=
  (Graph.load_eq_ok_iff _ _ _).2 ⟨Graph.parse_of_value read_wide (by decide), by decide, by decide,
    by decide, by decide⟩

/-- The least integer is printed as it is. -/
theorem generate_prints_memory_wide : Graph.loadText wide.compact = .ok wideChart ∧
    ∃ script, generate wideChart defaultModel = .ok script ∧
      "        memory=-9223372036854775808," ∈ linesOf script := by
  obtain ⟨document, script, hdocument, hscript, hnodes⟩ :=
    generate_prints_memory loadText_wide defaultModel
  rw [Json.Reader.read_lenient_of_value read_wide] at hdocument
  obtain rfl := Except.ok.inj hdocument
  obtain ⟨hfirst, -⟩ := List.forall₂_cons.1 hnodes
  obtain ⟨block, hblock, -, -, hline⟩ := hfirst { memory := some "-9223372036854775808" }
    (.string "-9223372036854775808") (-0x8000000000000000) (by decide) rfl rfl (.inr rfl)
  exact ⟨loadText_wide, script, hscript, hblock.subset (hline.2 (by decide))⟩

/-- The greatest is not: it is printed in the form of the binary64 number next to it. -/
theorem generate_rounds_memory_wide : Graph.loadText wide.compact = .ok wideChart ∧
    ((Graph.documentNodes wide)[1]?.bind Node.memory?)
      = some (.number (.integer 0xFFFFFFFFFFFFFFFF (by decide))) ∧
    ∃ script, generate wideChart defaultModel = .ok script ∧
      "        memory=18446744073709551615," ∉ linesOf script ∧
      "        memory=1.8446744073709552e+19," ∈ linesOf script := by
  obtain ⟨script, hscript, hlines⟩ := generate_lines (g := wideChart) rfl defaultModel
  refine ⟨loadText_wide, rfl, script, hscript, ?_⟩
  rw [hlines]
  decide +kernel

end Script

end CrewChart

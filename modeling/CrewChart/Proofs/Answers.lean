import CrewChart.Answer
import CrewChart.Proofs.Reported
import CrewChart.Proofs.Script.Lines

/-!
# What an answer says

An answer for another program is one line of JSON.  Whatever the chart holds, the line is one line,
it is read as an object, and what the object says is what the check found: the members tell whether
all is well, and then either the findings, which are read back as they are, or why the chart could
not be checked.

## What is here

* `Json.OneLine`, `Json.OneLine.write` — a compact text has no control character, and so no line
  break;
* `Answer.Plain`, `Answer.parse_text` — the text of an answer is read as the answer;
* `Answer.Tells` — what the members of an answer say of what was loaded;
* `Answer.check_tells` — all of it, of the answer to the check of any text.
-/

set_option autoImplicit false

namespace CrewChart

open Json (Value)

/-! ## One line -/

namespace Json

/-- Nothing here ends a line, or is any other control character. -/
def OneLine (s : List Char) : Prop := ∀ c ∈ s, 0x20 ≤ c.toNat

namespace OneLine

variable {s t : List Char}

theorem nil : OneLine [] := fun _ h => absurd h List.not_mem_nil

theorem cons {c : Char} (hc : 0x20 ≤ c.toNat) (hs : OneLine s) : OneLine (c :: s) :=
  List.forall_mem_cons.2 ⟨hc, hs⟩

theorem ofAll (h : (s.all fun c => 0x20 ≤ c.toNat) = true) : OneLine s := fun c hc =>
  of_decide_eq_true (List.all_eq_true.1 h c hc)

theorem append (hs : OneLine s) (ht : OneLine t) : OneLine (s ++ t) := fun c hc =>
  (List.mem_append.1 hc).elim (hs c) (ht c)

/-- A quoted text escapes its control characters. -/
theorem quoted (s : String) : OneLine (quotedChars s) := fun _ hc =>
  Script.le_of_mem_quotedChars hc

theorem number (n : Number) : OneLine n.text.toList := fun c hc => by
  have hinline := Script.inline_text n c hc
  rw [Script.isInline, Bool.and_eq_true, decide_eq_true_eq] at hinline
  exact hinline.2

/-- Items and the commas before them, if the items are one line each. -/
theorem writeItems {depth : Nat} {vs : List Value}
    (h : ∀ v ∈ vs, OneLine (v.write .compact depth)) :
    OneLine (Value.writeItems .compact depth vs) := by
  induction vs with
  | nil => exact nil
  | cons v vs ih =>
    obtain ⟨hv, hvs⟩ := List.forall_mem_cons.1 h
    exact cons (by decide) (hv.append (ih hvs))

/-- Members and the commas before them, if their values are one line each; the keys are quoted. -/
theorem writeMembers {depth : Nat} {ms : List (String × Value)}
    (h : ∀ m ∈ ms, OneLine (m.2.write .compact depth)) :
    OneLine (Value.writeMembers .compact depth ms) := by
  induction ms with
  | nil => exact nil
  | cons m ms ih =>
    obtain ⟨hm, hms⟩ := List.forall_mem_cons.1 h
    have hkey : OneLine (',' :: quotedChars m.1 ++ [':']) :=
      (cons (by decide) (quoted m.1)).append (cons (by decide) nil)
    exact (hkey.append hm).append (ih hms)

/-- **A compact text is one line**: quoted texts escape what would end it, and nothing else
could. -/
theorem write (v : Value) (depth : Nat) : OneLine (v.write .compact depth) := by
  have hclosing : OneLine [']'] ∧ OneLine ['\x7d'] :=
    ⟨cons (by decide) nil, cons (by decide) nil⟩
  -- the layout puts nothing between items, so only what is written of them has to be looked at
  induction v using Value.inductionOn generalizing depth with
  | null => exact ofAll rfl
  | boolean b => cases b <;> exact ofAll rfl
  | number n => exact number n
  | string s => exact quoted s
  | array items ih =>
    cases items with
    | nil => exact ofAll rfl
    | cons v vs =>
      obtain ⟨hv, hvs⟩ := List.forall_mem_cons.1 ih
      have hitems := writeItems fun w hw => hvs w hw (depth + 1)
      rw [Value.write]
      simp only [Style.newline, List.append_nil, List.cons_append, List.append_assoc]
      exact cons (by decide) ((hv _).append (hitems.append hclosing.1))
  | object ms ih =>
    cases ms with
    | nil => exact ofAll rfl
    | cons m ms =>
      obtain ⟨hm, hms⟩ := List.forall_mem_cons.1 ih
      have hmembers := writeMembers fun n hn => hms n hn (depth + 1)
      have hcolon : OneLine [':'] := cons (by decide) nil
      rw [Value.write]
      simp only [Style.newline, Style.colon, List.append_nil, List.cons_append, List.append_assoc]
      exact cons (by decide) ((quoted m.1).append (hcolon.append ((hm _).append
        (hmembers.append hclosing.2))))

end OneLine

end Json

/-! ## Answers are read back -/

/-- An entry of a fault holds texts and positions, and nothing else. -/
theorem Fault.plain_entry {levels : Nat} (message : String) (l : Location) :
    (entry message l).Plain (levels + 1) := by
  refine .ofFields fun m hm v hv => ?_
  simp only [List.mem_cons, List.not_mem_nil, or_false] at hm
  rcases hm with rfl | rfl | rfl | rfl
  · cases hv
    exact .string message
  · obtain ⟨base, -, rfl⟩ := Option.map_eq_some_iff.1 hv
    exact .string base
  all_goals
    obtain ⟨n, -, rfl⟩ := Option.map_eq_some_iff.1 hv
    exact .ofNat n

/-- The message of a fault is read back as it is. -/
theorem Fault.member?_message (message : String) (l : Location) :
    (entry message l).tidy.member? "message" = some (.string message) := by
  rw [entry, Value.member?_tidy_ofFields]
  · rfl
  · show ["message", "source_path", "line", "col"].Nodup
    decide

theorem Fault.plain_report {levels : Nat} (f : Fault) : f.report.Plain (levels + 2) :=
  .array (List.forall_mem_singleton.2 (plain_entry f.message f.location))

namespace Simulation

theorem Counts.plain_toValue {levels : Nat} (c : Counts) : c.toValue.Plain (levels + 1) :=
  .object (by simp [Value.Plain.ofNat])

theorem Record.plain_toValue {levels : Nat} (r : Record) : r.toValue.Plain (levels + 1) :=
  .object (by simp [Value.Plain.string])

/-- A report is a list of ids and a list of records, and holds nothing that could be rounded. -/
theorem Report.plain_toValue {levels : Nat} (r : Report) : r.toValue.Plain (levels + 3) := by
  have hcompleted : (Value.array (r.completed.map .string)).Plain (levels + 2) :=
    .array (by simp [Value.Plain.string])
  have hrecords : (Value.array (r.records.map Record.toValue)).Plain (levels + 2) :=
    .array (by simp [Record.plain_toValue])
  exact .object (by simp [hcompleted, hrecords, Value.Plain.boolean])

end Simulation

namespace Answer

variable {a : Answer}

/-- An answer with plain members, each under a key of its own. -/
structure Plain (a : Answer) : Prop where
  body : ∀ m ∈ a.body, m.2.Plain 126
  keys : ((("ok", Value.boolean a.ok) :: a.body).map Prod.fst).Nodup

namespace Plain

/-- **The text of an answer is read as the answer**, in its kept form. -/
theorem parse_text (h : a.Plain) {blanks : String}
    (hblanks : ∀ c ∈ blanks.toList, Json.isBlank c = true) :
    Value.parse (a.text ++ blanks) = .ok a.toValue.tidy :=
  Json.parse_compact (.object (List.forall_mem_cons.2 ⟨.boolean a.ok, h.body⟩)) hblanks

/-- The members of an answer are found again under their keys. -/
theorem member?_tidy (h : a.Plain) (key : String) : a.toValue.tidy.member? key
    = ((("ok", Value.boolean a.ok) :: a.body).lookup key).map Value.tidy :=
  Value.member?_tidy h.keys key

theorem member?_ok (h : a.Plain) : a.toValue.tidy.member? "ok" = some (.boolean a.ok) :=
  h.member?_tidy "ok"

end Plain

theorem plain_ofFindings (findings : List Lint.Finding) : (ofFindings findings).Plain where
  body := List.forall_mem_singleton.2 <| .array fun v hv => by
    obtain ⟨f, -, rfl⟩ := List.mem_map.1 hv
    exact f.plain_toValue
  keys := by
    show ["ok", "diagnostics"].Nodup
    decide

theorem plain_uncheckable (f : Fault) : (uncheckable f).Plain where
  body := List.forall_mem_cons.2 ⟨.array (by simp), List.forall_mem_singleton.2 f.plain_report⟩
  keys := by
    show ["ok", "diagnostics", "errors"].Nodup
    decide

theorem plain_unrunnable (f : Fault) : (unrunnable f).Plain where
  body := List.forall_mem_singleton.2 f.plain_report
  keys := by
    show ["ok", "errors"].Nodup
    decide

theorem plain_ofReport (r : Simulation.Report) : (ofReport r).Plain where
  body := by
    exact List.forall_mem_cons.2 ⟨r.counts.plain_toValue,
      List.forall_mem_singleton.2 r.plain_toValue⟩
  keys := by
    show ["ok", "counts", "report"].Nodup
    decide

/-- **The answer to a check is plain**, whether or not there was a chart to check. -/
theorem plain_ofCheck (loaded : Except Fault Graph) : (ofCheck loaded).Plain := by
  cases loaded with
  | ok g => exact plain_ofFindings _
  | error f => exact plain_uncheckable f

/-! ## What an answer tells -/

/-- What the answer to a check says of a chart: whether it passes, and all that was found. -/
structure TellsOf (g : Graph) (v : Value) : Prop where
  ok : v.member? "ok" = some (.boolean !Lint.hasErrors (Lint.check g))
  diagnostics : ∃ d, v.member? "diagnostics" = some d ∧
    Lint.Finding.parseAll d.compact = .ok (Lint.check g)
  errors : v.member? "errors" = none

/-- What it says where there is no chart to check: that all is not well, and why. -/
structure TellsWhy (f : Fault) (v : Value) : Prop where
  ok : v.member? "ok" = some (.boolean false)
  diagnostics : v.member? "diagnostics" = some (.array [])
  errors : ∃ entry, v.member? "errors" = some (.array [entry]) ∧
    entry.member? "message" = some (.string f.message)

/-- What the answer to a check says of what was loaded. -/
def Tells : Except Fault Graph → Value → Prop
  | .ok g => TellsOf g
  | .error f => TellsWhy f

/-- Where there is a chart, the diagnostics are what was found, and there is no mention of
errors. -/
theorem tellsOf_ofFindings (g : Graph) :
    TellsOf g (ofFindings (Lint.check g)).toValue.tidy where
  ok := (plain_ofFindings _).member?_ok
  diagnostics := by
    refine ⟨Lint.Finding.listed (Lint.check g), ?_, Lint.Finding.parseAll_compact _⟩
    rw [(plain_ofFindings _).member?_tidy]
    show some (Value.array (Value.tidyItems ((Lint.check g).map Lint.Finding.toValue))) = _
    rw [Value.tidyItems_eq_map, List.map_map]
    rfl
  errors := (plain_ofFindings _).member?_tidy "errors"

/-- Where there is none, the one error is the fault, in the words of its message. -/
theorem tellsWhy_uncheckable (f : Fault) : TellsWhy f (uncheckable f).toValue.tidy where
  ok := (plain_uncheckable f).member?_ok
  diagnostics := (plain_uncheckable f).member?_tidy "diagnostics"
  errors :=
    ⟨(Fault.entry f.message f.location).tidy, (plain_uncheckable f).member?_tidy "errors",
      Fault.member?_message f.message f.location⟩

theorem tells_ofCheck (loaded : Except Fault Graph) :
    Tells loaded (ofCheck loaded).toValue.tidy := by
  cases loaded with
  | ok g => exact tellsOf_ofFindings g
  | error f => exact tellsWhy_uncheckable f

/-- **The answer to a check says what the check found.**  It is one line, whatever the chart holds,
and is read as an object.  Its members tell whether the chart passes and list the findings, which
are read back as they are; or they tell why there is no chart. -/
theorem check_tells (text : String) : Json.OneLine (check text).text.toList ∧
    ∃ ms, Value.parse (check text).text = .ok (.object ms) ∧
      Tells (Graph.loadText text) (.object ms) := by
  have hline : Json.OneLine (check text).text.toList := by
    rw [Answer.text, Value.compact, String.toList_ofList]
    exact .write _ 0
  have hparse := @Plain.parse_text _ (plain_ofCheck (Graph.loadText text)) "" (by simp)
  rw [String.append_empty] at hparse
  exact ⟨hline, _, hparse, tells_ofCheck (Graph.loadText text)⟩

end Answer

end CrewChart

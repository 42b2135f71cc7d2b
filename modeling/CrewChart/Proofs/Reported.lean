import CrewChart.Lint.Finding
import CrewChart.Proofs.Graph.RoundTrip
import CrewChart.Proofs.Json.Choices
import CrewChart.Proofs.Json.Compact

/-!
# Findings are read back as they were reported

`Finding.ofValue?` makes a finding of a JSON value, as `Finding.reader` makes one of a text.  What
is reported of a finding is made into that finding again, whatever its texts hold; the members may
have been sorted in between, as they are in the kept form of an answer.

## What is here

* `Finding.decodes` — the reader of findings is a function of the value it reads;
* `Finding.ofValue?_tidy` — a finding is made of what is reported of it;
* `Finding.parseAll_compact` — so is a list of findings, from the text of what is reported.
-/

set_option autoImplicit false

namespace CrewChart.Lint.Finding

open Json (Value Reader)
open Json.Reader (Decodes once orNothing variant? decodeItems decodeTuple)

/-! ## Findings as functions of values -/

def step (st : Draft) (key : String) : Value → Option Draft :=
  if key = "nodeId" then
    once st.node (orNothing Value.string?) fun id => { st with node := some id }
  else if key = "code" then once st.code Value.string? fun s => { st with code := some s }
  else if key = "message" then once st.message Value.string? fun s => { st with message := some s }
  else if key = "severity" then
    once st.severity (variant? Severity.named) fun s => { st with severity := some s }
  else fun _ => some st

theorem steps (levels : Nat) : (shape (levels + 1)).Steps (levels + 1) step := fun st _ =>
  (((decodes_string _).optional rfl).takes_once _ _ _).ite
    (((decodes_string _).takes_once _ _ _).ite
      (((decodes_string _).takes_once _ _ _).ite
        (((Json.Reader.decodes_variant Severity.named).takes_once _ _ _).ite
          (Json.Reader.decodes_skipThen _ st).takes)))

def ofValue? : Value → Option Finding :=
  decodeTuple (shape 0) step ["nodeId", "code", "message", "severity"] fun length =>
    if length = 0 then none else some (.wrongLength length "struct Diagnostic with 4 elements")

theorem decodes (levels : Nat) : Decodes (levels + 2) (reader (levels + 2)) ofValue? :=
  Json.Reader.decodes_recordOrTuple (steps levels) _ _ _

/-! ## What is reported -/

/-- **A finding is made of what is reported of it**, its members sorted. -/
theorem ofValue?_tidy (f : Finding) : ofValue? f.toValue.tidy = some f := by
  obtain ⟨node, code, message, severity⟩ := f
  cases node <;> cases severity <;> rfl

theorem plain_toValue {levels : Nat} (f : Finding) : f.toValue.Plain (levels + 1) := by
  refine .ofFields fun m hm v hv => ?_
  simp only [List.mem_cons, List.not_mem_nil, or_false] at hm
  rcases hm with rfl | rfl | rfl | rfl
  · obtain ⟨id, -, rfl⟩ := Option.map_eq_some_iff.1 hv
    exact .string id
  all_goals cases hv; exact .string _

/-- What is reported of findings, in its kept form. -/
def listed (findings : List Finding) : Value := .array (findings.map fun f => f.toValue.tidy)

/-- **The findings that are reported are read from the text of the report.** -/
theorem parseAll_compact (findings : List Finding) :
    parseAll (listed findings).compact = .ok findings := by
  have hplain : (listed findings).Plain Reader.maxLevels := .array fun v hv => by
    obtain ⟨f, -, rfl⟩ := List.mem_map.1 hv
    exact (plain_toValue f).tidy
  have hread : (Reader.value Reader.maxLevels).read (listed findings).compact
      = .ok (listed findings) := by
    have hread := @Json.read_compact _ hplain "" (by simp)
    rwa [String.append_empty] at hread
  exact (Json.Reader.decodes_listOf (decodes 124)).read_complete hread
    (Graph.mapM_map_eq_some fun f _ => ofValue?_tidy f)

end CrewChart.Lint.Finding

import CrewChart.Proofs.Script.TaskAgents

/-!
# The lines that set the keys

A plan has a line for every key that was typed in, first those of the agents and then that of the
manager, and no line twice.  The keys of two nodes may well come to one line, and which of them are
kept is then a question of texts: whether two lines are the same is decided after the key has been
quoted and put behind its variable.  This file says that nothing is lost there, because the variable
and the key can be read back from their line.

Which variable a key is put into is asked of the catalog first, and of the beginning of the model's
name only if the catalog does not have the model.  The two never disagree, so the catalog may be
left out.

## What is here

* `variableFor` — the variable for a model, from the beginning of its name alone.
* `credential_eq` — it is the variable that is set, whether the catalog has the model or not.
* `line_eq_iff` — lines are the same only for the same variable and the same key.
* `eraseDups_map` — a map that tells the entries of a list apart may go before or after taking out
  those that repeat.
* `keysIn`, `credentials_list_keys` — the lines of a plan.
-/

set_option autoImplicit false

namespace CrewChart.Plan

/-! ## Variables -/

/-- Whether a model is named, and its name begins like this. -/
def begins (beginning : String) (model : Option String) : Bool :=
  model.any fun m => beginning.toList.isPrefixOf m.toList

/-- The variable for the keys of a model: the beginning of its name decides. -/
def variableFor (model : Option String) : String :=
  if begins "gpt-" model then "OPENAI_API_KEY"
  else if begins "claude-" model then "ANTHROPIC_API_KEY"
  else if begins "gemini-" model then "GOOGLE_API_KEY"
  else if begins "mistral-" model then "MISTRAL_API_KEY"
  else "CUSTOM_API_KEY"

/-- **The catalog names the provider that the beginning of a name does.** -/
theorem provider_eq_ofModel : ∀ m ∈ Model.all, m.provider = Provider.ofModel m.id := by
  decide +kernel

theorem begins_some (beginning model : String) :
    begins beginning (some model) = beginning.toList.isPrefixOf model.toList :=
  rfl

theorem keyVariable_ofModel (model : String) :
    (Provider.ofModel model).keyVariable = variableFor (some model) := by
  simp only [Provider.ofModel, Provider.beginnings, List.find?_cons, List.find?_nil,
    ← begins_some]
  rw [variableFor]
  generalize begins "gpt-" (some model) = gpt
  generalize begins "claude-" (some model) = claude
  generalize begins "gemini-" (some model) = gemini
  generalize begins "mistral-" (some model) = mistral
  cases gpt <;> cases claude <;> cases gemini <;> cases mistral <;> rfl

/-- **The beginning of the name decides**, whether the catalog has the model or not. -/
theorem credential_eq (selected : Option String) (key : String) :
    credential selected key = ⟨variableFor selected, key⟩ := by
  rw [credential, Credential.mk.injEq, and_iff_left rfl]
  cases hfilled : filled selected with
  | none =>
    rcases (filled_eq_none_iff selected).1 hfilled with rfl | rfl <;> rfl
  | some model =>
    obtain ⟨rfl, -⟩ := (filled_eq_some_iff selected model).1 hfilled
    dsimp only
    split
    · rename_i m hm
      rw [Model.find?] at hm
      have hid := List.find?_some hm
      rw [beq_iff_eq] at hid
      rw [provider_eq_ofModel m (List.mem_of_find?_eq_some hm), hid, keyVariable_ofModel]
    · exact keyVariable_ofModel model

/-! ## Lines -/

theorem line_eq_iff {c d : Credential}
    (hc : ∀ ch ∈ c.keyVariable.toList, Script.isNamePart ch = true)
    (hd : ∀ ch ∈ d.keyVariable.toList, Script.isNamePart ch = true) :
    c.line = d.line ↔ c.keyVariable = d.keyVariable ∧ c.key = d.key := by
  constructor
  · intro h
    have hchars := congrArg String.toList h
    rw [← Script.spell_credential hc, ← Script.spell_credential hd] at hchars
    simp only [Script.spell_cons, Script.spell_nil, Script.Part.chars, List.append_right_inj,
      List.append_nil] at hchars
    -- the variable is read back first, and then the key behind it
    have hvariable := Script.quotedChars_append_inj hchars
    rw [hvariable, List.append_right_inj, List.append_right_inj] at hchars
    exact ⟨hvariable, Script.quotedChars_append_inj (congrArg (· ++ []) hchars)⟩
  · rintro ⟨hvariable, hkey⟩
    rw [Credential.line, hvariable, hkey, Credential.line]

/-- A map that tells the entries of a list apart may go before or after. -/
theorem eraseDups_map {α β : Type} [BEq α] [LawfulBEq α] [BEq β] [LawfulBEq β] (f : α → β)
    (l : List α) (hf : ∀ x ∈ l, ∀ y ∈ l, f x = f y → x = y) :
    (l.map f).eraseDups = l.eraseDups.map f := by
  induction hn : l.length using Nat.strong_induction_on generalizing l with
  | _ n ih =>
    cases l with
    | nil => rfl
    | cons a l =>
      have hkept : (l.map f).filter (fun b => !b == f a) = (l.filter fun x => !x == a).map f := by
        rw [List.filter_map]
        refine congrArg (List.map f) (List.filter_congr fun x hx => ?_)
        have hsame : f x = f a ↔ x = a :=
          ⟨hf x (List.mem_cons_of_mem _ hx) a List.mem_cons_self, congrArg f⟩
        rw [Function.comp_apply, Bool.eq_iff_iff, Bool.not_eq_true', Bool.not_eq_true',
          beq_eq_false_iff_ne, beq_eq_false_iff_ne, Ne, Ne, hsame]
      have hshorter : (l.filter fun x => !x == a).length < n := by
        rw [← hn, List.length_cons]
        exact Nat.lt_succ_of_le (List.length_filter_le _ _)
      have hrest : ∀ x ∈ l.filter (fun x => !x == a), x ∈ a :: l := fun x hx =>
        List.mem_cons_of_mem _ (List.mem_filter.1 hx).1
      rw [List.map_cons, List.eraseDups_cons, List.eraseDups_cons, List.map_cons, hkept,
        ih _ hshorter _ (fun x hx y hy => hf x (hrest x hx) y (hrest y hy)) rfl]

/-! ## The keys of a chart -/

/-- What was typed in as keys, with the variables they are for: the keys of the agents, in the order
of the nodes, and then that of the manager, which the first flow has. -/
def keysIn (g : Graph) : List Credential :=
  (g.nodes.filterMap fun n => n.agent?.bind fun agent =>
      (filled agent.apiKey).map fun key => ⟨variableFor agent.llmModel, key⟩)
    ++ ((g.nodes.findSome? Node.flow?).bind fun flow =>
      (filled flow.managerApiKey).map fun key => ⟨variableFor flow.managerModel, key⟩).toList

theorem credentials_resolve (g : Graph) (model : String) :
    (resolve g model).credentials = (keysIn g).eraseDups := by
  have hkey : ∀ selected, credential selected = fun key => ⟨variableFor selected, key⟩ :=
    fun selected => funext (credential_eq selected)
  simp only [resolve, keysIn, credential?, hkey]
  cases g.nodes.findSome? Node.flow? <;> rfl

theorem isNamePart_of_mem_keysIn {g : Graph} {c : Credential} (hc : c ∈ keysIn g) :
    ∀ ch ∈ c.keyVariable.toList, Script.isNamePart ch = true := by
  refine (Script.printable_resolve g defaultModel).keyVariable c ?_
  rw [credentials_resolve, List.mem_eraseDups]
  exact hc

/-- **The lines that set the keys.**  A plan has a line for each key that was typed in, and each
line once, where it comes first.  Two keys share a line exactly if they are the same key and go into
the same variable; and the variable of a key is told by the beginning of the model's name, for
whatever model it is. -/
theorem credentials_list_keys (g : Graph) (model : String) :
    let lines := (resolve g model).credentials.map Credential.line
    lines.Nodup ∧ lines = ((keysIn g).map Credential.line).eraseDups ∧
    (∀ c ∈ keysIn g, ∀ d ∈ keysIn g,
      c.line = d.line ↔ c.keyVariable = d.keyVariable ∧ c.key = d.key) ∧
    ∀ selected key, (credential selected key).keyVariable = variableFor selected := by
  have hline : ∀ c ∈ keysIn g, ∀ d ∈ keysIn g,
      c.line = d.line ↔ c.keyVariable = d.keyVariable ∧ c.key = d.key :=
    fun c hc d hd => line_eq_iff (isNamePart_of_mem_keysIn hc) (isNamePart_of_mem_keysIn hd)
  have hlines : (resolve g model).credentials.map Credential.line
      = ((keysIn g).map Credential.line).eraseDups := by
    rw [credentials_resolve, eraseDups_map]
    rintro ⟨name, key⟩ hc ⟨otherName, otherKey⟩ hd h
    obtain ⟨rfl, rfl⟩ := (hline _ hc _ hd).1 h
    rfl
  refine ⟨?_, hlines, hline, fun selected key => by rw [credential_eq]⟩
  rw [hlines]
  exact nodup_eraseDups _

/-- Three agents with one key, for two models of one provider and one of another, an agent and a
flow with one key for models nobody knows, an agent without a key, and a flow that does not
count. -/
def sharedKeys : Graph where
  nodes := [
    { id := "a", component := .agent { llmModel := some "gpt-4", apiKey := some "sk" } },
    { id := "b", component := .agent { apiKey := some "a\"b\n" } },
    { id := "c", component := .agent { llmModel := some "gpt-9", apiKey := some "sk" } },
    { id := "d", component := .agent { llmModel := some "claude-2.1", apiKey := some "sk" } },
    { id := "e", component := .agent { llmModel := some "gpt-4", apiKey := some "" } },
    { id := "f"
      component := .flow { managerModel := some "llama", managerApiKey := some "a\"b\n" } },
    { id := "g", component := .flow { managerApiKey := some "sk" } }]

theorem credentials_list_sharedKeys :
    (∃ c ∈ keysIn sharedKeys, ∃ d ∈ keysIn sharedKeys, c.key = d.key ∧ c.line ≠ d.line) ∧
    (keysIn sharedKeys).length = 5 ∧
    (resolve sharedKeys defaultModel).credentials.map Credential.line
      = ["os.environ[\"OPENAI_API_KEY\"] = \"sk\"",
        "os.environ[\"CUSTOM_API_KEY\"] = \"a\\\"b\\n\"",
        "os.environ[\"ANTHROPIC_API_KEY\"] = \"sk\""] := by
  have hopenAi : ⟨"OPENAI_API_KEY", "sk"⟩ ∈ keysIn sharedKeys := by decide +kernel
  have hanthropic : ⟨"ANTHROPIC_API_KEY", "sk"⟩ ∈ keysIn sharedKeys := by decide +kernel
  obtain ⟨-, hlines, hline, -⟩ := credentials_list_keys sharedKeys defaultModel
  refine ⟨⟨_, hopenAi, _, hanthropic, rfl, fun h => ?_⟩, by decide +kernel,
    hlines.trans (by decide +kernel)⟩
  exact absurd ((hline _ hopenAi _ hanthropic).1 h).1 (by decide)

end CrewChart.Plan

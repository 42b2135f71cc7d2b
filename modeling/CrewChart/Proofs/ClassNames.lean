import CrewChart.Graph.Integrity
import CrewChart.Proofs.References

/-!
# The names a script can use for the classes of tools

The class of a tool is what was typed in as its type, and it goes into the script bare, once where
it is imported and once where the tool is made.  For that it has to be an identifier; it must not be
a word that Python keeps for itself; and it must not be a name that the script has for something
else, because the import would take that name away.

Only the first of these is asked for when a plan is resolved.  Hence the names a script can use are
told apart here from those that become classes, and the two are compared.

## What is here

* `Script.isName_iff` — a name is an identifier.
* `Script.Usable`, `Script.usable_iff` — what a script can use as the name of a class.
* `Script.usable_of_mem_catalog` — it can use every type of the catalog.
* `Plan.mem_classes_iff` — what becomes a class.
* `Plan.classes_usable_of_catalog`, `Plan.classes_usable_iff` — the charts whose classes can all be
  used.
-/

set_option autoImplicit false

namespace CrewChart

namespace Script

/-! ## Identifiers -/

/-- An identifier of ASCII characters: a letter or an underscore, and then letters, digits and
underscores. -/
def IsIdentifier (s : String) : Prop :=
  ∃ c rest, s.toList = c :: rest ∧ (c.isAlpha ∨ c = '_') ∧ ∀ d ∈ rest, d.isAlphanum ∨ d = '_'

theorem isNameStart_iff (c : Char) : isNameStart c = true ↔ c.isAlpha ∨ c = '_' := by
  have hupper : c.isUpper = true ↔ 'A' ≤ c ∧ c ≤ 'Z' := decide_eq_true_iff
  have hlower : c.isLower = true ↔ 'a' ≤ c ∧ c ≤ 'z' :=
    Bool.and_eq_true_iff.trans (and_congr decide_eq_true_iff decide_eq_true_iff)
  have halpha : c.isAlpha = true ↔ c.isUpper = true ∨ c.isLower = true := Bool.or_eq_true_iff
  rw [halpha, hupper, hlower]
  simp only [isNameStart, Bool.or_eq_true, Bool.and_eq_true, decide_eq_true_eq, beq_iff_eq]

theorem isNamePart_iff (c : Char) : isNamePart c = true ↔ c.isAlphanum ∨ c = '_' := by
  rw [isNamePart, Bool.or_eq_true, isNameStart_iff, Char.isAlphanum, Bool.or_eq_true, or_right_comm]
  simp only [Char.isDigit, Char.le_def, Bool.and_eq_true, decide_eq_true_eq]

/-- **A name is an identifier**, one of ASCII characters. -/
theorem isName_iff (s : String) : isName s = true ↔ IsIdentifier s := by
  rw [isName, IsIdentifier]
  cases s.toList with
  | nil => simp
  | cons c rest => simp [isNameStart_iff, isNamePart_iff]

/-! ## Names that are taken -/

/-- The words that Python keeps for itself. -/
def reserved : List String :=
  ["False", "None", "True", "and", "as", "assert", "async", "await", "break", "class", "continue",
    "def", "del", "elif", "else", "except", "finally", "for", "from", "global", "if", "import",
    "in", "is", "lambda", "nonlocal", "not", "or", "pass", "raise", "return", "try", "while",
    "with", "yield"]

/-- The names that the script has for something else. -/
def vocabulary : List String :=
  ["Agent", "Task", "Crew", "Process", "Tool", "os", "list", "print", "tools", "agents", "tasks",
    "crew"]

/-- What the script can use as the name of a class. -/
structure Usable (name : String) : Prop where
  identifier : IsIdentifier name
  notReserved : name ∉ reserved
  notTaken : name ∉ vocabulary

theorem usable_iff (name : String) :
    Usable name ↔ isName name = true ∧ name ∉ reserved ++ vocabulary := by
  rw [isName_iff, List.mem_append, not_or]
  exact ⟨fun h => ⟨h.identifier, h.notReserved, h.notTaken⟩, fun h => ⟨h.1, h.2.1, h.2.2⟩⟩

/-- The words that cannot be used have the form of names all the same. -/
theorem isName_of_mem_words :
    ∀ word ∈ reserved ++ vocabulary, isName word = true ∧ word ≠ CrewChart.customTool := by
  decide +kernel

/-- **The script can use every type of the catalog.** -/
theorem usable_of_mem_catalog : ∀ spec ∈ ToolSpec.all, Usable spec.toolType := by
  simp only [usable_iff]
  decide +kernel

end Script

namespace Plan

open Script (IsIdentifier Usable isName_iff usable_iff)

/-! ## What becomes a class -/

/-- What was typed in as the types of the tools. -/
def toolTypes (g : Graph) : List String :=
  g.nodes.filterMap fun n => n.tool?.bind Tool.toolType

section Classes

variable (g : Graph) (model : String)

/-- **What becomes a class**: each type that is a name, other than that for tools of one's own. -/
theorem mem_classes_iff (name : String) :
    (∃ t ∈ (resolve g model).tools, t.making.class? = some name)
      ↔ name ∈ toolTypes g ∧ Script.isName name = true ∧ name ≠ customTool := by
  constructor
  · rintro ⟨t, ht, hclass⟩
    obtain ⟨n, hn, hentry⟩ := List.mem_filterMap.1 ht
    obtain ⟨tool, htool, rfl⟩ := Option.map_eq_some_iff.1 hentry
    obtain ⟨htype, hname⟩ := (class?_makingOf_iff _ _).1 hclass
    exact ⟨List.mem_filterMap.2 ⟨n, hn, by rw [htool]; exact htype⟩, hname⟩
  · rintro ⟨htypes, hname⟩
    obtain ⟨n, hn, hbind⟩ := List.mem_filterMap.1 htypes
    obtain ⟨tool, htool, htype⟩ := Option.bind_eq_some_iff.1 hbind
    refine ⟨toolEntry n tool, List.mem_filterMap.2 ⟨n, hn, by rw [htool]; rfl⟩, ?_⟩
    exact (class?_makingOf_iff _ _).2 ⟨htype, hname⟩

/-- Where the tools come from the catalog, the script can use every class. -/
theorem classes_usable_of_catalog (h : ∀ typed ∈ toolTypes g, ∃ spec ∈ ToolSpec.all,
    spec.toolType = typed) {t : ToolEntry} (ht : t ∈ (resolve g model).tools) {name : String}
    (hclass : t.making.class? = some name) : Usable name := by
  obtain ⟨spec, hspec, rfl⟩ := h name ((mem_classes_iff g model name).1 ⟨t, ht, hclass⟩).1
  exact Script.usable_of_mem_catalog spec hspec

end Classes

/-- **Which classes the script can use.**  The classes, and with them the imports, are the types
that are identifiers, except that for tools of one's own.  That lets the words through that Python
keeps for itself and the names that the script has for something else: every class can be used
exactly if none of these was typed in. -/
theorem classes_usable_iff (g : Graph) (model : String) :
    (∀ name, (∃ t ∈ (resolve g model).tools, t.making.class? = some name)
      ↔ name ∈ toolTypes g ∧ IsIdentifier name ∧ name ≠ customTool) ∧
    (∀ name, name ∈ namesIn (resolve g model).importText
      ↔ ∃ t ∈ (resolve g model).tools, t.making.class? = some name) ∧
    ((∀ t ∈ (resolve g model).tools, ∀ name, t.making.class? = some name → Usable name)
      ↔ ∀ word ∈ Script.reserved ++ Script.vocabulary, word ∉ toolTypes g) := by
  refine ⟨fun name => ?_, (closed_resolve g model).imports, fun h word hword htyped => ?_,
    fun h t ht name hclass => ?_⟩
  · rw [mem_classes_iff, isName_iff]
  · have hname := Script.isName_of_mem_words word hword
    obtain ⟨t, ht, hclass⟩ := (mem_classes_iff g model word).2 ⟨htyped, hname⟩
    exact ((usable_iff word).1 (h t ht word hclass)).2 hword
  · obtain ⟨htyped, hname, -⟩ := (mem_classes_iff g model name).1 ⟨t, ht, hclass⟩
    exact (usable_iff name).2 ⟨hname, fun hword => h name hword htyped⟩

/-- An agent that uses a tool of the type `class`. -/
def keywordTool : Graph where
  nodes := [⟨"a1", .origin, .agent { role := some "Analyst", goals := some "Find out" }, []⟩,
    ⟨"t1", .origin, .tool { toolType := some "class" }, []⟩]
  edges := [⟨"e1", "a1", "t1", []⟩]

/-- The script imports `class` and calls it. -/
theorem classes_unusable_keywordTool : keywordTool.checkIntegrity = .ok () ∧
    "class" ∈ namesIn (resolve keywordTool defaultModel).importText ∧
    ¬ ∀ t ∈ (resolve keywordTool defaultModel).tools, ∀ name, t.making.class? = some name →
      Usable name := by
  have hclass : ∃ t ∈ (resolve keywordTool defaultModel).tools, t.making.class? = some "class" :=
    (mem_classes_iff _ _ _).2 ⟨by decide, by decide, by decide⟩
  refine ⟨rfl, ((closed_resolve keywordTool defaultModel).imports _).2 hclass, fun h => ?_⟩
  obtain ⟨t, ht, hclass⟩ := hclass
  exact (h t ht "class" hclass).notReserved (by decide)

end Plan

end CrewChart

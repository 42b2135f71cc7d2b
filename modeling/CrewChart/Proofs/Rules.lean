import CrewChart.Proofs.Findings

/-!
# The rules of a check

A check goes by flags that were set while the edges were taken in.  The rules themselves ask for
less: some attribute of a node, and which ids the edges have as their ends.  This file is the table
of the rules in these words, and says that a check reports what the table has, each entry once and
in order.

An edge counts by the ids it names, also if one of them is the id of no node.  So a task that is the
target of an edge from nowhere is assigned, although no agent is, and a node at one end of such an
edge is not isolated.

## What is here

* `Breaks` — the table: a node breaks the rule with this code.
* `reports_iff_breaks` — what is reported about a node is what the table has for it.
* `nodup_check` — nothing is reported twice about a node.
* `Arranged`, `check_goes_by_rules` — the order of the findings, and all of it together.
-/

set_option autoImplicit false

namespace CrewChart.Lint

/-! ## The table -/

/-- An attribute that was never filled in, or was left empty. -/
def Unfilled (text : Option String) : Prop := text = none ∨ text = some ""

/-- The rules, by the code of what is found if a node breaks one. -/
inductive Breaks (g : Graph) (n : Node) : String → Prop
  | isolated (hends : ∀ e ∈ g.edges, e.source ≠ n.id ∧ e.target ≠ n.id) : Breaks g n "NODE_ISOLATED"
  | role {a : Agent} (hn : n.component = .agent a) (h : Unfilled a.role) :
      Breaks g n "AGENT_ROLE_REQUIRED"
  | goals {a : Agent} (hn : n.component = .agent a) (h : Unfilled a.goals) :
      Breaks g n "AGENT_GOALS_REQUIRED"
  | description {t : Task} (hn : n.component = .task t) (h : Unfilled t.description) :
      Breaks g n "TASK_DESCRIPTION_REQUIRED"
  | assignment {t : Task} (hn : n.component = .task t) (htargets : ∀ e ∈ g.edges, e.target ≠ n.id) :
      Breaks g n "TASK_AGENT_REQUIRED"
  | toolType {t : Tool} (hn : n.component = .tool t) (h : Unfilled t.toolType) :
      Breaks g n "TOOL_TYPE_REQUIRED"
  | condition {f : Flow} (hn : n.component = .flow f) (hflow : f.flowType = some "conditional")
      (h : Unfilled f.condition) : Breaks g n "FLOW_CONDITION_REQUIRED"

/-- The codes of the rules about attributes and assignment. -/
def requiredCodes : List String :=
  ["AGENT_ROLE_REQUIRED", "AGENT_GOALS_REQUIRED", "TASK_DESCRIPTION_REQUIRED",
    "TASK_AGENT_REQUIRED", "TOOL_TYPE_REQUIRED", "FLOW_CONDITION_REQUIRED"]

variable {g : Graph} {n : Node} {code : String}

theorem isNone_filled_iff (text : Option String) : (filled text).isNone = true ↔ Unfilled text := by
  rw [Option.isNone_iff_eq_none, filled_eq_none_iff, Unfilled]

/-- No edge has the id as its target. -/
theorem not_any_target_iff (g : Graph) (id : String) :
    (!g.edges.any fun e => e.target == id) = true ↔ ∀ e ∈ g.edges, e.target ≠ id := by
  simp [List.any_eq_false]

theorem lacks_iff_breaks (hcode : code ≠ "NODE_ISOLATED") :
    Lacks n (g.edges.any fun e => e.target == n.id) code ↔ Breaks g n code := by
  constructor
  · rintro ⟨f, hf, rfl⟩
    rw [lacks] at hf
    -- Whatever a node of its kind can lack breaks one rule.
    cases hn : n.component with
    | agent a =>
      simp only [hn, List.mem_append, mem_findingIf, isNone_filled_iff] at hf
      obtain ⟨h, rfl⟩ | ⟨h, rfl⟩ := hf
      · exact .role hn h
      · exact .goals hn h
    | task t =>
      simp only [hn, List.mem_append, mem_findingIf, isNone_filled_iff, not_any_target_iff] at hf
      obtain ⟨h, rfl⟩ | ⟨h, rfl⟩ := hf
      · exact .description hn h
      · exact .assignment hn h
    | tool t =>
      simp only [hn, mem_findingIf, isNone_filled_iff] at hf
      obtain ⟨h, rfl⟩ := hf
      exact .toolType hn h
    | flow f =>
      simp only [hn, mem_findingIf, Bool.and_eq_true, isNone_filled_iff, Flow.isConditional_iff]
        at hf
      obtain ⟨⟨hflow, h⟩, rfl⟩ := hf
      exact .condition hn hflow h
  · intro h
    rw [Lacks, lacks]
    cases h with
    | isolated => exact absurd rfl hcode
    | role hn h =>
      simp only [hn, List.mem_append, mem_findingIf, isNone_filled_iff]
      exact ⟨_, .inl ⟨h, rfl⟩, rfl⟩
    | goals hn h =>
      simp only [hn, List.mem_append, mem_findingIf, isNone_filled_iff]
      exact ⟨_, .inr ⟨h, rfl⟩, rfl⟩
    | description hn h =>
      simp only [hn, List.mem_append, mem_findingIf, isNone_filled_iff]
      exact ⟨_, .inl ⟨h, rfl⟩, rfl⟩
    | assignment hn htargets =>
      simp only [hn, List.mem_append, mem_findingIf, not_any_target_iff]
      exact ⟨_, .inr ⟨htargets, rfl⟩, rfl⟩
    | toolType hn h =>
      simp only [hn, mem_findingIf, isNone_filled_iff]
      exact ⟨_, ⟨h, rfl⟩, rfl⟩
    | condition hn hflow h =>
      simp only [hn, mem_findingIf, Bool.and_eq_true, isNone_filled_iff, Flow.isConditional_iff]
      exact ⟨_, ⟨⟨hflow, h⟩, rfl⟩, rfl⟩

/-! ## What is reported about a node -/

theorem code_mem_of_mem_lacks {reached : Bool} {f : Finding} (hf : f ∈ lacks n reached) :
    f.code ∈ requiredCodes := by
  obtain ⟨-, ⟨-, hcode⟩ | ⟨-, hcode⟩⟩ := mem_lacks_cases hf
  · exact List.mem_append_left ["FLOW_CONDITION_REQUIRED"] hcode
  · rw [hcode]
    decide

theorem code_mem_of_mem_required {f : Finding} (hf : f ∈ required g g.adjacency) :
    f.code ∈ requiredCodes := by
  obtain ⟨i, -, hi⟩ := List.mem_flatMap.1 hf
  exact code_mem_of_mem_lacks hi

theorem breaks_isolationCode_iff :
    Breaks g n "NODE_ISOLATED" ↔ ∀ e ∈ g.edges, e.source ≠ n.id ∧ e.target ≠ n.id := by
  refine ⟨fun h => ?_, .isolated⟩
  generalize hcode : "NODE_ISOLATED" = code at h
  cases h with
  | isolated hends => exact hends
  | _ => exact absurd hcode (by decide)

/-- Which nodes are isolated. -/
theorem mem_isolation_iff (hd : (g.nodes.map Node.id).Nodup) {f : Finding} :
    f ∈ isolation g g.adjacency ↔
      ∃ n ∈ g.nodes, Breaks g n "NODE_ISOLATED" ∧ f = isolatedNode n := by
  rw [isolation_eq hd, List.mem_map]
  refine exists_congr fun n => ?_
  rw [List.mem_filter, and_assoc, breaks_isolationCode_iff, eq_comm (a := f)]
  simp [List.any_eq_false]

/-- **What is reported about a node is what the table has for it.** -/
theorem reports_iff_breaks (hd : (g.nodes.map Node.id).Nodup) (hn : n ∈ g.nodes)
    (hcycle : code ≠ cycleCode) : Reports g n.id code ↔ Breaks g n code := by
  by_cases hcode : code = "NODE_ISOLATED"
  · subst hcode
    constructor
    · rintro ⟨f, hf, hnode, hcode⟩
      obtain (hf | hf) | hf := mem_check_iff.1 hf
      · obtain ⟨m, hm, hbreaks, rfl⟩ := (mem_isolation_iff hd).1 hf
        obtain rfl := List.inj_on_of_nodup_map hd hm hn (Option.some.inj hnode)
        exact hbreaks
      · have hrequired := code_mem_of_mem_required hf
        rw [hcode] at hrequired
        exact absurd hrequired (by decide)
      · exact absurd ((code_of_mem_cycles hf).symm.trans hcode) hcycle.symm
    · intro h
      exact ⟨_, mem_check_iff.2 (.inl (.inl ((mem_isolation_iff hd).2 ⟨n, hn, h, rfl⟩))), rfl, rfl⟩
  · rw [reports_iff_lacks hd hn hcode hcycle, lacks_iff_breaks hcode]

/-! ## Nothing is reported twice -/

theorem sublist_findingIf (applies : Bool) (f : Finding) : (findingIf applies f).Sublist [f] := by
  cases applies
  · exact List.nil_sublist _
  · exact List.Sublist.refl _

/-- A node lacks no attribute twice. -/
theorem nodup_map_code_lacks (n : Node) (reached : Bool) :
    ((lacks n reached).map Finding.code).Nodup := by
  rw [lacks]
  cases n.component with
  | agent a =>
    refine List.Nodup.sublist (((sublist_findingIf _ _).append (sublist_findingIf _ _)).map _) ?_
    simp [Finding.error]
  | task t =>
    refine List.Nodup.sublist (((sublist_findingIf _ _).append (sublist_findingIf _ _)).map _) ?_
    simp [Finding.error]
  | tool t => exact List.Nodup.sublist ((sublist_findingIf _ _).map _) (List.nodup_singleton _)
  | flow f => exact List.Nodup.sublist ((sublist_findingIf _ _).map _) (List.nodup_singleton _)

/-- What is known a finding by: the node it is about, and its code. -/
def subject (f : Finding) : Option String × String := (f.node, f.code)

/-- Findings of one rule about different nodes. -/
theorem nodup_map_subject_of_node {findings : List Finding}
    (h : (findings.map Finding.node).Nodup) : (findings.map subject).Nodup := by
  refine List.Nodup.of_map Prod.fst ?_
  rwa [List.map_map]

theorem nodup_isolation (hd : (g.nodes.map Node.id).Nodup) :
    ((isolation g g.adjacency).map subject).Nodup := by
  refine nodup_map_subject_of_node ?_
  rw [isolation_eq hd, List.map_map]
  show (List.map (some ∘ Node.id) _).Nodup
  rw [← List.map_map]
  exact (List.Nodup.sublist (List.filter_sublist.map _) hd).map (Option.some_injective _)

theorem nodup_required (hd : (g.nodes.map Node.id).Nodup) :
    ((required g g.adjacency).map subject).Nodup := by
  rw [required_eq hd, List.map_flatMap, List.nodup_flatMap]
  refine ⟨fun n _ => ?_, ?_⟩
  · refine List.Nodup.of_map Prod.snd ?_
    rw [List.map_map]
    exact nodup_map_code_lacks n _
  · refine List.Pairwise.imp ?_ (List.pairwise_map.1 hd)
    intro n m hne
    refine List.disjoint_left.2 fun x hx hx' => ?_
    obtain ⟨f, hf, rfl⟩ := List.mem_map.1 hx
    obtain ⟨f', hf', hsubject⟩ := List.mem_map.1 hx'
    have hid := (mem_lacks_cases hf').1.symm.trans
      ((congrArg Prod.fst hsubject).trans (mem_lacks_cases hf).1)
    exact hne (Option.some.inj hid).symm

theorem nodup_cycles (hd : (g.nodes.map Node.id).Nodup) :
    ((cycles g g.adjacency).map subject).Nodup := by
  refine nodup_map_subject_of_node ?_
  rw [cycles, List.map_map]
  refine (cycleNodes_nodup _).map fun i j hij => ?_
  exact Graph.nodeAt_id_injective hd (Option.some.inj hij)

/-- Findings with other codes are other findings. -/
theorem disjoint_map_subject {findings others : List Finding}
    (h : ∀ f ∈ findings, ∀ f' ∈ others, f.code ≠ f'.code) :
    List.Disjoint (findings.map subject) (others.map subject) := by
  rw [List.disjoint_left]
  intro x hx hx'
  obtain ⟨f, hf, rfl⟩ := List.mem_map.1 hx
  obtain ⟨f', hf', hsubject⟩ := List.mem_map.1 hx'
  exact h f hf f' hf' (congrArg Prod.snd hsubject).symm

/-- **Nothing is reported twice about a node.** -/
theorem nodup_check (hd : (g.nodes.map Node.id).Nodup) : ((check g).map subject).Nodup := by
  rw [check, List.map_append, List.map_append]
  refine ((nodup_isolation hd).append (nodup_required hd) ?_).append (nodup_cycles hd) ?_
  · refine disjoint_map_subject fun f hf f' hf' hcode => ?_
    have hrequired := code_mem_of_mem_required hf'
    rw [← hcode, code_of_mem_isolation hf] at hrequired
    exact absurd hrequired (by decide)
  · rw [← List.map_append]
    refine disjoint_map_subject fun f hf f' hf' hcode => ?_
    rw [code_of_mem_cycles hf'] at hcode
    obtain hf | hf := List.mem_append.1 hf
    · rw [code_of_mem_isolation hf] at hcode
      exact absurd hcode (by decide)
    · exact code_ne_of_mem_required hf hcode

/-! ## The order of the findings -/

/-- These are findings about the nodes in turn, with these codes. -/
def InTurn (g : Graph) (codes : List String) (findings : List Finding) : Prop :=
  ∃ about : Node → List Finding, findings = g.nodes.flatMap about ∧
    ∀ n ∈ g.nodes, ∀ f ∈ about n, f.node = some n.id ∧ f.code ∈ codes

/-- Isolated nodes come first, then what nodes lack, then the cycles. -/
def Arranged (g : Graph) (findings : List Finding) : Prop :=
  ∃ isolated required cycles, findings = isolated ++ required ++ cycles ∧
    InTurn g ["NODE_ISOLATED"] isolated ∧ InTurn g requiredCodes required ∧
    ∀ f ∈ cycles, f.code = "CYCLE_DETECTED"

theorem map_filter_eq_flatMap {α β : Type} (p : α → Bool) (f : α → β) (l : List α) :
    (l.filter p).map f = l.flatMap fun a => if p a then [f a] else [] := by
  induction l with
  | nil => rfl
  | cons a l ih =>
    rw [List.filter_cons, List.flatMap_cons, ← ih]
    cases p a <;> rfl

theorem inTurn_isolation (hd : (g.nodes.map Node.id).Nodup) :
    InTurn g ["NODE_ISOLATED"] (isolation g g.adjacency) := by
  refine ⟨_, (isolation_eq hd).trans (map_filter_eq_flatMap ..), fun n _ f hf => ?_⟩
  split_ifs at hf
  · rw [List.mem_singleton.1 hf]
    exact ⟨rfl, List.mem_singleton_self _⟩
  · exact absurd hf List.not_mem_nil

theorem inTurn_required (hd : (g.nodes.map Node.id).Nodup) :
    InTurn g requiredCodes (required g g.adjacency) :=
  ⟨_, required_eq hd, fun _ _ _ hf => ⟨(mem_lacks_cases hf).1, code_mem_of_mem_lacks hf⟩⟩

/-- **A check goes by the rules.**  Cycles apart, what it reports about a node is what the table has
for it; it reports nothing twice; and its findings come rule by rule, and node by node. -/
theorem check_goes_by_rules (hd : (g.nodes.map Node.id).Nodup) :
    (∀ n ∈ g.nodes, ∀ code, code ≠ "CYCLE_DETECTED" → (Reports g n.id code ↔ Breaks g n code)) ∧
      ((check g).map fun f => (f.node, f.code)).Nodup ∧ Arranged g (check g) := by
  refine ⟨fun n hn code hcode => reports_iff_breaks hd hn hcode, nodup_check hd, ?_⟩
  exact ⟨_, _, _, rfl, inTurn_isolation hd, inTurn_required hd, fun f hf => code_of_mem_cycles hf⟩

/-- A task that a missing node leads to, an agent that leads to a missing node, and a tool that no
edge names. -/
def halfWired : Graph where
  nodes := [⟨"k", .origin, .task {}, []⟩, ⟨"a", .origin, .agent { role := some "" }, []⟩,
    ⟨"t", .origin, .tool { toolType := some "FileReadTool" }, []⟩]
  edges := [⟨"1", "x", "k", []⟩, ⟨"2", "a", "y", []⟩, ⟨"3", "x", "y", []⟩]

theorem check_goes_by_rules_halfWired : (halfWired.nodes.map Node.id).Nodup ∧
    Reports halfWired "k" "TASK_DESCRIPTION_REQUIRED" ∧
    ¬ Reports halfWired "k" "TASK_AGENT_REQUIRED" ∧ ¬ Reports halfWired "a" "NODE_ISOLATED" ∧
    Reports halfWired "a" "AGENT_ROLE_REQUIRED" ∧ Reports halfWired "t" "NODE_ISOLATED" := by
  have hd : (halfWired.nodes.map Node.id).Nodup := by decide
  obtain ⟨hreports, -, -⟩ := check_goes_by_rules hd
  have hk := hreports ⟨"k", .origin, .task {}, []⟩ (by decide)
  have ha := hreports ⟨"a", .origin, .agent { role := some "" }, []⟩ (by decide)
  have ht := hreports ⟨"t", .origin, .tool { toolType := some "FileReadTool" }, []⟩ (by decide)
  refine ⟨hd, (hk _ (by decide)).2 (.description rfl (.inl rfl)), ?_, ?_,
    (ha _ (by decide)).2 (.role rfl (.inr rfl)), (ht _ (by decide)).2 (.isolated (by decide))⟩
  · rw [hk _ (by decide)]
    intro h
    generalize hcode : "TASK_AGENT_REQUIRED" = code at h
    cases h with
    | assignment _ htargets => exact htargets ⟨"1", "x", "k", []⟩ (by decide) rfl
    | _ => exact absurd hcode (by decide)
  · rw [ha _ (by decide), breaks_isolationCode_iff]
    decide

end CrewChart.Lint

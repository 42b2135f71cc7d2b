import CrewChart.Plan.Resolve
import CrewChart.Proofs.ByteOrder
import CrewChart.Proofs.Links

/-!
# A plan refers only to what it makes

A plan keeps its tools, agents and tasks in three lists that refer to each other by id, and lists
the classes to be imported.  This file is about those references: nothing is referred to that is not
there, and where the ids of a chart are distinct a reference can mean one entry only.

## What is here

* `namesIn_intercalate` — names that are joined by commas can be told apart again.
* `pairwise_importsOf`, `mem_importsOf_iff` — the imports are sorted, each once, and are the classes
  of the tools.
* `class?_makingOf_iff` — which type becomes a class.
* `map_id_entries` — the entries of a kind are the nodes of that kind, in order.
* `exists_tool_of_mem_toolsOf`, `exists_agent_of_agentOf` — what an agent uses is made, and who does
  a task is an agent.
* `Closed`, `Unambiguous`, `resolve_refers_to_entries` — all of it, said of the plan of a chart.
-/

set_option autoImplicit false

namespace CrewChart.Plan

/-! ## Names joined by commas -/

/-- The parts of a text that commas with a blank set apart. -/
def parts : List Char → List (List Char)
  | [] => [[]]
  | ',' :: ' ' :: r => [] :: parts r
  | c :: r => (parts r).modifyHead (c :: ·)

/-- The names a text lists; an empty text lists none. -/
def namesIn (text : String) : List String :=
  if text = "" then [] else (parts text.toList).map String.ofList

theorem parts_cons {c : Char} (hc : c ≠ ',') (r : List Char) :
    parts (c :: r) = (parts r).modifyHead (c :: ·) := by
  rw [parts]
  intro r' h _
  exact hc h

theorem parts_of_notMem {w : List Char} (hw : ',' ∉ w) : parts w = [w] := by
  induction w with
  | nil => rfl
  | cons c w ih =>
    rw [List.mem_cons, not_or] at hw
    rw [parts_cons (Ne.symm hw.1), ih hw.2]
    rfl

theorem parts_append {w : List Char} (hw : ',' ∉ w) (r : List Char) :
    parts (w ++ ',' :: ' ' :: r) = w :: parts r := by
  induction w with
  | nil => rfl
  | cons c w ih =>
    rw [List.mem_cons, not_or] at hw
    rw [List.cons_append, parts_cons (Ne.symm hw.1), ih hw.2]
    rfl

theorem parts_intercalate {name : String} {names : List String}
    (h : ∀ n ∈ name :: names, ',' ∉ n.toList) :
    parts (", ".intercalate (name :: names)).toList = (name :: names).map String.toList := by
  induction names generalizing name with
  | nil =>
    rw [String.intercalate_singleton, parts_of_notMem (h name List.mem_cons_self)]
    rfl
  | cons next names ih =>
    obtain ⟨hname, hnames⟩ := List.forall_mem_cons.1 h
    rw [String.intercalate_cons_cons, String.toList_append, String.toList_append,
      List.append_assoc]
    exact (parts_append hname _).trans (congrArg _ (ih hnames))

/-- Names that are joined leave nothing only if there are none. -/
theorem intercalate_eq_empty_iff {names : List String} (h : ∀ n ∈ names, n ≠ "" ∧ ',' ∉ n.toList) :
    ", ".intercalate names = "" ↔ names = [] := by
  cases names with
  | nil => exact iff_of_true rfl rfl
  | cons name names =>
    refine iff_of_false (fun hempty => ?_) (List.cons_ne_nil _ _)
    have hparts := parts_intercalate fun n hn => (h n hn).2
    rw [hempty] at hparts
    obtain ⟨hname, -⟩ := List.cons.inj hparts
    exact (h name List.mem_cons_self).1 (String.toList_inj.1 hname.symm)

/-- **Names that are joined can be told apart again**, if none is empty or holds a comma. -/
theorem namesIn_intercalate {names : List String} (h : ∀ n ∈ names, n ≠ "" ∧ ',' ∉ n.toList) :
    namesIn (", ".intercalate names) = names := by
  cases names with
  | nil => rfl
  | cons name names =>
    have hne := mt (intercalate_eq_empty_iff h).1 (List.cons_ne_nil _ _)
    rw [namesIn, if_neg hne, parts_intercalate fun n hn => (h n hn).2, List.map_map]
    simp

/-! ## Imports -/

theorem pairwise_insertName (name : String) {names : List String}
    (h : names.Pairwise (· < ·)) : (insertName name names).Pairwise (· < ·) := by
  induction names with
  | nil => exact List.pairwise_singleton _ _
  | cons x names ih =>
    obtain ⟨hx, hnames⟩ := List.pairwise_cons.1 h
    rw [insertName]
    split_ifs with hlt heq
    · exact List.pairwise_cons.2 ⟨List.forall_mem_cons.2 ⟨hlt, fun y hy => hlt.trans (hx y hy)⟩, h⟩
    · exact h
    · refine List.pairwise_cons.2 ⟨fun y hy => ?_, ih hnames⟩
      rcases (mem_insertName _ _ _).1 hy with rfl | hy
      · exact lt_of_le_of_ne (not_lt.1 hlt) (Ne.symm heq)
      · exact hx y hy

theorem pairwise_importsOf (tools : List ToolEntry) : (importsOf tools).Pairwise (· < ·) := by
  rw [importsOf]
  induction tools.filterMap fun t => t.making.class? with
  | nil => exact .nil
  | cons name names ih => exact pairwise_insertName name ih

theorem mem_importsOf_iff {tools : List ToolEntry} {name : String} :
    name ∈ importsOf tools ↔ ∃ t ∈ tools, t.making.class? = some name := by
  rw [importsOf, ← List.mem_filterMap]
  induction tools.filterMap fun t => t.making.class? with
  | nil => rfl
  | cons x names ih => rw [List.foldr_cons, mem_insertName, ih, List.mem_cons]

theorem isNamePart_of_isName {name : String} (h : Script.isName name = true) :
    name ≠ "" ∧ ∀ c ∈ name.toList, Script.isNamePart c = true := by
  rw [Script.isName] at h
  split at h
  · exact absurd h (by simp)
  · rename_i c rest hchars
    rw [Bool.and_eq_true, List.all_eq_true] at h
    refine ⟨fun hempty => ?_, ?_⟩
    · rw [hempty] at hchars
      exact absurd hchars (by simp)
    · rw [hchars]
      refine List.forall_mem_cons.2 ⟨?_, h.2⟩
      rw [Script.isNamePart, h.1, Bool.true_or]

/-- What becomes a class: a type that is a name, other than that for tools of one's own. -/
theorem class?_makingOf_iff (toolType : Option String) (name : String) :
    (makingOf toolType).class? = some name
      ↔ toolType = some name ∧ Script.isName name = true ∧ name ≠ customTool := by
  rw [makingOf]
  cases hfilled : filled toolType with
  | none =>
    refine iff_of_false (by simp [Making.class?]) ?_
    rintro ⟨rfl, hname, -⟩
    exact (isNamePart_of_isName hname).1 (by simpa using (filled_eq_none_iff _).1 hfilled)
  | some typed =>
    obtain ⟨rfl, -⟩ := (filled_eq_some_iff _ _).1 hfilled
    rw [Option.some.injEq]
    dsimp only
    split_ifs with hcustom hname
    · refine iff_of_false (by simp [Making.class?]) ?_
      rintro ⟨rfl, -, hne⟩
      exact hne hcustom
    · rw [Making.class?, Option.some.injEq]
      refine ⟨?_, And.left⟩
      rintro rfl
      exact ⟨rfl, hname, hcustom⟩
    · refine iff_of_false (by simp [Making.class?]) ?_
      rintro ⟨rfl, hyes, -⟩
      exact hname hyes

/-- Names can be joined by commas. -/
theorem notMem_comma_of_isName {name : String} (h : Script.isName name = true) :
    name ≠ "" ∧ ',' ∉ name.toList := by
  obtain ⟨hne, hchars⟩ := isNamePart_of_isName h
  exact ⟨hne, fun hcomma => absurd (hchars _ hcomma) (by decide)⟩

/-! ## Entries -/

/-- **The entries of a kind are the nodes of that kind, in order.** -/
theorem map_id_entries {ι α β : Type} (l : List ι) (node : ι → Node) (pick : Node → Option α)
    (make : ι → α → β) (id : β → String) (hid : ∀ i x, id (make i x) = (node i).id) :
    (l.filterMap fun i => (pick (node i)).map (make i)).map id
      = ((l.map node).filter fun n => (pick n).isSome).map Node.id := by
  induction l with
  | nil => rfl
  | cons i l ih =>
    rw [List.filterMap_cons, List.map_cons, List.filter_cons]
    cases hpick : pick (node i) with
    | none => exact ih
    | some x =>
      rw [Option.map_some, Option.isSome_some, if_pos rfl, List.map_cons, List.map_cons, hid, ih]

variable (g : Graph) (model : String)

theorem map_id_tools : (resolve g model).tools.map ToolEntry.id
    = (g.nodes.filter fun n => n.tool?.isSome).map Node.id := by
  have h := map_id_entries g.nodes (fun n => n) Node.tool? toolEntry ToolEntry.id fun _ _ => rfl
  rw [List.map_id'] at h
  exact h

theorem map_id_agents : (resolve g model).agents.map AgentEntry.id
    = (g.nodes.filter fun n => n.agent?.isSome).map Node.id := by
  conv_rhs => rw [← g.map_nodeAt_finRange]
  exact map_id_entries (List.finRange g.size) g.nodeAt Node.agent? _ _ fun _ _ => rfl

theorem map_id_tasks : (resolve g model).tasks.map TaskEntry.id
    = (g.nodes.filter fun n => n.task?.isSome).map Node.id := by
  conv_rhs => rw [← g.map_nodeAt_finRange]
  exact map_id_entries (List.finRange g.size) g.nodeAt Node.task? _ _ fun _ _ => rfl

/-! ## References -/

theorem nodup_eraseDups {α : Type} [BEq α] [LawfulBEq α] (l : List α) : l.eraseDups.Nodup := by
  induction hn : l.length using Nat.strong_induction_on generalizing l with
  | _ n ih =>
    cases l with
    | nil => exact List.nodup_nil
    | cons a l =>
      rw [List.eraseDups_cons, List.nodup_cons, List.mem_eraseDups]
      refine ⟨fun ha => ?_, ih _ ?_ _ rfl⟩
      · exact absurd (List.mem_filter.1 ha).2 (by simp)
      · rw [← hn, List.length_cons]
        exact Nat.lt_succ_of_le (List.length_filter_le _ _)

variable {g}

/-- What an agent uses is made. -/
theorem exists_tool_of_mem_toolsOf {a : Adjacency g.size} {tools : List ToolEntry}
    {i : Fin g.size} {key : String} (h : key ∈ toolsOf g a (emittedIds tools) i) :
    ∃ t ∈ tools, t.id = key ∧ t.making.isEmitted = true := by
  rw [toolsOf, List.mem_eraseDups, List.mem_filter, List.contains_iff_mem] at h
  obtain ⟨t, ht, rfl⟩ := List.mem_map.1 h.2
  obtain ⟨htools, hemitted⟩ := List.mem_filter.1 ht
  exact ⟨t, htools, rfl, hemitted⟩

/-- Who does a task is an agent. -/
theorem exists_agent_of_agentOf {a : Adjacency g.size} {i : Fin g.size} {key : String}
    (h : agentOf g a i = some key) : ∃ n ∈ g.nodes, n.agent?.isSome = true ∧ n.id = key := by
  rw [agentOf] at h
  split at h
  · exact absurd h (by simp)
  · rename_i l rest _
    obtain ⟨agent, hagent, hid⟩ := Option.map_eq_some_iff.1 h
    exact ⟨g.nodeAt l.node, g.nodeAt_mem _, by rw [hagent]; rfl, hid⟩

/-! ## The plan of a chart -/

/-- The text that lists the imports. -/
def importText (p : Plan) : String := ", ".intercalate p.imports

/-- Nothing is referred to that is not there. -/
structure Closed (p : Plan) : Prop where
  /-- What an agent uses is made. -/
  tools : ∀ a ∈ p.agents, ∀ key ∈ a.tools,
    ∃ t ∈ p.tools, t.id = key ∧ t.making.isEmitted = true
  /-- An agent lists each of its tools once. -/
  toolsOnce : ∀ a ∈ p.agents, a.tools.Nodup
  /-- Who does a task is an agent. -/
  agents : ∀ t ∈ p.tasks, ∀ key, t.agent = some key → ∃ a ∈ p.agents, a.id = key
  /-- The imports are in the order of their bytes, each once. -/
  importsOrdered : (namesIn p.importText).Pairwise fun x y => bytes x < bytes y
  /-- The imports are the classes of the tools. -/
  imports : ∀ name, name ∈ namesIn p.importText ↔ ∃ t ∈ p.tools, t.making.class? = some name
  /-- What tools of one's own need is imported if there are any. -/
  custom : p.usesCustomTool = true ↔ ∃ t ∈ p.tools, t.making = .custom

/-- A reference means one entry only. -/
structure Unambiguous (g : Graph) (p : Plan) : Prop where
  /-- The tools are those of the chart, in order. -/
  tools : p.tools.map ToolEntry.id = (g.nodes.filter fun n => n.tool?.isSome).map Node.id
  agents : p.agents.map AgentEntry.id = (g.nodes.filter fun n => n.agent?.isSome).map Node.id
  tasks : p.tasks.map TaskEntry.id = (g.nodes.filter fun n => n.task?.isSome).map Node.id
  toolsNodup : (p.tools.map ToolEntry.id).Nodup
  agentsNodup : (p.agents.map AgentEntry.id).Nodup
  tasksNodup : (p.tasks.map TaskEntry.id).Nodup
  /-- What an agent uses is one tool, and that is made. -/
  tool : ∀ a ∈ p.agents, ∀ key ∈ a.tools,
    ∃ t, p.tools.filter (fun t => t.id == key) = [t] ∧ t.making.isEmitted = true
  /-- Who does a task is one agent. -/
  agent : ∀ t ∈ p.tasks, ∀ key, t.agent = some key →
    ∃ a, p.agents.filter (fun a => a.id == key) = [a]

variable (g)

theorem isName_of_mem_tools {t : ToolEntry} (ht : t ∈ (resolve g model).tools) {name : String}
    (hclass : t.making.class? = some name) : Script.isName name = true := by
  obtain ⟨n, -, hn⟩ := List.mem_filterMap.1 ht
  obtain ⟨tool, -, rfl⟩ := Option.map_eq_some_iff.1 hn
  exact ((class?_makingOf_iff _ _).1 hclass).2.1

theorem closed_resolve : (resolve g model).Closed := by
  -- No name has a comma in it, so the line of imports falls into the names it was made of.
  have hnames : namesIn (resolve g model).importText = importsOf (toolEntries g.nodes) := by
    refine namesIn_intercalate fun name hname => ?_
    obtain ⟨t, ht, hclass⟩ := mem_importsOf_iff.1 hname
    exact notMem_comma_of_isName (isName_of_mem_tools g model ht hclass)
  refine ⟨fun a ha => ?_, fun a ha => ?_, fun t ht key hkey => ?_, ?_, fun name => ?_, ?_⟩
  · obtain ⟨i, -, hi⟩ := List.mem_filterMap.1 ha
    obtain ⟨agent, -, rfl⟩ := Option.map_eq_some_iff.1 hi
    exact fun key hkey => exists_tool_of_mem_toolsOf hkey
  · obtain ⟨i, -, hi⟩ := List.mem_filterMap.1 ha
    obtain ⟨agent, -, rfl⟩ := Option.map_eq_some_iff.1 hi
    exact nodup_eraseDups _
  · obtain ⟨i, -, hi⟩ := List.mem_filterMap.1 ht
    obtain ⟨task, -, rfl⟩ := Option.map_eq_some_iff.1 hi
    obtain ⟨n, hn, hagent, rfl⟩ := exists_agent_of_agentOf hkey
    have hmem : n.id ∈ (resolve g model).agents.map AgentEntry.id := by
      rw [map_id_agents]
      exact List.mem_map_of_mem (List.mem_filter.2 ⟨hn, hagent⟩)
    exact List.mem_map.1 hmem
  · rw [hnames]
    exact (pairwise_importsOf _).imp bytes_lt_bytes
  · rw [hnames]
    exact mem_importsOf_iff
  · rw [usesCustomTool, List.any_eq_true]
    refine exists_congr fun t => and_congr_right fun _ => ?_
    cases t.making <;> simp [Making.isCustom]

theorem unambiguous_resolve (hd : (g.nodes.map Node.id).Nodup) :
    (resolve g model).Unambiguous g := by
  have hnodup : ∀ p : Node → Bool, ((g.nodes.filter p).map Node.id).Nodup :=
    fun p => hd.sublist (List.filter_sublist.map _)
  have htools : ((resolve g model).tools.map ToolEntry.id).Nodup := by
    rw [map_id_tools]
    exact hnodup _
  have hagents : ((resolve g model).agents.map AgentEntry.id).Nodup := by
    rw [map_id_agents]
    exact hnodup _
  have hclosed := closed_resolve g model
  refine ⟨map_id_tools g model, map_id_agents g model, map_id_tasks g model, htools, hagents, ?_,
    fun a ha key hkey => ?_, fun t ht key hkey => ?_⟩
  · rw [map_id_tasks]
    exact hnodup _
  · obtain ⟨t, ht, rfl, hemitted⟩ := hclosed.tools a ha key hkey
    exact ⟨t, filter_key_eq_singleton htools ht, hemitted⟩
  · obtain ⟨a, ha, rfl⟩ := hclosed.agents t ht key hkey
    exact ⟨a, filter_key_eq_singleton hagents ha⟩

/-- **A plan refers only to what it makes**, whatever the chart; and where the ids of the chart are
distinct, each reference means one entry. -/
theorem resolve_refers_to_entries : (resolve g model).Closed ∧
    ((g.nodes.map Node.id).Nodup → (resolve g model).Unambiguous g) :=
  ⟨closed_resolve g model, unambiguous_resolve g model⟩

/-- Two agents that share a tool, one of them joined to it twice and to a tool without a type. -/
def sharedTool : Graph where
  nodes := [⟨"a", .origin, .agent {}, []⟩,
    ⟨"t", .origin, .tool { toolType := some "FileReadTool" }, []⟩,
    ⟨"b", .origin, .agent {}, []⟩, ⟨"u", .origin, .tool {}, []⟩, ⟨"k", .origin, .task {}, []⟩]
  edges := [⟨"1", "a", "t", []⟩, ⟨"2", "b", "t", []⟩, ⟨"3", "b", "t", []⟩, ⟨"4", "b", "u", []⟩,
    ⟨"5", "b", "k", []⟩]

theorem resolve_refers_to_sharedTool : (sharedTool.nodes.map Node.id).Nodup ∧
    (resolve sharedTool defaultModel).agents.map AgentEntry.tools = [["t"], ["t"]] ∧
    (resolve sharedTool defaultModel).tasks.map TaskEntry.agent = [some "b"] ∧
    (resolve sharedTool defaultModel).Unambiguous sharedTool := by
  have hd : (sharedTool.nodes.map Node.id).Nodup := by decide
  refine ⟨hd, by decide +kernel, by decide +kernel, ?_⟩
  exact (resolve_refers_to_entries sharedTool defaultModel).2 hd

end CrewChart.Plan

import CrewChart.Proofs.Loop
import CrewChart.Proofs.Preorder

/-!
# The two flags of a node stay in step

A simulation keeps two flags for each node, and raises them in different places.  A start is
evaluated in a loop over the starts, before any link is followed, and expanded in a second loop,
when its turn has come.  Every other node is evaluated and expanded where a link first leads to it.
The second loop passes a start over if it has been expanded.

`CrewChart.Proofs.Traversal` follows the walk without the first loop, and has it begin again at the
first start that has not been expanded.  Here both loops are followed iteration by iteration, and
the starts come one after the other, so that it can be said of the guard whether it passes any of
them over.

It does not, and all of it rests on one fact about charts: no link leads to a start, because a link
is an edge and a start is the target of none, not even of an edge that comes from nowhere.  So a
start is expanded by nothing but its own turn.

## What is here

* `Progress`, `Progress.next?` — where a simulation is in its two loops, and what it comes to next.
* `Progress.reaches_all` — the loops come to where `Walk.all` does, and stop there.
* `Progress.Walking`, `Progress.Stage` — the invariant, of the second loop and of both.
* `Progress.Stage.next` — one iteration keeps it.
* `Progress.InStep` — what it says of the flags.
* `Walk.unguarded`, `Progress.Walking.foldl_start` — the second loop comes to the same without its
  guard.
* `flags_stay_in_step` — all of it, for every chart.
-/

set_option autoImplicit false

namespace CrewChart

/-- No link leads to a start. -/
theorem Graph.notMem_starts_of_mem_outgoing (g : Graph) (i : Fin g.size) :
    ∀ link ∈ g.adjacency.outgoing.get i, link.node ∉ g.adjacency.starts := by
  intro link hlink
  refine Simulation.notMem_starts_of_mem_successors i _ ?_
  rw [← g.map_node_outgoing]
  exact List.mem_map_of_mem hlink

namespace Simulation

variable {n : Nat} {a : Adjacency n} {w : Walk n} {waiting : List (Fin n)}
  {log : List (Move n)}

/-- Raised flags are counted place by place. -/
theorem count_eq_countP (flags : Vector Bool n) :
    flags.count true = (List.finRange n).countP flags.get := by
  have hflags : flags.toList = (List.finRange n).map flags.get := by
    rw [← List.ofFn_eq_map, ← Vector.toList_ofFn]
    exact congrArg Vector.toList Vector.ofFn_getElem.symm
  rw [← Vector.count_toList, hflags, List.count, List.countP_map]
  simp [Function.comp_def]

/-- As many flags are raised as there are nodes in a list, if they are raised for the nodes in it
and no node is there twice. -/
theorem length_eq_count {flags : Vector Bool n} {nodes : List (Fin n)} (hd : nodes.Nodup)
    (h : ∀ i, flags.get i = true ↔ i ∈ nodes) : nodes.length = flags.count true := by
  have hperm : nodes.Perm ((List.finRange n).filter flags.get) := by
    refine (List.perm_ext_iff_of_nodup hd ((List.nodup_finRange n).filter _)).2 fun i => ?_
    rw [List.mem_filter, h i]
    exact (and_iff_right (List.mem_finRange i)).symm
  rw [hperm.length_eq, ← List.countP_eq_length_filter, count_eq_countP]

/-! ## The two loops -/

/-- Where a simulation is: the starts that are still to be evaluated, those whose turn is still to
come, and the walk. -/
structure Progress (n : Nat) where
  unevaluated : List (Fin n)
  waiting : List (Fin n)
  walk : Walk n

/-- The whole walk, if it did not look whether a start has been expanded. -/
def Walk.unguarded (a : Adjacency n) : Walk n :=
  a.starts.foldl (fun w i => run a (w.expand a i)) (a.starts.foldl evaluate (initial n))

namespace Progress

variable {p q : Progress n}

def first (a : Adjacency n) : Progress n := ⟨a.starts, a.starts, .initial n⟩

/-- What a simulation comes to next.  The starts are evaluated first.  After that the walk makes a
step as long as there is something on the stack; when there is nothing, it is the turn of the next
start, which is expanded unless that has been done. -/
def next? (a : Adjacency n) (p : Progress n) : Option (Progress n) :=
  match p.unevaluated, p.walk.stack, p.waiting with
  | i :: rest, _, _ => some { p with unevaluated := rest, walk := p.walk.evaluate i }
  | [], top :: below, _ => some { p with walk := p.walk.step a top below }
  | [], [], i :: rest => some { p with waiting := rest, walk := p.walk.follow a i }
  | [], [], [] => none

/-- What a simulation comes to, and the moves by which it does. -/
inductive Reaches (a : Adjacency n) : List (Move n) → Progress n → Prop
  | first : Reaches a [] (.first a)
  | next {log : List (Move n)} {p q : Progress n} (h : Reaches a log p)
      (hq : p.next? a = some q) :
      Reaches a (log ++ Frame.moves p.walk.stack q.walk.stack) q

/-! ### Where they end -/

theorem exists_reaches_evaluated {w : Walk n} {rest : List (Fin n)}
    (h : Reaches a log ⟨rest, waiting, w⟩) :
    ∃ log, Reaches a log ⟨[], waiting, rest.foldl Walk.evaluate w⟩ := by
  induction rest generalizing w log with
  | nil => exact ⟨log, h⟩
  | cons i rest ih => exact ih (h.next rfl)

theorem exists_reaches_run (h : Reaches a log ⟨[], waiting, w⟩) :
    ∃ log, Reaches a log ⟨[], waiting, Walk.run a w⟩ := by
  fun_induction Walk.run a w generalizing log with
  | case1 w hw => exact ⟨log, h⟩
  | case2 w top below hw _ ih => exact ih (h.next (by rw [next?, hw]))

/-- What is done for a start is its turn, and then a run. -/
theorem start_eq_run (hw : w.stack = []) (i : Fin n) : w.start a i = Walk.run a (w.follow a i) := by
  rw [Walk.start, Walk.follow]
  split
  · exact (Walk.run_nil w hw).symm
  · rfl

theorem exists_reaches_start {i : Fin n} (h : Reaches a log ⟨[], i :: waiting, w⟩)
    (hw : w.stack = []) : ∃ log, Reaches a log ⟨[], waiting, w.start a i⟩ := by
  rw [start_eq_run hw]
  exact exists_reaches_run (h.next (by rw [next?, hw]))

theorem stack_start (hw : w.stack = []) (i : Fin n) : (w.start a i).stack = [] := by
  rw [start_eq_run hw]
  exact (Walk.run_induction (P := fun _ => True) (fun _ _ _ _ _ => trivial) trivial).2

theorem exists_reaches_foldl (h : Reaches a log ⟨[], waiting, w⟩) (hw : w.stack = []) :
    ∃ log, Reaches a log ⟨[], [], waiting.foldl (Walk.start a) w⟩ := by
  induction waiting generalizing w log with
  | nil => exact ⟨log, h⟩
  | cons i rest ih =>
    obtain ⟨log, hlog⟩ := exists_reaches_start h hw
    exact ih hlog (stack_start hw i)

/-- **The two loops come to where the whole walk does**, and stop there. -/
theorem reaches_all (a : Adjacency n) : (∃ log, Reaches a log ⟨[], [], Walk.all a⟩) ∧
    next? a ⟨[], [], Walk.all a⟩ = none := by
  have hfirst : Reaches a [] ⟨a.starts, a.starts, .initial n⟩ := .first
  obtain ⟨log, hlog⟩ := exists_reaches_evaluated hfirst
  refine ⟨exists_reaches_foldl hlog (Walk.resting_evaluated a).stack, ?_⟩
  rw [next?, (Walk.all_spec a).1.stack]

/-! ## The invariant -/

/-- What holds in the second loop, when the turn of these starts is still to come. -/
structure Walking (a : Adjacency n) (waiting : List (Fin n)) (w : Walk n) : Prop where
  inv : Walk.Inv a w
  suffix : waiting <:+ a.starts
  turn : ∀ i ∈ a.starts, w.expanded.get i = true ↔ i ∉ waiting

/-- What holds at every iteration.  In the first loop nothing has been done but to evaluate some of
the starts. -/
inductive Stage (a : Adjacency n) : Progress n → Prop
  | evaluating {before rest : List (Fin n)} (h : a.starts = before ++ rest) :
      Stage a ⟨rest, a.starts, before.foldl Walk.evaluate (.initial n)⟩
  | walking {waiting : List (Fin n)} {w : Walk n} (h : Walking a waiting w) :
      Stage a ⟨[], waiting, w⟩

/-- Evaluating nodes expands none and puts nothing on the stack. -/
theorem foldl_evaluate_initial (nodes : List (Fin n)) :
    let w := nodes.foldl Walk.evaluate (.initial n)
    w.order = nodes.reverse ∧ (∀ i, w.expanded.get i = false) ∧ w.stack = [] ∧
      ∀ i, w.evaluated.get i = true ↔ i ∈ nodes := by
  obtain ⟨horder, hexpanded, hstack, hevaluated⟩ := Walk.foldl_evaluate (.initial n) nodes
  refine ⟨horder.trans (List.append_nil _), fun i => ?_, hstack, fun i => ?_⟩
  · rw [hexpanded]
    simp [Walk.initial, Vector.get]
  · rw [hevaluated]
    simp [Walk.initial, Vector.get]

/-- The second loop begins when all starts have been evaluated. -/
theorem walking_evaluated (a : Adjacency n) :
    Walking a a.starts (a.starts.foldl Walk.evaluate (.initial n)) where
  inv := (Walk.resting_evaluated a).inv
  suffix := List.suffix_refl _
  turn i hi := by
    rw [(foldl_evaluate_initial a.starts).2.1]
    exact iff_of_false Bool.false_ne_true (not_not.2 hi)

namespace Walking

variable {i : Fin n}

theorem nodup (h : Walking a waiting w) : waiting.Nodup :=
  a.nodup_starts.sublist h.suffix.sublist

/-- **The guard does not fire**: a start whose turn is still to come has not been expanded. -/
theorem unexpanded (h : Walking a waiting w) (hi : i ∈ waiting) : w.expanded.get i = false :=
  Bool.eq_false_iff.2 fun hexp => (h.turn i (h.suffix.subset hi)).1 hexp hi

/-- The turn of a start: it is expanded, and no other node is. -/
theorem expand (h : Walking a (i :: waiting) w) (hw : w.stack = []) :
    Walking a waiting (w.expand a i) := by
  have hi : i ∈ a.starts := h.suffix.subset List.mem_cons_self
  have horder : i ∈ w.order := h.inv.grown.suffix.subset (List.mem_reverse.2 hi)
  refine ⟨Walk.inv_expand ⟨h.inv, hw⟩ horder, (List.suffix_cons _ _).trans h.suffix, ?_⟩
  intro j hj
  rw [Walk.expand, get_set]
  split
  · rename_i hij
    exact iff_of_true rfl (hij ▸ (List.nodup_cons.1 h.nodup).1)
  · rename_i hij
    rw [h.turn j hj, List.mem_cons, or_iff_right (Ne.symm hij)]

theorem follow_eq (h : Walking a (i :: waiting) w) : w.follow a i = w.expand a i :=
  if_neg (by rw [h.unexpanded List.mem_cons_self]; exact Bool.false_ne_true)

section Step

variable (hstarts : ∀ i, ∀ link ∈ a.outgoing.get i, link.node ∉ a.starts)
include hstarts

/-- A step expands no start, because no link leads to one. -/
theorem step (h : Walking a waiting w) {top : Frame n} {below : List (Frame n)}
    (hw : w.stack = top :: below) : Walking a waiting (w.step a top below) := by
  refine ⟨Walk.inv_step h.inv hw, h.suffix, ?_⟩
  intro j hj
  cases hp : top.pending with
  | nil =>
    rw [Walk.step_leave hp]
    exact h.turn j hj
  | cons link pending =>
    have hlink : link ∈ a.outgoing.get top.node :=
      (h.inv.pending top (by rw [hw]; exact List.mem_cons_self)).2 (by rw [hp]; simp)
    have hne : link.node ≠ j := fun hlj => hstarts top.node link hlink (hlj ▸ hj)
    rw [Walk.step_visit hp, Walk.expanded_visit, or_iff_right hne]
    exact h.turn j hj

/-- What is done for a start keeps the invariant. -/
theorem start (h : Walking a (i :: waiting) w) (hw : w.stack = []) :
    Walking a waiting (w.start a i) := by
  rw [start_eq_run hw, h.follow_eq]
  exact (Walk.run_induction (fun _ _ _ hs hP => hP.step hstarts hs) (h.expand hw)).1

/-- **The guard may be left out.** -/
theorem foldl_start (h : Walking a waiting w) (hw : w.stack = []) :
    waiting.foldl (Walk.start a) w = waiting.foldl (fun w i => Walk.run a (w.expand a i)) w := by
  induction waiting generalizing w with
  | nil => rfl
  | cons i rest ih =>
    have hstart : w.start a i = Walk.run a (w.expand a i) := by rw [start_eq_run hw, h.follow_eq]
    rw [List.foldl_cons, List.foldl_cons, ih (h.start hstarts hw) (stack_start hw i), hstart]

/-- **One iteration of the second loop keeps the invariant.** -/
theorem next (h : Walking a waiting w) (hq : next? a ⟨[], waiting, w⟩ = some q) : Stage a q := by
  cases hw : w.stack with
  | cons top below =>
    rw [next?, hw] at hq
    obtain rfl := Option.some.inj hq
    exact .walking (h.step hstarts hw)
  | nil =>
    cases waiting with
    | nil =>
      rw [next?, hw] at hq
      exact absurd hq (by simp)
    | cons i rest =>
      rw [next?, hw] at hq
      obtain rfl := Option.some.inj hq
      rw [h.follow_eq]
      exact .walking (h.expand hw)

end Step

end Walking

/-- What is pending on the stack are links. -/
theorem Stage.mem_outgoing (h : Stage a p) {i : Fin n} {link : Link n} {pending : List (Link n)}
    {below : List (Frame n)} (hp : p.walk.stack = ⟨i, link :: pending⟩ :: below) :
    link ∈ a.outgoing.get i := by
  cases h with
  | @evaluating before rest h =>
    rw [(foldl_evaluate_initial before).2.2.1] at hp
    exact absurd hp.symm (List.cons_ne_nil _ _)
  | walking h =>
    have hpending := (h.inv.pending ⟨i, link :: pending⟩ (by rw [hp]; exact List.mem_cons_self)).2
    exact hpending List.mem_cons_self

section Iterations

variable (hstarts : ∀ i, ∀ link ∈ a.outgoing.get i, link.node ∉ a.starts)
include hstarts

/-- **One iteration keeps the invariant.** -/
theorem Stage.next (h : Stage a p) (hq : p.next? a = some q) : Stage a q := by
  cases h with
  | walking h => exact h.next hstarts hq
  | @evaluating before rest h =>
    cases rest with
    | nil =>
      -- all starts have been evaluated, so this is the first iteration of the second loop
      rw [List.append_nil] at h
      subst h
      exact (walking_evaluated a).next hstarts hq
    | cons i rest =>
      obtain rfl := Option.some.inj hq
      have hnext : Stage a ⟨rest, a.starts, (before ++ [i]).foldl Walk.evaluate (.initial n)⟩ :=
        .evaluating (by rw [h, List.append_assoc]; rfl)
      rwa [List.foldl_append] at hnext

/-- **The invariant holds at every iteration.** -/
theorem stage_of_reaches (h : Reaches a log p) : Stage a p := by
  induction h with
  | first =>
    have hfirst : Stage a ⟨a.starts, a.starts, [].foldl Walk.evaluate (.initial n)⟩ :=
      .evaluating rfl
    exact hfirst
  | next _ hq ih => exact ih.next hstarts hq

/-- **No followed link leads to a start.** -/
theorem notMem_starts_of_follow (h : Reaches a log p) {i : Fin n} {link : Link n}
    (hlink : .follow i link ∈ log) : link.node ∉ a.starts := by
  induction h with
  | first => exact absurd hlink List.not_mem_nil
  | next hreached hq ih =>
    rcases List.mem_append.1 hlink with hlink | hlink
    · exact ih hlink
    · obtain ⟨pending, below, hstack⟩ := Frame.exists_of_follow_mem_moves hlink
      exact hstarts i link ((stage_of_reaches hstarts hreached).mem_outgoing hstack)

end Iterations

/-! ## The flags -/

/-- **The two flags of every node are in step.** -/
structure InStep (a : Adjacency n) (p : Progress n) : Prop where
  /-- What is expanded has been evaluated. -/
  evaluated : ∀ i, p.walk.expanded.get i = true → p.walk.evaluated.get i = true
  /-- A node that is not a start is evaluated when it is expanded. -/
  together : ∀ i ∉ a.starts, p.walk.evaluated.get i = true ↔ p.walk.expanded.get i = true
  /-- The starts have their turns in order, -/
  suffix : p.waiting <:+ a.starts
  /-- and a start is expanded when its turn has come. -/
  turn : ∀ i ∈ a.starts, p.walk.expanded.get i = true ↔ i ∉ p.waiting
  /-- The start whose turn is next has not been expanded, so it is not passed over. -/
  next : ∀ i ∈ p.waiting.head?, p.walk.expanded.get i = false
  /-- No node is recorded twice, -/
  nodup : p.walk.order.Nodup
  /-- those that are recorded are those that are evaluated, -/
  recorded : ∀ i, p.walk.evaluated.get i = true ↔ i ∈ p.walk.order
  /-- and there are as many records as evaluated nodes. -/
  count : p.walk.order.length = p.walk.evaluated.count true

theorem Stage.recorded (h : Stage a p) :
    p.walk.order.Nodup ∧ ∀ i, p.walk.evaluated.get i = true ↔ i ∈ p.walk.order := by
  cases h with
  | @evaluating before rest h =>
    obtain ⟨horder, -, -, hevaluated⟩ := foldl_evaluate_initial before
    have hnodup : (before ++ rest).Nodup := h ▸ a.nodup_starts
    rw [horder]
    exact ⟨List.nodup_reverse.2 hnodup.of_append_left,
      fun i => (hevaluated i).trans List.mem_reverse.symm⟩
  | walking h => exact ⟨h.inv.nodup, h.inv.evaluated⟩

/-- No node is expanded without being evaluated, and only starts are evaluated without being
expanded. -/
theorem Stage.flags (h : Stage a p) (i : Fin n) :
    (p.walk.expanded.get i = true → p.walk.evaluated.get i = true) ∧
      (p.walk.evaluated.get i = true → i ∈ a.starts ∨ p.walk.expanded.get i = true) := by
  cases h with
  | @evaluating before rest h =>
    obtain ⟨-, hexpanded, -, hevaluated⟩ := foldl_evaluate_initial before
    refine ⟨fun hi => absurd hi ?_, fun hi => .inl ?_⟩
    · rw [hexpanded]
      exact Bool.false_ne_true
    · rw [h]
      exact List.mem_append_left _ ((hevaluated i).1 hi)
  | walking h =>
    exact ⟨fun hi => (h.inv.evaluated i).2 (h.inv.expanded i hi),
      fun hi => h.inv.begun i ((h.inv.evaluated i).1 hi)⟩

theorem Stage.turn (h : Stage a p) :
    p.waiting <:+ a.starts ∧ ∀ i ∈ a.starts, p.walk.expanded.get i = true ↔ i ∉ p.waiting := by
  cases h with
  | @evaluating before rest h =>
    refine ⟨List.suffix_refl _, fun i hi => iff_of_false ?_ (not_not.2 hi)⟩
    rw [(foldl_evaluate_initial before).2.1]
    exact Bool.false_ne_true
  | walking h => exact ⟨h.suffix, h.turn⟩

theorem Stage.unexpanded (h : Stage a p) {i : Fin n} (hi : i ∈ p.waiting) :
    p.walk.expanded.get i = false := by
  cases h with
  | @evaluating before rest h => exact (foldl_evaluate_initial before).2.1 i
  | walking h => exact h.unexpanded hi

theorem Stage.inStep (h : Stage a p) : InStep a p where
  evaluated i := (h.flags i).1
  together i hi := ⟨fun he => ((h.flags i).2 he).resolve_left hi, (h.flags i).1⟩
  suffix := h.turn.1
  turn := h.turn.2
  next _ hi := h.unexpanded (List.mem_of_mem_head? hi)
  nodup := h.recorded.1
  recorded := h.recorded.2
  count := length_eq_count h.recorded.1 h.recorded.2

end Progress

/-! ## Charts -/

section Report

variable {σ : Type} (stamp : Bool → StateM σ Text.Instant) (clock : σ) {g : Graph}

/-- If there is somewhere to start, the records are those of the nodes in the order of the walk. -/
theorem outcome_simulateM_of_starts (h : g.adjacency.starts ≠ []) :
    ((simulateM stamp g).run clock).1.records.map Record.outcome
      = (Walk.all g.adjacency).order.reverse.map fun i =>
          assess (g.nodeAt i) (g.adjacency.hasIncoming i) := by
  have hsome : outcomes g ≠ [] := by
    intro hnone
    rw [outcomes, List.map_eq_nil_iff] at hnone
    have hprefix := starts_prefix_evaluationOrder g.adjacency
    rw [hnone, List.prefix_nil] at hprefix
    exact h hprefix
  rw [outcome_simulateM, if_neg hsome, outcomes, evaluationOrder]

end Report

/-- **The flags of a simulation stay in step.**  At every iteration of its two loops no link that
was followed leads to a start, and both flags of every node are in step.  The loops end where the
whole walk does, and it would get there without its guard as well.  If there is somewhere to start,
the report has one record for each node that has been evaluated by then.  Ids may repeat and edges
may lack an end. -/
theorem flags_stay_in_step (g : Graph) :
    (∀ log p, Progress.Reaches g.adjacency log p →
      (∀ i link, .follow i link ∈ log → link.node ∉ g.adjacency.starts) ∧
        p.InStep g.adjacency) ∧
    (∃ log, Progress.Reaches g.adjacency log ⟨[], [], Walk.all g.adjacency⟩) ∧
    Progress.next? g.adjacency ⟨[], [], Walk.all g.adjacency⟩ = none ∧
    Walk.all g.adjacency = Walk.unguarded g.adjacency ∧
    ∀ {σ : Type} (stamp : Bool → StateM σ Text.Instant) (clock : σ), g.adjacency.starts ≠ [] →
      let records := ((simulateM stamp g).run clock).1.records
      records.map Record.outcome = (Walk.all g.adjacency).order.reverse.map (fun i =>
          assess (g.nodeAt i) (g.adjacency.hasIncoming i)) ∧
        records.length = (Walk.all g.adjacency).evaluated.count true := by
  have hstarts := g.notMem_starts_of_mem_outgoing
  obtain ⟨⟨log, hlog⟩, hend⟩ := Progress.reaches_all g.adjacency
  have hall := (Progress.stage_of_reaches hstarts hlog).inStep
  refine ⟨?_, ⟨log, hlog⟩, hend, ?_, ?_⟩
  · intro log p h
    exact ⟨fun i link hlink => Progress.notMem_starts_of_follow hstarts h hlink,
      (Progress.stage_of_reaches hstarts h).inStep⟩
  · exact (Progress.walking_evaluated _).foldl_start hstarts (Walk.resting_evaluated _).stack
  · intro σ stamp clock h records
    have hrecords := outcome_simulateM_of_starts stamp clock h
    refine ⟨hrecords, ?_⟩
    have hlength := congrArg List.length hrecords
    rw [List.length_map, List.length_map, List.length_reverse] at hlength
    exact hlength.trans hall.count

/-- After six iterations all three starts have been evaluated, and the walk from the first of them
has come to `e`. -/
theorem flags_stay_in_step_diamond : ∃ log p, Progress.Reaches diamond.adjacency log p ∧
    p.waiting.map Fin.val = [1, 5] ∧ p.walk.order.map Fin.val = [4, 3, 5, 1, 0] ∧
    p.walk.stack.map (fun f => f.node.val) = [4, 3, 0] ∧ p.InStep diamond.adjacency ∧
    diamond.adjacency.starts ≠ [] ∧
    ((simulateM ticking diamond).run 0).1.records.length
      = (Walk.all diamond.adjacency).evaluated.count true := by
  have hreached : Progress.Reaches diamond.adjacency _ _ :=
    .next (.next (.next (.next (.next (.next .first rfl) rfl) rfl) rfl) rfl) rfl
  have hstarts : diamond.adjacency.starts ≠ [] := by decide
  obtain ⟨hturns, -, -, -, hrecords⟩ := flags_stay_in_step diamond
  exact ⟨_, _, hreached, by decide, by decide, by decide, (hturns _ _ hreached).2, hstarts,
    (hrecords ticking 0 hstarts).2⟩

end Simulation

end CrewChart

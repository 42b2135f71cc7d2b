import CrewChart.Proofs.Links
import CrewChart.Simulation.Report
import Mathlib.Data.List.Chain
import Mathlib.Logic.Relation

/-!
# A simulation evaluates what can be reached

The walk of `CrewChart.Simulation.Walk` keeps two flags for each node, one for being evaluated and
one for being expanded, and a stack of nodes with links still to be followed.  This file is about
what it has evaluated when it ends.

## What is here

* `Walk.Grown` — how an order of evaluation comes about: the starts first, and every further node
  because a node before it has a link to it.
* `Walk.Inv` — what holds of the walk between any two moves.  The clause that carries completeness
  is `owes`: a link of an expanded node leads to an expanded node, or it is still pending somewhere
  on the stack.
* `Walk.inv_step` and `Walk.inv_run` — one move keeps it, and so does a run, after which nothing is
  pending any more.
* `mem_evaluationOrder_iff` — the nodes evaluated are those that can be reached from a start.
* `Report.Covers` — the same for the report of a chart, with ids and edges instead of places and
  links, together with what is recorded of each node.
-/

set_option autoImplicit false

namespace CrewChart.Simulation

namespace Walk

variable {n : Nat} {a : Adjacency n} {w : Walk n} {top : Frame n} {below : List (Frame n)}
  {link : Link n} {pending : List (Link n)}

/-! ## The moves -/

/-- The state in which the next link of the top of the stack has been taken off. -/
def advance (w : Walk n) (top : Frame n) (pending : List (Link n)) (below : List (Frame n)) :
    Walk n :=
  { w with stack := ⟨top.node, pending⟩ :: below }

/-- A node is arrived at: it is evaluated and expanded, as far as that has not been done. -/
def visit (a : Adjacency n) (w : Walk n) (i : Fin n) : Walk n := (w.reach i).follow a i

theorem step_leave (hp : top.pending = []) : w.step a top below = { w with stack := below } := by
  rw [step, hp]

theorem step_visit (hp : top.pending = link :: pending) :
    w.step a top below = (w.advance top pending below).visit a link.node := by
  rw [step, hp]
  rfl

theorem evaluated_reach (w : Walk n) (i j : Fin n) :
    (w.reach i).evaluated.get j = true ↔ i = j ∨ w.evaluated.get j = true := by
  rw [reach]
  split
  · rename_i h
    exact ⟨.inr, fun hj => hj.elim (fun hij => hij ▸ h) id⟩
  · rw [evaluate, get_set]
    by_cases hj : i = j <;> simp [hj]

theorem order_reach (w : Walk n) (i : Fin n) :
    (w.reach i).order = if w.evaluated.get i then w.order else i :: w.order := by
  rw [reach]
  split <;> rfl

theorem expanded_follow (w : Walk n) (i j : Fin n) :
    (w.follow a i).expanded.get j = true ↔ i = j ∨ w.expanded.get j = true := by
  rw [follow]
  split
  · rename_i h
    exact ⟨.inr, fun hj => hj.elim (fun hij => hij ▸ h) id⟩
  · rw [expand, get_set]
    by_cases hj : i = j <;> simp [hj]

theorem stack_follow (w : Walk n) (i : Fin n) :
    (w.follow a i).stack
      = if w.expanded.get i then w.stack else ⟨i, a.outgoing.get i⟩ :: w.stack := by
  rw [follow]
  split <;> rfl

theorem evaluated_follow (w : Walk n) (i : Fin n) : (w.follow a i).evaluated = w.evaluated := by
  rw [follow]
  split <;> rfl

theorem order_follow (w : Walk n) (i : Fin n) : (w.follow a i).order = w.order := by
  rw [follow]
  split <;> rfl

theorem order_visit (w : Walk n) (i : Fin n) :
    (w.visit a i).order = if w.evaluated.get i then w.order else i :: w.order := by
  rw [visit, order_follow, order_reach]

theorem evaluated_visit (w : Walk n) (i j : Fin n) :
    (w.visit a i).evaluated.get j = true ↔ i = j ∨ w.evaluated.get j = true := by
  rw [visit, evaluated_follow, evaluated_reach]

theorem expanded_visit (w : Walk n) (i j : Fin n) :
    (w.visit a i).expanded.get j = true ↔ i = j ∨ w.expanded.get j = true := by
  rw [visit, expanded_follow, expanded_reach]

theorem stack_visit (w : Walk n) (i : Fin n) :
    (w.visit a i).stack
      = if w.expanded.get i then w.stack else ⟨i, a.outgoing.get i⟩ :: w.stack := by
  rw [visit, stack_follow, expanded_reach, stack_reach]

/-- Nothing is taken off the stack by a visit. -/
theorem mem_stack_visit {f : Frame n} (hf : f ∈ w.stack) (i : Fin n) :
    f ∈ (w.visit a i).stack := by
  rw [stack_visit]
  split
  · exact hf
  · exact List.mem_cons_of_mem _ hf

/-! ## The invariant -/

/-- An order of evaluation, the last node first: it begins with `first`, and every further node is
linked to from one before it. -/
inductive Grown (a : Adjacency n) (first : List (Fin n)) : List (Fin n) → Prop
  | first : Grown a first first
  | next {i j : Fin n} {order : List (Fin n)} (h : Grown a first order) (hj : j ∈ order)
      (hl : a.Linked j i) : Grown a first (i :: order)

/-- A link is followed when the node it leads to is expanded, and owed as long as it is pending on
the stack. -/
def Owed (w : Walk n) (i : Fin n) (link : Link n) : Prop :=
  w.expanded.get link.node = true ∨ ∃ f ∈ w.stack, f.node = i ∧ link ∈ f.pending

/-- What holds between any two moves. -/
structure Inv (a : Adjacency n) (w : Walk n) : Prop where
  /-- No node is evaluated twice. -/
  nodup : w.order.Nodup
  /-- The flag for being evaluated is right. -/
  evaluated : ∀ i, w.evaluated.get i = true ↔ i ∈ w.order
  /-- Nothing is evaluated without reason. -/
  grown : Grown a a.starts.reverse w.order
  /-- What is expanded has been evaluated. -/
  expanded : ∀ i, w.expanded.get i = true → i ∈ w.order
  /-- Only starts are evaluated before they are expanded. -/
  begun : ∀ i ∈ w.order, i ∈ a.starts ∨ w.expanded.get i = true
  /-- What is pending leads out of an expanded node. -/
  pending : ∀ f ∈ w.stack, w.expanded.get f.node = true ∧ f.pending ⊆ a.outgoing.get f.node
  /-- Every link of an expanded node is followed in time. -/
  owes : ∀ i, w.expanded.get i = true → ∀ link ∈ a.outgoing.get i, w.Owed i link

theorem inv_leave (h : Inv a w) (hw : w.stack = top :: below) (hp : top.pending = []) :
    Inv a { w with stack := below } where
  nodup := h.nodup
  evaluated := h.evaluated
  grown := h.grown
  expanded := h.expanded
  begun := h.begun
  pending f hf := h.pending f (by rw [hw]; exact List.mem_cons_of_mem _ hf)
  owes i hi l hl := by
    refine (h.owes i hi l hl).imp_right ?_
    rintro ⟨f, hf, hfi, hlf⟩
    rw [hw] at hf
    rcases List.mem_cons.1 hf with rfl | hf
    · rw [hp] at hlf
      exact absurd hlf (by simp)
    · exact ⟨f, hf, hfi, hlf⟩

section Visit

variable {i : Fin n} {l : Link n}

/-- A visit follows links and puts off none. -/
theorem Owed.visit (h : w.Owed i l) (j : Fin n) : (w.visit a j).Owed i l := by
  rw [Owed, expanded_visit]
  rcases h with hdone | ⟨f, hf, hfi, hlf⟩
  · exact .inl (.inr hdone)
  · exact .inr ⟨f, mem_stack_visit hf j, hfi, hlf⟩

/-- A node that is expanded just now has all its links pending on top of the stack. -/
theorem owed_visit_self (hnew : ¬ w.expanded.get i = true) (hl : l ∈ a.outgoing.get i) :
    (w.visit a i).Owed i l := by
  refine .inr ⟨⟨i, a.outgoing.get i⟩, ?_, rfl, hl⟩
  rw [stack_visit, if_neg hnew]
  exact List.mem_cons_self

variable (h : Inv a w) (hw : w.stack = top :: below) (hp : top.pending = link :: pending)
include h hw hp

/-- Only the link that is taken off the stack is not owed any more. -/
theorem Inv.owed_advance (hi : w.expanded.get i = true) (hl : l ∈ a.outgoing.get i) :
    l = link ∨ (w.advance top pending below).Owed i l := by
  rcases h.owes i hi l hl with hdone | ⟨f, hf, hfi, hlf⟩
  · exact .inr (.inl hdone)
  · rw [hw] at hf
    rcases List.mem_cons.1 hf with rfl | hf
    · rw [hp] at hlf
      rcases List.mem_cons.1 hlf with rfl | hlf
      · exact .inl rfl
      · exact .inr (.inr ⟨⟨f.node, pending⟩, List.mem_cons_self, hfi, hlf⟩)
    · exact .inr (.inr ⟨f, List.mem_cons_of_mem _ hf, hfi, hlf⟩)

theorem Inv.pending_advance {f : Frame n} (hf : f ∈ (w.advance top pending below).stack) :
    w.expanded.get f.node = true ∧ f.pending ⊆ a.outgoing.get f.node := by
  rcases List.mem_cons.1 hf with rfl | hf
  · obtain ⟨hexp, hsub⟩ := h.pending top (by rw [hw]; exact List.mem_cons_self)
    exact ⟨hexp, fun l hl => hsub (by rw [hp]; exact List.mem_cons_of_mem _ hl)⟩
  · exact h.pending f (by rw [hw]; exact List.mem_cons_of_mem _ hf)

/-- Following a link: the node it leads to is evaluated and expanded, if it has not been. -/
theorem inv_visit : Inv a ((w.advance top pending below).visit a link.node) := by
  obtain ⟨hexp, hsub⟩ := h.pending top (by rw [hw]; exact List.mem_cons_self)
  have hlinked : a.Linked top.node link.node := ⟨link, hsub (by rw [hp]; simp), rfl⟩
  -- The order grows by the node the link leads to, unless it is there already.
  have hmem : ∀ i, i ∈ ((w.advance top pending below).visit a link.node).order ↔
      link.node = i ∨ i ∈ w.order := by
    intro i
    rw [order_visit]
    split
    · rename_i he
      exact ⟨.inr, fun hi => hi.elim (fun hil => hil ▸ (h.evaluated _).1 he) id⟩
    · exact List.mem_cons.trans (or_congr_left eq_comm)
  refine ⟨?_, fun i => ?_, ?_, fun i hi => ?_, fun i hi => ?_, fun f hf => ?_, fun i hi l hl => ?_⟩
  · rw [order_visit]
    split
    · exact h.nodup
    · rename_i he
      exact List.nodup_cons.2 ⟨fun hm => he ((h.evaluated _).2 hm), h.nodup⟩
  · rw [hmem, evaluated_visit, ← h.evaluated i]
    rfl
  · rw [order_visit]
    split
    · exact h.grown
    · exact h.grown.next (h.expanded _ hexp) hlinked
  · rw [hmem]
    exact ((expanded_visit _ _ _).1 hi).imp_right (h.expanded i)
  · rw [expanded_visit]
    rcases (hmem i).1 hi with rfl | hi
    · exact .inr (.inl rfl)
    · exact (h.begun i hi).imp_right .inr
  · rw [expanded_visit]
    rw [stack_visit] at hf
    split at hf
    · exact (h.pending_advance hw hp hf).imp_left .inr
    · rcases List.mem_cons.1 hf with rfl | hf
      · exact ⟨.inl rfl, List.Subset.refl _⟩
      · exact (h.pending_advance hw hp hf).imp_left .inr
  · -- A node expanded before owes what it owed; the new one owes its whole frame.
    by_cases hnew : w.expanded.get i = true
    · rcases h.owed_advance hw hp hnew hl with rfl | howed
      · exact .inl ((expanded_visit _ _ _).2 (.inl rfl))
      · exact howed.visit _
    · rcases (expanded_visit _ _ _).1 hi with rfl | hi
      · exact owed_visit_self hnew hl
      · exact absurd hi hnew

end Visit

/-- **One move keeps the invariant.** -/
theorem inv_step (h : Inv a w) (hw : w.stack = top :: below) : Inv a (w.step a top below) := by
  cases hp : top.pending with
  | nil => rw [step_leave hp]; exact inv_leave h hw hp
  | cons link pending => rw [step_visit hp]; exact inv_visit h hw hp

/-- No move takes an expanded node back. -/
theorem expanded_step {i : Fin n} (hi : w.expanded.get i = true) :
    (w.step a top below).expanded.get i = true := by
  cases hp : top.pending with
  | nil => rw [step_leave hp]; exact hi
  | cons link pending =>
    rw [step_visit hp, expanded_visit]
    exact .inr hi

/-! ## What an order of evaluation says -/

namespace Grown

variable {first order : List (Fin n)}

theorem suffix (h : Grown a first order) : first <:+ order := by
  induction h with
  | first => exact List.suffix_refl _
  | next _ _ _ ih => exact ih.trans (List.suffix_cons _ _)

theorem reachable (h : Grown a first order) {i : Fin n} (hi : i ∈ order) :
    ∃ s ∈ first, Relation.ReflTransGen a.Linked s i := by
  induction h generalizing i with
  | first => exact ⟨i, hi, .refl⟩
  | next _ hj hl ih =>
    rcases List.mem_cons.1 hi with rfl | hi
    · obtain ⟨s, hs, hsj⟩ := ih hj
      exact ⟨s, hs, hsj.tail hl⟩
    · exact ih hi

/-- Behind a node that is not among the first there is one with a link to it. -/
theorem exists_linked (h : Grown a first order) {after before : List (Fin n)} {i : Fin n}
    (hi : order = after ++ i :: before) (hlen : first.length ≤ before.length) :
    ∃ j ∈ before, a.Linked j i := by
  induction h generalizing after with
  | first =>
    have := congrArg List.length hi
    rw [List.length_append, List.length_cons] at this
    omega
  | next _ hj hl ih =>
    cases after with
    | nil =>
      rw [List.nil_append, List.cons.injEq] at hi
      obtain ⟨rfl, rfl⟩ := hi
      exact ⟨_, hj, hl⟩
    | cons k after =>
      rw [List.cons_append, List.cons.injEq] at hi
      exact ih hi.2

end Grown

/-! ## Runs -/

theorem run_nil (w : Walk n) (hw : w.stack = []) : run a w = w := by
  rw [run]
  split
  · rfl
  · rename_i hcons
    exact absurd (hcons.symm.trans hw) (List.cons_ne_nil _ _)

theorem run_cons (w : Walk n) {top : Frame n} {below : List (Frame n)}
    (hw : w.stack = top :: below) : run a w = run a (w.step a top below) := by
  conv_lhs => rw [run]
  split
  · rename_i hnil
    exact absurd (hw.symm.trans hnil) (List.cons_ne_nil _ _)
  · rename_i hcons
    obtain ⟨rfl, rfl⟩ := List.cons.inj (hw.symm.trans hcons)
    rfl

/-- What every move keeps holds at the end of a run, when the stack is empty. -/
theorem run_induction {P : Walk n → Prop}
    (hstep : ∀ w top below, w.stack = top :: below → P w → P (w.step a top below)) (h : P w) :
    P (run a w) ∧ (run a w).stack = [] := by
  fun_induction run a w with
  | case1 w hw => exact ⟨h, hw⟩
  | case2 w top below hw _ ih => exact ih (hstep w top below hw h)

/-- Between the runs, nothing is pending. -/
structure Resting (a : Adjacency n) (w : Walk n) : Prop where
  inv : Inv a w
  stack : w.stack = []

theorem Resting.expanded_of_linked (h : Resting a w) {i j : Fin n}
    (hi : w.expanded.get i = true) (hl : a.Linked i j) : w.expanded.get j = true := by
  obtain ⟨link, hlink, rfl⟩ := hl
  refine (h.inv.owes i hi link hlink).resolve_right ?_
  rintro ⟨f, hf, -⟩
  rw [h.stack] at hf
  exact absurd hf (by simp)

/-- Expanding an evaluated node that has all its links before it. -/
theorem inv_expand (h : Resting a w) {i : Fin n} (hi : i ∈ w.order) : Inv a (w.expand a i) := by
  have hexpanded : ∀ j, (w.expand a i).expanded.get j = true ↔
      i = j ∨ w.expanded.get j = true := by
    intro j
    rw [expand, get_set]
    by_cases hj : i = j <;> simp [hj]
  have hstack : (w.expand a i).stack = [⟨i, a.outgoing.get i⟩] := by
    show ⟨i, a.outgoing.get i⟩ :: w.stack = _
    rw [h.stack]
  refine ⟨h.inv.nodup, h.inv.evaluated, h.inv.grown, fun j hj => ?_, fun j hj => ?_,
    fun f hf => ?_, fun j hj l hl => ?_⟩
  · rcases (hexpanded j).1 hj with rfl | hj
    · exact hi
    · exact h.inv.expanded j hj
  · rw [hexpanded]
    exact (h.inv.begun j hj).imp_right .inr
  · rw [hstack, List.mem_singleton] at hf
    subst hf
    exact ⟨(hexpanded i).2 (.inl rfl), List.Subset.refl _⟩
  · rw [Owed, hexpanded, hstack]
    rcases (hexpanded j).1 hj with rfl | hj
    · exact .inr ⟨_, List.mem_singleton_self _, rfl, hl⟩
    · exact .inl (.inr (h.expanded_of_linked hj ⟨l, hl, rfl⟩))

/-- **A run from an evaluated node keeps the invariant**, and the node is expanded after it. -/
theorem resting_start (h : Resting a w) {i : Fin n} (hi : i ∈ w.order) :
    Resting a (w.start a i) ∧ (w.start a i).expanded.get i = true ∧
      ∀ j, w.expanded.get j = true → (w.start a i).expanded.get j = true := by
  rw [start]
  split
  · rename_i hexp
    exact ⟨h, hexp, fun _ hj => hj⟩
  · have hkeep : ∀ j, (w.expand a i).expanded.get j = true →
        (run a (w.expand a i)).expanded.get j = true :=
      fun j hj => (run_induction (P := fun w => w.expanded.get j = true)
        (fun _ _ _ _ => expanded_step) hj).1
    obtain ⟨hinv, hstack⟩ :=
      run_induction (fun _ _ _ hw hP => inv_step hP hw) (inv_expand h hi)
    have hget : ∀ j, (w.expand a i).expanded.get j = if i = j then true else w.expanded.get j :=
      fun j => get_set _ _ _ _
    refine ⟨⟨hinv, hstack⟩, hkeep i ?_, fun j hj => hkeep j ?_⟩
    · rw [hget, if_pos rfl]
    · rw [hget, hj, ite_self]

theorem resting_foldl (h : Resting a w) (l : List (Fin n)) (hl : ∀ i ∈ l, i ∈ a.starts) :
    Resting a (l.foldl (start a) w) ∧ ∀ i, i ∈ l ∨ w.expanded.get i = true →
      (l.foldl (start a) w).expanded.get i = true := by
  induction l generalizing w with
  | nil => exact ⟨h, fun i hi => hi.resolve_left (by simp)⟩
  | cons j l ih =>
    have hj : j ∈ w.order :=
      h.inv.grown.suffix.subset (List.mem_reverse.2 (hl j List.mem_cons_self))
    obtain ⟨hrest, hjexp, hkeep⟩ := resting_start h hj
    obtain ⟨hrest', hall⟩ := ih hrest fun i hi => hl i (List.mem_cons_of_mem _ hi)
    refine ⟨hrest', fun i hi => ?_⟩
    rcases hi with hi | hi
    · rcases List.mem_cons.1 hi with rfl | hi
      · exact hall i (.inr hjexp)
      · exact hall i (.inl hi)
    · exact hall i (.inr (hkeep i hi))

/-! ## The whole walk -/

theorem foldl_evaluate (w : Walk n) (l : List (Fin n)) :
    (l.foldl evaluate w).order = l.reverse ++ w.order ∧
      (l.foldl evaluate w).expanded = w.expanded ∧ (l.foldl evaluate w).stack = w.stack ∧
      ∀ i, (l.foldl evaluate w).evaluated.get i = true ↔ i ∈ l ∨ w.evaluated.get i = true := by
  induction l generalizing w with
  | nil => simp
  | cons j l ih =>
    obtain ⟨horder, hexpanded, hstack, hevaluated⟩ := ih (w.evaluate j)
    refine ⟨?_, hexpanded, hstack, fun i => ?_⟩
    · rw [List.foldl_cons, horder, List.reverse_cons, List.append_assoc]
      rfl
    · rw [List.foldl_cons, hevaluated, List.mem_cons, evaluate, get_set]
      by_cases hj : j = i
      · simp [hj]
      · simp [hj, Ne.symm hj]

/-- Before the first run the starts are evaluated, and nothing else has been done. -/
theorem resting_evaluated (a : Adjacency n) :
    Resting a (a.starts.foldl evaluate (initial n)) := by
  obtain ⟨horder, hexpanded, hstack, hevaluated⟩ := foldl_evaluate (initial n) a.starts
  have hnone : ∀ i, (a.starts.foldl evaluate (initial n)).expanded.get i ≠ true := by
    intro i
    rw [hexpanded]
    simp [initial, Vector.get]
  rw [show (initial n).order = [] from rfl, List.append_nil] at horder
  refine ⟨⟨?_, fun i => ?_, ?_, fun i hi => absurd hi (hnone i), fun i hi => ?_, fun f hf => ?_,
    fun i hi => absurd hi (hnone i)⟩, hstack⟩
  · rw [horder, List.nodup_reverse]
    exact a.nodup_starts
  · rw [hevaluated, horder, List.mem_reverse]
    simp [initial, Vector.get]
  · rw [horder]
    exact .first
  · rw [horder, List.mem_reverse] at hi
    exact .inl hi
  · rw [hstack] at hf
    exact absurd hf (by simp [initial])

/-- **At the end of the walk every evaluated node is expanded.** -/
theorem all_spec (a : Adjacency n) :
    Resting a (all a) ∧ ∀ i ∈ (all a).order, (all a).expanded.get i = true := by
  obtain ⟨hrest, hexp⟩ := resting_foldl (resting_evaluated a) a.starts fun _ hi => hi
  exact ⟨hrest, fun i hi => (hrest.inv.begun i hi).elim (fun hs => hexp i (.inl hs)) id⟩

end Walk

/-! ## The order of evaluation -/

section Order

variable {n : Nat} {a : Adjacency n}

theorem evaluationOrder_nodup (a : Adjacency n) : (evaluationOrder a).Nodup :=
  List.nodup_reverse.2 (Walk.all_spec a).1.inv.nodup

theorem starts_prefix_evaluationOrder (a : Adjacency n) : a.starts <+: evaluationOrder a := by
  have h := (Walk.all_spec a).1.inv.grown.suffix
  rw [← List.reverse_reverse a.starts]
  exact List.reverse_prefix.2 h

/-- A node that is not a start has a link to it from a node evaluated before. -/
theorem exists_linked_of_evaluationOrder {before after : List (Fin n)} {i : Fin n}
    (hi : evaluationOrder a = before ++ i :: after) (hlen : a.starts.length ≤ before.length) :
    ∃ j ∈ before, a.Linked j i := by
  have horder : (Walk.all a).order = after.reverse ++ i :: before.reverse := by
    rw [← List.reverse_reverse (Walk.all a).order]
    show (evaluationOrder a).reverse = _
    rw [hi]
    simp
  obtain ⟨j, hj, hl⟩ :=
    (Walk.all_spec a).1.inv.grown.exists_linked horder (by simpa using hlen)
  exact ⟨j, List.mem_reverse.1 hj, hl⟩

/-- **Exactly the nodes that can be reached from a start are evaluated.** -/
theorem mem_evaluationOrder_iff {i : Fin n} :
    i ∈ evaluationOrder a ↔ ∃ s ∈ a.starts, Relation.ReflTransGen a.Linked s i := by
  obtain ⟨hrest, hexp⟩ := Walk.all_spec a
  rw [evaluationOrder, List.mem_reverse]
  constructor
  · intro hi
    obtain ⟨s, hs, hsi⟩ := hrest.inv.grown.reachable hi
    exact ⟨s, List.mem_reverse.1 hs, hsi⟩
  · rintro ⟨s, hs, hsi⟩
    induction hsi with
    | refl => exact hrest.inv.grown.suffix.subset (List.mem_reverse.2 hs)
    | tail _ hl ih => exact hrest.inv.expanded _ (hrest.expanded_of_linked (hexp _ ih) hl)

end Order

/-! ## Reports -/

variable {g : Graph}

/-- The ids of the nodes no edge leads to, in the order of the nodes. -/
def startIds (g : Graph) : List String :=
  (g.nodes.filter fun node => !g.edges.any fun e => e.target == node.id).map Node.id

theorem starts_map_id (hd : (g.nodes.map Node.id).Nodup) :
    (g.adjacency.starts.map fun i => (g.nodeAt i).id) = startIds g := by
  rw [startIds]
  conv_rhs => rw [← g.map_nodeAt_finRange]
  rw [List.filter_map, List.map_map, Adjacency.starts]
  simp only [Graph.hasIncoming_eq hd, Function.comp_def]

/-- A node is evaluated when arcs lead to it from a start. -/
theorem mem_evaluationOrder_iff_arcs (hd : (g.nodes.map Node.id).Nodup) {i : Fin g.size} :
    i ∈ evaluationOrder g.adjacency ↔
      ∃ s ∈ startIds g, Relation.ReflTransGen g.Arc s (g.nodeAt i).id := by
  rw [mem_evaluationOrder_iff, ← starts_map_id hd]
  constructor
  · rintro ⟨s, hs, hsi⟩
    exact ⟨_, List.mem_map_of_mem hs, (Graph.reflTransGen_arc_iff hd).2 ⟨i, rfl, hsi⟩⟩
  · rintro ⟨_, hstart, hsi⟩
    obtain ⟨s, hs, rfl⟩ := List.mem_map.1 hstart
    obtain ⟨j, hj, hsj⟩ := (Graph.reflTransGen_arc_iff hd).1 hsi
    rw [Graph.nodeAt_id_injective hd hj] at hsj
    exact ⟨s, hs, hsj⟩

/-- What a report says when there is somewhere to start. -/
structure Report.Covers (g : Graph) (r : Report) : Prop where
  /-- No node is completed twice. -/
  nodup : r.completed.Nodup
  /-- The completed nodes are those that can be reached from a start. -/
  reachable : ∀ u, u ∈ r.completed ↔ ∃ s ∈ startIds g, Relation.ReflTransGen g.Arc s u
  /-- The starts come first, in the order of the nodes. -/
  starts : r.completed.take (startIds g).length = startIds g
  /-- Every other node comes after one from which an arc leads to it. -/
  preceded : ∀ before u after, r.completed = before ++ u :: after →
    (startIds g).length ≤ before.length → ∃ v ∈ before, g.Arc v u
  /-- There is a record for each completed node, in the same order. -/
  recorded : r.completed = r.records.map fun x => x.outcome.node
  /-- A record says how ready its node is. -/
  assessed : ∀ x ∈ r.records, ∃ node ∈ g.nodes,
    x.outcome = assess node (g.edges.any fun e => e.target == node.id)

/-- The records are made of the outcomes, whatever the clock shows. -/
theorem outcome_mapM {σ : Type} (stamp : Bool → StateM σ Text.Instant) (found : List Outcome)
    (clock : σ) : ((found.mapM fun o => return (⟨o, ← stamp true⟩ : Record)).run clock).1.map
      Record.outcome = found := by
  induction found generalizing clock with
  | nil => rfl
  | cons o found ih =>
    rw [List.mapM_cons]
    show o :: _ = _
    exact congrArg (o :: ·) (ih _)

theorem outcomes_map_node (g : Graph) :
    (outcomes g).map Outcome.node
      = (evaluationOrder g.adjacency).map fun i => (g.nodeAt i).id := by
  rw [outcomes, List.map_map]
  rfl

/-- A report made of the outcomes, in order. -/
theorem covers_ofRecords (hd : (g.nodes.map Node.id).Nodup) {records : List Record}
    (hr : records.map Record.outcome = outcomes g) : (Report.ofRecords records).Covers g := by
  -- The ids that are completed are those of the order, place by place.
  have hcompleted : (Report.ofRecords records).completed
      = (evaluationOrder g.adjacency).map fun i => (g.nodeAt i).id := by
    rw [← outcomes_map_node, ← hr, List.map_map]
    rfl
  have hstarts := starts_map_id hd
  have hlength : (startIds g).length = g.adjacency.starts.length := by
    rw [← hstarts, List.length_map]
  refine ⟨?_, fun u => ?_, ?_, fun before u after hsplit hlen => ?_, rfl, fun x hx => ?_⟩
  · rw [hcompleted]
    exact (evaluationOrder_nodup _).map (Graph.nodeAt_id_injective hd)
  · rw [hcompleted, List.mem_map]
    simp only [mem_evaluationOrder_iff_arcs hd]
    constructor
    · rintro ⟨i, hi, rfl⟩
      exact hi
    · rintro ⟨s, hs, hsu⟩
      obtain ⟨i, -, rfl⟩ := List.mem_map.1 (hstarts.symm ▸ hs)
      obtain ⟨j, rfl, -⟩ := (Graph.reflTransGen_arc_iff hd).1 hsu
      exact ⟨j, ⟨_, hs, hsu⟩, rfl⟩
  · rw [hcompleted, hlength, ← List.map_take,
      ← List.prefix_iff_eq_take.1 (starts_prefix_evaluationOrder _), hstarts]
  · -- Where the ids are split, the order is split at the same place.
    rw [hcompleted] at hsplit
    obtain ⟨before', rest, horder, rfl, hrest⟩ := List.map_eq_append_iff.1 hsplit
    obtain ⟨i, after', rfl, rfl, rfl⟩ := List.map_eq_cons_iff.1 hrest
    rw [hlength, List.length_map] at hlen
    obtain ⟨j, hj, hl⟩ := exists_linked_of_evaluationOrder horder hlen
    exact ⟨_, List.mem_map_of_mem hj, (Graph.linked_iff_arc hd).1 hl⟩
  · have hmem : x.outcome ∈ outcomes g := by
      rw [← hr]
      exact List.mem_map_of_mem hx
    obtain ⟨i, -, hi⟩ := List.mem_map.1 hmem
    exact ⟨g.nodeAt i, g.nodeAt_mem i, by rw [← hi, Graph.hasIncoming_eq hd]⟩

/-- **A simulation evaluates exactly what can be reached, each node once.**  Where no node is a
start there is a single record, of an error that belongs to no node.  The instants are read off a
clock that may go as it likes. -/
theorem simulateM_covers_reachable {σ : Type} (stamp : Bool → StateM σ Text.Instant) (clock : σ)
    (g : Graph) (hd : (g.nodes.map Node.id).Nodup) :
    let r := ((simulateM stamp g).run clock).1
    (startIds g = [] → r.completed = [] ∧ ∃ instant,
      r.records = [⟨⟨"", .error, "No starting nodes found in the flow"⟩, instant⟩]) ∧
    (startIds g ≠ [] → r.Covers g) := by
  -- The order begins with the starts, so it is empty only without any.
  have hlen : startIds g ≠ [] → outcomes g ≠ [] := by
    intro hs hnil
    have hprefix := starts_prefix_evaluationOrder g.adjacency
    rw [outcomes, List.map_eq_nil_iff] at hnil
    rw [hnil, List.prefix_nil] at hprefix
    rw [← starts_map_id hd, hprefix] at hs
    exact hs rfl
  have hempty : startIds g = [] → outcomes g = [] := by
    intro hs
    rw [← starts_map_id hd, List.map_eq_nil_iff] at hs
    rw [outcomes, List.map_eq_nil_iff, List.eq_nil_iff_forall_not_mem]
    intro i hi
    obtain ⟨s, hstart, -⟩ := mem_evaluationOrder_iff.1 hi
    rw [hs] at hstart
    exact absurd hstart (by simp)
  refine ⟨fun hs => ?_, fun hs => ?_⟩
  · rw [simulateM, hempty hs]
    exact ⟨rfl, _, rfl⟩
  · have hr := outcome_mapM stamp (outcomes g) clock
    rw [simulateM]
    split
    · rename_i hnil
      exact absurd hnil (hlen hs)
    · exact covers_ofRecords hd hr

/-- A start with a loop behind it, a node that only a missing one leads to, and a node that cannot
be reached. -/
def halfReached : Graph where
  nodes := ["a", "b", "c", "d", "e"].map fun id => { id, component := .flow {} }
  edges := [⟨"1", "a", "b", []⟩, ⟨"2", "b", "c", []⟩, ⟨"3", "c", "b", []⟩, ⟨"4", "x", "d", []⟩,
    ⟨"5", "e", "e", []⟩]

/-- A clock that moves on by a second each time it is looked at. -/
def ticking (_ : Bool) : StateM Nat Text.Instant :=
  modifyGet fun k => ({ Text.Instant.epoch with second := k }, k + 1)

theorem simulateM_covers_halfReached : (halfReached.nodes.map Node.id).Nodup ∧
    startIds halfReached = ["a"] ∧
    let r := ((simulateM ticking halfReached).run 0).1
    r.Covers halfReached ∧ "c" ∈ r.completed := by
  have hd : (halfReached.nodes.map Node.id).Nodup := by decide
  have hs : startIds halfReached = ["a"] := by decide
  have hcovers := (simulateM_covers_reachable ticking 0 halfReached hd).2 (by rw [hs]; decide)
  refine ⟨hd, hs, hcovers, (hcovers.reachable "c").2 ⟨"a", by rw [hs]; decide, ?_⟩⟩
  have hab : halfReached.Arc "a" "b" :=
    ⟨⟨⟨"1", "a", "b", []⟩, by decide, rfl, rfl⟩, by decide, by decide⟩
  have hbc : halfReached.Arc "b" "c" :=
    ⟨⟨⟨"2", "b", "c", []⟩, by decide, rfl, rfl⟩, by decide, by decide⟩
  exact (Relation.ReflTransGen.single hab).tail hbc

end CrewChart.Simulation

import CrewChart.Proofs.CyclePath
import CrewChart.Proofs.Mirror
import CrewChart.Proofs.Reached

/-!
# Both walks end, and follow each link once

The search for cycles and the walk of a simulation are loops over a stack (`CrewChart.Proofs.Loop`).
This file says so of the walk as well, shows that the turns of either are of the four kinds there,
and puts together what that says of a whole run.

A loop over a stack may put nodes on it for ever, or follow a link again and again: nothing in the
loop itself gets smaller.  Here it cannot, in any chart, because a node is put on the stack only
while it is new and is never new again.

## What is here

* `Walk.loop` — the walk as a loop: its roots are the starts, and the new nodes are those that have
  not been expanded.
* `Search.traverses_loop`, `Walk.traverses_loop` — the turns of both.
* `Loop.EndsAt`, `walks_end` — where they end, and what they have done by then.
-/

set_option autoImplicit false

namespace CrewChart

variable {n : Nat} {a : Adjacency n}

/-! ## The search for cycles -/

namespace Lint.Search

variable {s : Search n} {top : Frame n} {below : List (Frame n)}

/-- To enter a node is to see it, and changes no other. -/
theorem isNew_enter (s : Search n) (i j : Fin n) :
    (loop a).isNew (s.enter a i) j = false ↔ i = j ∨ (loop a).isNew s j = false := by
  rw [isNew_eq_false_iff, isNew_eq_false_iff, enter, get_set]
  by_cases hij : i = j <;> simp [hij]

/-- A step that enters no node leaves what is new as it is. -/
theorem isNew_of_marks {s t : Search n} (h : t.marks = s.marks) (j : Fin n) :
    (loop a).isNew t j = false ↔ (loop a).isNew s j = false := by
  rw [isNew_eq_false_iff, isNew_eq_false_iff, h]

theorem marks_report (s : Search n) (i : Fin n) : (s.report i).marks = s.marks := by
  rw [report]
  split <;> rfl

/-- **A step of the search is one of the four turns.** -/
theorem turn_step (hs : s.stack = top :: below) (htop : s.marks.get top.node ≠ .unseen) :
    Turn a (fun i => (loop a).isNew s i = false)
      (fun i => (loop a).isNew (s.step a top below) i = false) s.stack
      (s.step a top below).stack := by
  obtain ⟨i, links⟩ := top
  rw [hs]
  cases links with
  | nil =>
    obtain ⟨hmarks, -, hstack⟩ := @step_leave _ a s ⟨i, []⟩ below rfl
    rw [hstack]
    -- To mark a node done that has been seen makes no node new.
    refine .leave fun j => ?_
    rw [isNew_eq_false_iff, isNew_eq_false_iff, hmarks]
    by_cases hij : i = j
    · subst hij
      simpa using htop
    · rw [if_neg hij]
  | cons link pending =>
    cases hm : s.marks.get link.node with
    | unseen =>
      rw [step_enter rfl hm]
      exact .enter (fun hnew => isNew_eq_false_iff.1 hnew hm) (isNew_enter (s.advance _ _ _) _)
    | onPath =>
      rw [step_report rfl hm]
      exact .pass (isNew_of_marks (marks_report s link.node))
    | done =>
      rw [step_skip rfl hm]
      exact .pass fun j => Iff.rfl

theorem traverses_loop (a : Adjacency n) : (loop a).Traverses a where
  stack_first := rfl
  isNew_first i := by simp [loop, initial, Vector.get]
  turn log s t h ht := by
    rcases Loop.next?_eq_some_iff.1 ht with ⟨hs, i, hi, rfl⟩ | ⟨top, below, hs, rfl⟩
    · have hstack : (loop a).stack ((loop a).enter s i) = [⟨i, a.outgoing.get i⟩] :=
        congrArg (_ :: ·) hs
      have hnew : (loop a).isNew s i = true := List.find?_some hi
      rw [hs, hstack]
      exact .root (by simp [hnew]) (isNew_enter s i)
    · have htop := (inv_of_reaches h).onPath top.node
      refine turn_step hs ?_
      rw [htop.2 (by rw [show s.stack = top :: below from hs]; simp)]
      decide

end Lint.Search

/-! ## The walk of a simulation -/

namespace Simulation.Walk

variable {w : Walk n} {top : Frame n} {below : List (Frame n)} {i : Fin n} {log : List (Move n)}

def loop (a : Adjacency n) : Loop n (Walk n) where
  first := a.starts.foldl evaluate (initial n)
  roots := a.starts
  isNew w i := !w.expanded.get i
  enter := expand a
  step := step a
  stack := stack

theorem isNew_eq_true_iff : (loop a).isNew w i = true ↔ w.expanded.get i = false := by
  simp [loop]

theorem isNew_eq_false_iff : (loop a).isNew w i = false ↔ w.expanded.get i = true := by
  simp [loop]

/-- **The walk ends**, from whatever state it is set going. -/
theorem wellFounded_next (a : Adjacency n) : WellFounded fun t w => (loop a).next? w = some t := by
  refine Loop.wellFounded_next unexpanded (fun w i hi => ?_) fun w top below hw => ?_
  · exact Nat.lt_of_succ_le (unexpanded_expand a w (isNew_eq_true_iff.1 hi)).le
  · exact (step_decreases a w top below hw).imp_right fun h => ⟨h.1.le, h.2⟩

theorem exists_reaches_run (h : (loop a).Reaches log w) :
    ∃ log, (loop a).Reaches log (run a w) := by
  fun_induction run a w generalizing log with
  | case1 w hw => exact ⟨log, h⟩
  | case2 w top below hw _ ih => exact ih (h.next (Loop.next?_of_cons hw))

/-- **The loop comes to where the walk from every start comes**, and stops there. -/
theorem reaches_all (a : Adjacency n) :
    (∃ log, (loop a).Reaches log (all a)) ∧ (loop a).next? (all a) = none := by
  refine Loop.reaches_foldl (L := loop a) (start a) (Resting a)
    (fun w hw => hw.stack) (fun w i hi => if_pos (isNew_eq_false_iff.1 hi))
    (fun w i log hlog hi => ?_) (fun w hw i hi => ?_) (resting_evaluated a)
  · rw [start, if_neg (by rw [isNew_eq_true_iff.1 hi]; exact Bool.false_ne_true)]
    exact exists_reaches_run hlog
  · have horder : i ∈ w.order := hw.inv.grown.suffix.subset (List.mem_reverse.2 hi)
    obtain ⟨hrest, hexp, hkeep⟩ := resting_start hw horder
    exact ⟨hrest, isNew_eq_false_iff.2 hexp,
      fun j hj => isNew_eq_false_iff.2 (hkeep j (isNew_eq_false_iff.1 hj))⟩

/-- To expand a node changes no other. -/
theorem isNew_expand (w : Walk n) (i j : Fin n) :
    (loop a).isNew (w.expand a i) j = false ↔ i = j ∨ (loop a).isNew w j = false := by
  rw [isNew_eq_false_iff, isNew_eq_false_iff, expand, get_set]
  by_cases hij : i = j <;> simp [hij]

/-- **A step of the walk is one of the four turns.** -/
theorem turn_step (hw : w.stack = top :: below) :
    Turn a (fun i => (loop a).isNew w i = false)
      (fun i => (loop a).isNew (w.step a top below) i = false) w.stack
      (w.step a top below).stack := by
  obtain ⟨i, links⟩ := top
  rw [hw]
  cases links with
  | nil =>
    rw [step_leave rfl]
    exact .leave fun j => Iff.rfl
  | cons link pending =>
    have hentered : ∀ j, (loop a).isNew (w.step a ⟨i, link :: pending⟩ below) j = false ↔
        link.node = j ∨ (loop a).isNew w j = false := by
      intro j
      rw [isNew_eq_false_iff, isNew_eq_false_iff, step_visit rfl, expanded_visit]
      rfl
    have hstack : (w.step a ⟨i, link :: pending⟩ below).stack
        = if w.expanded.get link.node then ⟨i, pending⟩ :: below
          else ⟨link.node, a.outgoing.get link.node⟩ :: ⟨i, pending⟩ :: below := by
      rw [step_visit rfl, stack_visit]
      rfl
    -- A node expanded before is not new, so to pass it or to enter it comes to the same.
    by_cases hexp : w.expanded.get link.node = true
    · rw [hstack, if_pos hexp]
      refine .pass fun j => (hentered j).trans ⟨fun h => h.elim (fun hj => ?_) id, .inr⟩
      rw [← hj]
      exact isNew_eq_false_iff.2 hexp
    · rw [hstack, if_neg hexp]
      exact .enter (fun hnew => hexp (isNew_eq_false_iff.1 hnew)) hentered

theorem traverses_loop (a : Adjacency n) : (loop a).Traverses a where
  stack_first := (resting_evaluated a).stack
  isNew_first i := by
    rw [isNew_eq_true_iff]
    show (a.starts.foldl evaluate (initial n)).expanded.get i = false
    rw [(foldl_evaluate (initial n) a.starts).2.1]
    simp [initial, Vector.get]
  turn log w t h ht := by
    rcases Loop.next?_eq_some_iff.1 ht with ⟨hw, i, hi, rfl⟩ | ⟨top, below, hw, rfl⟩
    · have hstack : (loop a).stack ((loop a).enter w i) = [⟨i, a.outgoing.get i⟩] :=
        congrArg (_ :: ·) hw
      have hnew : (loop a).isNew w i = true := List.find?_some hi
      rw [hw, hstack]
      exact .root (by simp [hnew]) (isNew_expand w i)
    · exact turn_step hw

end Simulation.Walk

/-! ## Whole runs -/

/-- This is where a loop ends, and it has followed every link of the nodes it came to once. -/
structure Loop.EndsAt {σ : Type} (L : Loop n σ) (a : Adjacency n) (s : σ) : Prop where
  /-- The loop cannot go on for ever, from wherever it is set going. -/
  wellFounded : WellFounded fun t s => L.next? s = some t
  ends : L.next? s = none
  followsOnce : ∃ log, L.Reaches log s ∧ FollowsOnce a log

theorem nodup_outgoing (g : Graph) (i : Fin g.size) : (g.adjacency.outgoing.get i).Nodup :=
  ((g.mirrors_adjacency).outgoingOrdered i).imp fun {l m} hlt heq => by
    rw [heq] at hlt
    exact lt_irrefl _ hlt

/-- A loop that ends with an empty stack. -/
theorem Loop.Traverses.endsAt {σ : Type} {g : Graph} {L : Loop g.size σ} {s : σ}
    (hL : L.Traverses g.adjacency) (hwf : WellFounded fun t s => L.next? s = some t)
    (hreached : ∃ log, L.Reaches log s) (hend : L.next? s = none) (hstack : L.stack s = []) :
    L.EndsAt g.adjacency s := by
  obtain ⟨log, hlog⟩ := hreached
  have haccounted := hL.accounted hlog
  rw [hstack] at haccounted
  exact ⟨hwf, hend, log, hlog, haccounted.followsOnce (nodup_outgoing g)⟩

open Lint Simulation in
/-- **Both walks end, and follow each link of the nodes they come to once**, whatever the chart: ids
may repeat, edges may lack an end, and there may be loops and edges side by side.  In the end the
search is done with every node, and the walk has evaluated and expanded what the nodes it has
expanded link to. -/
theorem walks_end (g : Graph) :
    (Search.loop g.adjacency).EndsAt g.adjacency (Search.all g.adjacency) ∧
      (∀ i, (Search.all g.adjacency).marks.get i = .done) ∧
      (Walk.loop g.adjacency).EndsAt g.adjacency (Walk.all g.adjacency) ∧
      ∀ i, (Walk.all g.adjacency).expanded.get i = true →
        ∀ link ∈ g.adjacency.outgoing.get i,
          (Walk.all g.adjacency).evaluated.get link.node = true ∧
            (Walk.all g.adjacency).expanded.get link.node = true := by
  obtain ⟨hsearch, hsearchEnd⟩ := Search.reaches_all g.adjacency
  obtain ⟨hwalk, hwalkEnd⟩ := Walk.reaches_all g.adjacency
  have hresting := (Search.resting_foldl ⟨Search.inv_initial g.adjacency, rfl⟩ (List.finRange _)).1
  have hrests := (Walk.all_spec g.adjacency).1
  refine ⟨(Search.traverses_loop _).endsAt (Search.wellFounded_next _) hsearch hsearchEnd
      hresting.stack, (Search.all_spec _).2,
    (Walk.traverses_loop _).endsAt (Walk.wellFounded_next _) hwalk hwalkEnd hrests.stack,
    fun i hi link hlink => ?_⟩
  have hexpanded := hrests.expanded_of_linked hi ⟨link, hlink, rfl⟩
  exact ⟨(hrests.inv.evaluated _).2 (hrests.inv.expanded _ hexpanded), hexpanded⟩

end CrewChart

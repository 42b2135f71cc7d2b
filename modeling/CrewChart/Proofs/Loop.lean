import CrewChart.Graph.Adjacency
import Mathlib.Data.List.Count
import Mathlib.Data.List.Nodup
import Mathlib.Order.WellFounded

/-!
# Loops that keep their path on a stack

The search for cycles and the simulation go over the links of a chart in the same way.  Each keeps a
stack of frames, follows the links of the frame on top one after the other, and puts a node on the
stack when it comes to it for the first time.  When the stack is empty it begins again, at the first
of its roots that is still new.  They differ in how they tell a new node and in what they do about
it; this file is about the rest.

What a loop does is read off its stack, before a turn and after it, so nothing is assumed of how it
does it.

## What is here

* `Loop`, `Loop.next?` — a loop, and what it comes to in one turn; there is nothing more when the
  stack is empty and no root is new.
* `Loop.Reaches` — the states a loop comes to, each with the moves made so far.
* `Loop.wellFounded_next` — a loop ends from wherever it is set going.
* `Loop.turns_eq_of_reaches` — it has one end, which is found by counting enough turns.
* `Loop.reaches_foldl` — going through the roots in order, and running from each that is new, is
  what the loop does.
* `Turn`, `Accounted` — what a turn may do to the stack, and what every such turn keeps: for every
  node that has been entered, the links followed and those still pending are its links.
* `FollowsOnce` — what that comes to when the stack is empty.
-/

set_option autoImplicit false

namespace CrewChart

variable {n : Nat} {σ : Type}

/-! ## Moves -/

/-- A node is put on the stack, or a link of the node on top is followed. -/
inductive Move (n : Nat) where
  | enter (i : Fin n)
  | follow (i : Fin n) (link : Link n)
deriving DecidableEq

def Move.entered? : Move n → Option (Fin n)
  | .enter i => some i
  | .follow _ _ => none

def Move.linkFrom? (i : Fin n) : Move n → Option (Link n)
  | .enter _ => none
  | .follow j link => if j = i then some link else none

/-- The nodes that were put on the stack, in order. -/
def entries (log : List (Move n)) : List (Fin n) := log.filterMap Move.entered?

/-- The links of a node that were followed, in order. -/
def linksFrom (i : Fin n) (log : List (Move n)) : List (Link n) := log.filterMap (Move.linkFrom? i)

/-- What was done between two looks at a stack.  If the frame on top had links pending, the first of
them has been followed; if the stack has grown, the node on top of it is new. -/
def Frame.moves (before after : List (Frame n)) : List (Move n) :=
  (match before with
    | ⟨i, link :: _⟩ :: _ => [.follow i link]
    | _ => [])
  ++ (if before.length < after.length then after.head?.toList.map fun f => .enter f.node else [])

/-- A link is followed only from the top of the stack, where it comes next. -/
theorem Frame.exists_of_follow_mem_moves {before after : List (Frame n)} {i : Fin n}
    {link : Link n} (h : .follow i link ∈ Frame.moves before after) :
    ∃ pending below, before = ⟨i, link :: pending⟩ :: below := by
  unfold Frame.moves at h
  rcases List.mem_append.1 h with h | h
  · split at h
    · rename_i j next pending below _
      obtain ⟨rfl, rfl⟩ := Move.follow.inj (List.mem_singleton.1 h)
      exact ⟨pending, below, rfl⟩
    · exact absurd h List.not_mem_nil
  · split at h
    · obtain ⟨f, -, hf⟩ := List.mem_map.1 h
      cases hf
    · exact absurd h List.not_mem_nil

/-! ## Loops -/

structure Loop (n : Nat) (σ : Type) where
  first : σ
  roots : List (Fin n)
  isNew : σ → Fin n → Bool
  enter : σ → Fin n → σ
  step : σ → Frame n → List (Frame n) → σ
  stack : σ → List (Frame n)

namespace Loop

variable (L : Loop n σ) {s t : σ} {log : List (Move n)}

/-- What the loop comes to next. -/
def next? (s : σ) : Option σ :=
  match L.stack s with
  | [] => (L.roots.find? (L.isNew s)).map (L.enter s)
  | top :: below => some (L.step s top below)

/-- The states the loop comes to, and the moves by which it does. -/
inductive Reaches : List (Move n) → σ → Prop
  | first : Reaches [] L.first
  | next {log : List (Move n)} {s t : σ} (h : Reaches log s) (ht : L.next? s = some t) :
      Reaches (log ++ Frame.moves (L.stack s) (L.stack t)) t

variable {L}

theorem next?_of_cons {top : Frame n} {below : List (Frame n)} (hs : L.stack s = top :: below) :
    L.next? s = some (L.step s top below) := by
  rw [next?, hs]

theorem next?_of_nil (hs : L.stack s = []) :
    L.next? s = (L.roots.find? (L.isNew s)).map (L.enter s) := by
  rw [next?, hs]

/-- A turn is one of two: to begin at a new root, or a step. -/
theorem next?_eq_some_iff : L.next? s = some t ↔
    (L.stack s = [] ∧ ∃ i, L.roots.find? (L.isNew s) = some i ∧ L.enter s i = t) ∨
      ∃ top below, L.stack s = top :: below ∧ L.step s top below = t := by
  cases hs : L.stack s with
  | nil => simp [next?_of_nil hs]
  | cons top below => simp [next?_of_cons hs]

/-! ### The end -/

/-- **A loop ends**, if entering a node uses up one that was new, and every step does that or takes
something off the stack. -/
theorem wellFounded_next (new : σ → Nat)
    (henter : ∀ s i, L.isNew s i = true → new (L.enter s i) < new s)
    (hstep : ∀ s top below, L.stack s = top :: below →
      new (L.step s top below) < new s ∨ new (L.step s top below) ≤ new s ∧
        Frame.load (L.stack (L.step s top below)) < Frame.load (L.stack s)) :
    WellFounded fun t s => L.next? s = some t := by
  have hlex : WellFounded (Prod.Lex (· < ·) (· < ·) : Nat × Nat → Nat × Nat → Prop) :=
    WellFounded.prod_lex wellFounded_lt wellFounded_lt
  refine Subrelation.wf (fun {t s} hnext => ?_)
    (InvImage.wf (fun s => (new s, Frame.load (L.stack s))) hlex)
  rcases next?_eq_some_iff.1 hnext with ⟨-, i, hi, rfl⟩ | ⟨top, below, hs, rfl⟩
  · exact .left _ _ (henter s i (List.find?_some hi))
  · rcases hstep s top below hs with hless | ⟨hle, hload⟩
    · exact .left _ _ hless
    · exact Prod.Lex.right' _ hle hload

variable (L) in
/-- Where the loop is after so many turns, or where it has stopped by then. -/
def turns : Nat → σ
  | 0 => L.first
  | k + 1 => (L.next? (turns k)).getD (turns k)

theorem exists_turns_of_reaches (h : L.Reaches log s) : ∃ k, L.turns k = s := by
  induction h with
  | first => exact ⟨0, rfl⟩
  | next _ ht ih =>
    obtain ⟨k, rfl⟩ := ih
    exact ⟨k + 1, by rw [turns, ht, Option.getD_some]⟩

theorem turns_of_le {k m : Nat} (hk : L.next? (L.turns k) = none) (hkm : k ≤ m) :
    L.turns m = L.turns k := by
  induction hkm with
  | refl => rfl
  | step _ ih => rw [turns, ih, hk, Option.getD_none]

/-- **A loop has one end**, and it can be found by running the loop. -/
theorem turns_eq_of_reaches {k : Nat} (hk : L.next? (L.turns k) = none) (h : L.Reaches log s)
    (hs : L.next? s = none) : L.turns k = s := by
  obtain ⟨m, rfl⟩ := exists_turns_of_reaches h
  rcases Nat.le_total k m with hkm | hmk
  · exact (turns_of_le hk hkm).symm
  · exact turns_of_le hs hmk

/-! ### Going through the roots -/

/-- What is done root by root is what the loop does.  `Rests` is what holds between the runs. -/
theorem reaches_foldl (start : σ → Fin n → σ) (Rests : σ → Prop)
    (hstack : ∀ s, Rests s → L.stack s = [])
    (hold : ∀ s i, L.isNew s i = false → start s i = s)
    (hrun : ∀ s i log, L.Reaches log (L.enter s i) → L.isNew s i = true →
      ∃ log, L.Reaches log (start s i))
    (hrests : ∀ s, Rests s → ∀ i ∈ L.roots, Rests (start s i) ∧
      L.isNew (start s i) i = false ∧ ∀ j, L.isNew s j = false → L.isNew (start s i) j = false)
    (hfirst : Rests L.first) :
    (∃ log, L.Reaches log (L.roots.foldl start L.first)) ∧
      L.next? (L.roots.foldl start L.first) = none := by
  -- the roots that have had their turn are not new, so the first that is new is the next one
  have hgoes : ∀ rest before s, L.roots = before ++ rest → (∀ j ∈ before, L.isNew s j = false) →
      Rests s → (∃ log, L.Reaches log s) → (∃ log, L.Reaches log (rest.foldl start s)) ∧
        Rests (rest.foldl start s) ∧ ∀ j ∈ L.roots, L.isNew (rest.foldl start s) j = false := by
    intro rest
    induction rest with
    | nil =>
      intro before s hroots hbefore hs hreached
      rw [List.append_nil] at hroots
      exact ⟨hreached, hs, hroots ▸ hbefore⟩
    | cons i rest ih =>
      intro before s hroots hbefore hs hreached
      obtain ⟨hs', hi, hkeep⟩ := hrests s hs i (by rw [hroots]; simp)
      refine ih (before ++ [i]) (start s i) (by rw [hroots]; simp) (fun j hj => ?_) hs' ?_
      · rcases List.mem_append.1 hj with hj | hj
        · exact hkeep j (hbefore j hj)
        · rw [List.mem_singleton.1 hj]
          exact hi
      · cases hnew : L.isNew s i with
        | false => rwa [hold s i hnew]
        | true =>
          obtain ⟨log, hlog⟩ := hreached
          have hfind : L.roots.find? (L.isNew s) = some i :=
            List.find?_eq_some_iff_append.2
              ⟨hnew, before, rest, hroots, fun j hj => by rw [hbefore j hj]; rfl⟩
          refine hrun s i _ (hlog.next ?_) hnew
          rw [next?_of_nil (hstack s hs), hfind]
          rfl
  obtain ⟨hreached, hs, hnone⟩ := hgoes L.roots [] L.first rfl (by simp) hfirst ⟨_, .first⟩
  refine ⟨hreached, ?_⟩
  rw [next?_of_nil (hstack _ hs), Option.map_eq_none_iff, List.find?_eq_none]
  intro j hj
  rw [hnone j hj]
  exact Bool.false_ne_true

end Loop

/-! ## What a turn does to the stack -/

section Turns

variable {a : Adjacency n} {entered entered' : Fin n → Prop} {stack stack' : List (Frame n)}
  {log : List (Move n)} {i : Fin n} {link : Link n} {pending : List (Link n)}
  {below : List (Frame n)}

/-- The turns a loop may take, and which nodes have been entered before and after them. -/
inductive Turn (a : Adjacency n) (entered entered' : Fin n → Prop) :
    List (Frame n) → List (Frame n) → Prop
  /-- A new node is put on the empty stack. -/
  | root {i : Fin n} (hnew : ¬ entered i) (h : ∀ j, entered' j ↔ i = j ∨ entered j) :
      Turn a entered entered' [] [⟨i, a.outgoing.get i⟩]
  /-- A node whose links are all followed is taken off. -/
  | leave {i : Fin n} {below : List (Frame n)} (h : ∀ j, entered' j ↔ entered j) :
      Turn a entered entered' (⟨i, []⟩ :: below) below
  /-- A link to a node that has been entered is followed. -/
  | pass {i : Fin n} {link : Link n} {pending : List (Link n)} {below : List (Frame n)}
      (h : ∀ j, entered' j ↔ entered j) :
      Turn a entered entered' (⟨i, link :: pending⟩ :: below) (⟨i, pending⟩ :: below)
  /-- A link to a new node is followed, and the node is put on top. -/
  | enter {i : Fin n} {link : Link n} {pending : List (Link n)} {below : List (Frame n)}
      (hnew : ¬ entered link.node) (h : ∀ j, entered' j ↔ link.node = j ∨ entered j) :
      Turn a entered entered' (⟨i, link :: pending⟩ :: below)
        (⟨link.node, a.outgoing.get link.node⟩ :: ⟨i, pending⟩ :: below)

/-- The links of a node that are pending on a stack. -/
def pendingAt (i : Fin n) (stack : List (Frame n)) : List (Link n) :=
  stack.flatMap fun f => if f.node = i then f.pending else []

/-- The links of a node that are followed, and after them those that are pending. -/
def linksAt (i : Fin n) (log : List (Move n)) (stack : List (Frame n)) : List (Link n) :=
  linksFrom i log ++ pendingAt i stack

/-- The links of an entered node are followed or pending, in their order, and no other links
are. -/
structure Accounted (a : Adjacency n) (log : List (Move n)) (entered : Fin n → Prop)
    (stack : List (Frame n)) : Prop where
  entered : ∀ i, i ∈ entries log ↔ entered i
  /-- No node is entered twice. -/
  nodup : (entries log).Nodup
  links : ∀ i ∈ entries log, linksAt i log stack = a.outgoing.get i
  others : ∀ i ∉ entries log, linksAt i log stack = []

theorem entries_enter (log : List (Move n)) (i : Fin n) :
    entries (log ++ [.enter i]) = entries log ++ [i] := by
  rw [entries, List.filterMap_append]
  rfl

theorem entries_follow (log : List (Move n)) (i : Fin n) (link : Link n) :
    entries (log ++ [.follow i link]) = entries log := by
  rw [entries, List.filterMap_append]
  exact List.append_nil _

theorem linksFrom_enter (log : List (Move n)) (i j : Fin n) :
    linksFrom j (log ++ [.enter i]) = linksFrom j log := by
  rw [linksFrom, List.filterMap_append]
  exact List.append_nil _

theorem linksFrom_follow (log : List (Move n)) (i j : Fin n) (link : Link n) :
    linksFrom j (log ++ [.follow i link]) = linksFrom j log ++ if i = j then [link] else [] := by
  rw [linksFrom, List.filterMap_append]
  by_cases h : i = j <;> simp [Move.linkFrom?, h, linksFrom]

theorem pendingAt_cons (j : Fin n) (f : Frame n) (stack : List (Frame n)) :
    pendingAt j (f :: stack) = (if f.node = j then f.pending else []) ++ pendingAt j stack :=
  List.flatMap_cons ..

/-- The links of a node that is put on the stack are pending. -/
theorem linksAt_enter (i j : Fin n) (links : List (Link n)) :
    linksAt j (log ++ [.enter i]) (⟨i, links⟩ :: stack)
      = linksFrom j log ++ ((if i = j then links else []) ++ pendingAt j stack) := by
  rw [linksAt, linksFrom_enter, pendingAt_cons]

/-- A link that is followed goes over from the pending ones to the followed ones. -/
theorem linksAt_follow (j : Fin n) :
    linksAt j (log ++ [.follow i link]) (⟨i, pending⟩ :: below)
      = linksAt j log (⟨i, link :: pending⟩ :: below) := by
  rw [linksAt, linksAt, linksFrom_follow, pendingAt_cons, pendingAt_cons]
  by_cases hj : i = j <;> simp [hj]

/-- A node that is taken off has no links pending. -/
theorem linksAt_leave (j : Fin n) : linksAt j log (⟨i, []⟩ :: below) = linksAt j log below := by
  rw [linksAt, pendingAt_cons, ite_self, List.nil_append, linksAt]

theorem Accounted.congr (h : Accounted a log entered stack)
    (hentered : ∀ j, entered' j ↔ entered j) : Accounted a log entered' stack :=
  ⟨fun i => (h.entered i).trans (hentered i).symm, h.nodup, h.links, h.others⟩

/-- A new node has all its links before it. -/
theorem Accounted.enter (h : Accounted a log entered stack) (hnew : ¬ entered i)
    (hentered : ∀ j, entered' j ↔ i = j ∨ entered j) :
    Accounted a (log ++ [.enter i]) entered' (⟨i, a.outgoing.get i⟩ :: stack) := by
  have hi : i ∉ entries log := mt (h.entered i).1 hnew
  refine ⟨fun j => ?_, ?_, fun j hj => ?_, fun j hj => ?_⟩
  · rw [entries_enter, List.mem_append, List.mem_singleton, h.entered, hentered, or_comm, eq_comm]
  · rw [entries_enter, ← List.concat_eq_append]
    exact List.Nodup.concat hi h.nodup
  · rw [linksAt_enter]
    by_cases hij : i = j
    · subst hij
      obtain ⟨hfollowed, hpending⟩ := List.append_eq_nil_iff.1 (h.others i hi)
      rw [hfollowed, hpending, if_pos rfl, List.nil_append, List.append_nil]
    · rw [entries_enter, List.mem_append, List.mem_singleton] at hj
      rw [if_neg hij, List.nil_append]
      exact h.links j (hj.resolve_right (Ne.symm hij))
  · rw [entries_enter, List.mem_append, List.mem_singleton, not_or] at hj
    rw [linksAt_enter, if_neg (Ne.symm hj.2), List.nil_append]
    exact h.others j hj.1

theorem Accounted.follow (h : Accounted a log entered (⟨i, link :: pending⟩ :: below)) :
    Accounted a (log ++ [.follow i link]) entered (⟨i, pending⟩ :: below) := by
  refine ⟨fun j => ?_, ?_, fun j hj => ?_, fun j hj => ?_⟩
  · rw [entries_follow, h.entered]
  · rw [entries_follow]
    exact h.nodup
  · rw [entries_follow] at hj
    rw [linksAt_follow, h.links j hj]
  · rw [entries_follow] at hj
    rw [linksAt_follow, h.others j hj]

theorem Accounted.leave (h : Accounted a log entered (⟨i, []⟩ :: below)) :
    Accounted a log entered below := by
  refine ⟨h.entered, h.nodup, fun j hj => ?_, fun j hj => ?_⟩
  · rw [← linksAt_leave, h.links j hj]
  · rw [← linksAt_leave, h.others j hj]

/-- **A turn keeps the account.** -/
theorem Accounted.turn (h : Accounted a log entered stack)
    (ht : Turn a entered entered' stack stack') :
    Accounted a (log ++ Frame.moves stack stack') entered' stack' := by
  cases ht with
  | root hnew hentered => exact h.enter hnew hentered
  | @leave i _ hsame =>
    have hnone : Frame.moves (⟨i, []⟩ :: stack') stack' = [] := by simp [Frame.moves]
    rw [hnone, List.append_nil]
    exact h.leave.congr hsame
  | pass hsame =>
    rw [Frame.moves, if_neg (by simp)]
    exact h.follow.congr hsame
  | enter hnew hentered =>
    rw [Frame.moves, if_pos (by simp), ← List.append_assoc]
    exact h.follow.enter hnew hentered

end Turns

/-! ## What a loop has done at its end -/

namespace Loop

variable {L : Loop n σ} {a : Adjacency n} {log : List (Move n)} {s : σ}

/-- A loop begins with an empty stack, where every node is new, and all its turns are of the four
kinds. -/
structure Traverses (L : Loop n σ) (a : Adjacency n) : Prop where
  stack_first : L.stack L.first = []
  isNew_first : ∀ i, L.isNew L.first i = true
  turn : ∀ log s t, L.Reaches log s → L.next? s = some t →
    Turn a (fun i => L.isNew s i = false) (fun i => L.isNew t i = false) (L.stack s) (L.stack t)

/-- **A run keeps the account.** -/
theorem Traverses.accounted (hL : L.Traverses a) (h : L.Reaches log s) :
    Accounted a log (fun i => L.isNew s i = false) (L.stack s) := by
  induction h with
  | first =>
    rw [hL.stack_first]
    exact ⟨fun i => by simp [entries, hL.isNew_first], List.nodup_nil,
      fun i hi => absurd hi List.not_mem_nil, fun i _ => rfl⟩
  | next hreached ht ih => exact ih.turn (hL.turn _ _ _ hreached ht)

end Loop

/-- No node is put on the stack twice, the links of a node that is put there are followed once, in
their order, and no other link is followed. -/
structure FollowsOnce (a : Adjacency n) (log : List (Move n)) : Prop where
  entered_once : (entries log).Nodup
  followed : ∀ i ∈ entries log, linksFrom i log = a.outgoing.get i
  followed_once : ∀ i ∈ entries log, ∀ link ∈ a.outgoing.get i, log.count (.follow i link) = 1
  others : ∀ i ∉ entries log, linksFrom i log = []

theorem count_follow (i : Fin n) (link : Link n) (log : List (Move n)) :
    log.count (.follow i link) = (linksFrom i log).count link := by
  induction log with
  | nil => rfl
  | cons m log ih =>
    rw [linksFrom, List.filterMap_cons, List.count_cons, ih]
    cases m with
    | enter j => simp [Move.linkFrom?, linksFrom]
    | follow j other =>
      by_cases hj : j = i
      · simp [Move.linkFrom?, linksFrom, hj, List.count_cons]
      · simp [Move.linkFrom?, linksFrom, hj]

/-- At the end nothing is pending, so all links are among those followed. -/
theorem Accounted.followsOnce {a : Adjacency n} {log : List (Move n)} {entered : Fin n → Prop}
    (h : Accounted a log entered []) (hlinks : ∀ i, (a.outgoing.get i).Nodup) :
    FollowsOnce a log := by
  have hfollowed : ∀ i, linksAt i log [] = linksFrom i log := fun i => List.append_nil _
  have hentered : ∀ i ∈ entries log, linksFrom i log = a.outgoing.get i := fun i hi => by
    rw [← hfollowed, h.links i hi]
  refine ⟨h.nodup, hentered, fun i hi link hlink => ?_, fun i hi => by
    rw [← hfollowed, h.others i hi]⟩
  rw [count_follow, hentered i hi]
  exact List.count_eq_one_of_mem (hlinks i) hlink

end CrewChart

import CrewChart.Graph.Adjacency
import CrewChart.Lint.Finding

/-!
# Cycles

A depth-first search over the links of a chart, started from every node it has not seen yet, in
order.  A node is *open* while it lies on the path the search is on, and *done* when all its links
have been followed.  A link to an open node closes a cycle, and the node it leads back to is
reported, once.

The search keeps its path as a stack of frames, each with the links of its node that are still to
be followed, so the length of a chain costs no recursion.  `Search.step` is one move: to leave a
node whose links are all followed, or to follow the next link.  Every step but entering a node
takes something off the stack, and entering a node takes it off the unseen ones; this is the
measure by which `Search.run` ends.
-/

set_option autoImplicit false

namespace CrewChart.Lint

inductive Mark where
  | unseen
  | onPath
  | done
deriving DecidableEq, Repr

/-- The state of the search: the top of the stack is the end of the path, and the last node
reported comes first. -/
structure Search (n : Nat) where
  marks : Vector Mark n
  reported : List (Fin n)
  stack : List (Frame n)

namespace Search

variable {n : Nat}

def initial (n : Nat) : Search n := ⟨.replicate n .unseen, [], []⟩

/-- Puts an unseen node at the end of the path. -/
def enter (a : Adjacency n) (s : Search n) (i : Fin n) : Search n :=
  { s with marks := s.marks.set i.val .onPath i.isLt, stack := ⟨i, a.outgoing.get i⟩ :: s.stack }

/-- Reports a node that closes a cycle, unless it has been reported. -/
def report (s : Search n) (i : Fin n) : Search n :=
  if i ∈ s.reported then s else { s with reported := i :: s.reported }

/-- One move, given the top of the stack and the frames below. -/
def step (a : Adjacency n) (s : Search n) (top : Frame n) (below : List (Frame n)) : Search n :=
  match top.pending with
  | [] => { s with marks := s.marks.set top.node.val .done top.node.isLt, stack := below }
  | link :: pending =>
    let s := { s with stack := ⟨top.node, pending⟩ :: below }
    match s.marks.get link.node with
    | .unseen => s.enter a link.node
    | .onPath => s.report link.node
    | .done => s

/-! ## The measure -/

/-- How many nodes are still unseen. -/
def unseen (s : Search n) : Nat := s.marks.toList.count .unseen

/-- What there is to be taken off the stack: its frames and their links. -/
def load (s : Search n) : Nat := Frame.load s.stack

theorem count_set_of_ne {marks : Vector Mark n} {i : Fin n} {m : Mark} (hm : m ≠ .unseen) :
    (marks.set i.val m i.isLt).toList.count .unseen
      = marks.toList.count .unseen - if marks.get i = .unseen then 1 else 0 := by
  rw [Vector.toList_set, List.count_set (by simp)]
  simp [hm]
  rfl

theorem count_pos_of_unseen {marks : Vector Mark n} {i : Fin n} (h : marks.get i = .unseen) :
    0 < marks.toList.count .unseen :=
  List.count_pos_iff.2 (h ▸ Vector.mem_toList_iff.2 (Vector.getElem_mem i.isLt))

theorem unseen_enter (a : Adjacency n) (s : Search n) {i : Fin n} (h : s.marks.get i = .unseen) :
    (s.enter a i).unseen + 1 = s.unseen := by
  have := count_pos_of_unseen h
  simp only [unseen, enter, count_set_of_ne (m := .onPath) (by decide), h, if_true]
  omega

theorem unseen_step_le (a : Adjacency n) (s : Search n) (top : Frame n) (below : List (Frame n)) :
    (s.step a top below).unseen ≤ s.unseen := by
  unfold step
  split
  · simp only [unseen, count_set_of_ne (m := .done) (by decide)]; omega
  · rename_i link pending _
    dsimp only
    split
    · rename_i h
      have := unseen_enter a { s with stack := ⟨top.node, pending⟩ :: below } h
      simp only [unseen] at *; omega
    · unfold report; split <;> simp [unseen]
    · simp [unseen]

/-- Each move either enters a node or takes something off the stack. -/
theorem step_decreases (a : Adjacency n) (s : Search n) (top : Frame n) (below : List (Frame n))
    (hs : s.stack = top :: below) :
    (s.step a top below).unseen < s.unseen ∨
      ((s.step a top below).unseen ≤ s.unseen ∧ (s.step a top below).load < s.load) := by
  have hle := unseen_step_le a s top below
  -- Only a link to an unseen node enters one; what is left or passed comes off the load.
  unfold step at *
  split at *
  · right
    refine ⟨hle, ?_⟩
    simp only [load, hs, Frame.load_cons]; omega
  · rename_i link pending hp
    dsimp only at *
    split at *
    · rename_i h
      left
      have := unseen_enter a { s with stack := ⟨top.node, pending⟩ :: below } h
      simp only [unseen] at *; omega
    · right
      refine ⟨hle, ?_⟩
      unfold report
      split <;> simp only [load, hs, hp, Frame.load_cons, List.length_cons] <;> omega
    · right
      refine ⟨hle, ?_⟩
      simp only [load, hs, hp, Frame.load_cons, List.length_cons]; omega

/-- Moves until the stack is empty. -/
def run (a : Adjacency n) (s : Search n) : Search n :=
  match hs : s.stack with
  | [] => s
  | top :: below =>
    have := step_decreases a s top below hs
    run a (s.step a top below)
termination_by (s.unseen, s.load)
decreasing_by
  rcases this with h | ⟨h1, h2⟩
  · exact .left _ _ h
  · rcases Nat.lt_or_ge (s.step a top below).unseen s.unseen with h | h
    · exact .left _ _ h
    · rw [show (s.step a top below).unseen = s.unseen by omega]; exact .right _ h2

/-- Searches from a node, if it has not been seen. -/
def start (a : Adjacency n) (s : Search n) (i : Fin n) : Search n :=
  if s.marks.get i = .unseen then run a (s.enter a i) else s

/-- The search from every node in turn. -/
def all (a : Adjacency n) : Search n := (List.finRange n).foldl (start a) (initial n)

end Search

/-! ## The findings -/

def cycleCode : String := "CYCLE_DETECTED"

/-- The nodes that close a cycle, in the order they are found. -/
def cycleNodes {n : Nat} (a : Adjacency n) : List (Fin n) := (Search.all a).reported.reverse

def cycleAt (n : Node) : Finding :=
  .error n.id cycleCode "Circular dependency detected in the workflow"

def cycles (g : Graph) (a : Adjacency g.size) : List Finding :=
  (cycleNodes a).map fun i => cycleAt (g.nodeAt i)

end CrewChart.Lint

import CrewChart.Graph.Adjacency
import CrewChart.Simulation.Readiness

/-!
# The order of a simulation

A simulation evaluates the nodes that can be reached from the starts, each once.  All starts are
evaluated first, in order.  Then the links of each start are followed, depth first and in order; a
node is *evaluated* when it is first reached and *expanded* when its links begin to be followed.
The starts are the only nodes for which the two moments lie apart.

`Walk.step` is one move.  It either expands a node or takes something off the stack, and a node is
expanded only once; this is the measure by which `Walk.run` ends.
-/

set_option autoImplicit false

namespace CrewChart.Simulation

/-- The state of the walk: the node evaluated last comes first in `order`, and the end of the path
first in `stack`. -/
structure Walk (n : Nat) where
  evaluated : Vector Bool n
  expanded : Vector Bool n
  order : List (Fin n)
  stack : List (Frame n)

namespace Walk

variable {n : Nat}

def initial (n : Nat) : Walk n := ⟨.replicate n false, .replicate n false, [], []⟩

def evaluate (w : Walk n) (i : Fin n) : Walk n :=
  { w with evaluated := w.evaluated.set i.val true i.isLt, order := i :: w.order }

def expand (a : Adjacency n) (w : Walk n) (i : Fin n) : Walk n :=
  { w with expanded := w.expanded.set i.val true i.isLt, stack := ⟨i, a.outgoing.get i⟩ :: w.stack }

/-- Evaluates a node, unless that has been done. -/
def reach (w : Walk n) (i : Fin n) : Walk n := if w.evaluated.get i then w else w.evaluate i

/-- Expands a node, unless that has been done. -/
def follow (a : Adjacency n) (w : Walk n) (i : Fin n) : Walk n :=
  if w.expanded.get i then w else w.expand a i

/-- One move, given the top of the stack and the frames below. -/
def step (a : Adjacency n) (w : Walk n) (top : Frame n) (below : List (Frame n)) : Walk n :=
  match top.pending with
  | [] => { w with stack := below }
  | link :: pending =>
    (({ w with stack := ⟨top.node, pending⟩ :: below } : Walk n).reach link.node).follow a link.node

/-! ## The measure -/

/-- How many nodes have not been expanded. -/
def unexpanded (w : Walk n) : Nat := w.expanded.count false

/-- What there is to be taken off the stack. -/
def load (w : Walk n) : Nat := Frame.load w.stack

theorem expanded_reach (w : Walk n) (i : Fin n) : (w.reach i).expanded = w.expanded := by
  unfold reach; split <;> rfl

theorem stack_reach (w : Walk n) (i : Fin n) : (w.reach i).stack = w.stack := by
  unfold reach; split <;> rfl

theorem unexpanded_expand (a : Adjacency n) (w : Walk n) {i : Fin n}
    (h : w.expanded.get i = false) :
    (w.expand a i).unexpanded + 1 = w.unexpanded := by
  have hpos : 0 < w.expanded.count false :=
    Vector.count_pos_iff.2 (by rw [← h]; exact Vector.getElem_mem _)
  have hi : w.expanded[i.val] = false := h
  simp only [unexpanded, expand]
  rw [Vector.count_set (by simp)]
  simp only [hi]
  simp
  omega

/-- Each move either expands a node or takes something off the stack. -/
theorem step_decreases (a : Adjacency n) (w : Walk n) (top : Frame n) (below : List (Frame n))
    (hw : w.stack = top :: below) :
    (w.step a top below).unexpanded < w.unexpanded ∨
      ((w.step a top below).unexpanded = w.unexpanded ∧ (w.step a top below).load < w.load) := by
  unfold step
  split
  · right
    refine ⟨rfl, ?_⟩
    simp only [load, hw, Frame.load_cons]; omega
  · rename_i link pending hp
    generalize hv : ({ w with stack := ⟨top.node, pending⟩ :: below } : Walk n) = v
    have hu : (v.reach link.node).unexpanded = w.unexpanded := by
      simp only [unexpanded, expanded_reach, ← hv]
    unfold follow
    split
    · right
      refine ⟨hu, ?_⟩
      simp only [load, stack_reach, hw, ← hv, Frame.load_cons, hp, List.length_cons]; omega
    · rename_i h
      left
      have := unexpanded_expand a (v.reach link.node) (i := link.node) (by simpa using h)
      omega

/-- Moves until the stack is empty. -/
def run (a : Adjacency n) (w : Walk n) : Walk n :=
  match hw : w.stack with
  | [] => w
  | top :: below =>
    have := step_decreases a w top below hw
    run a (w.step a top below)
termination_by (w.unexpanded, w.load)
decreasing_by
  rcases this with h | ⟨h1, h2⟩
  · exact .left _ _ h
  · rw [h1]; exact .right _ h2

/-- Walks from a start, unless it has been expanded. -/
def start (a : Adjacency n) (w : Walk n) (i : Fin n) : Walk n :=
  if w.expanded.get i then w else run a (w.expand a i)

/-- The whole walk. -/
def all (a : Adjacency n) : Walk n :=
  a.starts.foldl (start a) (a.starts.foldl evaluate (initial n))

end Walk

/-- The nodes a simulation evaluates, in order. -/
def evaluationOrder {n : Nat} (a : Adjacency n) : List (Fin n) := (Walk.all a).order.reverse

/-- The outcomes of the nodes a simulation evaluates; none if there is no start. -/
def outcomes (g : Graph) : List Outcome :=
  let a := g.adjacency
  (evaluationOrder a).map fun i => assess (g.nodeAt i) (a.hasIncoming i)

end CrewChart.Simulation

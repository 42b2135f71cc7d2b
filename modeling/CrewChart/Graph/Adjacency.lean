import CrewChart.Graph.Basic

/-!
# Adjacency

The edges of a chart, sorted by the nodes they touch.  Nodes are named by their place, because ids
may repeat: an id stands for the first node that has it.

Only an edge with both ends becomes a *link*, one of the outgoing links of its source and one of
the incoming links of its target, and both lists keep the order of the edges.  An edge with one end
missing cannot be followed, but it still touches the node at its other end; `touchedAsSource` and
`touchedAsTarget` record that.  A node is a *start* when no edge has it as its target, and it is
isolated when no edge touches it at all.
-/

set_option autoImplicit false

namespace CrewChart

/-- One step along an edge: the place of the edge, and of the node at its other end. -/
structure Link (n : Nat) where
  edge : Nat
  node : Fin n
deriving DecidableEq, Repr

structure Adjacency (n : Nat) where
  outgoing : Vector (List (Link n)) n
  incoming : Vector (List (Link n)) n
  touchedAsSource : Vector Bool n
  touchedAsTarget : Vector Bool n

namespace Adjacency

variable {n : Nat}

def empty (n : Nat) : Adjacency n where
  outgoing := .replicate n []
  incoming := .replicate n []
  touchedAsSource := .replicate n false
  touchedAsTarget := .replicate n false

/-- The node at an end of an edge is touched by it, if it is there. -/
def touch (flags : Vector Bool n) : Option (Fin n) → Vector Bool n
  | some i => flags.set i.val true i.isLt
  | none => flags

/-- Adds a link in front of those a node has. -/
def addLink (links : Vector (List (Link n)) n) (i : Fin n) (link : Link n) :
    Vector (List (Link n)) n :=
  links.set i.val (link :: links.get i) i.isLt

/-- Takes in an edge that comes before all edges taken in so far. -/
def addEdge (a : Adjacency n) (edge : Nat) (source target : Option (Fin n)) : Adjacency n where
  touchedAsSource := touch a.touchedAsSource source
  touchedAsTarget := touch a.touchedAsTarget target
  outgoing :=
    match source, target with
    | some s, some t => addLink a.outgoing s ⟨edge, t⟩
    | _, _ => a.outgoing
  incoming :=
    match source, target with
    | some s, some t => addLink a.incoming t ⟨edge, s⟩
    | _, _ => a.incoming

/-- Whether some edge has the node as its target, even one that comes from nowhere. -/
def hasIncoming (a : Adjacency n) (i : Fin n) : Bool := a.touchedAsTarget.get i

/-- Whether some edge touches the node. -/
def isConnected (a : Adjacency n) (i : Fin n) : Bool :=
  a.touchedAsSource.get i || a.touchedAsTarget.get i

/-- The nodes no edge leads to, in order. -/
def starts (a : Adjacency n) : List (Fin n) := (List.finRange n).filter fun i => !a.hasIncoming i

theorem mem_starts (a : Adjacency n) (i : Fin n) : i ∈ a.starts ↔ a.hasIncoming i = false := by
  simp [starts]

end Adjacency

/-! ## The path of a walk

A walk keeps the nodes it has entered and not left as a stack of frames, the end of the path
first. -/

/-- A node on a path, with its links still to be followed. -/
structure Frame (n : Nat) where
  node : Fin n
  pending : List (Link n)

/-- What there is to be taken off a stack: its frames and their links. -/
def Frame.load {n : Nat} : List (Frame n) → Nat
  | [] => 0
  | top :: below => top.pending.length + 1 + Frame.load below

theorem Frame.load_cons {n : Nat} (top : Frame n) (below : List (Frame n)) :
    Frame.load (top :: below) = top.pending.length + 1 + Frame.load below := rfl

namespace Graph

/-- The number of nodes, which are named by the numbers below it. -/
abbrev size (g : Graph) : Nat := g.nodes.length

def nodeAt (g : Graph) (i : Fin g.size) : Node := g.nodes.get i

/-- The place of the first node with this id. -/
def position? (g : Graph) (id : String) : Option (Fin g.size) :=
  g.nodes.findFinIdx? fun n => n.id == id

def adjacency (g : Graph) : Adjacency g.size :=
  g.edges.zipIdx.foldr
    (fun (e, k) a => a.addEdge k (g.position? e.source) (g.position? e.target)) (.empty g.size)

end Graph

end CrewChart

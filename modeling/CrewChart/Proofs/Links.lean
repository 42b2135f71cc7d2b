import CrewChart.Graph.Adjacency
import Mathlib.Data.List.Nodup
import Mathlib.Data.List.FinRange
import Mathlib.Logic.Relation

/-!
# The links of a chart

`Graph.adjacency` takes in the edges one by one, the last one first.  This file says what is there
once they are all in, so that the walks need not look at how it was built.

## What is here

* `Graph.position?_eq_some_iff` — an id stands for the first node that has it; where ids are
  distinct, for the one node that has it (`Graph.position?_eq_some_iff_of_nodup`).
* `Graph.row_adjacency`, `Graph.flag_adjacency` — what is kept node by node, for all edges at once,
  from what one edge adds to it.
* `Graph.get_outgoing`, `Graph.get_incoming` — the links of a node are the edges at it that have
  both ends, in the order of the edges.
* `Graph.successors`, `Graph.map_node_outgoing` — where those links lead, without the places of the
  edges.
* `Graph.hasIncoming_iff`, `Graph.isConnected_iff` — the flags of a node are about every edge, also
  one that comes from nowhere.
* `Graph.Arc` — the same said with ids: an arc is an edge both ends of which are nodes.  Where ids
  are distinct, places and ids tell the same story (`Graph.linked_iff_arc`,
  `Graph.hasIncoming_eq`, `Graph.isConnected_eq`).
-/

set_option autoImplicit false

namespace CrewChart

/-! ## Taking in one edge -/

/-- Everything here that is kept node by node is a vector, written at one place and read at
another. -/
theorem get_set {α : Type} {n : Nat} (v : Vector α n) (i j : Fin n) (x : α) :
    (v.set i.val x i.isLt).get j = if i = j then x else v.get j := by
  show (v.set i.val x i.isLt)[j.val] = _
  rw [Vector.getElem_set]
  by_cases h : i = j
  · rw [if_pos h, if_pos (congrArg Fin.val h)]
  · rw [if_neg h, if_neg fun hv => h (Fin.ext hv)]
    rfl

namespace Adjacency

variable {n : Nat}

/-- Some link leads from `i` to `j`. -/
def Linked (a : Adjacency n) (i j : Fin n) : Prop := ∃ link ∈ a.outgoing.get i, link.node = j

theorem nodup_starts (a : Adjacency n) : a.starts.Nodup := (List.nodup_finRange n).filter _

theorem get_touch (flags : Vector Bool n) (end? : Option (Fin n)) (i : Fin n) :
    (touch flags end?).get i = (decide (end? = some i) || flags.get i) := by
  cases end? with
  | none => simp [touch]
  | some j =>
    rw [touch, get_set]
    by_cases h : j = i <;> simp [h]

theorem get_addLink (links : Vector (List (Link n)) n) (j : Fin n) (link : Link n) (i : Fin n) :
    (addLink links j link).get i = if j = i then link :: links.get i else links.get i := by
  rw [addLink, get_set]
  by_cases h : j = i
  · rw [if_pos h, if_pos h, h]
  · rw [if_neg h, if_neg h]

/-- The link an edge is for the node at its source.  For the node at its target it is this with the
ends swapped. -/
def linkFrom (edge : Nat) (source target : Option (Fin n)) (i : Fin n) : Option (Link n) :=
  if source = some i then target.map (Link.mk edge) else none

theorem linkFrom_eq_some_iff {edge : Nat} {source target : Option (Fin n)} {i : Fin n}
    {link : Link n} : linkFrom edge source target i = some link ↔
      source = some i ∧ ∃ t, target = some t ∧ ⟨edge, t⟩ = link := by
  rw [linkFrom]
  split
  · rename_i h
    rw [Option.map_eq_some_iff, and_iff_right h]
  · rename_i h
    exact ⟨fun hn => absurd hn (by simp), fun hs => absurd hs.1 h⟩

theorem get_outgoing_addEdge (a : Adjacency n) (edge : Nat) (source target : Option (Fin n))
    (i : Fin n) : (a.addEdge edge source target).outgoing.get i
      = (linkFrom edge source target i).toList ++ a.outgoing.get i := by
  cases source with
  | none => rfl
  | some s =>
    cases target with
    | none => by_cases h : s = i <;> simp [addEdge, linkFrom, h]
    | some t =>
      show (addLink a.outgoing s ⟨edge, t⟩).get i = _
      rw [get_addLink, linkFrom]
      by_cases h : s = i <;> simp [h]

theorem get_incoming_addEdge (a : Adjacency n) (edge : Nat) (source target : Option (Fin n))
    (i : Fin n) : (a.addEdge edge source target).incoming.get i
      = (linkFrom edge target source i).toList ++ a.incoming.get i := by
  cases source with
  | none => by_cases h : target = some i <;> simp [addEdge, linkFrom, h]
  | some s =>
    cases target with
    | none => rfl
    | some t =>
      show (addLink a.incoming t ⟨edge, s⟩).get i = _
      rw [get_addLink, linkFrom]
      by_cases h : t = i <;> simp [h]

theorem hasIncoming_addEdge (a : Adjacency n) (edge : Nat) (source target : Option (Fin n))
    (i : Fin n) : (a.addEdge edge source target).hasIncoming i
      = (decide (target = some i) || a.hasIncoming i) :=
  get_touch _ _ _

theorem isConnected_addEdge (a : Adjacency n) (edge : Nat) (source target : Option (Fin n))
    (i : Fin n) : (a.addEdge edge source target).isConnected i
      = ((decide (source = some i) || decide (target = some i)) || a.isConnected i) := by
  show ((touch a.touchedAsSource source).get i || (touch a.touchedAsTarget target).get i) = _
  rw [get_touch, get_touch, isConnected]
  ac_rfl

end Adjacency

/-! ## Ids and places -/

/-- Where keys are distinct, a key selects one entry. -/
theorem filter_key_eq_singleton {α : Type} {key : α → String} {l : List α}
    (hd : (l.map key).Nodup) {x : α} (hx : x ∈ l) : l.filter (fun y => key y == key x) = [x] := by
  induction l with
  | nil => exact absurd hx List.not_mem_nil
  | cons y l ih =>
    rw [List.map_cons, List.nodup_cons] at hd
    rw [List.filter_cons]
    rcases List.mem_cons.1 hx with rfl | hx
    · have hnone : l.filter (fun y => key y == key x) = [] := by
        rw [List.filter_eq_nil_iff]
        intro z hz hzx
        exact hd.1 (beq_iff_eq.1 hzx ▸ List.mem_map_of_mem hz)
      rw [if_pos (beq_self_eq_true _), hnone]
    · have hne : key y ≠ key x := fun h => hd.1 (h ▸ List.mem_map_of_mem hx)
      rw [if_neg (by simpa using hne), ih hd.2 hx]

namespace Graph

variable {g : Graph}

theorem nodeAt_mem (g : Graph) (i : Fin g.size) : g.nodeAt i ∈ g.nodes :=
  List.get_mem _ _

theorem exists_nodeAt {node : Node} (h : node ∈ g.nodes) : ∃ i, g.nodeAt i = node := by
  obtain ⟨k, hk, rfl⟩ := List.mem_iff_getElem.1 h
  exact ⟨⟨k, hk⟩, rfl⟩

/-- The nodes are what is at the places, in order. -/
theorem map_nodeAt_finRange (g : Graph) : (List.finRange g.size).map g.nodeAt = g.nodes :=
  List.map_get_finRange g.nodes

theorem position?_eq_some_iff {id : String} {i : Fin g.size} :
    g.position? id = some i ↔ (g.nodeAt i).id = id ∧ ∀ j < i, (g.nodeAt j).id ≠ id := by
  rw [position?, List.findFinIdx?_eq_some_iff]
  simp only [beq_iff_eq]
  rfl

theorem nodeAt_of_position? {id : String} {i : Fin g.size} (h : g.position? id = some i) :
    (g.nodeAt i).id = id :=
  (position?_eq_some_iff.1 h).1

theorem nodeAt_id_injective (hd : (g.nodes.map Node.id).Nodup) :
    Function.Injective fun i => (g.nodeAt i).id := by
  intro i j h
  have hij : g.nodeAt i = g.nodeAt j :=
    List.inj_on_of_nodup_map hd (nodeAt_mem g i) (nodeAt_mem g j) h
  exact List.nodup_iff_injective_get.1 (hd.of_map _) hij

theorem position?_eq_some_iff_of_nodup (hd : (g.nodes.map Node.id).Nodup) {id : String}
    {i : Fin g.size} : g.position? id = some i ↔ (g.nodeAt i).id = id := by
  refine ⟨nodeAt_of_position?, fun h => position?_eq_some_iff.2 ⟨h, fun j hj hjd => ?_⟩⟩
  exact absurd (nodeAt_id_injective hd (hjd.trans h.symm)) (Fin.ne_of_lt hj)

/-! ## All edges taken in -/

/-- What each edge puts in front of a list is there once all are in, in the order of the edges. -/
theorem row_adjacency {β : Type} (row : Adjacency g.size → List β)
    (added : Nat → Option (Fin g.size) → Option (Fin g.size) → Option β)
    (hempty : row (.empty g.size) = [])
    (hadd : ∀ a k s t, row (a.addEdge k s t) = (added k s t).toList ++ row a) :
    row g.adjacency
      = g.edges.zipIdx.filterMap fun (e, k) =>
          added k (g.position? e.source) (g.position? e.target) := by
  rw [adjacency]
  induction g.edges.zipIdx with
  | nil => exact hempty
  | cons m rest ih =>
    obtain ⟨e, k⟩ := m
    rw [List.foldr_cons, List.filterMap_cons, hadd, ih]
    dsimp only
    cases added k (g.position? e.source) (g.position? e.target) <;> rfl

/-- A flag that some edge raises is raised once all are in. -/
theorem flag_adjacency (flag : Adjacency g.size → Bool)
    (raised : Option (Fin g.size) → Option (Fin g.size) → Bool)
    (hempty : flag (.empty g.size) = false)
    (hadd : ∀ a k s t, flag (a.addEdge k s t) = (raised s t || flag a)) :
    flag g.adjacency
      = g.edges.any fun e => raised (g.position? e.source) (g.position? e.target) := by
  conv_rhs => rw [← List.zipIdx_map_fst 0 g.edges, List.any_map]
  rw [adjacency]
  induction g.edges.zipIdx with
  | nil => exact hempty
  | cons m rest ih =>
    rw [List.foldr_cons, List.any_cons, hadd, ih]
    rfl

/-- **The outgoing links of a node**: the edges that leave it and have both ends, in order. -/
theorem get_outgoing (g : Graph) (i : Fin g.size) : g.adjacency.outgoing.get i
    = g.edges.zipIdx.filterMap fun (e, k) =>
        Adjacency.linkFrom k (g.position? e.source) (g.position? e.target) i :=
  row_adjacency (fun a => a.outgoing.get i) (fun k s t => Adjacency.linkFrom k s t i)
    (by simp [Adjacency.empty, Vector.get]) fun a k s t => a.get_outgoing_addEdge k s t i

/-- **The incoming links of a node**: the edges that lead to it and have both ends, in order. -/
theorem get_incoming (g : Graph) (i : Fin g.size) : g.adjacency.incoming.get i
    = g.edges.zipIdx.filterMap fun (e, k) =>
        Adjacency.linkFrom k (g.position? e.target) (g.position? e.source) i :=
  row_adjacency (fun a => a.incoming.get i) (fun k s t => Adjacency.linkFrom k t s i)
    (by simp [Adjacency.empty, Vector.get]) fun a k s t => a.get_incoming_addEdge k s t i

/-- Where the edges that leave a node lead, in order.  An edge that lacks an end leads nowhere. -/
def successors (g : Graph) (i : Fin g.size) : List (Fin g.size) :=
  g.edges.filterMap fun e =>
    if g.position? e.source = some i then g.position? e.target else none

/-- The outgoing links of a node lead where its edges do. -/
theorem map_node_outgoing (g : Graph) (i : Fin g.size) :
    (g.adjacency.outgoing.get i).map Link.node = g.successors i := by
  rw [successors]
  conv_rhs => rw [← List.zipIdx_map_fst 0 g.edges, List.filterMap_map]
  rw [get_outgoing, List.map_filterMap]
  refine congrArg (List.filterMap · g.edges.zipIdx) (funext fun (e, k) => ?_)
  show (Adjacency.linkFrom k _ _ i).map Link.node = ite _ _ _
  rw [Adjacency.linkFrom]
  split
  · cases g.position? e.target <;> rfl
  · rfl

theorem hasIncoming_iff (g : Graph) (i : Fin g.size) :
    g.adjacency.hasIncoming i = true ↔ ∃ e ∈ g.edges, g.position? e.target = some i := by
  have hflag := flag_adjacency (fun a => a.hasIncoming i) (fun _ t => decide (t = some i))
    (by simp [Adjacency.hasIncoming, Adjacency.empty, Vector.get])
    fun a k s t => a.hasIncoming_addEdge k s t i
  rw [hflag, List.any_eq_true]
  simp only [decide_eq_true_eq]

theorem isConnected_iff (g : Graph) (i : Fin g.size) : g.adjacency.isConnected i = true ↔
    ∃ e ∈ g.edges, g.position? e.source = some i ∨ g.position? e.target = some i := by
  have hflag := flag_adjacency (fun a => a.isConnected i)
    (fun s t => decide (s = some i) || decide (t = some i))
    (by simp [Adjacency.isConnected, Adjacency.empty, Vector.get])
    fun a k s t => a.isConnected_addEdge k s t i
  rw [hflag, List.any_eq_true]
  simp only [Bool.or_eq_true, decide_eq_true_eq]

theorem linked_iff {i j : Fin g.size} : g.adjacency.Linked i j ↔
    ∃ e ∈ g.edges, g.position? e.source = some i ∧ g.position? e.target = some j := by
  rw [Adjacency.Linked, get_outgoing]
  constructor
  · rintro ⟨link, hl, rfl⟩
    obtain ⟨⟨e, k⟩, hm, h⟩ := List.mem_filterMap.1 hl
    obtain ⟨hs, t, ht, rfl⟩ := Adjacency.linkFrom_eq_some_iff.1 h
    exact ⟨e, List.fst_mem_of_mem_zipIdx hm, hs, ht⟩
  · rintro ⟨e, he, hs, ht⟩
    obtain ⟨k, hk, rfl⟩ := List.mem_iff_getElem.1 he
    refine ⟨⟨k, j⟩, List.mem_filterMap.2 ⟨(g.edges[k], k), ?_, ?_⟩, rfl⟩
    · exact List.mem_zipIdx_iff_getElem?.2 (List.getElem?_eq_getElem hk)
    · exact Adjacency.linkFrom_eq_some_iff.2 ⟨hs, j, ht, rfl⟩

/-! ## Arcs between ids -/

/-- An arc leads from the source of an edge to its target, when both are nodes. -/
def Arc (g : Graph) (u v : String) : Prop :=
  (∃ e ∈ g.edges, e.source = u ∧ e.target = v) ∧ u ∈ g.nodes.map Node.id ∧ v ∈ g.nodes.map Node.id

theorem linked_iff_arc (hd : (g.nodes.map Node.id).Nodup) {i j : Fin g.size} :
    g.adjacency.Linked i j ↔ g.Arc (g.nodeAt i).id (g.nodeAt j).id := by
  have hmem : ∀ k : Fin g.size, (g.nodeAt k).id ∈ g.nodes.map Node.id :=
    fun k => List.mem_map_of_mem (g.nodeAt_mem k)
  simp only [linked_iff, Arc, position?_eq_some_iff_of_nodup hd, hmem, and_true, eq_comm]

/-- Both ends of an arc have a place. -/
theorem Arc.exists_linked (hd : (g.nodes.map Node.id).Nodup) {u v : String} (h : g.Arc u v) :
    ∃ i j, (g.nodeAt i).id = u ∧ (g.nodeAt j).id = v ∧ g.adjacency.Linked i j := by
  obtain ⟨m, hm, rfl⟩ := List.mem_map.1 h.2.1
  obtain ⟨k, hk, rfl⟩ := List.mem_map.1 h.2.2
  obtain ⟨i, rfl⟩ := exists_nodeAt hm
  obtain ⟨j, rfl⟩ := exists_nodeAt hk
  exact ⟨i, j, rfl, rfl, (linked_iff_arc hd).2 h⟩

/-- What is reached along links is what is reached along arcs. -/
theorem reflTransGen_arc_iff (hd : (g.nodes.map Node.id).Nodup) {i : Fin g.size} {u : String} :
    Relation.ReflTransGen g.Arc (g.nodeAt i).id u ↔
      ∃ j, (g.nodeAt j).id = u ∧ Relation.ReflTransGen g.adjacency.Linked i j := by
  constructor
  · intro h
    induction h with
    | refl => exact ⟨i, rfl, .refl⟩
    | tail _ harc ih =>
      obtain ⟨j, rfl, hj⟩ := ih
      obtain ⟨j', k, hjj, rfl, hl⟩ := harc.exists_linked hd
      rw [nodeAt_id_injective hd hjj] at hl
      exact ⟨k, rfl, hj.tail hl⟩
  · rintro ⟨j, rfl, h⟩
    exact h.lift (fun k => (g.nodeAt k).id) fun _ _ hl => (linked_iff_arc hd).1 hl

theorem hasIncoming_iff_of_nodup (hd : (g.nodes.map Node.id).Nodup) {i : Fin g.size} :
    g.adjacency.hasIncoming i = true ↔ ∃ e ∈ g.edges, e.target = (g.nodeAt i).id := by
  simp only [hasIncoming_iff, position?_eq_some_iff_of_nodup hd]
  exact exists_congr fun e => and_congr_right fun _ => eq_comm

/-- An edge leads to a node if its target is the id of the node. -/
theorem hasIncoming_eq (hd : (g.nodes.map Node.id).Nodup) (i : Fin g.size) :
    g.adjacency.hasIncoming i = g.edges.any fun e => e.target == (g.nodeAt i).id := by
  rw [Bool.eq_iff_iff, hasIncoming_iff_of_nodup hd, List.any_eq_true]
  simp only [beq_iff_eq]

/-- An edge touches a node if one of its ends is the id of the node. -/
theorem isConnected_eq (hd : (g.nodes.map Node.id).Nodup) (i : Fin g.size) :
    g.adjacency.isConnected i
      = g.edges.any fun e => e.source == (g.nodeAt i).id || e.target == (g.nodeAt i).id := by
  rw [Bool.eq_iff_iff, isConnected_iff, List.any_eq_true]
  simp only [position?_eq_some_iff_of_nodup hd, Bool.or_eq_true, beq_iff_eq]
  simp only [eq_comm]

end Graph

end CrewChart

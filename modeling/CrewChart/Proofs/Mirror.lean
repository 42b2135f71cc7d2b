import CrewChart.Proofs.Coverage
import CrewChart.Proofs.Wiring
import Mathlib.Algebra.BigOperators.Group.Finset.Basic
import Mathlib.Order.Bounds.Defs

/-!
# The links mirror the edges

Everything that walks a chart goes by the links of its nodes, and never looks at the edges again.
This file says that nothing is lost on the way and nothing added: an edge with both ends is one link
where it leaves and one link where it arrives, every link is such an edge, and links stand in the
order of the edges.

The flags of a node say more than its links.  They are raised by every edge that touches it, also by
one that comes from nowhere or goes there.  Only in a chart with integrity, where there are no such
edges, can the flag for being a target be read off the links.

## What is here

* `StandsFor`, `Joins` — which node an id stands for, and from where to where an edge leads, said
  without the index.
* `row` — the links of a node towards one side.  The outgoing and the incoming links are this with
  the ends of the edges swapped, so what is said of them is proved once.
* `mem_row_iff`, `pairwise_row`, `sum_length_row` — which links are in a row, in which order, and
  how many there are in all rows.
* `Mirrors`, `adjacency_mirrors_edges` — all of it, said of the links and flags of a chart.
-/

set_option autoImplicit false

namespace CrewChart.Graph

open Adjacency (linkFrom linkFrom_eq_some_iff)

/-! ## Ends of edges -/

/-- An id stands for the first node that has it. -/
def StandsFor (g : Graph) (id : String) (i : Fin g.size) : Prop :=
  IsLeast {i | (g.nodeAt i).id = id} i

/-- The edge at this place leads from the one node to the other. -/
def Joins (g : Graph) (k : Nat) (i j : Fin g.size) : Prop :=
  ∃ e, g.edges[k]? = some e ∧ g.StandsFor e.source i ∧ g.StandsFor e.target j

variable {g : Graph}

theorem position?_eq_some_iff_standsFor {id : String} {i : Fin g.size} :
    g.position? id = some i ↔ g.StandsFor id i := by
  rw [position?_eq_some_iff]
  refine and_congr_right fun _ => ⟨fun h j hj => ?_, fun h j hlt hj => ?_⟩
  · exact not_lt.1 fun hlt => h j hlt hj
  · exact absurd (h hj) (not_le.2 hlt)

/-! ## One side of the links -/

section Row

variable (near far : Edge → String)

/-- The links of a node along edges that have it at their near end. -/
def row (g : Graph) (i : Fin g.size) : List (Link g.size) :=
  g.edges.zipIdx.filterMap fun (e, k) =>
    linkFrom k (g.position? (near e)) (g.position? (far e)) i

theorem outgoing_eq_row (i : Fin g.size) :
    g.adjacency.outgoing.get i = g.row Edge.source Edge.target i :=
  g.get_outgoing i

theorem incoming_eq_row (i : Fin g.size) :
    g.adjacency.incoming.get i = g.row Edge.target Edge.source i :=
  g.get_incoming i

/-- A link is an edge that has the node at its near end, and leads to what is at its far end. -/
theorem mem_row_iff {i : Fin g.size} {link : Link g.size} : link ∈ g.row near far i ↔
    ∃ e, g.edges[link.edge]? = some e ∧ g.StandsFor (near e) i ∧
      g.StandsFor (far e) link.node := by
  obtain ⟨edge, node⟩ := link
  simp only [row, List.mem_filterMap, linkFrom_eq_some_iff, Prod.exists,
    List.mem_zipIdx_iff_getElem?, ← position?_eq_some_iff_standsFor]
  constructor
  · rintro ⟨e, k, he, hnear, j, hfar, hlink⟩
    obtain ⟨rfl, rfl⟩ := Link.mk.inj hlink
    exact ⟨e, he, hnear, hfar⟩
  · rintro ⟨e, he, hnear, hfar⟩
    exact ⟨e, edge, he, hnear, node, hfar, rfl⟩

/-- Links stand in the order of their edges. -/
theorem pairwise_row (i : Fin g.size) :
    (g.row near far i).Pairwise fun l m => l.edge < m.edge := by
  have hplaces : g.edges.zipIdx.Pairwise fun p q => p.2 < q.2 := by
    have hrange : (g.edges.zipIdx.map Prod.snd).Pairwise (· < ·) := by
      rw [List.zipIdx_map_snd]
      exact List.pairwise_lt_range'
    exact List.pairwise_map.1 hrange
  refine hplaces.filterMap _ fun p q hpq l hl m hm => ?_
  obtain ⟨-, _, -, rfl⟩ := linkFrom_eq_some_iff.1 hl
  obtain ⟨-, _, -, rfl⟩ := linkFrom_eq_some_iff.1 hm
  exact hpq

/-- No link is there twice, because no edge is. -/
theorem count_row {i : Fin g.size} {link : Link g.size} (h : link ∈ g.row near far i) :
    (g.row near far i).count link = 1 := by
  refine List.count_eq_one_of_mem ?_ h
  exact (pairwise_row near far i).imp fun {l m} hlt heq => by rw [heq] at hlt; exact lt_irrefl _ hlt

/-- An edge is a link of one node if it has both ends, and of none otherwise. -/
theorem sum_length_linkFrom (k : Nat) (source target : Option (Fin g.size)) :
    ∑ i, (linkFrom k source target i).toList.length
      = if source.isSome && target.isSome then 1 else 0 := by
  cases source with
  | none => simp [linkFrom]
  | some s =>
    rw [Finset.sum_eq_single s]
    · cases target <;> simp [linkFrom]
    · intro i _ hi
      simp [linkFrom, Ne.symm hi]
    · exact fun hs => absurd (Finset.mem_univ s) hs

/-- **All nodes together have as many links as there are edges with both ends.** -/
theorem sum_length_row : ∑ i, (g.row near far i).length
    = g.edges.countP fun e => (g.position? (near e)).isSome && (g.position? (far e)).isSome := by
  conv_rhs => rw [← List.zipIdx_map_fst 0 g.edges, List.countP_map]
  simp only [row]
  induction g.edges.zipIdx with
  | nil => simp
  | cons m rest ih =>
    obtain ⟨e, k⟩ := m
    have hcons : ∀ i : Fin g.size, (((e, k) :: rest).filterMap fun (e, k) =>
        linkFrom k (g.position? (near e)) (g.position? (far e)) i).length
          = (linkFrom k (g.position? (near e)) (g.position? (far e)) i).toList.length
            + (rest.filterMap fun (e, k) =>
              linkFrom k (g.position? (near e)) (g.position? (far e)) i).length := by
      intro i
      rw [List.filterMap_cons]
      dsimp only
      cases linkFrom k (g.position? (near e)) (g.position? (far e)) i with
      | none => simp
      | some l => simp [Nat.add_comm]
    simp only [hcons, Finset.sum_add_distrib, ih, sum_length_linkFrom, List.countP_cons]
    exact Nat.add_comm _ _

end Row

/-! ## Links and flags of a chart -/

/-- The links are the edges, seen from both ends, and the flags are about every edge. -/
structure Mirrors (g : Graph) (a : Adjacency g.size) : Prop where
  /-- An edge with both ends is one link where it leaves, -/
  leaves : ∀ k i j, g.Joins k i j → (a.outgoing.get i).count ⟨k, j⟩ = 1
  /-- and one where it arrives. -/
  arrives : ∀ k i j, g.Joins k i j → (a.incoming.get j).count ⟨k, i⟩ = 1
  /-- Nothing else is a link. -/
  outgoing : ∀ i, ∀ link ∈ a.outgoing.get i, g.Joins link.edge i link.node
  incoming : ∀ i, ∀ link ∈ a.incoming.get i, g.Joins link.edge link.node i
  /-- Links stand in the order of the edges. -/
  outgoingOrdered : ∀ i, (a.outgoing.get i).Pairwise fun l m => l.edge < m.edge
  incomingOrdered : ∀ i, (a.incoming.get i).Pairwise fun l m => l.edge < m.edge
  /-- A link has the place of an edge and of a node. -/
  inRange : ∀ i, ∀ link ∈ a.outgoing.get i ++ a.incoming.get i,
    link.edge < g.edges.length ∧ link.node.val < g.nodes.length
  /-- A node has incoming edges if some edge arrives at it, wherever it comes from. -/
  hasIncoming : ∀ i, a.hasIncoming i = true ↔ ∃ e ∈ g.edges, g.StandsFor e.target i
  /-- A node is connected if some edge leaves it or arrives at it. -/
  isConnected : ∀ i, a.isConnected i = true ↔
    ∃ e ∈ g.edges, g.StandsFor e.source i ∨ g.StandsFor e.target i

theorem mem_outgoing_iff {k : Nat} {i j : Fin g.size} :
    ⟨k, j⟩ ∈ g.adjacency.outgoing.get i ↔ g.Joins k i j := by
  rw [outgoing_eq_row, mem_row_iff]
  rfl

theorem mem_incoming_iff {k : Nat} {i j : Fin g.size} :
    ⟨k, i⟩ ∈ g.adjacency.incoming.get j ↔ g.Joins k i j := by
  rw [incoming_eq_row, mem_row_iff]
  exact exists_congr fun e => and_congr_right fun _ => and_comm

/-- The edge of a link is there. -/
theorem Joins.lt_length {k : Nat} {i j : Fin g.size} (h : g.Joins k i j) : k < g.edges.length := by
  obtain ⟨e, he, -⟩ := h
  exact (List.getElem?_eq_some_iff.1 he).1

theorem mirrors_adjacency (g : Graph) : g.Mirrors g.adjacency where
  leaves k i j h := by
    have hmem := mem_outgoing_iff.2 h
    rw [outgoing_eq_row] at hmem ⊢
    exact count_row _ _ hmem
  arrives k i j h := by
    have hmem := mem_incoming_iff.2 h
    rw [incoming_eq_row] at hmem ⊢
    exact count_row _ _ hmem
  outgoing _ _ := mem_outgoing_iff.1
  incoming _ _ := mem_incoming_iff.1
  outgoingOrdered i := by
    rw [outgoing_eq_row]
    exact pairwise_row _ _ i
  incomingOrdered i := by
    rw [incoming_eq_row]
    exact pairwise_row _ _ i
  inRange i link hlink := by
    refine ⟨?_, link.node.isLt⟩
    rcases List.mem_append.1 hlink with hlink | hlink
    · exact (mem_outgoing_iff.1 hlink).lt_length
    · exact (mem_incoming_iff.1 hlink).lt_length
  hasIncoming i := by
    rw [hasIncoming_iff]
    simp only [position?_eq_some_iff_standsFor]
  isConnected i := by
    rw [isConnected_iff]
    simp only [position?_eq_some_iff_standsFor]

/-! ## Charts with integrity -/

namespace WellFormed

/-- The ends of an edge have places. -/
theorem isSome_position? (h : g.WellFormed) {e : Edge} (he : e ∈ g.edges) :
    (g.position? e.source).isSome = true ∧ (g.position? e.target).isSome = true := by
  have hplace : ∀ id ∈ g.nodes.map Node.id, (g.position? id).isSome = true := by
    intro id hid
    obtain ⟨n, hn, rfl⟩ := List.mem_map.1 hid
    rw [Graph.isSome_position?]
    exact List.any_eq_true.2 ⟨n, hn, beq_self_eq_true _⟩
  exact ⟨hplace _ (h.source e he), hplace _ (h.target e he)⟩

/-- No edge is lost. -/
theorem sum_length_outgoing (h : g.WellFormed) :
    ∑ i, (g.adjacency.outgoing.get i).length = g.edges.length := by
  simp only [outgoing_eq_row]
  rw [sum_length_row, List.countP_eq_length]
  intro e he
  exact Bool.and_eq_true_iff.2 (h.isSome_position? he)

/-- An edge that arrives comes from somewhere, so it is a link. -/
theorem hasIncoming_iff_ne_nil (h : g.WellFormed) (i : Fin g.size) :
    g.adjacency.hasIncoming i = true ↔ g.adjacency.incoming.get i ≠ [] := by
  constructor
  · intro hi
    obtain ⟨j, link, hlink, rfl⟩ := h.exists_linked hi
    have hjoins := mem_outgoing_iff.1 hlink
    exact List.ne_nil_of_mem (mem_incoming_iff.2 hjoins)
  · intro hsome
    obtain ⟨link, hlink⟩ := List.exists_mem_of_ne_nil _ hsome
    obtain ⟨e, he, -, htarget⟩ := mem_incoming_iff.1 hlink
    exact ((mirrors_adjacency g).hasIncoming i).2 ⟨e, List.mem_of_getElem? he, htarget⟩

end WellFormed

/-- **The links of a chart mirror its edges**, whatever the chart: ids may repeat and edges may lack
an end.  In a chart with integrity no edge is lost, and a node has incoming edges exactly if it has
incoming links. -/
theorem adjacency_mirrors_edges (g : Graph) : g.Mirrors g.adjacency ∧
    (g.checkIntegrity = .ok () →
      ∑ i, (g.adjacency.outgoing.get i).length = g.edges.length ∧
      ∀ i, g.adjacency.hasIncoming i = true ↔ g.adjacency.incoming.get i ≠ []) := by
  refine ⟨mirrors_adjacency g, fun h => ?_⟩
  have hw := g.checkIntegrity_eq_ok_iff.1 h
  exact ⟨hw.sum_length_outgoing, hw.hasIncoming_iff_ne_nil⟩

/-- Two edges side by side, with a loop between them, and an edge back. -/
def sideBySide : Graph where
  nodes := ["a", "b"].map fun id => { id, component := .flow {} }
  edges := [⟨"1", "a", "b", []⟩, ⟨"2", "b", "b", []⟩, ⟨"3", "a", "b", []⟩, ⟨"4", "b", "a", []⟩]

/-- The third edge is one link and the first another, and the loop is a link of its node on either
side. -/
theorem adjacency_mirrors_sideBySide : sideBySide.checkIntegrity = .ok () ∧
    ∃ i j : Fin sideBySide.size, sideBySide.Joins 0 i j ∧ sideBySide.Joins 2 i j ∧
      sideBySide.Joins 1 j j ∧
      (sideBySide.adjacency.outgoing.get i).count ⟨0, j⟩ = 1 ∧
      (sideBySide.adjacency.outgoing.get i).count ⟨2, j⟩ = 1 ∧
      (sideBySide.adjacency.outgoing.get j).count ⟨1, j⟩ = 1 ∧
      (sideBySide.adjacency.incoming.get j).count ⟨1, j⟩ = 1 ∧
      ∑ i, (sideBySide.adjacency.outgoing.get i).length = 4 ∧
      sideBySide.adjacency.incoming.get j ≠ [] := by
  have hok : sideBySide.checkIntegrity = .ok () := rfl
  let i : Fin sideBySide.size := ⟨0, by decide⟩
  let j : Fin sideBySide.size := ⟨1, by decide⟩
  have hi : sideBySide.StandsFor "a" i := position?_eq_some_iff_standsFor.1 rfl
  have hj : sideBySide.StandsFor "b" j := position?_eq_some_iff_standsFor.1 rfl
  have hfirst : sideBySide.Joins 0 i j := ⟨_, rfl, hi, hj⟩
  have hloop : sideBySide.Joins 1 j j := ⟨_, rfl, hj, hj⟩
  have hthird : sideBySide.Joins 2 i j := ⟨_, rfl, hi, hj⟩
  obtain ⟨hmirrors, hwhole⟩ := adjacency_mirrors_edges sideBySide
  obtain ⟨hsum, hincoming⟩ := hwhole hok
  refine ⟨hok, i, j, hfirst, hthird, hloop, hmirrors.leaves _ _ _ hfirst,
    hmirrors.leaves _ _ _ hthird, hmirrors.leaves _ _ _ hloop, hmirrors.arrives _ _ _ hloop, hsum,
    (hincoming j).1 ?_⟩
  exact (hmirrors.hasIncoming j).2 ⟨_, List.mem_cons_self, hj⟩

end CrewChart.Graph

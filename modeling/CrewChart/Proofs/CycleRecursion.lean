import CrewChart.Proofs.CycleSearch

/-!
# The cycle search as a recursion

The search of `CrewChart.Lint.Cycles` keeps its path as a stack of frames, so that a long chain
costs no recursion.  What it stands for is the search every textbook has: to visit a node is to
open it, to follow what it links to one after the other, visiting what is still unseen, and to
close it.  Here that search is written down as the recursion it is, and the two are shown to report
the same nodes in the same order, whatever the chart.

## What is here

* `Colouring` — a colour for each node and the nodes reported so far; there is no path in it,
  because the recursion itself is the path.
* `Colouring.follow`, `Colouring.visit`, `Colouring.searchAll` — the recursive search.  All it is
  told of a chart is what each node links to, in order.
* `Colouring.run_follow` — a run with a frame on top of its stack comes, when that frame is taken
  off, to where following the links of the frame leads.
* `cycleNodes_eq_searchAll`, `cycles_eq_searchAll` — the findings of the two searches are the same.

Nothing needs to be known of the frames below the top one, so no invariant of the stack is used:
the stack is the recursion that has still to be gone on with, and `run_follow` is said of any.
-/

set_option autoImplicit false

namespace CrewChart.Lint

/-- The colour of each node, and the nodes that have been reported, in order. -/
structure Colouring (n : Nat) where
  marks : Vector Mark n
  reported : List (Fin n)

namespace Colouring

variable {n : Nat}

def initial (n : Nat) : Colouring n := ⟨.replicate n .unseen, []⟩

def colour (c : Colouring n) (i : Fin n) (m : Mark) : Colouring n :=
  { c with marks := c.marks.set i.val m i.isLt }

/-- Reports a node, unless it has been reported. -/
def report (c : Colouring n) (i : Fin n) : Colouring n :=
  if c.reported.contains i then c else { c with reported := c.reported ++ [i] }

/-! ## The recursive search -/

/-- How many nodes are still unseen. -/
def unseen (c : Colouring n) : Nat := c.marks.toList.count .unseen

theorem unseen_colour_onPath {c : Colouring n} {i : Fin n} (h : c.marks.get i = .unseen) :
    (c.colour i .onPath).unseen < c.unseen := by
  have hpos := Search.count_pos_of_unseen h
  rw [unseen, colour, Search.count_set_of_ne (by decide), if_pos h, unseen]
  omega

theorem unseen_colour_done (c : Colouring n) (i : Fin n) :
    (c.colour i .done).unseen ≤ c.unseen := by
  rw [unseen, colour, Search.count_set_of_ne (by decide), unseen]
  exact Nat.sub_le _ _

theorem unseen_report (c : Colouring n) (i : Fin n) : (c.report i).unseen = c.unseen := by
  rw [report]
  split <;> rfl

section Recursion

variable (next : Fin n → List (Fin n))

/-- Follows links to these nodes, one after the other.  A node that is still unseen is opened, what
it links to is followed, and it is done; only then comes the link after it.  A node that is open is
on the path of the recursion, so the link to it closes a cycle. -/
def follow (c : Colouring n) (nodes : List (Fin n)) : { d : Colouring n // d.unseen ≤ c.unseen } :=
  match nodes with
  | [] => ⟨c, le_refl _⟩
  | i :: rest =>
    match h : c.marks.get i with
    | .unseen =>
      have hopen := unseen_colour_onPath h
      let ⟨inside, hinside⟩ := follow (c.colour i .onPath) (next i)
      have hdone := unseen_colour_done inside i
      let ⟨after, hafter⟩ := follow (inside.colour i .done) rest
      ⟨after, by omega⟩
    | .onPath =>
      have hreport := unseen_report c i
      let ⟨after, hafter⟩ := follow (c.report i) rest
      ⟨after, by omega⟩
    | .done => follow c rest
termination_by (c.unseen, nodes.length)
decreasing_by
  · exact .left _ _ hopen
  · exact .left _ _ (by omega)
  · exact Prod.Lex.right' _ hreport.le (Nat.lt_succ_self _)
  · exact .right _ (Nat.lt_succ_self _)

/-- Opens a node, follows what it links to, and closes it. -/
def visit (c : Colouring n) (i : Fin n) : Colouring n :=
  (follow next (c.colour i .onPath) (next i)).val.colour i .done

/-- Searches from a node, if it has not been seen. -/
def start (c : Colouring n) (i : Fin n) : Colouring n :=
  if c.marks.get i = .unseen then visit next c i else c

/-- The search from every node in turn. -/
def searchAll : Colouring n := (List.finRange n).foldl (start next) (initial n)

end Recursion

/-! ## The stack does what the recursion does -/

/-- The search with this colouring and stack, which has the node reported last first. -/
def withStack (c : Colouring n) (stack : List (Frame n)) : Search n :=
  ⟨c.marks, c.reported.reverse, stack⟩

theorem report_withStack (c : Colouring n) (i : Fin n) (stack : List (Frame n)) :
    (c.withStack stack).report i = (c.report i).withStack stack := by
  by_cases hi : i ∈ c.reported
  · rw [Search.report_of_mem (List.mem_reverse.2 hi), report,
      if_pos (List.contains_iff_mem.2 hi)]
  · rw [Search.report_of_not_mem (mt List.mem_reverse.1 hi), report,
      if_neg (mt List.contains_iff_mem.1 hi), withStack, withStack, List.reverse_concat]

variable {next : Fin n → List (Fin n)} {a : Adjacency n}

section Simulation

variable (hnext : ∀ i, (a.outgoing.get i).map Link.node = next i)
include hnext

/-- **A frame on the stack is a call of the recursion.**  What is below the frame is as it was when
the frame is taken off, and the colouring is what following the links of the frame makes of it. -/
theorem run_follow (c : Colouring n) (nodes : List (Fin n)) :
    ∀ links : List (Link n), links.map Link.node = nodes →
      ∀ i below, Search.run a (c.withStack (⟨i, links⟩ :: below))
        = Search.run a (((follow next c nodes).val.colour i .done).withStack below) := by
  fun_induction follow next c nodes with
  | case1 c =>
    intro links hlinks i below
    obtain rfl := List.map_eq_nil_iff.1 hlinks
    exact Search.run_cons (c.withStack (⟨i, []⟩ :: below)) rfl
  | case2 c j rest hunseen _ inside _ hinside _ after _ hafter ihinside ihafter =>
    intro links hlinks i below
    obtain ⟨link, pending, rfl, rfl, hpending⟩ := List.map_eq_cons_iff.1 hlinks
    rw [Search.run_cons _ rfl, Search.step_enter rfl hunseen]
    -- the frame that is put on top is the inner call, and what is left of this one comes after it
    have hinner := ihinside _ (hnext _) link.node (⟨i, pending⟩ :: below)
    rw [hinside] at hinner
    refine hinner.trans ?_
    rw [ihafter _ hpending, hafter]
  | case3 c j rest hopen _ after _ hafter ih =>
    intro links hlinks i below
    obtain ⟨link, pending, rfl, rfl, hpending⟩ := List.map_eq_cons_iff.1 hlinks
    rw [Search.run_cons _ rfl, Search.step_report rfl hopen, report_withStack]
    have hgoesOn := ih _ hpending i below
    rw [hafter] at hgoesOn
    exact hgoesOn
  | case4 c j rest hdone ih =>
    intro links hlinks i below
    obtain ⟨link, pending, rfl, rfl, hpending⟩ := List.map_eq_cons_iff.1 hlinks
    rw [Search.run_cons _ rfl, Search.step_skip rfl hdone]
    exact ih _ hpending i below

/-- Between the runs the stack is empty, and a run from a node is a visit of it. -/
theorem start_withStack (c : Colouring n) (i : Fin n) :
    (c.withStack []).start a i = (start next c i).withStack [] := by
  rw [start]
  split
  · rename_i hunseen
    calc (c.withStack []).start a i
        = Search.run a ((c.colour i .onPath).withStack [⟨i, a.outgoing.get i⟩]) := if_pos hunseen
      _ = Search.run a ((visit next c i).withStack []) := run_follow hnext _ _ _ (hnext i) i []
      _ = (visit next c i).withStack [] := Search.run_nil _ rfl
  · rename_i hseen
    exact if_neg hseen

theorem all_eq_searchAll : Search.all a = (searchAll next).withStack [] := by
  show (List.finRange n).foldl (Search.start a) ((initial n).withStack []) = _
  exact List.foldl_hom (fun c : Colouring n => c.withStack []) (start_withStack hnext)

end Simulation

end Colouring

/-- **The nodes that are reported depend on where links lead**, and not on which edges they are. -/
theorem cycleNodes_eq_searchAll {n : Nat} {a : Adjacency n} {next : Fin n → List (Fin n)}
    (hnext : ∀ i, (a.outgoing.get i).map Link.node = next i) :
    cycleNodes a = (Colouring.searchAll next).reported := by
  rw [cycleNodes, Colouring.all_eq_searchAll hnext, Colouring.withStack, List.reverse_reverse]

/-- **The search with a stack finds what the recursive search finds**, in the same order.  The
recursion goes over the edges of the chart: from a node it follows, in their order, the edges that
leave it and have both ends.  Ids may repeat and edges may lack an end. -/
theorem cycles_eq_searchAll (g : Graph) : cycles g g.adjacency
    = (Colouring.searchAll g.successors).reported.map fun i =>
        .error (g.nodeAt i).id "CYCLE_DETECTED" "Circular dependency detected in the workflow" := by
  rw [cycles, cycleNodes_eq_searchAll g.map_node_outgoing]
  rfl

/-- From `a` the search comes to `b`, finds the edge back first, and then the loop. -/
example : (Colouring.searchAll tangled.successors).reported.map (fun i => (tangled.nodeAt i).id)
    = ["a", "b"] := by
  cbv

end CrewChart.Lint

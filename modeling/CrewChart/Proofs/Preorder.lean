import CrewChart.Proofs.Coverage

/-!
# A simulation goes in preorder

A simulation is documented by the order in which it evaluates nodes: the starts first, and then,
start after start, what lies behind each of them, depth first, a node where it is first reached.
That order is a short recursion.  The walk of `CrewChart.Simulation.Walk` has two flags for each
node and a stack of frames instead; this file says that it comes to the same order, whatever the
chart.

## What is here

* `preorder`, `preorderFrom` — the recursion.  All it is told of a chart is what each node links to,
  in order.
* `Walk.Shows` — where the walk is, said in words of the recursion: the nodes it has evaluated, in
  order, and the starts whose turn has come.  The two flags say nothing else.
* `Walk.run_preorder` — a run with a frame on top of its stack comes, when that frame is taken off,
  to where the recursion comes with the links of the frame.
* `evaluationOrder_eq_preorderFrom`, `simulateM_goes_in_preorder` — the order of the whole walk, and
  of the records of a simulation.

A start is evaluated long before it is expanded.  If a link led to it in between, the walk would
expand it there, where the recursion passes it over; but no link leads to a start
(`notMem_starts_of_mem_successors`), and for every other node the two flags are raised together.
-/

set_option autoImplicit false

namespace CrewChart.Simulation

/-! ## The recursion -/

section Recursion

variable {n : Nat}

/-- How many nodes have not been reached. -/
def unreached (reached : List (Fin n)) : Nat := (reached.toFinset)ᶜ.card

theorem unreached_le {reached further : List (Fin n)} (h : reached ⊆ further) :
    unreached further ≤ unreached reached := by
  refine Finset.card_le_card (Finset.compl_subset_compl.2 fun i hi => ?_)
  exact List.mem_toFinset.2 (h (List.mem_toFinset.1 hi))

theorem unreached_concat_lt {reached : List (Fin n)} {i : Fin n} (h : i ∉ reached) :
    unreached (reached ++ [i]) < unreached reached := by
  refine Finset.card_lt_card (Finset.compl_ssubset_compl.2 ?_)
  rw [List.toFinset_append]
  simp [Finset.ssubset_iff_of_subset, h]

variable (next : Fin n → List (Fin n))

/-- Goes on to these nodes, one after the other, and depth first.  A node that has not been reached
is listed, and what it links to comes before the node after it. -/
def preorder (reached nodes : List (Fin n)) : { order : List (Fin n) // reached <+: order } :=
  match nodes with
  | [] => ⟨reached, List.prefix_refl _⟩
  | i :: rest =>
    if h : i ∈ reached then preorder reached rest
    else
      have := unreached_concat_lt h
      let ⟨below, hbelow⟩ := preorder (reached ++ [i]) (next i)
      let ⟨after, hafter⟩ := preorder below rest
      ⟨after, (List.prefix_append _ _).trans (hbelow.trans hafter)⟩
termination_by (unreached reached, nodes.length)
decreasing_by
  · exact .right _ (Nat.lt_succ_self _)
  · exact .left _ _ this
  · exact .left _ _ ((unreached_le hbelow.subset).trans_lt this)

/-- The starts, and then what lies behind each of them. -/
def preorderFrom (starts : List (Fin n)) : List (Fin n) :=
  starts.foldl (fun reached i => (preorder next reached (next i)).val) starts

end Recursion

/-! ## The walk does what the recursion does -/

namespace Walk

variable {n : Nat} {a : Adjacency n}

/-- Where the walk is: the nodes in `reached` have been evaluated, in this order, and all of them
have been expanded but for the starts whose turn has not come.  Those in `begun` have had it. -/
structure Shows (a : Adjacency n) (reached begun : List (Fin n)) (w : Walk n) : Prop where
  order : w.order = reached.reverse
  evaluated : ∀ i, w.evaluated.get i = true ↔ i ∈ reached
  expanded : ∀ i, w.expanded.get i = true ↔ i ∈ reached ∧ (i ∈ a.starts → i ∈ begun)

variable {w : Walk n} {reached begun : List (Fin n)} {i : Fin n}

/-- Where the walk is has nothing to do with what is pending. -/
theorem Shows.withStack (h : Shows a reached begun w) (stack : List (Frame n)) :
    Shows a reached begun { w with stack } :=
  ⟨h.order, h.evaluated, h.expanded⟩

/-- Nothing happens when a link leads to a node that has been reached. -/
theorem Shows.visit_of_mem (h : Shows a reached begun w) (hi : i ∈ reached) (hs : i ∉ a.starts) :
    w.visit a i = w := by
  have hexpanded : w.expanded.get i = true := (h.expanded i).2 ⟨hi, fun hstart => absurd hstart hs⟩
  rw [visit, reach, if_pos ((h.evaluated i).2 hi), follow, if_pos hexpanded]

/-- A node that has not been reached is evaluated and expanded. -/
theorem Shows.visit_of_notMem (h : Shows a reached begun w) (hi : i ∉ reached)
    (hs : i ∉ a.starts) : Shows a (reached ++ [i]) begun (w.visit a i) ∧
      (w.visit a i).stack = ⟨i, a.outgoing.get i⟩ :: w.stack := by
  have hexpanded : ¬ w.expanded.get i = true := fun hexp => hi ((h.expanded i).1 hexp).1
  refine ⟨⟨?_, fun j => ?_, fun j => ?_⟩, ?_⟩
  · rw [order_visit, if_neg (mt (h.evaluated i).1 hi), h.order, List.reverse_concat]
  · rw [evaluated_visit, h.evaluated, List.mem_append, List.mem_singleton, or_comm, eq_comm]
  · rw [expanded_visit, h.expanded, List.mem_append, List.mem_singleton]
    constructor
    · rintro (rfl | ⟨hj, hbegun⟩)
      · exact ⟨.inr rfl, fun hstart => absurd hstart hs⟩
      · exact ⟨.inl hj, hbegun⟩
    · rintro ⟨hj | rfl, hbegun⟩
      · exact .inr ⟨hj, hbegun⟩
      · exact .inl rfl
  · rw [stack_visit, if_neg hexpanded]

section Simulation

variable {next : Fin n → List (Fin n)}
  (hnext : ∀ i, (a.outgoing.get i).map Link.node = next i)
  (hstarts : ∀ i, ∀ j ∈ next i, j ∉ a.starts)
include hnext hstarts

/-- **A frame on the stack is a call of the recursion.**  What is below the frame is as it was when
the frame is taken off, and the nodes reached by then are those the recursion lists. -/
theorem run_preorder (reached nodes : List (Fin n)) : ∀ links : List (Link n),
    links.map Link.node = nodes → (∀ j ∈ nodes, j ∉ a.starts) →
      ∀ i below w, Shows a reached begun w → w.stack = ⟨i, links⟩ :: below →
        ∃ w', run a w = run a w' ∧ Shows a (preorder next reached nodes).val begun w' ∧
          w'.stack = below := by
  fun_induction preorder next reached nodes with
  | case1 reached =>
    intro links hlinks _ i below w h hw
    obtain rfl := List.map_eq_nil_iff.1 hlinks
    refine ⟨{ w with stack := below }, ?_, h.withStack below, rfl⟩
    rw [run_cons w hw, step_leave rfl]
  | case2 reached j rest hj ih =>
    intro links hlinks hnodes i below w h hw
    obtain ⟨link, pending, rfl, rfl, hpending⟩ := List.map_eq_cons_iff.1 hlinks
    obtain ⟨hlink, hrest⟩ := List.forall_mem_cons.1 hnodes
    obtain ⟨w', hrun, h', hw'⟩ := ih pending hpending hrest i below _ (h.withStack _) rfl
    refine ⟨w', ?_, h', hw'⟩
    rw [run_cons w hw, step_visit rfl, advance, (h.withStack _).visit_of_mem hj hlink]
    exact hrun
  | case3 reached j rest hj _ inside _ hinside after _ hafter ihinside ihafter =>
    intro links hlinks hnodes i below w h hw
    obtain ⟨link, pending, rfl, rfl, hpending⟩ := List.map_eq_cons_iff.1 hlinks
    obtain ⟨hlink, hrest⟩ := List.forall_mem_cons.1 hnodes
    rw [hinside] at ihinside
    rw [hafter] at ihafter
    -- the frame that is put on top is the inner call, and what is left of this one comes after it
    obtain ⟨hvisited, hstack⟩ :=
      (h.withStack (⟨i, pending⟩ :: below)).visit_of_notMem hj hlink
    obtain ⟨v, hinner, hv, hvstack⟩ :=
      ihinside _ (hnext _) (hstarts _) link.node _ _ hvisited hstack
    obtain ⟨w', houter, h', hw'⟩ := ihafter pending hpending hrest i below v hv hvstack
    refine ⟨w', ?_, h', hw'⟩
    rw [run_cons w hw, step_visit rfl]
    exact hinner.trans houter

/-- The turn of a start: what lies behind it is reached. -/
theorem Shows.start (h : Shows a reached begun w) (hw : w.stack = []) (hi : i ∈ a.starts)
    (hreached : i ∈ reached) (hnew : i ∉ begun) :
    Shows a (preorder next reached (next i)).val (begun ++ [i]) (w.start a i) ∧
      (w.start a i).stack = [] := by
  have hexpanded : ¬ w.expanded.get i = true := fun hexp => hnew (((h.expanded i).1 hexp).2 hi)
  have hturn : Shows a reached (begun ++ [i]) (w.expand a i) := by
    refine ⟨h.order, h.evaluated, fun j => ?_⟩
    rw [expand, get_set, List.mem_append, List.mem_singleton]
    split
    · rename_i hij
      exact iff_of_true rfl ⟨hij ▸ hreached, fun _ => .inr hij.symm⟩
    · rename_i hij
      rw [h.expanded, or_iff_left (Ne.symm hij)]
  have hstack : (w.expand a i).stack = ⟨i, a.outgoing.get i⟩ :: [] := by
    show ⟨i, a.outgoing.get i⟩ :: w.stack = _
    rw [hw]
  obtain ⟨w', hrun, h', hw'⟩ :=
    run_preorder hnext hstarts reached (next i) _ (hnext i) (hstarts i) i [] _ hturn hstack
  rw [Walk.start, if_neg hexpanded, hrun, run_nil w' hw']
  exact ⟨h', hw'⟩

/-- The starts in turn, each of them once. -/
theorem Shows.foldl_start (l : List (Fin n)) : ∀ reached begun w, Shows a reached begun w →
    w.stack = [] → (∀ i ∈ l, i ∈ a.starts ∧ i ∈ reached) → (begun ++ l).Nodup →
      Shows a (l.foldl (fun reached i => (preorder next reached (next i)).val) reached)
        (begun ++ l) (l.foldl (Walk.start a) w) := by
  induction l with
  | nil =>
    intro reached begun w h _ _ _
    rw [List.append_nil]
    exact h
  | cons i l ih =>
    intro reached begun w h hw hl hnodup
    obtain ⟨⟨hi, hreached⟩, hrest⟩ := List.forall_mem_cons.1 hl
    have hnew : i ∉ begun := fun hb =>
      (List.nodup_append.1 hnodup).2.2 i hb i List.mem_cons_self rfl
    obtain ⟨h', hw'⟩ := h.start hnext hstarts hw hi hreached hnew
    rw [List.append_cons] at hnodup ⊢
    refine ih _ _ _ h' hw' (fun j hj => ⟨(hrest j hj).1, ?_⟩) hnodup
    exact (preorder next reached (next i)).property.subset (hrest j hj).2

/-- **The walk evaluates the nodes in the order of the recursion.** -/
theorem shows_all : Shows a (preorderFrom next a.starts) a.starts (all a) := by
  obtain ⟨horder, hexpanded, hstack, hevaluated⟩ := foldl_evaluate (initial n) a.starts
  have hnone : ∀ i, ¬ (initial n).expanded.get i = true ∧ ¬ (initial n).evaluated.get i = true := by
    intro i
    simp [initial, Vector.get]
  have hbegin : Shows a a.starts [] (a.starts.foldl evaluate (initial n)) := by
    refine ⟨?_, fun i => ?_, fun i => ?_⟩
    · rw [horder]
      exact List.append_nil _
    · rw [hevaluated, or_iff_left (hnone i).2]
    · rw [hexpanded]
      exact iff_of_false (hnone i).1 fun hbegun => List.not_mem_nil (hbegun.2 hbegun.1)
  exact Shows.foldl_start hnext hstarts a.starts a.starts [] _ hbegin hstack
    (fun i hi => ⟨hi, hi⟩) a.nodup_starts

end Simulation

end Walk

/-! ## The order of a chart -/

variable {g : Graph}

/-- The places of the nodes no edge leads to, in order. -/
def startPlaces (g : Graph) : List (Fin g.size) :=
  (List.finRange g.size).filter fun i => !g.edges.any fun e => g.position? e.target == some i

theorem hasIncoming_eq_any (g : Graph) (i : Fin g.size) :
    g.adjacency.hasIncoming i = g.edges.any fun e => g.position? e.target == some i := by
  rw [Bool.eq_iff_iff, Graph.hasIncoming_iff, List.any_eq_true]
  simp only [beq_iff_eq]

theorem starts_eq_startPlaces (g : Graph) : g.adjacency.starts = startPlaces g := by
  rw [Adjacency.starts, startPlaces]
  simp only [hasIncoming_eq_any]

/-- No link leads to a start. -/
theorem notMem_starts_of_mem_successors (i : Fin g.size) :
    ∀ j ∈ g.successors i, j ∉ g.adjacency.starts := by
  intro j hj hstart
  obtain ⟨e, he, hej⟩ := List.mem_filterMap.1 hj
  have htarget : g.position? e.target = some j := by
    split at hej
    · exact hej
    · exact absurd hej (by simp)
  have hincoming := (g.hasIncoming_iff j).2 ⟨e, he, htarget⟩
  rw [(g.adjacency.mem_starts j).1 hstart] at hincoming
  exact absurd hincoming (by decide)

theorem evaluationOrder_eq_preorderFrom (g : Graph) :
    evaluationOrder g.adjacency = preorderFrom g.successors (startPlaces g) := by
  have hshows := Walk.shows_all g.map_node_outgoing notMem_starts_of_mem_successors
  rw [evaluationOrder, hshows.order, List.reverse_reverse, starts_eq_startPlaces]

/-- **A simulation goes in preorder.**  If there is somewhere to start, the records are those of the
starts, in the order of the nodes, and then, for one start after the other, of what is reached from
it by following edges in their order, depth first, each node where it is first reached.  Ids may
repeat and edges may lack an end, and the clock may go as it likes. -/
theorem simulateM_goes_in_preorder {σ : Type} (stamp : Bool → StateM σ Text.Instant) (clock : σ)
    (g : Graph) (h : startPlaces g ≠ []) :
    ((simulateM stamp g).run clock).1.records.map Record.outcome
      = (preorderFrom g.successors (startPlaces g)).map fun i =>
          assess (g.nodeAt i) (g.edges.any fun e => g.position? e.target == some i) := by
  have houtcomes : outcomes g = (preorderFrom g.successors (startPlaces g)).map fun i =>
      assess (g.nodeAt i) (g.edges.any fun e => g.position? e.target == some i) := by
    rw [outcomes, evaluationOrder_eq_preorderFrom]
    simp only [hasIncoming_eq_any]
  have hsome : outcomes g ≠ [] := by
    intro hnone
    rw [outcomes, List.map_eq_nil_iff] at hnone
    have hprefix := starts_prefix_evaluationOrder g.adjacency
    rw [hnone, starts_eq_startPlaces, List.prefix_nil] at hprefix
    exact h hprefix
  rw [outcome_simulateM, if_neg hsome, houtcomes]

/-- Two starts with a common diamond behind them, a loop at its end, a second node with the id of
the first start, and an edge that lacks its source. -/
def diamond : Graph where
  nodes := ["a", "b", "c", "d", "e", "a", "f"].map fun id => { id, component := .flow {} }
  edges := [⟨"1", "b", "c", []⟩, ⟨"2", "a", "d", []⟩, ⟨"3", "a", "c", []⟩, ⟨"4", "c", "e", []⟩,
    ⟨"5", "d", "e", []⟩, ⟨"6", "e", "d", []⟩, ⟨"7", "x", "f", []⟩]

theorem simulateM_goes_in_diamond : startPlaces diamond ≠ [] ∧
    ((simulateM ticking diamond).run 0).1.records.map (fun x => x.outcome.node)
      = ["a", "b", "a", "d", "e", "c"] := by
  have hstarts : startPlaces diamond ≠ [] := by decide
  refine ⟨hstarts, ?_⟩
  have horder := simulateM_goes_in_preorder ticking 0 diamond hstarts
  have hnodes := congrArg (List.map Outcome.node) horder
  rw [List.map_map, List.map_map] at hnodes
  refine hnodes.trans ?_
  show (preorderFrom diamond.successors (startPlaces diamond)).map (fun i => (diamond.nodeAt i).id)
    = _
  cbv

end CrewChart.Simulation

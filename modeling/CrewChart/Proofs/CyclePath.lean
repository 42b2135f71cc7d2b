import CrewChart.Proofs.CycleSearch
import CrewChart.Proofs.Loop

/-!
# The stack of the cycle search is the path it is on

`CrewChart.Proofs.CycleSearch` has an invariant of the search that is just strong enough to say what
is reported.  This file looks at the search at every turn, and says what its four pieces of state
have to do with each other then: marks, stack, pending links and reported nodes.

## What is here

* `Search.loop` — the search as a loop: its roots are all nodes, and the new ones are those it has
  not seen.
* `Search.wellFounded_next`, `Search.reaches_all` — the loop ends, and it ends where `Search.all`
  does.
* `Search.Closed` — two facts that the invariant there lacks: what is reported has been seen, and
  the links of a done node lead to done or to reported nodes.
* `Search.KeepsPath`, `search_keeps_path` — all of it together, at every turn of the search that
  `Search.all` is.
-/

set_option autoImplicit false

namespace CrewChart

variable {n : Nat}

/-- How many links of a frame have been followed. -/
def Frame.cursor (a : Adjacency n) (f : Frame n) : Nat :=
  (a.outgoing.get f.node).length - f.pending.length

/-- The link followed last leads to the node of the frame above. -/
def Frame.LeadsTo (a : Adjacency n) (lower upper : Frame n) : Prop :=
  ∃ k link, lower.cursor a = k + 1 ∧ (a.outgoing.get lower.node)[k]? = some link ∧
    link.node = upper.node

namespace Lint.Search

variable {a : Adjacency n} {s : Search n} {top : Frame n} {below : List (Frame n)} {i : Fin n}
  {log : List (Move n)}

/-! ## The search as a loop -/

def loop (a : Adjacency n) : Loop n (Search n) where
  first := initial n
  roots := List.finRange n
  isNew s i := s.marks.get i = .unseen
  enter := enter a
  step := step a
  stack := stack

theorem isNew_eq_true_iff : (loop a).isNew s i = true ↔ s.marks.get i = .unseen :=
  decide_eq_true_iff

theorem isNew_eq_false_iff : (loop a).isNew s i = false ↔ s.marks.get i ≠ .unseen :=
  decide_eq_false_iff_not

/-- **The search ends**, from whatever state it is set going. -/
theorem wellFounded_next (a : Adjacency n) : WellFounded fun t s => (loop a).next? s = some t := by
  refine Loop.wellFounded_next unseen (fun s i hi => ?_) fun s top below hs => ?_
  · have hless := unseen_enter a s (isNew_eq_true_iff.1 hi)
    exact Nat.lt_of_succ_le hless.le
  · exact step_decreases a s top below hs

theorem exists_reaches_run (h : (loop a).Reaches log s) :
    ∃ log, (loop a).Reaches log (run a s) := by
  fun_induction run a s generalizing log with
  | case1 s hs => exact ⟨log, h⟩
  | case2 s top below hs _ ih => exact ih (h.next (Loop.next?_of_cons hs))

/-- **The loop comes to where the search from every node comes**, and stops there. -/
theorem reaches_all (a : Adjacency n) :
    (∃ log, (loop a).Reaches log (all a)) ∧ (loop a).next? (all a) = none := by
  refine Loop.reaches_foldl (L := loop a) (start a) (Resting a)
    (fun s hs => hs.stack) (fun s i hi => if_neg (isNew_eq_false_iff.1 hi))
    (fun s i log hlog hi => ?_) (fun s hs i _ => ?_) ⟨inv_initial a, rfl⟩
  · rw [start, if_pos (isNew_eq_true_iff.1 hi)]
    exact exists_reaches_run hlog
  · obtain ⟨hrest, hi, hkeep⟩ := resting_start hs i
    exact ⟨hrest, isNew_eq_false_iff.2 hi,
      fun j hj => isNew_eq_false_iff.2 (hkeep j (isNew_eq_false_iff.1 hj))⟩

/-- The search is what the loop comes to in enough turns. -/
theorem turns_eq_all {k : Nat} (hk : (loop a).next? ((loop a).turns k) = none) :
    (loop a).turns k = all a := by
  obtain ⟨⟨_, hlog⟩, hend⟩ := reaches_all a
  exact Loop.turns_eq_of_reaches hk hlog hend

/-- **The invariant holds at every turn.** -/
theorem inv_of_reaches (h : (loop a).Reaches log s) : Inv a s := by
  induction h with
  | first => exact inv_initial a
  | next _ ht ih =>
    rcases Loop.next?_eq_some_iff.1 ht with ⟨hs, i, -, rfl⟩ | ⟨top, below, hs, rfl⟩
    · exact inv_enter_resting ⟨ih, hs⟩ i
    · exact inv_step ih hs

/-! ## Where followed links lead

A followed link leads to a done node, to a reported one, or to the node the path goes on with.  For
the links of done nodes there is no path to go on with. -/

/-- What is reported has been seen, and the links of a done node lead to done or to reported
nodes. -/
structure Closed (a : Adjacency n) (s : Search n) : Prop where
  reported_seen : ∀ i ∈ s.reported, s.marks.get i ≠ .unseen
  done : ∀ i, s.marks.get i = .done → ∀ link ∈ a.outgoing.get i,
    s.marks.get link.node = .done ∨ link.node ∈ s.reported

theorem closed_initial (a : Adjacency n) : Closed a (initial n) where
  reported_seen i hi := absurd hi (by simp [initial])
  done i hi := absurd hi (by simp [initial, Vector.get])

/-- Nothing is done by entering a node. -/
theorem Closed.enter (h : Closed a s) (hi : s.marks.get i = .unseen) : Closed a (s.enter a i) := by
  have hget : ∀ j, (s.enter a i).marks.get j = if i = j then .onPath else s.marks.get j :=
    fun j => get_set _ _ _ _
  have hdone : ∀ j, (s.enter a i).marks.get j = .done ↔ s.marks.get j = .done := by
    intro j
    rw [hget]
    by_cases hj : i = j
    · subst hj
      simp [hi]
    · rw [if_neg hj]
  refine ⟨fun j hj => ?_, fun j hj link hlink => ?_⟩
  · rw [hget]
    split
    · decide
    · exact h.reported_seen j hj
  · rw [hdone] at hj ⊢
    exact h.done j hj link hlink

theorem Closed.report (h : Closed a s) (hi : s.marks.get i ≠ .unseen) : Closed a (s.report i) := by
  by_cases hr : i ∈ s.reported
  · rwa [report_of_mem hr]
  · rw [report_of_not_mem hr]
    refine ⟨fun j hj => ?_, fun j hj link hlink => ?_⟩
    · rcases List.mem_cons.1 hj with rfl | hj
      · exact hi
      · exact h.reported_seen j hj
    · exact (h.done j hj link hlink).imp_right (List.mem_cons_of_mem _)

/-- The links of a node that is left have all been followed, and the path does not go on. -/
theorem Closed.leave (h : Closed a s) (hinv : Inv a s) (hs : s.stack = top :: below)
    (hp : top.pending = []) : Closed a (s.step a top below) := by
  obtain ⟨hget, hreported, -⟩ : (∀ i, (s.step a top below).marks.get i =
      if top.node = i then .done else s.marks.get i) ∧
      (s.step a top below).reported = s.reported ∧ (s.step a top below).stack = below :=
    step_leave hp
  refine ⟨fun j hj => seen_step (h.reported_seen j (hreported ▸ hj)), fun j hj link hlink => ?_⟩
  have hclosed : s.marks.get link.node = .done ∨ link.node ∈ s.reported := by
    rw [hget] at hj
    by_cases htop : top.node = j
    · subst htop
      have hpath := hinv.path
      rw [hs] at hpath
      obtain ⟨followed, hout, hset, -⟩ := hpath.1
      rw [hout, hp, List.append_nil] at hlink
      exact (hset link hlink).imp_right fun hor => hor.resolve_right (by simp)
    · rw [if_neg htop] at hj
      exact h.done j hj link hlink
  rw [hreported, hget]
  refine hclosed.imp_left fun hd => ?_
  rw [hd, ite_self]

theorem closed_step (h : Closed a s) (hinv : Inv a s) (hs : s.stack = top :: below) :
    Closed a (s.step a top below) := by
  cases hp : top.pending with
  | nil => exact h.leave hinv hs hp
  | cons link pending =>
    cases hm : s.marks.get link.node with
    | unseen =>
      have hadvance : Closed a (s.advance top pending below) := ⟨h.reported_seen, h.done⟩
      rw [step_enter hp hm]
      exact hadvance.enter hm
    | onPath =>
      have hreport : Closed a (s.report link.node) := h.report (by rw [hm]; decide)
      rw [step_report hp hm]
      exact ⟨hreport.reported_seen, hreport.done⟩
    | done =>
      rw [step_skip hp hm]
      exact ⟨h.reported_seen, h.done⟩

theorem closed_of_reaches (h : (loop a).Reaches log s) : Closed a s := by
  induction h with
  | first => exact closed_initial a
  | next hreached ht ih =>
    rcases Loop.next?_eq_some_iff.1 ht with ⟨-, i, hi, rfl⟩ | ⟨top, below, hs, rfl⟩
    · exact ih.enter (isNew_eq_true_iff.1 (List.find?_some hi))
    · exact closed_step ih (inv_of_reaches hreached) hs

/-! ## The path -/

/-- **What holds at every turn.** -/
structure KeepsPath (a : Adjacency n) (s : Search n) : Prop where
  /-- No node is twice on the stack, -/
  nodup : (s.stack.map Frame.node).Nodup
  /-- and the nodes there are those that are marked so. -/
  onPath : ∀ i, s.marks.get i = .onPath ↔ i ∈ s.stack.map Frame.node
  /-- What is pending are the links from the cursor on. -/
  pending : ∀ f ∈ s.stack, f.cursor a ≤ (a.outgoing.get f.node).length ∧
    f.pending = (a.outgoing.get f.node).drop (f.cursor a)
  /-- The link before the cursor leads to the next node of the path. -/
  leads : s.stack.IsChain fun upper lower => lower.LeadsTo a upper
  /-- All links before the cursor lead to nodes that have been seen. -/
  seen : ∀ f ∈ s.stack, ∀ link ∈ (a.outgoing.get f.node).take (f.cursor a),
    s.marks.get link.node ≠ .unseen
  /-- From a done node links lead to done nodes, and to nodes on the path that are reported. -/
  closed : ∀ i, s.marks.get i = .done → ∀ link ∈ a.outgoing.get i,
    s.marks.get link.node = .done ∨ s.marks.get link.node = .onPath ∧ link.node ∈ s.reported
  /-- A reported node is on a closed walk. -/
  cyclic : ∀ i ∈ s.reported, ∃ c, IsCycle a.Linked c ∧ i ∈ c

/-- A frame divides the links of its node at the cursor. -/
theorem take_drop_cursor {f : Frame n} {followed : List (Link n)}
    (h : a.outgoing.get f.node = followed ++ f.pending) :
    f.cursor a = followed.length ∧ (a.outgoing.get f.node).take (f.cursor a) = followed ∧
      (a.outgoing.get f.node).drop (f.cursor a) = f.pending := by
  have hcursor : f.cursor a = followed.length := by
    rw [Frame.cursor, h, List.length_append, Nat.add_sub_cancel]
  rw [hcursor, h]
  exact ⟨rfl, List.take_left, List.drop_left⟩

/-- The followed links of a frame on a path are settled, or the path goes on with them. -/
theorem Path.exists_followed {above : Option (Fin n)} {stack : List (Frame n)}
    (h : Path a s above stack) {f : Frame n} (hf : f ∈ stack) :
    ∃ followed, a.outgoing.get f.node = followed ++ f.pending ∧
      ∀ link ∈ followed, s.Settled above link ∨ link.node ∈ stack.map Frame.node := by
  induction stack generalizing above with
  | nil => exact absurd hf List.not_mem_nil
  | cons g below ih =>
    obtain ⟨⟨followed, hout, hset, -⟩, hbelow⟩ := h
    rcases List.mem_cons.1 hf with rfl | hf
    · exact ⟨followed, hout, fun link hlink => .inl (hset link hlink)⟩
    · obtain ⟨followed, hout, hset⟩ := ih hbelow hf
      refine ⟨followed, hout, fun link hlink => ?_⟩
      rcases hset link hlink with (hd | hr | habove) | hmem
      · exact .inl (.inl hd)
      · exact .inl (.inr (.inl hr))
      · rw [Option.some.injEq] at habove
        exact .inr (by rw [← habove]; exact List.mem_cons_self)
      · exact .inr (List.mem_cons_of_mem _ hmem)

/-- The frames of a path follow each other along the links before their cursors. -/
theorem Path.leads {above : Option (Fin n)} {stack : List (Frame n)} (h : Path a s above stack) :
    stack.IsChain fun upper lower => lower.LeadsTo a upper := by
  induction stack generalizing above with
  | nil => exact List.isChain_nil
  | cons f below ih =>
    refine List.IsChain.cons (ih h.2) fun g hg => ?_
    cases below with
    | nil => exact absurd hg (by simp)
    | cons g' rest =>
      rw [List.head?_cons, Option.mem_some_iff] at hg
      subst hg
      obtain ⟨⟨followed, hout, -, hlast⟩, -⟩ := h.2
      obtain ⟨link, hlink, hnode⟩ := Option.map_eq_some_iff.1 (hlast f.node rfl)
      obtain ⟨before, rfl⟩ := List.getLast?_eq_some_iff.1 hlink
      refine ⟨before.length, link, ?_, ?_, hnode⟩
      · rw [(take_drop_cursor hout).1, List.length_append, List.length_singleton]
      · rw [hout]
        simp

theorem keepsPath_of_reaches (h : (loop a).Reaches log s) : KeepsPath a s := by
  have hinv := inv_of_reaches h
  have hclosed := closed_of_reaches h
  refine ⟨hinv.nodup, hinv.onPath, fun f hf => ?_, hinv.path.leads, fun f hf link hlink => ?_,
    fun i hi link hlink => ?_, fun i hi => ?_⟩
  · obtain ⟨followed, hout, -⟩ := hinv.path.exists_followed hf
    exact ⟨Nat.sub_le _ _, (take_drop_cursor hout).2.2.symm⟩
  · obtain ⟨followed, hout, hset⟩ := hinv.path.exists_followed hf
    rw [(take_drop_cursor hout).2.1] at hlink
    rcases hset link hlink with (hd | hr | hnone) | hmem
    · rw [hd]
      decide
    · exact hclosed.reported_seen _ hr
    · exact absurd hnone (by simp)
    · rw [(hinv.onPath _).2 hmem]
      decide
  · rcases hclosed.done i hi link hlink with hd | hr
    · exact .inl hd
    · cases hm : s.marks.get link.node with
      | unseen => exact absurd hm (hclosed.reported_seen _ hr)
      | onPath => exact .inr ⟨rfl, hr⟩
      | done => exact .inl rfl
  · obtain ⟨c, -, hc, hic⟩ := hinv.cyclic i hi
    exact ⟨c, hc, hic⟩

end Search

/-- **The stack of the search is the path it is on**, at every turn and for every chart.  The turns
are those of the search that findings are made of: they come to where it does, and stop there. -/
theorem search_keeps_path (g : Graph) :
    (∀ log s, (Search.loop g.adjacency).Reaches log s → s.KeepsPath g.adjacency) ∧
      (∃ log, (Search.loop g.adjacency).Reaches log (Search.all g.adjacency)) ∧
      (Search.loop g.adjacency).next? (Search.all g.adjacency) = none :=
  ⟨fun _ _ h => Search.keepsPath_of_reaches h, Search.reaches_all g.adjacency⟩

/-- After four turns the search is at `b`, has followed one of the two edges from `a` and both of
`b`, and has reported the two nodes. -/
theorem search_keeps_path_tangled : ∃ log s, (Search.loop tangled.adjacency).Reaches log s ∧
    s.stack.map (fun f => (f.node.val, f.cursor tangled.adjacency)) = [(1, 2), (0, 1)] ∧
    s.reported.map Fin.val = [1, 0] ∧ s.KeepsPath tangled.adjacency := by
  have hreached : (Search.loop tangled.adjacency).Reaches _ _ :=
    .next (.next (.next (.next .first rfl) rfl) rfl) rfl
  exact ⟨_, _, hreached, by decide, by decide, (search_keeps_path tangled).1 _ _ hreached⟩

end Lint

end CrewChart

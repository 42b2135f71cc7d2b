import CrewChart.Lint.Cycles
import CrewChart.Proofs.Links
import Mathlib.Data.List.Chain
import Mathlib.Data.Set.List

/-!
# The cycle search finds every cycle and nothing else

The search of `CrewChart.Lint.Cycles` goes over the nodes once and reports the nodes that links
lead back to.  This file is about what it reports.

## What is here

* `IsCycle r c` — the list `c` runs once around a closed walk of `r`.
* `Search.Inv` — what holds of the search between any two moves.  The stack is a path, its nodes
  are the open ones, and every link that was followed leads to a done node, to a reported one, or
  to the next node of the path.
* `Search.inv_step` and `Search.inv_run` — one move keeps it, and so does a run.
* `cycleNodes_nodup`, `exists_cycle_of_mem_cycleNodes`, `exists_mem_cycleNodes` — each node is
  reported once, lies on a cycle, and every cycle has a reported node on it.
* `cycleNodes_eq_nil_iff`, `cycleNodes_eq_nil_of_lt` — when there is nothing to report.

That every cycle is hit needs no look at which of its nodes is entered first.  A node is done only
when all its links lead to done or to reported nodes, so from a done node one cannot go on forever
without meeting a reported one: the done nodes are *accessible* (`Acc`) along links to nodes that
are not reported.  In the end all nodes are done, and a cycle without reported nodes could be
followed forever.
-/

set_option autoImplicit false

namespace CrewChart

/-! ## Closed walks -/

section Cycle

variable {α β : Type} {r : α → α → Prop}

/-- The nodes of a closed walk, each as often as the walk comes by. -/
def IsCycle (r : α → α → Prop) : List α → Prop
  | [] => False
  | x :: l => (x :: l ++ [x]).IsChain r

/-- A closed walk may be begun at any node on it. -/
theorem IsCycle.exists_rotation {c : List α} (h : IsCycle r c) {x : α} (hx : x ∈ c) :
    ∃ l, IsCycle r (x :: l) ∧ ∀ y ∈ x :: l, y ∈ c := by
  cases c with
  | nil => exact absurd hx (by simp)
  | cons y t =>
    obtain ⟨before, after, hc⟩ := List.append_of_mem hx
    have hchain : (before ++ x :: (after ++ [y])).IsChain r := by
      have h' : (y :: t ++ [y]).IsChain r := h
      rw [hc] at h'
      simpa using h'
    cases before with
    | nil =>
      obtain ⟨rfl, rfl⟩ := List.cons.inj hc
      exact ⟨t, h, fun z hz => hz⟩
    | cons z before =>
      rw [List.cons_append, List.cons.injEq] at hc
      obtain ⟨rfl, rfl⟩ := hc
      obtain ⟨hto, hfrom⟩ := List.isChain_split.1 hchain
      refine ⟨after ++ y :: before, ?_, fun z hz => ?_⟩
      · have hjoin : (x :: after ++ [y] ++ (before ++ [x])).IsChain r :=
          List.IsChain.append_overlap hfrom hto (by simp)
        simpa [IsCycle] using hjoin
      · simp only [List.mem_cons, List.mem_append] at hz ⊢
        tauto

theorem IsCycle.exists_next {c : List α} (h : IsCycle r c) {x : α} (hx : x ∈ c) :
    ∃ y ∈ c, r x y := by
  obtain ⟨l, hl, hsub⟩ := h.exists_rotation hx
  cases l with
  | nil => exact ⟨x, hx, List.IsChain.rel hl⟩
  | cons y l => exact ⟨y, hsub y (by simp), List.IsChain.rel hl⟩

/-- A node is on a closed walk exactly when it is related to itself in some steps. -/
theorem exists_isCycle_iff {x : α} : (∃ c, IsCycle r c ∧ x ∈ c) ↔ Relation.TransGen r x x := by
  constructor
  · rintro ⟨c, hc, hx⟩
    obtain ⟨l, hl, -⟩ := hc.exists_rotation hx
    have hchain : (x :: (l ++ [x])).IsChain r := hl
    cases l with
    | nil => exact .single hchain.rel
    | cons y l =>
      exact .head' hchain.rel
        (List.relationReflTransGen_of_exists_isChain_cons _ hchain.tail (by simp))
  · intro h
    obtain ⟨y, hxy, hyx⟩ := Relation.TransGen.tail'_iff.1 h
    obtain ⟨l, hl, hlast⟩ := List.exists_isChain_cons_of_relationReflTransGen hxy
    refine ⟨x :: l, ?_, List.mem_cons_self⟩
    refine hl.append (List.isChain_singleton x) fun z hz w hw => ?_
    rw [List.getLast?_eq_some_getLast (List.cons_ne_nil _ _), hlast, Option.mem_some_iff] at hz
    rw [List.head?_cons, Option.mem_some_iff] at hw
    rw [← hz, ← hw]
    exact hyx

theorem isCycle_map {s : β → β → Prop} {f : α → β} (hf : ∀ x y, s (f x) (f y) ↔ r x y)
    {c : List α} : IsCycle s (c.map f) ↔ IsCycle r c := by
  cases c with
  | nil => exact Iff.rfl
  | cons x l =>
    show ((x :: l).map f ++ [x].map f).IsChain s ↔ (x :: l ++ [x]).IsChain r
    rw [← List.map_append, List.isChain_map]
    exact List.IsChain.iff hf

end Cycle

namespace Lint

namespace Search

variable {n : Nat} {a : Adjacency n} {s : Search n} {top : Frame n} {below : List (Frame n)}

/-! ## The moves

A move is one of four, and these equations are all that is used of `step` below. -/

/-- The state in which the next link of the top of the stack has been taken off. -/
def advance (s : Search n) (top : Frame n) (pending : List (Link n)) (below : List (Frame n)) :
    Search n :=
  { s with stack := ⟨top.node, pending⟩ :: below }

variable {link : Link n} {pending : List (Link n)}

/-- A node whose links are all followed is left. -/
theorem step_leave (hp : top.pending = []) :
    (∀ i, (s.step a top below).marks.get i = if top.node = i then .done else s.marks.get i) ∧
      (s.step a top below).reported = s.reported ∧ (s.step a top below).stack = below := by
  rw [step, hp]
  exact ⟨fun i => get_set _ _ _ _, rfl, rfl⟩

theorem step_enter (hp : top.pending = link :: pending) (hm : s.marks.get link.node = .unseen) :
    s.step a top below = (s.advance top pending below).enter a link.node := by
  rw [step, hp]
  simp only [hm]
  rfl

theorem step_skip (hp : top.pending = link :: pending) (hm : s.marks.get link.node = .done) :
    s.step a top below = s.advance top pending below := by
  rw [step, hp]
  simp only [hm]
  rfl

/-- Reporting a node and taking a link off the stack do not interfere. -/
theorem step_report (hp : top.pending = link :: pending) (hm : s.marks.get link.node = .onPath) :
    s.step a top below = (s.report link.node).advance top pending below := by
  rw [step, hp]
  simp only [hm]
  rw [report, report]
  split <;> rfl

theorem report_of_mem {i : Fin n} (h : i ∈ s.reported) : s.report i = s := by
  rw [report, if_pos h]

theorem report_of_not_mem {i : Fin n} (h : i ∉ s.reported) :
    s.report i = { s with reported := i :: s.reported } := by
  rw [report, if_neg h]

/-! ## The invariant -/

/-- A link from `i` to a node that is not among the reported ones. -/
def Avoiding (a : Adjacency n) (reported : List (Fin n)) (j i : Fin n) : Prop :=
  a.Linked i j ∧ j ∉ reported

/-- A followed link needs no further attention: it leads to a done node, to a reported one, or to
the node the path goes on with. -/
def Settled (s : Search n) (above : Option (Fin n)) (link : Link n) : Prop :=
  s.marks.get link.node = .done ∨ link.node ∈ s.reported ∨ above = some link.node

/-- The stack is a path: of every node on it the links up to the one to the node above have been
followed.  `above` is the node the path goes on with. -/
def Path (a : Adjacency n) (s : Search n) : Option (Fin n) → List (Frame n) → Prop
  | _, [] => True
  | above, f :: below =>
    (∃ followed, a.outgoing.get f.node = followed ++ f.pending ∧
      (∀ link ∈ followed, s.Settled above link) ∧
      ∀ i, above = some i → followed.getLast?.map Link.node = some i) ∧
    Path a s (some f.node) below

/-- What holds between any two moves. -/
structure Inv (a : Adjacency n) (s : Search n) : Prop where
  /-- No node is twice on the stack. -/
  nodup : (s.stack.map Frame.node).Nodup
  /-- The nodes on the stack are the open ones. -/
  onPath : ∀ i, s.marks.get i = .onPath ↔ i ∈ s.stack.map Frame.node
  /-- The stack is a path. -/
  path : Path a s none s.stack
  /-- No node is reported twice. -/
  reported_nodup : s.reported.Nodup
  /-- Reported nodes lie on cycles. -/
  cyclic : ∀ i ∈ s.reported, ∃ c, c.Nodup ∧ IsCycle a.Linked c ∧ i ∈ c
  /-- From a done node one cannot avoid the reported ones forever. -/
  grounded : ∀ i, s.marks.get i = .done → Acc (Avoiding a s.reported) i

theorem inv_initial (a : Adjacency n) : Inv a (initial n) where
  nodup := List.nodup_nil
  onPath i := by simp [initial, Vector.get]
  path := trivial
  reported_nodup := List.nodup_nil
  cyclic i hi := absurd hi (by simp [initial])
  grounded i hi := absurd hi (by simp [initial, Vector.get])

/-- Done nodes stay done and reported ones reported, so what is settled stays so. -/
theorem Settled.mono {above : Option (Fin n)} (h : s.Settled above link) (t : Search n)
    (hd : ∀ i, s.marks.get i = .done → t.marks.get i = .done) (hr : s.reported ⊆ t.reported) :
    t.Settled above link :=
  h.imp (hd _) (Or.imp_left (@hr _))

theorem Path.mono {above : Option (Fin n)} {stack : List (Frame n)} (h : Path a s above stack)
    (t : Search n) (hd : ∀ i, s.marks.get i = .done → t.marks.get i = .done)
    (hr : s.reported ⊆ t.reported) : Path a t above stack := by
  induction stack generalizing above with
  | nil => trivial
  | cons f below ih =>
    obtain ⟨⟨followed, hout, hset, hlast⟩, hbelow⟩ := h
    exact ⟨⟨followed, hout, fun l hl => (hset l hl).mono t hd hr, hlast⟩, ih hbelow⟩

/-- The next link of the top is followed, to a node that is settled or that the path goes on
with. -/
theorem Path.advance (hp : top.pending = link :: pending)
    (h : Path a s none (top :: below)) {above : Option (Fin n)} (hl : s.Settled above link)
    (ha : ∀ i, above = some i → link.node = i) :
    Path a s above (⟨top.node, pending⟩ :: below) := by
  obtain ⟨⟨followed, hout, hset, -⟩, hbelow⟩ := h
  refine ⟨⟨followed ++ [link], ?_, ?_, ?_⟩, hbelow⟩
  · rw [hout, hp]; simp
  · intro l hl'
    rcases List.mem_append.1 hl' with hl' | hl'
    · exact (hset l hl').imp_right (Or.imp_right fun h => absurd h (by simp))
    · rw [List.mem_singleton.1 hl']; exact hl
  · intro i hi
    rw [List.getLast?_append, ha i hi |>.symm]
    rfl

/-- Links lead up the stack. -/
theorem Path.isChain {above : Option (Fin n)} {stack : List (Frame n)} (h : Path a s above stack) :
    (stack.map Frame.node).IsChain fun i j => a.Linked j i := by
  induction stack generalizing above with
  | nil => exact List.isChain_nil
  | cons f below ih =>
    refine List.IsChain.cons (ih h.2) fun j hj => ?_
    cases below with
    | nil => exact absurd hj (by simp)
    | cons g rest =>
      obtain ⟨⟨followed, hout, -, hlast⟩, -⟩ := h.2
      obtain ⟨l, hl, hn⟩ := Option.map_eq_some_iff.1 (hlast f.node rfl)
      rw [List.map_cons, List.head?_cons, Option.mem_some_iff] at hj
      subst hj
      exact ⟨l, by rw [hout]; exact List.mem_append_left _ (List.mem_of_getLast? hl), hn⟩

/-- A link from the end of a path back to a node on it closes a cycle. -/
theorem Path.exists_cycle (hnd : ((top :: below).map Frame.node).Nodup)
    (h : Path a s none (top :: below)) {i : Fin n} (hi : i ∈ (top :: below).map Frame.node)
    (hl : a.Linked top.node i) : ∃ c, c.Nodup ∧ IsCycle a.Linked c ∧ i ∈ c := by
  obtain ⟨p, q, hpq⟩ := List.append_of_mem hi
  have hpre : p ++ [i] <+: (top :: below).map Frame.node := ⟨q, by rw [hpq]; simp⟩
  have hchain : (p ++ [i]).IsChain fun i j => a.Linked j i := h.isChain.prefix hpre
  refine ⟨i :: p.reverse, ?_, ?_, List.mem_cons_self⟩
  · have := hnd.sublist hpre.sublist
    rw [← List.nodup_reverse] at this
    simpa using this
  · have hhead : ∀ j ∈ (p ++ [i]).head?, a.Linked j i := by
      have htop : (p ++ [i]).head? = some top.node := by cases p <;> simp_all
      rw [htop]
      rintro j ⟨rfl⟩
      exact hl
    have hclosed := List.IsChain.cons hchain hhead
    rw [← List.isChain_reverse] at hclosed
    simpa [IsCycle] using hclosed

/-! ## Every move keeps it -/

/-- Leaving a node: its links are all followed, so they lead to done or to reported nodes. -/
theorem inv_leave (h : Inv a s) (hs : s.stack = top :: below) (hp : top.pending = []) :
    Inv a (s.step a top below) := by
  have hnd := h.nodup
  have hpath := h.path
  rw [hs] at hnd hpath
  rw [List.map_cons, List.nodup_cons] at hnd
  obtain ⟨hget, hreported, hstack⟩ : (∀ i, (s.step a top below).marks.get i =
      if top.node = i then .done else s.marks.get i) ∧
      (s.step a top below).reported = s.reported ∧ (s.step a top below).stack = below :=
    step_leave hp
  generalize s.step a top below = t at hget hreported hstack
  have hdone : ∀ i, s.marks.get i = .done → t.marks.get i = .done := by
    intro i hi
    rw [hget, hi, ite_self]
  refine ⟨hstack ▸ hnd.2, fun i => ?_, hstack ▸ ?_, hreported ▸ h.reported_nodup,
    hreported ▸ h.cyclic, fun i hi => hreported ▸ ?_⟩
  · rw [hget, hstack]
    by_cases hi : top.node = i
    · subst hi; simpa using hnd.1
    · rw [if_neg hi, h.onPath, hs]
      simp [Ne.symm hi]
  · -- The node left was where the path went on; now it is done, so the link to it stays settled.
    cases below with
    | nil => trivial
    | cons f rest =>
      obtain ⟨⟨followed, hout, hset, hlast⟩, hrest⟩ := hpath.2
      refine ⟨⟨followed, hout, fun l hl => ?_, fun i hi => absurd hi (by simp)⟩,
        hrest.mono t hdone (hreported ▸ List.Subset.refl _)⟩
      rcases hset l hl with hd | hr | ht
      · exact .inl (hdone _ hd)
      · exact .inr (.inl (hreported ▸ hr))
      · rw [Option.some.injEq] at ht
        exact .inl (by rw [hget, if_pos ht])
  · -- The node left has no link that is not settled, so each leads to a grounded or reported node.
    rw [hget] at hi
    by_cases htop : top.node = i
    · subst htop
      refine ⟨_, fun j hj => h.grounded j ?_⟩
      obtain ⟨⟨l, hl, rfl⟩, hr⟩ := hj
      obtain ⟨followed, hout, hset, -⟩ := hpath.1
      rw [hout, hp, List.append_nil] at hl
      rcases hset l hl with hd | hrep | ht
      · exact hd
      · exact absurd hrep hr
      · exact absurd ht (by simp)
    · rw [if_neg htop] at hi
      exact h.grounded i hi

/-- Entering an unseen node: the path goes on with it. -/
theorem inv_enter (h : Inv a s) (hs : s.stack = top :: below) (hp : top.pending = link :: pending)
    (hm : s.marks.get link.node = .unseen) :
    Inv a ((s.advance top pending below).enter a link.node) := by
  have hpath := h.path
  rw [hs] at hpath
  -- An unseen node is not an open one, so it is not on the stack yet.
  have hnew : link.node ∉ s.stack.map Frame.node := by
    intro hmem
    rw [(h.onPath _).2 hmem] at hm
    exact absurd hm (by decide)
  have hstack : ((s.advance top pending below).enter a link.node).stack.map Frame.node
      = link.node :: s.stack.map Frame.node := by
    rw [hs]; rfl
  have hdone : ∀ i, s.marks.get i = .done →
      ((s.advance top pending below).enter a link.node).marks.get i = .done := by
    intro i hi
    show (s.marks.set link.node.val .onPath link.node.isLt).get i = .done
    rw [get_set, if_neg, hi]
    rintro rfl
    rw [hm] at hi
    exact absurd hi (by decide)
  refine ⟨?_, fun i => ?_, ⟨⟨[], rfl, by simp, by simp⟩, ?_⟩, h.reported_nodup, h.cyclic,
    fun i hi => h.grounded i ?_⟩
  · rw [hstack]
    exact List.nodup_cons.2 ⟨hnew, h.nodup⟩
  · rw [hstack, List.mem_cons, ← h.onPath i]
    show (s.marks.set link.node.val .onPath link.node.isLt).get i = .onPath ↔ _
    rw [get_set]
    by_cases hi : link.node = i
    · simp [hi]
    · simp [hi, Ne.symm hi]
  · -- The link that was taken is settled by where the path goes on.
    have hadv : Path a s (some link.node) (⟨top.node, pending⟩ :: below) :=
      hpath.advance hp (.inr (.inr rfl)) fun i hi => Option.some.inj hi
    exact hadv.mono _ hdone (List.Subset.refl _)
  · have hi' : (s.marks.set link.node.val .onPath link.node.isLt).get i = .done := hi
    rw [get_set] at hi'
    split at hi'
    · exact absurd hi' (by decide)
    · exact hi'

/-- Passing a link to a done node. -/
theorem inv_skip (h : Inv a s) (hs : s.stack = top :: below) (hp : top.pending = link :: pending)
    (hl : s.Settled none link) : Inv a (s.advance top pending below) := by
  have hpath := h.path
  rw [hs] at hpath
  have hstack : (s.advance top pending below).stack.map Frame.node = s.stack.map Frame.node := by
    rw [hs]; rfl
  refine ⟨?_, fun i => ?_, ?_, h.reported_nodup, h.cyclic, h.grounded⟩
  · rw [hstack]; exact h.nodup
  · rw [hstack]; exact h.onPath i
  · exact (hpath.advance hp hl (by simp)).mono (s.advance top pending below) (fun _ hi => hi)
      (List.Subset.refl _)

/-- Reporting another node on a cycle. -/
theorem inv_reported (h : Inv a s) {i : Fin n} (hi : i ∉ s.reported)
    (hc : ∃ c, c.Nodup ∧ IsCycle a.Linked c ∧ i ∈ c) :
    Inv a { s with reported := i :: s.reported } where
  nodup := h.nodup
  onPath := h.onPath
  path := h.path.mono { s with reported := i :: s.reported } (fun _ hd => hd)
    (List.subset_cons_self _ _)
  reported_nodup := List.nodup_cons.2 ⟨hi, h.reported_nodup⟩
  cyclic j hj := by
    rcases List.mem_cons.1 hj with rfl | hj
    · exact hc
    · exact h.cyclic j hj
  grounded j hj := by
    refine Subrelation.accessible (fun {x y} hxy => ?_) (h.grounded j hj)
    exact ⟨hxy.1, fun hx => hxy.2 (List.mem_cons_of_mem _ hx)⟩

/-- Following a link back to the path: it closes a cycle through the node it leads to. -/
theorem inv_report (h : Inv a s) (hs : s.stack = top :: below) (hp : top.pending = link :: pending)
    (hm : s.marks.get link.node = .onPath) :
    Inv a ((s.report link.node).advance top pending below) := by
  by_cases hr : link.node ∈ s.reported
  · rw [report_of_mem hr]
    exact inv_skip h hs hp (.inr (.inl hr))
  · rw [report_of_not_mem hr]
    refine inv_skip (inv_reported h hr ?_) hs hp (.inr (.inl List.mem_cons_self))
    have hnd := h.nodup
    have hpath := h.path
    have hmem := (h.onPath _).1 hm
    rw [hs] at hnd hpath hmem
    refine hpath.exists_cycle hnd hmem ⟨link, ?_, rfl⟩
    obtain ⟨followed, hout, -⟩ := hpath.1
    rw [hout, hp]
    simp

/-- **One move keeps the invariant.** -/
theorem inv_step (h : Inv a s) (hs : s.stack = top :: below) : Inv a (s.step a top below) := by
  cases hp : top.pending with
  | nil => exact inv_leave h hs hp
  | cons link pending =>
    cases hm : s.marks.get link.node with
    | unseen => rw [step_enter hp hm]; exact inv_enter h hs hp hm
    | onPath => rw [step_report hp hm]; exact inv_report h hs hp hm
    | done => rw [step_skip hp hm]; exact inv_skip h hs hp (.inl hm)

/-- No move makes a node unseen again. -/
theorem seen_step {i : Fin n} (hi : s.marks.get i ≠ .unseen) :
    (s.step a top below).marks.get i ≠ .unseen := by
  cases hp : top.pending with
  | nil =>
    rw [(step_leave hp).1]
    split
    · decide
    · exact hi
  | cons link pending =>
    cases hm : s.marks.get link.node with
    | unseen =>
      rw [step_enter hp hm]
      show (s.marks.set link.node.val .onPath link.node.isLt).get i ≠ .unseen
      rw [get_set]
      split
      · decide
      · exact hi
    | onPath =>
      rw [step_report hp hm]
      show (s.report link.node).marks.get i ≠ .unseen
      rw [report]
      split <;> exact hi
    | done => rw [step_skip hp hm]; exact hi

/-! ## Runs -/

theorem run_nil (s : Search n) (hs : s.stack = []) : run a s = s := by
  rw [run]
  split
  · rfl
  · rename_i hcons
    exact absurd (hcons.symm.trans hs) (List.cons_ne_nil _ _)

theorem run_cons (s : Search n) {top : Frame n} {below : List (Frame n)}
    (hs : s.stack = top :: below) : run a s = run a (s.step a top below) := by
  conv_lhs => rw [run]
  split
  · rename_i hnil
    exact absurd (hs.symm.trans hnil) (List.cons_ne_nil _ _)
  · rename_i hcons
    obtain ⟨rfl, rfl⟩ := List.cons.inj (hs.symm.trans hcons)
    rfl

/-- What every move keeps holds at the end of a run, when the stack is empty. -/
theorem run_induction {P : Search n → Prop}
    (hstep : ∀ s top below, s.stack = top :: below → P s → P (s.step a top below)) (h : P s) :
    P (run a s) ∧ (run a s).stack = [] := by
  fun_induction run a s with
  | case1 s hs => exact ⟨h, hs⟩
  | case2 s top below hs _ ih => exact ih (hstep s top below hs h)

/-- Between the runs, all nodes that have been seen are done. -/
structure Resting (a : Adjacency n) (s : Search n) : Prop where
  inv : Inv a s
  stack : s.stack = []

theorem Resting.done (h : Resting a s) {i : Fin n} (hi : s.marks.get i ≠ .unseen) :
    s.marks.get i = .done := by
  cases hm : s.marks.get i with
  | unseen => exact absurd hm hi
  | onPath =>
    have hmem := (h.inv.onPath i).1 hm
    rw [h.stack] at hmem
    exact absurd hmem (by simp)
  | done => rfl

theorem inv_enter_resting (h : Resting a s) (i : Fin n) :
    Inv a (s.enter a i) := by
  have hget : ∀ j, (s.enter a i).marks.get j = if i = j then .onPath else s.marks.get j :=
    fun j => get_set _ _ _ _
  have hstack : (s.enter a i).stack = [⟨i, a.outgoing.get i⟩] := by
    show ⟨i, a.outgoing.get i⟩ :: s.stack = _
    rw [h.stack]
  refine ⟨?_, fun j => ?_, ?_, h.inv.reported_nodup, h.inv.cyclic, fun j hj => h.inv.grounded j ?_⟩
  · rw [hstack]; exact List.nodup_singleton _
  · rw [hget, hstack, List.map_singleton, List.mem_singleton]
    by_cases hj : i = j
    · simp [hj]
    · rw [if_neg hj, h.inv.onPath, h.stack]
      simp [Ne.symm hj]
  · rw [hstack]
    exact ⟨⟨[], rfl, by simp, by simp⟩, trivial⟩
  · rw [hget] at hj
    split at hj
    · exact absurd hj (by decide)
    · exact hj

/-- **A run from a node keeps the invariant**, and the node has been seen after it. -/
theorem resting_start (h : Resting a s) (i : Fin n) :
    Resting a (s.start a i) ∧ (s.start a i).marks.get i ≠ .unseen ∧
      ∀ j, s.marks.get j ≠ .unseen → (s.start a i).marks.get j ≠ .unseen := by
  rw [start]
  split
  · rename_i hi
    have hget : ∀ j, (s.enter a i).marks.get j = if i = j then .onPath else s.marks.get j :=
      fun j => get_set _ _ _ _
    have hseen : ∀ j, (s.enter a i).marks.get j ≠ .unseen →
        (run a (s.enter a i)).marks.get j ≠ .unseen :=
      fun j hj => (run_induction (P := fun s => s.marks.get j ≠ .unseen)
        (fun _ _ _ _ => seen_step) hj).1
    obtain ⟨hinv, hstack⟩ :=
      run_induction (fun _ _ _ hs hP => inv_step hP hs) (inv_enter_resting h i)
    refine ⟨⟨hinv, hstack⟩, hseen i ?_, fun j hj => hseen j ?_⟩
    · rw [hget, if_pos rfl]; decide
    · rw [hget]
      split
      · decide
      · exact hj
  · rename_i hi
    exact ⟨h, hi, fun _ hj => hj⟩

theorem resting_foldl (h : Resting a s) (l : List (Fin n)) :
    Resting a (l.foldl (start a) s) ∧
      ∀ i, i ∈ l ∨ s.marks.get i ≠ .unseen → (l.foldl (start a) s).marks.get i ≠ .unseen := by
  induction l generalizing s with
  | nil => exact ⟨h, fun i hi => hi.resolve_left (by simp)⟩
  | cons j l ih =>
    obtain ⟨hrest, hj, hseen⟩ := resting_start h j
    obtain ⟨hrest', hseen'⟩ := ih hrest
    refine ⟨hrest', fun i hi => ?_⟩
    rcases hi with hi | hi
    · rcases List.mem_cons.1 hi with rfl | hi
      · exact hseen' i (.inr hj)
      · exact hseen' i (.inl hi)
    · exact hseen' i (.inr (hseen i hi))

/-- **At the end of the search every node is done.** -/
theorem all_spec (a : Adjacency n) :
    Inv a (all a) ∧ ∀ i, (all a).marks.get i = .done := by
  obtain ⟨hrest, hseen⟩ := resting_foldl ⟨inv_initial a, rfl⟩ (List.finRange n)
  exact ⟨hrest.inv, fun i => hrest.done (hseen i (.inl (List.mem_finRange i)))⟩

end Search

/-! ## What is reported -/

section Reported

variable {n : Nat} {a : Adjacency n}

theorem cycleNodes_nodup (a : Adjacency n) : (cycleNodes a).Nodup :=
  List.nodup_reverse.2 (Search.all_spec a).1.reported_nodup

theorem exists_cycle_of_mem_cycleNodes {i : Fin n} (hi : i ∈ cycleNodes a) :
    ∃ c, c.Nodup ∧ IsCycle a.Linked c ∧ i ∈ c :=
  (Search.all_spec a).1.cyclic i (List.mem_reverse.1 hi)

/-- From a node of a cycle without reported nodes one could go on forever. -/
theorem not_mem_of_acc {reported c : List (Fin n)} (hc : IsCycle a.Linked c)
    (hr : ∀ i ∈ c, i ∉ reported) {i : Fin n} (h : Acc (Search.Avoiding a reported) i) : i ∉ c := by
  induction h with
  | intro i _ ih =>
    intro hi
    obtain ⟨j, hj, hl⟩ := hc.exists_next hi
    exact ih j ⟨hl, hr j hj⟩ hj

theorem exists_mem_cycleNodes {c : List (Fin n)} (hc : IsCycle a.Linked c) :
    ∃ i ∈ c, i ∈ cycleNodes a := by
  by_contra hnone
  have hr : ∀ i ∈ c, i ∉ (Search.all a).reported :=
    fun i hi hrep => hnone ⟨i, hi, List.mem_reverse.2 hrep⟩
  obtain ⟨hinv, hdone⟩ := Search.all_spec a
  cases c with
  | nil => exact hc
  | cons i l => exact not_mem_of_acc hc hr (hinv.grounded i (hdone i)) List.mem_cons_self

/-- **Nothing is reported exactly when no node can be reached from itself.** -/
theorem cycleNodes_eq_nil_iff : cycleNodes a = [] ↔ ∀ i, ¬ Relation.TransGen a.Linked i i := by
  rw [List.eq_nil_iff_forall_not_mem]
  constructor
  · intro hnone i hi
    obtain ⟨c, hc, -⟩ := exists_isCycle_iff.2 hi
    obtain ⟨j, -, hj⟩ := exists_mem_cycleNodes hc
    exact hnone j hj
  · intro hacyclic i hi
    obtain ⟨c, -, hc, hic⟩ := exists_cycle_of_mem_cycleNodes hi
    exact hacyclic i (exists_isCycle_iff.1 ⟨c, hc, hic⟩)

/-- Where all links lead to later places there is nothing to report. -/
theorem cycleNodes_eq_nil_of_lt (h : ∀ i, ∀ link ∈ a.outgoing.get i, i < link.node) :
    cycleNodes a = [] := by
  have hlater : ∀ {i j : Fin n}, Relation.TransGen a.Linked i j → i < j := by
    intro i j hij
    induction hij with
    | single hl =>
      obtain ⟨link, hlink, rfl⟩ := hl
      exact h _ link hlink
    | tail _ hl ih =>
      obtain ⟨link, hlink, rfl⟩ := hl
      exact ih.trans (h _ link hlink)
  exact cycleNodes_eq_nil_iff.2 fun i hi => lt_irrefl i (hlater hi)

end Reported

/-! ## Cycles of a chart -/

theorem cycles_eq_nil_iff {g : Graph} :
    cycles g g.adjacency = [] ↔ cycleNodes g.adjacency = [] := by
  rw [cycles, List.map_eq_nil_iff]

/-- The ids of the nodes a check reports as closing a cycle, in order. -/
def reportedIds (g : Graph) : List String := (cycles g g.adjacency).filterMap Finding.node

theorem reportedIds_eq (g : Graph) :
    reportedIds g = (cycleNodes g.adjacency).map fun i => (g.nodeAt i).id := by
  rw [reportedIds, cycles, List.filterMap_map, ← List.filterMap_eq_map]
  rfl

/-- A cycle of ids is the cycle of the places they stand for. -/
theorem exists_isCycle_linked {g : Graph} (hd : (g.nodes.map Node.id).Nodup) {c : List String}
    (hc : IsCycle g.Arc c) :
    ∃ c', IsCycle g.adjacency.Linked c' ∧ c'.map (fun i => (g.nodeAt i).id) = c := by
  have hplace : ∀ u ∈ c, u ∈ Set.range fun i => (g.nodeAt i).id := by
    intro u hu
    obtain ⟨v, -, harc⟩ := hc.exists_next hu
    obtain ⟨i, -, hi, -⟩ := harc.exists_linked hd
    exact ⟨i, hi⟩
  obtain ⟨c', rfl⟩ : c ∈ Set.range (List.map fun i => (g.nodeAt i).id) := by
    rw [Set.range_list_map]
    exact hplace
  exact ⟨c', (isCycle_map fun i j => (Graph.linked_iff_arc hd).symm).1 hc, rfl⟩

/-- **The check for cycles is sound and complete.**  Nodes are reported once, each lies on a simple
cycle of arcs, and no closed walk of arcs avoids the reported nodes; so nothing is reported exactly
when the arcs are acyclic.  Edges may repeat, lead nowhere or lead back to their source. -/
theorem reportedIds_hit_exactly_the_cycles (g : Graph) (hd : (g.nodes.map Node.id).Nodup) :
    (reportedIds g).Nodup ∧
      (∀ u ∈ reportedIds g, ∃ c, c.Nodup ∧ IsCycle g.Arc c ∧ u ∈ c) ∧
      (∀ c, IsCycle g.Arc c → ∃ u ∈ c, u ∈ reportedIds g) ∧
      (cycles g g.adjacency = [] ↔ ∀ u, ¬ Relation.TransGen g.Arc u u) := by
  have hinj := Graph.nodeAt_id_injective hd
  -- The search knows places; where ids are distinct, cycles of places are cycles of ids.
  have hsound : ∀ u ∈ reportedIds g, ∃ c, c.Nodup ∧ IsCycle g.Arc c ∧ u ∈ c := by
    intro u hu
    rw [reportedIds_eq] at hu
    obtain ⟨i, hi, rfl⟩ := List.mem_map.1 hu
    obtain ⟨c, hnd, hc, hic⟩ := exists_cycle_of_mem_cycleNodes hi
    exact ⟨c.map fun i => (g.nodeAt i).id, hnd.map hinj,
      (isCycle_map fun i j => (Graph.linked_iff_arc hd).symm).2 hc, List.mem_map_of_mem hic⟩
  have hcomplete : ∀ c, IsCycle g.Arc c → ∃ u ∈ c, u ∈ reportedIds g := by
    intro c hc
    obtain ⟨c', hc', rfl⟩ := exists_isCycle_linked hd hc
    obtain ⟨i, hic, hi⟩ := exists_mem_cycleNodes hc'
    exact ⟨_, List.mem_map_of_mem hic, by rw [reportedIds_eq]; exact List.mem_map_of_mem hi⟩
  have hnil : cycles g g.adjacency = [] ↔ reportedIds g = [] := by
    rw [reportedIds_eq, cycles, List.map_eq_nil_iff, List.map_eq_nil_iff]
  refine ⟨?_, hsound, hcomplete, ?_⟩
  · rw [reportedIds_eq]
    exact (cycleNodes_nodup _).map hinj
  · rw [hnil, List.eq_nil_iff_forall_not_mem]
    constructor
    · intro hnone u hu
      obtain ⟨c, hc, -⟩ := exists_isCycle_iff.2 hu
      obtain ⟨v, -, hv⟩ := hcomplete c hc
      exact hnone v hv
    · intro hacyclic u hu
      obtain ⟨c, -, hc, huc⟩ := hsound u hu
      exact hacyclic u (exists_isCycle_iff.1 ⟨c, hc, huc⟩)

/-- Two cycles that share a node, one of them a loop, an edge that is there twice, and two edges
that lack an end. -/
def tangled : Graph where
  nodes := ["a", "b", "c", "d"].map fun id => { id, component := .agent {} }
  edges := [⟨"1", "a", "b", []⟩, ⟨"2", "a", "b", []⟩, ⟨"3", "b", "a", []⟩, ⟨"4", "b", "b", []⟩,
    ⟨"5", "c", "a", []⟩, ⟨"6", "d", "x", []⟩, ⟨"7", "x", "d", []⟩]

theorem reportedIds_tangled : (tangled.nodes.map Node.id).Nodup ∧ (reportedIds tangled).Nodup ∧
    "b" ∈ reportedIds tangled ∧ cycles tangled tangled.adjacency ≠ [] := by
  have hd : (tangled.nodes.map Node.id).Nodup := by decide
  obtain ⟨hnd, -, hhit, hnil⟩ := reportedIds_hit_exactly_the_cycles tangled hd
  have hloop : tangled.Arc "b" "b" :=
    ⟨⟨⟨"4", "b", "b", []⟩, by decide, rfl, rfl⟩, by decide, by decide⟩
  obtain ⟨u, hu, hrep⟩ := hhit ["b"] (List.isChain_pair.2 hloop)
  rw [List.mem_singleton.1 hu] at hrep
  exact ⟨hd, hnd, hrep, fun h => hnil.1 h "b" (.single hloop)⟩

end Lint

end CrewChart

import CrewChart.Template.Registry
import CrewChart.Proofs.Template.Tags

/-!
# What the text of a template is read as

A template is read in one go: text is gathered until a tag comes, a tag that opens a block puts
what was read aside, and a tag that closes it puts the block in its place.  What a stretch of text
adds can be said by itself all the same, because nothing that comes later changes it.  All that has
to be known from before is how the line began: a tag of a block that is alone on its line takes the
line break with it, and one inside a line does not.

Reading leaves traces that do not show in what comes out: texts that are cut in two, the place of
every tag, and arguments that are looked up twice.  So pieces are compared by what they come out as.

## What is here

* `Same` — pieces that come out the same, for every item.
* `Reader`, `Reader.run` — reading from the middle of a template.
* `Reads` — a stretch of text adds these pieces, with one law for texts, tags and blocks each.
* `exists_parse?` — a text that adds pieces to nothing is a template that comes out as they do.
-/

set_option autoImplicit false

namespace CrewChart.Template

open Json (Value)

/-! ## Pieces that come out the same -/

/-- What pieces come out as, if all goes well. -/
def rendered (s : Scope) (ps : List Piece) : Option (List Char) := (renderAll s ps).toOption

/-- These pieces come out the same, for every item. -/
def Same (ps qs : List Piece) : Prop := ∀ s, rendered s ps = rendered s qs

section Same

variable {s : Scope} {p : Piece} {ps qs ps' qs' : List Piece}

theorem rendered_nil : rendered s [] = some [] := rfl

theorem rendered_cons : rendered s (p :: ps) = (renderPiece s p).toOption.bind fun t =>
    (rendered s ps).map (t ++ ·) := by
  rw [rendered, rendered, renderAll_cons]
  cases renderPiece s p with
  | error f => rfl
  | ok t => cases renderAll s ps <;> rfl

theorem rendered_append : rendered s (ps ++ qs) = (rendered s ps).bind fun t =>
    (rendered s qs).map (t ++ ·) := by
  induction ps with
  | nil => simp [rendered_nil]
  | cons p ps ih =>
    rw [List.cons_append, rendered_cons, rendered_cons, ih]
    cases (renderPiece s p).toOption with
    | none => rfl
    | some t => cases rendered s ps <;> cases rendered s qs <;> simp

theorem Same.refl (ps : List Piece) : Same ps ps := fun _ => rfl

theorem Same.symm (h : Same ps qs) : Same qs ps := fun s => (h s).symm

theorem Same.trans (h : Same ps qs) (h' : Same qs qs') : Same ps qs' := fun s => (h s).trans (h' s)

theorem Same.append (h : Same ps qs) (h' : Same ps' qs') : Same (ps ++ ps') (qs ++ qs') :=
  fun s => by rw [rendered_append, rendered_append, h s, h' s]

theorem render_eq_ok_iff {v : Value} {script : String} : Template.render ps v = .ok script ↔
    (rendered ⟨{ item := v }, []⟩ ps).map String.ofList = some script := by
  rw [Template.render, rendered]
  cases renderAll ⟨{ item := v }, []⟩ ps <;> simp [Except.map, Except.toOption]

theorem Same.render_eq_ok_iff (h : Same ps qs) {v : Value} {script : String} :
    Template.render ps v = .ok script ↔ Template.render qs v = .ok script := by
  rw [Template.render_eq_ok_iff, Template.render_eq_ok_iff, h]

theorem rendered_singleton : rendered s [p] = (renderPiece s p).toOption := by
  rw [rendered_cons, rendered_nil]
  cases (renderPiece s p).toOption <;> simp

/-- A text may be cut in two. -/
theorem same_text (a b : List Char) :
    Same [.text (String.ofList (a ++ b))] [.text (String.ofList a), .text (String.ofList b)] := by
  intro s
  simp [rendered_cons, rendered_nil, renderPiece_text, Except.toOption]

theorem same_nil_text : Same [] [.text (String.ofList [])] := fun s => by
  simp [rendered_cons, rendered_nil, renderPiece_text, Except.toOption]

/-- Where a tag stands does not show, unless it fails. -/
theorem same_placed (place : Place) (ps : List Piece) : Same [.placed place ps] ps := by
  intro s
  rw [rendered_singleton, renderPiece_placed, rendered]
  cases renderAll s ps <;> rfl

theorem rendered_needed (arg : Argument) :
    rendered s [.needed [arg]] = (s.value arg).toOption.map fun _ => [] := by
  rw [rendered_singleton, renderPiece_needed]
  simp only [concatM]
  cases s.value arg <;> rfl

/-- What is looked up twice is looked up once. -/
theorem same_needed {arg : Argument} (h : ∀ s, (s.value arg).toOption = none →
    (renderPiece s p).toOption = none) : Same [.needed [arg], p] [p] := by
  intro s
  rw [show [Piece.needed [arg], p] = [.needed [arg]] ++ [p] from rfl, rendered_append,
    rendered_needed, rendered_singleton]
  cases hvalue : (s.value arg).toOption with
  | none => rw [h s hvalue]; rfl
  | some v => cases (renderPiece s p).toOption <;> rfl

/-- The helpers with a place in a template look their argument up. -/
theorem same_call {h : Helper} {arg : Argument} (hh : h.isKnown = true) (ps qs : List Piece) :
    Same (Call.pieces ⟨h, { listed := [arg] }⟩ ps qs) [h.piece (some arg) ps qs] := by
  apply same_needed
  intro s hvalue
  cases hlook : s.value arg with
  | ok v => rw [hlook] at hvalue; cases hvalue
  | error f =>
    cases h with
    | cond negated =>
      cases negated <;> simp [Helper.piece, renderPiece_cond, hlook, Except.toOption]
    | each => simp [Helper.piece, renderPiece_each, hlook, Except.toOption]
    | literal => simp [Helper.piece, renderPiece_literal, hlook, Except.toOption, Except.map]
    | unknown name => cases hh

theorem toOption_concatM_cons {α : Type} (f : α → Except Failure (List Char)) (a : α) (l : List α) :
    (concatM f (a :: l)).toOption
      = (f a).toOption.bind fun t => (concatM f l).toOption.map (t ++ ·) := by
  rw [concatM]
  cases f a with
  | error e => rfl
  | ok t => cases concatM f l <;> rfl

theorem toOption_concatM {α : Type} {f g : α → Except Failure (List Char)}
    (h : ∀ a, (f a).toOption = (g a).toOption) (l : List α) :
    (concatM f l).toOption = (concatM g l).toOption := by
  induction l with
  | nil => rfl
  | cons a l ih => rw [toOption_concatM_cons, toOption_concatM_cons, h, ih]

theorem same_cond (test : Argument) (hps : Same ps qs) (hps' : Same ps' qs') :
    Same [.cond test ps ps'] [.cond test qs qs'] := by
  intro s
  rw [rendered_singleton, rendered_singleton, renderPiece_cond, renderPiece_cond]
  cases s.value test with
  | error f => rfl
  | ok v =>
    dsimp only
    split_ifs
    · exact hps s
    · exact hps' s

theorem same_each (list : Argument) (hps : Same ps qs) (hps' : Same ps' qs') :
    Same [.each list ps ps'] [.each list qs qs'] := by
  intro s
  rw [rendered_singleton, rendered_singleton, renderPiece_each, renderPiece_each]
  cases s.value list with
  | error f => rfl
  | ok v =>
    dsimp only
    cases levelsOf v with
    | nil => exact hps' s
    | cons level rest => exact toOption_concatM (fun level => hps (s.enter level)) _

/-- A block comes out the same if its branches do. -/
theorem same_piece (h : Helper) (arg : Argument) (hps : Same ps qs) (hps' : Same ps' qs') :
    Same [h.piece (some arg) ps ps'] [h.piece (some arg) qs qs'] := by
  cases h with
  | cond negated =>
    cases negated with
    | false => exact same_cond arg hps hps'
    | true => exact same_cond arg hps' hps
  | each => exact same_each arg hps hps'
  | literal => exact .refl _
  | unknown name => exact .refl _

end Same

/-! ## Reading from the middle of a template -/

/-- Where a reader is: what it knows of the line, the text it has gathered, the last character
first, and the draft of the template. -/
structure Reader where
  place : Place
  lineBlank : Bool
  taken : List Char
  draft : Draft

namespace Reader

/-- The draft once the rest of the text is read. -/
def run (r : Reader) (text : List Char) : Option Draft :=
  (tokens? r.place r.lineBlank r.taken text).bind fun tokens => tokens.foldlM Draft.take r.draft

/-- The draft with the text that was gathered. -/
def flushed (r : Reader) : Draft :=
  if r.taken = [] then r.draft else r.draft.add (.text (String.ofList r.taken.reverse))

/-- The pieces of the innermost block so far. -/
def pieces (r : Reader) : List Piece := r.flushed.pieces.reverse

/-- After one more character of text. -/
def pass (r : Reader) (c : Char) : Reader where
  place := r.place.next c
  lineBlank := c == '\n' || c == '\r' || (r.lineBlank && isIndent c)
  taken := c :: r.taken
  draft := r.draft

end Reader

/-- How the line at hand begins: with nothing, with more than blanks, or with blanks that a tag may
take with it. -/
inductive Line where
  | fresh
  | begun
  | unsettled
deriving DecidableEq

namespace Line

/-- The reader is on such a line.  A fresh one has no blanks, and neither has the text before it. -/
def Holds (l : Line) (r : Reader) : Prop :=
  match l with
  | .fresh => r.lineBlank = true ∧ r.taken.dropWhile isIndent = r.taken
  | .begun => r.lineBlank = false
  | .unsettled => True

/-- After one more character.  Blanks do not begin a line, but they may go with a tag. -/
def step (l : Line) (c : Char) : Line :=
  if c = '\n' then .fresh
  else if isIndent c then (if l = .begun then .begun else .unsettled)
  else if c = '\r' then .fresh else .begun

/-- After a text. -/
def after (l : Line) (text : List Char) : Line := text.foldl step l

/-- What follows a tag of a block that is alone on a fresh line and is taken with it. -/
def ending : Line → List Char
  | .fresh => ['\n']
  | _ => []

theorem holds_step {l : Line} {r : Reader} (h : l.Holds r) (c : Char) :
    (l.step c).Holds (r.pass c) := by
  rw [step]
  split_ifs with hline hindent hbegun hreturn
  · obtain rfl := hline
    exact ⟨rfl, rfl⟩
  · obtain rfl := hbegun
    have hblank : (c == '\n' || c == '\r') = false := by
      simp only [isIndent, Bool.or_eq_true, beq_iff_eq] at hindent
      obtain rfl | rfl := hindent <;> rfl
    show (c == '\n' || c == '\r' || (r.lineBlank && isIndent c)) = false
    rw [hblank, show r.lineBlank = false from h]
    rfl
  · trivial
  · obtain rfl := hreturn
    exact ⟨rfl, rfl⟩
  · show (c == '\n' || c == '\r' || (r.lineBlank && isIndent c)) = false
    simp [hline, hreturn, hindent]

theorem holds_after {l : Line} {r : Reader} (h : l.Holds r) (text : List Char) :
    (l.after text).Holds (text.foldl Reader.pass r) := by
  induction text generalizing l r with
  | nil => exact h
  | cons c text ih => exact ih (holds_step h c)

/-- A tag of a block leaves the line as it was. -/
theorem holds_settled {l : Line} (hl : l ≠ .unsettled) (place : Place) (d : Draft) :
    l.Holds ⟨place, l == .fresh, [], d⟩ := by
  cases l with
  | fresh => exact ⟨rfl, rfl⟩
  | begun => rfl
  | unsettled => exact absurd rfl hl

/-- Nothing else is taken, and the text before the tag stays as it is. -/
theorem around_ending {l : Line} {r : Reader} (h : l.Holds r) (hl : l ≠ .unsettled) {tag : Tag}
    (hblock : tag.isBlock = true) (rest : List Char) :
    around tag r.lineBlank r.taken (l.ending ++ rest) = (r.taken, rest, l == .fresh) := by
  cases l with
  | fresh =>
    obtain ⟨hblank, htaken⟩ := h
    have hafter : afterLine? ('\n' :: rest) = some rest := rfl
    rw [around, hblock, hblank, Bool.and_true, if_pos rfl, ending, List.singleton_append, hafter]
    dsimp only
    rw [htaken]
    rfl
  | begun =>
    rw [around, show r.lineBlank = false from h, Bool.and_false, if_neg Bool.false_ne_true]
    rfl
  | unsettled => exact absurd rfl hl

end Line

/-! ### Steps -/

section Steps

variable {r : Reader} {rest : List Char}

theorem Reader.take_taken (r : Reader) : r.draft.take (.text r.taken.reverse) = some r.flushed := by
  rw [Reader.flushed]
  split_ifs with h
  · rw [h]
    rfl
  · obtain ⟨c, s, hs⟩ := List.exists_cons_of_ne_nil (mt List.reverse_eq_nil_iff.1 h)
    rw [hs]
    rfl

theorem Reader.flushed_opened (r : Reader) : r.flushed.opened = r.draft.opened := by
  rw [Reader.flushed]
  split_ifs <;> rfl

/-- At the end of the text, what was gathered is the last piece. -/
theorem run_nil (r : Reader) : r.run [] = some r.flushed := by
  rw [Reader.run, tokens?, Option.bind_some, List.foldlM_cons, r.take_taken]
  rfl

theorem run_cons {c : Char} (hbrace : ∀ t, c :: rest ≠ '\x7b' :: '\x7b' :: t)
    (hescaped : escaped? (c :: rest) = none) : r.run (c :: rest) = (r.pass c).run rest := by
  rw [Reader.run, tokens?, hescaped]
  · rfl
  · rintro t rfl rfl
    exact hbrace t rfl

/-- A stretch of text with no tag in it, and nothing at its end that could be part of one. -/
def isPlainText : List Char → Bool
  | [] => true
  | [c] => c != '\x7b' && c != '\\'
  | c :: d :: s =>
    !(c == '\x7b' && d == '\x7b') && !(c == '\\' && (d == '\x7b' || d == '\\'))
      && isPlainText (d :: s)

theorem escaped?_of_ne {c : Char} (h : c ≠ '\\') (s : List Char) : escaped? (c :: s) = none := by
  unfold escaped?
  split <;> simp_all

theorem escaped?_backslash {d : Char} (hbrace : d ≠ '\x7b') (h : d ≠ '\\') (s : List Char) :
    escaped? ('\\' :: d :: s) = none := by
  unfold escaped?
  split <;> simp_all

theorem run_text {text : List Char} (h : isPlainText text = true) (r : Reader) (rest : List Char) :
    r.run (text ++ rest) = (text.foldl Reader.pass r).run rest := by
  -- No character begins a tag with the one after it, and the last one does not with any.
  induction text using isPlainText.induct generalizing r with
  | case1 => rfl
  | case2 c =>
    simp only [isPlainText, Bool.and_eq_true, bne_iff_ne] at h
    refine run_cons ?_ (escaped?_of_ne h.2 _)
    rintro t ⟨⟩
    exact h.1 rfl
  | case3 c d s ih =>
    simp only [isPlainText, Bool.and_eq_true, Bool.not_eq_true', Bool.and_eq_false_iff,
      Bool.or_eq_false_iff, beq_eq_false_iff_ne] at h
    obtain ⟨⟨hbrace, hescaped⟩, hrest⟩ := h
    refine (run_cons ?_ ?_).trans (ih hrest _)
    · rintro t ⟨⟩
      exact hbrace.elim (fun h => h rfl) fun h => h rfl
    · by_cases hc : c = '\\'
      · subst hc
        obtain h | ⟨hd, hd'⟩ := hescaped
        · exact absurd rfl h
        · exact escaped?_backslash hd hd' _
      · exact escaped?_of_ne hc _

/-- A tag, in its braces. -/
def braced (text : List Char) : List Char := '\x7b' :: '\x7b' :: (text ++ ['\x7d', '\x7d'])

/-- A tag that leaves the text before it is one more token. -/
theorem run_braced {text after : List Char} {tag : Tag} {alone : Bool} {d : Draft}
    (ht : IsTag text tag)
    (haround : around tag r.lineBlank r.taken rest = (r.taken, after, alone))
    (hlength : after.length ≤ rest.length)
    (hd : r.flushed.take (.tag tag r.place) = some d) :
    ∃ place, r.run (braced text ++ rest) = Reader.run ⟨place, alone, [], d⟩ after := by
  have htext : braced text ++ rest = '\x7b' :: '\x7b' :: (text ++ '\x7d' :: '\x7d' :: rest) := by
    simp [braced]
  rw [Reader.run, htext, tokens?, ht rest]
  dsimp only
  rw [haround]
  dsimp only
  have hshorter : after.length < (text ++ '\x7d' :: '\x7d' :: rest).length := by
    simp only [List.length_cons, List.length_append]
    omega
  rw [if_pos hshorter]
  generalize tokens?.passed r.place _ after = place
  refine ⟨place, ?_⟩
  rw [Reader.run, Option.bind_map]
  refine congrArg _ (funext fun tokens => ?_)
  show List.foldlM _ _ _ = _
  rw [List.foldlM_cons, r.take_taken, Option.bind_eq_bind, Option.bind_some, List.foldlM_cons, hd]
  rfl

/-- A tag of a block takes what is left of its line, if it is alone there. -/
theorem run_block {l : Line} (h : l.Holds r) (hl : l ≠ .unsettled) {text : List Char} {tag : Tag}
    (ht : IsTag text tag) (hblock : tag.isBlock = true) {d : Draft}
    (hd : r.flushed.take (.tag tag r.place) = some d) (rest : List Char) :
    ∃ r', r.run (braced text ++ (l.ending ++ rest)) = r'.run rest ∧ l.Holds r' ∧
      r'.draft = d ∧ r'.flushed = d := by
  obtain ⟨place, hrun⟩ := run_braced ht (Line.around_ending h hl hblock rest) (by simp) hd
  exact ⟨_, hrun, Line.holds_settled hl place d, rfl, rfl⟩

theorem run_opening {l : Line} (h : l.Holds r) (hl : l ≠ .unsettled) {text : List Char} {c : Call}
    (ht : IsTag text (.opening c)) (rest : List Char) :
    ∃ r', r.run (braced text ++ (l.ending ++ rest)) = r'.run rest ∧ l.Holds r' ∧
      r'.draft.opened = ⟨r.place, c.helper.name, r.flushed.pieces, [], some c⟩ :: r.draft.opened ∧
      r'.pieces = [] := by
  obtain ⟨r', hrun, hl', hdraft, hflushed⟩ := run_block h hl ht rfl rfl rest
  refine ⟨r', hrun, hl', ?_, ?_⟩
  · rw [hdraft, r.flushed_opened]
  · rw [Reader.pieces, hflushed]
    rfl

variable {top : Opened} {outer : List Opened}

theorem run_otherwise {l : Line} (h : l.Holds r) (hl : l ≠ .unsettled) {text : List Char}
    (ht : IsTag text .otherwise) (hopened : r.draft.opened = top :: outer)
    (hcall : top.call.isSome = true) (rest : List Char) :
    ∃ r', r.run (braced text ++ (l.ending ++ rest)) = r'.run rest ∧ l.Holds r' ∧
      r'.draft.opened
        = { top with done := ⟨top.call, r.pieces⟩ :: top.done, call := none } :: outer ∧
      r'.pieces = [] := by
  have htake : r.flushed.take (.tag .otherwise r.place) = some
      ⟨{ top with done := ⟨top.call, r.pieces⟩ :: top.done, call := none } :: outer, []⟩ := by
    rw [Draft.take, Draft.divide, r.flushed_opened, hopened]
    dsimp only
    rw [if_pos hcall]
    rfl
  obtain ⟨r', hrun, hl', hdraft, hflushed⟩ := run_block h hl ht rfl htake rest
  refine ⟨r', hrun, hl', ?_, ?_⟩
  · rw [hdraft]
  · rw [Reader.pieces, hflushed]
    rfl

theorem run_closing {l : Line} (h : l.Holds r) (hl : l ≠ .unsettled) {text : List Char}
    (ht : IsTag text (.closing top.name)) (hopened : r.draft.opened = top :: outer)
    (rest : List Char) :
    ∃ r', r.run (braced text ++ (l.ending ++ rest)) = r'.run rest ∧ l.Holds r' ∧
      r'.draft.opened = outer ∧
      r'.pieces = top.before.reverse
        ++ [.placed top.place (Branch.join (⟨top.call, r.pieces⟩ :: top.done).reverse)] := by
  have htake : r.flushed.take (.tag (.closing top.name) r.place) = some ⟨outer, .placed top.place
      (Branch.join (⟨top.call, r.pieces⟩ :: top.done).reverse) :: top.before⟩ := by
    rw [Draft.take, Draft.close, r.flushed_opened, hopened]
    dsimp only
    rw [if_pos rfl]
    rfl
  obtain ⟨r', hrun, hl', hdraft, hflushed⟩ := run_block h hl ht rfl htake rest
  refine ⟨r', hrun, hl', ?_, ?_⟩
  · rw [hdraft]
  · rw [Reader.pieces, hflushed, List.reverse_cons]

end Steps

/-! ## Stretches of text -/

/-- On a line that begins like this, the text adds these pieces to the innermost block, and leaves
the line like that. -/
def Reads (l : Line) (text : List Char) (ps : List Piece) (m : Line) : Prop :=
  ∀ (r : Reader) (rest : List Char), l.Holds r → ∃ r', r.run (text ++ rest) = r'.run rest ∧
    m.Holds r' ∧ r'.draft.opened = r.draft.opened ∧ Same r'.pieces (r.pieces ++ ps)

section Reads

variable {l m n : Line} {text text' : List Char} {ps qs : List Piece} {arg : Argument}

theorem Reads.append (h : Reads l text ps m) (h' : Reads m text' qs n) :
    Reads l (text ++ text') (ps ++ qs) n := by
  intro r rest hr
  obtain ⟨r₁, hrun₁, hm, hopened₁, hpieces₁⟩ := h r (text' ++ rest) hr
  obtain ⟨r₂, hrun₂, hn, hopened₂, hpieces₂⟩ := h' r₁ rest hm
  refine ⟨r₂, ?_, hn, hopened₂.trans hopened₁, ?_⟩
  · rw [List.append_assoc, hrun₁, hrun₂]
  · rw [← List.append_assoc]
    exact hpieces₂.trans (hpieces₁.append (.refl qs))

theorem Reads.congr (h : Reads l text ps m) (hps : Same ps qs) : Reads l text qs m := by
  intro r rest hr
  obtain ⟨r', hrun, hm, hopened, hpieces⟩ := h r rest hr
  exact ⟨r', hrun, hm, hopened, hpieces.trans ((Same.refl _).append hps)⟩

/-- The text that was gathered is a piece, even if there is none. -/
theorem same_pieces (r : Reader) :
    Same r.pieces (r.draft.pieces.reverse ++ [.text (String.ofList r.taken.reverse)]) := by
  rw [Reader.pieces, Reader.flushed]
  split_ifs with h
  · rw [h]
    conv => arg 1; rw [← List.append_nil r.draft.pieces.reverse]
    exact (Same.refl _).append same_nil_text
  · rw [Draft.add, List.reverse_cons]
    exact .refl _

theorem foldl_pass_taken (r : Reader) (text : List Char) :
    (text.foldl Reader.pass r).taken = text.reverse ++ r.taken := by
  induction text generalizing r with
  | nil => rfl
  | cons c text ih => rw [List.foldl_cons, ih, List.reverse_cons, List.append_assoc]; rfl

theorem foldl_pass_draft (r : Reader) (text : List Char) :
    (text.foldl Reader.pass r).draft = r.draft := by
  induction text generalizing r with
  | nil => rfl
  | cons c text ih => rw [List.foldl_cons, ih]; rfl

theorem Reads.plain (h : isPlainText text = true) (hm : l.after text = m) :
    Reads l text [.text (String.ofList text)] m := by
  subst hm
  intro r rest hr
  refine ⟨text.foldl Reader.pass r, run_text h r rest, Line.holds_after hr text, ?_, ?_⟩
  · rw [foldl_pass_draft]
  · refine (same_pieces _).trans ?_
    rw [foldl_pass_draft, foldl_pass_taken, List.reverse_append, List.reverse_reverse]
    refine ((Same.refl _).append (same_text _ _)).trans ?_
    rw [← List.singleton_append, ← List.append_assoc]
    exact (same_pieces r).symm.append (.refl _)

/-- A tag that is part of no block. -/
theorem Reads.tag {tag : Tag} (ht : IsTag text tag) (hblock : tag.isBlock = false)
    (htake : ∀ (d : Draft) (place : Place),
      d.take (.tag tag place) = some (d.add (.placed place ps))) :
    Reads l (braced text) ps .begun := by
  intro r rest _
  have haround : around tag r.lineBlank r.taken rest = (r.taken, rest, false) := by
    rw [around, hblock]
    rfl
  obtain ⟨place, hrun⟩ := run_braced ht haround le_rfl (htake r.flushed r.place)
  refine ⟨_, hrun, rfl, r.flushed_opened, ?_⟩
  show Same (r.flushed.add (.placed r.place ps)).pieces.reverse _
  rw [Draft.add, List.reverse_cons]
  exact (Same.refl r.pieces).append (same_placed _ _)

theorem Reads.value (ht : IsTag text (.value arg)) : Reads l (braced text) [.value arg] .begun :=
  .tag ht rfl fun _ _ => rfl

theorem Reads.literal (ht : IsTag text (.call ⟨.literal, { listed := [arg] }⟩)) :
    Reads l (braced text) [.literal arg] .begun :=
  (Reads.tag ht rfl fun _ _ => rfl).congr (same_call rfl [] [])

variable {first last : List Char} {h : Helper}

/-- **A block adds its piece**, if what it holds adds pieces to the branch. -/
theorem Reads.block (hl : l ≠ .unsettled) (hm : m ≠ .unsettled) (hknown : h.isKnown = true)
    (hfirst : IsTag first (.opening ⟨h, { listed := [arg] }⟩)) (hbody : Reads l text ps m)
    (hlast : IsTag last (.closing h.name)) :
    Reads l (braced first ++ (l.ending ++ (text ++ (braced last ++ m.ending))))
      [h.piece (some arg) ps []] m := by
  intro r rest hr
  simp only [List.append_assoc]
  obtain ⟨r₁, hrun₁, hl₁, hopened₁, hpieces₁⟩ := run_opening hr hl hfirst
    (text ++ (braced last ++ (m.ending ++ rest)))
  obtain ⟨r₂, hrun₂, hm₂, hopened₂, hpieces₂⟩ := hbody r₁ (braced last ++ (m.ending ++ rest)) hl₁
  -- What was read before is put aside, so the pieces of the branch are those of the body.
  rw [hpieces₁, List.nil_append] at hpieces₂
  obtain ⟨r₃, hrun₃, hm₃, hopened₃, hpieces₃⟩ :=
    run_closing hm₂ hm hlast (hopened₂.trans hopened₁) rest
  refine ⟨r₃, (hrun₁.trans hrun₂).trans hrun₃, hm₃, hopened₃, ?_⟩
  rw [hpieces₃]
  refine (Same.refl r.pieces).append ((same_placed _ _).trans ?_)
  exact (same_call hknown r₂.pieces []).trans (same_piece h arg hpieces₂ (.refl []))

/-- A block with a second branch. -/
theorem Reads.divided (hl : l ≠ .unsettled) (hm : m ≠ .unsettled) (hn : n ≠ .unsettled)
    (hknown : h.isKnown = true) (hfirst : IsTag first (.opening ⟨h, { listed := [arg] }⟩))
    (hbody : Reads l text ps m) (hother : Reads m text' qs n)
    (hlast : IsTag last (.closing h.name)) :
    Reads l (braced first ++ (l.ending ++ (text ++ (braced "else".toList ++ (m.ending
      ++ (text' ++ (braced last ++ n.ending))))))) [h.piece (some arg) ps qs] n := by
  intro r rest hr
  simp only [List.append_assoc]
  obtain ⟨r₁, hrun₁, hl₁, hopened₁, hpieces₁⟩ := run_opening hr hl hfirst
    (text ++ (braced "else".toList ++ (m.ending ++ (text' ++ (braced last ++ (n.ending ++ rest))))))
  obtain ⟨r₂, hrun₂, hm₂, hopened₂, hpieces₂⟩ := hbody r₁
    (braced "else".toList ++ (m.ending ++ (text' ++ (braced last ++ (n.ending ++ rest))))) hl₁
  rw [hpieces₁, List.nil_append] at hpieces₂
  obtain ⟨r₃, hrun₃, hm₃, hopened₃, hpieces₃⟩ := run_otherwise hm₂ hm isTag_otherwise
    (hopened₂.trans hopened₁) rfl (text' ++ (braced last ++ (n.ending ++ rest)))
  obtain ⟨r₄, hrun₄, hn₄, hopened₄, hpieces₄⟩ := hother r₃ (braced last ++ (n.ending ++ rest)) hm₃
  rw [hpieces₃, List.nil_append] at hpieces₄
  obtain ⟨r₅, hrun₅, hn₅, hopened₅, hpieces₅⟩ :=
    run_closing hn₄ hn hlast (hopened₄.trans hopened₃) rest
  refine ⟨r₅, (((hrun₁.trans hrun₂).trans hrun₃).trans hrun₄).trans hrun₅, hn₅, hopened₅, ?_⟩
  rw [hpieces₅]
  refine (Same.refl r.pieces).append ((same_placed _ _).trans ?_)
  exact (same_call hknown r₂.pieces r₄.pieces).trans (same_piece h arg hpieces₂ hpieces₄)

end Reads

/-- **A text that adds pieces is a template that comes out as they do.** -/
theorem exists_parse? {text : String} {ps : List Piece} {m : Line}
    (h : Reads .fresh text.toList ps m) : ∃ t, parse? text = some t ∧ Same t ps := by
  obtain ⟨r, hrun, -, hopened, hpieces⟩ := h ⟨.start, true, [], ⟨[], []⟩⟩ [] ⟨rfl, rfl⟩
  rw [List.append_nil, run_nil] at hrun
  have hempty : r.flushed.opened = [] := r.flushed_opened.trans hopened
  have hflushed : r.flushed = ⟨[], r.flushed.pieces⟩ := by rw [← hempty]
  obtain ⟨tokens, htokens, htaken⟩ := Option.bind_eq_some_iff.1 hrun
  refine ⟨r.pieces, ?_, hpieces⟩
  rw [parse?, htokens, Option.bind_eq_bind, Option.bind_some, htaken, hflushed]
  rfl

end CrewChart.Template

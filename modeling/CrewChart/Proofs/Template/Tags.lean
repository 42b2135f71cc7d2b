import CrewChart.Template.Token
import CrewChart.Proofs.Decimal.Reading
import CrewChart.Proofs.Json.Brackets
import Mathlib.Tactic.SplitIfs

/-!
# How a tag is read

Tags can hold paths, spelled-out values, keyword arguments and sub-blocks, and the reader looks for
all of these.  Most templates use few of them: words of lower-case letters that name a member of the
item at hand, or a value of the loop.  This file follows such a tag through the reader.  A word is
taken whole, because what may follow it is no character of a name, and it is taken for nothing else
as long as it is none of the words that have a meaning of their own.

## What is here

* `IsWord` — the words in question.
* `path?_word`, `argument?_word` — a word as a path, and as an argument.
* `IsArgument` — a text that is one argument in front of the end of a tag.
* `IsTag` — a text between braces that is this tag; there is one law for each kind of tag.
-/

set_option autoImplicit false

namespace CrewChart.Template

open Json (skipBlank)

/-! ## Letters -/

def isLetter (c : Char) : Bool := ('a' ≤ c && c ≤ 'z') || c == '_'

/-- Words that mean something else than the member they would name. -/
def reserved : List (List Char) :=
  ["as".toList, "else".toList, "null".toList, "true".toList, "false".toList]

/-- A word of letters. -/
structure IsWord (w : List Char) : Prop where
  ne_nil : w ≠ []
  letters : w.all isLetter = true
  free : w ∉ reserved

instance (w : List Char) : Decidable (IsWord w) :=
  decidable_of_iff (w ≠ [] ∧ w.all isLetter = true ∧ w ∉ reserved)
    ⟨fun ⟨h, h', h''⟩ => ⟨h, h', h''⟩, fun h => ⟨h.1, h.2, h.3⟩⟩

theorem IsWord.letter {w : List Char} (hw : IsWord w) {c : Char} (hc : c ∈ w) :
    isLetter c = true := List.all_eq_true.1 hw.letters c hc

/-- The characters of names, as a list that can be searched. -/
theorem isNameChar_eq (c : Char) : isNameChar c
    = (c.isAlphanum || decide (c ∈ ['_', '-', '$', ':', '?']) || decide (0x80 ≤ c.toNat)) := by
  rw [isNameChar, String.contains_char_eq, show "_-$:?".toList = ['_', '-', '$', ':', '?'] by rfl]

theorem isNameChar_of_isLetter {c : Char} (h : isLetter c = true) : isNameChar c = true := by
  rw [isNameChar_eq]
  simp only [isLetter, Bool.or_eq_true, Bool.and_eq_true, decide_eq_true_eq, beq_iff_eq] at h
  obtain h | rfl := h
  · have hlower : c.isLower = true :=
      Bool.and_eq_true_iff.2 ⟨decide_eq_true h.1, decide_eq_true h.2⟩
    have halpha : c.isAlpha = true := Bool.or_eq_true_iff.2 (.inr hlower)
    have halphanum : c.isAlphanum = true := Bool.or_eq_true_iff.2 (.inl halpha)
    rw [halphanum]
    rfl
  · rfl

/-- What follows a word in a tag: a blank, or the braces that end the tag. -/
def isStop (c : Char) : Bool := c == ' ' || c == '\x7d'

theorem eq_of_isStop {c : Char} (h : isStop c = true) : c = ' ' ∨ c = '\x7d' := by
  simpa [isStop] using h

section Word

variable {w : List Char} {n : Char} {rest : List Char}

theorem IsWord.cons (hw : IsWord w) : ∃ c t, w = c :: t ∧ isLetter c = true := by
  obtain ⟨c, t, rfl⟩ := List.exists_cons_of_ne_nil hw.ne_nil
  exact ⟨c, t, rfl, hw.letter List.mem_cons_self⟩

theorem ne_of_isLetter {c d : Char} (hc : isLetter c = true) (hd : isLetter d = false) : c ≠ d := by
  rintro rfl
  rw [hc] at hd
  cases hd

/-- A word is taken whole as a name, up to what stops it. -/
theorem IsWord.name? (hw : IsWord w) (hn : isStop n = true) (rest : List Char) :
    name? (w ++ n :: rest) = some (String.ofList w, n :: rest) := by
  have hall : ∀ c ∈ w, isNameChar c = true := fun c hc => isNameChar_of_isLetter (hw.letter hc)
  have hstop : ∀ c ∈ (n :: rest).head?, isNameChar c = false := by
    rintro c ⟨⟩
    obtain rfl | rfl := eq_of_isStop hn <;> simp [isNameChar_eq]
  obtain ⟨c, t, hcons, hc⟩ := hw.cons
  rw [Template.name?, if_pos, Decimal.takeWhile_run hall hstop, Decimal.dropWhile_run hall hstop]
  rw [hcons, List.cons_append, List.head?_cons, Option.any_some]
  exact isNameChar_of_isLetter hc

/-- Letters that a text with a word in front starts with are letters of the word. -/
theorem prefix_of_letters (hn : isStop n = true) {k : List Char} (hk : k.all isLetter = true)
    (h : k <+: w ++ n :: rest) : k <+: w := by
  obtain hkw | ⟨v, rfl⟩ := List.prefix_or_prefix_of_prefix h (List.prefix_append w (n :: rest))
  · exact hkw
  · cases v with
    | nil => rw [List.append_nil]
    | cons c v =>
      obtain ⟨t, ht⟩ := h
      rw [List.append_assoc, List.append_cancel_left_eq, List.cons_append] at ht
      obtain rfl := (List.cons.inj ht).1
      have hc := List.all_eq_true.1 hk c (by simp)
      obtain rfl | rfl := eq_of_isStop hn <;> cases hc

/-- A word that starts with a reserved one goes on. -/
theorem IsWord.drop_reserved (hw : IsWord w) (hn : isStop n = true) {k : List Char}
    (hk : k ∈ reserved) (h : k <+: w ++ n :: rest) :
    ∃ c t, (w ++ n :: rest).drop k.length = c :: t ∧ isLetter c = true := by
  have hletters : ∀ k ∈ reserved, k.all isLetter = true := by decide
  obtain ⟨u, rfl⟩ := prefix_of_letters hn (hletters k hk) h
  cases u with
  | nil => exact absurd (by simpa using hk) hw.free
  | cons c u =>
    refine ⟨c, u ++ n :: rest, by simp, hw.letter (by simp)⟩

theorem skipBlank_of_isLetter {c : Char} (h : isLetter c = true) (t : List Char) :
    skipBlank (c :: t) = c :: t := by
  refine Json.skipBlank_of_not_isBlank (Bool.eq_false_iff.2 fun hblank => ?_) t
  simp only [Json.isBlank, Bool.or_eq_true, beq_iff_eq] at hblank
  obtain ((rfl | rfl) | rfl) | rfl := hblank <;> cases h

theorem IsWord.skipBlank (hw : IsWord w) (rest : List Char) :
    Json.skipBlank (w ++ rest) = w ++ rest := by
  obtain ⟨c, t, rfl, hc⟩ := hw.cons
  exact skipBlank_of_isLetter hc _

/-! ## Paths -/

theorem moreSteps_of_isStop (hn : isStop n = true) (rest : List Char) :
    moreSteps (n :: rest) = ([], n :: rest) := by
  have hdivider : isDivider n = false := by obtain rfl | rfl := eq_of_isStop hn <;> rfl
  rw [moreSteps]
  split
  · rfl
  · rw [hdivider, if_neg Bool.false_ne_true]

/-- A word is one step of a path, without the brackets that other names need. -/
theorem IsWord.step? (hw : IsWord w) (hn : isStop n = true) (rest : List Char) :
    step? (w ++ n :: rest) = some (String.ofList w, n :: rest) := by
  have hname := hw.name? hn rest
  obtain ⟨c, t, rfl, hc⟩ := hw.cons
  rw [List.cons_append] at hname ⊢
  rw [Template.step?, hname]
  rintro s ⟨⟩
  cases hc

theorem outward_of_isLetter {c : Char} (h : isLetter c = true) (t : List Char) :
    outward (c :: t) = (0, c :: t) := by
  rw [outward]
  rintro d s ⟨⟩
  cases h

/-- The character after a stretch of letters is no divider, if a word is in front. -/
theorem IsWord.not_isDivider (hw : IsWord w) (hn : isStop n = true) {k t : List Char} {c : Char}
    (hk : k.all isLetter = true) (h : w ++ n :: rest = k ++ c :: t) : isDivider c = false := by
  obtain ⟨u, rfl⟩ := prefix_of_letters hn hk ⟨c :: t, h.symm⟩
  rw [List.append_assoc, List.append_cancel_left_eq] at h
  cases u with
  | nil =>
    obtain rfl := (List.cons.inj h).1
    obtain rfl | rfl := eq_of_isStop hn <;> rfl
  | cons d u =>
    obtain rfl := (List.cons.inj h).1
    have hd : isLetter d = true := hw.letter (by simp)
    rw [isDivider, beq_false_of_ne (ne_of_isLetter hd rfl), beq_false_of_ne (ne_of_isLetter hd rfl)]
    rfl

/-- A word may begin like the one for the item at hand, but then no divider follows. -/
theorem IsWord.afterHere (hw : IsWord w) (hn : isStop n = true) (rest : List Char) :
    afterHere (w ++ n :: rest) = w ++ n :: rest := by
  generalize hs : w ++ n :: rest = s
  unfold Template.afterHere
  split
  case h_1 t =>
    obtain ⟨c, u, rfl, hc⟩ := hw.cons
    obtain rfl := (List.cons.inj hs).1
    cases hc
  case h_2 c t =>
    rw [hw.not_isDivider hn (k := "this".toList) (by decide) hs, if_neg Bool.false_ne_true]
  case h_3 => rfl

/-- The member a word names; the word `this` names the item at hand. -/
def memberOf (w : List Char) : Argument := .path 0 ([String.ofList w].filter (· != "this"))

/-- **A word is a path to the member it names.** -/
theorem path?_word (hw : IsWord w) (hn : isStop n = true) (rest : List Char) :
    path? (w ++ n :: rest) = some (memberOf w, n :: rest) := by
  obtain ⟨c, t, hcons, hc⟩ := hw.cons
  have hhead : (w ++ n :: rest).head? = some c := by rw [hcons]; rfl
  have hsign : dropSign '@' (w ++ n :: rest) = w ++ n :: rest := by
    rw [dropSign, hhead, if_neg]
    exact fun h => ne_of_isLetter hc rfl (Option.some.inj h)
  have hroot : afterRoot? (w ++ n :: rest) = none := by
    rw [hcons, List.cons_append, afterRoot?]
    intro d s h
    obtain rfl := (List.cons.inj h).1
    cases hc
  have houtward : outward (w ++ n :: rest) = (0, w ++ n :: rest) := by
    rw [hcons]
    exact outward_of_isLetter hc _
  rw [path?, hw.afterHere hn, hroot, Option.getD_none, hsign, houtward]
  simp only [hw.step? hn, moreSteps_of_isStop hn, hhead, Option.bind_eq_bind, Option.bind_some]
  rw [if_neg (by decide), if_pos (by simpa using ne_of_isLetter hc rfl)]
  rfl

/-- A value of the loop. -/
theorem path?_loop (hw : IsWord w) (hthis : String.ofList w ≠ "this") (hn : isStop n = true)
    (rest : List Char) :
    path? ('@' :: (w ++ n :: rest)) = some (.ofLoop 0 (String.ofList w), n :: rest) := by
  obtain ⟨c, t, hcons, hc⟩ := hw.cons
  have hhere : Template.afterHere ('@' :: (w ++ n :: rest)) = '@' :: (w ++ n :: rest) := rfl
  -- the sign of the loop comes before the word for the root as well, which takes a divider after it
  have hroot : afterRoot? ('@' :: (w ++ n :: rest)) = none := by
    generalize hs : w ++ n :: rest = s
    unfold afterRoot?
    split
    case h_1 d t h =>
      obtain rfl := (List.cons.inj h).2
      rw [hw.not_isDivider hn (k := "root".toList) (by decide) hs, if_neg Bool.false_ne_true]
    case h_2 => rfl
  have houtward : outward (w ++ n :: rest) = (0, w ++ n :: rest) := by
    rw [hcons]
    exact outward_of_isLetter hc _
  have hsteps : [String.ofList w].filter (· != "this") = [String.ofList w] := by simp [hthis]
  rw [path?, hhere, hroot, Option.getD_none, show dropSign '@' ('@' :: (w ++ n :: rest))
    = w ++ n :: rest from rfl, houtward]
  simp only [hw.step? hn, moreSteps_of_isStop hn, Option.bind_eq_bind, Option.bind_some]
  rw [if_neg (by decide), if_neg (by simp), hsteps]
  rfl

/-! ## Arguments -/

/-- A word may begin like a keyword, but then it goes on. -/
theorem startsKeyword_word (hw : IsWord w) (hn : isStop n = true) (rest : List Char) :
    startsKeyword (w ++ n :: rest) = false := by
  have hword (k : String) (hk : k.toList ∈ reserved) : (k.toList.isPrefixOf (w ++ n :: rest)
      && !(Json.skipBlank ((w ++ n :: rest).drop k.length)).head?.any isNameChar) = false := by
    cases hprefix : k.toList.isPrefixOf (w ++ n :: rest) with
    | false => rfl
    | true =>
      obtain ⟨c, t, hdrop, hc⟩ := hw.drop_reserved hn hk (List.isPrefixOf_iff_prefix.mp hprefix)
      rw [← String.length_toList, hdrop, skipBlank_of_isLetter hc, List.head?_cons, Option.any_some,
        isNameChar_of_isLetter hc]
      rfl
  rw [startsKeyword, List.any_cons, List.any_cons, hword "as" (by decide),
    hword "else" (by decide)]
  rfl

theorem afterNumber?_cons {c : Char} (hsign : c ≠ '-') (hdigit : Json.isDigit c = false)
    (t : List Char) : Spelled.afterNumber? (c :: t) = none := by
  have hdrop : dropSign '-' (c :: t) = c :: t := if_neg (by simpa using hsign)
  have hdigits : Spelled.afterDigits? (c :: t) = none := if_neg (by simp [hdigit])
  rw [Spelled.afterNumber?, hdrop, hdigits]
  rfl

/-- A spelled-out value starts with a quote, a bracket, a sign or a digit, or is a keyword. -/
theorem after?_of_neither {c : Char} (h : c ∉ ['"', '\'', '[', '\x7b', '-'])
    (hdigit : Json.isDigit c = false) {t : List Char}
    (hkeyword : ∀ k ∈ ["null", "true", "false"],
      Spelled.afterKeyword? k.toList (c :: t) = none) (levels : Nat) :
    Spelled.after? (levels + 1) (c :: t) = none := by
  simp only [List.mem_cons, List.not_mem_nil, or_false, not_or] at h
  obtain ⟨hdouble, hsingle, hlist, hobject, hsign⟩ := h
  rw [Spelled.after?, afterNumber?_cons hsign hdigit]
  · exact List.findSome?_eq_none_iff.mpr hkeyword
  · rintro s ⟨⟩
    exact hdouble rfl
  · rintro s ⟨⟩
    exact hsingle rfl
  · rintro s ⟨⟩
    exact hlist rfl
  · rintro s ⟨⟩
    exact hobject rfl

theorem isDigit_of_isLetter {c : Char} (h : isLetter c = true) : Json.isDigit c = false := by
  simp only [isLetter, Bool.or_eq_true, Bool.and_eq_true, decide_eq_true_eq, beq_iff_eq] at h
  obtain ⟨hlow, -⟩ | rfl := h
  · have hdigit : ¬ c ≤ '9' := fun hc => absurd (Char.le_trans hlow hc) (by decide)
    rw [Json.isDigit, decide_eq_false hdigit, Bool.and_false]
  · rfl

theorem after?_word (hw : IsWord w) (hn : isStop n = true) (levels : Nat) (rest : List Char) :
    Spelled.after? (levels + 1) (w ++ n :: rest) = none := by
  have hkeyword (k : String) (hk : k.toList ∈ reserved) :
      Spelled.afterKeyword? k.toList (w ++ n :: rest) = none := by
    rw [Spelled.afterKeyword?]
    split_ifs with hprefix
    · obtain ⟨c, t, hdrop, hc⟩ := hw.drop_reserved hn hk (List.isPrefixOf_iff_prefix.mp hprefix)
      rw [hdrop, Spelled.endOfName?, if_pos (by simpa using isNameChar_of_isLetter hc)]
    · rfl
  obtain ⟨c, t, rfl, hc⟩ := hw.cons
  -- no letter starts a spelled-out value
  refine after?_of_neither ?_ (isDigit_of_isLetter hc) ?_ levels
  · intro h
    simp only [List.mem_cons, List.not_mem_nil, or_false] at h
    obtain rfl | rfl | rfl | rfl | rfl := h <;> cases hc
  · intro k hk
    simp only [List.mem_cons, List.not_mem_nil, or_false] at hk
    obtain rfl | rfl | rfl := hk <;> exact hkeyword _ (by decide)

/-- **A word is an argument.**  It is looked at as a keyword and as a spelled-out value first, and
is neither. -/
theorem argument?_word (hw : IsWord w) (hn : isStop n = true) (rest : List Char) :
    argument? (w ++ n :: rest) = some (memberOf w, n :: rest) := by
  rw [argument?, startsKeyword_word hw hn, if_neg Bool.false_ne_true, after?_word hw hn,
    path?_word hw hn]

theorem argument?_loop (hw : IsWord w) (hthis : String.ofList w ≠ "this") (hn : isStop n = true)
    (rest : List Char) :
    argument? ('@' :: (w ++ n :: rest)) = some (.ofLoop 0 (String.ofList w), n :: rest) := by
  have hkeyword : startsKeyword ('@' :: (w ++ n :: rest)) = false := rfl
  rw [argument?, hkeyword, if_neg Bool.false_ne_true, after?_of_neither (by decide) rfl ?_,
    path?_loop hw hthis hn]
  intro k hk
  simp only [List.mem_cons, List.not_mem_nil, or_false] at hk
  obtain rfl | rfl | rfl := hk <;> rfl

end Word

/-- A text that is one argument before the end of a tag. -/
structure IsArgument (text : List Char) (arg : Argument) : Prop where
  skipBlank (rest : List Char) : Json.skipBlank (text ++ '\x7d' :: rest) = text ++ '\x7d' :: rest
  keywordArgument? (rest : List Char) : keywordArgument? (text ++ '\x7d' :: rest) = none
  argument? (rest : List Char) : argument? (text ++ '\x7d' :: rest) = some (arg, '\x7d' :: rest)

theorem isArgument_word {w : List Char} (hw : IsWord w) : IsArgument w (memberOf w) where
  skipBlank _ := hw.skipBlank _
  keywordArgument? rest := by
    rw [Template.keywordArgument?, hw.name? rfl]
    rfl
  argument? rest := argument?_word hw rfl rest

theorem isArgument_loop {w : List Char} (hw : IsWord w) (hthis : String.ofList w ≠ "this") :
    IsArgument ('@' :: w) (.ofLoop 0 (String.ofList w)) where
  skipBlank _ := rfl
  keywordArgument? rest := by
    rw [List.cons_append, Template.keywordArgument?, Template.name?, if_neg]
    · rfl
    · simp [isNameChar_eq]
  argument? rest := argument?_loop hw hthis rfl rest

/-! ## Calls -/

section Calls

variable {w text : List Char} {arg : Argument} (rest : List Char)

theorem path?_brace : path? ('\x7d' :: rest) = none := by
  have hname : name? ('\x7d' :: rest) = none := if_neg (by simp [isNameChar_eq])
  rw [path?, show afterHere ('\x7d' :: rest) = '\x7d' :: rest from rfl,
    show afterRoot? ('\x7d' :: rest) = none from rfl, Option.getD_none,
    show outward (dropSign '@' ('\x7d' :: rest)) = (0, '\x7d' :: rest) from rfl]
  simp only [show Template.step? ('\x7d' :: rest) = none from hname, Option.bind_eq_bind,
    Option.bind_none]

/-- The brace that ends a tag starts no argument. -/
theorem argument?_brace : argument? ('\x7d' :: rest) = none := by
  rw [argument?, show startsKeyword ('\x7d' :: rest) = false from rfl, if_neg Bool.false_ne_true,
    after?_of_neither (by decide) rfl ?_, path?_brace]
  intro k hk
  simp only [List.mem_cons, List.not_mem_nil, or_false] at hk
  obtain rfl | rfl | rfl := hk <;> rfl

/-- At the end of a tag there are no arguments, -/
theorem read_nothing : Arguments.read ('\x7d' :: rest) = ({}, '\x7d' :: rest) := by
  have hskip : skipBlank ('\x7d' :: rest) = '\x7d' :: rest := rfl
  have hname : name? ('\x7d' :: rest) = none := if_neg (by simp [isNameChar_eq])
  have hkeyword : keywordArgument? ('\x7d' :: rest) = none := by
    rw [keywordArgument?, hname]
    rfl
  rw [Arguments.read, hskip, hkeyword, argument?_brace]

/-- and before it the one that is there. -/
theorem read_argument (h : IsArgument text arg) :
    Arguments.read (' ' :: (text ++ '\x7d' :: rest)) = ({ listed := [arg] }, '\x7d' :: rest) := by
  have hskip : skipBlank (' ' :: (text ++ '\x7d' :: rest)) = text ++ '\x7d' :: rest :=
    (List.dropWhile_cons_of_pos rfl).trans (h.skipBlank rest)
  rw [Arguments.read, hskip, h.keywordArgument?, h.argument?]
  dsimp only
  have hshorter : ('\x7d' :: rest).length < (' ' :: (text ++ '\x7d' :: rest)).length := by
    simp only [List.length_cons, List.length_append]
    omega
  rw [if_pos hshorter, read_nothing]

theorem call?_word (hw : IsWord w) : call? (w ++ '\x7d' :: rest)
    = some (⟨.ofName (String.ofList w), {}⟩, '\x7d' :: rest) := by
  rw [call?, hw.skipBlank, hw.name? rfl, Option.map_some]
  dsimp only
  rw [read_nothing]

theorem call?_argument (hw : IsWord w) (h : IsArgument text arg) :
    call? (w ++ ' ' :: (text ++ '\x7d' :: rest))
      = some (⟨.ofName (String.ofList w), { listed := [arg] }⟩, '\x7d' :: rest) := by
  rw [call?, hw.skipBlank, hw.name? rfl, Option.map_some]
  dsimp only
  rw [read_argument _ h]

end Calls

/-! ## Tags -/

/-- A text between braces that is this tag, whatever follows. -/
def IsTag (text : List Char) (tag : Tag) : Prop :=
  ∀ rest, tag? (text ++ '\x7d' :: '\x7d' :: rest) = some (tag, rest)

section Tags

variable {w text : List Char} {arg : Argument}

/-- A block is opened by a helper with its argument, -/
theorem isTag_opening (hw : IsWord w) (h : IsArgument text arg) :
    IsTag ('#' :: (w ++ ' ' :: text))
      (.opening ⟨.ofName (String.ofList w), { listed := [arg] }⟩) := by
  intro rest
  have hopening (t : List Char) : tag? ('#' :: t) = (call? t).bind fun p =>
      (afterBraces? p.2).bind fun r => some (.opening p.1, r) := rfl
  rw [List.cons_append, List.append_assoc, List.cons_append, hopening, call?_argument _ hw h]
  rfl

/-- and closed by the name of the helper. -/
theorem isTag_closing (hw : IsWord w) : IsTag ('/' :: w) (.closing (String.ofList w)) := by
  intro rest
  have hclosing (t : List Char) : tag? ('/' :: t) = (name? (skipBlank t)).bind fun p =>
      (afterBraces? p.2).bind fun r => some (.closing p.1, r) := rfl
  rw [List.cons_append, hclosing, hw.skipBlank, hw.name? rfl]
  rfl

theorem isTag_otherwise : IsTag ['e', 'l', 's', 'e'] .otherwise := fun _ => rfl

/-- A tag that is neither part of a block nor begins like the word between two branches. -/
theorem tag?_plain {c : Char} {t r : List Char} {tag : Tag} (hc : isLetter c = true)
    (helse : "else".toList.isPrefixOf (c :: t) = false)
    (h : expression? (c :: t) = some (tag, '\x7d' :: '\x7d' :: r)) :
    tag? (c :: t) = some (tag, r) := by
  have hplain : tag?.plain? (c :: t) = some (tag, r) := by
    rw [tag?.plain?, h]
    rfl
  rw [tag?, skipBlank_of_isLetter hc]
  split
  case h_5 => rw [helse, hplain]; rfl
  all_goals
    rename_i hhead
    obtain rfl := (List.cons.inj hhead).1
    cases hc

/-- **A word alone is a value to be shown**, if it is no helper and does not begin like the word
between two branches. -/
theorem isTag_shown (hw : IsWord w) (helse : ¬ "else".toList <+: w)
    (hhelper : (Helper.ofName (String.ofList w)).isKnown = false) :
    IsTag w (.value (memberOf w)) := by
  intro rest
  have hexpression : expression? (w ++ '\x7d' :: '\x7d' :: rest)
      = some (.value (memberOf w), '\x7d' :: '\x7d' :: rest) := by
    rw [expression?, call?_word _ hw]
    dsimp only
    rw [if_neg (by simp [Arguments.all, hhelper]), expression?.shown?, hw.skipBlank,
      path?_word hw rfl]
    rfl
  have hprefix : "else".toList.isPrefixOf (w ++ '\x7d' :: '\x7d' :: rest) = false := by
    rw [Bool.eq_false_iff, ne_eq, List.isPrefixOf_iff_prefix]
    exact fun h => helse (prefix_of_letters rfl (by decide) h)
  obtain ⟨c, t, rfl, hc⟩ := hw.cons
  exact tag?_plain hc hprefix hexpression

/-- A value that is shown as a literal is the argument of a helper. -/
theorem isTag_literal (h : IsArgument text arg) :
    IsTag ('p' :: 'y' :: ' ' :: text) (.call ⟨.literal, { listed := [arg] }⟩) := by
  intro rest
  refine tag?_plain rfl rfl ?_
  have hcall := call?_argument ('\x7d' :: rest) (w := ['p', 'y']) (by decide) h
  rw [List.cons_append, List.cons_append, List.nil_append] at hcall
  rw [List.append_eq, List.cons_append, List.cons_append, expression?, hcall]
  rfl

end Tags

end CrewChart.Template

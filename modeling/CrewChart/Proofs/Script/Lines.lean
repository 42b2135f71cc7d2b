import CrewChart.Proofs.Script.Printed

/-!
# The lines of a script, and what is outside its literals

A script is scanned from left to right: a double quote opens a literal, and the next one that no
backslash escapes closes it.  `outside` is what the scan leaves of the script, and there is nothing
if a literal is not closed on its line.

The argument runs over the parts of the script.  What they quote is passed by the scan in one step,
whatever it holds, and their code holds neither a quote nor a control character but the line breaks
of the layout.  So outside the literals is the code of the parts, and the lines of the script are
those of its code.

## What is here

* `outside` — what is left of a script without what is between quotes.
* `outside_spell` — outside the literals of a script is the code of its parts.
* `Lines` — parts whose code is of so many lines and opens no literal, with one law for each way to
  put parts together.
* `inline_text` — numbers can stand in code.
* `lines_scriptParts` — how many lines a script has, section by section.
-/

set_option autoImplicit false

namespace CrewChart.Script

open Json (Value)
open Plan (ToolEntry AgentEntry TaskEntry Credential)

/-! ## Scanning a script -/

/-- Where the scan of a script is: in code, in a literal, or after a backslash in a literal. -/
inductive Scan where
  | code
  | literal
  | escaped

/-- What ends a line. -/
def isLineBreak (c : Char) : Bool := c == '\n' || c == '\r'

/-- A script without what is between its double quotes.  There is nothing if some quote is not
closed on the line it is opened on. -/
def outside : Scan → List Char → Option (List Char)
  | .code, [] => some []
  | .code, c :: r => (outside (if c = '"' then .literal else .code) r).map (c :: ·)
  | .literal, c :: r =>
    if c = '"' then (outside .code r).map (c :: ·)
    else if c = '\\' then outside .escaped r
    else if isLineBreak c then none
    else outside .literal r
  | .escaped, c :: r => if isLineBreak c then none else outside .literal r
  | .literal, [] | .escaped, [] => none

/-- A part with what it quotes left out. -/
def Part.emptied : Part → Part
  | .code s => .code s
  | .quoted _ => .quoted ""

/-- The code of parts, without what they quote. -/
def codeChars (parts : List Part) : List Char :=
  parts.flatMap fun p => match p with
    | .code s => s.toList
    | .quoted _ => []

/-- A character that neither ends a line nor has to do with quotes. -/
def isInline (c : Char) : Bool := c != '"' && 0x20 ≤ c.toNat

/-- A character of the layout. -/
def isPlain (c : Char) : Bool := isInline c || c == '\n'

/-- A text that can stand in code as it is. -/
def Inline (s : String) : Prop := ∀ c ∈ s.toList, isInline c = true

/-- The code of these parts is of so many lines, and opens no literal. -/
structure Lines (n : Nat) (parts : List Part) : Prop where
  plain : ∀ c ∈ codeChars parts, isPlain c = true
  count : (codeChars parts).count '\n' = n

/-! ### A text between quotes is passed in one step -/

variable {s r : List Char}

theorem outside_literal {c : Char} (hquote : c ≠ '"') (hslash : c ≠ '\\')
    (hbreak : isLineBreak c = false) : outside .literal (c :: r) = outside .literal r := by
  rw [outside, if_neg hquote, if_neg hslash, hbreak, if_neg Bool.false_ne_true]

theorem outside_backslash {c : Char} (hbreak : isLineBreak c = false) :
    outside .literal ('\\' :: c :: r) = outside .literal r := by
  rw [outside, if_neg (by decide), if_pos rfl, outside, hbreak, if_neg Bool.false_ne_true]

/-- A character is escaped by a letter or by four digits, or stands for itself. -/
theorem escape_cases (c : Char) :
    (∃ l : Char, 0x20 ≤ l.toNat ∧ Json.escape c = ['\\', l]) ∨
    (∃ m < 16, ∃ n < 16,
      Json.escape c = ['\\', 'u', '0', '0', Json.hexDigit m, Json.hexDigit n]) ∨
    (c ≠ '"' ∧ c ≠ '\\' ∧ 0x20 ≤ c.toNat ∧ Json.escape c = [c]) := by
  generalize hescape : Json.escape c = escaped
  rw [Json.escape] at hescape
  split_ifs at hescape with hquote hslash _ _ _ _ _ hcontrol
  iterate 7 exact .inl ⟨_, by decide, hescape.symm⟩
  · exact .inr (.inl ⟨_, by omega, _, by omega, hescape.symm⟩)
  · exact .inr (.inr ⟨hquote, hslash, by omega, hescape.symm⟩)

/-- A hexadecimal digit has no meaning of its own in a literal. -/
theorem hexDigit_plain {n : Nat} (h : n < 16) :
    Json.hexDigit n ≠ '"' ∧ Json.hexDigit n ≠ '\\' ∧ 0x20 ≤ (Json.hexDigit n).toNat := by
  revert n
  decide

theorem isLineBreak_of_le {c : Char} (h : 0x20 ≤ c.toNat) : isLineBreak c = false := by
  have hn : c ≠ '\n' := by
    rintro rfl
    exact absurd h (by decide)
  have hr : c ≠ '\r' := by
    rintro rfl
    exact absurd h (by decide)
  rw [isLineBreak, beq_false_of_ne hn, beq_false_of_ne hr, Bool.or_false]

/-- What a character is escaped to is passed over. -/
theorem outside_escape (c : Char) : outside .literal (Json.escape c ++ r) = outside .literal r := by
  rcases escape_cases c with ⟨l, hl, h⟩ | ⟨m, hm, n, hn, h⟩ | ⟨hquote, hslash, hle, h⟩
  · rw [h]
    exact outside_backslash (isLineBreak_of_le hl)
  · obtain ⟨hquote, hslash, hle⟩ := hexDigit_plain hm
    obtain ⟨hquote', hslash', hle'⟩ := hexDigit_plain hn
    calc outside .literal (Json.escape c ++ r)
        = outside .literal ('0' :: '0' :: Json.hexDigit m :: Json.hexDigit n :: r) := by
          rw [h]
          exact outside_backslash rfl
      _ = outside .literal (Json.hexDigit m :: Json.hexDigit n :: r) := rfl
      _ = outside .literal r := by
          rw [outside_literal hquote hslash (isLineBreak_of_le hle),
            outside_literal hquote' hslash' (isLineBreak_of_le hle')]
  · rw [h]
    exact outside_literal hquote hslash (isLineBreak_of_le hle)

/-- **A text between quotes is passed in one step**, whatever it holds. -/
theorem outside_quoted (t : String) : outside .code (Json.quotedChars t ++ r)
    = (outside .code r).map ((Part.quoted "").chars ++ ·) := by
  have htext : outside .literal (t.toList.flatMap Json.escape ++ '"' :: r)
      = (outside .code r).map ('"' :: ·) := by
    induction t.toList with
    | nil => rfl
    | cons c t ih => rw [List.flatMap_cons, List.append_assoc, outside_escape, ih]
  have hopen : Json.quotedChars t ++ r = '"' :: (t.toList.flatMap Json.escape ++ '"' :: r) := by
    rw [Json.quotedChars, List.append_assoc]
    rfl
  rw [hopen, outside, if_pos rfl, htext, Option.map_map]
  rfl

/-- Code of the layout is kept. -/
theorem outside_code {cs : List Char} (hcs : ∀ c ∈ cs, isPlain c = true) :
    outside .code (cs ++ r) = (outside .code r).map (cs ++ ·) := by
  induction cs with
  | nil => exact (Option.map_id' ..).symm
  | cons c cs ih =>
    obtain ⟨hc, hcs⟩ := List.forall_mem_cons.1 hcs
    have hne : c ≠ '"' := by
      rintro rfl
      exact absurd hc (by decide)
    rw [List.cons_append, outside, if_neg hne, ih hcs, Option.map_map]
    rfl

/-- **Outside the literals of a script is the code of its parts.** -/
theorem outside_spell {parts : List Part} (h : ∀ c ∈ codeChars parts, isPlain c = true) :
    outside .code (spell parts) = some (spell (parts.map Part.emptied)) := by
  induction parts with
  | nil => rfl
  | cons p parts ih =>
    have hmore := ih fun c hc => h c (List.mem_append_right _ hc)
    cases p with
    | code s =>
      have hs : ∀ c ∈ s.toList, isPlain c = true := fun c hc => h c (List.mem_append_left _ hc)
      rw [spell_cons, Part.chars, outside_code hs, hmore]
      rfl
    | quoted t =>
      rw [spell_cons, Part.chars, outside_quoted, hmore]
      rfl

/-! ### The lines of a script are those of its code -/

/-- No control character is left by an escape. -/
theorem le_of_mem_escape {c d : Char} (h : d ∈ Json.escape c) : 0x20 ≤ d.toNat := by
  have hslash : 0x20 ≤ '\\'.toNat := by decide
  have hu : 0x20 ≤ 'u'.toNat := by decide
  have hzero : 0x20 ≤ '0'.toNat := by decide
  have hall : ∀ d ∈ Json.escape c, 0x20 ≤ d.toNat := by
    rcases escape_cases c with ⟨l, hl, hc⟩ | ⟨m, hm, n, hn, hc⟩ | ⟨-, -, hle, hc⟩
    · rw [hc, List.forall_mem_cons, List.forall_mem_singleton]
      exact ⟨hslash, hl⟩
    · rw [hc]
      iterate 5 rw [List.forall_mem_cons]
      rw [List.forall_mem_singleton]
      exact ⟨hslash, hu, hzero, hzero, (hexDigit_plain hm).2.2, (hexDigit_plain hn).2.2⟩
    · rw [hc, List.forall_mem_singleton]
      exact hle
  exact hall d h

theorem le_of_mem_quotedChars {t : String} {c : Char} (h : c ∈ Json.quotedChars t) :
    0x20 ≤ c.toNat := by
  rw [Json.quotedChars, List.mem_append, List.mem_cons, List.mem_singleton] at h
  rcases h with (rfl | h) | rfl
  · decide
  · obtain ⟨d, -, hc⟩ := List.mem_flatMap.1 h
    exact le_of_mem_escape hc
  · decide

/-- What is quoted ends no line. -/
theorem count_newline_spell (parts : List Part) :
    (spell parts).count '\n' = (codeChars parts).count '\n' := by
  induction parts with
  | nil => rfl
  | cons p parts ih =>
    rw [spell_cons, List.count_append, ih]
    cases p with
    | code s => exact List.count_append.symm
    | quoted t =>
      have hnone : (Json.quotedChars t).count '\n' = 0 :=
        List.count_eq_zero.2 fun h => absurd (le_of_mem_quotedChars h) (by decide)
      rw [Part.chars, hnone, Nat.zero_add]
      rfl

/-- The line breaks of the layout are the only control characters. -/
theorem eq_newline_of_mem_spell {parts : List Part}
    (h : ∀ c ∈ codeChars parts, isPlain c = true) {c : Char} (hc : c ∈ spell parts)
    (hcontrol : c.toNat < 0x20) : c = '\n' := by
  obtain ⟨p, hp, hc⟩ := List.mem_flatMap.1 hc
  cases p with
  | code s =>
    have hplain := h c (List.mem_flatMap.2 ⟨_, hp, hc⟩)
    rw [isPlain, isInline, Bool.or_eq_true, Bool.and_eq_true, decide_eq_true_eq] at hplain
    rcases hplain with ⟨-, hle⟩ | hnewline
    · omega
    · exact beq_iff_eq.1 hnewline
  | quoted t => exact absurd (le_of_mem_quotedChars hc) (by omega)

/-! ## The lines of parts

One law for each way to put parts together.  The layout is read off by computation; what a plan puts
into it has no line break. -/

section Lines

variable {m n : Nat} {parts rest : List Part}

theorem Lines.nil : Lines 0 [] := ⟨fun _ h => absurd h List.not_mem_nil, rfl⟩

theorem Lines.append (hparts : Lines m parts) (h : Lines n rest) :
    Lines (m + n) (parts ++ rest) := by
  have hcode : codeChars (parts ++ rest) = codeChars parts ++ codeChars rest :=
    List.flatMap_append
  refine ⟨fun c hc => ?_, ?_⟩
  · rw [hcode] at hc
    exact (List.mem_append.1 hc).elim (hparts.plain c) (h.plain c)
  · rw [hcode, List.count_append, hparts.count, h.count]

theorem Lines.quoted {t : String} (h : Lines n rest) : Lines n (.quoted t :: rest) :=
  ⟨h.plain, h.count⟩

theorem Lines.cast (h : Lines m parts) (hmn : m = n) : Lines n parts := hmn ▸ h

/-- Parts of no line go in front of others. -/
theorem Lines.before (hparts : Lines 0 parts) (h : Lines n rest) : Lines n (parts ++ rest) := by
  have hboth := hparts.append h
  rwa [Nat.zero_add] at hboth

theorem Lines.cons {s : String} (hs : ∀ c ∈ s.toList, isPlain c = true) (h : Lines n rest) :
    Lines (n + s.toList.count '\n') (.code s :: rest) := by
  refine ⟨fun c hc => ?_, ?_⟩
  · exact (List.mem_append.1 hc).elim (hs c) (h.plain c)
  · rw [← h.count, Nat.add_comm]
    exact List.count_append

/-- Code of the layout, with `k` line breaks. -/
theorem Lines.code (k : Nat) {cs : List Char}
    (hcs : (cs.all isPlain && cs.count '\n' == k) = true) (h : Lines n rest) :
    Lines (n + k) (.code (String.ofList cs) :: rest) := by
  obtain ⟨hplain, hcount⟩ := Bool.and_eq_true_iff.1 hcs
  have hcode := Lines.cons (s := String.ofList cs)
    (by rw [String.toList_ofList]; exact List.all_eq_true.1 hplain) h
  rwa [String.toList_ofList, beq_iff_eq.1 hcount] at hcode

theorem Inline.count_newline {s : String} (hs : Inline s) : s.toList.count '\n' = 0 :=
  List.count_eq_zero.2 fun hc => absurd (hs _ hc) (by decide)

theorem Inline.isPlain {s : String} (hs : Inline s) : ∀ c ∈ s.toList, isPlain c = true :=
  fun c hc => by rw [Script.isPlain, hs c hc, Bool.true_or]

/-- Code that the plan puts in. -/
theorem Lines.inline {s : String} (hs : Inline s) (h : Lines n rest) :
    Lines n (.code s :: rest) := by
  have hcode := Lines.cons hs.isPlain h
  rwa [hs.count_newline] at hcode

theorem Lines.endOfLine {s : String} (hs : Inline s) (h : Lines n rest) :
    Lines (n + 1) (.code (s ++ "\n") :: rest) := by
  have hcode := Lines.cons (s := s ++ "\n") (fun c hc => ?_) h
  · rwa [String.toList_append, List.count_append, hs.count_newline, Nat.zero_add] at hcode
  · rw [String.toList_append] at hc
    rcases List.mem_append.1 hc with hc | hc
    · exact hs.isPlain c hc
    · exact List.mem_singleton.1 hc ▸ rfl

theorem Lines.flatMap {α : Type} {l : List α} {out : α → List Part}
    (h : ∀ a ∈ l, Lines n (out a)) : Lines (n * l.length) (l.flatMap out) := by
  induction l with
  | nil => exact .nil
  | cons a l ih =>
    obtain ⟨ha, hl⟩ := List.forall_mem_cons.1 h
    have hboth := ha.append (ih hl)
    rwa [Nat.add_comm, ← Nat.mul_succ] at hboth

end Lines

/-! ### Texts that can stand in code -/

theorem isInline_of_isNamePart {c : Char} (h : isNamePart c = true) : isInline c = true := by
  obtain ⟨hle, -⟩ := toNat_of_isNamePart h
  have hne : c ≠ '"' := by
    rintro rfl
    exact absurd hle (by decide)
  rw [isInline, bne_iff_ne.2 hne, Bool.true_and]
  exact decide_eq_true (by omega)

theorem inline_of_isName {name : String} (h : isName name = true) : Inline name :=
  fun c hc => isInline_of_isNamePart ((Plan.isNamePart_of_isName h).2 c hc)

theorem inline_ofList {cs : List Char} (h : cs.all isInline = true) :
    Inline (String.ofList cs) := by
  rw [Inline, String.toList_ofList]
  exact List.all_eq_true.1 h

theorem Inline.append {s t : String} (hs : Inline s) (ht : Inline t) : Inline (s ++ t) := by
  intro c hc
  rw [String.toList_append] at hc
  exact (List.mem_append.1 hc).elim (hs c) (ht c)

theorem inline_toString (n : Nat) : Inline (toString n) := by
  intro c hc
  rw [show (toString n).toList = Nat.toDigits 10 n from Nat.toList_repr] at hc
  have hdigit := Nat.isDigit_of_mem_toDigits (by decide) (by decide) hc
  refine isInline_of_isNamePart ?_
  rw [isNamePart, Bool.or_eq_true]
  exact .inr hdigit

/-- A decimal is digits, a point, an exponent and signs, in each of its forms. -/
theorem inline_layout {ds : String} (hds : Inline ds) (place : Int) :
    Inline (Json.Number.layout ds place) := by
  have htake : ∀ k, Inline (ds.take k).toString := fun k c hc => by
    rw [show ((ds.take k).toString).toList = ds.toList.take k from String.toList_copy_take] at hc
    exact hds c (List.mem_of_mem_take hc)
  have hdrop : ∀ k, Inline (ds.drop k).toString := fun k c hc => by
    rw [show ((ds.drop k).toString).toList = ds.toList.drop k from String.toList_copy_drop] at hc
    exact hds c (List.mem_of_mem_drop hc)
  have hzeros : ∀ k, Inline (String.ofList (List.replicate k '0')) := fun k =>
    inline_ofList (List.all_eq_true.2 fun c hc => by rw [List.eq_of_mem_replicate hc]; rfl)
  have hmantissa : Inline (if (ds.drop 1).toString.isEmpty then "" else
      "." ++ (ds.drop 1).toString) := by
    split_ifs
    · exact inline_ofList rfl
    · exact (inline_ofList rfl).append (hdrop 1)
  have hsign : ∀ lead : Int, Inline (if 0 ≤ lead then "+" else "-") := fun lead => by
    split_ifs
    · exact inline_ofList rfl
    · exact inline_ofList rfl
  have hpoint : Inline "." := inline_ofList rfl
  have he : Inline "e" := inline_ofList rfl
  have hzero : Inline ".0" := inline_ofList rfl
  have hnought : Inline "0." := inline_ofList rfl
  rw [Json.Number.layout]
  dsimp only
  -- scientific, whole, with a point inside, and below one
  split
  · exact ((((htake 1).append hmantissa).append he).append (hsign _)).append (inline_toString _)
  · split
    · exact (hds.append (hzeros _)).append hzero
    · split
      · exact ((htake _).append hpoint).append (hdrop _)
      · exact (hnought.append (hzeros _)).append hds

/-- Numbers can stand in code. -/
theorem inline_text (n : Json.Number) : Inline n.text := by
  cases n with
  | integer n fits =>
    cases n with
    | ofNat n => exact inline_toString n
    | negSucc n =>
      have hsigned : Inline ("-" ++ toString (n + 1)) :=
        (inline_ofList rfl).append (inline_toString (n + 1))
      exact hsigned
  | float x =>
    have hsign : Inline (if x.negative then "-" else "") := by
      split_ifs
      · exact inline_ofList rfl
      · exact inline_ofList rfl
    exact hsign.append (inline_layout (inline_toString _) _)

mutual

/-- A literal is all on one line. -/
theorem lines_literalParts : ∀ v : Value, Lines 0 (literalParts v)
  | .null | .boolean true | .boolean false | .array [] | .object [] => .code 0 rfl .nil
  | .number n => .inline (inline_text n) .nil
  | .string _ => .quoted .nil
  | .array (v :: rest) =>
    .before (.before (.code 0 rfl (lines_literalParts v)) (lines_itemParts rest)) (.code 0 rfl .nil)
  | .object ((_, v) :: rest) =>
    .before (.before (.code 0 rfl (.quoted (.code 0 rfl (lines_literalParts v))))
      (lines_memberParts rest)) (.code 0 rfl .nil)

theorem lines_itemParts : ∀ items : List Value, Lines 0 (itemParts items)
  | [] => .nil
  | v :: rest => .before (.code 0 rfl (lines_literalParts v)) (lines_itemParts rest)

theorem lines_memberParts : ∀ members : List (String × Value), Lines 0 (memberParts members)
  | [] => .nil
  | (_, v) :: rest =>
    .before (.code 0 rfl (.quoted (.code 0 rfl (lines_literalParts v)))) (lines_memberParts rest)

end

/-! ### Sections -/

section Sections

variable {n : Nat}

/-- A keyword argument is a line. -/
theorem lines_keywordParts {keyword ending : List Char} (v : Value)
    (hkeyword : keyword.all isInline = true) (hending : ending.all isInline = true) :
    Lines 1 (keywordParts (String.ofList keyword) v (String.ofList ending)) := by
  have hname : Inline ("        " ++ String.ofList keyword ++ "=") :=
    ((inline_ofList rfl).append (inline_ofList hkeyword)).append (inline_ofList rfl)
  exact .before (.inline hname (lines_literalParts v)) (.endOfLine (inline_ofList hending) .nil)

/-- A tool of one's own takes six lines, any other a single one. -/
theorem lines_toolParts {t : ToolEntry}
    (hclass : ∀ name, t.making.class? = some name → isName name = true) :
    Lines (if t.making.isCustom then 6 else 1) (toolParts t) := by
  rw [toolParts]
  cases hmaking : t.making with
  | library className =>
    have hname : Inline className := inline_of_isName (hclass _ (by rw [hmaking]; rfl))
    have hid : Lines 0 [.code "    ", .quoted t.id, .code ": ", .code className, .code "("] :=
      .code 0 rfl (.quoted (.code 0 rfl (.inline hname (.code 0 rfl .nil))))
    have hconfiguration : Lines 0 (if t.configuration = [] then [] else
        .code "**" :: literalParts (.object t.configuration)) := by
      split_ifs
      · exact .nil
      · exact .code 0 rfl (lines_literalParts _)
    exact .before (.before hid hconfiguration) (.code 1 rfl .nil)
  | custom =>
    have hid : Lines 1 [.code "    ", .quoted t.id, .code ": Tool(\n"] :=
      .code 0 rfl (.quoted (.code 1 rfl .nil))
    have hconfiguration : Lines 2
        (.code "        **" :: literalParts (.object t.configuration) ++ [.code "\n    ),\n"]) :=
      .before (.code 0 rfl (lines_literalParts _)) (.code 2 rfl .nil)
    exact (((hid.append (lines_keywordParts _ rfl rfl)).append
      (lines_keywordParts _ rfl rfl)).append
      (lines_keywordParts _ rfl rfl)).append hconfiguration
  | skipped reason =>
    have hreason : Lines 0 (reasonParts reason) := by
      cases reason with
      | noType => exact .code 0 rfl .nil
      | unsupported toolType => exact .code 0 rfl (.quoted .nil)
    exact .before (.before (.code 0 rfl (.quoted (.code 0 rfl .nil))) hreason) (.code 1 rfl .nil)

theorem lines_toolListParts (keys : List String) : Lines 0 (toolListParts keys) := by
  have hused : ∀ key, Lines 0 (usedParts key) := fun key =>
    .code 0 rfl (.quoted (.code 0 rfl .nil))
  cases keys with
  | nil => exact .nil
  | cons key keys =>
    refine .before (hused key) ?_
    have hmore := Lines.flatMap (l := keys) (n := 0) fun key _ =>
      show Lines 0 (.code ", " :: usedParts key) from .code 0 rfl (hused key)
    rwa [Nat.zero_mul] at hmore

theorem lines_agentParts (a : AgentEntry) : Lines 9 (agentParts a) := by
  have hid : Lines 1 [.code "    ", .quoted a.id, .code ": Agent(\n"] :=
    .code 0 rfl (.quoted (.code 1 rfl .nil))
  have htools : Lines 1 (.code "        tools=[" :: toolListParts a.tools ++ [.code "]\n"]) :=
    .before (.code 0 rfl (lines_toolListParts _)) (.code 1 rfl .nil)
  exact (((((((hid.append (lines_keywordParts _ rfl rfl)).append
    (lines_keywordParts _ rfl rfl)).append (lines_keywordParts _ rfl rfl)).append
    (lines_keywordParts _ rfl rfl)).append (lines_keywordParts _ rfl rfl)).append
    (lines_keywordParts _ rfl rfl)).append htools).append (.code 1 rfl .nil)

theorem lines_taskParts (t : TaskEntry) : Lines 7 (taskParts t) := by
  have hid : Lines 1 [.code "    ", .quoted t.id, .code ": Task(\n"] :=
    .code 0 rfl (.quoted (.code 1 rfl .nil))
  have hagent : Lines 0 (taskAgentParts t.agent) := by
    rw [taskAgentParts]
    cases filled t.agent with
    | none => exact .code 0 rfl .nil
    | some key => exact .code 0 rfl (.quoted (.code 0 rfl .nil))
  have hline : Lines 1 (.code "        agent=" :: taskAgentParts t.agent ++ [.code ",\n"]) :=
    .before (.code 0 rfl hagent) (.code 1 rfl .nil)
  exact (((((hid.append (lines_keywordParts _ rfl rfl)).append
    (lines_keywordParts _ rfl rfl)).append hline).append
    (lines_keywordParts _ rfl rfl)).append (lines_keywordParts _ rfl rfl)).append
    (.code 1 rfl .nil)

theorem lines_tools {tools : List ToolEntry}
    (h : ∀ t ∈ tools, ∀ name, t.making.class? = some name → isName name = true) :
    Lines (tools.countP (fun t => !t.making.isCustom) + 6 * tools.countP fun t => t.making.isCustom)
      (tools.flatMap toolParts) := by
  induction tools with
  | nil => exact .nil
  | cons t tools ih =>
    obtain ⟨ht, htools⟩ := List.forall_mem_cons.1 h
    have hboth := (lines_toolParts ht).append (ih htools)
    refine hboth.cast ?_
    rw [List.countP_cons, List.countP_cons]
    cases t.making.isCustom with
    | true =>
      show 6 + _ = _ + 0 + 6 * (_ + 1)
      omega
    | false =>
      show 1 + _ = _ + 1 + 6 * (_ + 0)
      omega

theorem lines_sectionParts {α : Type} {heading ending : String} {parts : α → List Part}
    {entries : List α} {m k : Nat} (hheading : Lines m [.code heading])
    (hentries : Lines n (entries.flatMap parts)) (hending : Lines k [.code ending]) :
    Lines (m + n + k) (sectionParts heading parts entries ending) :=
  (hheading.append hentries).append hending

theorem inline_intercalate {names : List String} (h : ∀ name ∈ names, Inline name) :
    Inline (", ".intercalate names) := by
  induction names with
  | nil => exact inline_ofList rfl
  | cons name names ih =>
    obtain ⟨hname, hnames⟩ := List.forall_mem_cons.1 h
    cases names with
    | nil =>
      rw [String.intercalate_singleton]
      exact hname
    | cons next names =>
      have hcomma : Inline ", " := inline_ofList rfl
      rw [String.intercalate_cons_cons]
      exact (hname.append hcomma).append (ih hnames)

end Sections

/-- How many lines the script of a plan has: those of the layout, and those of its entries. -/
def lineCount (p : Plan) : Nat :=
  28 + (if p.imports = [] then 0 else 1) + (if p.usesCustomTool then 1 else 0)
    + p.credentials.length
    + (p.tools.countP (fun t => !t.making.isCustom) + 6 * p.tools.countP fun t => t.making.isCustom)
    + 9 * p.agents.length + 7 * p.tasks.length

variable {p : Plan}

theorem lines_importParts (hp : Printable p) :
    Lines (3 + (if p.imports = [] then 0 else 1) + (if p.usesCustomTool then 1 else 0))
      (importParts p) := by
  have htext : Inline p.importText := by
    refine inline_intercalate fun name hname => ?_
    rw [hp.imports] at hname
    obtain ⟨t, ht, hclass⟩ := Plan.mem_importsOf_iff.1 hname
    exact inline_of_isName (hp.className t ht name hclass)
  have himports : Lines (if p.imports = [] then 0 else 1) (if p.imports = [] then [] else
      [.code "from crewai_tools import ", .code p.importText, .code "\n"]) := by
    split_ifs
    · exact .nil
    · exact .code 0 rfl (.inline htext (.code 1 rfl .nil))
  have hcustom : Lines (if p.usesCustomTool then 1 else 0) (if p.usesCustomTool then
      [.code "from langchain_core.tools import Tool\n"] else []) := by
    split_ifs
    · exact .code 1 rfl .nil
    · exact .nil
  have hlast : Lines 2 [.code "import os\n\n"] := .code 2 rfl .nil
  refine (Lines.code 1 rfl (himports.append (hcustom.append hlast))).cast ?_
  omega

theorem lines_crewParts : Lines 8 (crewParts p) := by
  have hopen : Lines 4 [.code ("# Create crew\ncrew = Crew(\n    agents=list(agents.values()),\n"
      ++ "    tasks=list(tasks.values()),\n    process=Process.")] := by
    rw [← String.ofList_append]
    exact .code 4 rfl .nil
  have hname : Inline p.process.name := by
    cases p.process with
    | sequential => exact inline_ofList rfl
    | parallel => exact inline_ofList rfl
  exact hopen.append (.inline hname (.code 1 rfl (.quoted (.code 3 rfl .nil))))

theorem lines_kickoffParts : Lines 3 kickoffParts :=
  .code 2 rfl (.code 0 rfl (.quoted (.code 1 rfl .nil)))

theorem lines_credentials (credentials : List Credential) :
    Lines (1 * credentials.length) (credentials.flatMap credentialParts) :=
  Lines.flatMap fun _ _ => .code 0 rfl (.quoted (.code 0 rfl (.quoted (.code 1 rfl .nil))))

/-- **The lines of a script.** -/
theorem lines_scriptParts (hp : Printable p) : Lines (lineCount p) (scriptParts p) := by
  have hcredentials : Lines _ (credentialSection p) :=
    lines_sectionParts (.code 1 rfl .nil) (lines_credentials p.credentials) (.code 1 rfl .nil)
  have htools : Lines _ (toolSection p) :=
    lines_sectionParts (.code 2 rfl .nil) (lines_tools hp.className) (.code 2 rfl .nil)
  have hagents : Lines _ (agentSection p) :=
    lines_sectionParts (.code 2 rfl .nil) (Lines.flatMap fun a _ => lines_agentParts a)
      (.code 2 rfl .nil)
  have htasks : Lines _ (taskSection p) :=
    lines_sectionParts (.code 2 rfl .nil) (Lines.flatMap fun t _ => lines_taskParts t)
      (.code 2 rfl .nil)
  refine Lines.cast ((((((lines_importParts hp).append hcredentials).append htools).append
    hagents).append htasks).append lines_crewParts |>.append lines_kickoffParts) ?_
  rw [lineCount]
  omega

end CrewChart.Script

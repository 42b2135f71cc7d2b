import CrewChart.Script.Literal
import CrewChart.Proofs.Json.NumberText
import CrewChart.Proofs.Json.Written
import CrewChart.Proofs.Script.Lines

/-!
# Literals denote the values they come from

The script is read by Python, so what a literal means is what Python reads from it.  `readLiteral`
reads the literals that values have there: the three words, numbers, strings between double quotes
with their escapes, lists and dicts, with blanks before an item and perhaps a comma after the last.
Inside a string only the escapes count that the writer uses; in particular a backslash before a
slash is none, other than in JSON.  A dict is read with its members in the order they are written.

## What is here

* `readLiteral` — the reader.
* `stringTail?_quoted`, `number?_text` — strings and numbers are read back.
* `denotes` — so is every value, whatever follows it.
* `bareQuotes` — the double quotes that no backslash escapes.
* `literals_denote` — the reader takes every literal back to its value, and the bare quotes of a
  string are the two around it.
-/

set_option autoImplicit false

namespace CrewChart.Script

open Json (Value Number FitsWord)

/-! ## Reading literals -/

section Reader

/-- The character after a backslash, or after `\u` the one of four hexadecimal digits. -/
def escape? : List Char → Option (Char × List Char)
  | '"' :: s => some ('"', s)
  | '\\' :: s => some ('\\', s)
  | 'b' :: s => some ('\x08', s)
  | 'f' :: s => some ('\x0c', s)
  | 'n' :: s => some ('\n', s)
  | 'r' :: s => some ('\r', s)
  | 't' :: s => some ('\t', s)
  | 'u' :: s => do
    let n ← Json.hexFour? s
    if n.isValidChar then some (Char.ofNat n, s.drop 4) else none
  | _ => none

/-- An escape takes at least one character. -/
theorem escape?_length {s r : List Char} {c : Char} (h : escape? s = some (c, r)) :
    r.length < s.length := by
  unfold escape? at h
  split at h
  case h_8 s =>
    obtain ⟨n, -, hn⟩ := Option.bind_eq_some_iff.mp h
    split_ifs at hn
    cases hn
    simp only [List.length_drop, List.length_cons]
    omega
  case h_9 => cases h
  all_goals
    cases h
    exact Nat.lt_succ_self _

/-- A string after its opening quote. -/
def stringTail? (s : List Char) : Option (List Char × List Char) :=
  match s with
  | [] => none
  | c :: s =>
    if c = '"' then some ([], s)
    else if c = '\\' then
      match h : escape? s with
      | none => none
      | some (d, r) =>
        have := escape?_length h
        (stringTail? r).map fun (t, r) => (d :: t, r)
    else if c.toNat < 0x20 then none
    else (stringTail? s).map fun (t, r) => (c :: t, r)
termination_by s.length

def isNumberChar (c : Char) : Bool :=
  Decimal.isDigit c || c == '-' || c == '+' || c == '.' || c == 'e' || c == 'E'

/-- Whole digits are an integer; every other number is taken to the nearest binary64 number. -/
def number? (s : String) : Option Number :=
  match Decimal.integer? s with
  | some n => if h : FitsWord n then some (.integer n h) else none
  | none => do
    let (negative, d) ← Decimal.parse? s
    let x ← Decimal.nearest? negative d
    some (.float x)

def word? : List Char → Option (Value × List Char)
  | 'N' :: 'o' :: 'n' :: 'e' :: s => some (.null, s)
  | 'T' :: 'r' :: 'u' :: 'e' :: s => some (.boolean true, s)
  | 'F' :: 'a' :: 'l' :: 's' :: 'e' :: s => some (.boolean false, s)
  | _ => none

mutual

/-- A value at the front of a text, and what follows it. -/
def value? (s : List Char) : Option (Value × List Char) :=
  match s with
  | [] => none
  | c :: r =>
    if c = '"' then (stringTail? r).map fun (t, r) => (.string (String.ofList t), r)
    else if c = '[' then
      have := Json.skipBlank_length r
      (items? (Json.skipBlank r)).map fun (vs, r) => (.array vs, r)
    else if c = '\x7b' then
      have := Json.skipBlank_length r
      (members? (Json.skipBlank r)).map fun (ms, r) => (.object ms, r)
    else if isNumberChar c then
      (number? (String.ofList ((c :: r).takeWhile isNumberChar))).map fun n =>
        (.number n, (c :: r).dropWhile isNumberChar)
    else word? (c :: r)
termination_by (s.length, 0)
decreasing_by all_goals simp_wf; omega

/-- The items of a list after its bracket or a comma. -/
def items? (s : List Char) : Option (List Value × List Char) :=
  match s with
  | [] => none
  | c :: s =>
    if c = ']' then some ([], s)
    else
      match value? (c :: s) with
      | some (v, d :: r) =>
        if d = ']' then some ([v], r)
        else if d = ',' ∧ (Json.skipBlank r).length ≤ s.length then
          (items? (Json.skipBlank r)).map fun (vs, r) => (v :: vs, r)
        else none
      | _ => none
termination_by (s.length, 1)
decreasing_by all_goals simp_wf; omega

/-- The members of a dict after its brace or a comma. -/
def members? (s : List Char) : Option (List (String × Value) × List Char) :=
  match s with
  | [] => none
  | c :: s =>
    if c = '\x7d' then some ([], s)
    else if c = '"' then
      match stringTail? s with
      | some (k, d :: t) =>
        if d = ':' ∧ (Json.skipBlank t).length ≤ s.length then
          match value? (Json.skipBlank t) with
          | some (v, e :: r) =>
            if e = '\x7d' then some ([(String.ofList k, v)], r)
            else if e = ',' ∧ (Json.skipBlank r).length ≤ s.length then
              (members? (Json.skipBlank r)).map fun (ms, r) => ((String.ofList k, v) :: ms, r)
            else none
          | _ => none
        else none
      | _ => none
    else none
termination_by (s.length, 1)
decreasing_by all_goals simp_wf; omega

end

/-- The value of a text that is one literal. -/
def readLiteral (text : String) : Option Value :=
  match value? text.toList with
  | some (v, []) => some v
  | _ => none

end Reader

/-! ## Strings and numbers are read back -/

section Scalars

variable {rest : List Char}

theorem stringTail?_escape_of {s : List Char} {c : Char} (h : escape? s = some (c, rest)) :
    stringTail? ('\\' :: s) = (stringTail? rest).map fun (t, r) => (c :: t, r) := by
  rw [stringTail?, if_neg (by decide), if_pos rfl]
  split
  · rename_i hnone
    rw [h] at hnone
    cases hnone
  · rename_i hsome
    rw [h] at hsome
    cases hsome
    rfl

/-- A control character is written as a code of four digits, and read back from it. -/
theorem escape?_control {c : Char} (h : c.toNat < 0x20) (rest : List Char) :
    escape? ('u' :: '0' :: '0' :: Json.hexDigit (c.toNat / 16) :: Json.hexDigit (c.toNat % 16)
      :: rest) = some (c, rest) := by
  have hvalid : c.toNat.isValidChar := .inl (by omega)
  rw [escape?, Json.hexFour?_control h]
  simp only [Option.bind_eq_bind, Option.bind_some, if_pos hvalid, Char.ofNat_toNat]
  rfl

/-- What a character is escaped to is read as that character. -/
theorem stringTail?_escape (c : Char) (rest : List Char) :
    stringTail? (Json.escape c ++ rest) = (stringTail? rest).map fun (t, r) => (c :: t, r) := by
  rw [Json.escape]
  split_ifs with hquote hslash _ _ _ _ _ hcontrol
  iterate 7
    · subst c
      exact stringTail?_escape_of rfl
  · exact stringTail?_escape_of (escape?_control hcontrol rest)
  · rw [List.singleton_append, stringTail?, if_neg hquote, if_neg hslash, if_neg hcontrol]

/-- A quoted text is read back, up to its closing quote and no further. -/
theorem stringTail?_quoted (s rest : List Char) :
    stringTail? (s.flatMap Json.escape ++ '"' :: rest) = some (s, rest) := by
  induction s with
  | nil => rw [List.flatMap_nil, List.nil_append, stringTail?, if_pos rfl]
  | cons c s ih => rw [List.flatMap_cons, List.append_assoc, stringTail?_escape, ih]; rfl

theorem isNumberChar_of_isDigit {c : Char} (h : Decimal.isDigit c = true) :
    isNumberChar c = true := by
  simp [isNumberChar, h]

theorem mem_of_signed {s : List Char} {c : Char} (hc : c ∈ s) :
    c = '+' ∨ c = '-' ∨ c ∈ (Decimal.signed s).2 := by
  unfold Decimal.signed
  split
  · exact (List.mem_cons.mp hc).imp_right .inr
  · exact .inr (List.mem_cons.mp hc)
  · exact .inr (.inr hc)

/-- A power of ten has only characters of numbers, if it can be read as one. -/
theorem isNumberChar_of_mem_power {power : List Char} {e : Int}
    (h : Decimal.exponent? power = some e) {c : Char} (hc : c ∈ power) : isNumberChar c = true := by
  cases power with
  | nil => exact absurd hc List.not_mem_nil
  | cons d s =>
    rw [Decimal.exponent?] at h
    split_ifs at h with hd
    obtain ⟨negative, ds, hsigned⟩ : ∃ b ds, Decimal.signed s = (b, ds) := ⟨_, _, rfl⟩
    have hdigits : ds.all Decimal.isDigit = true := by
      by_contra hnone
      rw [hsigned] at h
      simp [hnone] at h
    obtain rfl | hc := List.mem_cons.mp hc
    · obtain rfl | rfl := hd <;> rfl
    · obtain rfl | rfl | hc := mem_of_signed hc
      · rfl
      · rfl
      · rw [hsigned] at hc
        exact isNumberChar_of_isDigit (List.all_eq_true.mp hdigits c hc)

theorem isNumberChar_of_mem_signText {negative : Bool} {c : Char}
    (hc : c ∈ Decimal.signText negative) : isNumberChar c = true := by
  rw [Decimal.signText] at hc
  split_ifs at hc
  · rw [List.mem_singleton.mp hc]
    rfl
  · exact absurd hc List.not_mem_nil

theorem isNumberChar_of_mem_spelling {p : Decimal.Spelling} {c : Char} (hc : c ∈ p.text) :
    isNumberChar c = true := by
  rw [Decimal.Spelling.text, Decimal.pointText, List.mem_append, List.mem_append] at hc
  obtain hc | hc | hc := hc
  · exact isNumberChar_of_isDigit (p.isDigit_whole c hc)
  · split_ifs at hc
    · exact absurd hc List.not_mem_nil
    · obtain rfl | hc := List.mem_cons.mp hc
      · rfl
      · exact isNumberChar_of_isDigit (p.isDigit_fraction c hc)
  · exact isNumberChar_of_mem_power p.exponent?_power hc

/-- A number is one run of the characters of numbers. -/
theorem isNumberChar_of_mem_text {n : Number} {c : Char} (hc : c ∈ n.text.toList) :
    isNumberChar c = true := by
  cases n with
  | integer n fits =>
    rw [Number.text, Decimal.toString_eq_signText, String.toList_ofList] at hc
    exact (List.mem_append.mp hc).elim isNumberChar_of_mem_signText fun hc =>
      isNumberChar_of_isDigit (Decimal.isDigit_of_mem_toDigits hc)
  | float x =>
    obtain ⟨p, htext, -⟩ := Number.exists_spelling_floatText x
    rw [Number.text, htext, String.toList_ofList] at hc
    exact (List.mem_append.mp hc).elim isNumberChar_of_mem_signText isNumberChar_of_mem_spelling

/-- **A number is read back from its text.**  An integer has neither point nor power, so it is not
taken for a binary64 number; every other number is the nearest to its text. -/
theorem number?_text (n : Number) : number? n.text = some n := by
  cases n with
  | integer n fits =>
    rw [Number.text, number?, Decimal.integer?_toString]
    dsimp only
    rw [dif_pos fits]
  | float x =>
    obtain ⟨p, htext, hfractional, hnearest⟩ := Number.exists_spelling_floatText x
    rw [Number.text, htext, number?, p.integer?_text hfractional]
    simp only [p.parse?_text, hnearest, Option.bind_eq_bind, Option.bind_some]

end Scalars

/-! ## Values are read back -/

/-- Nothing here goes on with a number. -/
def EndsNumber (rest : List Char) : Prop := ∀ c ∈ rest.head?, isNumberChar c = false

/-- The literal of `v` is read back in front of everything that does not go on with a number. -/
def Denotes (v : Value) : Prop :=
  ∀ rest, EndsNumber rest → value? (literalChars v ++ rest) = some (v, rest)

section Values

variable {rest : List Char}

theorem endsNumber_cons {c : Char} (h : isNumberChar c = false) (s : List Char) :
    EndsNumber (c :: s) := by
  rintro d ⟨⟩
  exact h

/-- A value that starts with a quote is a string. -/
theorem value?_quotedChars (s : String) (rest : List Char) :
    value? (Json.quotedChars s ++ rest) = some (.string s, rest) := by
  rw [Json.Reader.quotedChars_append, value?, if_pos rfl, stringTail?_quoted, Option.map_some]
  dsimp only
  rw [String.ofList_toList]

theorem text_ne_nil (n : Number) : n.text.toList ≠ [] := by
  intro hnil
  have htext := number?_text n
  rw [String.toList_eq_nil_iff.mp hnil, show number? "" = none from rfl] at htext
  cases htext

/-- A number ends where something follows that cannot be part of one. -/
theorem value?_number (n : Number) (hrest : EndsNumber rest) :
    value? (n.text.toList ++ rest) = some (.number n, rest) := by
  have hall : ∀ c ∈ n.text.toList, isNumberChar c = true := fun c => isNumberChar_of_mem_text
  obtain ⟨c, s, hs⟩ := List.exists_cons_of_ne_nil (text_ne_nil n)
  have hc : isNumberChar c = true := hall c (hs ▸ List.mem_cons_self)
  have hne (d : Char) (hd : isNumberChar d = false) : c ≠ d := by
    rintro rfl
    rw [hc] at hd
    cases hd
  -- no character of a number starts anything else
  rw [hs, List.cons_append, value?, if_neg (hne _ rfl), if_neg (hne _ rfl), if_neg (hne _ rfl),
    if_pos hc, ← List.cons_append, ← hs, Decimal.takeWhile_run hall hrest,
    Decimal.dropWhile_run hall hrest, String.ofList_toList, number?_text]
  rfl

theorem value?_list {r : List Char} {vs : List Value}
    (h : items? (Json.skipBlank r) = some (vs, rest)) :
    value? ('[' :: r) = some (.array vs, rest) := by
  rw [value?, if_neg (by decide), if_pos rfl, h]
  rfl

theorem value?_dict {r : List Char} {ms : List (String × Value)}
    (h : members? (Json.skipBlank r) = some (ms, rest)) :
    value? ('\x7b' :: r) = some (.object ms, rest) := by
  rw [value?, if_neg (by decide), if_neg (by decide), if_pos rfl, h]
  rfl

theorem value?_word {c : Char} {s : List Char} {v : Value} (hletter : c = 'N' ∨ c = 'T' ∨ c = 'F')
    (h : word? (c :: s) = some (v, rest)) : value? (c :: s) = some (v, rest) := by
  obtain rfl | rfl | rfl := hletter
  all_goals
    rw [value?, if_neg (by decide), if_neg (by decide), if_neg (by decide), if_neg (by decide), h]

/-- A value starts with no blank and no closing bracket. -/
theorem value?_starts {s : List Char} {x : Value × List Char} (h : value? s = some x) :
    ∃ c t, s = c :: t ∧ Json.isBlank c = false ∧ c ≠ ']' := by
  have hnone (c : Char) (t : List Char) (hquote : c ≠ '"') (hlist : c ≠ '[') (hdict : c ≠ '\x7b')
      (hnumber : isNumberChar c = false) (hword : word? (c :: t) = none) :
      value? (c :: t) = none := by
    rw [value?, if_neg hquote, if_neg hlist, if_neg hdict, if_neg (by simp [hnumber]), hword]
  cases s with
  | nil =>
    rw [value?] at h
    cases h
  | cons c t =>
    refine ⟨c, t, rfl, ?_, ?_⟩
    · by_contra hblank
      simp only [Json.isBlank, Bool.or_eq_false_iff, beq_eq_false_iff_ne, not_and_or, not_not]
        at hblank
      obtain ((rfl | rfl) | rfl) | rfl := hblank
      all_goals
        rw [hnone _ t (by decide) (by decide) (by decide) rfl rfl] at h
        cases h
    · rintro rfl
      rw [hnone _ t (by decide) (by decide) (by decide) rfl rfl] at h
      cases h

/-- So there are no blanks to be passed over before a value. -/
theorem skipBlank_of_value? {s : List Char} {x : Value × List Char} (h : value? s = some x) :
    Json.skipBlank s = s := by
  obtain ⟨c, t, rfl, hblank, -⟩ := value?_starts h
  exact Json.skipBlank_of_not_isBlank hblank t

/-- After the last item the list is closed. -/
theorem items?_last {s : List Char} {v : Value} (h : value? s = some (v, ']' :: rest)) :
    items? s = some ([v], rest) := by
  obtain ⟨c, t, rfl, -, hc⟩ := value?_starts h
  rw [items?, if_neg hc, h]
  rfl

/-- After any other item there is a comma and a blank. -/
theorem items?_more {s t : List Char} {v : Value} {vs : List Value}
    (h : value? s = some (v, ',' :: ' ' :: t)) (hlength : t.length < s.length)
    (ht : items? (Json.skipBlank t) = some (vs, rest)) : items? s = some (v :: vs, rest) := by
  obtain ⟨c, r, rfl, -, hc⟩ := value?_starts h
  have := Json.skipBlank_length t
  rw [List.length_cons] at hlength
  rw [items?, if_neg hc, h]
  dsimp only
  rw [if_neg (by decide), Json.skipBlank_blank rfl, if_pos ⟨rfl, by omega⟩, ht]
  rfl

theorem members?_last (k : String) {s : List Char} {v : Value}
    (h : value? s = some (v, '\x7d' :: rest)) :
    members? (Json.quotedChars k ++ ':' :: ' ' :: s) = some ([(k, v)], rest) := by
  rw [Json.Reader.quotedChars_append, members?, if_neg (by decide), if_pos rfl, stringTail?_quoted]
  dsimp only
  rw [Json.skipBlank_blank rfl, skipBlank_of_value? h, if_pos ⟨rfl, by simp; omega⟩, h,
    String.ofList_toList]
  rfl

theorem members?_more (k : String) {s t : List Char} {v : Value} {ms : List (String × Value)}
    (h : value? s = some (v, ',' :: ' ' :: t)) (hlength : t.length < s.length)
    (ht : members? (Json.skipBlank t) = some (ms, rest)) :
    members? (Json.quotedChars k ++ ':' :: ' ' :: s) = some ((k, v) :: ms, rest) := by
  have := Json.skipBlank_length t
  rw [Json.Reader.quotedChars_append, members?, if_neg (by decide), if_pos rfl, stringTail?_quoted]
  dsimp only
  rw [Json.skipBlank_blank rfl, skipBlank_of_value? h, if_pos ⟨rfl, by simp; omega⟩, h]
  dsimp only
  rw [if_neg (by decide), Json.skipBlank_blank rfl, if_pos ⟨rfl, by simp; omega⟩, ht,
    String.ofList_toList]
  rfl

theorem skipBlank_literalChars {v : Value} (hv : Denotes v) (s : List Char) :
    Json.skipBlank (literalChars v ++ s) = literalChars v ++ s := by
  obtain ⟨c, t, ht, hblank, -⟩ := value?_starts (hv [] (by rintro c ⟨⟩))
  rw [List.append_nil] at ht
  rw [ht]
  exact Json.skipBlank_of_not_isBlank hblank _

theorem skipBlank_quotedChars (k : String) (s : List Char) :
    Json.skipBlank (Json.quotedChars k ++ s) = Json.quotedChars k ++ s := by
  rw [Json.Reader.quotedChars_append]
  exact Json.skipBlank_of_not_isBlank rfl _

/-- The items of a list are read back if each of them is, whatever follows the list. -/
theorem items?_literal {v : Value} {vs : List Value} (h : ∀ w ∈ v :: vs, Denotes w)
    (rest : List Char) :
    items? (literalChars v ++ (literalItems vs ++ ']' :: rest)) = some (v :: vs, rest) := by
  -- on the items after the first, because a list is written with its first item apart
  induction vs generalizing v with
  | nil => exact items?_last (h v List.mem_cons_self _ (endsNumber_cons rfl _))
  | cons w ws ih =>
    obtain ⟨hv, hws⟩ := List.forall_mem_cons.mp h
    have htail : literalItems (w :: ws) ++ ']' :: rest
        = ',' :: ' ' :: (literalChars w ++ (literalItems ws ++ ']' :: rest)) := by
      rw [literalItems]
      simp only [List.cons_append, List.append_assoc]
    rw [htail]
    refine items?_more (hv _ (endsNumber_cons rfl _)) ?_ ?_
    · simp only [List.length_append, List.length_cons]
      omega
    · rw [skipBlank_literalChars (hws w List.mem_cons_self)]
      exact ih hws

/-- The members of a dict are read back if each of their values is, whatever follows the dict. -/
theorem members?_literal {k : String} {v : Value} {ms : List (String × Value)}
    (h : ∀ m ∈ (k, v) :: ms, Denotes m.2) (rest : List Char) :
    members? (Json.quotedChars k ++ ':' :: ' ' :: (literalChars v
      ++ (literalMembers ms ++ '\x7d' :: rest))) = some ((k, v) :: ms, rest) := by
  induction ms generalizing k v with
  | nil => exact members?_last k (h (k, v) List.mem_cons_self _ (endsNumber_cons rfl _))
  | cons m ms ih =>
    obtain ⟨l, w⟩ := m
    obtain ⟨hv, hws⟩ := List.forall_mem_cons.mp h
    have htail : literalMembers ((l, w) :: ms) ++ '\x7d' :: rest
        = ',' :: ' ' :: (Json.quotedChars l ++ ':' :: ' ' :: (literalChars w
          ++ (literalMembers ms ++ '\x7d' :: rest))) := by
      rw [literalMembers]
      simp only [List.cons_append, List.append_assoc]
    rw [htail]
    refine members?_more k (hv _ (endsNumber_cons rfl _)) ?_ ?_
    · simp only [List.length_append, List.length_cons]
      omega
    · rw [skipBlank_quotedChars]
      exact ih hws

end Values

mutual

/-- **Every literal is read back**, whatever follows it that does not go on with a number.  The
recursion is that of the writer; after an item of a list, or a member of a dict, comes a comma or a
bracket. -/
theorem denotes : ∀ v : Value, Denotes v
  | .null | .boolean true | .boolean false => fun rest _ => by
    rw [literalChars]
    exact value?_word (by decide) rfl
  | .number n => fun rest hrest => value?_number n hrest
  | .string s => fun rest _ => value?_quotedChars s rest
  | .array [] => fun rest _ => value?_list (r := ']' :: rest) (by
      rw [Json.skipBlank_of_not_isBlank rfl, items?, if_pos rfl])
  | .array (v :: vs) => fun rest _ => by
    have hv := denotesItems (v :: vs)
    rw [literalChars]
    simp only [List.cons_append, List.append_assoc]
    apply value?_list
    rw [skipBlank_literalChars (hv v List.mem_cons_self)]
    exact items?_literal hv rest
  | .object [] => fun rest _ => value?_dict (r := '\x7d' :: rest) (by
      rw [Json.skipBlank_of_not_isBlank rfl, members?, if_pos rfl])
  | .object ((k, v) :: ms) => fun rest _ => by
    have hv := denotesMembers ((k, v) :: ms)
    rw [literalChars]
    simp only [List.cons_append, List.append_assoc]
    apply value?_dict
    rw [skipBlank_quotedChars]
    exact members?_literal hv rest

theorem denotesItems : ∀ vs : List Value, ∀ v ∈ vs, Denotes v
  | [] => fun _ h => absurd h List.not_mem_nil
  | v :: vs => List.forall_mem_cons.mpr ⟨denotes v, denotesItems vs⟩

theorem denotesMembers : ∀ ms : List (String × Value), ∀ m ∈ ms, Denotes m.2
  | [] => fun _ h => absurd h List.not_mem_nil
  | (_, v) :: ms => List.forall_mem_cons.mpr ⟨denotes v, denotesMembers ms⟩

end

/-- The literal of a value is the whole of a text that is read as the value. -/
theorem readLiteral_literal (v : Value) : readLiteral (literal v) = some v := by
  have hv := denotes v [] (by rintro c ⟨⟩)
  rw [List.append_nil] at hv
  rw [readLiteral, literal, String.toList_ofList, hv]

/-! ## Quotes around a string -/

/-- The places of the double quotes that no backslash escapes; `escaped` says whether the character
before is a backslash that escapes. -/
def bareQuotes (escaped : Bool) (place : Nat) : List Char → List Nat
  | [] => []
  | c :: s =>
    if escaped then bareQuotes false (place + 1) s
    else if c = '"' then place :: bareQuotes false (place + 1) s
    else bareQuotes (c == '\\') (place + 1) s

section Quotes

variable (place : Nat) (s : List Char)

theorem bareQuotes_pair (l : Char) :
    bareQuotes false place ('\\' :: l :: s) = bareQuotes false (place + 2) s := rfl

theorem bareQuotes_plain {c : Char} (hquote : c ≠ '"') (hslash : c ≠ '\\') :
    bareQuotes false place (c :: s) = bareQuotes false (place + 1) s := by
  rw [bareQuotes, if_neg Bool.false_ne_true, if_neg hquote, beq_false_of_ne hslash]

/-- A character inside the quotes leaves none bare. -/
theorem bareQuotes_escape (c : Char) : bareQuotes false place (Json.escape c ++ s)
    = bareQuotes false (place + (Json.escape c).length) s := by
  obtain ⟨l, -, h⟩ | ⟨m, hm, n, hn, h⟩ | ⟨hquote, hslash, -, h⟩ := escape_cases c
  · -- a letter after the backslash
    rw [h]
    rfl
  · -- a code of four digits after the backslash
    obtain ⟨hquote, hslash, -⟩ := hexDigit_plain hm
    obtain ⟨hquote', hslash', -⟩ := hexDigit_plain hn
    rw [h]
    simp only [List.cons_append, List.nil_append]
    rw [bareQuotes_pair, bareQuotes_plain _ _ (by decide) (by decide),
      bareQuotes_plain _ _ (by decide) (by decide), bareQuotes_plain _ _ hquote hslash,
      bareQuotes_plain _ _ hquote' hslash']
    rfl
  · rw [h]
    exact bareQuotes_plain place s hquote hslash

/-- The text between the quotes leaves none bare. -/
theorem bareQuotes_flatMap (t : List Char) :
    bareQuotes false place (t.flatMap Json.escape ++ s)
      = bareQuotes false (place + (t.flatMap Json.escape).length) s := by
  induction t generalizing place with
  | nil => rfl
  | cons c t ih =>
    rw [List.flatMap_cons, List.append_assoc, bareQuotes_escape, ih, List.length_append,
      Nat.add_assoc]

theorem bareQuotes_quotedChars (t : String) :
    bareQuotes false 0 (Json.quotedChars t) = [0, (Json.quotedChars t).length - 1] := by
  have hlength : (Json.quotedChars t).length - 1
      = 0 + 1 + (t.toList.flatMap Json.escape).length := by
    simp only [Json.quotedChars, List.length_append, List.length_cons, List.length_nil]
    omega
  rw [hlength, Json.quotedChars, List.cons_append, bareQuotes, if_neg Bool.false_ne_true,
    if_pos rfl, bareQuotes_flatMap]
  rfl

end Quotes

/-- **A literal denotes its value.**  The reader takes the whole literal of a value, of any depth
and with any text in it, and finds that value; so no two values share a literal.  And a quoted
string has no control character, and no bare double quote but the two around it. -/
theorem literals_denote :
    (∀ v, readLiteral (literal v) = some v) ∧ Function.Injective literal ∧
    ∀ s, (∀ c ∈ (Json.quoted s).toList, 0x20 ≤ c.toNat) ∧
      bareQuotes false 0 (Json.quoted s).toList = [0, (Json.quoted s).length - 1] := by
  refine ⟨readLiteral_literal, fun v w h => ?_, fun s => ⟨fun c hc => ?_, ?_⟩⟩
  · have hread := readLiteral_literal v
    rw [h, readLiteral_literal] at hread
    exact (Option.some.inj hread).symm
  · rw [Json.quoted, String.toList_ofList] at hc
    exact le_of_mem_quotedChars hc
  · rw [Json.quoted, String.toList_ofList, String.length_ofList]
    exact bareQuotes_quotedChars s

end CrewChart.Script

import CrewChart.Template.Argument

/-!
# Tokens of a template

The text of a template falls into stretches of plain text and tags.  A tag shows a value, calls a
helper, or opens, divides or closes a block.  A tag of a block that is alone on its line takes the
line with it: the blanks before it and the line break after it are no part of the text around it.

A backslash before a tag makes it plain text, and two make it a tag after a backslash.
-/

set_option autoImplicit false

namespace CrewChart.Template

open Json (skipBlank)

/-- What a tag does with its arguments.  `literal` is the helper `py`. -/
inductive Helper where
  | cond (negated : Bool)
  | each
  | literal
  | unknown (name : String)
deriving DecidableEq

namespace Helper

def ofName (name : String) : Helper :=
  if name = "if" then .cond false
  else if name = "unless" then .cond true
  else if name = "each" then .each
  else if name = "py" then .literal
  else .unknown name

def name : Helper → String
  | .cond false => "if"
  | .cond true => "unless"
  | .each => "each"
  | .literal => "py"
  | .unknown name => name

def isKnown : Helper → Bool
  | .unknown _ => false
  | _ => true

end Helper

structure Call where
  helper : Helper
  args : Arguments
deriving DecidableEq

inductive Tag where
  | value (arg : Argument)
  | call (c : Call)
  | opening (c : Call)
  | chained (c : Call)
  | otherwise
  | closing (name : String)
deriving DecidableEq

namespace Tag

/-- Whether the tag is part of a block. -/
def isBlock : Tag → Bool
  | .opening _ | .chained _ | .otherwise | .closing _ => true
  | .value _ | .call _ => false

end Tag

inductive Token where
  | text (s : List Char)
  | tag (t : Tag) (place : Place)

/-! ## Tags -/

/-- The text after braces that close a tag. -/
def afterBraces? (s : List Char) : Option (List Char) :=
  match skipBlank s with
  | '\x7d' :: '\x7d' :: r => some r
  | _ => none

/-- A helper's name and its arguments. -/
def call? (s : List Char) : Option (Call × List Char) :=
  (name? (skipBlank s)).map fun (name, t) =>
    let (args, r) := Arguments.read t
    (⟨.ofName name, args⟩, r)

/-- A helper with an argument, or else a path, which may be the bare name of a helper. -/
def expression? (s : List Char) : Option (Tag × List Char) :=
  match call? s with
  | some (c, r) =>
    if !c.args.all.isEmpty || (c.helper.isKnown && (afterBraces? r).isSome) then some (.call c, r)
    else shown?
  | none => shown?
where
  shown? : Option (Tag × List Char) := (path? (skipBlank s)).map fun (arg, r) => (.value arg, r)

/-- The tag that divides a block, after its sign, and the text after it. -/
def division? (s : List Char) : Option (Tag × List Char) :=
  match afterBraces? s with
  | some r => some (.otherwise, r)
  | none => do
    let (c, r) ← call? s
    return (.chained c, ← afterBraces? r)

/-- The tag after its opening braces, and the text after it. -/
def tag? (s : List Char) : Option (Tag × List Char) :=
  match skipBlank s with
  | '#' :: t => do
    let (c, r) ← call? t
    return (.opening c, ← afterBraces? r)
  | '/' :: t => do
    let (name, r) ← name? (skipBlank t)
    return (.closing name, ← afterBraces? r)
  | '\x7b' :: t => do
    let (tag, r) ← expression? t
    match skipBlank r with
    | '\x7d' :: u => return (tag, ← afterBraces? u)
    | _ => none
  | '^' :: t => division? t
  | t => (if "else".toList.isPrefixOf t then division? (t.drop 4) else none) <|> plain? t
where
  plain? (t : List Char) : Option (Tag × List Char) := do
    let (tag, r) ← expression? t
    return (tag, ← afterBraces? r)

/-! ## The tokens -/

namespace Place

def start : Place := ⟨1, 1⟩

def next (p : Place) (c : Char) : Place :=
  if c = '\n' then ⟨p.line + 1, 1⟩ else ⟨p.line, p.column + 1⟩

end Place

def isIndent (c : Char) : Bool := c == ' ' || c == '\t'

/-- The text after the line, if nothing but blanks is left on it.  A carriage return ends the line
and, without a line feed, stays. -/
def afterLine? (s : List Char) : Option (List Char) :=
  if s.isEmpty then some []
  else match s.dropWhile isIndent with
    | '\n' :: r | '\r' :: '\n' :: r => some r
    | '\r' :: r => some ('\r' :: r)
    | _ => none

/-- The plain text before a tag, the last character first, and the text after it; and whether the
tag has taken its line. -/
def around (tag : Tag) (lineBlank : Bool) (taken rest : List Char) :
    List Char × List Char × Bool :=
  match if tag.isBlock && lineBlank then afterLine? rest else none with
  | some after => (taken.dropWhile isIndent, after, true)
  | none => (taken, rest, false)

/-- What backslashes before a tag stand for, and the text after them. -/
def escaped? : List Char → Option (List Char × List Char)
  | '\\' :: '\x7b' :: '\x7b' :: '\x7b' :: '\x7b' :: r =>
    some (['\x7b', '\x7b', '\x7b', '\x7b'], r)
  | '\\' :: '\x7b' :: '\x7b' :: r => some (['\x7b', '\x7b'], r)
  | '\\' :: '\\' :: s =>
    match s.dropWhile (· == '\\') with
    | '\x7b' :: '\x7b' :: r =>
      some ('\\' :: s.takeWhile (· == '\\'), '\x7b' :: '\x7b' :: r)
    | _ => none
  | _ => none

/-- The tokens of a text.  `taken` is the plain text before it, the last character first, and
`lineBlank` tells whether only blanks precede it on its line.  There are none if a tag does not
end, or cannot be read. -/
def tokens? (place : Place) (lineBlank : Bool) (taken : List Char) (s : List Char) :
    Option (List Token) :=
  match s with
  | [] => some [.text taken.reverse]
  | '\x7b' :: '\x7b' :: t =>
    match tag? t with
    | none => none
    | some (tag, r) =>
      match around tag lineBlank taken r with
      | (before, after, alone) =>
        if after.length < t.length then
          (tokens? (passed after) alone [] after).map fun rest =>
            .text before.reverse :: .tag tag place :: rest
        else none
  | c :: t =>
    match escaped? s with
    | some (plain, r) =>
      if r.length < t.length then tokens? (passed r) false (plain.reverse ++ taken) r else none
    | none =>
      tokens? (place.next c) (c == '\n' || c == '\r' || (lineBlank && isIndent c)) (c :: taken) t
termination_by s.length
decreasing_by all_goals simp only [List.length_cons] at *; omega
where
  /-- The place after all but the text that is left. -/
  passed (r : List Char) : Place := (s.take (s.length - r.length)).foldl Place.next place

end CrewChart.Template

import CrewChart.Json.Reader

/-!
# Values spelled out in a tag

A tag may spell out a value: a text in double or single quotes, a number, a list, an object or a
keyword.  What looks like a value is decided first, by rules of its own, and the stretch that does
is then read as JSON.  So `01` looks like a value and is none, while `1e5` does not look like one
and is a name: an exponent is written with a capital letter.
-/

set_option autoImplicit false

namespace CrewChart.Template

open Json (Value isDigit skipBlank)

/-- The characters of names, of which digits and a leading sign are part. -/
def isNameChar (c : Char) : Bool := c.isAlphanum || "_-$:?".contains c || 0x80 ≤ c.toNat

/-- A text without the character at its front, if that is the one. -/
def dropSign (sign : Char) (s : List Char) : List Char :=
  if s.head? = some sign then s.drop 1 else s

namespace Spelled

/-! ## What looks like a value

Every function here leads to the text after what looks like a value. -/

/-- The text after a quote that closes a string.  Of escapes only the known ones are passed. -/
def afterString? (quote : Char) : List Char → Option (List Char)
  | '\\' :: 'u' :: a :: b :: c :: d :: r =>
    if (Json.hexFour? [a, b, c, d]).isSome then afterString? quote r else none
  | '\\' :: c :: r =>
    if c = quote || "\\/bfnrt".contains c then afterString? quote r else none
  | c :: r => if c = quote then some r else afterString? quote r
  | [] => none

/-- The text after digits, at least one. -/
def afterDigits? (s : List Char) : Option (List Char) :=
  if s.head?.any isDigit then some (s.dropWhile isDigit) else none

def afterExponent? : List Char → Option (List Char)
  | 'E' :: s => afterDigits? (dropSign '-' s)
  | s => some s

/-- The text, unless a name goes on there. -/
def endOfName? (s : List Char) : Option (List Char) :=
  if s.head?.any isNameChar then none else some s

def afterNumber? (s : List Char) : Option (List Char) := do
  let whole ← afterDigits? (dropSign '-' s)
  endOfName? (← afterExponent? ((dropSign '.' whole).dropWhile isDigit))

def afterKeyword? (word s : List Char) : Option (List Char) :=
  if word.isPrefixOf s then endOfName? (s.drop word.length) else none

/-- The text after entries that follow a comma each, and the closing character. -/
def afterEntries? (entry : List Char → Option (List Char)) (close : Char) :
    Nat → List Char → Option (List Char)
  | 0, _ => none
  | n + 1, s =>
    match skipBlank s with
    | ',' :: r => (entry (skipBlank r)).bind (afterEntries? entry close n)
    | c :: r => if c = close then some r else none
    | [] => none

/-- The text after entries set apart by commas, and the closing character. -/
def afterAll? (entry : List Char → Option (List Char)) (close : Char) (s : List Char) :
    Option (List Char) :=
  afterEntries? entry close (s.length + 1) ((entry (skipBlank s)).getD s)

/-- The text after a member of an object, whose value is passed by `value`. -/
def afterMember? (value : List Char → Option (List Char)) : List Char → Option (List Char)
  | '"' :: s => (afterString? '"' s).bind afterKey
  | '\'' :: s => (afterString? '\'' s).bind afterKey
  | _ => none
where
  afterKey (s : List Char) : Option (List Char) :=
    match skipBlank s with
    | ':' :: r => value (skipBlank r)
    | _ => none

/-- The text after what looks like a value with so many levels. -/
def after? : Nat → List Char → Option (List Char)
  | 0, _ => none
  | _ + 1, '"' :: s => afterString? '"' s
  | _ + 1, '\'' :: s => afterString? '\'' s
  | n + 1, '[' :: s => afterAll? (after? n) ']' s
  | n + 1, '\x7b' :: s => afterAll? (afterMember? (after? n)) '\x7d' s
  | _ + 1, s =>
    afterNumber? s <|> ["null", "true", "false"].findSome? (afterKeyword? ·.toList s)

/-! ## The value -/

/-- A string in single quotes, in double quotes instead. -/
def requoted : List Char → List Char
  | [] => []
  | '\\' :: '\'' :: r => '\'' :: requoted r
  | '\\' :: c :: r => '\\' :: c :: requoted r
  | '\'' :: r => '"' :: requoted r
  | '"' :: r => '\\' :: '"' :: requoted r
  | c :: r => c :: requoted r

/-- The value of a stretch that looks like one. -/
def value? (s : List Char) : Option Value :=
  (Value.parse (String.ofList (if s.head? = some '\'' then requoted s else s))).toOption

end Spelled

end CrewChart.Template

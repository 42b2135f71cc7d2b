import CrewChart.Json.Writer

/-!
# Literals of the script

Values go into the Python script as literals.  A string keeps the escapes it has in JSON, which
mean the same inside a double-quoted Python string; the three words differ, and items are set
apart by a comma and a blank.

A name is a Python identifier here when it is made of ASCII letters, digits and underscores and
does not start with a digit.
-/

set_option autoImplicit false

namespace CrewChart.Script

open Json (Value)

mutual

def literalChars : Value → List Char
  | .null => ['N', 'o', 'n', 'e']
  | .boolean true => ['T', 'r', 'u', 'e']
  | .boolean false => ['F', 'a', 'l', 's', 'e']
  | .number n => n.text.toList
  | .string s => Json.quotedChars s
  | .array [] => ['[', ']']
  | .array (v :: rest) => '[' :: literalChars v ++ literalItems rest ++ [']']
  | .object [] => ['\x7b', '\x7d']
  | .object ((k, v) :: rest) =>
    '\x7b' :: Json.quotedChars k ++ ':' :: ' ' :: literalChars v ++ literalMembers rest
      ++ ['\x7d']

def literalItems : List Value → List Char
  | [] => []
  | v :: rest => ',' :: ' ' :: literalChars v ++ literalItems rest

def literalMembers : List (String × Value) → List Char
  | [] => []
  | (k, v) :: rest =>
    ',' :: ' ' :: Json.quotedChars k ++ ':' :: ' ' :: literalChars v ++ literalMembers rest

end

/-- The Python literal of a value. -/
def literal (v : Value) : String := String.ofList (literalChars v)

/-! ## Names -/

def isNameStart (c : Char) : Bool :=
  ('A' ≤ c && c ≤ 'Z') || ('a' ≤ c && c ≤ 'z') || c == '_'

def isNamePart (c : Char) : Bool := isNameStart c || ('0' ≤ c && c ≤ '9')

def isName (s : String) : Bool :=
  match s.toList with
  | [] => false
  | c :: rest => isNameStart c && rest.all isNamePart

end CrewChart.Script

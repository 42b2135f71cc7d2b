import CrewChart.Json.Value
import CrewChart.Json.Quoted

/-!
# Writing JSON

There are two styles.  The compact one puts nothing between tokens; the indented one starts a new
line, two blanks deeper for each open bracket, before every item and before a closing bracket, and
a blank after every colon.  An empty array or object has nothing between its brackets in either.

Members are written in the order the value has them.
-/

set_option autoImplicit false

namespace CrewChart.Json

inductive Style where
  | compact
  | indented
deriving DecidableEq

namespace Style

/-- What stands before an item at this depth, and before a closing bracket. -/
def newline : Style → Nat → List Char
  | .compact, _ => []
  | .indented, depth => '\n' :: List.replicate (2 * depth) ' '

def colon : Style → List Char
  | .compact => [':']
  | .indented => [':', ' ']

end Style

mutual

/-- A value at the given depth of brackets. -/
def Value.write (style : Style) (depth : Nat) : Value → List Char
  | .null => ['n', 'u', 'l', 'l']
  | .boolean true => ['t', 'r', 'u', 'e']
  | .boolean false => ['f', 'a', 'l', 's', 'e']
  | .number n => n.text.toList
  | .string s => quotedChars s
  | .array [] => ['[', ']']
  | .array (v :: rest) =>
    '[' :: style.newline (depth + 1) ++ v.write style (depth + 1)
      ++ Value.writeItems style (depth + 1) rest ++ style.newline depth ++ [']']
  | .object [] => ['\x7b', '\x7d']
  | .object ((k, v) :: rest) =>
    '\x7b' :: style.newline (depth + 1) ++ quotedChars k ++ style.colon
      ++ v.write style (depth + 1)
      ++ Value.writeMembers style (depth + 1) rest ++ style.newline depth ++ ['\x7d']

/-- Further items, each after a comma. -/
def Value.writeItems (style : Style) (depth : Nat) : List Value → List Char
  | [] => []
  | v :: rest =>
    ',' :: style.newline depth ++ v.write style depth ++ Value.writeItems style depth rest

/-- Further members, each after a comma. -/
def Value.writeMembers (style : Style) (depth : Nat) : List (String × Value) → List Char
  | [] => []
  | (k, v) :: rest =>
    ',' :: style.newline depth ++ quotedChars k ++ style.colon ++ v.write style depth
      ++ Value.writeMembers style depth rest

end

/-- All on one line. -/
def Value.compact (v : Value) : String := String.ofList (v.write .compact 0)

/-- One item a line. -/
def Value.indented (v : Value) : String := String.ofList (v.write .indented 0)

end CrewChart.Json

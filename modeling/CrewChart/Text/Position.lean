/-!
# Lines and columns

A place in a text is found by counting bytes.  Lines count from one.  A column counts the bytes
since the last line break, so it is `0` right after one.
-/

set_option autoImplicit false

namespace CrewChart.Text

structure Position where
  line : Nat
  column : Nat
deriving DecidableEq, Repr

namespace Position

def start : Position := ⟨1, 0⟩

/-- The position after the first `bytes` bytes of a text. -/
def advance (p : Position) : List Char → Nat → Position
  | _, 0 => p
  | [], _ => p
  | c :: rest, bytes@(_ + 1) =>
    if c = '\n' then advance ⟨p.line + 1, 0⟩ rest (bytes - 1)
    else advance ⟨p.line, p.column + min bytes c.utf8Size⟩ rest (bytes - c.utf8Size)

end Position

/-- The number of bytes a text has in UTF-8. -/
def byteCount : List Char → Nat
  | [] => 0
  | c :: s => c.utf8Size + byteCount s

end CrewChart.Text

import CrewChart.Text.Hidden

/-!
# Text shown in a message

A piece of the user's text inside a message is put between double quotes, so that it can be told
from the message.  Quote and backslash are escaped, the common control characters have a letter,
and any other character that cannot be seen is shown by its code point in hexadecimal.
-/

set_option autoImplicit false

namespace CrewChart.Text

/-- The hexadecimal digits of a number, in lower case. -/
def hexadecimal (n : Nat) : String := String.ofList (Nat.toDigits 16 n)

def shownChar (c : Char) : String :=
  if c = '"' then "\\\""
  else if c = '\\' then "\\\\"
  else if c = '\n' then "\\n"
  else if c = '\r' then "\\r"
  else if c = '\t' then "\\t"
  else if c.toNat = 0 then "\\0"
  else if isHidden c then "\\u\x7b" ++ hexadecimal c.toNat ++ "\x7d"
  else c.toString

def shown (s : String) : String :=
  "\"" ++ String.join (s.toList.map shownChar) ++ "\""

end CrewChart.Text

import CrewChart.Json.Writer
import CrewChart.Text.Shown
import CrewChart.Text.Position

/-!
# Why a text is not the document asked for

A `Cause` is either a fault of the text (it is no JSON) or of the document (it is JSON, but not of
the form asked for).  `Cause.message` holds all the wording.

A `Failure` says where as well, by the text that was left: the place is `past` bytes into `rest`.
Faults of the text are noticed at the offending byte, which counts as read.  Some faults of a
document are noticed by a party that does not see the text, the one that collects the members of an
object; such a failure is not *settled*, and the enclosing bracket moves it to the place it has
reached by then, past its closing bracket if that comes next.
-/

set_option autoImplicit false

namespace CrewChart.Json

/-- What the end of the text left unfinished. -/
inductive Opened where
  | value
  | list
  | object
  | string
deriving DecidableEq

/-- What stood where something else was expected. -/
inductive Found where
  | null
  | boolean (b : Bool)
  | number (n : Number)
  | string (s : String)
  | list
  | object
deriving DecidableEq

namespace Found

def ofValue : Value → Found
  | .null => .null
  | .boolean b => .boolean b
  | .number n => .number n
  | .string s => .string s
  | .array _ => .list
  | .object _ => .object

def describe : Found → String
  | .null => "null"
  | .boolean b => "boolean `" ++ toString b ++ "`"
  | .number (.integer n _) => "integer `" ++ toString n ++ "`"
  | .number (.float x) => "floating point `" ++ Number.floatText x ++ "`"
  | .string s => "string " ++ Text.shown s
  | .list => "sequence"
  | .object => "map"

end Found

inductive Cause where
  | unfinished (what : Opened)
  | noValue
  | noKeyword
  | noCommaInList
  | noCommaInObject
  | noColon
  | keyNotString
  | trailingComma
  | trailingText
  | badNumber
  | numberTooLarge
  | badEscape
  | unpairedSurrogate
  | loneSurrogate
  | controlCharacter
  | tooDeep
  | wrongType (found : Found) (expected : String)
  | wrongLength (length : Nat) (expected : String)
  | notSingleKey
  | missingField (name : String)
  | repeatedField (name : String)
  | unknownVariant (name : String) (known : List String)
  | notText (found : Value)
  | notFlag (found : Value)
  | notInstant (why : String)
deriving DecidableEq

/-- The variants that would have done. -/
def oneOf : List String → String
  | [] => "there are no variants"
  | [a] => "expected `" ++ a ++ "`"
  | [a, b] => "expected `" ++ a ++ "` or `" ++ b ++ "`"
  | known => "expected one of " ++ ", ".intercalate (known.map fun a => "`" ++ a ++ "`")

namespace Cause

def message : Cause → String
  | .unfinished .value => "EOF while parsing a value"
  | .unfinished .list => "EOF while parsing a list"
  | .unfinished .object => "EOF while parsing an object"
  | .unfinished .string => "EOF while parsing a string"
  | .noValue => "expected value"
  | .noKeyword => "expected ident"
  | .noCommaInList => "expected `,` or `]`"
  | .noCommaInObject => "expected `,` or `\x7d`"
  | .noColon => "expected `:`"
  | .keyNotString => "key must be a string"
  | .trailingComma => "trailing comma"
  | .trailingText => "trailing characters"
  | .badNumber => "invalid number"
  | .numberTooLarge => "number out of range"
  | .badEscape => "invalid escape"
  | .unpairedSurrogate => "unexpected end of hex escape"
  | .loneSurrogate => "lone leading surrogate in hex escape"
  | .controlCharacter => "control character (\\u0000-\\u001F) found while parsing a string"
  | .tooDeep => "recursion limit exceeded"
  | .wrongType found expected => "invalid type: " ++ found.describe ++ ", expected " ++ expected
  | .wrongLength length expected =>
    "invalid length " ++ toString length ++ ", expected " ++ expected
  | .notSingleKey => "invalid value: map, expected map with a single key"
  | .missingField name => "missing field `" ++ name ++ "`"
  | .repeatedField name => "duplicate field `" ++ name ++ "`"
  | .unknownVariant name known => "unknown variant `" ++ name ++ "`, " ++ oneOf known
  | .notText found => "expected a string, number or boolean, found " ++ found.compact
  | .notFlag (.string s) => "expected a boolean, found '" ++ s ++ "'"
  | .notFlag found => "expected a boolean, found " ++ found.compact
  | .notInstant why => why

end Cause

structure Failure where
  cause : Cause
  rest : List Char
  past : Nat
  settled : Bool

namespace Failure

/-- Noticed with `rest` still to be read. -/
def before (cause : Cause) (rest : List Char) : Failure := ⟨cause, rest, 0, true⟩

/-- Noticed at the next byte, which counts as read. -/
def atNext (cause : Cause) (rest : List Char) : Failure := ⟨cause, rest, 1, true⟩

/-- Noticed away from the text. -/
def loose (cause : Cause) (rest : List Char) : Failure := ⟨cause, rest, 0, false⟩

def position (f : Failure) (text : List Char) : Text.Position :=
  Text.Position.start.advance text (Text.byteCount text - Text.byteCount f.rest + f.past)

end Failure

/-- A failure as it is reported. -/
structure Report where
  cause : Cause
  position : Text.Position
deriving DecidableEq

namespace Report

def ofFailure (text : List Char) (f : Failure) : Report := ⟨f.cause, f.position text⟩

def message (r : Report) : String :=
  r.cause.message ++ " at line " ++ toString r.position.line
    ++ " column " ++ toString r.position.column

end Report

end CrewChart.Json

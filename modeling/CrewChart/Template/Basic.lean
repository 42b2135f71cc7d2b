import CrewChart.Json.Value

/-!
# Templates

A template is text with tags in double braces.  A tag shows a value, puts in its Python literal, or
opens a block: a condition with two branches, or a loop over a list.  What a tag names is looked up
in the *scope*: the item at hand, and inside a loop also the items further out and where in the list
it is.

What is not there counts as nothing, and looking it up does not fail.  Rendering fails where a tag
lacks its argument, asks for a helper there is none of, or looks for a name in a list, and only when
the tag is reached.
-/

set_option autoImplicit false

namespace CrewChart

namespace Template

open Json (Value)

/-- What a tag is given.  A path leads down from the item so many loops further out, or from the
value the whole template is given; a loop has values of its own; and a value may be spelled out. -/
inductive Argument where
  | path (out : Nat) (steps : List String)
  | whole (steps : List String)
  | ofLoop (out : Nat) (name : String)
  | spelled (v : Value)
deriving DecidableEq

inductive Misuse where
  | noArgument (helper : String)
  | noHelper (helper : String)
  | notAnIndex (step : String)
deriving DecidableEq, Repr

namespace Misuse

def message : Misuse → String
  | .noArgument "py" => "py helper expects 1 parameter"
  | .noArgument helper =>
    "Helper/Decorator " ++ helper ++ " param at index 0 required but not found"
  | .noHelper helper => "Helper not found " ++ helper
  | .notAnIndex step => "Cannot access array/vector with string index, " ++ step

end Misuse

/-- The place of a tag in the text of its template, both counted from one. -/
structure Place where
  line : Nat
  column : Nat
deriving DecidableEq, Repr

/-- A piece of a template.  `needed` arguments are looked up and not shown, and what goes wrong
inside a `placed` piece, and has no place of its own, went wrong there. -/
inductive Piece where
  | text (s : String)
  | value (arg : Argument)
  | literal (arg : Argument)
  | cond (test : Argument) (yes no : List Piece)
  | each (list : Argument) (body empty : List Piece)
  | needed (args : List Argument)
  | misuse (why : Misuse)
  | placed (place : Place) (pieces : List Piece)

end Template

/-- A template, read. -/
abbrev Template := List Template.Piece

end CrewChart

import CrewChart.Decimal.Reading
import CrewChart.Script.Literal
import CrewChart.Template.Basic

/-!
# Rendering a template

A condition holds unless its argument is nothing, `null`, `false`, a number without a normal
binary64 form, or an empty text, list or object.  A loop renders its body for each item of its list,
with the item as the new scope, and its other branch if there is no item.
-/

set_option autoImplicit false

namespace CrewChart.Template

open Json (Value Number)

/-! ## Scopes -/

/-- What a loop brings with it: the item at hand and values of its own. -/
structure Level where
  item : Value
  loop : List (String × Value) := []

/-- The level at hand and those further out, the outermost last. -/
structure Scope where
  here : Level
  outer : List Level := []

/-- The place in a list that a step names. -/
def index? (step : String) : Option Nat := (Decimal.word step).toOption

/-- A step down into a value: a member by its key, an item by its place. -/
def down (v : Value) (step : String) : Except Misuse (Option Value) :=
  match v with
  | .object members => .ok (members.lookup step)
  | .array items =>
    match index? step with
    | some i => .ok items[i]?
    | none => .error (.notAnIndex step)
  | _ => .ok none

/-- Steps down, as long as there is something to step into. -/
def descend : Option Value → List String → Except Misuse (Option Value)
  | v, [] => .ok v
  | none, _ :: _ => .ok none
  | some v, step :: steps =>
    match down v step with
    | .error why => .error why
    | .ok w => descend w steps

namespace Scope

/-- The value of the whole template. -/
def whole (s : Scope) : Value := (s.outer.getLast?.getD s.here).item

/-- The level so many loops further out, if there are that many. -/
def level? (s : Scope) (out : Nat) : Option Level := (s.here :: s.outer)[out]?

/-- What an argument stands for.  A path that leads further out than there are loops starts from
the item at hand. -/
def look (s : Scope) : Argument → Except Misuse (Option Value)
  | .path out steps => descend (some ((s.level? out).getD s.here).item) steps
  | .whole steps => descend (some s.whole) steps
  | .ofLoop out name => .ok ((s.level? out).bind (·.loop.lookup name))
  | .spelled v => .ok (some v)

/-- The scope of an item of a loop. -/
def enter (s : Scope) (level : Level) : Scope := ⟨level, s.here :: s.outer⟩

end Scope

/-! ## Values -/

def holds : Option Value → Bool
  | none | some .null => false
  | some (.boolean b) => b
  | some (.number n) => n.isNormal
  | some (.string s) => s != ""
  | some (.array items) => !items.isEmpty
  | some (.object members) => !members.isEmpty

mutual

/-- A value as it is shown. -/
def shown : Value → List Char
  | .null => []
  | .boolean b => (toString b).toList
  | .number n => n.text.toList
  | .string s => s.toList
  | .array [] => ['[', ']']
  | .array (v :: rest) => '[' :: shown v ++ shownRest rest ++ [']']
  | .object _ => "[object]".toList

def shownRest : List Value → List Char
  | [] => []
  | v :: rest => ',' :: ' ' :: shown v ++ shownRest rest

end

/-- The levels a loop goes through: items by their places, or members by their keys. -/
def levelsOf : Option Value → List Level
  | some (.array items) => items.zipIdx.map fun (item, i) =>
    ⟨item, [("first", .boolean (i == 0)), ("last", .boolean (i + 1 == items.length)),
      ("index", .ofNat i)]⟩
  | some (.object members) => members.zipIdx.map fun ((key, item), i) =>
    ⟨item, [("first", .boolean (i == 0)), ("last", .boolean (i + 1 == members.length)),
      ("key", .string key)]⟩
  | _ => []

/-! ## Pieces -/

/-- How a template went wrong, and where if that is known. -/
abbrev Failure := Misuse × Option Place

/-- A failure inside a tag is placed there, unless a tag further in has placed it. -/
def Failure.within (place : Place) (f : Failure) : Failure := (f.1, f.2 <|> some place)

/-- What an argument stands for, when rendering. -/
def Scope.value (s : Scope) (arg : Argument) : Except Failure (Option Value) :=
  (s.look arg).mapError (·, none)

/-- Concatenates the results, up to the first failure. -/
def concatM {α : Type} (f : α → Except Failure (List Char)) : List α → Except Failure (List Char)
  | [] => .ok []
  | a :: rest =>
    match f a with
    | .error e => .error e
    | .ok s =>
      match concatM f rest with
      | .error e => .error e
      | .ok t => .ok (s ++ t)

mutual

def renderPiece (s : Scope) : Piece → Except Failure (List Char)
  | .text t => .ok t.toList
  | .value arg => (s.value arg).map fun v => (v.map shown).getD []
  | .literal arg => (s.value arg).map fun v => Script.literalChars (v.getD .null)
  | .cond test yes no =>
    match s.value test with
    | .error e => .error e
    | .ok v => if holds v then renderAll s yes else renderAll s no
  | .each list body empty =>
    match s.value list with
    | .error e => .error e
    | .ok v =>
      match levelsOf v with
      | [] => renderAll s empty
      | level :: rest => concatM (fun level => renderAll (s.enter level) body) (level :: rest)
  | .needed args => concatM (fun arg => (s.value arg).map fun _ => []) args
  | .misuse why => .error (why, none)
  | .placed place pieces => (renderAll s pieces).mapError (Failure.within place)

def renderAll (s : Scope) : List Piece → Except Failure (List Char)
  | [] => .ok []
  | p :: rest =>
    match renderPiece s p with
    | .error e => .error e
    | .ok t =>
      match renderAll s rest with
      | .error e => .error e
      | .ok u => .ok (t ++ u)

end

/-! What each piece comes out as is stated once, so that no proof has to open the recursion. -/

section Equations

variable (s : Scope)

theorem renderAll_cons (p : Piece) (rest : List Piece) : renderAll s (p :: rest) =
    match renderPiece s p with
    | .error e => .error e
    | .ok t =>
      match renderAll s rest with
      | .error e => .error e
      | .ok u => .ok (t ++ u) := rfl

theorem renderPiece_text (t : String) : renderPiece s (.text t) = .ok t.toList := rfl

theorem renderPiece_value (arg : Argument) :
    renderPiece s (.value arg) = (s.value arg).map fun v => (v.map shown).getD [] := rfl

theorem renderPiece_literal (arg : Argument) : renderPiece s (.literal arg)
    = (s.value arg).map fun v => Script.literalChars (v.getD .null) := rfl

theorem renderPiece_cond (test : Argument) (yes no : List Piece) :
    renderPiece s (.cond test yes no) =
      match s.value test with
      | .error e => .error e
      | .ok v => if holds v then renderAll s yes else renderAll s no := rfl

theorem renderPiece_each (list : Argument) (body empty : List Piece) :
    renderPiece s (.each list body empty) =
      match s.value list with
      | .error e => .error e
      | .ok v =>
        match levelsOf v with
        | [] => renderAll s empty
        | level :: rest => concatM (fun level => renderAll (s.enter level) body) (level :: rest) :=
  rfl

theorem renderPiece_needed (args : List Argument) :
    renderPiece s (.needed args) = concatM (fun arg => (s.value arg).map fun _ => []) args := rfl

theorem renderPiece_placed (place : Place) (pieces : List Piece) :
    renderPiece s (.placed place pieces)
      = (renderAll s pieces).mapError (Failure.within place) := rfl

end Equations

/-- The text a template makes of a value. -/
def render (template : Template) (v : Value) : Except Failure String :=
  (renderAll ⟨{ item := v }, []⟩ template).map String.ofList

end CrewChart.Template

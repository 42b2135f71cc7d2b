import CrewChart.Template.Token

/-!
# Reading a template

The tokens of a template are put together block by block.  A block has a branch for the call that
opens it and one for each call chained to it, and may end with a branch for when none of them holds.
A template is refused if a tag cannot be read, if a block is not closed or is closed by another
name, or if it is divided after its last branch.
-/

set_option autoImplicit false

namespace CrewChart.Template

/-- What a helper does with its first argument and two branches. -/
def Helper.piece (h : Helper) (arg : Option Argument) (first second : List Piece) : Piece :=
  match h, arg with
  | .cond false, some test => .cond test first second
  | .cond true, some test => .cond test second first
  | .cond _, none => .misuse (.noArgument "if")
  | .each, some list => .each list first second
  | .each, none => .misuse (.noArgument "each")
  | .literal, some arg => .literal arg
  | .literal, none => .misuse (.noArgument "py")
  | .unknown name, _ => .misuse (.noHelper name)

/-- All arguments of a call are looked up before its helper does its work. -/
def Call.pieces (c : Call) (first second : List Piece) : List Piece :=
  [.needed c.args.all, c.helper.piece c.args.listed.head? first second]

/-- A branch of a block, with the call that decides on it, and in the last branch without. -/
structure Branch where
  call : Option Call
  pieces : List Piece

/-- The pieces of a block.  A branch is left for the next where its call does not hold. -/
def Branch.join (branches : List Branch) : List Piece :=
  branches.foldr
    (fun b rest => match b.call with
      | some c => c.pieces b.pieces rest
      | none => b.pieces)
    []

/-- A block that has been opened: where, by what name, the pieces before it, the last one first, its
branches that are done, the last one first, and the call of the branch at hand. -/
structure Opened where
  place : Place
  name : String
  before : List Piece
  done : List Branch
  call : Option Call

/-- The blocks that are open, the innermost first, and the pieces of the innermost, the last one
first. -/
structure Draft where
  opened : List Opened
  pieces : List Piece

namespace Draft

def add (d : Draft) (p : Piece) : Draft := { d with pieces := p :: d.pieces }

/-- Begins the next branch of the innermost block. -/
def divide (d : Draft) (call : Option Call) : Option Draft :=
  match d.opened with
  | top :: outer =>
    if top.call.isSome then
      let done := ⟨top.call, d.pieces.reverse⟩ :: top.done
      some { opened := { top with done, call } :: outer, pieces := [] }
    else none
  | [] => none

/-- Ends the innermost block. -/
def close (d : Draft) (name : String) : Option Draft :=
  match d.opened with
  | top :: outer =>
    if top.name = name then
      let branches := (⟨top.call, d.pieces.reverse⟩ :: top.done).reverse
      some { opened := outer, pieces := .placed top.place (Branch.join branches) :: top.before }
    else none
  | [] => none

def take (d : Draft) : Token → Option Draft
  | .text [] => some d
  | .text s => some (d.add (.text (String.ofList s)))
  | .tag (.value arg) place => some (d.add (.placed place [.value arg]))
  | .tag (.call c) place => some (d.add (.placed place (c.pieces [] [])))
  | .tag (.opening c) place =>
    some { opened := ⟨place, c.helper.name, d.pieces, [], some c⟩ :: d.opened, pieces := [] }
  | .tag (.chained c) _ => d.divide (some c)
  | .tag .otherwise _ => d.divide none
  | .tag (.closing name) _ => d.close name

end Draft

def parse? (text : String) : Option Template := do
  let tokens ← tokens? .start true [] text.toList
  match ← tokens.foldlM Draft.take ⟨[], []⟩ with
  | ⟨[], pieces⟩ => return pieces.reverse
  | _ => none

end CrewChart.Template

import CrewChart.Template.Basic
import CrewChart.Template.Spelled

/-!
# Reading arguments

An argument is a value spelled out, or a path: names set apart by points or slashes, `..` in front
for each loop it leads out of, `@root` for the value of the whole template, and `@` for what a loop
brings with it.  A name in brackets may hold any character.  The name `this` leads nowhere.
-/

set_option autoImplicit false

namespace CrewChart.Template

open Json (skipBlank)

/-! ## Paths -/

def isDivider (c : Char) : Bool := c == '.' || c == '/'

/-- A name at the front of a text. -/
def name? (s : List Char) : Option (String × List Char) :=
  if s.head?.any isNameChar then
    some (String.ofList (s.takeWhile isNameChar), s.dropWhile isNameChar)
  else none

/-- A step of a path: a name, or anything in brackets. -/
def step? : List Char → Option (String × List Char)
  | '[' :: s =>
    match s.dropWhile (· != ']') with
    | _ :: r => some (String.ofList (s.takeWhile (· != ']')), r)
    | [] => none
  | s => name? s

theorem step?_length {s r : List Char} {step : String} (h : step? s = some (step, r)) :
    r.length ≤ s.length := by
  unfold step? at h
  split at h
  · rename_i s
    split at h
    · rename_i c u hu
      have := (List.dropWhile_suffix (· != ']') (l := s)).length_le
      rw [hu] at this
      simp only [Option.some.injEq, Prod.mk.injEq] at h
      simp only [← h.2, List.length_cons] at this ⊢
      omega
    · simp at h
  · unfold name? at h
    split at h
    · simp only [Option.some.injEq, Prod.mk.injEq] at h
      exact h.2 ▸ (List.dropWhile_suffix isNameChar).length_le
    · simp at h

/-- The steps that follow, each after a divider. -/
def moreSteps (s : List Char) : List String × List Char :=
  match s with
  | [] => ([], [])
  | c :: t =>
    match h : step? t with
    | none => ([], s)
    | some (step, r) =>
      have := step?_length h
      if isDivider c then
        let (steps, u) := moreSteps r
        (step :: steps, u)
      else ([], s)
termination_by s.length
decreasing_by simp only [List.length_cons]; omega

/-- The text after what leads from the item at hand to itself. -/
def afterHere : List Char → List Char
  | '.' :: '/' :: s => afterHere s
  | 't' :: 'h' :: 'i' :: 's' :: c :: s =>
    if isDivider c then afterHere s else 't' :: 'h' :: 'i' :: 's' :: c :: s
  | s => s

/-- How many loops a path leads out of, and the text after that. -/
def outward : List Char → Nat × List Char
  | '.' :: '.' :: c :: s =>
    if isDivider c then ((outward s).1 + 1, (outward s).2) else (0, '.' :: '.' :: c :: s)
  | s => (0, s)

/-- The text after `@root` and a divider. -/
def afterRoot? : List Char → Option (List Char)
  | '@' :: 'r' :: 'o' :: 'o' :: 't' :: c :: s => if isDivider c then some s else none
  | _ => none

/-- A path at the front of a text. -/
def path? (s : List Char) : Option (Argument × List Char) := do
  let s := afterHere s
  let root := afterRoot? s
  let s := root.getD s
  let (out, t) := outward (dropSign '@' s)
  let (first, t) ← step? t
  let (others, r) := moreSteps t
  let steps := (first :: others).filter (· != "this")
  if root.isSome then return (.whole steps, r)
  if s.head? != some '@' then return (.path out steps, r)
  match steps with
  | name :: _ => return (.ofLoop out name, r)
  | [] => return (.path 0 [], r)

/-! ## Arguments -/

/-- Whether a text starts with a word that has a meaning of its own between arguments. -/
def startsKeyword (s : List Char) : Bool :=
  ["as", "else"].any fun word =>
    word.toList.isPrefixOf s && !(skipBlank (s.drop word.length)).head?.any isNameChar

/-- An argument at the front of a text. -/
def argument? (s : List Char) : Option (Argument × List Char) :=
  if startsKeyword s then none
  else match Spelled.after? (s.length + 1) s with
    | some r => (Spelled.value? (s.take (s.length - r.length))).map (.spelled ·, r)
    | none => path? s

/-- An argument with a keyword at the front of a text. -/
def keywordArgument? (s : List Char) : Option (Argument × List Char) := do
  let (_, r) ← name? s
  match skipBlank r with
  | '=' :: t => argument? (skipBlank t)
  | _ => none

/-- The arguments of a tag, those with a keyword apart. -/
structure Arguments where
  listed : List Argument := []
  keyword : List Argument := []
deriving DecidableEq

namespace Arguments

def all (args : Arguments) : List Argument := args.listed ++ args.keyword

/-- Arguments as far as they go, and the text after them. -/
def read (s : List Char) : Arguments × List Char :=
  match keywordArgument? (skipBlank s) with
  | some (a, r) =>
    if r.length < s.length then
      let (args, u) := read r
      ({ args with keyword := a :: args.keyword }, u)
    else ({}, s)
  | none =>
    match argument? (skipBlank s) with
    | some (a, r) =>
      if r.length < s.length then
        let (args, u) := read r
        ({ args with listed := a :: args.listed }, u)
      else ({}, s)
    | none => ({}, s)
termination_by s.length

end Arguments

end CrewChart.Template

import CrewChart.Graph.Sheet
import CrewChart.Json.Skip

/-!
# Reading a chart

The parts of a chart are read member by member.  An object that describes a graph or a position may
hold other members, which are passed over, and both may be written as arrays of their fields; a node
and an edge keep the members they do not know.

The kind and the sheet of a node may come in either order, and anywhere among its members, so a
node collects its members first and makes the component of them when it is complete.  A component
that stands alone is read as its members come.
-/

set_option autoImplicit false

namespace CrewChart

open Json (Value Attributes Cause Found Reader)
open Json.Reader (Shape)

/-! ## Positions -/

namespace Position

def shape : Shape (Option Binary64 × Option Binary64) Position where
  start := (none, none)
  take st key :=
    if key = "x" then
      if st.1.isSome then .error (.repeatedField "x")
      else .ok (Reader.binary64.map fun x => (some x, st.2))
    else if key = "y" then
      if st.2.isSome then .error (.repeatedField "y")
      else .ok (Reader.binary64.map fun y => (st.1, some y))
    else .ok (Reader.skipThen st)
  finish
    | (some x, some y) => .ok ⟨x, y⟩
    | (none, _) => .error (.missingField "x")
    | (some _, none) => .error (.missingField "y")

def reader (levels : Nat) : Reader Position :=
  Reader.recordOrTuple levels "struct Position" (fun _ => shape) ["x", "y"] fun length =>
    some (.wrongLength length "struct Position with 2 elements")

end Position

/-! ## Components -/

namespace Kind

/-- The kind named by a value that was kept for later. -/
def ofValue : Value → Except Cause Kind
  | .string s => ofName s
  | .object [(s, content)] =>
    match ofName s with
    | .error cause => .error cause
    | .ok kind =>
      match content with
      | .null | .object [] => .ok kind
      | v => .error (.wrongType (Found.ofValue v) "unit")
  | .object _ => .error .notSingleKey
  | v => .error (.wrongType (Found.ofValue v) "string or map")
where
  ofName (s : String) : Except Cause Kind :=
    match Kind.named.lookup s with
    | some kind => .ok kind
    | none => .error (.unknownVariant s (Kind.named.map Prod.fst))

end Kind

namespace Component

/-- The component among the members of a node.  Kind and sheet are looked at in the order they
come; a third of them is refused after that. -/
def ofMembers (members : List (String × Value)) : Except Cause Component :=
  match members.filter fun (key, _) => key == "type" || key == "data" with
  | [] => .error (.missingField "type")
  | (key, v) :: rest =>
    if key = "type" then
      match Kind.ofValue v with
      | .error cause => .error cause
      | .ok kind =>
        match rest with
        | [] => .error (.missingField "data")
        | (key, sheet) :: rest =>
          if key = "type" then .error (.repeatedField "type") else complete kind sheet rest
    else
      match rest with
      | [] => .error (.missingField "type")
      | (key, tag) :: rest =>
        if key = "data" then .error (.repeatedField "data")
        else
          match Kind.ofValue tag with
          | .error cause => .error cause
          | .ok kind => complete kind v rest
where
  complete (kind : Kind) (sheet : Value) (rest : List (String × Value)) : Except Cause Component :=
    match Component.ofValue kind sheet with
    | .error cause => .error cause
    | .ok c =>
      match rest with
      | [] => .ok c
      | (key, _) :: _ => .error (.repeatedField key)

/-- The sheet of a component of known kind, filled in as its attributes are read. -/
def sheetShape (kind : Kind) (levels : Nat) : Shape Sheet Component where
  start := {}
  take sheet key :=
    match sheet.mayEnter kind key with
    | .error cause => .error cause
    | .ok () => .ok ((Reader.value levels).check (sheet.enter kind key))
  finish sheet := .ok (ofSheet kind sheet)

/-- What has been read of a component that stands alone. -/
inductive Partial where
  | nothing
  | kind (k : Kind)
  | sheet (v : Value)
  | complete (c : Component)

def shape (levels : Nat) : Shape Partial Component where
  start := .nothing
  take st key :=
    if key = "type" then
      match st with
      | .nothing => .ok ((Reader.variant levels Kind.named).map .kind)
      | .sheet v =>
        .ok ((Reader.variant levels Kind.named).check fun kind =>
          (ofValue kind v).map .complete)
      | .kind _ | .complete _ => .error (.repeatedField "type")
    else if key = "data" then
      match st with
      | .nothing => .ok ((Reader.value levels).map .sheet)
      | .kind k => .ok ((Reader.record levels k.sheetName (sheetShape k)).map .complete)
      | .sheet _ | .complete _ => .error (.repeatedField "data")
    else .ok (Reader.skipThen st)
  finish
    | .nothing | .sheet _ => .error (.missingField "type")
    | .kind _ => .error (.missingField "data")
    | .complete c => .ok c

/-- In an array the kind comes first, and only by its plain name. -/
def listed (levels : Nat) : Shape Partial Component :=
  { shape levels with
    take := fun st key =>
      if key = "type" then .ok ((Reader.variantName Kind.named).map .kind)
      else (shape levels).take st key }

def reader (levels : Nat) : Reader Component :=
  Reader.recordOrListed levels "adjacently tagged enum NodeKind" shape listed ["type", "data"]
    fun length => some (.wrongLength length "adjacently tagged enum NodeKind")

end Component

/-! ## Nodes and edges -/

/-- The members a node or an edge does not know, in the order they came. -/
def extraOf (members : List (String × Value)) : Attributes :=
  Attributes.ofMembers (members.map fun m => (m.1, m.2.tidy))

namespace Node

/-- What has been read of a node; the members for later come last one first. -/
structure Draft where
  id : Option String := none
  position : Option Position := none
  later : List (String × Value) := []

def shape (levels : Nat) : Shape Draft Node where
  start := {}
  take st key :=
    if key = "id" then
      if st.id.isSome then .error (.repeatedField "id")
      else .ok (Reader.string.map fun id => { st with id := some id })
    else if key = "position" then
      if st.position.isSome then .error (.repeatedField "position")
      else .ok ((Position.reader levels).map fun p => { st with position := some p })
    else .ok ((Reader.value levels).map fun v => { st with later := (key, v) :: st.later })
  finish st :=
    match st.id with
    | none => .error (.missingField "id")
    | some id =>
      let members := st.later.reverse
      (Component.ofMembers members).map fun component =>
        { id, component, position := st.position.getD .origin
          extra := extraOf (members.filter fun (key, _) => key != "type" && key != "data") }

def reader (levels : Nat) : Reader Node := Reader.record levels "struct Node" shape

end Node

namespace Edge

structure Draft where
  id : Option String := none
  source : Option String := none
  target : Option String := none
  later : List (String × Value) := []

def shape (levels : Nat) : Shape Draft Edge where
  start := {}
  take st key :=
    if key = "id" then
      if st.id.isSome then .error (.repeatedField "id")
      else .ok (Reader.string.map fun id => { st with id := some id })
    else if key = "source" then
      if st.source.isSome then .error (.repeatedField "source")
      else .ok (Reader.string.map fun id => { st with source := some id })
    else if key = "target" then
      if st.target.isSome then .error (.repeatedField "target")
      else .ok (Reader.string.map fun id => { st with target := some id })
    else .ok ((Reader.value levels).map fun v => { st with later := (key, v) :: st.later })
  finish st :=
    match st.id, st.source, st.target with
    | none, _, _ => .error (.missingField "id")
    | _, none, _ => .error (.missingField "source")
    | _, _, none => .error (.missingField "target")
    | some id, some source, some target =>
      .ok { id, source, target, extra := extraOf st.later.reverse }

def reader (levels : Nat) : Reader Edge := Reader.record levels "struct Edge" shape

end Edge

/-! ## Graphs -/

namespace Graph

def shape (levels : Nat) : Shape (Option (List Node) × Option (List Edge)) Graph where
  start := (none, none)
  take st key :=
    if key = "nodes" then
      if st.1.isSome then .error (.repeatedField "nodes")
      else .ok ((Reader.listOf levels Node.reader).map fun nodes => (some nodes, st.2))
    else if key = "edges" then
      if st.2.isSome then .error (.repeatedField "edges")
      else .ok ((Reader.listOf levels Edge.reader).map fun edges => (st.1, some edges))
    else .ok (Reader.skipThen st)
  finish st := .ok { nodes := st.1.getD [], edges := st.2.getD [] }

def reader (levels : Nat) : Reader Graph :=
  Reader.recordOrTuple levels "struct Graph" shape ["nodes", "edges"] fun _ => none

/-- The chart a text describes, whether or not its ids make sense. -/
def parse (text : String) : Except Json.Report Graph :=
  (reader Reader.maxLevels).read text

end Graph

end CrewChart

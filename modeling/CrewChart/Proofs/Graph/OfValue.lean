import CrewChart.Proofs.Json.Decoding
import CrewChart.Graph.Reader

/-!
# A chart as a function of the value of its text

`Graph.ofValue?` makes a chart of a JSON value, as the readers of `CrewChart.Graph.Reader` make one
of a text: each `step` here follows the shape of the same name.  That the two agree is
`Graph.exists_value_of_parse` and `Graph.parse_of_value`; what is proved about saving and loading
is proved about `Graph.ofValue?`.
-/

set_option autoImplicit false

namespace CrewChart

open Json (Value Reader)
open Json.Reader (Decodes once decodeItems decodeRecord decodeTuple)

/-! ## Single values -/

/-- Any number, as a binary64 number. -/
def Json.Value.binary64? : Value → Option Binary64
  | .number n => some n.nearest
  | _ => none

theorem decodes_string (levels : Nat) : Decodes levels Reader.string Value.string? :=
  Json.Reader.decodes_ofScalar levels "a string" (fun _ => rfl) (fun _ => rfl)
    fun v => by cases v <;> rfl

/-- A coordinate may be any number, also an integer. -/
theorem decodes_binary64 (levels : Nat) : Decodes levels Reader.binary64 Value.binary64? :=
  Json.Reader.decodes_ofScalar levels "f64" (fun _ => rfl) (fun _ => rfl)
    fun v => by cases v <;> rfl

/-! ## Positions -/

namespace Position

def step (st : Option Binary64 × Option Binary64) (key : String) :
    Value → Option (Option Binary64 × Option Binary64) :=
  if key = "x" then once st.1 Value.binary64? fun x => (some x, st.2)
  else if key = "y" then once st.2 Value.binary64? fun y => (st.1, some y)
  else fun _ => some st

theorem steps (levels : Nat) : shape.Steps levels step := fun st _ =>
  ((decodes_binary64 levels).takes_once _ _ _).ite
    (((decodes_binary64 levels).takes_once _ _ _).ite
      (Json.Reader.decodes_skipThen levels st).takes)

/-- The position a value describes, with members or with fields in their order. -/
def ofValue? : Value → Option Position :=
  decodeTuple shape step ["x", "y"] fun length =>
    some (.wrongLength length "struct Position with 2 elements")

theorem decodes (levels : Nat) : Decodes (levels + 1) (reader (levels + 1)) ofValue? :=
  Json.Reader.decodes_recordOrTuple (steps levels) _ _ _

end Position

/-! ## Nodes and edges -/

namespace Node

def step (st : Draft) (key : String) : Value → Option Draft :=
  if key = "id" then once st.id Value.string? fun id => { st with id := some id }
  else if key = "position" then
    once st.position Position.ofValue? fun p => { st with position := some p }
  else fun v => some { st with later := (key, v) :: st.later }

theorem steps (levels : Nat) : (shape (levels + 1)).Steps (levels + 1) step := fun _ _ =>
  ((decodes_string _).takes_once _ _ _).ite
    (((Position.decodes levels).takes_once _ _ _).ite
      ((Json.Reader.decodes_value _).map _).takes)

/-- The node an object describes.  How deep it may nest makes no difference to what it is. -/
def ofValue? : Value → Option Node := decodeRecord (shape 0) step

/-- A node takes two levels, because its position has members of its own. -/
theorem decodes (levels : Nat) : Decodes (levels + 2) (reader (levels + 2)) ofValue? :=
  Json.Reader.decodes_record (steps levels) _

end Node

namespace Edge

def step (st : Draft) (key : String) : Value → Option Draft :=
  if key = "id" then once st.id Value.string? fun id => { st with id := some id }
  else if key = "source" then
    once st.source Value.string? fun id => { st with source := some id }
  else if key = "target" then
    once st.target Value.string? fun id => { st with target := some id }
  else fun v => some { st with later := (key, v) :: st.later }

theorem steps (levels : Nat) : (shape levels).Steps levels step := fun _ _ =>
  ((decodes_string _).takes_once _ _ _).ite
    (((decodes_string _).takes_once _ _ _).ite
      (((decodes_string _).takes_once _ _ _).ite
        ((Json.Reader.decodes_value _).map _).takes))

/-- The edge an object describes. -/
def ofValue? : Value → Option Edge := decodeRecord (shape 0) step

theorem decodes (levels : Nat) : Decodes (levels + 1) (reader (levels + 1)) ofValue? :=
  Json.Reader.decodes_record (steps levels) _

end Edge

/-! ## Graphs -/

namespace Graph

def step (st : Option (List Node) × Option (List Edge)) (key : String) :
    Value → Option (Option (List Node) × Option (List Edge)) :=
  if key = "nodes" then once st.1 (decodeItems Node.ofValue?) fun nodes => (some nodes, st.2)
  else if key = "edges" then once st.2 (decodeItems Edge.ofValue?) fun edges => (st.1, some edges)
  else fun _ => some st

theorem steps (levels : Nat) : (shape (levels + 3)).Steps (levels + 3) step := fun st _ =>
  ((Json.Reader.decodes_listOf (Node.decodes levels)).takes_once _ _ _).ite
    (((Json.Reader.decodes_listOf (Edge.decodes (levels + 1))).takes_once _ _ _).ite
      (Json.Reader.decodes_skipThen _ st).takes)

/-- The chart a value describes, whether or not its ids make sense. -/
def ofValue? : Value → Option Graph :=
  decodeTuple (shape 0) step ["nodes", "edges"] fun _ => none

theorem decodes (levels : Nat) : Decodes (levels + 4) (reader (levels + 4)) ofValue? :=
  Json.Reader.decodes_recordOrTuple (steps levels) _ _ _

/-- **A chart that is read from a text is the chart of the value the text holds.** -/
theorem exists_value_of_parse {text : String} {g : Graph} (h : parse text = .ok g) :
    ∃ v, (Reader.lenient Reader.maxLevels).read text = .ok v ∧ ofValue? v = some g :=
  (decodes 123).read_sound h

/-- **The chart of a value is read from every text that holds the value.** -/
theorem parse_of_value {text : String} {v : Value} {g : Graph}
    (hv : (Reader.value Reader.maxLevels).read text = .ok v) (h : ofValue? v = some g) :
    parse text = .ok g :=
  (decodes 123).read_complete hv h

end Graph

end CrewChart

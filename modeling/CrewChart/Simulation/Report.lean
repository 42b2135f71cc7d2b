import CrewChart.Json.Skip
import CrewChart.Simulation.Walk
import CrewChart.Text.Instant

/-!
# Reports of a simulation

A report lists the nodes that were evaluated and a record for each, in order.  A chart without a
start gets a report with no node and one record, an error that belongs to no node.

A record has the instant it was made.  A report is also read back, from the form it is written in.
-/

set_option autoImplicit false

namespace CrewChart.Simulation

open Json (Value Reader)
open Json.Reader (Shape)
open Text (Instant)

structure Record where
  outcome : Outcome
  instant : Instant
deriving DecidableEq, Repr

structure Report where
  completed : List String
  records : List Record
  complete : Bool
deriving DecidableEq, Repr

/-- What is recorded when there is nowhere to start. -/
def noStart : Outcome := ⟨"", .error, "No starting nodes found in the flow"⟩

/-- The report of a simulation, given the records of its outcomes. -/
def Report.ofRecords (records : List Record) : Report :=
  ⟨records.map fun r => r.outcome.node, records, true⟩

/-- The report when there is nowhere to start. -/
def Report.nowhere (instant : Instant) : Report := ⟨[], [⟨noStart, instant⟩], true⟩

variable {m : Type → Type} [Monad m]

/-- Simulates a chart: `stamp` is asked for the instant of every record, one after the other, and
told whether a node was evaluated for it. -/
def simulateM (stamp : Bool → m Instant) (g : Graph) : m Report := do
  match outcomes g with
  | [] => return .nowhere (← stamp false)
  | found => return .ofRecords (← found.mapM fun o => return ⟨o, ← stamp true⟩)

/-- A simulation in which everything happens at one instant. -/
def simulate (instant : Instant) (g : Graph) : Report :=
  simulateM (m := Id) (fun _ => instant) g

/-- How many records have each status. -/
structure Counts where
  success : Nat
  warning : Nat
  error : Nat
deriving DecidableEq, Repr

namespace Report

def count (r : Report) (s : Status) : Nat := r.records.countP fun x => x.outcome.status == s

def counts (r : Report) : Counts := ⟨r.count .success, r.count .warning, r.count .error⟩

def hasErrors (r : Report) : Bool := r.records.any fun x => x.outcome.status == .error

/-- The first record of a node. -/
def record? (r : Report) (node : String) : Option Record :=
  r.records.find? fun x => x.outcome.node == node

end Report

/-! ## Writing -/

def Record.toValue (r : Record) : Value :=
  .object [("nodeId", .string r.outcome.node), ("status", .string r.outcome.status.name),
    ("message", .string r.outcome.message), ("timestamp", .string r.instant.text)]

def Report.toValue (r : Report) : Value :=
  .object [("completedNodes", .array (r.completed.map .string)),
    ("records", .array (r.records.map Record.toValue)), ("isComplete", .boolean r.complete)]

def Counts.toValue (c : Counts) : Value :=
  .object [("success", .ofNat c.success), ("warning", .ofNat c.warning), ("error", .ofNat c.error)]

/-! ## Reading -/

def instantReader : Reader Instant :=
  Reader.ofScalar "an RFC 3339 formatted date and time string" fun
    | .string s => some ((Instant.parse s).mapError fun f => .notInstant f.message)
    | _ => none

namespace Record

structure Draft where
  node : Option String := none
  status : Option Status := none
  message : Option String := none
  instant : Option Instant := none

def shape (levels : Nat) : Shape Draft Record where
  start := {}
  take st key :=
    if key = "nodeId" then
      if st.node.isSome then .error (.repeatedField "nodeId")
      else .ok (Reader.string.map fun s => { st with node := some s })
    else if key = "status" then
      if st.status.isSome then .error (.repeatedField "status")
      else .ok ((Reader.variant levels Status.named).map fun s => { st with status := some s })
    else if key = "message" then
      if st.message.isSome then .error (.repeatedField "message")
      else .ok (Reader.string.map fun s => { st with message := some s })
    else if key = "timestamp" then
      if st.instant.isSome then .error (.repeatedField "timestamp")
      else .ok (instantReader.map fun i => { st with instant := some i })
    else .ok (Reader.skipThen st)
  finish st :=
    match st.node, st.status, st.message, st.instant with
    | none, _, _, _ => .error (.missingField "nodeId")
    | _, none, _, _ => .error (.missingField "status")
    | _, _, none, _ => .error (.missingField "message")
    | _, _, _, none => .error (.missingField "timestamp")
    | some node, some status, some message, some instant =>
      .ok ⟨⟨node, status, message⟩, instant⟩

def reader (levels : Nat) : Reader Record :=
  Reader.recordOrTuple levels "struct ExecutionRecord" shape
    ["nodeId", "status", "message", "timestamp"]
    fun length => some (.wrongLength length "struct ExecutionRecord with 4 elements")

end Record

namespace Report

structure Draft where
  completed : Option (List String) := none
  records : Option (List Record) := none
  complete : Option Bool := none

def shape (levels : Nat) : Shape Draft Report where
  start := {}
  take st key :=
    if key = "completedNodes" then
      if st.completed.isSome then .error (.repeatedField "completedNodes")
      else .ok ((Reader.listOf levels fun _ => Reader.string).map fun ids =>
        { st with completed := some ids })
    else if key = "records" then
      if st.records.isSome then .error (.repeatedField "records")
      else .ok ((Reader.listOf levels Record.reader).map fun rs => { st with records := some rs })
    else if key = "isComplete" then
      if st.complete.isSome then .error (.repeatedField "isComplete")
      else .ok (Reader.boolean.map fun b => { st with complete := some b })
    else .ok (Reader.skipThen st)
  finish st :=
    match st.completed, st.records, st.complete with
    | none, _, _ => .error (.missingField "completedNodes")
    | _, none, _ => .error (.missingField "records")
    | _, _, none => .error (.missingField "isComplete")
    | some completed, some records, some complete => .ok ⟨completed, records, complete⟩

def reader (levels : Nat) : Reader Report :=
  Reader.recordOrTuple levels "struct SimulationReport" shape
    ["completedNodes", "records", "isComplete"]
    fun length => some (.wrongLength length "struct SimulationReport with 3 elements")

/-- The report a text holds. -/
def parse (text : String) : Except Json.Report Report := (reader Reader.maxLevels).read text

end Report

end CrewChart.Simulation

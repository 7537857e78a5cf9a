import Workbay.Data.Dict
import Workbay.Data.Text
import Workbay.Effects.Machine
import Mathlib.Data.String.Basic
import Mathlib.Order.Lattice

/-!
# The log of lane events

Events are appended once for each key and are read in the order of their ids. A consumer has an
offset, the highest id that it has acknowledged; a compaction deletes old events that the stored
offsets are past. Every operation is one transaction of the database.
-/

namespace Workbay.Events

open List

/-! ## Rows -/

/-- `LANE_EVENT_KINDS` -/
inductive EventKind where
  | dispatched
  | started
  | checkpoint
  | completed
  | failed
  | needsGuidance
  | acked
  | reaped
deriving DecidableEq

namespace EventKind

/-- The text of a kind. -/
def text : EventKind → String
  | dispatched => "dispatched"
  | started => "started"
  | checkpoint => "checkpoint"
  | completed => "completed"
  | failed => "failed"
  | needsGuidance => "needs_guidance"
  | acked => "acked"
  | reaped => "reaped"

/-- All kinds. -/
def all : List EventKind :=
  [dispatched, started, checkpoint, completed, failed, needsGuidance, acked, reaped]

/-- The kind that a text names. -/
def ofText? (s : String) : Option EventKind := all.find? fun k => k.text = s

/-- `TERMINAL_LANE_EVENT_KINDS` -/
def isTerminal (k : EventKind) : Bool := k ∈ [completed, failed, reaped]

end EventKind

/-- What `UNIQUE` ranges over. -/
structure EventKey where
  taskRef : String
  laneId : String
  dispatchId : String
  kind : EventKind
deriving DecidableEq

/-- A row of `lane_events`. -/
structure LaneEvent where
  id : Nat
  key : EventKey
  payloadJson : String
  createdAt : String
deriving DecidableEq

/-- A row of `lane_event_consumers`. -/
structure Consumer where
  lastEventId : Nat
  updatedAt : String
deriving DecidableEq

/-- The two tables. Ids are never used again: `sequence` is the highest that there has been. -/
structure EventLog where
  events : List LaneEvent
  sequence : Nat
  consumers : Dict String Consumer
  sorted : events.Pairwise fun a b => a.id < b.id
  bounded : ∀ e ∈ events, 0 < e.id ∧ e.id ≤ sequence
  unique : events.Pairwise fun a b => a.key ≠ b.key

namespace EventLog

/-- The tables as `_ensure_schema` creates them. -/
def empty : EventLog where
  events := []
  sequence := 0
  consumers := []
  sorted := List.Pairwise.nil
  bounded := by simp
  unique := List.Pairwise.nil

/-- `_consumer_offset` -/
def consumerOffset (log : EventLog) (consumer : String) : Nat :=
  match log.consumers.get? consumer with
  | some row => row.lastEventId
  | none => 0

/-- The events past the offset of a consumer. -/
def pending (log : EventLog) (consumer : String) : List LaneEvent :=
  log.events.filter fun e => log.consumerOffset consumer < e.id

/-- `MIN(last_event_id)` -/
def watermark (log : EventLog) : Option Nat := (log.consumers.map fun c => c.2.lastEventId).min?

/-- The row with a key. -/
def find? (log : EventLog) (key : EventKey) : Option LaneEvent :=
  log.events.find? fun e => e.key = key

end EventLog

/-! ## Arguments -/

/-- What the operations raise. -/
inductive EventError where
  | valueError (text : String)
  /-- `unknown lane event kind: {kind!r}` -/
  | unknownKind (kind : String)
  | typeError (text : String)
  | runtimeError (text : String)
  /-- A number or a date is out of the range of the database or of `datetime`. -/
  | overflowError
deriving DecidableEq

/-- `_require_text` -/
def requireText (value field : String) : Except EventError String :=
  if Text.strip value = "" then .error (.valueError (field ++ " must be a non-empty string"))
  else .ok (Text.strip value)

/-- `_require_kind` -/
def requireKind (kind : String) : Except EventError EventKind :=
  match requireText kind "kind" with
  | .error e => .error e
  | .ok normalized =>
    match EventKind.ofText? normalized with
    | some k => .ok k
    | none => .error (.unknownKind normalized)

/-- `int(value)`, where an argument that is no number is `none` -/
def requireInt (value : Option Int) (field : String) : Except EventError Int :=
  match value with
  | some n => .ok n
  | none => .error (.valueError (field ++ " must be an integer"))

/-- `READ_LIMIT_MAX` -/
def readLimitMax : Int := 500

/-- `_clamp_read_limit` -/
def clampReadLimit (limit : Int) : Nat := (max 1 (min limit readLimitMax)).toNat

/-- The integers that the database holds. -/
def inRange (n : Int) : Bool := decide (-9223372036854775808 ≤ n ∧ n ≤ 9223372036854775807)

/-- The arguments of `append_lane_event`; `payload` is what `_payload_json` makes of the payload. -/
structure Append where
  taskRef : String
  laneId : String
  dispatchId : String
  kind : String
  payload : Except EventError String := .ok "\x7b\x7d"
deriving DecidableEq

/-- The key of the row to append. -/
def Append.key (a : Append) : Except EventError EventKey := do
  let taskRef ← requireText a.taskRef "task_ref"
  let laneId ← requireText a.laneId "lane_id"
  let dispatchId ← requireText a.dispatchId "dispatch_id"
  let kind ← requireKind a.kind
  return { taskRef, laneId, dispatchId, kind }

/-! ## Operations -/

namespace EventLog

variable {log : EventLog} {row : LaneEvent}

theorem sorted_concat (h : log.sequence < row.id) :
    (log.events ++ [row]).Pairwise fun a b => a.id < b.id := by
  rw [pairwise_append]
  refine ⟨log.sorted, pairwise_singleton _ _, fun a ha b hb => ?_⟩
  obtain rfl := mem_singleton.mp hb
  exact lt_of_le_of_lt (log.bounded a ha).2 h

theorem bounded_concat (h : log.sequence < row.id) :
    ∀ e ∈ log.events ++ [row], 0 < e.id ∧ e.id ≤ row.id := by
  intro e he
  rcases mem_append.mp he with he | he
  · exact ⟨(log.bounded e he).1, (log.bounded e he).2.trans h.le⟩
  · obtain rfl := mem_singleton.mp he
    exact ⟨lt_of_le_of_lt (Nat.zero_le _) h, le_rfl⟩

theorem unique_concat (h : ∀ e ∈ log.events, e.key ≠ row.key) :
    (log.events ++ [row]).Pairwise fun a b => a.key ≠ b.key := by
  rw [pairwise_append]
  refine ⟨log.unique, pairwise_singleton _ _, fun a ha b hb => ?_⟩
  obtain rfl := mem_singleton.mp hb
  exact h a ha

theorem bounded_burn (log : EventLog) (gap : Nat) :
    ∀ e ∈ log.events, 0 < e.id ∧ e.id ≤ log.sequence + gap := by
  intro e he
  exact ⟨(log.bounded e he).1, (log.bounded e he).2.trans (Nat.le_add_right _ _)⟩

/-- The id of the next row; the database may leave out `gap` ids. -/
def nextId (log : EventLog) (gap : Nat) : Nat := log.sequence + gap + 1

theorem sequence_lt_nextId (log : EventLog) (gap : Nat) : log.sequence < log.nextId gap := by
  unfold nextId
  omega

/-- `INSERT OR IGNORE` -/
def insertOrIgnore (log : EventLog) (key : EventKey) (payloadJson now : String) (gap : Nat) :
    EventLog :=
  if h : ∀ e ∈ log.events, e.key ≠ key then
    { log with
      events := log.events ++ [{ id := log.nextId gap, key, payloadJson, createdAt := now }]
      sequence := log.nextId gap
      sorted := sorted_concat (log.sequence_lt_nextId gap)
      bounded := bounded_concat (log.sequence_lt_nextId gap)
      unique := unique_concat h }
  else { log with sequence := log.sequence + gap, bounded := log.bounded_burn gap }

/-- The table with the offset of a consumer raised to `upto`. -/
def raiseOffset (log : EventLog) (consumer : String) (upto : Int) (now : String) : EventLog :=
  { log with
    consumers := log.consumers.set consumer
      { lastEventId := max (log.consumerOffset consumer) upto.toNat, updatedAt := now } }

/-- The row is the latest terminal one of its lane. -/
def isLatestTerminal (log : EventLog) (row : LaneEvent) : Bool :=
  row.key.kind.isTerminal && log.events.all fun e =>
    decide (e.id ≤ row.id) ||
      !(e.key.kind.isTerminal && decide (e.key.taskRef = row.key.taskRef) &&
        decide (e.key.laneId = row.key.laneId))

/-- The `WHERE` clause of a compaction. -/
def isExpired (log : EventLog) (watermark : Nat) (cutoff : String) (keepTerminal : Bool)
    (row : LaneEvent) : Bool :=
  decide (row.id ≤ watermark) && decide (row.createdAt < cutoff) &&
    !(keepTerminal && log.isLatestTerminal row)

/-- The table without the rows with some ids. -/
def delete (log : EventLog) (ids : List Nat) : EventLog :=
  { log with
    events := log.events.filter fun e => e.id ∉ ids
    sorted := log.sorted.filter _
    bounded := fun e he => log.bounded e (mem_filter.mp he).1
    unique := log.unique.filter _ }

end EventLog

/-- `append_lane_event` -/
def appendLaneEvent (a : Append) (now : String) (gap : Nat) (log : EventLog) :
    EventLog × Except EventError (Nat × Bool) :=
  match a.key, a.payload with
  | .error e, _ => (log, .error e)
  | .ok _, .error e => (log, .error e)
  | .ok key, .ok payloadJson =>
    match (log.insertOrIgnore key payloadJson now gap).find? key with
    | some row =>
      (log.insertOrIgnore key payloadJson now gap, .ok (row.id, (log.find? key).isNone))
    | none => (log.insertOrIgnore key payloadJson now gap,
      .error (.runtimeError "lane event insert did not persist a row"))

/-- `read_lane_events` -/
def readLaneEvents (consumer : String) (limit : Option Int) (log : EventLog) :
    Except EventError (List LaneEvent) := do
  let consumer ← requireText consumer "consumer"
  let limit ← requireInt limit "limit"
  return (log.pending consumer).take (clampReadLimit limit)

/-- `ack_lane_events` -/
def ackLaneEvents (consumer : String) (uptoId : Option Int) (now : String) (log : EventLog) :
    EventLog × Except EventError Nat :=
  match requireText consumer "consumer", requireInt uptoId "upto_id" with
  | .error e, _ => (log, .error e)
  | .ok _, .error e => (log, .error e)
  | .ok consumer, .ok target =>
    if inRange target then
      (log.raiseOffset consumer target now,
        .ok ((log.raiseOffset consumer target now).consumerOffset consumer))
    else (log, .error .overflowError)

/-- The arguments of `compact_lane_events`; `cutoff` is the text of the present less the days, if
`datetime` has it. -/
structure Compaction where
  olderThanDays : Option Int
  keepTerminal : Bool := true
  limit : Option Int := some 1000
  cutoff : Option String
deriving DecidableEq

/-- The number of rows to delete at most, if the arguments are fine. -/
def Compaction.deleteLimit (c : Compaction) : Except EventError Int := do
  let days ← requireInt c.olderThanDays "older_than_days"
  if days < 0 then .error (.valueError "older_than_days must be >= 0")
  requireInt c.limit "limit"

/-- The ids of the rows that a compaction deletes. -/
def EventLog.expired (log : EventLog) (c : Compaction) (watermark : Nat) (cutoff : String)
    (limit : Nat) : List Nat :=
  ((log.events.filter (log.isExpired watermark cutoff c.keepTerminal)).take limit).map (·.id)

/-- `compact_lane_events` -/
def compactLaneEvents (c : Compaction) (log : EventLog) : EventLog × Except EventError Nat :=
  match c.deleteLimit with
  | .error e => (log, .error e)
  | .ok limit =>
    if limit ≤ 0 then (log, .ok 0)
    else
      match log.watermark with
      | none => (log, .ok 0)
      | some 0 => (log, .ok 0)
      | some watermark =>
        match c.cutoff with
        | none => (log, .error .overflowError)
        | some cutoff =>
          if inRange limit then
            (log.delete (log.expired c watermark cutoff limit.toNat),
              .ok (log.expired c watermark cutoff limit.toNat).length)
          else (log, .error .overflowError)

/-! ## Runs -/

/-- A call of the module. -/
inductive Call where
  | append (a : Append) (now : String) (gap : Nat)
  | read (consumer : String) (limit : Option Int)
  | ack (consumer : String) (uptoId : Option Int) (now : String)
  | compact (c : Compaction)
deriving DecidableEq

/-- What a call answers. -/
inductive Reply where
  | appended (result : Except EventError (Nat × Bool))
  | events (result : Except EventError (List LaneEvent))
  | offset (result : Except EventError Nat)
  | deleted (result : Except EventError Nat)

/-- One call. -/
def Call.run (log : EventLog) : Call → EventLog × Reply
  | .append a now gap =>
    ((appendLaneEvent a now gap log).1, .appended (appendLaneEvent a now gap log).2)
  | .read consumer limit => (log, .events (readLaneEvents consumer limit log))
  | .ack consumer uptoId now =>
    ((ackLaneEvents consumer uptoId now log).1, .offset (ackLaneEvents consumer uptoId now log).2)
  | .compact c => ((compactLaneEvents c log).1, .deleted (compactLaneEvents c log).2)

/-- The calls, one transaction after the other. -/
def machine : Effects.Machine EventLog Call Reply := ⟨Call.run⟩

end Workbay.Events

import Workbay.Wave.Journal
import Workbay.Wave.Scheduler

/-!
# Replaying a wave journal

The supervisor keeps no state of its own: it folds the events of the journal into one record for
each lane. An event that claims an integration counts only if the wave branch proves the claim.
-/

namespace Workbay.Wave

open Git

/-- An exception of the supervisor. -/
inductive Failure where
  /-- `_SupervisorError` -/
  | supervisor (reason : String)
  /-- `wave_journal.JournalError` -/
  | journal (reason : String)
  /-- A `TypeError` or a `KeyError`. -/
  | type
deriving DecidableEq

/-- The status of a lane with the data that is needed to resume it; a key that is absent is
`none`. -/
structure LaneState where
  state : LaneStatus := .pending
  attempt : Int := 0
  gateProbes : Int := 0
  job : Option Json := none
  branch : Option String := none
  tip : Option String := none
  detail : Option String := none
  ok : Option Bool := none
  gateReason : Option String := none
  reason : Option String := none
  blocker : Option String := none
  waveTip : Option String := none
  integrationUnproven : Option String := none
  admissionDeferredReason : Option String := none
deriving DecidableEq

/-- The lanes of a journal with their records. -/
abbrev LaneStates := Dict LaneId LaneState

/-- `states.get(lane_id, {})`: a lane without a record is pending. -/
def LaneStates.lane (states : LaneStates) (laneId : LaneId) : LaneState :=
  states.getD laneId {}

/-! ## Validation -/

/-- The types that the fields of an event are checked for. -/
inductive FieldType where
  | str
  | int
  | bool
  | dict
  | list
deriving DecidableEq

/-- Whether a value has a type; a boolean is no integer. -/
def FieldType.accepts : FieldType → Json → Bool
  | .str, .str _ | .int, .int _ | .bool, .bool _ | .dict, .obj _ | .list, .arr _ => true
  | _, _ => false

/-- `_REPLAY_REQUIRED_FIELDS` -/
def replayRequiredFields : Dict String (Dict String FieldType) := [
  ("lane.submitted", [("lane_id", .str), ("attempt", .int), ("job", .dict)]),
  ("lane.admission_deferred", [("lane_id", .str), ("reason", .str)]),
  ("lane.collected", [("lane_id", .str), ("attempt", .int), ("ok", .bool), ("branch", .str),
    ("tip", .str), ("detail", .str)]),
  ("lane.gated", [("lane_id", .str), ("ok", .bool), ("reason", .str), ("tip", .str)]),
  ("lane.integrated", [("lane_id", .str), ("tip", .str), ("wave_tip", .str)]),
  ("lane.failed", [("lane_id", .str), ("reason", .str)]),
  ("lane.parked", [("lane_id", .str), ("reason", .str)]),
  ("wave.refused", [("reason", .str)])]

/-- `_REPLAY_OPTIONAL_FIELDS` -/
def replayOptionalFields : Dict String (Dict String FieldType) := [
  ("lane.gated", [("probe", .int)]),
  ("lane.failed", [("detail", .str)]),
  ("lane.parked", [("detail", .str), ("blocker", .str), ("attempt", .int), ("ok", .bool),
    ("tip", .str)]),
  ("wave.refused", [("problems", .list)])]

variable (e : JournalEvent)

/-- A string field. -/
def JournalEvent.str? (field : String) : Option String :=
  (e.fields.get? field).bind Json.str?

/-- An integer field. -/
def JournalEvent.int? (field : String) : Option Int :=
  (e.fields.get? field).bind Json.int?

/-- A boolean field. -/
def JournalEvent.bool? (field : String) : Option Bool :=
  (e.fields.get? field).bind Json.bool?

/-- Whether a value is false in a condition. -/
def isFalsy : Json → Bool
  | .null => true
  | .bool b => !b
  | .int i => decide (i = 0)
  | .float _ digits _ => decide (digits = 0)
  | .str s => decide (s = "")
  | .arr xs => xs.isEmpty
  | .obj members => members.isEmpty

/-- The refusal of a field of an event. -/
def invalidField (field : String) : Failure :=
  .supervisor ("invalid_journal_event:" ++ e.kind ++ "." ++ field)

/-- The first field that is refused by its type. -/
def mistypedField : Option String :=
  let required := (replayRequiredFields.getD e.kind []).find? fun f =>
    !((e.fields.get? f.1).any f.2.accepts)
  let optional := (replayOptionalFields.getD e.kind []).find? fun f =>
    (e.fields.get? f.1).any fun value => !f.2.accepts value
  (required.or optional).map Prod.fst

/-- Whether a string field is absent or a full object id. -/
def hasFullId (objectIdLength : Nat) (e : JournalEvent) (field : String) : Bool :=
  (e.str? field).all fun value => isFullObjectId value objectIdLength

/-- The first field that is refused by its value, among fields of the right types. -/
def invalidValue (objectIdLength : Nat) (e : JournalEvent) : Option String :=
  if (e.fields.get? "lane_id").any fun l => decide (l ≠ .null) && isFalsy l then
    some "lane_id"
  else if e.kind = "lane.submitted" then
    if (e.int? "attempt").any (· < 1) then some "attempt" else none
  else if e.kind = "lane.collected" then
    if (e.int? "attempt").any (· < 1) then some "attempt"
    else if !hasFullId objectIdLength e "tip" then some "tip"
    else none
  else if e.kind = "lane.gated" then
    if !hasFullId objectIdLength e "tip" then some "tip"
    else if e.bool? "ok" = some false ∧ !(e.int? "probe").any (1 ≤ ·) then some "probe"
    else none
  else if e.kind = "lane.integrated" then
    if !hasFullId objectIdLength e "tip" then some "tip"
    else if !hasFullId objectIdLength e "wave_tip" then some "wave_tip"
    else none
  else if e.kind = "lane.parked" then
    if (e.int? "attempt").any (· < 1) then some "attempt"
    else if !hasFullId objectIdLength e "tip" then some "tip"
    else none
  else none

/-- `_validate_replay_event`: refuse malformed fields on known events. -/
def validateReplayEvent (objectIdLength : Nat) (e : JournalEvent) : Except Failure Unit :=
  if replayRequiredFields.get? e.kind = none then .ok ()
  else
    match (mistypedField e).or (invalidValue objectIdLength e) with
    | some field => .error (invalidField e field)
    | none => .ok ()

/-! ## Integration proofs -/

/-- The branch of a wave. -/
def waveBranch (wave : String) : String := "refs/heads/wave/" ++ wave

/-- `_integration_unproven_reason`: why an integration event cannot be proven against the current
refs; `none` if it is proven. -/
def integrationUnprovenReason (repo : Repo) (wave tip waveTip : String) : Option String :=
  match repo.isAncestor tip waveTip with
  | none => some "integration_proof_failed"
  | some false => some "tip_not_in_recorded_wave"
  | some true =>
    if repo.isSymbolic (waveBranch wave) then some "wave_ref_symbolic"
    else
      match repo.refTip (waveBranch wave) with
      | none => some "wave_ref_missing"
      | some currentTip =>
        match repo.isAncestor waveTip currentTip with
        | none => some "integration_proof_failed"
        | some false => some "recorded_wave_tip_not_current"
        | some true => none

/-! ## Replay -/

/-- What an event does to the record of its lane. The reasons why an integration is unproven are
given by `unproven`. -/
def LaneState.apply (unproven : String → String → Option String) (st : LaneState)
    (e : JournalEvent) : LaneState :=
  match e.kind with
  | "lane.submitted" =>
    { st with
      state := .running
      attempt := (e.int? "attempt").getD st.attempt
      job := e.fields.get? "job"
      branch := none
      tip := none
      detail := none
      gateProbes := 0
      admissionDeferredReason := none }
  | "lane.admission_deferred" => { st with admissionDeferredReason := e.str? "reason" }
  | "lane.collected" =>
    { st with
      state := .collected
      ok := e.bool? "ok"
      branch := e.str? "branch"
      tip := e.str? "tip"
      detail := e.str? "detail"
      gateProbes := 0 }
  | "lane.gated" =>
    if e.bool? "ok" = some true then
      if st.state = .collected ∧ st.tip = e.str? "tip" then
        { st with state := .gated, gateReason := e.str? "reason" }
      else st
    else
      { st with
        state := .collected
        gateProbes := max st.gateProbes ((e.int? "probe").getD 0)
        gateReason := e.str? "reason" }
  | "lane.integrated" =>
    let tip := (e.str? "tip").getD ""
    let waveTip := (e.str? "wave_tip").getD ""
    match unproven tip waveTip with
    | none =>
      { st with
        state := .integrated, tip := some tip, waveTip := some waveTip
        integrationUnproven := none }
    | some reason =>
      { st with state := .gated, tip := some tip, integrationUnproven := some reason }
  | "lane.failed" =>
    { st with state := .failed, reason := e.str? "reason", detail := e.str? "detail" }
  | "lane.parked" =>
    { st with
      state := .parked
      reason := e.str? "reason"
      detail := e.str? "detail"
      blocker := e.str? "blocker" }
  | _ => st

/-- One event of the journal. A lane id that is no string gives a record that nothing reads; one
that cannot be a key is an exception. -/
def replayEvent (unproven : String → String → Option String) (objectIdLength : Nat)
    (states : LaneStates) (e : JournalEvent) : Except Failure LaneStates := do
  validateReplayEvent objectIdLength e
  if e.kind = "wave.refused" then return states
  else
    match e.fields.get? "lane_id" with
    | none | some .null => return states
    | some (.str laneId) =>
      return states.set laneId ((states.lane laneId).apply unproven e)
    | some (.arr _) | some (.obj _) => .error .type
    | some _ => return states

/-- `replay`: fold the events of the journal, read against the repository, into lane records. -/
def replay (repo : Repo) (wave : String) (events : List JournalEvent) :
    Except Failure LaneStates :=
  events.foldlM (replayEvent (integrationUnprovenReason repo wave) repo.objectIdLength) []

end Workbay.Wave

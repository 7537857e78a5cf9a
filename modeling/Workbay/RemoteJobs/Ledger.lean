import Workbay.Data.Dict
import Workbay.Effects.Machine

/-!
# The ledger of remote jobs

A record for every remote job and, for every job whose completion is to be tried again, a deferral.
Each operation on a record reads it, changes it and replaces its file under the lock of the ledger.
-/

namespace Workbay.RemoteJobs

/-! ## Contracts -/

/-- `RemoteJobSpec`; `extras` is the sorted text of the fields that are not known. -/
structure RemoteJobSpec where
  jobId : String
  taskRef : String
  laneId : String
  passId : String
  attempt : Int
  backend : String
  branch : String
  laneKey : String
  argv : List String
  boundSeconds : Int
  createdAt : String
  extras : String := "\x7b\x7d"
deriving DecidableEq

/-- `WakeEvent` -/
structure WakeEvent where
  jobId : String
  passId : String
  kind : String
  rc : Option Int
  observedAt : String
  extras : String := "\x7b\x7d"
deriving DecidableEq

/-- A lower case hexadecimal digit. -/
def isHexDigit (c : Char) : Bool := ('0' ≤ c && c ≤ '9') || ('a' ≤ c && c ≤ 'f')

/-- `JOB_ID_RE` -/
def isJobId (s : String) : Bool :=
  match s.toList with
  | 'j' :: digits => digits.length == 20 && digits.all isHexDigit
  | _ => false

/-! ## Records -/

/-- The stages of a job. -/
inductive Stage where
  | intent
  | submitted
  | done
  | completed
  | deadLetter
deriving DecidableEq

/-- The record of a job. -/
structure JobRecord where
  spec : RemoteJobSpec
  stage : Stage := .intent
  createdAt : String
  intentAt : String
  updatedAt : String
  attempts : Nat := 0
  unit : Option String := none
  rc : Option Int := none
  submitState : Option String := none
  submittedAt : Option String := none
  doneAt : Option String := none
  remoteState : Option String := none
  completedAt : Option String := none
  deadLetterAt : Option String := none
  lastError : Option String := none
  completionDeferredAt : Option String := none
  completionDeferredReason : Option String := none
deriving DecidableEq

/-- A job whose completion is to be tried again. -/
structure Deferral where
  jobId : String
  reason : String
  firstDeferredAt : String
  lastAttemptAt : String
  attempts : Nat
  event : WakeEvent
deriving DecidableEq

/-- The files of the records and the file of the deferrals. -/
structure Ledger where
  jobs : Dict String JobRecord := []
  deferrals : Dict String Deferral := []
deriving DecidableEq

/-- Why an operation is refused. -/
inductive LedgerError where
  | jobIdConflict
  | invalidJobId
  | invalidUnit
  | unitConflict
  | returnCodeConflict
  | invalidTransition
  | jobNotFound
  | ledgerLockTimeout
  | invalidDeferredState
  | invalidCursor
deriving DecidableEq

/-- The text of a refusal. -/
def LedgerError.reason : LedgerError → String
  | .jobIdConflict => "job_id_conflict"
  | .invalidJobId => "invalid_job_id"
  | .invalidUnit => "invalid_unit"
  | .unitConflict => "unit_conflict"
  | .returnCodeConflict => "return_code_conflict"
  | .invalidTransition => "invalid_transition"
  | .jobNotFound => "job_not_found"
  | .ledgerLockTimeout => "ledger_lock_timeout"
  | .invalidDeferredState => "invalid_deferred_state"
  | .invalidCursor => "invalid_cursor"

/-- The clock of an operation, and whether the lock is not taken before its deadline. -/
structure Timing where
  now : String
  timesOut : Bool := false
deriving DecidableEq

/-- `_MAX_HANDLER_ATTEMPTS` -/
def maxHandlerAttempts : Nat := 5

/-! ## What the operations do to a record -/

namespace JobRecord

/-- The update of `mark_submit_ambiguous` -/
def markSubmitAmbiguous (r : JobRecord) : Except LedgerError JobRecord :=
  .ok { r with submitState := some "ambiguous" }

/-- The update of `mark_submitted` -/
def markSubmitted (unit now : String) (r : JobRecord) : Except LedgerError JobRecord :=
  match r.stage with
  | .intent =>
    .ok { r with stage := .submitted, unit := some unit, submittedAt := some now }
  | .submitted | .done | .completed =>
    match r.unit with
    | none => .ok { r with unit := some unit }
    | some existing => if existing ≠ unit then .error .unitConflict else .ok r
  | .deadLetter => .error .invalidTransition

/-- The update of `mark_done` -/
def markDone (rc : Int) (lost : Bool) (now : String) (r : JobRecord) :
    Except LedgerError JobRecord :=
  match r.stage with
  | .intent | .submitted =>
    .ok { r with
      stage := .done
      rc := some rc
      doneAt := some now
      remoteState := if lost then some "lost" else r.remoteState }
  | .done | .completed => if r.rc ≠ some rc then .error .returnCodeConflict else .ok r
  | .deadLetter => .error .invalidTransition

/-- The update of `mark_completed` -/
def markCompleted (now : String) (r : JobRecord) : Except LedgerError JobRecord :=
  match r.stage with
  | .done =>
    .ok { r with
      stage := .completed
      completedAt := some now
      completionDeferredAt := none
      completionDeferredReason := none }
  | .completed => .ok r
  | _ => .error .invalidTransition

/-- The update of `_record_handler_failure` -/
def handlerFailure (reason now : String) (r : JobRecord) : Except LedgerError JobRecord :=
  if maxHandlerAttempts ≤ r.attempts + 1 then
    .ok { r with
      attempts := r.attempts + 1
      lastError := some reason
      stage := .deadLetter
      deadLetterAt := some now }
  else .ok { r with attempts := r.attempts + 1, lastError := some reason }

/-- The update of `_record_completion_deferral` -/
def completionDeferral (reason now : String) (r : JobRecord) : Except LedgerError JobRecord :=
  .ok { r with
    completionDeferredAt := some (r.completionDeferredAt.getD now)
    completionDeferredReason := some reason }

end JobRecord

/-! ## The operations -/

namespace Ledger

variable (jobId : String)

/-- The file of a record is replaced. -/
def setJob (record : JobRecord) (ledger : Ledger) : Ledger :=
  { ledger with jobs := ledger.jobs.set jobId record }

/-- `_update_job` -/
def updateJob (t : Timing) (update : JobRecord → Except LedgerError JobRecord)
    (ledger : Ledger) : Ledger × Except LedgerError JobRecord :=
  if isJobId jobId then
    if t.timesOut then (ledger, .error .ledgerLockTimeout)
    else
      match ledger.jobs.get? jobId with
      | none => (ledger, .error .jobNotFound)
      | some before =>
        match update before with
        | .error e => (ledger, .error e)
        | .ok record =>
          if record = before then (ledger, .ok record)
          else (ledger.setJob jobId { record with updatedAt := t.now },
            .ok { record with updatedAt := t.now })
  else (ledger, .error .invalidJobId)

/-- A deferral is one that `_read_deferrals` accepts. -/
def isDeferralValid (entry : String × Deferral) : Bool :=
  isJobId entry.1 && decide (entry.2.jobId = entry.1) && decide (entry.2.reason ≠ "") &&
    decide (1 ≤ entry.2.attempts) && decide (entry.2.event.jobId = entry.1)

/-- `_read_deferrals` -/
def readDeferrals (ledger : Ledger) : Except LedgerError (Dict String Deferral) :=
  if ledger.deferrals.all isDeferralValid then .ok ledger.deferrals
  else .error .invalidDeferredState

/-- `_remove_completion_deferral` -/
def removeCompletionDeferral (ledger : Ledger) :
    Ledger × Except LedgerError Unit :=
  if isJobId jobId then
    match ledger.readDeferrals with
    | .error e => (ledger, .error e)
    | .ok records => ({ ledger with deferrals := Dict.pop records jobId }, .ok ())
  else (ledger, .error .invalidJobId)

/-- An operation on a record that is followed by the removal of the deferral of its job. -/
def thenRemove (result : Ledger × Except LedgerError JobRecord) :
    Ledger × Except LedgerError JobRecord :=
  match result.2 with
  | .error e => (result.1, .error e)
  | .ok record =>
    match result.1.removeCompletionDeferral jobId with
    | (ledger, .error e) => (ledger, .error e)
    | (ledger, .ok ()) => (ledger, .ok record)

end Ledger

open Ledger (updateJob thenRemove)

/-- The record that `record_intent` writes. -/
def intentRecord (spec : RemoteJobSpec) (now : String) : JobRecord :=
  { spec, createdAt := spec.createdAt, intentAt := now, updatedAt := now }

/-- `record_intent` -/
def recordIntent (spec : RemoteJobSpec) (t : Timing) (ledger : Ledger) :
    Ledger × Except LedgerError JobRecord :=
  if isJobId spec.jobId then
    if t.timesOut then (ledger, .error .ledgerLockTimeout)
    else
      match ledger.jobs.get? spec.jobId with
      | some existing =>
        if existing.spec ≠ spec then (ledger, .error .jobIdConflict) else (ledger, .ok existing)
      | none =>
        (ledger.setJob spec.jobId (intentRecord spec t.now), .ok (intentRecord spec t.now))
  else (ledger, .error .invalidJobId)

/-- `mark_submit_ambiguous` -/
def markSubmitAmbiguous (jobId : String) (t : Timing) (ledger : Ledger) :
    Ledger × Except LedgerError JobRecord :=
  updateJob jobId t JobRecord.markSubmitAmbiguous ledger

/-- `mark_submitted` -/
def markSubmitted (jobId unit : String) (t : Timing) (ledger : Ledger) :
    Ledger × Except LedgerError JobRecord :=
  if unit = "" then (ledger, .error .invalidUnit)
  else updateJob jobId t (JobRecord.markSubmitted unit t.now) ledger

/-- `mark_done` -/
def markDone (jobId : String) (rc : Int) (lost : Bool) (t : Timing) (ledger : Ledger) :
    Ledger × Except LedgerError JobRecord :=
  updateJob jobId t (JobRecord.markDone rc lost t.now) ledger

/-- `mark_completed` -/
def markCompleted (jobId : String) (t : Timing) (ledger : Ledger) :
    Ledger × Except LedgerError JobRecord :=
  thenRemove jobId (updateJob jobId t (JobRecord.markCompleted t.now) ledger)

/-- `_record_handler_failure` -/
def recordHandlerFailure (jobId reason : String) (t : Timing) (ledger : Ledger) :
    Ledger × Except LedgerError JobRecord :=
  match updateJob jobId t (JobRecord.handlerFailure reason t.now) ledger with
  | (ledger', .ok record) =>
    if maxHandlerAttempts ≤ record.attempts then thenRemove jobId (ledger', .ok record)
    else (ledger', .ok record)
  | (ledger', .error e) => (ledger', .error e)

/-! ## Runs of calls -/

/-- A call that is about the record of one job. -/
inductive Call where
  | recordIntent (spec : RemoteJobSpec) (t : Timing)
  | markSubmitAmbiguous (jobId : String) (t : Timing)
  | markSubmitted (jobId unit : String) (t : Timing)
  | markDone (jobId : String) (rc : Int) (lost : Bool) (t : Timing)
  | markCompleted (jobId : String) (t : Timing)
  /-- A failure of the handler that `drain_wake` counts. -/
  | handlerFailure (jobId reason : String) (t : Timing)
deriving DecidableEq

/-- One call. -/
def Call.run (ledger : Ledger) : Call → Ledger × Except LedgerError JobRecord
  | .recordIntent spec t => RemoteJobs.recordIntent spec t ledger
  | .markSubmitAmbiguous jobId t => RemoteJobs.markSubmitAmbiguous jobId t ledger
  | .markSubmitted jobId unit t => RemoteJobs.markSubmitted jobId unit t ledger
  | .markDone jobId rc lost t => RemoteJobs.markDone jobId rc lost t ledger
  | .markCompleted jobId t => RemoteJobs.markCompleted jobId t ledger
  | .handlerFailure jobId reason t => recordHandlerFailure jobId reason t ledger

/-- The calls, one after the other. -/
def machine : Effects.Machine Ledger Call (Except LedgerError JobRecord) := ⟨Call.run⟩

end Workbay.RemoteJobs

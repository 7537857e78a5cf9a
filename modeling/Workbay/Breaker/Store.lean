import Workbay.Data.Dict
import Workbay.Data.Number
import Workbay.Data.Text
import Mathlib.Data.List.Infix
import Mathlib.Data.List.Sort
import Mathlib.Data.String.Basic

/-!
# The circuit breaker of worker dispatches

A row for every backend, and one for every model of a backend whose configuration was refused. An
open row refuses dispatches: of a configuration until an operator resets it, of a transport until
a trial is let through after the cooldown. Every operation runs under the lock of the file. A row
is what `_coerce_state` reads.
-/

namespace Workbay.Breaker

/-! ## Rows -/

/-- The states of a row. -/
inductive Phase where
  | closed
  | open_
  | halfOpen
deriving DecidableEq

/-- The classes of failures that rows hold. -/
inductive FailureClass where
  | configuration
  | transport
deriving DecidableEq

/-- Who runs a trial. -/
structure Owner where
  pid : Option Int := none
  passId : Option String := none
  session : Option String := none
deriving DecidableEq

/-- `BreakerState` -/
structure BreakerState where
  phase : Phase := .closed
  failureCount : Nat := 0
  failureClass : Option FailureClass := none
  openedAt : Option ℚ := none
  trialInProgress : Bool := false
  trialStartedAt : Option ℚ := none
  trialOwner : Owner := {}
  checkpointCount : Nat := 0
deriving DecidableEq

/-- What the file holds. -/
abbrev Data := Dict String BreakerState

/-- The row of a key, closed if there is none. -/
def row (data : Data) (key : String) : BreakerState := data.getD key {}

/-- Why a dispatch is let through or refused. -/
inductive Reason where
  | settings (error : String)
  | configuration (key : String)
  | closed
  | inProgress (owner : Owner)
  | rearmed
  | noTimestamp
  | leaseElapsed
  | cooling
  | cooled
  | trial
deriving DecidableEq

/-- `Admission` -/
structure Admission where
  allowed : Bool
  phase : Phase
  reason : Reason
  failureClass : Option FailureClass
  breakerKey : Option String := none
  openedAt : Option ℚ := none
  trialState : Option BreakerState := none
  trialArmable : Bool := false
deriving DecidableEq

/-! ## Settings -/

/-- `_settings` -/
structure Settings where
  threshold : Nat := 3
  cooldown : ℚ := 300
  error : Option String := none
deriving DecidableEq

/-- `_remaining_cooldown(..) > 0`, in floats: what is infinite is compared by its sign. -/
def isCooling (cooldown startedAt now : ℚ) : Bool :=
  match binary64 (now - startedAt) with
  | none => decide (now < startedAt)
  | some elapsed =>
    match binary64 (cooldown - elapsed) with
    | none => decide (elapsed < cooldown)
    | some remaining => decide (0 < remaining)

/-! ## Keys -/

/-- `str(value or "").strip()` -/
def normalized (value : Option String) : String := Text.strip (value.getD "")

variable (backend : String)

/-- `_configuration_key` -/
def configurationKey (model : Option String) : String :=
  if normalized model = "" then backend
  else backend ++ "::configuration::" ++ normalized model

/-- `_configuration_keys` -/
def configurationKeys (data : Data) (backend : String) : List String :=
  backend :: ((data.map Prod.fst).filter fun key =>
    (backend ++ "::configuration::").toList.isPrefixOf key.toList).insertionSort (· ≤ ·)

/-- A row of a configuration that an operator has to reset. -/
def BreakerState.isLatch (s : BreakerState) : Bool :=
  decide (s.phase = .open_) && decide (s.failureClass = some .configuration)

/-- `_first_open_configuration` -/
def firstOpenConfiguration (data : Data) (backend model : Option String) :
    Option (String × BreakerState) :=
  let normalizedBackend := normalized backend
  if normalizedBackend = "" then none
  else
    let ordered :=
      if normalized model = "" then configurationKeys data normalizedBackend
      else [configurationKey normalizedBackend (some (normalized model)), normalizedBackend]
    (ordered.find? fun key => (row data key).isLatch).map fun key => (key, row data key)

/-! ## admit -/

/-- `_optional_text` -/
def optionalText (value : Option String) : Option String :=
  if normalized value = "" then none else some (normalized value)

/-- `_trial_owner` -/
def Owner.trial (caller : Owner) : Owner :=
  ⟨caller.pid, optionalText caller.passId, optionalText caller.session⟩

variable (old : BreakerState)

/-- `_half_open_state` -/
def BreakerState.halfOpen (startedAt : ℚ) (caller : Owner) :
    BreakerState where
  phase := .halfOpen
  failureCount := old.failureCount
  failureClass := some .transport
  openedAt := old.openedAt
  trialInProgress := true
  trialStartedAt := some startedAt
  trialOwner := caller.trial
  checkpointCount := old.checkpointCount

/-- `_refusal` -/
def refusal (key : String) (s : BreakerState) (reason : Reason) : Admission where
  allowed := false
  phase := s.phase
  reason := reason
  failureClass := s.failureClass
  breakerKey := some key
  openedAt := s.openedAt

/-- A trial is let through. -/
def trialOf (key : String) (s : BreakerState) (reason : Reason) : Admission where
  allowed := true
  phase := .halfOpen
  reason := reason
  failureClass := some .transport
  breakerKey := some key
  trialState := some s

/-- The trial of a caller, in the row of a backend. -/
def grantTrial (caller : Owner) (now : ℚ) (reason : Reason) (data : Data) :
    Admission × Data :=
  let new := (row data backend).halfOpen now caller
  (trialOf backend new reason, data.set backend new)

/-- `admit` of a backend without a latch -/
def admitTransport (cooldown : ℚ) (backend : String) (caller : Owner) (now : ℚ) (data : Data) :
    Admission × Data :=
  let old := row data backend
  match old.phase with
  | .closed =>
    ({ allowed := true, phase := .closed, reason := .closed, failureClass := old.failureClass },
      data)
  | .halfOpen =>
    if old.trialStartedAt.any fun startedAt => isCooling cooldown startedAt now then
      (refusal backend old (.inProgress old.trialOwner), data)
    else grantTrial backend caller now .rearmed data
  | .open_ =>
    if isCooling cooldown (old.openedAt.getD now) now then (refusal backend old .cooling, data)
    else grantTrial backend caller now .trial data

variable (settings : Settings)

/-- `admit` -/
def admitDispatch (backend : String) (model : Option String)
    (caller : Owner) (now : ℚ) (data : Data) : Admission × Data :=
  match settings.error with
  | some error =>
    ({ allowed := false, phase := .open_, reason := .settings error, failureClass := none,
       breakerKey := some backend }, data)
  | none =>
    match firstOpenConfiguration data (some backend) model with
    | some (key, latch) => (refusal key latch (.configuration key), data)
    | none => admitTransport settings.cooldown backend caller now data

/-! ## inspect -/

/-- `inspect` of a backend without a latch -/
def inspectTransport (cooldown : ℚ) (old : BreakerState) (now : ℚ) : Admission :=
  match old.phase with
  | .closed =>
    { allowed := true, phase := .closed, reason := .closed, failureClass := old.failureClass }
  | .halfOpen =>
    match old.trialStartedAt with
    | none =>
      { allowed := false, phase := .halfOpen, reason := .noTimestamp,
        failureClass := old.failureClass, trialArmable := true }
    | some startedAt =>
      if isCooling cooldown startedAt now then
        { allowed := false, phase := .halfOpen, reason := .inProgress old.trialOwner,
          failureClass := old.failureClass }
      else
        { allowed := false, phase := .halfOpen, reason := .leaseElapsed,
          failureClass := old.failureClass, trialArmable := true }
  | .open_ =>
    if isCooling cooldown (old.openedAt.getD now) now then
      { allowed := false, phase := .open_, reason := .cooling, failureClass := old.failureClass }
    else
      { allowed := false, phase := .open_, reason := .cooled,
        failureClass := some (old.failureClass.getD .transport), trialArmable := true }

/-- `inspect` -/
def inspect (backend model : Option String) (now : ℚ) (data : Data) :
    Admission :=
  match settings.error with
  | some error =>
    { allowed := false, phase := .open_, reason := .settings error, failureClass := none }
  | none =>
    match firstOpenConfiguration data backend model with
    | some (key, _) =>
      { allowed := false, phase := .open_, reason := .configuration key,
        failureClass := some .configuration }
    | none =>
      if normalized backend = "" then
        { allowed := true, phase := .closed, reason := .closed, failureClass := none }
      else inspectTransport settings.cooldown (row data (normalized backend)) now

/-! ## record_failure, record_success -/

/-- The classes that an outcome may be recorded with. -/
inductive Failure where
  | configuration
  | transport
  | checkpoint
  | neutral
  | unknown
deriving DecidableEq

/-- A row that is open, with the checkpoints of another. -/
def BreakerState.opened (count : Nat) (failureClass : FailureClass)
    (now : ℚ) : BreakerState where
  phase := .open_
  failureCount := count
  failureClass := some failureClass
  openedAt := some now
  checkpointCount := old.checkpointCount

/-- The failures of a class in a row, with one more. -/
def BreakerState.count (failureClass : FailureClass) : Nat :=
  if old.failureClass = some failureClass then old.failureCount + 1 else 1

/-- A transport failure that no trial answers for. -/
def BreakerState.fail (settings : Settings) (now : ℚ) : BreakerState :=
  if settings.error.isSome then old.opened old.failureCount .transport now
  else if old.phase ≠ .closed ∨ settings.threshold ≤ old.count .transport then
    old.opened (old.count .transport) .transport now
  else
    { failureCount := old.count .transport
      failureClass := some .transport
      checkpointCount := old.checkpointCount }

/-- A row after a checkpoint: closed, unless it is of a configuration. -/
def BreakerState.checkpoint : BreakerState :=
  let healthy : BreakerState := if old.failureClass = some .configuration then old else {}
  { healthy with checkpointCount := old.checkpointCount + 1 }

/-- A row that is closed, with the checkpoints of another. -/
def BreakerState.succeed : BreakerState :=
  { checkpointCount := old.checkpointCount }

/-- The key that a failure is recorded under. -/
def failureKey (failure : Failure) (model : Option String) : String :=
  if failure = .configuration then configurationKey backend model else backend

/-- `record_failure`; an unknown class is an error. -/
def recordFailure (backend : String) (failure : Failure)
    (model : Option String) (now : ℚ) (data : Data) : Option (BreakerState × Data) :=
  let key := failureKey backend failure model
  let old := row data key
  let write := fun new : BreakerState => some (new, data.set key new)
  match failure with
  | .neutral => some (old, data)
  | .unknown => none
  | .checkpoint => write old.checkpoint
  | .configuration =>
    if settings.error.isSome then write (old.opened old.failureCount .configuration now)
    else write (old.opened (old.count .configuration) .configuration now)
  | .transport => write (old.fail settings now)

/-- `record_success` -/
def recordSuccess (data : Data) : BreakerState × Data :=
  let new := (row data backend).succeed
  (new, data.set backend new)

/-! ## finish_trial -/

/-- The outcomes that a trial may be finished with. -/
inductive TrialOutcome where
  | success
  | checkpoint
  | transport
  | neutral
  | unknown
deriving DecidableEq

/-- Whether a row carries the lease of a trial. -/
def BreakerState.sameLease (old trial : BreakerState) : Bool :=
  decide (old.phase = .halfOpen) && old.trialInProgress
    && decide (old.trialStartedAt = trial.trialStartedAt)
    && decide (old.trialOwner = trial.trialOwner)

/-- A row that is closed after a trial, with one more checkpoint if it ended at one. -/
def BreakerState.finish (outcome : TrialOutcome) : BreakerState :=
  { checkpointCount :=
      if outcome = .checkpoint then old.checkpointCount + 1 else old.checkpointCount }

/-- The transport failure of a trial whose lease another one has taken over. -/
def BreakerState.failLate (settings : Settings) (now : ℚ) : BreakerState :=
  if old.phase = .halfOpen ∧ old.trialInProgress = true ∧ old.trialStartedAt.isSome then
    { old with failureCount := old.count .transport }
  else old.fail settings now

/-- A row whose trial was given back, or failed. -/
def BreakerState.release (outcome : TrialOutcome) (now : ℚ) :
    BreakerState where
  phase := .open_
  failureCount := if outcome = .transport then old.failureCount + 1 else old.failureCount
  failureClass := some .transport
  openedAt := if outcome = .transport then some now else old.openedAt
  checkpointCount := old.checkpointCount

/-- The row after a trial, if it is written; an unknown outcome is an error. -/
def BreakerState.finishTrial (old trial : BreakerState) (settings : Settings)
    (outcome : TrialOutcome) (now : ℚ) : Option (Option BreakerState) :=
  match outcome with
  | .unknown => none
  | .success | .checkpoint => some (some (old.finish outcome))
  | .neutral => some (if old.sameLease trial then some (old.release outcome now) else none)
  | .transport =>
    some (some (if old.sameLease trial then old.release outcome now
      else old.failLate settings now))

/-- A key of a model. -/
def isModelKey (key : String) : Bool :=
  decide ("::configuration::".toList <:+: key.toList)

/-- `finish_trial`; an admission without a trial is an error. -/
def finishTrial (admission : Admission) (outcome : TrialOutcome) (now : ℚ)
    (data : Data) : Option (BreakerState × Data) :=
  match admission.trialState, admission.breakerKey with
  | some trial, some key =>
    let old := row data key
    if isModelKey key || decide (old.failureClass = some .configuration) then some (old, data)
    else (old.finishTrial trial settings outcome now).map fun
      | some new => (new, data.set key new)
      | none => (old, data)
  | _, _ => none

/-! ## reset -/

/-- The keys that a reset removes. -/
def resetKeys (target : String) (data : Data) : List String :=
  if target = "all" ∨ target = "*" then (data.map Prod.fst).insertionSort (· ≤ ·)
  else ((data.map Prod.fst).filter fun key => decide (key = target)
    || (target ++ "::configuration::").toList.isPrefixOf key.toList).insertionSort (· ≤ ·)

/-- `reset` -/
def reset (target : String) (data : Data) : List String × Data :=
  (resetKeys target data, (resetKeys target data).foldl Dict.pop data)

/-! ## Calls -/

/-- The operations on the breaker. -/
inductive Operation where
  | admit_ (backend : String) (model : Option String) (caller : Owner)
  | inspect (backend model : Option String)
  | recordFailure (backend : String) (failure : Failure) (model : Option String)
  | recordSuccess (backend : String)
  | finishTrial (admission : Admission) (outcome : TrialOutcome)
  | reset (target : String)
deriving DecidableEq

/-- A call, with the settings and the clock that it reads. -/
structure Call where
  operation : Operation
  settings : Settings := {}
  now : ℚ
deriving DecidableEq

/-- What a call returns. -/
inductive Reply where
  | admission (admission : Admission)
  | state (s : BreakerState)
  | keys (keys : List String)
  | error
deriving DecidableEq

/-- A call that may fail, which then leaves the file. -/
def settle (data : Data) (result : Option (BreakerState × Data)) : Reply × Data :=
  match result with
  | some (s, data) => (.state s, data)
  | none => (.error, data)

/-- A call under the lock. -/
def Call.run (c : Call) (data : Data) : Reply × Data :=
  match c.operation with
  | .admit_ backend model caller =>
    let (admission, data) := admitDispatch c.settings backend model caller c.now data
    (.admission admission, data)
  | .inspect backend model => (.admission (inspect c.settings backend model c.now data), data)
  | .recordFailure backend failure model =>
    settle data (Breaker.recordFailure c.settings backend failure model c.now data)
  | .recordSuccess backend =>
    let (s, data) := Breaker.recordSuccess backend data
    (.state s, data)
  | .finishTrial admission outcome =>
    settle data (Breaker.finishTrial c.settings admission outcome c.now data)
  | .reset target =>
    let (keys, data) := Breaker.reset target data
    (.keys keys, data)

/-- The file after some calls. -/
def runCalls (calls : List Call) (data : Data) : Data :=
  calls.foldl (fun data c => (c.run data).2) data

end Workbay.Breaker

import Workbay.Completion.Attention
import Workbay.Effects.System

/-!
# Storage removal behind a warning

The storage of a lane that is not finished is removed by an actuator. Before it runs, a warning is
committed as an event of the operation; after it has run, its outcome is recorded in that event. A
call that finds an outcome replays it. After a crash, a recovery looks whether the storage is gone
and records that.

Any number of callers run the two calls for one operation; the journal and the actuator are
independent, and each transaction of the journal is one step.
-/

namespace Workbay.Completion

open Effects

/-! ## Outcomes -/

/-- `ReceiptOutcomeKind` -/
inductive ReceiptOutcomeKind where
  | noWarningNeeded
  | heldUnknown
  | heldReceiptFailed
  | heldAuthorityStale
  | removedWithWarning
  | heldWithWarning
  | removedAfterStaleAuthority
deriving DecidableEq

/-- `ReceiptOutcome` -/
structure ReceiptOutcome where
  kind : ReceiptOutcomeKind
  nextAction : String
  authorization : Option CompletionAuthorization := none
  refusal : Option CompletionRefusal := none
  storageRemoved : Bool := false
deriving DecidableEq

/-- What the calls raise: a refusal of the journal, any other error of it, or an error of the
actuator. -/
inductive ReceiptError where
  | refusal (r : CompletionRefusal)
  | failed
  | actuator
deriving DecidableEq

/-! ## The calls -/

/-- What an outcome is read for: to run the actuator, or to recover. -/
inductive Purpose where
  | actuate
  | recover
deriving DecidableEq

/-- The operations of the calls. -/
inductive ReceiptOp where
  /-- `get_obligation_fingerprint` -/
  | fingerprint (taskRef laneId : String)
  /-- `prepare_completion_warning` -/
  | prepare (receipt : CompletionReceipt) (operationIntent obligationFingerprint nextAction
      observer : String)
  /-- `_stored_outcome` -/
  | storedOutcome (authorization : CompletionAuthorization) (purpose : Purpose)
  /-- The actuator starts. -/
  | startActuator
  /-- The actuator removes the storage, or does not. -/
  | actuate
  /-- `observe_removed` -/
  | observeRemoved
  /-- `record_completion_outcome` -/
  | record (authorization : CompletionAuthorization) (removed : Bool)

/-- The answers to the operations. -/
abbrev ReceiptOp.Answer : ReceiptOp → Type
  | .fingerprint .. => Except ReceiptError String
  | .prepare .. => Except ReceiptError CompletionAuthorization
  | .storedOutcome .. => Except ReceiptError StorageOutcome
  | .startActuator => Unit
  | .actuate => Except ReceiptError Bool
  | .observeRemoved => Except ReceiptError Bool
  | .record .. => Except ReceiptError Unit

/-- The programs of a caller. -/
abbrev ReceiptM := Prog ReceiptOp ReceiptOp.Answer ReceiptError

/-- The refusal that an error of the journal is reported as. -/
def ReceiptError.asRefusal : ReceiptError → CompletionRefusal
  | .refusal r => r
  | _ => ⟨.receiptFailed, "warning authority read failed"⟩

/-- `_held` -/
def held (refusal : CompletionRefusal) (nextAction : String)
    (authorization : Option CompletionAuthorization) : ReceiptOutcome where
  kind := if refusal.code = .authorityStale then .heldAuthorityStale else .heldReceiptFailed
  nextAction := nextAction
  authorization := authorization
  refusal := some refusal

variable (authorization : CompletionAuthorization)

/-- What is returned once an outcome is recorded. -/
def recorded (removed : Bool) (nextAction : String) :
    ReceiptOutcome where
  kind := if removed then .removedWithWarning else .heldWithWarning
  nextAction := nextAction
  authorization := some authorization
  storageRemoved := removed

/-- `_record`, after the answer of the journal -/
def afterRecord (removed : Bool) (nextAction : String) :
    Except ReceiptError Unit → ReceiptM ReceiptOutcome
  | .ok () => .ret (recorded authorization removed nextAction)
  | .error (.refusal r) =>
    if removed ∧ r.code = .authorityStale then
      .ret { kind := .removedAfterStaleAuthority, nextAction, authorization := some authorization,
             refusal := some r, storageRemoved := true }
    else .raise (.refusal r)
  | .error e => .raise e

/-- `_record` -/
def recordOutcome (removed : Bool)
    (nextAction : String) : ReceiptM ReceiptOutcome :=
  .call (.record authorization removed) (afterRecord authorization removed nextAction)

variable (nextAction : String)

/-- The outcome that `_replay` returns for a stored one. -/
def replayed :
    StorageOutcome → Option ReceiptOutcome
  | .storageRemoved => some (recorded authorization true nextAction)
  | .held => some (recorded authorization false nextAction)
  | .prepared => none

/-- The actuator has raised; that it was held is recorded, and the error goes on. -/
def holdAfterError (e : ReceiptError) :
    ReceiptM ReceiptOutcome :=
  .call (.record authorization false) fun _ => .raise e

/-- The actuator, which has been started, and the record of its outcome. -/
def runActuator :
    ReceiptM ReceiptOutcome :=
  .call .actuate fun
    | .ok removed => recordOutcome authorization removed nextAction
    | .error e => holdAfterError authorization e

/-- The part of `with_completion_receipt` behind the warning. -/
def actuateWithWarning :
    ReceiptM ReceiptOutcome :=
  .call .startActuator fun _ => runActuator authorization nextAction

/-- The part of `with_completion_receipt` behind the replay. -/
def afterReplay (fingerprint nextAction : String) :
    Except ReceiptError StorageOutcome → ReceiptM ReceiptOutcome
  | .error e => .ret (held e.asRefusal nextAction (some authorization))
  | .ok outcome =>
    match replayed authorization nextAction outcome with
    | some replay => .ret replay
    | none =>
      if fingerprint ≠ authorization.obligationFingerprint then
        .ret (held (stale "prepared operation obligations changed") nextAction (some authorization))
      else actuateWithWarning authorization nextAction

/-- The part of `with_completion_receipt` behind the preparation. -/
def afterPrepare (fingerprint nextAction : String) :
    Except ReceiptError CompletionAuthorization → ReceiptM ReceiptOutcome
  | .error e => .ret (held e.asRefusal nextAction none)
  | .ok authorization =>
    .call (.storedOutcome authorization .actuate)
      (afterReplay authorization fingerprint nextAction)

/-- The part of `with_completion_receipt` behind the fingerprint. -/
def afterFingerprint (receipt : CompletionReceipt) (operationIntent nextAction observer : String) :
    Except ReceiptError String → ReceiptM ReceiptOutcome
  | .error e => .ret (held e.asRefusal nextAction none)
  | .ok fingerprint =>
    .call (.prepare receipt operationIntent fingerprint nextAction observer)
      (afterPrepare fingerprint nextAction)

/-- The verdicts of a lane that is not finished. -/
def unfinishedVerdicts : List String := ["unfinished_partial", "unfinished_never_produced"]

/-- `with_completion_receipt` -/
def withCompletionReceipt (receipt : CompletionReceipt)
    (operationIntent nextAction observer : String) : ReceiptM ReceiptOutcome :=
  if receipt.verdict ∈ ["completed", "superseded"] then
    .call .startActuator fun _ => .call .actuate fun
      | .ok removed =>
        .ret { kind := .noWarningNeeded, nextAction, storageRemoved := removed }
      | .error e => .raise e
  else if receipt.verdict ∉ unfinishedVerdicts then .ret { kind := .heldUnknown, nextAction }
  else
    .call (.fingerprint receipt.taskRef receipt.laneId)
      (afterFingerprint receipt operationIntent nextAction observer)

/-- The part of `recover_completion_operation` behind the observation. -/
def afterObserve :
    Except ReceiptError Bool → ReceiptM ReceiptOutcome
  | .ok removed => recordOutcome authorization removed nextAction
  | .error e => .raise e

/-- The part of `recover_completion_operation` behind the replay. -/
def afterRecoverReplay :
    Except ReceiptError StorageOutcome → ReceiptM ReceiptOutcome
  | .error e => .raise e
  | .ok outcome =>
    match replayed authorization nextAction outcome with
    | some replay => .ret replay
    | none => .call .observeRemoved (afterObserve authorization nextAction)

/-- `recover_completion_operation` -/
def recoverCompletionOperation :
    ReceiptM ReceiptOutcome :=
  .call (.storedOutcome authorization .recover) (afterRecoverReplay authorization nextAction)

/-! ## How the operations act -/

/-- An operation: its assessment and what it intends. -/
structure Operation where
  assessmentId : String
  operationIntent : String

variable (o : Operation)

/-- An event is that of the operation. -/
def Operation.names (e : EventRow) : Bool :=
  e.receipt.assessmentId = o.assessmentId && e.operationIntent = o.operationIntent

/-- The journal and the storage of an operation. It is noted whether an actuator of the operation
has removed the storage, and what the event of the operation was at each start of one. -/
structure ReceiptWorld where
  store : AttentionStore := {}
  storageRemoved : Bool := false
  removedByActuator : Bool := false
  starts : List (Option EventRow) := []

/-- What the world alone does not determine: an error, the id of a new event, and whether an
actuator removes the storage. -/
inductive ReceiptChoice where
  | plain
  | fail
  | fresh (uuid : String)
  | remove
  | keep
deriving DecidableEq

variable (host : AttentionHost)

/-- `get_obligation_fingerprint`: an error of the recorder is no refusal of the journal here. -/
def getObligationFingerprint (s : AttentionStore)
    (taskRef laneId : String) : Except ReceiptError String :=
  match (latest s.contracts taskRef laneId).map (decode host.toContractHost) with
  | some (.error _) => .error .failed
  | _ => (fingerprint host s taskRef laneId).mapError .refusal

/-- `_stored_outcome` -/
def readOutcome (events : List EventRow) (authorization : CompletionAuthorization) :
    Except ReceiptError StorageOutcome :=
  match events.find? (·.eventId = authorization.eventId) with
  | some row =>
    if row.authorization = authorization then .ok row.storageOutcome
    else .error (.refusal (stale "event authorization changed"))
  | none => .error (.refusal (stale "event authorization changed"))

/-- The column of an outcome. -/
def outcomeOf (removed : Bool) : StorageOutcome := if removed then .storageRemoved else .held

/-- The world after a transaction of the journal; a refusal rolls it back. -/
def transacted {α : Type} (w : ReceiptWorld) :
    Except CompletionRefusal (α × AttentionStore) → Except ReceiptError α × ReceiptWorld
  | .ok (a, store) => (.ok a, { w with store })
  | .error r => (.error (.refusal r), w)

/-- The effect of an operation. -/
def ReceiptOp.effect (o : Operation) :
    Action ReceiptOp ReceiptOp.Answer ReceiptWorld ReceiptChoice
  | .fingerprint taskRef laneId, .plain, w =>
    some (getObligationFingerprint host w.store taskRef laneId, w)
  | .fingerprint _ _, .fail, w => some (.error .failed, w)
  | .prepare receipt operationIntent obligationFingerprint nextAction observer, .fresh uuid, w =>
    some (transacted w (prepareCompletionWarning host w.store
      { receipt, operationIntent, obligationFingerprint, nextAction, observer, uuid }))
  | .prepare .., .fail, w => some (.error (.refusal receiptFailed), w)
  | .storedOutcome authorization _, .plain, w =>
    some (readOutcome w.store.events authorization, w)
  | .storedOutcome _ _, .fail, w => some (.error .failed, w)
  | .startActuator, .plain, w =>
    some ((), { w with starts := w.starts ++ [w.store.events.find? o.names] })
  | .actuate, .remove, w =>
    if w.storageRemoved then none
    else some (.ok true, { w with storageRemoved := true, removedByActuator := true })
  | .actuate, .keep, w => some (.ok false, w)
  | .actuate, .fail, w => some (.error .actuator, w)
  | .observeRemoved, .plain, w => some (.ok w.storageRemoved, w)
  | .observeRemoved, .fail, w => some (.error .actuator, w)
  | .record authorization removed, .plain, w =>
    some (transacted w ((recordCompletionOutcome host w.store authorization.eventId
      (outcomeOf removed) authorization).map fun r => ((), r.2)))
  | .record _ _, .fail, w => some (.error (.refusal receiptFailed), w)
  | _, _, _ => none

attribute [grind] ReceiptOp.effect

/-! ## Callers of one operation -/

/-- The arguments of `with_completion_receipt` for an operation of an unfinished lane. -/
structure UnfinishedCall (o : Operation) where
  receipt : CompletionReceipt
  nextAction : String
  observer : String
  assessment : receipt.assessmentId = o.assessmentId
  unfinished : receipt.verdict ∈ unfinishedVerdicts

/-- A call of one of the two functions. -/
inductive ReceiptRequest (o : Operation) where
  | withReceipt (call : UnfinishedCall o)
  | recover (authorization : CompletionAuthorization) (nextAction : String)

/-- The program of a call. -/
def ReceiptRequest.body {o : Operation} : ReceiptRequest o → ReceiptM ReceiptOutcome
  | .withReceipt call =>
    withCompletionReceipt call.receipt o.operationIntent call.nextAction call.observer
  | .recover authorization nextAction => recoverCompletionOperation authorization nextAction

/-- What others do: any call of the journal but the record of an outcome of the operation, and the
removal of the storage by someone else. -/
inductive ReceiptEnv where
  | journal (call : AttentionCall)
  | removeStorage

/-- A call records an outcome of the operation. -/
def recordsOutcome (s : AttentionStore) : AttentionCall → Bool
  | .outcome eventId _ _ => s.events.any fun e => o.names e && e.eventId = eventId
  | _ => false

/-- What the others do to the world. -/
def ReceiptEnv.effect (o : Operation) (w : ReceiptWorld) :
    ReceiptEnv → Option ReceiptWorld
  | .journal call =>
    if recordsOutcome o w.store call then none
    else some { w with store := (attentionMachine host).next w.store call }
  | .removeStorage => some { w with storageRemoved := true }

/-- The callers of an operation; a caller that is halted has crashed. -/
def receiptSystem (o : Operation) :
    System Nat (ReceiptRequest o) ReceiptOp ReceiptOp.Answer ReceiptError ReceiptOutcome
      ReceiptWorld ReceiptChoice ReceiptEnv where
  act _ := ReceiptOp.effect host o
  body _ := ReceiptRequest.body
  enter _ _ w := w
  env d w := d.effect host o w

/-- The journal, the storage and the callers. -/
abbrev ReceiptConfig :=
  Config Nat ReceiptOp ReceiptOp.Answer ReceiptError ReceiptOutcome ReceiptWorld

/-- A step of a caller, or of the others. -/
abbrev ReceiptLabel := Label Nat (ReceiptRequest o) ReceiptChoice ReceiptEnv

/-! ## What the fence is for -/

/-- Each start of an actuator was behind a committed event of the operation. -/
def Committed (w : ReceiptWorld) : Prop :=
  ∀ start ∈ w.starts, ∃ e, start = some e ∧ o.names e = true

/-- No actuator was started after an outcome was recorded, and what one removed is not recorded as
held. -/
structure Fenced (o : Operation) (w : ReceiptWorld) : Prop where
  unrecorded : ∀ start ∈ w.starts, ∀ e, start = some e → e.storageOutcome = .prepared
  held : w.removedByActuator = true → ∀ e ∈ w.store.events, o.names e = true →
    e.storageOutcome ≠ .held

/-- The actuator is about to start, or runs. -/
def actuating : ReceiptM ReceiptOutcome → Bool
  | .call .startActuator _ => true
  | .call .actuate _ => true
  | _ => false

/-- An outcome is observed or about to be recorded. -/
def reconciling : ReceiptM ReceiptOutcome → Bool
  | .call .observeRemoved _ => true
  | .call (.record _ _) _ => true
  | _ => false

/-- An actuator has been started, and the operation has no outcome. -/
def ReceiptWorld.unaccounted (o : Operation) (w : ReceiptWorld) : Prop :=
  w.starts ≠ [] ∧ ∀ e ∈ w.store.events, o.names e = true → e.storageOutcome = .prepared

/-- A caller may go on from where it reads the outcome: no other one has its actuator ahead or
running, and before it runs its own, no other one is about to record an outcome and no actuator is
unaccounted for. -/
def MayGoOn (s : ReceiptConfig) (i : Nat) (purpose : Purpose) : Prop :=
  (∀ j q, j ≠ i → s.procs j = some q → actuating q = false) ∧
    (purpose = .actuate → ¬ s.world.unaccounted o ∧
      ∀ j q, j ≠ i → s.procs j = some q → reconciling q = false)

/-- A step of a caller that reads the outcome is taken only when the caller may go on. -/
def Orderly (s : ReceiptConfig) (l : ReceiptLabel o) : Prop :=
  ∀ i c a purpose k, l = .tick i c → s.procs i = some (.call (.storedOutcome a purpose) k) →
    MayGoOn o s i purpose

end Workbay.Completion

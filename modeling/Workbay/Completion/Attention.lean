import Workbay.Completion.Recording
import Workbay.Data.Json
import Std.Data.String.ToNat

/-!
# Completion attention

Before a caller may release the storage of a lane that is not known to be complete, it commits a
warning: an event with the assessment, which stays in the inbox of its task whatever becomes of the
storage. An event leaves the inbox only when it is discharged against a newer completed assessment
of the integration, or reassigned to another carrier.

The fingerprint of an obligation digests the latest contract, the rows of its findings and the
newest verified test; an authorization is only good as long as it does not change.
-/

namespace Workbay.Completion

/-! ## Records -/

/-- `CompletionRefusalCode` -/
inductive CompletionRefusalCode where
  | receiptFailed
  | authorityStale
  | eventInvalid
deriving DecidableEq

/-- `CompletionRefusal` -/
structure CompletionRefusal where
  code : CompletionRefusalCode
  detail : String
deriving DecidableEq

/-- An unmet finding: its row, or its stable id. -/
inductive FindingRef where
  | row (dbId : Int)
  | stable (findingId : String)
deriving DecidableEq

/-- `CompletionReceipt`, with its further fields -/
structure CompletionReceipt where
  assessmentId : String
  taskRef : String
  laneId : String
  laneRowId : Int
  identityRevision : String
  contractRevision : Int
  contractHash : String
  phase : String
  verdict : String
  reasonCodes : List String
  unmetFindingIds : List FindingRef
  unmetAcceptanceIds : List String
  missingEvidence : List String
  carrier : Option (List (String × Json))
  policyAction : String
  extra : List (String × Json) := []
deriving DecidableEq

/-- `Reassignment`, with its further fields -/
structure Reassignment where
  taskRef : String
  laneId : String
  identityRevision : String
  nextAction : String
  extra : List (String × Json) := []
deriving DecidableEq

/-- The column `state` of an event. -/
inductive EventState where
  | prepared
  | storageRemoved
  | held
  | discharged
  | reassigned
deriving DecidableEq

/-- The column `storage_outcome` of an event. -/
inductive StorageOutcome where
  | prepared
  | storageRemoved
  | held
deriving DecidableEq

/-- The state of an event whose storage has an outcome. -/
def StorageOutcome.state : StorageOutcome → EventState
  | .prepared => .prepared
  | .storageRemoved => .storageRemoved
  | .held => .held

/-- The column `resolution_json` of an event. -/
inductive Resolution where
  | discharge (assessmentId : String)
  | carrier (c : Reassignment) (authorityId : String)
deriving DecidableEq

/-- A row of `lane_completion_events`. -/
structure EventRow where
  eventSequence : Nat
  eventId : String
  operationIntent : String
  receipt : CompletionReceipt
  obligationFingerprint : String
  state : EventState
  storageOutcome : StorageOutcome
  nextAction : String
  observer : String
  resolution : Option Resolution := none
deriving DecidableEq

/-- The event is in the inbox of its task. -/
def EventRow.pending (e : EventRow) : Bool :=
  e.state = .prepared || e.state = .storageRemoved || e.state = .held

/-- `CompletionAuthorization` -/
structure CompletionAuthorization where
  eventId : String
  assessmentId : String
  obligationFingerprint : String
  contractHash : String
deriving DecidableEq

/-- `CompletionEvent` -/
structure CompletionEvent where
  eventId : String
  assessmentId : String
  state : EventState
  storageOutcome : StorageOutcome
  resolution : Option Resolution
deriving DecidableEq

/-- A row of `verified_tests`. -/
structure VerifiedTest where
  id : Int
  taskRef : String
deriving DecidableEq

/-- A row of `decisions`. -/
structure DecisionRow where
  taskRef : String
  laneId : String
  session : String
  decision : String
  rationale : String
deriving DecidableEq

/-- What `_fingerprint` reads of a row of a finding. -/
structure FindingState where
  taskRef : String
  findingId : String
  status : String
  updatedAt : String
  reopenCount : Int
deriving DecidableEq

/-- What `_fingerprint` digests. -/
structure FingerprintParts where
  contractRevision : Int
  contractHash : String
  findings : List (FindingAssignment × List FindingState)
  newestVerifiedTestId : Option Int
deriving DecidableEq

/-- The SHA-256 of the JSON text of the parts of a fingerprint, and the JSON texts that a decision
quotes. -/
structure AttentionHost extends ContractHost where
  fingerprintDigest : FingerprintParts → String
  findingsText : List FindingRef → String
  acceptanceText : List String → String

/-- The store: the tables of other writers, the contracts, the tests, the events and the decisions
that they make. -/
structure AttentionStore where
  native : Native := {}
  tests : List VerifiedTest := []
  contracts : List ContractRow := []
  events : List EventRow := []
  decisions : List DecisionRow := []
deriving DecidableEq

/-! ## Fingerprints -/

/-- `_require` -/
def stale (detail : String) : CompletionRefusal := ⟨.authorityStale, detail⟩

/-- `_require`, when nothing is stale -/
def invalid (detail : String) : CompletionRefusal := ⟨.eventInvalid, detail⟩

/-- The value of a refusal of the recorder. -/
def ContractRefusalCode.value : ContractRefusalCode → String
  | .emptyAcceptance => "empty_acceptance"
  | .assignmentAbsent => "assignment_absent"
  | .invalidAssignment => "invalid_assignment"
  | .unknownFinding => "unknown_finding"
  | .findingIdentityMismatch => "finding_identity_mismatch"
  | .commandsAbsent => "commands_absent"
  | .invalidVerifiers => "invalid_verifiers"
  | .invalidContract => "invalid_contract"
  | .identityMismatch => "identity_mismatch"
  | .ambiguousAssignment => "ambiguous_assignment"
  | .invalidTransfer => "invalid_transfer"
  | .contractAbsent => "contract_absent"
  | .contractMismatch => "contract_mismatch"

/-- What `_transaction` raises when the transaction fails. -/
def receiptFailed : CompletionRefusal :=
  ⟨.receiptFailed, "warning journal transaction failed; hold"⟩

/-- What `_transaction` raises for an error of the recorder. -/
def ContractError.completionRefusal : ContractError → CompletionRefusal
  | .refusal code detail => stale (code.value ++ ": " ++ detail)
  | .integrityError => receiptFailed

variable (host : AttentionHost)

/-- `_contract` -/
def currentContract (s : AttentionStore) (taskRef laneId : String) :
    Except CompletionRefusal ContractRecord :=
  match latest s.contracts taskRef laneId with
  | none => .error (stale "latest contract is unavailable")
  | some row =>
    match decode host.toContractHost row with
    | .ok record => .ok record
    | .error e => .error e.completionRefusal

/-- The columns of the row of a finding. -/
def findingState (f : FindingRow) : FindingState :=
  ⟨f.taskRef, f.findingId, f.status, f.updatedAt, f.reopenCount⟩

/-- `ORDER BY status, updated_at, reopen_count` -/
def FindingState.le (a b : FindingState) : Bool :=
  a.status < b.status || a.status = b.status && (a.updatedAt < b.updatedAt
    || a.updatedAt = b.updatedAt && a.reopenCount ≤ b.reopenCount)

variable (s : AttentionStore)

/-- The part of `_fingerprint` that reads the rows of one assigned finding. -/
def findingPart (taskRef : String) (a : FindingAssignment) :
    Except CompletionRefusal (FindingAssignment × List FindingState) := do
  let rows := ((s.native.findingRows a.dbId).map findingState).insertionSort fun a b => a.le b
  require (rows.all fun r => r.taskRef = taskRef ∧ r.findingId = a.findingId)
    (stale "assigned finding identity changed")
  return (a, rows)

/-- `SELECT MAX(id) FROM verified_tests WHERE task_ref=?` -/
def newestTest (taskRef : String) : Option Int :=
  ((s.tests.filter (·.taskRef = taskRef)).map VerifiedTest.id).max?

/-- `_fingerprint` -/
def fingerprint (s : AttentionStore) (taskRef laneId : String) :
    Except CompletionRefusal String := do
  let record ← currentContract host s taskRef laneId
  let findings ← readAll (findingPart s taskRef) record.assignedFindings
  return host.fingerprintDigest {
    contractRevision := record.contract.revision, contractHash := record.contract.contractHash
    findings, newestVerifiedTestId := newestTest s taskRef }

/-! ## Receipts -/

/-- A field of a list of texts has an item that is empty. -/
def checkItems (name : String) (ok : Bool) : Except CompletionRefusal Unit :=
  require ok (invalid ("invalid " ++ name ++ " item"))

/-- The item of `unmet_finding_ids` is valid. -/
def FindingRef.valid : FindingRef → Bool
  | .row dbId => 0 < dbId
  | .stable findingId => isText findingId

/-- A receipt without the order of the keys of its objects. -/
def CompletionReceipt.detach (r : CompletionReceipt) : CompletionReceipt :=
  { r with
    carrier := r.carrier.map Json.sortMembers
    extra := Json.sortMembers r.extra }

/-- `_validate_receipt` -/
def validateReceipt (r : CompletionReceipt) : Except CompletionRefusal CompletionReceipt := do
  require (isText r.assessmentId) (invalid "missing assessment_id")
  require (isText r.taskRef) (invalid "missing task_ref")
  require (isText r.laneId) (invalid "missing lane_id")
  require (isText r.identityRevision) (invalid "missing identity_revision")
  require (isText r.contractHash) (invalid "missing contract_hash")
  require (isText r.policyAction) (invalid "missing policy_action")
  require (0 < r.laneRowId) (invalid "invalid lane_row_id")
  require (0 < r.contractRevision) (invalid "invalid contract_revision")
  require (r.phase ∈ ["candidate", "integration"]) (invalid "unknown phase")
  require (r.verdict ∈ ["completed", "superseded", "unfinished_never_produced",
    "unfinished_partial", "unknown"]) (invalid "unknown verdict")
  checkItems "reason_codes" (r.reasonCodes.all isText)
  checkItems "unmet_finding_ids" (r.unmetFindingIds.all FindingRef.valid)
  checkItems "unmet_acceptance_ids" (r.unmetAcceptanceIds.all isText)
  checkItems "missing_evidence" (r.missingEvidence.all isText)
  require (r.verdict ≠ "completed"
      ∨ r.unmetFindingIds = [] ∧ r.unmetAcceptanceIds = [] ∧ r.missingEvidence = [])
    (invalid "completed receipt has unmet evidence")
  return r.detach

/-- `_authorization` -/
def EventRow.authorization (e : EventRow) : CompletionAuthorization :=
  ⟨e.eventId, e.receipt.assessmentId, e.obligationFingerprint, e.receipt.contractHash⟩

/-- `_event` -/
def EventRow.event (e : EventRow) : CompletionEvent :=
  ⟨e.eventId, e.receipt.assessmentId, e.state, e.storageOutcome, e.resolution⟩

variable (events : List EventRow)

/-- `_event_row` -/
def eventRow (eventId : String) : Except CompletionRefusal EventRow :=
  match events.find? (·.eventId = eventId) with
  | some e => .ok e
  | none => .error (invalid "completion event unavailable")

/-- `UPDATE lane_completion_events SET … WHERE event_id=?` -/
def updateEvent (eventId : String) (f : EventRow → EventRow) :
    List EventRow :=
  events.map fun e => if e.eventId = eventId then f e else e

/-! ## Preparing -/

/-- The arguments of `prepare_completion_warning`, with the id that is drawn for a new event. -/
structure PrepareCall where
  receipt : CompletionReceipt
  operationIntent : String
  obligationFingerprint : String
  nextAction : String
  observer : String
  uuid : String
deriving DecidableEq

/-- The sequence of the next event. -/
def nextSequence : Nat :=
  ((events.map EventRow.eventSequence).max?).getD 0 + 1

/-- The row of a new event. -/
def newEvent (call : PrepareCall) (receipt : CompletionReceipt) :
    EventRow where
  eventSequence := nextSequence events
  eventId := call.uuid
  operationIntent := call.operationIntent
  receipt := receipt
  obligationFingerprint := call.obligationFingerprint
  state := .prepared
  storageOutcome := .prepared
  nextAction := call.nextAction
  observer := call.observer

/-- The unmet obligations of a receipt include some of the contract. -/
def ownedUnmet (record : ContractRecord) (receipt : CompletionReceipt) : Bool :=
  receipt.unmetFindingIds.any (fun
    | .row dbId => record.assignedFindings.any (·.dbId = dbId)
    | .stable findingId => record.assignedFindings.any (·.findingId = findingId))
  || receipt.unmetAcceptanceIds.any (· ∈ record.contract.acceptanceIds)

/-- A task that was done is in progress again. -/
def reopenTask (native : Native) (taskRef : String) : Native :=
  { native with
    tasks := native.tasks.map fun t => if t.taskRef = taskRef ∧ t.status = "done"
      then { t with status := "in_progress", revision := t.revision + 1 } else t }

/-- The decision that records a new event. -/
def attentionDecision (call : PrepareCall) (receipt : CompletionReceipt) :
    DecisionRow where
  taskRef := receipt.taskRef
  laneId := receipt.laneId
  session := call.observer
  decision := "Completion attention " ++ call.uuid ++ ": " ++ receipt.verdict
    ++ "; unmet findings=" ++ host.findingsText receipt.unmetFindingIds
    ++ "; unmet acceptance=" ++ host.acceptanceText receipt.unmetAcceptanceIds
    ++ "; next=" ++ call.nextAction
  rationale := "assessment=" ++ receipt.assessmentId ++ "; operation=" ++ call.operationIntent
    ++ "; policy=" ++ receipt.policyAction

/-- The identity of the contract and the row of the lane are those of the receipt. -/
def identityCurrent (record : ContractRecord) (receipt : CompletionReceipt) :
    Bool :=
  let i := record.contract.identity
  record.contract.revision = receipt.contractRevision
    && record.contract.contractHash = receipt.contractHash
    && i.laneRowId = receipt.laneRowId
    && ((i.identitySeq.map toString).getD i.laneRevision) = receipt.identityRevision
    && (s.native.lane? receipt.laneRowId).any (·.matchesIdentity i)

/-- The part of `prepare_completion_warning` that writes. -/
def writeEvent (s : AttentionStore) (call : PrepareCall)
    (receipt : CompletionReceipt) (record : ContractRecord) (task : TaskRow) : AttentionStore :=
  { s with
    events := s.events ++ [newEvent s.events call receipt]
    decisions := s.decisions ++ [attentionDecision host call receipt]
    native := if receipt.verdict ∈ ["unfinished_never_produced", "unfinished_partial"]
        ∧ task.status = "done" ∧ ownedUnmet record receipt
      then reopenTask s.native receipt.taskRef else s.native }

/-- The part of `prepare_completion_warning` for an operation without an event. -/
def prepareNew (s : AttentionStore) (call : PrepareCall)
    (receipt : CompletionReceipt) :
    Except CompletionRefusal (CompletionAuthorization × AttentionStore) := do
  let record ← currentContract host s receipt.taskRef receipt.laneId
  require (identityCurrent s record receipt) (stale "contract or lane identity changed")
  let current ← fingerprint host s receipt.taskRef receipt.laneId
  require (current = call.obligationFingerprint) (stale "obligations changed before prepare")
  match s.native.task? receipt.taskRef with
  | none => .error (stale "task unavailable")
  | some task => do
    require (s.events.all (·.eventId ≠ call.uuid)) receiptFailed
    return ((newEvent s.events call receipt).authorization,
      writeEvent host s call receipt record task)

/-- `prepare_completion_warning` -/
def prepareCompletionWarning (s : AttentionStore) (call : PrepareCall) :
    Except CompletionRefusal (CompletionAuthorization × AttentionStore) := do
  let receipt ← validateReceipt call.receipt
  require ([call.operationIntent, call.obligationFingerprint, call.nextAction,
      call.observer].all isText)
    (invalid "operation, fingerprint, next action and observer required")
  match s.events.find? fun e => e.receipt.assessmentId = receipt.assessmentId
      ∧ e.operationIntent = call.operationIntent with
  | some existing => do
    require (existing.receipt = receipt ∧ existing.nextAction = call.nextAction)
      (invalid "operation replay conflicts with its durable receipt")
    return (existing.authorization, s)
  | none => prepareNew host s call receipt

/-! ## Outcomes and resolutions -/

/-- The part of `record_completion_outcome` that checks a removal. -/
def checkRemoval (s : AttentionStore) (row : EventRow) :
    Except CompletionRefusal Unit := do
  require (row.receipt.verdict ≠ "unknown") (invalid "unknown completion must hold")
  let current ← fingerprint host s row.receipt.taskRef row.receipt.laneId
  require (current = row.obligationFingerprint)
    (stale "obligations changed before storage outcome")

/-- The part of `record_completion_outcome` that checks a new outcome. -/
def checkOutcome (s : AttentionStore) (row : EventRow)
    (outcome : StorageOutcome) : Except CompletionRefusal Unit :=
  if outcome = .storageRemoved then checkRemoval host s row else .ok ()

/-- `record_completion_outcome` -/
def recordCompletionOutcome (s : AttentionStore) (eventId : String)
    (outcome : StorageOutcome) (authorization : CompletionAuthorization) :
    Except CompletionRefusal (CompletionEvent × AttentionStore) := do
  require (outcome ≠ .prepared) (invalid "invalid storage outcome")
  let row ← eventRow s.events eventId
  require (authorization = row.authorization) (stale "authorization does not match event")
  if row.storageOutcome = outcome then return (row.event, s)
  else do
    require (row.state = .prepared) (invalid "outcome conflicts with recorded operation")
    checkOutcome host s row outcome
    let events := updateEvent s.events eventId fun e =>
      { e with state := outcome.state, storageOutcome := outcome }
    let updated ← eventRow events eventId
    return (updated.event, { s with events })

/-- `_resolve` -/
def resolve (row : EventRow) (state : EventState) (resolution : Resolution) :
    Except CompletionRefusal (CompletionEvent × AttentionStore) :=
  if row.state = .discharged ∨ row.state = .reassigned then do
    require (row.state = state ∧ row.resolution = some resolution)
      (invalid "conflicting event resolution")
    return (row.event, s)
  else do
    let events := updateEvent s.events row.eventId fun e =>
      { e with state, resolution := some resolution }
    let updated ← eventRow events row.eventId
    return (updated.event, { s with events })

/-- The completed assessments that can discharge an event. -/
def newerCompleted (row : EventRow) (assessmentId : String) :
    List EventRow :=
  events.filter fun e => e.receipt.assessmentId = assessmentId
    ∧ e.receipt.taskRef = row.receipt.taskRef ∧ e.receipt.laneId = row.receipt.laneId
    ∧ e.receipt.laneRowId = row.receipt.laneRowId
    ∧ e.receipt.identityRevision = row.receipt.identityRevision
    ∧ e.receipt.verdict = "completed" ∧ e.receipt.phase = "integration"
    ∧ row.eventSequence < e.eventSequence

/-- `ORDER BY event_sequence` -/
def inSequence : List EventRow :=
  events.insertionSort fun a b => a.eventSequence ≤ b.eventSequence

/-- `discharge_completion_event` -/
def dischargeCompletionEvent (s : AttentionStore)
    (eventId assessmentId : String) :
    Except CompletionRefusal (CompletionEvent × AttentionStore) := do
  let row ← eventRow s.events eventId
  if row.state = .discharged then resolve s row .discharged (.discharge assessmentId)
  else
    match (inSequence (newerCompleted s.events row assessmentId)).getLast? with
    | none => .error (invalid "newer completed integration assessment required")
    | some completed => do
      require (completed.receipt.assessmentId ≠ row.receipt.assessmentId)
        (invalid "newer completed integration assessment required")
      let current ← fingerprint host s row.receipt.taskRef row.receipt.laneId
      require (completed.obligationFingerprint = current) (stale "completed assessment is stale")
      resolve s row .discharged (.discharge assessmentId)

/-- The JSON of a reassignment, whose keys have no order. -/
def Reassignment.detach (c : Reassignment) : Reassignment :=
  { c with extra := Json.sortMembers c.extra }

/-- `reassign` -/
def reassign (eventId : String) (carrier : Reassignment)
    (authorityId : String) : Except CompletionRefusal (CompletionEvent × AttentionStore) := do
  require ([carrier.taskRef, carrier.laneId, carrier.identityRevision,
      carrier.nextAction].all isText ∧ isText authorityId)
    (invalid "named carrier, next action and owner authority required")
  let row ← eventRow s.events eventId
  require ((carrier.taskRef, carrier.laneId) ≠ (row.receipt.taskRef, row.receipt.laneId))
    (invalid "reassignment requires another carrier")
  resolve s row .reassigned (.carrier carrier.detach authorityId)

/-! ## The store over time -/

/-- A call of one of the writers, or any change of the tables of others: contracts, findings, tests,
lanes and tasks. -/
inductive AttentionCall where
  | prepare (call : PrepareCall)
  | outcome (eventId : String) (outcome : StorageOutcome) (authorization : CompletionAuthorization)
  | discharge (eventId assessmentId : String)
  | reassign (eventId : String) (carrier : Reassignment) (authorityId : String)
  | change (native : Native) (tests : List VerifiedTest) (contracts : List ContractRow)
deriving DecidableEq

/-- What a call answers. -/
inductive AttentionAnswer where
  | authorization (a : CompletionAuthorization)
  | event (e : CompletionEvent)
  | refusal (r : CompletionRefusal)
  | changed
deriving DecidableEq

/-- The state and the answer after a transaction; a refusal rolls it back. -/
def committed {α : Type} (s : AttentionStore) (answer : α → AttentionAnswer) :
    Except CompletionRefusal (α × AttentionStore) → AttentionStore × AttentionAnswer
  | .ok (a, s') => (s', answer a)
  | .error r => (s, .refusal r)

/-- The store as a machine. -/
def attentionMachine :
    Effects.Machine AttentionStore AttentionCall AttentionAnswer where
  step s
    | .prepare call => committed s .authorization (prepareCompletionWarning host s call)
    | .outcome eventId outcome authorization =>
      committed s .event (recordCompletionOutcome host s eventId outcome authorization)
    | .discharge eventId assessmentId =>
      committed s .event (dischargeCompletionEvent host s eventId assessmentId)
    | .reassign eventId carrier authorityId =>
      committed s .event (reassign s eventId carrier authorityId)
    | .change native tests contracts => ({ s with native, tests, contracts }, .changed)

/-! ## The inbox -/

/-- What `read_completion_attention` returns of an event. -/
structure AttentionItem where
  eventId : String
  assessmentId : String
  taskRef : String
  laneId : String
  laneRowId : Int
  identityRevision : String
  phase : String
  verdict : String
  policyAction : String
  storageOutcome : StorageOutcome
  nextAction : String
  reasonCodes : List String
  unmetFindingIds : List FindingRef
  unmetAcceptanceIds : List String
  missingEvidence : List String
  carrier : Option (List (String × Json))
deriving DecidableEq

/-- The item of an event. -/
def EventRow.item (e : EventRow) : AttentionItem where
  eventId := e.eventId
  assessmentId := e.receipt.assessmentId
  taskRef := e.receipt.taskRef
  laneId := e.receipt.laneId
  laneRowId := e.receipt.laneRowId
  identityRevision := e.receipt.identityRevision
  phase := e.receipt.phase
  verdict := e.receipt.verdict
  policyAction := e.receipt.policyAction
  storageOutcome := e.storageOutcome
  nextAction := e.nextAction
  reasonCodes := e.receipt.reasonCodes
  unmetFindingIds := e.receipt.unmetFindingIds
  unmetAcceptanceIds := e.receipt.unmetAcceptanceIds
  missingEvidence := e.receipt.missingEvidence
  carrier := e.receipt.carrier

/-- `CompletionAttention` -/
structure CompletionAttention where
  count : Nat
  cursor : Option String
  events : List AttentionItem
deriving DecidableEq

end Workbay.Completion

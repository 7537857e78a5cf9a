import Workbay.Completion.Evaluate
import Workbay.Data.Check
import Workbay.Data.Text
import Workbay.Effects.Machine

/-!
# Recording of completion contracts

The owner of a lane declares its contract; each declaration that differs is appended as a new
revision. A finding has one owner in a task: a contract may list a finding that the latest contract
of another lane lists only with an authenticated transfer of it from that contract.

A row stores the canonical payload of its record, whose unordered collections are sorted by their
JSON text. The contract hash covers the payload with the hash blanked, the idempotency key the
payload with the revision set to zero as well.
-/

namespace Workbay.Completion

/-! ## The tables of other writers -/

/-- A row of `worktree_lanes`; `updatedAt` is the lane revision. -/
structure LaneRow where
  id : Int
  taskRef : String
  laneId : String
  identitySeq : Option Int
  branch : String
  updatedAt : String := ""
  cycleEpoch : Int := 0
deriving DecidableEq

/-- A row of `handoff_state`. -/
structure TaskRow where
  taskRef : String
  revision : Int
  status : String := "in_progress"
deriving DecidableEq

/-- A row of `review_findings` or of `review_findings_archive`. -/
structure FindingRow where
  id : Int
  taskRef : String
  findingId : String
  status : String := "open"
  updatedAt : String := ""
  reopenCount : Int := 0
deriving DecidableEq

/-- The tables that other writers change at any time. -/
structure Native where
  lanes : List LaneRow := []
  tasks : List TaskRow := []
  findings : List FindingRow := []
  findingsArchive : List FindingRow := []
deriving DecidableEq

/-- The row of a lane. -/
def Native.lane? (db : Native) (id : Int) : Option LaneRow := db.lanes.find? (·.id = id)

/-- The row of a task. -/
def Native.task? (db : Native) (taskRef : String) : Option TaskRow :=
  db.tasks.find? (·.taskRef = taskRef)

/-- The rows of a finding, in both tables. -/
def Native.findingRows (db : Native) (id : Int) : List FindingRow :=
  db.findings.filter (·.id = id) ++ db.findingsArchive.filter (·.id = id)

/-- The row of the lane still has the identity. -/
def LaneRow.matchesIdentity (lane : LaneRow) (i : LaneIdentity) : Bool :=
  lane.taskRef = i.taskRef && lane.laneId = i.laneId && lane.identitySeq = i.identitySeq
    && lane.branch = i.branch

/-! ## Records -/

/-- `FindingAssignment` -/
structure FindingAssignment where
  dbId : Int
  findingId : String
deriving DecidableEq

/-- `TransferEdge` -/
structure TransferEdge where
  source : LaneIdentity
  carrier : LaneIdentity
  sourceContractHash : String
  mappings : List ObligationTransfer
  authenticated : Bool
  authorityId : String
  evidenceIds : List String
deriving DecidableEq

/-- `_payload`, the part of a record that is hashed -/
structure ContractPayload where
  contract : CompletionContract
  assignedFindings : List FindingAssignment
  emptyAssignmentDeclared : Bool
  objective : String
  integrationRef : String
  transfers : List TransferEdge
  nonTestReason : Option String
  testTargetPolicy : List String
deriving DecidableEq

/-- `ContractRecord` -/
structure ContractRecord extends ContractPayload where
  idempotencyKey : String
deriving DecidableEq

/-- A row of `lane_completion_contracts`. -/
structure ContractRow where
  taskRef : String
  laneRowId : Int
  laneId : String
  identitySeq : Option Int
  revision : Int
  contractHash : String
  payload : ContractPayload
  idempotencyKey : String
deriving DecidableEq

/-- `RefusalCode` of the recorder -/
inductive ContractRefusalCode where
  | emptyAcceptance
  | assignmentAbsent
  | invalidAssignment
  | unknownFinding
  | findingIdentityMismatch
  | commandsAbsent
  | invalidVerifiers
  | invalidContract
  | identityMismatch
  | ambiguousAssignment
  | invalidTransfer
  | contractAbsent
  | contractMismatch
deriving DecidableEq

/-- Why a call raises: `ContractRefusal`, or a constraint of the table. -/
inductive ContractError where
  | refusal (code : ContractRefusalCode) (detail : String)
  | integrityError
deriving DecidableEq

/-- What is sorted by its JSON text. -/
inductive CanonicalItem where
  | text (s : String)
  | verifier (v : AcceptanceVerifier)
  | assignment (a : FindingAssignment)
  | mapping (m : ObligationTransfer)
  | transfer (t : TransferEdge)

/-- The JSON text by which the elements of a collection are sorted, and the SHA-256 of the JSON
text of a payload and of an objective. -/
structure ContractHost where
  text : CanonicalItem → String
  digest : ContractPayload → String
  objectiveDigest : String → String

/-! ## Normalisation -/

/-- `_text` -/
def isText (s : String) : Bool := Text.strip s ≠ ""

/-- `_strings`; `none` is not a sequence -/
def strings (code : ContractRefusalCode) (name : String) (nonempty : Bool) :
    Option (List String) → Except ContractError (List String)
  | none => .error (.refusal code (name ++ " must be an explicit sequence"))
  | some value => do
    require (value.all isText)
      (.refusal code (name ++ " contains an empty/non-string identity"))
    require value.Nodup (.refusal code (name ++ " contains duplicates"))
    require (¬ nonempty ∨ value ≠ []) (.refusal code (name ++ " must not be empty"))
    return value.insertionSort (· ≤ ·)

/-- `_identity` -/
def checkIdentity (i : LaneIdentity) : Except ContractError Unit := do
  let code := ContractRefusalCode.identityMismatch
  require (isText i.repository) (.refusal code "invalid repository")
  require (isText i.taskRef) (.refusal code "invalid task_ref")
  require (isText i.laneId) (.refusal code "invalid lane_id")
  require (0 < i.laneRowId) (.refusal code "invalid lane_row_id")
  require (i.identitySeq.all (0 < ·)) (.refusal code "invalid identity_seq")
  require (i.cycleId.all isText) (.refusal code "invalid cycle_id")
  require (isText i.branch) (.refusal code "invalid branch")
  require (isText i.admissionBase) (.refusal code "invalid admission_base")
  require (isText i.productTip) (.refusal code "invalid product_tip")
  require (isText i.laneRevision) (.refusal code "invalid lane_revision")
  require (isText i.taskRevision) (.refusal code "invalid task_revision")

/-- The loop of `_verifiers`. -/
def checkVerifier (v : AcceptanceVerifier) : Except ContractError Unit := do
  let code := ContractRefusalCode.invalidVerifiers
  require (0 < v.version) (.refusal code "verifier version must be a positive int")
  require ([v.acceptanceId, v.kind, v.commandOrCheckId, v.expectedOutcome,
    v.artifactFormat].all isText) (.refusal code "empty verifier field")

/-- `_verifiers` -/
def verifiers (value : List AcceptanceVerifier) (acceptanceIds : List String) :
    Except ContractError (List AcceptanceVerifier) := do
  checkAll checkVerifier value
  let ids := value.map AcceptanceVerifier.acceptanceId
  require (ids.Nodup ∧ ids ⊆ acceptanceIds ∧ acceptanceIds ⊆ ids)
    (.refusal .invalidVerifiers "exactly one verifier per acceptance id")
  return value.insertionSort fun a b => a.acceptanceId ≤ b.acceptanceId

/-- The loop of `_assignments`. -/
def checkAssignment (a : FindingAssignment) : Except ContractError Unit := do
  let code := ContractRefusalCode.invalidAssignment
  require (0 < a.dbId) (.refusal code "invalid finding DB id")
  require (isText a.findingId) (.refusal code "invalid stable finding id")

/-- `_assignments`; `none` is not a sequence -/
def assignments (value : Option (List FindingAssignment)) (emptyDeclared : Bool) :
    Except ContractError (List FindingAssignment) :=
  match value with
  | none => .error (.refusal .assignmentAbsent "assigned findings must be explicit")
  | some value => do
    require (value ≠ [] ∨ emptyDeclared)
      (.refusal .assignmentAbsent "empty assignment needs an owner declaration")
    require (value = [] ∨ ¬ emptyDeclared)
      (.refusal .invalidAssignment "nonempty assignment conflicts with empty declaration")
    checkAll checkAssignment value
    require (value.map FindingAssignment.dbId).Nodup
      (.refusal .invalidAssignment "duplicate finding DB id")
    require (value.map FindingAssignment.findingId).Nodup
      (.refusal .invalidAssignment "duplicate stable finding id")
    return value.insertionSort fun a b => a.dbId ≤ b.dbId

/-- One round of the loop of `_transfer_shape`. -/
def transferEdge (edge : TransferEdge) : Except ContractError TransferEdge := do
  let code := ContractRefusalCode.invalidTransfer
  checkIdentity edge.source
  checkIdentity edge.carrier
  require (edge.source ≠ edge.carrier)
    (.refusal code "transfer requires a different carrier")
  require (edge.authenticated ∧ isText edge.authorityId)
    (.refusal code "transfer needs owner authority")
  let evidence ← strings code "transfer evidence" true (some edge.evidenceIds)
  require (isText edge.sourceContractHash) (.refusal code "source contract hash absent")
  require (edge.mappings ≠ []) (.refusal code "transfer coverage absent")
  checkAll (fun m => require (isText m.predecessor.id ∧ isText m.carrier.id)
    (.refusal code "obligation")) edge.mappings
  return { edge with evidenceIds := evidence }

/-- `_transfer_shape` -/
def transferShape (transfers : List TransferEdge) : Except ContractError (List TransferEdge) :=
  readAll transferEdge transfers

/-! ## Encoding -/

/-- `_canonical` of a tuple -/
def canonicalTuple {α : Type} (host : ContractHost) (item : α → CanonicalItem) (xs : List α) :
    List α :=
  xs.insertionSort fun a b => host.text (item a) ≤ host.text (item b)

variable (host : ContractHost)

/-- `_canonical` of a transfer -/
def canonicalEdge (edge : TransferEdge) : TransferEdge :=
  { edge with
    mappings := canonicalTuple host .mapping edge.mappings
    evidenceIds := canonicalTuple host .text edge.evidenceIds }

/-- `_canonical` of a payload, as `canonical_json` writes it -/
def canonical (host : ContractHost) (p : ContractPayload) : ContractPayload :=
  { p with
    contract := { p.contract with
      findingIds := p.contract.findingIds.map (canonicalTuple host .text)
      acceptanceIds := canonicalTuple host .text p.contract.acceptanceIds
      requiredCommands := p.contract.requiredCommands.map (canonicalTuple host .text)
      evidenceIds := canonicalTuple host .text p.contract.evidenceIds
      acceptanceVerifiers := canonicalTuple host .verifier p.contract.acceptanceVerifiers }
    assignedFindings := canonicalTuple host .assignment p.assignedFindings
    transfers := canonicalTuple host .transfer (p.transfers.map (canonicalEdge host))
    testTargetPolicy := canonicalTuple host .text p.testTargetPolicy }

/-- `_digests` of a canonical payload: its contract hash and its idempotency key -/
def digests (p : ContractPayload) : String × String :=
  (host.digest { p with contract := { p.contract with contractHash := "" } },
    host.digest { p with contract := { p.contract with contractHash := "", revision := 0 } })

/-- `_decode`, but for its exception handler -/
def decodeRow (row : ContractRow) : Except ContractError ContractRecord := do
  let code := ContractRefusalCode.contractMismatch
  let p := row.payload
  let i := p.contract.identity
  require (p.contract.revision = row.revision ∧ p.contract.contractHash = row.contractHash
      ∧ row.contractHash = (digests host p).1)
    (.refusal code "contract hash/revision mismatch; hold")
  require (i.taskRef = row.taskRef ∧ i.laneId = row.laneId ∧ i.laneRowId = row.laneRowId
      ∧ i.identitySeq = row.identitySeq ∧ (digests host p).2 = row.idempotencyKey)
    (.refusal code "indexed identity/idempotency mismatch; hold")
  checkIdentity i
  let acceptanceVerifiers ← verifiers p.contract.acceptanceVerifiers p.contract.acceptanceIds
  let assigned ← assignments (some p.assignedFindings) p.emptyAssignmentDeclared
  let ids := assigned.map FindingAssignment.findingId
  require (p.contract.findingIds.any fun findings => findings ⊆ ids ∧ ids ⊆ findings)
    (.refusal code "finding declaration mismatch")
  require (host.objectiveDigest p.objective = p.contract.objectiveHash)
    (.refusal code "objective hash")
  let transfers ← transferShape p.transfers
  return { p with
    contract := { p.contract with acceptanceVerifiers }
    assignedFindings := assigned, transfers
    idempotencyKey := row.idempotencyKey }

/-- `_decode` -/
def decode (row : ContractRow) : Except ContractError ContractRecord :=
  match decodeRow host row with
  | .ok record => .ok record
  | .error (.refusal .contractMismatch detail) => .error (.refusal .contractMismatch detail)
  | .error _ => .error (.refusal .contractMismatch "malformed or replaced contract; hold")

/-! ## Reads -/

/-- The row with the greatest revision, of those of one lane. -/
def newest : List ContractRow → Option ContractRow
  | [] => none
  | row :: rows =>
    match newest rows with
    | none => some row
    | some best => if row.revision ≤ best.revision then some best else some row

/-- `_latest` -/
def latest (rows : List ContractRow) (taskRef laneId : String) : Option ContractRow :=
  newest (rows.filter fun row => row.taskRef = taskRef ∧ row.laneId = laneId)

/-- The rows that `_validate_ownership` reads: the latest of each other lane of the task. -/
def otherLatest (rows : List ContractRow) (taskRef laneId : String) : List ContractRow :=
  rows.filter fun row => row.taskRef = taskRef ∧ row.laneId ≠ laneId
    ∧ (latest rows row.taskRef row.laneId).map ContractRow.revision = some row.revision

/-- `load_contract` -/
def loadContract (rows : List ContractRow) (taskRef laneId : String)
    (revision : Option Int) : Except ContractError ContractRecord := do
  let code := ContractRefusalCode.invalidContract
  require (isText taskRef ∧ isText laneId) (.refusal code "task/lane required")
  require (revision.all (0 < ·)) (.refusal code "invalid revision")
  let row := match revision with
    | none => latest rows taskRef laneId
    | some revision => rows.find? fun row =>
        row.taskRef = taskRef ∧ row.laneId = laneId ∧ row.revision = revision
  match row with
  | none => .error (.refusal .contractAbsent "contract revision unavailable; hold")
  | some row => decode host row

/-! ## Recording -/

/-- The arguments of `record_contract`. -/
structure Declaration where
  identity : LaneIdentity
  objective : String
  integrationRef : String
  acceptanceIds : List String
  acceptanceVerifiers : List AcceptanceVerifier
  approved : Bool
  exhaustive : Bool
  evidenceIds : List String
  assignedFindings : Option (List FindingAssignment) := none
  emptyAssignmentDeclared : Bool := false
  requiredCommands : Option (List String) := none
  nonTestAcceptanceId : Option String := none
  transfers : List TransferEdge := []
  nonTestReason : Option String := none
  testTargetPolicy : List String := ["candidate", "integration"]
deriving DecidableEq

/-- The part of `record_contract` before the transaction. -/
def provisional (d : Declaration) : Except ContractError ContractPayload := do
  let code := ContractRefusalCode.invalidContract
  checkIdentity d.identity
  require (isText d.objective ∧ isText d.integrationRef)
    (.refusal code "objective/integration ref required")
  let acceptance ← strings .emptyAcceptance "acceptance ids" true (some d.acceptanceIds)
  let acceptanceVerifiers ← verifiers d.acceptanceVerifiers acceptance
  let assigned ← assignments d.assignedFindings d.emptyAssignmentDeclared
  let commands ← strings .commandsAbsent "required commands" false d.requiredCommands
  let evidence ← strings code "owner evidence" true (some d.evidenceIds)
  require (d.approved ∧ d.exhaustive) (.refusal code "approved exhaustive scope required")
  require (d.nonTestAcceptanceId.all (· ∈ acceptance))
    (.refusal code "unknown non-test acceptance")
  require (commands ≠ [] ∨ d.nonTestAcceptanceId.any (· ∈ acceptance))
    (.refusal code "no tests requires explicit alternative acceptance")
  require (d.nonTestReason.all isText) (.refusal code "invalid non-test reason")
  require (commands ≠ [] ∨ d.nonTestReason.any isText ∧ acceptanceVerifiers.any fun v =>
      d.nonTestAcceptanceId = some v.acceptanceId ∧ v.kind ≠ "test")
    (.refusal code "no tests requires a reason and alternative verifier")
  let targetPolicy ← strings code "test target policy" true (some d.testTargetPolicy)
  require (targetPolicy ⊆ ["candidate", "integration"])
    (.refusal code "unknown completion phase in test policy")
  let transfers ← transferShape d.transfers
  return {
    contract := {
      identity := d.identity, revision := 0, contractHash := ""
      objectiveHash := host.objectiveDigest d.objective
      findingIds := some ((assigned.map FindingAssignment.findingId).insertionSort (· ≤ ·))
      acceptanceIds := acceptance, requiredCommands := some commands
      approved := d.approved, exhaustive := d.exhaustive, evidenceIds := evidence
      nonTestAcceptanceId := d.nonTestAcceptanceId, acceptanceVerifiers }
    assignedFindings := assigned, emptyAssignmentDeclared := d.emptyAssignmentDeclared
    objective := d.objective, integrationRef := d.integrationRef, transfers
    nonTestReason := d.nonTestReason, testTargetPolicy := targetPolicy }

/-- One round of the loop of `record_contract` over the assignments. -/
def checkFinding (db : Native) (taskRef : String) (a : FindingAssignment) :
    Except ContractError Unit := do
  let found := db.findingRows a.dbId
  require (found ≠ []) (.refusal .unknownFinding ("unknown DB finding " ++ toString a.dbId))
  require (found.all fun f => f.taskRef = taskRef ∧ f.findingId = a.findingId)
    (.refusal .findingIdentityMismatch "DB/stable finding identity mismatch")

/-- One round of the loop of `_validate_transfers`. -/
def validateTransfer (rows : List ContractRow) (contract : CompletionContract)
    (edge : TransferEdge) : Except ContractError Unit := do
  let code := ContractRefusalCode.invalidTransfer
  match latest rows edge.source.taskRef edge.source.laneId with
  | none => .error (.refusal code "source contract absent")
  | some row => do
    let previous ← decode host row
    require (previous.contract.identity = edge.source
        ∧ previous.contract.contractHash = edge.sourceContractHash
        ∧ edge.carrier = contract.identity)
      (.refusal code "transfer identity/hash mismatch")
    checkAll (fun m => require (m.predecessor ∈ previous.contract.obligations
        ∧ m.carrier ∈ contract.obligations)
      (.refusal code "transfer names unassigned obligations")) edge.mappings

/-- The transfers hand a finding over, as it is, from a contract to a carrier. -/
def coversFinding (transfers : List TransferEdge) (previous : CompletionContract)
    (carrier : LaneIdentity) (finding : String) : Bool :=
  transfers.any fun edge => edge.source = previous.identity
    && edge.sourceContractHash = previous.contractHash && edge.carrier = carrier
    && edge.mappings.any fun m => m.predecessor = ⟨.finding, finding⟩
      && m.carrier = ⟨.finding, finding⟩

/-- One round of the loop of `_validate_ownership`. -/
def validateOwner (p : ContractPayload) (row : ContractRow) :
    Except ContractError Unit := do
  let previous ← decode host row
  let overlap := (previous.contract.findingIds.getD []).filter
    (· ∈ p.contract.findingIds.getD [])
  checkAll (fun finding => require
      (coversFinding p.transfers previous.contract p.contract.identity finding)
      (.refusal .ambiguousAssignment
        (finding ++ " is already assigned to " ++ row.laneId))) overlap

/-- The next revision of a lane. -/
def nextRevision (rows : List ContractRow) (i : LaneIdentity) :
    Except ContractError Int :=
  match latest rows i.taskRef i.laneId with
  | none => .ok 1
  | some row => decode host row >>= fun previous => .ok (previous.contract.revision + 1)

/-- A payload with its revision, and then with its contract hash. -/
def numbered (p : ContractPayload) (revision : Int) : ContractPayload :=
  let counted := { p with contract := { p.contract with revision } }
  { counted with
    contract := { counted.contract with
      contractHash := (digests host (canonical host counted)).1 } }

/-- The row of a payload. -/
def contractRow (p : ContractPayload) (key : String) : ContractRow :=
  { taskRef := p.contract.identity.taskRef, laneRowId := p.contract.identity.laneRowId
    laneId := p.contract.identity.laneId, identitySeq := p.contract.identity.identitySeq
    revision := p.contract.revision, contractHash := p.contract.contractHash
    payload := canonical host p, idempotencyKey := key }

/-- The constraints of the table admit a row. -/
def admits (rows : List ContractRow) (row : ContractRow) : Bool :=
  rows.all fun r => r.idempotencyKey ≠ row.idempotencyKey
    && ¬ (r.taskRef = row.taskRef ∧ r.laneId = row.laneId ∧ r.revision = row.revision)

/-- The part of the transaction of `record_contract` that appends. -/
def appendContract (rows : List ContractRow) (p : ContractPayload)
    (key : String) : Except ContractError (ContractRecord × List ContractRow) := do
  let i := p.contract.identity
  let revision ← nextRevision host rows i
  let record := numbered host p revision
  checkAll (validateTransfer host rows record.contract) record.transfers
  checkAll (validateOwner host record) (otherLatest rows i.taskRef i.laneId)
  let row := contractRow host record key
  require (admits rows row) .integrityError
  match latest (rows ++ [row]) i.taskRef i.laneId with
  | some stored => decode host stored >>= fun returned => .ok (returned, rows ++ [row])
  | none => .error .integrityError

/-- `record_contract`: the record that it returns and the rows that it leaves -/
def recordContract (db : Native) (rows : List ContractRow)
    (d : Declaration) : Except ContractError (ContractRecord × List ContractRow) := do
  let p ← provisional host d
  let i := p.contract.identity
  let key := (digests host (canonical host p)).2
  require ((db.lane? i.laneRowId).any (·.matchesIdentity i))
    (.refusal .identityMismatch "lane row identity changed or absent")
  require ((db.task? i.taskRef).any fun task => toString task.revision = i.taskRevision)
    (.refusal .identityMismatch "task identity/revision changed or absent")
  checkAll (checkFinding db i.taskRef) p.assignedFindings
  match rows.find? (·.idempotencyKey = key) with
  | some existing => decode host existing >>= fun record => .ok (record, rows)
  | none => appendContract host rows p key

/-! ## The store over time -/

/-- The store: the tables of other writers and the contracts. -/
structure ContractStore where
  native : Native := {}
  rows : List ContractRow := []
deriving DecidableEq

/-- A call of `record_contract`, or any change of the other tables. -/
inductive ContractCall where
  | record (d : Declaration)
  | native (db : Native)
deriving DecidableEq

/-- The store as a machine; a change of another table is not answered. -/
def contractMachine :
    Effects.Machine ContractStore ContractCall (Option (Except ContractError ContractRecord)) where
  step s
    | .record d =>
      match recordContract host s.native s.rows d with
      | .ok (record, rows) => ({ s with rows := rows }, some (.ok record))
      | .error e => (s, some (.error e))
    | .native db => ({ s with native := db }, none)

end Workbay.Completion

import Workbay.Completion.Recording
import Workbay.Data.Json

/-!
# Production receipts

The production of a lane is an append-only list of receipts. One admission of a repository is the
root of a chain; every receipt names its predecessor and is appended only at the head that its
writer expects. Identity and contract of a chain move only by contract links. A prepare that follows
a seal writes a gap first, which invalidates the seal.

A row is its payload with its place in the chain; the columns that repeat parts of the payload are
read from the payload.
-/

namespace Workbay.Completion

/-! ## Receipts -/

/-- `ProductionTarget` -/
structure ProductionTarget where
  phase : String
  candidateSha : String
  integrationRef : String
  integrationSha : String
  mergeTreeOid : Option String := none
  landingSha : Option String := none
deriving DecidableEq

/-- `ProductionBinding` -/
structure ProductionBinding where
  identity : LaneIdentity
  contractRevision : Int
  contractHash : String
  target : Option ProductionTarget := none
deriving DecidableEq

/-- `RefusalCode` of the production ledger -/
inductive ProductionRefusalCode where
  | invalidRecord
  | identityMismatch
  | contractMismatch
  | idempotencyConflict
  | headConflict
  | admissionAbsent
  | admissionAmbiguous
  | admissionConflict
  | operationAbsent
  | operationConflict
  | openOperations
  | unsupportedKind
  | corruptRecord
  | invalidCursor
deriving DecidableEq

/-- Why a call raises: `ProductionRefusal`, or a constraint of the table. -/
inductive ProductionError where
  | refusal (code : ProductionRefusalCode) (detail : String)
  | integrityError
deriving DecidableEq

/-- `ProductionHead` -/
structure ProductionHead where
  sequence : Int
  evidenceId : Option String
deriving DecidableEq

/-- The kinds of receipts, without their common prefix. -/
inductive ReceiptKind where
  | admission
  | prepare
  | settle
  | seal
  | contractLink
  | gap
deriving DecidableEq

/-- `kind.removeprefix("production_")` -/
def ReceiptKind.phase : ReceiptKind → String
  | .admission => "admission"
  | .prepare => "prepare"
  | .settle => "settle"
  | .seal => "seal"
  | .contractLink => "contract_link"
  | .gap => "gap"

/-- A JSON object. -/
abbrev Facts := List (String × Json)

/-- `facts.get(key)` -/
def Facts.get (facts : Facts) (key : String) : Json := (Dict.get? facts key).getD .null

/-- `ProductionAppend` -/
structure ProductionAppend where
  binding : ProductionBinding
  admissionId : String
  operationId : String
  producerKind : String
  producerVersion : String
  writerAuthorityRef : String
  expectedHead : ProductionHead
  facts : Facts
deriving DecidableEq

/-- The payload of a receipt, but for its place in the chain. -/
structure ProductionPayload extends ProductionAppend where
  evidenceKind : ReceiptKind
  operationPhase : String
deriving DecidableEq

/-- A row of `lane_completion_evidence`. -/
structure Receipt where
  payload : ProductionPayload
  sequence : Int
  previousEvidenceId : Option String
  evidenceId : String
  idempotencyKey : String
deriving DecidableEq

/-- `_lineage` -/
structure Lineage where
  repository : String
  taskRef : String
  laneRowId : Int
  identitySeq : Option Int
  admissionId : String
deriving DecidableEq

/-- `_lineage` -/
def lineage (b : ProductionBinding) (admissionId : String) : Lineage :=
  ⟨b.identity.repository, b.identity.taskRef, b.identity.laneRowId, b.identity.identitySeq,
    admissionId⟩

/-- What `_idempotency` digests. -/
inductive IdempotencyParts where
  | seal (l : Lineage) (head : Option String) (policyDigest : Json) (bindingDigest : String)
  | operation (l : Lineage) (producerKind operationId operationPhase : String)

/-- The SHA-256 of the JSON texts of a payload in its place, of a binding and of the parts of an
idempotency key, and the length of the text of a payload. -/
structure ProductionHost extends ContractHost where
  receiptDigest : ProductionPayload → Int → Option String → String
  bindingDigest : ProductionBinding → String
  keyDigest : IdempotencyParts → String
  payloadBytes : ProductionPayload → Int → Option String → Nat

/-- `MAX_PAGE_ROWS` -/
def maxPageRows : Nat := 200

/-- `MAX_PAGES` -/
def maxPages : Nat := 2

/-- `MAX_DECODED_BYTES` -/
def maxDecodedBytes : Nat := 524288

/-- `MAX_MANIFEST_PATHS` -/
def maxManifestPaths : Nat := 200

namespace Receipt

/-- The kind of the receipt. -/
abbrev kind (r : Receipt) : ReceiptKind := r.payload.evidenceKind

/-- The binding of the receipt. -/
abbrev binding (r : Receipt) : ProductionBinding := r.payload.binding

/-- The receipt belongs to an admission of a repository. -/
def belongs (r : Receipt) (repository admissionId : String) : Bool :=
  r.binding.identity.repository = repository && r.payload.admissionId = admissionId

/-- `ProductionRecord.head` -/
def head (r : Receipt) : ProductionHead := ⟨r.sequence, some r.evidenceId⟩

end Receipt

/-! ## Bindings -/

/-- The part of `_binding` that checks a target. -/
def targetText (t : ProductionTarget) : Bool :=
  (t.phase = "candidate" || t.phase = "integration")
    && [t.candidateSha, t.integrationRef, t.integrationSha].all isText
    && t.mergeTreeOid.all isText && t.landingSha.all isText

/-- `_binding` -/
def checkBinding (b : ProductionBinding) (sealing : Bool) : Except ProductionError Unit := do
  match checkIdentity b.identity with
  | .ok () => .ok ()
  | .error _ => .error (.refusal .identityMismatch "full lane identity required")
  require (0 < b.contractRevision ∧ isText b.contractHash)
    (.refusal .contractMismatch "contract revision/hash required")
  require (¬ sealing ∨ b.target.isSome) (.refusal .invalidRecord "seal requires exact target")
  require (b.target.all targetText) (.refusal .invalidRecord "invalid target")

variable (host : ProductionHost)

/-- `_decode_contract(row).contract`, with the refusal of the ledger -/
def decodeContract (row : ContractRow) (detail : String) :
    Except ProductionError CompletionContract :=
  match decode host.toContractHost row with
  | .ok record => .ok record.contract
  | .error _ => .error (.refusal .contractMismatch detail)

/-- `_validate_binding` -/
def validateBinding (db : Native) (contracts : List ContractRow)
    (b : ProductionBinding) (nativeCycle : Bool) : Except ProductionError Unit := do
  let i := b.identity
  require ((db.lane? i.laneRowId).any (fun lane => lane.matchesIdentity i
        && lane.updatedAt = i.laneRevision
        && (!nativeCycle || some (toString lane.cycleEpoch) = i.cycleId))
      ∧ (db.task? i.taskRef).any fun task => toString task.revision = i.taskRevision)
    (.refusal .identityMismatch "current lane/task identity changed or absent")
  match latest contracts i.taskRef i.laneId with
  | none => .error (.refusal .contractMismatch "current contract revision/hash changed or absent")
  | some row => do
    require (row.revision = b.contractRevision ∧ row.contractHash = b.contractHash)
      (.refusal .contractMismatch "current contract revision/hash changed or absent")
    let contract ← decodeContract host row "invalid stored contract"
    require (contract.identity = i)
      (.refusal .identityMismatch "complete contract identity mismatch")
    require (contract.approved ∧ contract.exhaustive)
      (.refusal .contractMismatch "approved exhaustive contract required")

/-- `_validate_retained_binding` -/
def validateRetainedBinding (contracts : List ContractRow)
    (b : ProductionBinding) : Except ProductionError Unit := do
  let i := b.identity
  match contracts.find? fun row => row.taskRef = i.taskRef ∧ row.laneId = i.laneId
      ∧ row.revision = b.contractRevision with
  | none => .error (.refusal .contractMismatch "retained contract absent")
  | some row => do
    let contract ← decodeContract host row "invalid retained contract"
    require (contract.contractHash = b.contractHash ∧ contract.approved ∧ contract.exhaustive)
      (.refusal .contractMismatch
        "retained approved exhaustive contract revision/hash mismatch")
    require (contract.identity = i)
      (.refusal .identityMismatch "full retained identity mismatch")

/-- `_same_point` -/
def samePoint (left right : ProductionBinding) : Bool :=
  left.identity = right.identity && left.contractRevision = right.contractRevision
    && left.contractHash = right.contractHash

/-! ## Reads -/

variable (receipts : List Receipt)

/-- `ORDER BY sequence` -/
def inOrder : List Receipt :=
  receipts.insertionSort fun a b => a.sequence ≤ b.sequence

/-- The receipts of an admission of a repository. -/
def receiptsOf (repository admissionId : String) : List Receipt :=
  receipts.filter (·.belongs repository admissionId)

/-- `_head` -/
def headOf (repository admissionId : String) : ProductionHead :=
  match (inOrder (receiptsOf receipts repository admissionId)).getLast? with
  | some r => r.head
  | none => ⟨0, none⟩

/-- The settlements of an operation. -/
def settles (r : Receipt) (operationId : String) : Bool :=
  r.kind = .settle && r.payload.operationId = operationId

/-- `_open_operations`, of the receipts of one admission -/
def openOperations (chain : List Receipt) (highWater : Int) : Nat :=
  (chain.filter fun p => p.kind = .prepare && p.sequence ≤ highWater
    && ¬ chain.any fun s => settles s p.payload.operationId && s.sequence ≤ highWater).length

/-- `_idempotency` -/
def idempotency (p : ProductionPayload) : String :=
  let l := lineage p.binding p.admissionId
  if p.evidenceKind = .seal then
    host.keyDigest (.seal l p.expectedHead.evidenceId (p.facts.get "coverage_policy_digest")
      (host.bindingDigest p.binding))
  else host.keyDigest (.operation l p.producerKind p.operationId p.operationPhase)

/-- `_decode` -/
def decodeReceipt (r : Receipt) : Except ProductionError Receipt := do
  require (r.evidenceId = host.receiptDigest r.payload r.sequence r.previousEvidenceId
      ∧ r.idempotencyKey = idempotency host r.payload)
    (.refusal .corruptRecord "replaced payload/indexed identity; hold")
  return r

mutual

/-- `_path_count` -/
def pathCount : Json → Nat
  | .obj members => pathCountMembers members
  | .arr xs => pathCountList xs
  | _ => 0

/-- The paths in a list. -/
def pathCountList : List Json → Nat
  | [] => 0
  | x :: xs => pathCount x + pathCountList xs

/-- The paths among the members of an object. -/
def pathCountMembers : List (String × Json) → Nat
  | [] => 0
  | ("path", .str _) :: members => 1 + pathCountMembers members
  | ("paths", .arr xs) :: members => xs.length + pathCountMembers members
  | ("manifest_paths", .arr xs) :: members => xs.length + pathCountMembers members
  | ("manifest", .obj xs) :: members => xs.length + pathCountMembers members
  | (_, x) :: members => pathCount x + pathCountMembers members

end

/-! ## The walk along contract links -/

/-- An optional text as JSON. -/
def optionJson : Option String → Json
  | some s => .str s
  | none => .null

/-- An identity as JSON, with sorted keys. -/
def identityJson (i : LaneIdentity) : Json :=
  .obj [("admission_base", .str i.admissionBase), ("branch", .str i.branch),
    ("cycle_id", optionJson i.cycleId),
    ("identity_seq", (i.identitySeq.map Json.int).getD .null), ("lane_id", .str i.laneId),
    ("lane_revision", .str i.laneRevision), ("lane_row_id", .int i.laneRowId),
    ("product_tip", .str i.productTip), ("repository", .str i.repository),
    ("task_ref", .str i.taskRef), ("task_revision", .str i.taskRevision)]

/-- `asdict` of a head -/
def headJson (h : ProductionHead) : Json :=
  .obj [("evidence_id", optionJson h.evidenceId), ("sequence", .int h.sequence)]

/-- Where the loop of `_resolve_current_binding` is. -/
structure LinkWalk where
  point : ProductionBinding
  previous : Option String := none
  transitions : Nat := 0
  count : Nat := 0
  decodedBytes : Nat := 0
  manifestPaths : Nat := 0
  beforePoints : List (Json × Json) := []

/-- The part of a round of the loop that reads a contract link. -/
def walkLink (w : LinkWalk) (r : Receipt) : Except ProductionError LinkWalk := do
  let facts := r.payload.facts
  require (facts.get "predecessor_head" = headJson ⟨w.count, w.previous⟩)
    (.refusal .corruptRecord "transition predecessor head mismatch")
  require (facts.get "after_identity" = identityJson r.binding.identity
      ∧ facts.get "after_contract_hash" = .str r.binding.contractHash)
    (.refusal .corruptRecord "transition after does not match receipt binding")
  let before := (facts.get "before_identity", facts.get "before_contract_hash")
  require (before ∉ w.beforePoints)
    (.refusal .admissionAmbiguous "branching production identity transitions")
  require (before = (identityJson w.point.identity, .str w.point.contractHash))
    (.refusal .identityMismatch "transition before does not match retained binding")
  return { w with
    point := r.binding, transitions := w.transitions + 1
    beforePoints := before :: w.beforePoints }

/-- The part of a round of the loop that moves the point. -/
def walkPayload (w : LinkWalk) (r : Receipt) : Except ProductionError LinkWalk :=
  if r.kind = .contractLink then walkLink w r
  else do
    require (samePoint r.binding w.point)
      (.refusal .identityMismatch "receipt binding has no retained identity transition")
    return w

variable (host : ProductionHost)

/-- One round of the loop of `_resolve_current_binding`. -/
def walkReceipt (contracts : List ContractRow)
    (retained : ProductionBinding) (admissionId : String) (w : LinkWalk) (r : Receipt) :
    Except ProductionError LinkWalk := do
  let bytes := host.payloadBytes r.payload r.sequence r.previousEvidenceId
  require (w.count < maxPageRows * maxPages)
    (.refusal .corruptRecord "transition lookup row cap exceeded")
  require (bytes ≤ maxDecodedBytes ∧ bytes + w.decodedBytes ≤ maxDecodedBytes)
    (.refusal .corruptRecord "transition lookup byte cap exceeded")
  let record ← decodeReceipt host r
  require (record.sequence = w.count + 1 ∧ record.previousEvidenceId = w.previous)
    (.refusal .corruptRecord "broken production predecessor chain")
  checkBinding record.binding false
  require (lineage record.binding record.payload.admissionId = lineage retained admissionId
      ∧ record.binding.identity.laneId = retained.identity.laneId)
    (.refusal .identityMismatch "foreign receipt lineage")
  validateRetainedBinding host contracts record.binding
  let paths := w.manifestPaths + pathCountMembers record.payload.facts
  require (paths ≤ maxManifestPaths)
    (.refusal .corruptRecord "transition lookup path cap exceeded")
  let moved ← walkPayload w record
  return { moved with
    previous := some record.evidenceId, count := w.count + 1
    decodedBytes := w.decodedBytes + bytes, manifestPaths := paths }

/-- `_resolve_current_binding` -/
def resolveCurrentBinding (db : Native) (contracts : List ContractRow)
    (receipts : List Receipt) (root : Receipt) (b : ProductionBinding) :
    Except ProductionError (ProductionBinding × Nat) := do
  validateBinding host db contracts b true
  let retained := root.binding
  let admissionId := root.payload.admissionId
  checkBinding retained false
  require (root.sequence = 1 ∧ root.previousEvidenceId = none ∧ root.kind = .admission)
    (.refusal .corruptRecord "invalid admission root")
  require (lineage b admissionId = lineage retained admissionId)
    (.refusal .identityMismatch "foreign admission lineage")
  validateRetainedBinding host contracts retained
  let head := headOf receipts retained.identity.repository admissionId
  require (head.sequence ≤ (maxPageRows * maxPages : Nat))
    (.refusal .corruptRecord "transition lookup row cap exceeded")
  let rows := (inOrder (receiptsOf receipts retained.identity.repository admissionId)).take
    (maxPageRows * maxPages + 1)
  let w ← rows.foldlM (walkReceipt host contracts retained admissionId) { point := retained }
  require (w.count = head.sequence ∧ w.previous = head.evidenceId)
    (.refusal .corruptRecord "incomplete production chain at retained head")
  require (samePoint w.point b)
    (.refusal .identityMismatch (if w.transitions ≠ 0
      then "transition chain does not reach current binding"
      else "no retained identity transition"))
  return (retained, w.transitions)

/-! ## Appending -/

/-- The part of `_append` before the transaction: the payload. -/
def prepared (kind : ReceiptKind) (request : ProductionAppend) :
    Except ProductionError ProductionPayload := do
  let code := ProductionRefusalCode.invalidRecord
  checkBinding request.binding (kind = .seal)
  require ([request.admissionId, request.operationId, request.producerKind,
      request.producerVersion, request.writerAuthorityRef].all isText)
    (.refusal code "receipt identities required")
  let head := request.expectedHead
  require (head.sequence = 0 ∧ head.evidenceId = none
      ∨ 0 < head.sequence ∧ head.evidenceId.any isText)
    (.refusal code "explicit predecessor sequence/digest required")
  let facts : Facts := ((Json.obj request.facts).sortKeys.obj?).getD []
  require (facts.get "source_digest" = .null ∨ (facts.get "source_digest").str?.any isText)
    (.refusal code "invalid source digest")
  require ((Dict.get? facts "source_cursors").all fun v => v.obj?.isSome)
    (.refusal code "source cursors must be a map")
  require ((Dict.get? facts "coverage_policy_version").all fun v => v.str?.any isText)
    (.refusal code "invalid coverage policy version")
  require (kind ≠ .seal ∨ (facts.get "coverage_policy_digest").str?.any isText)
    (.refusal code "seal coverage policy digest required")
  return { request with facts, evidenceKind := kind, operationPhase := kind.phase }

/-- The constraints of the table admit a receipt. -/
def admitsReceipt (receipts : List Receipt) (r : Receipt) : Bool :=
  receipts.all fun x => x.evidenceId ≠ r.evidenceId && x.idempotencyKey ≠ r.idempotencyKey
    && ¬ (x.belongs r.binding.identity.repository r.payload.admissionId
      && x.sequence = r.sequence)

/-- The row of a payload at a head. -/
def receiptAt (p : ProductionPayload) (head : ProductionHead) : Receipt :=
  { payload := p, sequence := head.sequence + 1, previousEvidenceId := head.evidenceId
    evidenceId := host.receiptDigest p (head.sequence + 1) head.evidenceId
    idempotencyKey := idempotency host p }

/-- `_insert` -/
def insertReceipt (receipts : List Receipt) (p : ProductionPayload)
    (head : ProductionHead) : Except ProductionError (Receipt × List Receipt) := do
  let r := receiptAt host p head
  require (admitsReceipt receipts r ∧ 0 < r.sequence) .integrityError
  let record ← decodeReceipt host r
  return (record, receipts ++ [r])

/-- The receipt says that a seal is no longer one. -/
def invalidates (r : Receipt) (sealId : String) : Bool :=
  r.payload.operationPhase = "seal_invalidation"
    && r.payload.facts.get "invalidated_evidence_id" = .str sealId

/-- The seals of an admission that no receipt invalidates, in order. -/
def standingSeals (chain : List Receipt) : List Receipt :=
  inOrder (chain.filter fun s => s.kind = .seal && ¬ chain.any fun g => invalidates g s.evidenceId)

/-- The gap that a prepare writes behind a seal. -/
def invalidation (p : ProductionPayload) (s : Receipt) : ProductionPayload :=
  { p with
    evidenceKind := .gap, operationPhase := "seal_invalidation", operationId := s.evidenceId
    facts := [("invalidated_evidence_id", .str s.evidenceId)] }

/-- The part of `_append` that inserts, at the current head. -/
def insertAt (receipts : List Receipt) (p : ProductionPayload)
    (current : ProductionHead) : Except ProductionError (Receipt × List Receipt) :=
  let chain := receiptsOf receipts p.binding.identity.repository p.admissionId
  match if p.evidenceKind = .prepare then (standingSeals chain).getLast? else none with
  | none => insertReceipt host receipts p current
  | some s => do
    let standing ← decodeReceipt host s
    let gap ← insertReceipt host receipts (invalidation p standing) current
    insertReceipt host gap.2 p gap.1.head

/-- The part of `_append` that checks the admission. -/
def checkRoot (db : Native) (contracts : List ContractRow)
    (receipts : List Receipt) (p : ProductionPayload) : Except ProductionError Unit :=
  let chain := receiptsOf receipts p.binding.identity.repository p.admissionId
  match (inOrder (chain.filter fun r => r.kind = .admission)).head? with
  | none =>
    require (p.evidenceKind = .admission) (.refusal .admissionAbsent "admission root absent")
  | some admission => do
    require (p.evidenceKind ≠ .admission)
      (.refusal .admissionConflict "admission already has an immutable root")
    let root ← decodeReceipt host admission
    require (lineage root.binding p.admissionId = lineage p.binding p.admissionId)
      (.refusal .identityMismatch "foreign admission lineage")
    if p.evidenceKind ≠ .contractLink ∧ ¬ samePoint root.binding p.binding then
      resolveCurrentBinding host db contracts receipts root p.binding >>= fun _ => .ok ()
    else .ok ()

/-- The part of `_append` between the replay check and the insert. -/
def checkAppend (db : Native) (contracts : List ContractRow)
    (receipts : List Receipt) (p : ProductionPayload) : Except ProductionError Unit := do
  let chain := receiptsOf receipts p.binding.identity.repository p.admissionId
  checkRoot host db contracts receipts p
  require (¬ (p.evidenceKind = .prepare ∨ p.evidenceKind = .settle) ∨ ¬ chain.any fun r =>
      r.payload.operationId = p.operationId && r.kind = p.evidenceKind)
    (.refusal .operationConflict "operation phase already recorded")
  require (p.evidenceKind ≠ .settle ∨ chain.any fun r =>
      r.payload.operationId = p.operationId && r.kind = .prepare)
    (.refusal .operationAbsent "settlement requires retained prepare")
  let current := headOf receipts p.binding.identity.repository p.admissionId
  require (current = p.expectedHead)
    (.refusal .headConflict "expected history head changed")
  require (p.evidenceKind ≠ .seal ∨ openOperations chain current.sequence = 0)
    (.refusal .openOperations "open operations cannot be sealed")

/-- `_append`: the record that it returns and the receipts that it leaves -/
def appendReceipt (db : Native) (contracts : List ContractRow)
    (receipts : List Receipt) (kind : ReceiptKind) (request : ProductionAppend) :
    Except ProductionError (Receipt × List Receipt) := do
  let p ← prepared kind request
  validateBinding host db contracts p.binding (kind ≠ .admission ∧ kind ≠ .contractLink)
  match receipts.find? (·.idempotencyKey = idempotency host p) with
  | some existing => do
    let record ← decodeReceipt host existing
    require (record.payload = p)
      (.refusal .idempotencyConflict "conflicting replay; original retained")
    return (record, receipts)
  | none => do
    checkAppend host db contracts receipts p
    insertAt host receipts p (headOf receipts p.binding.identity.repository p.admissionId)

/-! ## The ledger over time -/

/-- Tables of other writers in which the lane id of a row is fixed. -/
structure FixedLanes (laneIdOf : Int → String) extends Native where
  fixed : ∀ lane ∈ lanes, lane.laneId = laneIdOf lane.id

/-- No tables yet. -/
def FixedLanes.empty (laneIdOf : Int → String) : FixedLanes laneIdOf where
  fixed := fun _ h => absurd h List.not_mem_nil

/-- The ledger, with the tables that it reads. -/
structure Ledger (laneIdOf : Int → String) where
  native : FixedLanes laneIdOf := FixedLanes.empty laneIdOf
  contracts : List ContractRow := []
  receipts : List Receipt := []

/-- A call of one of the writers of receipts, a recorded contract, or any change of the lanes and
tasks. -/
inductive LedgerCall (laneIdOf : Int → String) where
  | append (kind : ReceiptKind) (request : ProductionAppend)
  | record (d : Declaration)
  | native (db : FixedLanes laneIdOf)

/-- The ledger as a machine; only the writers of receipts are answered. -/
def ledgerMachine (laneIdOf : Int → String) :
    Effects.Machine (Ledger laneIdOf) (LedgerCall laneIdOf)
      (Option (Except ProductionError Receipt)) where
  step s
    | .append kind request =>
      match appendReceipt host s.native.toNative s.contracts s.receipts kind request with
      | .ok (record, receipts) => ({ s with receipts := receipts }, some (.ok record))
      | .error e => (s, some (.error e))
    | .record d =>
      match recordContract host.toContractHost s.native.toNative s.contracts d with
      | .ok (_, contracts) => ({ s with contracts := contracts }, none)
      | .error _ => (s, none)
    | .native db => ({ s with native := db }, none)

end Workbay.Completion

import Workbay.Completion.Production

/-!
# Source coverage

A policy names the routes by which a lane can be produced, with the cursor that the source of each
has to reach. Recorded intervals of the sources are imported as settlements of prepared operations;
the validator reads the whole history of an admission and says whether it covers the sources.

The reader returns one page here, from the first receipt on and against the current rows. A history
that needs a second page is not complete for the validator.
-/

namespace Workbay.Completion

/-! ## The reader -/

/-- What `get_lane_production_history` returns, but for a continuation. -/
structure HistoryData where
  taskRef : String
  history : List Receipt
  returned : Nat
  totalMatching : Nat
  hasMore : Bool
  head : ProductionHead
  coveragePolicyVersion : Json
  sourceCursors : Json
  openOperationCount : Nat
  truncationReasons : List String
  decodedBytes : Nat
  manifestPaths : Nat
deriving DecidableEq

/-- The lengths of texts: of the JSON of a row of a page, of a fact as the database extracts it, of
the JSON of a value and of a whole answer; and the SHA-256 of the JSON of an entry of an interval. -/
structure CoverageHost extends ProductionHost where
  itemBytes : Receipt → Nat
  factBytes : Json → Nat
  jsonBytes : Json → Nat
  historyBytes : HistoryData → Nat
  entryDigest : Json → String

/-- `_HISTORY_WHERE` -/
def historyRows (receipts : List Receipt) (b : ProductionBinding) (admissionId : String) :
    List Receipt :=
  receipts.filter fun r => lineage r.binding r.payload.admissionId = lineage b admissionId

/-- Where the loop over the rows of a page is. -/
structure PageLoop where
  rows : List Receipt := []
  decodedBytes : Nat := 0
  manifestPaths : Nat := 0
  reasons : List String := []

variable (host : CoverageHost)

/-- One round of the loop over the rows of a page. -/
def pageRow (w : PageLoop) (row : Receipt) :
    Except ProductionError PageLoop :=
  if w.reasons ≠ [] then .ok w
  else if maxDecodedBytes < host.payloadBytes row.payload row.sequence row.previousEvidenceId
      + w.decodedBytes then .ok { w with reasons := ["byte_cap"] }
  else do
    let record ← decodeReceipt host.toProductionHost row
    let size := host.itemBytes record
    let paths := pathCountMembers record.payload.facts
    if maxDecodedBytes < size + w.decodedBytes then return { w with reasons := ["byte_cap"] }
    else if maxManifestPaths < paths + w.manifestPaths then
      return { w with reasons := ["path_cap"] }
    else return { w with
      rows := w.rows ++ [record], decodedBytes := w.decodedBytes + size
      manifestPaths := w.manifestPaths + paths }

/-- The latest value of a field of the facts. -/
def latestFact (rows : List Receipt) (field : String) : Option Json :=
  (rows.filterMap fun r => Dict.get? r.payload.facts field).getLast?

/-- What a field of the facts adds to a page: its value, unless the page is too long for it. -/
def pageFact (rows : List Receipt) (field : String) (absent : Json)
    (w : PageLoop) : Json × PageLoop :=
  match latestFact rows field with
  | none => (absent, w)
  | some value =>
    if maxDecodedBytes < host.factBytes value + w.decodedBytes then
      (absent, if "byte_cap" ∈ w.reasons then w else
        { w with reasons := w.reasons ++ ["byte_cap"] })
    else (value, { w with decodedBytes := w.decodedBytes + host.factBytes value })

/-- Why a page ends when other rows follow it. -/
def moreReasons (reasons : List String) (more : Bool) (remaining : Nat) (returned : Nat) :
    List String :=
  if more ∧ reasons = [] then
    if remaining = returned then ["read_limit"] else ["page_limit"]
  else reasons

/-- The answer of a page. -/
def pageData (b : ProductionBinding) (head : ProductionHead) (rows : List Receipt)
    (openCount remaining : Nat) (version cursors : Json) (w : PageLoop) : HistoryData :=
  let last := (w.rows.getLast?.map Receipt.sequence).getD 0
  let more := rows.any fun r => last < r.sequence
  let reasons := moreReasons w.reasons more remaining w.rows.length
  { taskRef := b.identity.taskRef, history := w.rows, returned := w.rows.length
    totalMatching := rows.length, hasMore := more || reasons ≠ [], head
    coveragePolicyVersion := version, sourceCursors := cursors
    openOperationCount := openCount, truncationReasons := reasons
    decodedBytes := w.decodedBytes, manifestPaths := w.manifestPaths }

/-- `get_lane_production_history` -/
def getLaneProductionHistory (db : Native) (contracts : List ContractRow)
    (receipts : List Receipt) (b : ProductionBinding) (admissionId : String)
    (limit : Int) (readLimit : Option Int) : Except ProductionError HistoryData := do
  checkBinding b false
  require (isText admissionId ∧ 0 < limit)
    (.refusal .invalidRecord "positive page limit/admission required")
  require (readLimit.all (0 < ·)) (.refusal .invalidRecord "positive read_limit required")
  validateBinding host.toProductionHost db contracts b false
  let head := headOf receipts b.identity.repository admissionId
  let matching := inOrder (historyRows receipts b admissionId)
  require (head.sequence = 0 ∨ (matching.find? (·.sequence = 1)).any (·.kind = .admission))
    (.refusal .identityMismatch "admission lineage mismatch")
  require (head.sequence = 0 ∨ (matching.find? (·.sequence = head.sequence)).any fun r =>
      some r.evidenceId = head.evidenceId)
    (.refusal .invalidCursor "captured head replaced")
  let rows := matching.filter (·.sequence ≤ head.sequence)
  let openCount := openOperations (receiptsOf receipts b.identity.repository admissionId)
    head.sequence
  let remaining := min ((readLimit.getD (maxPageRows * maxPages)).toNat) (maxPageRows * maxPages)
  let page := rows.take (min (min limit.toNat maxPageRows) remaining)
  let w ← page.foldlM (pageRow host) {}
  let version := pageFact host rows "coverage_policy_version" .null w
  let cursors := pageFact host rows "source_cursors" (.obj []) version.2
  return pageData b head rows openCount remaining version.1 cursors.1 cursors.2

/-! ## Policies -/

/-- `CoverageReason` -/
inductive CoverageReason where
  | routeNotNCapable
  | cursorGap
  | cursorReplaced
  | openOperation
  | unsupportedVersion
  | historyTruncated
  | unauthenticatedSource
  | identityMismatch
  | invalidHistory
  | historyChanged
deriving DecidableEq

/-- Who records a route. -/
inductive Recorder where
  | trustedExternal
  | writableHook
  | workerCheckout
  | editableHooksPath
  | unmediated
  | refusalBeforeStart
deriving DecidableEq

/-- `RouteCapability` -/
structure RouteCapability where
  supportedVersions : List String
  recorder : Recorder
deriving DecidableEq

/-- `POLICY_VERSION` -/
def policyVersion : String := "native-coverage-v1"

/-- `CoveragePolicy` -/
structure CoveragePolicy where
  binding : ProductionBinding
  admissionId : String
  routes : List String
  registry : Dict String RouteCapability
  assessmentCursors : Dict String Json
  authenticate : Json → Bool
  version : String := policyVersion

/-- `route_capability` -/
def routeCapability (route producerVersion : String) (registry : Dict String RouteCapability) :
    Except CoverageReason Unit :=
  match registry.get? route with
  | none => .error .routeNotNCapable
  | some capability => do
    require (producerVersion ∈ capability.supportedVersions) .unsupportedVersion
    require (capability.recorder = .trustedExternal) .routeNotNCapable

/-- `_check_capability` -/
def checkCapability (route producerVersion : String) (policy : CoveragePolicy) :
    Except CoverageReason Unit := do
  require (route ∈ policy.routes) .routeNotNCapable
  routeCapability route producerVersion policy.registry

/-! ## Cursors -/

/-- A cursor of a source. -/
structure SourceCursor where
  storeId : String
  sequence : Int
  digest : String
deriving DecidableEq

/-- The JSON of a cursor. -/
def SourceCursor.json (c : SourceCursor) : Json :=
  .obj [("digest", .str c.digest), ("sequence", .int c.sequence), ("store_id", .str c.storeId)]

/-- `value[key]` on an object; other values raise. -/
def member (value : Json) (key : String) : Except CoverageReason Json :=
  match value.get? key with
  | some x => .ok x
  | none => .error .invalidHistory

/-- The text, if it is one and not empty. -/
def nonEmpty? (value : Json) : Option String := value.str?.filter (· ≠ "")

/-- `_cursor` -/
def readCursor (value : Json) : Except CoverageReason SourceCursor :=
  match (value.get? "store_id").bind nonEmpty?, (value.get? "sequence").bind Json.int?,
      (value.get? "digest").bind nonEmpty? with
  | some storeId, some sequence, some digest => do
    require ((value.obj?.getD []).all fun kv => kv.1 ∈ ["store_id", "sequence", "digest"])
      .cursorGap
    require (0 ≤ sequence) .cursorGap
    return ⟨storeId, sequence, digest⟩
  | _, _, _ => .error .cursorGap

/-- A text that a set or a dict is asked for; values that cannot be hashed raise. -/
def hashable (value : Json) (reason : CoverageReason) : Except CoverageReason String :=
  match value with
  | .str s => .ok s
  | .arr _ | .obj _ => .error .invalidHistory
  | _ => .error reason

/-- A binding as JSON, with sorted keys. -/
def bindingJson (b : ProductionBinding) : Json :=
  .obj [("contract_hash", .str b.contractHash), ("contract_revision", .int b.contractRevision),
    ("identity", identityJson b.identity),
    ("target", match b.target with
      | none => .null
      | some t => .obj [("candidate_sha", .str t.candidateSha),
          ("integration_ref", .str t.integrationRef), ("integration_sha", .str t.integrationSha),
          ("landing_sha", optionJson t.landingSha), ("merge_tree_oid", optionJson t.mergeTreeOid),
          ("phase", .str t.phase)])]

/-! ## Intervals -/

/-- The part of a round of the loop of `_advance` that checks the objects of an entry. -/
def checkOids (entry : Json) (previousOid : Option String) : Except CoverageReason String := do
  let old ← member entry "old_oid"
  require (nonEmpty? old).isSome .cursorGap
  let new ← member entry "new_oid"
  require (nonEmpty? new).isSome .cursorGap
  require (previousOid.all fun oid => old = .str oid) .cursorGap
  return new.str?.getD ""

/-- One round of the loop of `_advance`. -/
def advanceEntry (w : SourceCursor × Option String) (entry : Json) :
    Except CoverageReason (SourceCursor × Option String) := do
  let sequence ← member entry "sequence"
  require (sequence = .int (w.1.sequence + 1)) .cursorGap
  let previous ← member entry "previous_digest"
  require (previous = .str w.1.digest) .cursorGap
  let digest ← member entry "digest"
  require (digest = .str (host.entryDigest (.obj (Dict.pop (entry.obj?.getD []) "digest"))))
    .cursorGap
  let oid ← checkOids entry w.2
  return (⟨w.1.storeId, w.1.sequence + 1, digest.str?.getD ""⟩, some oid)

variable (policy : CoveragePolicy)

/-- The part of `_advance` that authenticates the interval. -/
def checkInterval (interval : Json) : Except CoverageReason Unit := do
  let binding ← member interval "binding"
  require (binding = bindingJson policy.binding) .identityMismatch
  let admissionId ← member interval "admission_id"
  require (admissionId = .str policy.admissionId) .identityMismatch
  let route ← member interval "route"
  let version ← member interval "producer_version"
  require (route.str?.any (· ∈ policy.routes)) .routeNotNCapable
  require ((route.str?.bind (Dict.get? policy.registry)).isSome) .routeNotNCapable
  let producerVersion ← hashable version .unsupportedVersion
  checkCapability (route.str?.getD "") producerVersion policy
  require (policy.authenticate interval) .unauthenticatedSource

/-- `_advance` -/
def advance (policy : CoveragePolicy) (interval : Json)
    (current : SourceCursor) : Except CoverageReason SourceCursor := do
  checkInterval policy interval
  let start ← member interval "start" >>= readCursor
  let stop ← member interval "end" >>= readCursor
  require (start.storeId = current.storeId ∧ current.storeId = stop.storeId) .cursorReplaced
  require (start = current ∧ start.sequence ≤ stop.sequence) .cursorGap
  let entries ← member interval "entries"
  require (entries.arr?.any fun xs => (xs.length : Int) = stop.sequence - start.sequence) .cursorGap
  let reached ← (entries.arr?.getD []).foldlM (advanceEntry host) (current, none)
  require (reached.1 = stop) .cursorGap
  return stop

/-! ## The scan of a history -/

/-- `_bounded_data` -/
def boundedData (data : HistoryData) : Except CoverageReason Unit := do
  require (data.hasMore = false ∧ data.truncationReasons = []
      ∧ data.history.length = data.returned ∧ data.history.length = data.totalMatching
      ∧ (data.history.length : Int) = data.head.sequence) .historyTruncated
  require (0 < data.history.length ∧ data.history.length ≤ maxPageRows * maxPages) .invalidHistory
  require (host.historyBytes data ≤ maxDecodedBytes) .historyTruncated

/-- Where the loop of `_scan` is. -/
structure ScanLoop where
  cursors : Dict String SourceCursor
  openOps : List String := []
  settled : List String := []
  predecessor : Option String := none
  count : Nat := 0

/-- The part of a round of the loop of `_scan` that follows the operations. -/
def scanKind (w : ScanLoop) (r : Receipt) : Except CoverageReason ScanLoop :=
  let operation := r.payload.operationId
  match r.kind with
  | .prepare => do
    require (operation ∉ w.openOps ∧ operation ∉ w.settled) .invalidHistory
    return { w with openOps := w.openOps ++ [operation] }
  | .settle => do
    require (operation ∈ w.openOps) .invalidHistory
    return { w with
      openOps := w.openOps.filter (· ≠ operation), settled := w.settled ++ [operation] }
  | .gap => .error .cursorGap
  | .contractLink => .error .invalidHistory
  | .admission | .seal => .ok w

/-- The part of a round of the loop of `_scan` that moves a cursor. -/
def scanInterval (policy : CoveragePolicy) (kind : ReceiptKind)
    (cursors : Dict String SourceCursor) (interval : Json) :
    Except CoverageReason (Dict String SourceCursor) := do
  require (kind = .settle) .invalidHistory
  let route ← member interval "route" >>= (hashable · .routeNotNCapable)
  match cursors.get? route with
  | none => .error .routeNotNCapable
  | some current => do
    let stop ← advance host policy interval current
    return cursors.set route stop

/-- One round of the loop of `_scan`. -/
def scanRow (policy : CoveragePolicy) (w : ScanLoop) (r : Receipt) :
    Except CoverageReason ScanLoop := do
  require (r.binding = policy.binding ∧ r.payload.admissionId = policy.admissionId)
    .identityMismatch
  require (r.sequence = (w.count : Int) + 1 ∧ r.previousEvidenceId = w.predecessor
      ∧ r.evidenceId = host.receiptDigest r.payload r.sequence r.previousEvidenceId)
    .invalidHistory
  let moved ← scanKind { w with predecessor := some r.evidenceId, count := w.count + 1 } r
  match Dict.get? r.payload.facts "source_interval" with
  | none => return moved
  | some interval => do
    let cursors ← scanInterval host policy r.kind moved.cursors interval
    return { moved with cursors }

/-- `set(value)` -/
def elements (value : Json) : Except CoverageReason (List Json) :=
  match value with
  | .arr xs =>
    if xs.any fun x => x.arr?.isSome || x.obj?.isSome then .error .invalidHistory else .ok xs
  | .str s => .ok (s.toList.map fun c => .str (String.ofList [c]))
  | .obj members => .ok (members.map fun kv => .str kv.1)
  | _ => .error .invalidHistory

/-- Two collections have the same elements. -/
def sameElements {α : Type} [DecidableEq α] (xs ys : List α) : Bool :=
  xs.all (· ∈ ys) && ys.all (· ∈ xs)

/-- A refused route refused before anything was started. -/
def refusedBeforeStart (root : Receipt) (route : String) (rows : List Receipt) :
    Except CoverageReason Unit := do
  let refused := ((Dict.get? root.payload.facts "refused_routes").getD (.obj []))
  require refused.obj?.isSome .invalidHistory
  let refusal := (refused.get? route).getD (.obj [])
  require (rows.length = 1) .routeNotNCapable
  require refusal.obj?.isSome .invalidHistory
  require (["worker_started", "source_access_started", "product_published"].all fun key =>
    refusal.get? key = some (.bool false)) .routeNotNCapable

/-- The loop of `_scan` over the routes of the policy, one round. -/
def checkRoute (root : Receipt) (rows : List Receipt) (route : String) :
    Except CoverageReason Unit :=
  match policy.registry.get? route with
  | some ⟨versions, .refusalBeforeStart⟩ => do
    refusedBeforeStart root route rows
    require (root.payload.producerVersion ∈ versions) .unsupportedVersion
  | _ => checkCapability route root.payload.producerVersion policy

/-- The cursors that an admission starts from. -/
def startCursors (root : Receipt) :
    Except CoverageReason (Dict String SourceCursor) := do
  let value ← member (.obj root.payload.facts) "source_cursors"
  match value.obj? with
  | none => .error .invalidHistory
  | some members => do
    require (sameElements (members.map Prod.fst) policy.routes) .cursorGap
    readAll (fun kv => readCursor kv.2 >>= fun c => .ok (kv.1, c)) members

/-- The part of `_scan` that reads the root. -/
def scanRoot (data : HistoryData) (root : Receipt) :
    Except CoverageReason (Dict String SourceCursor) := do
  require (root.kind = .admission) .invalidHistory
  require (policy.version = policyVersion ∧ data.coveragePolicyVersion = .str policy.version)
    .unsupportedVersion
  let version ← member (.obj root.payload.facts) "coverage_policy_version"
  require (version = .str policy.version) .unsupportedVersion
  require (policy.routes ≠ [] ∧ policy.routes.Nodup) .routeNotNCapable
  let routes ← member (.obj root.payload.facts) "routes" >>= elements
  require (sameElements routes (policy.routes.map Json.str)
      ∧ sameElements (policy.assessmentCursors.map Prod.fst) policy.routes) .routeNotNCapable
  let cursors ← startCursors policy root
  checkAll (checkRoute policy root data.history) policy.routes
  return cursors

/-- `_scan` -/
def scan (policy : CoveragePolicy) (data : HistoryData) :
    Except CoverageReason ScanLoop := do
  boundedData host data
  match data.history.head? with
  | none => .error .invalidHistory
  | some root => do
    let cursors ← scanRoot policy data root
    let w ← data.history.foldlM (scanRow host policy) { cursors }
    require (w.predecessor = data.head.evidenceId) .invalidHistory
    require (w.openOps.length = data.openOperationCount) .invalidHistory
    return w

/-- One round of the loop of `_assessment`. -/
def assessRoute (route : String) (current : SourceCursor) :
    Except CoverageReason Unit :=
  match policy.assessmentCursors.get? route with
  | none => .error .invalidHistory
  | some value => do
    let stop ← readCursor value
    require (stop.storeId = current.storeId) .cursorReplaced
    require (stop = current) .cursorGap

/-- `_assessment` -/
def assessCursors (cursors : Dict String SourceCursor) :
    Except CoverageReason Unit :=
  checkAll (fun kv => assessRoute policy kv.1 kv.2) cursors

/-- `validate_coverage`: `ok` is covered, an error is unavailable with its reason -/
def validateCoverage (policy : CoveragePolicy) (data : HistoryData) :
    Except CoverageReason Unit := do
  let w ← scan host policy data
  require (w.openOps = []) .openOperation
  assessCursors policy w.cursors

/-! ## Imports -/

/-- What an import answers, when it does not cover: a reason, or the table raises. -/
inductive ImportError where
  | unavailable (reason : CoverageReason)
  | integrityError
deriving DecidableEq

/-- The answer of an import for a reason of the validator. -/
def orUnavailable {α : Type} : Except CoverageReason α → Except ImportError α
  | .ok a => .ok a
  | .error reason => .error (.unavailable reason)

/-- The answer of an import for an error of the ledger. -/
def orChanged {α : Type} : Except ProductionError α → Except ImportError α
  | .ok a => .ok a
  | .error (.refusal _ _) => .error (.unavailable .historyChanged)
  | .error .integrityError => .error .integrityError

/-- The settlement of an operation. -/
def settlementOf (rows : List Receipt) (operationId : String) : Option Receipt :=
  rows.find? (settles · operationId)

/-- One round of the loop that rebuilds the cursors before a settlement. -/
def replayCursor (cursors : Dict String SourceCursor) (r : Receipt) :
    Except CoverageReason (Dict String SourceCursor) :=
  match Dict.get? r.payload.facts "source_interval" with
  | none | some .null => .ok cursors
  | some interval => do
    let route ← member interval "route" >>= (hashable · .invalidHistory)
    let stop ← member interval "end" >>= readCursor
    return cursors.set route stop

/-- The cursors that an import continues from. -/
def importCursors (data : HistoryData) (w : ScanLoop)
    (request : ProductionAppend) : Except CoverageReason (Dict String SourceCursor) :=
  match settlementOf data.history request.operationId with
  | some settled =>
    match data.history.head? with
    | none => .error .invalidHistory
    | some root => do
      let cursors ← startCursors policy root
      (data.history.takeWhile (·.sequence ≠ settled.sequence)).foldlM replayCursor cursors
  | none => do
    require (data.head = request.expectedHead) .historyChanged
    require (request.operationId ∈ w.openOps) .openOperation
    return w.cursors

/-- The facts of the settlement that an import records. -/
def importFacts (request : ProductionAppend) (interval : Json)
    (cursors : Dict String SourceCursor) : Facts :=
  Dict.set (Dict.set (Dict.set request.facts "source_interval" interval) "source_cursors"
    (.obj (cursors.map fun kv => (kv.1, kv.2.json)))) "coverage_policy_version"
    (.str policy.version)

/-- The part of `import_source_cursor` before the settlement: the request that it records. -/
def importRequest (policy : CoveragePolicy) (data : HistoryData)
    (request : ProductionAppend) (interval : Json) : Except CoverageReason ProductionAppend := do
  let w ← scan host policy data
  let cursors ← importCursors policy data w request
  let route ← member interval "route" >>= (hashable · .routeNotNCapable)
  match cursors.get? route with
  | none => .error .routeNotNCapable
  | some current => do
    let stop ← advance host policy interval current
    let reached := cursors.set route stop
    assessRoute policy route stop
    return { request with facts := importFacts policy request interval reached }

/-- `import_source_cursor`: the receipts that it leaves -/
def importSourceCursor (db : Native) (contracts : List ContractRow)
    (receipts : List Receipt) (policy : CoveragePolicy) (request : ProductionAppend)
    (source : Json) : Except ImportError (List Receipt) := do
  orUnavailable (require (request.binding = policy.binding
    ∧ request.admissionId = policy.admissionId) .identityMismatch)
  let interval := source.sortKeys
  orUnavailable (require (host.jsonBytes interval ≤ maxDecodedBytes) .historyTruncated)
  let data ← orChanged (getLaneProductionHistory host db contracts receipts request.binding
    request.admissionId maxPageRows none)
  let settlement ← orUnavailable (importRequest host policy data request interval)
  let result ← orChanged (appendReceipt host.toProductionHost db contracts receipts .settle
    settlement)
  return result.2

/-! ## An admission over time -/

/-- A call of a writer of the ledger or a change of the other tables, or an import. -/
inductive CoverageCall (laneIdOf : Int → String) where
  | ledger (call : LedgerCall laneIdOf)
  | importCursor (request : ProductionAppend) (source : Json)

/-- What a call answers. -/
inductive CoverageAnswer where
  | ledger (answer : Option (Except ProductionError Receipt))
  | covered
  | refused (e : ImportError)
deriving DecidableEq

/-- The ledger with imports under one policy, as a machine. -/
def coverageMachine (policy : CoveragePolicy) (laneIdOf : Int → String) :
    Effects.Machine (Ledger laneIdOf) (CoverageCall laneIdOf) CoverageAnswer where
  step s
    | .ledger call => (((ledgerMachine host.toProductionHost laneIdOf).step s call).1,
        .ledger ((ledgerMachine host.toProductionHost laneIdOf).step s call).2)
    | .importCursor request source =>
      match importSourceCursor host s.native.toNative s.contracts s.receipts policy request
          source with
      | .ok receipts => ({ s with receipts := receipts }, .covered)
      | .error e => (s, .refused e)

end Workbay.Completion

import Workbay.Review.Operations
import Workbay.Effects.Machine

/-!
# Outcome corrections

A correction reclassifies a verdict of a source dispatch as an infrastructure stop. It is refused
when anything in the history of the subject may have counted the charge of that dispatch.
-/

namespace Workbay.Review

/-- `_issued`: the native issuance order of a row, if it has one. -/
def Row.issued (row : Row) : Option Nat :=
  if row.legacySource.isSome then none else row.issuedSequence.filter (0 < ·)

/-- How another row of the subject stands to the row that is to be corrected. -/
inductive Dependence where
  | independent
  /-- It came later and may have counted the charge. -/
  | later
  /-- Nothing proves in which order the two came. -/
  | unordered
deriving DecidableEq

/-- The dependence of `other` on `row`, which settled as number `sequence`. -/
def Row.dependence (row other : Row) (sequence : Nat) : Dependence :=
  if other.decision = .reserved ∧ other.completion = none then
    match row.issued, other.issued with
    | some issued, some otherIssued =>
      if other.kind = row.kind ∧ otherIssued < issued then .independent else .later
    | _, _ => .unordered
  else if other.kind = row.kind then .unordered
  else match other.settledSequence with
    | none => .unordered
    | some otherSequence => if sequence < otherSequence then .later else .independent

/-- The dispatch ids of the other rows of the subject with the given dependence, sorted. -/
def LedgerData.dependents (data : LedgerData) (dispatchId : String) (row : Row) (sequence : Nat)
    (dependence : Dependence) : List String :=
  ((data.rows.filter fun entry =>
    entry.1 ≠ dispatchId && entry.2.subjectBranch = row.subjectBranch
      && row.dependence entry.2 sequence = dependence).map Prod.fst).insertionSort (· ≤ ·)

/-- `correction_eligibility` -/
def correctionEligibility (os : LedgerPlatform) (data : LedgerData) (dispatchId : String) :
    LedgerDecision :=
  match data.rows.get? dispatchId with
  | none => { status := .notApplicable, reason := "no_ledger_row" }
  | some row =>
    if data.corrections.any fun event => event.dispatchId = dispatchId then
      { status := .notApplicable, reason := "correction_already_recorded" }
    else if row.decision ≠ .reserved then
      { status := .notApplicable, reason := "dispatch_was_not_reserved" }
    else if row.kind ≠ .implement then .hold "correction_kind_unsupported"
    else if row.legacySource.isSome then
      { status := .notApplicable, reason := "imported_legacy_source_row" }
    else if row.completion = none then
      { status := .notApplicable, reason := "dispatch_pending" }
    else if row.outcomeClass ≠ .verdict then
      { status := .notApplicable, reason := "row_not_verdict_charged"
        row := some (.outcomeClass row.outcomeClass) }
    else match row.settledSequence, data.subjects.get? row.subjectBranch with
      | none, _ => .hold "row_settlement_unordered"
      | some _, none => .hold "subject_fixes_fold_mismatch"
      | some sequence, some state =>
        if state.fixes ≠ data.subjectFixes os row.subjectBranch then
          .hold "subject_fixes_fold_mismatch"
        else if data.dependents dispatchId row sequence .later ≠ [] then
          { status := .contradicted, reason := "later_dependent_subject_row"
            row := some (.dispatchIds (data.dependents dispatchId row sequence .later)) }
        else if data.dependents dispatchId row sequence .unordered ≠ [] then
          { status := .ledgerHold, reason := "subject_row_order_unprovable"
            row := some (.dispatchIds (data.dependents dispatchId row sequence .unordered)) }
        else if state.terminal || state.lastGate.any fun gate => state.fixes ≤ gate.fixes then
          { status := .contradicted, reason := "gate_state_depends_on_row" }
        else { status := .eligible, row := some (.row row) }

/-- The event that corrects a row. -/
def correctionEvent (os : LedgerPlatform) (data : LedgerData) (row : Row) (observation : Json)
    (observationSha256 ledgerSha256Before producer recordedAt dispatchId : String) :
    Correction where
  schema := correctionSchema
  correctionId := os.correctionDigest dispatchId (os.rowDigest row) observationSha256
  dispatchId := dispatchId
  subjectBranch := row.subjectBranch
  kind := row.kind
  recordedAt := recordedAt
  recordedSequence := data.sequence + 1
  original := row.original os
  effectiveOutcomeClass := .infraStop
  observation := observation
  observationSha256 := observationSha256
  ledgerSha256Before := ledgerSha256Before
  producer := producer

/-- The subject after one of its dispatches is corrected. -/
def SubjectState.correct (state : SubjectState) (dispatchId : String) (fixes : Nat) :
    SubjectState :=
  { state with
    fixes := fixes
    continuation := if state.continuation = some dispatchId then none else state.continuation }

/-- `_append_correction`: append the event and refresh only what derives from it. -/
def appendCorrection (os : LedgerPlatform) (data : LedgerData) (event : Correction)
    (dispatchId subjectBranch : String) : LedgerData :=
  let data := { data with
    sequence := data.sequence + 1
    corrections := data.corrections ++ [event] }
  data.setSubject subjectBranch
    ((data.subject subjectBranch).correct dispatchId (data.subjectFixes os subjectBranch))

/-- The transaction of `append_outcome_correction`, on the file with the digest `ledgerSha256`. -/
def ReviewCycleLedger.appendOutcomeCorrectionOperation (L : ReviewCycleLedger) (dispatchId : String)
    (expectedLedgerSha256 expectedObservationSha256 : String) (observation : Except Abort Json)
    (recordedAt ledgerSha256 : String) (data : LedgerData) : Outcome := do
  let observation ← observation
  let digest := L.os.observationDigest observation
  match data.corrections.find? fun event => event.dispatchId = dispatchId with
  | some event =>
    if event.observationSha256 = expectedObservationSha256 ∧ expectedObservationSha256 = digest
        ∧ event.ledgerSha256Before = expectedLedgerSha256 then
      .error (.unchanged ⟨.alreadyCorrected, "replay", some (.event event)⟩)
    else .error (.unchanged (.hold "correction_conflict"))
  | none =>
    if ledgerSha256 ≠ expectedLedgerSha256 then .error (.unchanged (.hold "stale_ledger"))
    else if digest ≠ expectedObservationSha256 then
      .error (.unchanged (.hold "stale_observation"))
    else match correctionEligibility L.os data dispatchId with
      | ⟨.eligible, _, some (.row row)⟩ =>
        let event := correctionEvent L.os data row observation digest expectedLedgerSha256
          correctionProducer recordedAt dispatchId
        .ok (appendCorrection L.os data event dispatchId row.subjectBranch,
          ⟨.corrected, "", some (.event event)⟩)
      | eligible => .error (.unchanged eligible)

end Workbay.Review

/-!
## Import of verified legacy sources

The charged source dispatches from before the rollout become rows of their subject, once, in the
order that the producer verified.
-/

namespace Workbay.Review

def legacyProducer : String := "review_ratchet.verified_legacy_source_history"

/-- Whether a string consists of `n` lower-case hexadecimal digits. -/
def isHexOfLength (n : Nat) (s : String) : Bool :=
  s.length = n && s.toList.all fun c => c.isDigit || ('a' ≤ c && c ≤ 'f')

/-- A source record that passed `_legacy_order`, with what the importer takes from it. -/
structure LegacyRecord where
  record : Json
  /-- The verified order key: start and dispatch id. -/
  order : Int × String
  dispatchId : String
  outcome : String
  refusalReason : Option String
  requiredRoute : Route
  dispatchNonce : String

/-- A member that is a non-empty string. -/
def nonEmpty? (value : Json) (key : String) : Option String :=
  ((value.get? key).bind Json.str?).filter (· ≠ "")

/-- A member that is `None`, absent or a string. -/
def optional? (value : Json) (key : String) : Option (Option String) :=
  match value.get? key with
  | none | some .null => some none
  | some (.str s) => some (some s)
  | some _ => none

/-- The required route of a source record: a model and an effort. -/
def legacyRoute (value : Json) : Option Route := do
  let route ← (value.get? "required_route")
  let members ← route.obj?
  guard (members.length = 2 ∧ "model" ∈ members.map Prod.fst ∧ "effort" ∈ members.map Prod.fst)
  members.mapM fun member => do return (member.1, ← nonEmpty? route member.1)

/-- `_legacy_order`: one actual charged source record of the subject. -/
def LedgerPlatform.legacyRecord (os : LedgerPlatform) (subjectBranch : String) (source : Json) :
    Option LegacyRecord := do
  guard ((source.get? "round").isNone)
  let dispatchId ← nonEmpty? source "dispatch_id"
  let _ ← nonEmpty? source "pass_id"
  let _ ← nonEmpty? source "task_ref"
  let _ ← nonEmpty? source "lane_id"
  let outcome ← nonEmpty? source "outcome"
  let startedAt ← nonEmpty? source "started_at"
  guard (source.get? "subject_branch" = some (.str subjectBranch))
  guard ((source.get? "kind").getD (.str "implement") = .str "implement")
  guard (source.get? "charged" = some (.bool true))
  let route ← legacyRoute source
  let head ← (source.get? "source_head").bind Json.str?
  let tree ← (source.get? "source_tree").bind Json.str?
  guard ((isHexOfLength 40 head || isHexOfLength 64 head)
    && (isHexOfLength 40 tree || isHexOfLength 64 tree))
  let producer ← source.get? "producer"
  let _ ← nonEmpty? producer "provenance"
  let provenanceSha256 ← (producer.get? "provenance_sha256").bind Json.str?
  guard (isHexOfLength 64 provenanceSha256)
  let dispatchNonce ← nonEmpty? producer "dispatch_nonce"
  let refusalReason ← optional? source "refusal_reason"
  guard (classifyPassOutcome outcome refusalReason = .verdict)
  let started ← os.fromIsoFormat startedAt
  guard started.hasZone
  return { record := source, order := (started.instant, dispatchId), dispatchId, outcome
           refusalReason, requiredRoute := route, dispatchNonce }

/-- The strict order of the keys of source records. -/
def orderBefore (a b : Int × String) : Bool := a.1 < b.1 || (a.1 = b.1 && a.2 < b.2)

/-- The records of a history in strictly increasing order and with distinct nonces. -/
def LedgerPlatform.legacyRecords (os : LedgerPlatform) (subjectBranch : String) :
    List Json → Option (Int × String) → List String → Option (List LegacyRecord)
  | [], _, _ => some []
  | source :: history, previous, nonces => do
    let record ← os.legacyRecord subjectBranch source
    guard (∀ order ∈ previous, orderBefore order record.order)
    guard (record.dispatchNonce ∉ nonces)
    let records ← os.legacyRecords subjectBranch history (some record.order)
      (record.dispatchNonce :: nonces)
    return record :: records

/-- `_imported`: the imported rows in the order of their rounds. -/
def imported (rows : List Row) : List Row :=
  (rows.filter fun row => row.legacySource.isSome).insertionSort fun a b => a.round ≤ b.round

/-- The nonce that an imported row holds. -/
def Row.nonce? (row : Row) : Option String :=
  row.legacySource.bind fun source =>
    (source.record.get? "producer").bind fun producer =>
      (producer.get? "dispatch_nonce").bind Json.str?

/-- The row of an imported record. -/
def LegacyRecord.row (record : LegacyRecord) (subjectBranch : String) (number : Nat)
    (data : LedgerData) : Row where
  dispatchId := record.dispatchId
  subjectBranch := subjectBranch
  kind := .implement
  decision := .reserved
  reason := ""
  round := number
  outcomeClass := .verdict
  completion := some ⟨record.outcome, record.refusalReason, [], [], none⟩
  proposal := none
  loudDecision := false
  requiredRoute := some record.requiredRoute
  listedOpenOnly := false
  listedBlockingIds := []
  activatedAt := data.activatedAt
  settledSequence := some (data.sequence + 1)
  settlementStatus := some .settled
  legacySource := some ⟨legacyProducer, record.record⟩

/-- Import one record under its round. -/
def importRecord (os : LedgerPlatform) (subjectBranch : String) (record : LegacyRecord)
    (number : Nat) (data : LedgerData) : LedgerData :=
  let row := record.row subjectBranch number data
  let data := ({ data with sequence := data.sequence + 1 }).setRow record.dispatchId row
  data.setSubject subjectBranch
    { data.subject subjectBranch with fixes := data.subjectFixes os subjectBranch }

/-- Import records under consecutive rounds from `number` on. -/
def importRecords (os : LedgerPlatform) (subjectBranch : String) :
    List LegacyRecord → Nat → LedgerData → LedgerData
  | [], _, data => data
  | record :: records, number, data =>
    importRecords os subjectBranch records (number + 1)
      (importRecord os subjectBranch record number data)

/-- The transaction of `import_legacy_sources`. -/
def ReviewCycleLedger.importOperation (L : ReviewCycleLedger) (subjectBranch : String)
    (records : List LegacyRecord) (data : LedgerData) : Outcome :=
  let payload := Payload.imported subjectBranch (records.map LegacyRecord.dispatchId)
  let prior := imported (data.subjectRows subjectBranch)
  if prior ≠ [] then
    -- the order of the keys of a record does not matter
    if prior.map (fun row => row.legacySource.map fun source => source.record.dumps) =
        records.map (fun record => some record.record.dumps) then
      .ok (data, ⟨.imported, "replay", some payload⟩)
    else .error (.hold "legacy_source_history_conflict")
  else if data.subjectRows subjectBranch ≠ []
      ∨ (∃ record ∈ records, (data.rows.get? record.dispatchId).isSome)
      ∨ (∃ record ∈ records, record.dispatchNonce ∈ data.values.filterMap Row.nonce?) then
    .error (.hold "legacy_source_history_conflict")
  else
    .ok (importRecords L.os subjectBranch records 1 (data.touchSubject subjectBranch),
      ⟨.imported, "", some payload⟩)

end Workbay.Review

/-!
## The ledger as a machine

Every call is one atomic transaction on the ledger file. What the call reads besides the file is
part of the call: the approval directory, the proposal, the authenticated evidence, the clock and
what the file system does to the transaction.
-/

namespace Workbay.Review

open Workbay.Effects (Machine)

/-- `datetime.now(timezone.utc).isoformat()`: never empty. -/
structure Timestamp where
  text : String
  text_ne : text ≠ ""

/-- The calls of the ledger. -/
inductive Call where
  | activate (now : Timestamp)
  | reserve (dispatchId subjectBranch kind : String) (proposal : Option ProposalFile)
      (approvals : List ApprovalFile)
  | settle (dispatchId subjectBranch kind outcome : String) (refusalReason : Option String)
      (blockingIds blockingFingerprints : Option (List String))
  | settleUnjudged (dispatchId : String) (evidence : Except Abort Json)
  | appendOutcomeCorrection (dispatchId expectedLedgerSha256 expectedObservationSha256 : String)
      (observation : Except Abort Json) (now : Timestamp)
  | importLegacySources (subjectBranch : String) (history : Json)

namespace ReviewCycleLedger

variable (L : ReviewCycleLedger)

/-- `reserve` -/
def reserve (dispatchId subjectBranch kind : String) (proposal : Option ProposalFile)
    (approvals : List ApprovalFile) (storage : Storage) (file : Option LedgerFile) :
    Option LedgerFile × LedgerDecision :=
  match Kind.ofValue? kind with
  | none => (file, .hold "invalid_identity")
  | some kind =>
    if dispatchId = "" ∨ subjectBranch = "" then (file, .hold "invalid_identity")
    else transaction L.os storage (L.read file)
      (L.reserveOperation dispatchId subjectBranch kind proposal approvals) file

/-- The completion that `settle` records, or why the call is refused. -/
def settlement (kind outcome : String) (refusalReason : Option String)
    (blockingIds blockingFingerprints : Option (List String)) :
    Except String (Kind × Completion × PassOutcomeClass) :=
  let classification := classifyPassOutcome outcome refusalReason
  let ids := blockingIds.getD []
  let fingerprints := blockingFingerprints.getD []
  if kind = "gate" ∧ classification = .verdict
      ∧ (blockingIds.isNone ∨ blockingFingerprints.isNone) then
    .error "gate_harvest_required"
  else match Kind.ofValue? kind with
    | none => .error "invalid_completion"
    | some kind =>
      if outcome = "" ∨ "" ∈ ids ++ fingerprints ∨ ids.isEmpty ≠ fingerprints.isEmpty then
        .error "invalid_completion"
      else
        .ok (kind, ⟨outcome, refusalReason, sortedSet ids, sortedSet fingerprints, none⟩,
          classification)

/-- `settle` -/
def settle (dispatchId subjectBranch kind outcome : String) (refusalReason : Option String)
    (blockingIds blockingFingerprints : Option (List String)) (storage : Storage)
    (file : Option LedgerFile) : Option LedgerFile × LedgerDecision :=
  match settlement kind outcome refusalReason blockingIds blockingFingerprints with
  | .error reason => (file, .hold reason)
  | .ok (kind, completion, classification) =>
    transaction L.os storage (L.read file)
      (L.settleOperation dispatchId subjectBranch kind completion classification) file

/-- `settle_unjudged` -/
def settleUnjudged (dispatchId : String) (evidence : Except Abort Json) (storage : Storage)
    (file : Option LedgerFile) : Option LedgerFile × LedgerDecision :=
  transaction L.os storage (L.read file) (settleUnjudgedOperation dispatchId evidence) file

/-- `append_outcome_correction` -/
def appendOutcomeCorrection (dispatchId expectedLedgerSha256 expectedObservationSha256 : String)
    (observation : Except Abort Json) (now : Timestamp) (storage : Storage)
    (file : Option LedgerFile) : Option LedgerFile × LedgerDecision :=
  transaction L.os storage (L.read file)
    (L.appendOutcomeCorrectionOperation dispatchId expectedLedgerSha256 expectedObservationSha256
      observation now.text ((file.map L.os.fileDigest).getD "")) file

/-- `import_legacy_sources` -/
def importLegacySources (subjectBranch : String) (history : Json) (storage : Storage)
    (file : Option LedgerFile) : Option LedgerFile × LedgerDecision :=
  match history.arr? with
  | none => (file, .hold "legacy_source_history_invalid")
  | some sources =>
    if subjectBranch = "" then (file, .hold "legacy_source_history_invalid")
    else if sources = [] then
      (file, { status := .notApplicable, reason := "no_legacy_source_history" })
    else match L.os.legacyRecords subjectBranch sources none [] with
      | none => (file, .hold "legacy_source_history_invalid")
      | some records =>
        transaction L.os storage (L.read file) (L.importOperation subjectBranch records) file

/-- One call, with what the file system does to its transaction. -/
def perform (file : Option LedgerFile) : Call × Storage → Option LedgerFile × LedgerDecision
  | (.activate now, storage) => L.activate now.text storage file
  | (.reserve dispatchId subjectBranch kind proposal approvals, storage) =>
    L.reserve dispatchId subjectBranch kind proposal approvals storage file
  | (.settle dispatchId subjectBranch kind outcome refusalReason ids fingerprints, storage) =>
    L.settle dispatchId subjectBranch kind outcome refusalReason ids fingerprints storage file
  | (.settleUnjudged dispatchId evidence, storage) =>
    L.settleUnjudged dispatchId evidence storage file
  | (.appendOutcomeCorrection dispatchId ledgerSha256 observationSha256 observation now, storage) =>
    L.appendOutcomeCorrection dispatchId ledgerSha256 observationSha256 observation now storage file
  | (.importLegacySources subjectBranch history, storage) =>
    L.importLegacySources subjectBranch history storage file

/-- The ledger file under any sequence of calls. -/
def machine : Machine (Option LedgerFile) (Call × Storage) LedgerDecision := ⟨L.perform⟩

/-- A ledger that some sequence of calls leaves, from before the rollout on. -/
def Reachable (data : LedgerData) : Prop :=
  L.machine.Reachable none (some (L.os.encode data))

end ReviewCycleLedger

end Workbay.Review

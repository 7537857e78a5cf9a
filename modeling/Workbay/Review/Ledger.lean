import Workbay.Data.Json

/-!
# Outcome classes of a review pass

Every outcome of an offload pass is an infrastructure stop, a verdict or unfinished. An outcome that
is not known is a verdict and consumes review budget.
-/

namespace Workbay.Review

/-- Whether a pass stopped on infrastructure, was judged, or is unfinished. -/
inductive PassOutcomeClass where
  | infraStop
  | verdict
  | pending
deriving DecidableEq

/-- `OUTCOME_CLASS` -/
def outcomeClass : Dict String PassOutcomeClass :=
  [("handoff_ready", .verdict),
   ("review_complete", .verdict),
   ("escalated", .verdict),
   ("needs_guidance", .verdict),
   ("rate_limited", .infraStop),
   ("transport_failure", .infraStop),
   ("completed_unreviewed", .verdict),
   ("no_actionable_work", .verdict),
   ("uncommitted_work", .verdict),
   ("token_budget_exceeded", .verdict),
   ("timeout", .verdict),
   ("error", .verdict),
   ("still_running", .pending),
   ("lane_not_found", .infraStop),
   ("self_verify_failed", .verdict),
   ("self_verify_inconclusive", .verdict),
   ("composer_violation_quarantined", .verdict),
   ("checkpoint", .verdict),
   ("server_stale_restart_required", .infraStop),
   ("remote_job_pending", .pending),
   ("admission_deferred", .infraStop),
   ("admission_refused", .infraStop),
   ("dispatch_refused", .infraStop),
   ("remote_required", .infraStop),
   ("worktree_unrecoverable", .infraStop),
   ("worktree_claim_held", .infraStop),
   ("ceremony_failed", .verdict),
   ("review_incomplete", .verdict),
   ("verification_failed", .verdict),
   ("verification_skipped", .verdict),
   ("verification_harness_error", .verdict),
   ("guidance_contract_invalid", .verdict)]

/-- `INFRA_REFUSAL_REASONS` -/
def infraRefusalReasons : List String := ["stale_worker_configuration", "catalogue_unavailable"]

/-- Infrastructure refusals before the spawn come first, then the table. -/
def classifyPassOutcome (outcome : String) (refusalReason : Option String) : PassOutcomeClass :=
  if ∃ reason ∈ infraRefusalReasons, refusalReason = some reason then .infraStop
  else outcomeClass.getD outcome .verdict

end Workbay.Review

/-!
## The review cycle ledger

Durable reservations of review dispatches: one row a dispatch, one state a subject, and an
append-only list of outcome corrections. A correction never rewrites a row; one fold over rows and
events gives the effective outcome class of a row, and every count reads that fold.
-/

namespace Workbay.Review

/-! ## Data -/

/-- `KINDS` -/
inductive Kind where
  | implement
  | gate
  | analysis
deriving DecidableEq

namespace Kind

def value : Kind → String
  | implement => "implement"
  | gate => "gate"
  | analysis => "analysis"

/-- The kinds in the order of their names. -/
def sorted : List Kind := [analysis, gate, implement]

/-- The kind of a name, if it names one. -/
def ofValue? (s : String) : Option Kind := sorted.find? fun kind => kind.value = s

@[simp] theorem ofValue?_value (kind : Kind) : ofValue? kind.value = some kind := by
  cases kind <;> decide

end Kind

/-- A route: backend, model and effort, each under its name. -/
abbrev Route := Dict String String

/-- What a decision says, and what a row stores of it. -/
inductive Status where
  | reserved
  | approvalRequired
  | cycleBudgetStop
  | ledgerHold
  | settled
  | pending
  | activated
  | imported
  | notApplicable
  | contradicted
  | eligible
  | corrected
  | alreadyCorrected
deriving DecidableEq

/-- The completion of a dispatch. -/
structure Completion where
  outcome : String
  refusalReason : Option String
  blockingIds : List String
  blockingFingerprints : List String
  /-- The evidence of a gate whose judgment is incomplete and whose usage is unknown. -/
  incomplete : Option Json := none
deriving DecidableEq

/-- A verified canon proposal. -/
structure Proposal where
  path : String
  sha256 : String
  evidence : String
  ruleIds : List String
  correction : String
  canonVersion : String
  manifestDigest : String
deriving DecidableEq

/-- An operator grant of one round, with the digest of its bytes. -/
structure Approval where
  approvalId : String
  subjectBranch : String
  kind : Kind
  round : Nat
  reason : String
  approvedBy : String
  createdAt : String
  sha256 : String
deriving DecidableEq

/-- What a reservation that needs a grant announces. -/
structure Announcement where
  subjectBranch : String
  kind : Kind
  round : Nat
  threshold : Nat
  chargedRows : Dict Kind Nat
  lastGateBlockingIds : List String
  operatorCommand : String
deriving DecidableEq

/-- The verified source record that an imported row was made from. -/
structure LegacySource where
  producer : String
  record : Json
deriving DecidableEq

/-- A dispatch. -/
structure Row where
  dispatchId : String
  subjectBranch : String
  kind : Kind
  decision : Status
  reason : String
  round : Nat
  outcomeClass : PassOutcomeClass
  completion : Option Completion
  proposal : Option Proposal
  loudDecision : Bool
  requiredRoute : Option Route
  listedOpenOnly : Bool
  listedBlockingIds : List String
  activatedAt : String
  issuedSequence : Option Nat := none
  approvalThreshold : Option Nat := none
  announcement : Option Announcement := none
  operatorApproval : Option Approval := none
  terminalCleared : Bool := false
  settledSequence : Option Nat := none
  settlementStatus : Option Status := none
  legacySource : Option LegacySource := none
deriving DecidableEq

/-- What a correction remembers of the row it corrects. -/
structure Original where
  completion : Option Completion
  outcomeClass : PassOutcomeClass
  round : Nat
  requiredRoute : Option Route
  settledSequence : Option Nat
  settlementStatus : Option Status
  rowSha256 : String
deriving DecidableEq

/-- An outcome correction. -/
structure Correction where
  schema : String
  correctionId : String
  dispatchId : String
  subjectBranch : String
  kind : Kind
  recordedAt : String
  recordedSequence : Nat
  original : Original
  effectiveOutcomeClass : PassOutcomeClass
  observation : Json
  observationSha256 : String
  ledgerSha256Before : String
  producer : String
deriving DecidableEq

/-- The gate that was judged last, with the fixes there were then. -/
structure LastGate extends Completion where
  fixes : Nat
  dispatchId : String
deriving DecidableEq

/-- The state of a subject. -/
structure SubjectState where
  fixes : Nat := 0
  lastGate : Option LastGate := none
  repeated : Bool := false
  continuation : Option String := none
  terminal : Bool := false
deriving DecidableEq

/-- What of the policy a ledger is bound to. -/
structure PolicyBinding where
  canonVersion : String
  manifestDigest : String
  ruleIds : List String
  dispatchStopAt : Nat
deriving DecidableEq

/-- The ledger. -/
structure LedgerData where
  version : Nat
  activatedAt : String
  policy : PolicyBinding
  rows : Dict String Row
  subjects : Dict String SubjectState
  sequence : Nat
  issuanceSequence : Option Nat := none
  corrections : List Correction := []
deriving DecidableEq

/-- The file: the ledger with the digest of its encoding. -/
structure LedgerFile where
  data : LedgerData
  sha256 : String
deriving DecidableEq

/-- Construction-only trusted context. The rules are sorted, thresholds are at least one. -/
structure TrustedPolicy where
  canonVersion : String
  manifestDigest : String
  ruleIds : List String
  dispatchStopAt : Nat := 3
  routes : Dict Kind Route := []
  approvalThresholds : Dict Kind Nat := []
  pinned : canonVersion ≠ "" ∧ manifestDigest ≠ "" ∧ ruleIds ≠ [] ∧ "" ∉ ruleIds
  ruleIds_sorted : ruleIds.Pairwise (· < ·)
  dispatchStopAt_pos : 0 < dispatchStopAt
  approvalThresholds_pos : ∀ entry ∈ approvalThresholds, 0 < entry.2

namespace TrustedPolicy

def threshold (policy : TrustedPolicy) (kind : Kind) : Nat :=
  (policy.approvalThresholds.get? kind).getD
    (if kind = .implement then policy.dispatchStopAt else 3)

def binding (policy : TrustedPolicy) : PolicyBinding where
  canonVersion := policy.canonVersion
  manifestDigest := policy.manifestDigest
  ruleIds := policy.ruleIds
  dispatchStopAt := policy.dispatchStopAt

end TrustedPolicy

/-- A point in time as `datetime.fromisoformat` reads it. -/
structure IsoTime where
  /-- Microseconds since the epoch; without a time zone they mean nothing. -/
  instant : Int
  hasZone : Bool
deriving DecidableEq

/-- What the ledger takes from its platform: text, time, and the SHA-256 of canonical encodings. -/
structure LedgerPlatform where
  casefold : String → String
  isSpace : Char → Bool
  fromIsoFormat : String → Option IsoTime
  rowDigest : Row → String
  observationDigest : Json → String
  /-- The digest of a dispatch id, a row digest and an observation digest. -/
  correctionDigest : String → String → String → String
  dataDigest : LedgerData → String
  fileDigest : LedgerFile → String

/-- The ledger of one authority path. -/
structure ReviewCycleLedger where
  os : LedgerPlatform
  policy : TrustedPolicy
  repo : Option String := none

/-! ## The fold over rows and corrections -/

def correctionSchema : String := "workbay/review-cycle-outcome-correction@1"

def correctionProducer : String := "review_cycle_reconciliation.verified_refusal"

/-- `_ORIGINAL_FIELDS` of a row, with its digest. -/
def Row.original (os : LedgerPlatform) (row : Row) : Original where
  completion := row.completion
  outcomeClass := row.outcomeClass
  round := row.round
  requiredRoute := row.requiredRoute
  settledSequence := row.settledSequence
  settlementStatus := row.settlementStatus
  rowSha256 := os.rowDigest row

/-- An event forgives only the exact, unmodified implement row with a verdict that it snapshots. -/
def validCorrection (os : LedgerPlatform) (event : Correction) (row : Row) : Bool :=
  event.schema = correctionSchema
    && event.effectiveOutcomeClass = .infraStop
    && event.dispatchId = row.dispatchId
    && event.subjectBranch = row.subjectBranch
    && event.kind = .implement
    && row.kind = .implement
    && row.outcomeClass = .verdict
    && event.original = row.original os
    && event.producer = correctionProducer
    && event.observationSha256 = os.observationDigest event.observation
    && event.correctionId =
      os.correctionDigest row.dispatchId (os.rowDigest row) event.observationSha256

/-- The stored class unless one valid event corrects it; two events forgive nothing. -/
def effectiveOutcomeClass (os : LedgerPlatform) (data : LedgerData) (row : Row) :
    PassOutcomeClass :=
  match data.corrections.filter fun event => event.dispatchId = row.dispatchId with
  | [event] => if validCorrection os event row then .infraStop else row.outcomeClass
  | _ => row.outcomeClass

namespace LedgerData

variable (data : LedgerData)

/-- The rows, in their order. -/
def values : List Row := data.rows.map Prod.snd

/-- The rows of a subject. -/
def subjectRows (subjectBranch : String) : List Row :=
  data.values.filter fun row => row.subjectBranch = subjectBranch

variable (os : LedgerPlatform)

/-- Whether a row is a completed source fix of the subject. -/
def isFix (data : LedgerData) (subjectBranch : String) (row : Row) : Bool :=
  row.subjectBranch = subjectBranch && row.kind = .implement && row.decision = .reserved
    && row.completion.isSome && effectiveOutcomeClass os data row = .verdict

/-- `_subject_fixes`: completed source fixes. -/
def subjectFixes (data : LedgerData) (subjectBranch : String) : Nat :=
  data.values.countP (data.isFix os subjectBranch)

/-- Whether a row is charged to a kind. -/
def isCharged (data : LedgerData) (kind : Kind) (row : Row) : Bool :=
  row.kind = kind && row.decision = .reserved && effectiveOutcomeClass os data row ≠ .infraStop

/-- The number of rows that a subject is charged for. -/
def chargedRows (data : LedgerData) (subjectBranch : String) (kind : Kind) :
    Nat :=
  (data.subjectRows subjectBranch).countP (data.isCharged os kind)

/-- `data["subjects"].get(subject)`, as `_subject` makes it. -/
def subject (data : LedgerData) (subjectBranch : String) : SubjectState :=
  (data.subjects.get? subjectBranch).getD {}

/-- `_subject`: the state of a subject is there from its first use. -/
def touchSubject (subjectBranch : String) : LedgerData :=
  { data with subjects := Dict.setDefault data.subjects subjectBranch {} }

def setSubject (subjectBranch : String) (state : SubjectState) : LedgerData :=
  { data with subjects := data.subjects.set subjectBranch state }

def setRow (dispatchId : String) (row : Row) : LedgerData :=
  { data with rows := data.rows.set dispatchId row }

end LedgerData

/-- `_required_route` -/
def requiredRoute (policy : TrustedPolicy) (kind : Kind) : Option Route :=
  policy.routes.get? kind

/-- What the fold implies for the next reservation of a subject. -/
structure Accounting where
  chargedRows : Dict Kind Nat
  fixes : Nat
  continuation : Option String
  repeated : Bool
  terminal : Bool
  nextImplementRound : Nat
  maxImplementRounds : Nat
  remainingImplementRounds : Nat
  nextImplementRefused : Bool
  nextImplementNeedsOperatorApproval : Bool
  approvalThresholds : Dict Kind Nat
  operatorApprovals : Nat
  operatorApprovalCounts : Dict Kind Nat
  nextImplementRoute : Option Route
  nextImplementNeedsCanonCorrection : Bool

/-- `subject_accounting` -/
def subjectAccounting (os : LedgerPlatform) (data : LedgerData) (subjectBranch : String)
    (policy : TrustedPolicy) : Accounting :=
  let rows := data.subjectRows subjectBranch
  let state := data.subject subjectBranch
  let charged := data.chargedRows os subjectBranch
  let number := charged .implement + 1
  let threshold := policy.threshold .implement
  { chargedRows := Kind.sorted.map fun kind => (kind, charged kind)
    fixes := data.subjectFixes os subjectBranch
    continuation := state.continuation
    repeated := state.repeated
    terminal := state.terminal
    nextImplementRound := number
    maxImplementRounds := threshold
    remainingImplementRounds := threshold - charged .implement
    nextImplementRefused := state.terminal
    nextImplementNeedsOperatorApproval := state.terminal || decide (threshold < number)
    approvalThresholds := Kind.sorted.map fun kind => (kind, policy.threshold kind)
    operatorApprovals := rows.countP fun row => row.operatorApproval.isSome
    operatorApprovalCounts := Kind.sorted.map fun kind =>
      (kind, rows.countP fun row => row.operatorApproval.isSome && row.kind = kind)
    nextImplementRoute := requiredRoute policy .implement
    nextImplementNeedsCanonCorrection := decide (threshold ≤ number) || state.repeated }

/-! ## Reading -/

/-- `_validate_issuance`: issuance proof is unique, positive and counted, and no imported row
claims it. -/
def validIssuance (counter : Option Nat) : List Row → List Nat → Bool
  | [], _ => true
  | row :: rows, seen =>
    match row.issuedSequence, counter with
    | none, _ => validIssuance counter rows seen
    | some _, none => false
    | some value, some count =>
      decide (0 < value) && decide (value ≤ count) && decide (value ∉ seen)
        && row.legacySource.isNone && validIssuance counter rows (value :: seen)

/-- Every event corrects a row of its own and is valid for it. -/
def validCorrections (os : LedgerPlatform) (rows : Dict String Row) :
    List Correction → List String → Bool
  | [], _ => true
  | event :: events, seen =>
    match rows.get? event.dispatchId with
    | none => false
    | some row =>
      decide (event.dispatchId ∉ seen) && validCorrection os event row
        && validCorrections os rows events (event.dispatchId :: seen)

/-- Recompute the fixes of every subject with a correction. -/
def projectFixes (os : LedgerPlatform) : List Correction → LedgerData → Except String LedgerData
  | [], data => .ok data
  | event :: events, data =>
    match data.subjects.get? event.subjectBranch with
    | none => .error "ledger_unreadable_or_corrupt"
    | some state =>
      projectFixes os events (data.setSubject event.subjectBranch
        { state with fixes := data.subjectFixes os event.subjectBranch })

/-- `_decode`, of a file whose bytes are the encoding of an envelope. -/
def ReviewCycleLedger.decode (L : ReviewCycleLedger) (file : LedgerFile) :
    Except String LedgerData := do
  let data := file.data
  if file.sha256 ≠ L.os.dataDigest data then .error "ledger_integrity"
  if data.version ≠ 1 ∨ data.policy ≠ L.policy.binding then
    .error "ledger_policy_or_version_mismatch"
  if data.activatedAt = "" then .error "ledger_activation_invalid"
  if ¬ validIssuance data.issuanceSequence data.values [] then .error "ledger_issuance_integrity"
  if ¬ validCorrections L.os data.rows data.corrections [] then .error "ledger_correction_integrity"
  projectFixes L.os data.corrections data

end Workbay.Review

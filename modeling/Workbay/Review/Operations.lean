import Workbay.Review.Ledger

/-!
# The operations of the review cycle ledger

Reserve before a spawn, settle after it, append corrections and import verified history. Every
operation is one transaction: it reads the file under its lock, changes a copy and replaces the
file.
-/

namespace Workbay.Review

/-! ## Decisions and transactions -/

/-- What a decision carries. -/
inductive Payload where
  | row (row : Row)
  | event (event : Correction)
  | imported (subjectBranch : String) (dispatchIds : List String)
  | dispatchIds (ids : List String)
  | outcomeClass (outcomeClass : PassOutcomeClass)
deriving DecidableEq

/-- Typed result; a hold or stop is never permission to spawn. -/
structure LedgerDecision where
  status : Status
  reason : String := ""
  row : Option Payload := none
deriving DecidableEq

def LedgerDecision.hold (reason : String) : LedgerDecision := { status := .ledgerHold, reason }

/-- How an operation ends without writing. -/
inductive Abort where
  /-- `_Hold` -/
  | hold (reason : String)
  /-- `_Unchanged` -/
  | unchanged (decision : LedgerDecision)
  /-- Any other error, of which the decision names the type. -/
  | raised (error : String)

def Abort.decision : Abort → LedgerDecision
  | .hold reason | .raised reason => .hold reason
  | .unchanged decision => decision

/-- The ledger that an operation leaves, and its decision. -/
abbrev Outcome := Except Abort (LedgerData × LedgerDecision)

/-- What the file system does to one transaction. -/
inductive Storage where
  | works
  /-- The lock is taken. -/
  | busy
  /-- The lock file cannot be opened. -/
  | lockFails (error : String)
  /-- The ledger cannot be read. -/
  | unreadable (reason : String)
  /-- The replacement is not written. -/
  | writeFails (error : String)
  /-- The file is replaced, and then its directory cannot be flushed. -/
  | syncFails (error : String)

variable (os : LedgerPlatform)

/-- `_write` -/
def LedgerPlatform.encode (data : LedgerData) : LedgerFile :=
  ⟨data, os.dataDigest data⟩

/-- `_transaction`, with what the file holds afterwards. `read` gives the ledger to work on. -/
def transaction (storage : Storage) (read : Except String LedgerData)
    (operation : LedgerData → Outcome) (file : Option LedgerFile) :
    Option LedgerFile × LedgerDecision :=
  match storage with
  | .lockFails error => (file, .hold error)
  | .busy => (file, .hold "ledger_busy")
  | .unreadable reason => (file, .hold reason)
  | .writeFails error =>
    match read.mapError Abort.hold >>= operation with
    | .error abort => (file, abort.decision)
    | .ok _ => (file, .hold error)
  | .syncFails error =>
    match read.mapError Abort.hold >>= operation with
    | .error abort => (file, abort.decision)
    | .ok (data, _) => (some (os.encode data), .hold error)
  | .works =>
    match read.mapError Abort.hold >>= operation with
    | .error abort => (file, abort.decision)
    | .ok (data, decision) => (some (os.encode data), decision)

variable (L : ReviewCycleLedger)

/-- `_read` -/
def ReviewCycleLedger.read :
    Option LedgerFile → Except String LedgerData
  | none => .error "ledger_unreadable_or_corrupt"
  | some file => L.decode file

/-- The ledger of the rollout anchor. -/
def ReviewCycleLedger.fresh (now : String) : LedgerData where
  version := 1
  activatedAt := now
  policy := L.policy.binding
  rows := []
  subjects := []
  sequence := 0

/-- `activate`: an anchor that is there stays. -/
def ReviewCycleLedger.activate (now : String) (storage : Storage)
    (file : Option LedgerFile) : Option LedgerFile × LedgerDecision :=
  let read := match file with
    | none => .ok (L.fresh now)
    | some _ => L.read file
  transaction L.os storage read
    (fun data => .ok (data, { status := .activated, reason := data.activatedAt })) file

/-! ## Operator approvals -/

/-- An approval file: the digest of its bytes, and what they are as JSON, or the type of the error
of reading them. -/
structure ApprovalFile where
  sha256 : String
  value : Except String Json

/-- `value.strip()` is not empty. -/
def LedgerPlatform.nonBlank (s : String) : Bool :=
  s.toList.any fun c => !os.isSpace c

/-- The keys of an approval. -/
def approvalKeys : List String :=
  ["approval_id", "subject_branch", "kind", "round", "reason", "approved_by", "created_at"]

/-- A member of an object that is a string with a visible character. -/
def LedgerPlatform.text? (value : Json) (key : String) : Option String :=
  ((value.get? key).bind Json.str?).filter os.nonBlank

/-- A grant, if the value is one. -/
def LedgerPlatform.approval? (sha256 : String) (value : Json) :
    Option Approval := do
  let members ← value.obj?
  guard (members.length = approvalKeys.length ∧ ∀ key ∈ approvalKeys, key ∈ members.map Prod.fst)
  let approvalId ← os.text? value "approval_id"
  let subjectBranch ← os.text? value "subject_branch"
  let reason ← os.text? value "reason"
  let approvedBy ← os.text? value "approved_by"
  let createdAt ← os.text? value "created_at"
  let kind ← ((value.get? "kind").bind Json.str?).bind Kind.ofValue?
  let round ← (value.get? "round").bind Json.int?
  guard (1 ≤ round)
  let created ← os.fromIsoFormat createdAt
  guard created.hasZone
  return { approvalId, subjectBranch, kind, round := round.toNat, reason, approvedBy, createdAt
           sha256 }

/-- `read_approvals` of the files in the order of their names; it raises on an invalid one. -/
def LedgerPlatform.readApprovals (files : List ApprovalFile) :
    Except Abort (List Approval) :=
  files.mapM fun file =>
    match file.value with
    | .error error => .error (.raised error)
    | .ok value =>
      match os.approval? file.sha256 value with
      | none => .error (.raised "ValueError")
      | some record => .ok record

/-- The ids of the grants that rows have consumed. -/
def LedgerData.consumed (data : LedgerData) : List String :=
  data.values.filterMap fun row => row.operatorApproval.map Approval.approvalId

/-- `_approval`: an unused grant of exactly this round. -/
def ReviewCycleLedger.approval (data : LedgerData) (subjectBranch : String)
    (kind : Kind) (number : Nat) (files : List ApprovalFile) : Except Abort (Option Approval) := do
  let records ← L.os.readApprovals files
  return records.find? fun record =>
    record.approvalId ∉ data.consumed && record.subjectBranch = subjectBranch
      && record.kind = kind && record.round = number

/-- Whether `shlex.quote` leaves a character bare. -/
def isShellSafe (c : Char) : Bool :=
  c.isAlphanum || c ∈ ['_', '@', '%', '+', '=', ':', ',', '.', '/', '-']

/-- `shlex.quote` -/
def shellQuote (s : String) : String :=
  if s = "" then "''"
  else if s.toList.all isShellSafe then s
  else "'" ++ String.join (s.toList.map fun c => if c = '\'' then "'\"'\"'" else c.toString) ++ "'"

/-- `shlex.join` -/
def shellJoin (words : List String) : String := String.intercalate " " (words.map shellQuote)

/-- `_announcement` -/
def ReviewCycleLedger.announcement (data : LedgerData)
    (subjectBranch : String) (kind : Kind) (number : Nat) : Announcement where
  subjectBranch := subjectBranch
  kind := kind
  round := number
  threshold := L.policy.threshold kind
  chargedRows := (subjectAccounting L.os data subjectBranch L.policy).chargedRows
  lastGateBlockingIds :=
    ((data.subject subjectBranch).lastGate.map fun gate => gate.blockingIds).getD []
  operatorCommand := shellJoin
    ["python", "-m", "workbay_orchestrator_mcp.orchestration.review_cycle_approval", "grant",
      "--repo", L.repo.getD ".", "--subject", subjectBranch, "--kind", kind.value, "--round",
      toString number, "--reason", "Operator authorizes this additional round"]

/-! ## Canon proposals -/

/-- A proposal file: its path and, if it can be read, its text, digest and JSON value. -/
structure ProposalFile where
  path : String
  content : Option (String × String × Json)

/-- `" ".join(change.casefold().split())` -/
def LedgerPlatform.canonicalise (change : String) : String :=
  String.intercalate " " ((((os.casefold change).toList.splitOnP os.isSpace).filter
    (· ≠ [])).map String.ofList)

/-- `sorted(set(values))` -/
def sortedSet (values : List String) : List String := values.dedup.insertionSort (· ≤ ·)

/-- `_proposal`: verified rules, and a correction that no row of the subject has. -/
def ReviewCycleLedger.proposal (file : Option ProposalFile)
    (rows : List Row) : Option Proposal := do
  let file ← file
  let (evidence, sha256, value) ← file.content
  let rules ← (← (value.get? "rule_ids").bind Json.arr?).mapM Json.str?
  let change ← L.os.text? value "change_from_previous"
  guard (rules ≠ [] ∧ ∀ rule ∈ rules, rule ∈ L.policy.ruleIds)
  let correction := L.os.canonicalise change
  guard (∀ row ∈ rows, row.proposal.map Proposal.correction ≠ some correction)
  return { path := file.path, sha256, evidence, ruleIds := sortedSet rules, correction
           canonVersion := L.policy.canonVersion, manifestDigest := L.policy.manifestDigest }

/-! ## Reserve -/

/-- Whether a reservation of a round needs a grant. -/
def ReviewCycleLedger.needsApproval (data : LedgerData)
    (subjectBranch : String) (kind : Kind) (number : Nat) : Bool :=
  (data.subject subjectBranch).terminal || decide (L.policy.threshold kind < number)

/-- The grant of a reservation that needs one. -/
def ReviewCycleLedger.grant (data : LedgerData) (subjectBranch : String)
    (kind : Kind) (number : Nat) (files : List ApprovalFile) : Except Abort (Option Approval) :=
  if L.needsApproval data subjectBranch kind number then
    L.approval data subjectBranch kind number files
  else .ok none

/-- The rules of `reserve` in their order: status, reason and proposal of a new row. -/
def ReviewCycleLedger.judge (data : LedgerData) (subjectBranch : String)
    (kind : Kind) (number : Nat) (approval : Option Approval) (file : Option ProposalFile) :
    Status × String × Option Proposal :=
  let state := data.subject subjectBranch
  let rows := data.subjectRows subjectBranch
  if L.needsApproval data subjectBranch kind number && approval.isNone then
    (.approvalRequired, "operator_approval_required", none)
  else if kind = .gate && rows.any fun row =>
      row.kind = .gate && row.decision = .reserved && row.outcomeClass = .pending then
    (.ledgerHold, "gate_judgment_pending", none)
  else if state.repeated && state.continuation.isSome && kind = .implement then
    (.cycleBudgetStop, "continuation_awaits_gate", none)
  else if kind = .implement && (decide (L.policy.threshold kind ≤ number) || state.repeated) then
    match L.proposal file rows with
    | none => (.cycleBudgetStop, "new_verified_canon_correction_required", none)
    | some proposal => (.reserved, "", some proposal)
  else if kind = .gate && state.repeated then
    match state.continuation.bind (Dict.get? data.rows) with
    | none => (.cycleBudgetStop, "repeated_blocking_requires_source_correction", none)
    | some continuation =>
      if effectiveOutcomeClass L.os data continuation = .verdict then (.reserved, "", none)
      else (.cycleBudgetStop, "repeated_blocking_requires_source_correction", none)
  else (.reserved, "", none)

/-- The row of a new dispatch, which the issuance counter numbers. -/
def ReviewCycleLedger.newRow (data : LedgerData)
    (dispatchId subjectBranch : String) (kind : Kind) (number : Nat) (approval : Option Approval)
    (verdict : Status × String × Option Proposal) : Row :=
  let state := data.subject subjectBranch
  let status := verdict.1
  { dispatchId, subjectBranch, kind, decision := status, reason := verdict.2.1, round := number
    outcomeClass := .pending, completion := none, proposal := verdict.2.2
    loudDecision := verdict.2.2.isSome || decide (status = .approvalRequired)
    requiredRoute := requiredRoute L.policy kind
    listedOpenOnly := decide (kind = .gate) && decide (number = L.policy.threshold kind)
    listedBlockingIds := (state.lastGate.map fun gate => gate.blockingIds).getD []
    activatedAt := data.activatedAt
    issuedSequence := some (data.issuanceSequence.getD 0 + 1)
    approvalThreshold := some (L.policy.threshold kind)
    announcement :=
      if status = .approvalRequired then some (L.announcement data subjectBranch kind number)
      else none
    operatorApproval := if status = .reserved then approval else none
    terminalCleared := decide (status = .reserved) && approval.isSome && state.terminal }

/-- The subject after a new reservation. -/
def SubjectState.reserve (state : SubjectState) (row : Row) : SubjectState :=
  { state with
    terminal := state.terminal && !row.terminalCleared
    continuation :=
      if row.decision = .reserved ∧ row.kind = .implement ∧ state.repeated then some row.dispatchId
      else state.continuation }

/-- What `reserve` writes for a dispatch that has no row. -/
def ReviewCycleLedger.issue (dispatchId subjectBranch : String)
    (kind : Kind) (file : Option ProposalFile) (approvals : List ApprovalFile)
    (data : LedgerData) : Outcome := do
  let data := data.touchSubject subjectBranch
  let state := data.subject subjectBranch
  let number := data.chargedRows L.os subjectBranch kind + 1
  let approval ← L.grant data subjectBranch kind number approvals
  let verdict := L.judge data subjectBranch kind number approval file
  let row := L.newRow data dispatchId subjectBranch kind number approval verdict
  let data := { data with issuanceSequence := row.issuedSequence }
  let data := (data.setRow dispatchId row).setSubject subjectBranch (state.reserve row)
  return (data, ⟨row.decision, row.reason, some (.row row)⟩)

/-- The transaction of `reserve`. -/
def ReviewCycleLedger.reserveOperation (dispatchId subjectBranch : String)
    (kind : Kind) (file : Option ProposalFile) (approvals : List ApprovalFile)
    (data : LedgerData) : Outcome :=
  match data.rows.get? dispatchId with
  | some old =>
    if old.subjectBranch = subjectBranch ∧ old.kind = kind then
      .ok (data, ⟨old.decision, "replay", some (.row old)⟩)
    else .ok (data, .hold "dispatch_identity_mismatch")
  | none => L.issue dispatchId subjectBranch kind file approvals data

/-! ## Settle -/

/-- Equality of completions; the order of the keys in the evidence does not matter. -/
def Completion.same (a b : Completion) : Bool :=
  { a with incomplete := none } = { b with incomplete := none }
    && a.incomplete.map Json.dumps = b.incomplete.map Json.dumps

/-- Whether a gate blocks again, after a fix, on what the last gate blocked on. -/
def SubjectState.repeats (state : SubjectState) (completion : Completion) : Bool :=
  match state.lastGate with
  | none => false
  | some previous => decide (previous.fixes < state.fixes)
      && previous.blockingFingerprints.any fun f => f ∈ completion.blockingFingerprints

/-- The subject after the verdict of a gate, and the status of the settlement. -/
def SubjectState.judgeGate (state : SubjectState) (dispatchId : String) (completion : Completion) :
    SubjectState × Status :=
  ({ state with
      lastGate := some { completion with fixes := state.fixes, dispatchId }
      repeated := state.repeats completion
      continuation := none },
    if state.repeats completion then .cycleBudgetStop else .settled)

/-- The subject after a settlement, and its status; `fixes` are those of the rows. -/
def SubjectState.settle (state : SubjectState) (dispatchId : String) (kind : Kind)
    (completion : Completion) (classification : PassOutcomeClass) (fixes : Nat) :
    SubjectState × Status :=
  match classification, kind with
  | .infraStop, _ =>
    ({ state with
        continuation :=
          if state.continuation = some dispatchId then none else state.continuation }, .settled)
  | .verdict, .implement => ({ state with fixes := fixes }, .settled)
  | .verdict, .gate => state.judgeGate dispatchId completion
  | _, _ => (state, .settled)

/-- What `settle` writes for a reserved dispatch without a completion. -/
def ReviewCycleLedger.complete (dispatchId : String) (row : Row)
    (completion : Completion) (classification : PassOutcomeClass) (data : LedgerData) :
    LedgerData × LedgerDecision :=
  let settled : Row := { row with
    completion := some completion
    outcomeClass := classification
    settledSequence := some (data.sequence + 1) }
  let data := { data with sequence := data.sequence + 1 }
  let data := (data.setRow dispatchId settled).touchSubject row.subjectBranch
  let (state, status) := (data.subject row.subjectBranch).settle dispatchId row.kind completion
    classification (data.subjectFixes L.os row.subjectBranch)
  let settled := { settled with settlementStatus := some status }
  ((data.setRow dispatchId settled).setSubject row.subjectBranch state,
    ⟨status, "", some (.row settled)⟩)

/-- The transaction of `settle`. -/
def ReviewCycleLedger.settleOperation (dispatchId subjectBranch : String)
    (kind : Kind) (completion : Completion) (classification : PassOutcomeClass)
    (data : LedgerData) : Outcome :=
  match data.rows.get? dispatchId with
  | none => .ok (data, .hold "dispatch_identity_mismatch")
  | some row =>
    if ¬ (row.subjectBranch = subjectBranch ∧ row.kind = kind) then
      .ok (data, .hold "dispatch_identity_mismatch")
    else if row.decision ≠ .reserved then .ok (data, .hold "dispatch_was_not_reserved")
    else match row.completion with
      | some before =>
        if ¬ before.same completion then .ok (data, .hold "dispatch_outcome_mismatch")
        else match row.settlementStatus with
          | none => .error (.raised "KeyError")
          | some status => .ok (data, ⟨status, "replay", some (.row row)⟩)
      | none =>
        if classification = .pending then
          .ok (data, ⟨.pending, "actual_outcome_required", some (.row row)⟩)
        else .ok (L.complete dispatchId row completion classification data)

/-- What `settle_unjudged` writes for a reserved gate without a completion. -/
def completeUnjudged (dispatchId : String) (row : Row) (completion : Completion)
    (data : LedgerData) : LedgerData × LedgerDecision :=
  let settled := { row with
    completion := some completion
    outcomeClass := .verdict
    settlementStatus := some .settled
    settledSequence := some (data.sequence + 1) }
  let data := { data with sequence := data.sequence + 1 }
  (data.setRow dispatchId settled, ⟨.settled, "unjudged_incomplete", some (.row settled)⟩)

/-- The transaction of `settle_unjudged`: `evidence` is what the producer authenticates. -/
def settleUnjudgedOperation (dispatchId : String) (evidence : Except Abort Json)
    (data : LedgerData) : Outcome :=
  match data.rows.get? dispatchId with
  | none => .ok (data, .hold "unjudged_reservation_required")
  | some row =>
    if row.kind ≠ .gate ∨ row.decision ≠ .reserved then
      .ok (data, .hold "unjudged_reservation_required")
    else do
      let evidence ← evidence
      let completion : Completion := ⟨"review_incomplete", none, [], [], some evidence⟩
      match row.completion with
      | some before =>
        if ¬ before.same completion then .ok (data, .hold "dispatch_outcome_mismatch")
        else .error (.unchanged ⟨.settled, "replay", some (.row row)⟩)
      | none => .ok (completeUnjudged dispatchId row completion data)

end Workbay.Review

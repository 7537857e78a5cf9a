import Workbay.Review.Proofs.LedgerProofs

/-!
# Proofs: what a call does to the ledger

A call leaves the file, anchors a new ledger, writes back what it read, or makes one of five moves.
Every later proof reads the moves and never the operations.
-/

namespace Workbay.Review

open Workbay.Effects

/-- The ledger after the reservation of `row`. -/
def LedgerData.issued (data : LedgerData) (row : Row) : LedgerData :=
  { data with
    issuanceSequence := row.issuedSequence
    rows := data.rows.set row.dispatchId row
    subjects := data.subjects.set row.subjectBranch
      ((data.subject row.subjectBranch).reserve row) }

/-- Whether a row is a gate that waits for its judgment. -/
def Row.isPendingGate (row : Row) : Bool :=
  row.kind = .gate && row.decision = .reserved && row.outcomeClass = .pending

/-- What `reserve` guarantees of the row that it writes. -/
structure Issued (L : ReviewCycleLedger) (data : LedgerData) (row : Row) : Prop where
  named : row.dispatchId ≠ "" ∧ row.subjectBranch ≠ ""
  absent : data.rows.get? row.dispatchId = none
  round : row.round = data.chargedRows L.os row.subjectBranch row.kind + 1
  pending : row.outcomeClass = .pending
  completion : row.completion = none
  settledSequence : row.settledSequence = none
  legacySource : row.legacySource = none
  issuedSequence : row.issuedSequence = some (data.issuanceSequence.getD 0 + 1)
  granted : ∀ approval, row.operatorApproval = some approval →
    row.decision = .reserved ∧ approval.approvalId ∉ data.consumed ∧
      approval.subjectBranch = row.subjectBranch ∧ approval.kind = row.kind ∧
      approval.round = row.round
  allowed : row.decision = .reserved → row.operatorApproval = none →
    row.round ≤ L.policy.threshold row.kind
  cleared : row.terminalCleared = true → row.operatorApproval.isSome
  noPendingGate : row.decision = .reserved → row.kind = .gate →
    ∀ other ∈ data.subjectRows row.subjectBranch, other.isPendingGate = false
  noContinuation : row.decision = .reserved → row.kind = .implement →
    (data.subject row.subjectBranch).repeated = true →
      (data.subject row.subjectBranch).continuation = none
  corrected : row.decision = .reserved → row.kind = .implement →
    (L.policy.threshold .implement ≤ row.round ∨
      (data.subject row.subjectBranch).repeated = true) → row.proposal.isSome
  judged : row.decision = .reserved → row.kind = .gate →
    (data.subject row.subjectBranch).repeated = true →
      ∃ id continuation, (data.subject row.subjectBranch).continuation = some id ∧
        data.rows.get? id = some continuation ∧
        effectiveOutcomeClass L.os data continuation = .verdict
  newCorrection : ∀ proposal, row.proposal = some proposal →
    (∃ change, proposal.correction = L.os.canonicalise change) ∧
      ∀ other ∈ data.subjectRows row.subjectBranch,
        other.proposal.map Proposal.correction ≠ some proposal.correction

section

variable {L : ReviewCycleLedger} {data data' : LedgerData}

variable {file : Option ProposalFile} {s : String} {number : Nat}

theorem proposal_fresh {rows : List Row} {proposal : Proposal}
    (h : L.proposal file rows = some proposal) :
    (∃ change, proposal.correction = L.os.canonicalise change) ∧
      ∀ other ∈ rows, other.proposal.map Proposal.correction ≠ some proposal.correction := by
  unfold ReviewCycleLedger.proposal at h
  simp only [Option.bind_eq_bind, Option.bind_eq_some_iff, Option.guard_eq_some',
    Option.pure_def, Option.some.injEq] at h
  obtain ⟨f, -, content, -, rules, -, texts, -, change, -, -, -, -, hfresh, rfl⟩ := h
  exact ⟨⟨change, rfl⟩, hfresh⟩

/-- What `judge` guarantees of a reservation. -/
structure Judged (L : ReviewCycleLedger) (data : LedgerData) (s : String) (kind : Kind)
    (number : Nat) (approval : Option Approval)
    (verdict : Status × String × Option Proposal) : Prop where
  approved : verdict.1 = .reserved →
    L.needsApproval data s kind number = true → approval.isSome
  noPendingGate : verdict.1 = .reserved → kind = .gate →
    ∀ other ∈ data.subjectRows s, other.isPendingGate = false
  noContinuation : verdict.1 = .reserved → kind = .implement →
    (data.subject s).repeated = true → (data.subject s).continuation = none
  corrected : verdict.1 = .reserved → kind = .implement →
    (L.policy.threshold .implement ≤ number ∨ (data.subject s).repeated = true) →
      verdict.2.2.isSome
  judged : verdict.1 = .reserved → kind = .gate → (data.subject s).repeated = true →
    ∃ id continuation, (data.subject s).continuation = some id ∧
      data.rows.get? id = some continuation ∧
      effectiveOutcomeClass L.os data continuation = .verdict
  newCorrection : ∀ proposal, verdict.2.2 = some proposal →
    (∃ change, proposal.correction = L.os.canonicalise change) ∧
      ∀ other ∈ data.subjectRows s,
        other.proposal.map Proposal.correction ≠ some proposal.correction

variable {kind : Kind} {decision : LedgerDecision}

theorem Judged.of_stop {approval : Option Approval} {status : Status} {reason : String}
    (h : status ≠ .reserved) : Judged L data s kind number approval (status, reason, none) where
  approved hr := absurd hr h
  noPendingGate hr := absurd hr h
  noContinuation hr := absurd hr h
  corrected hr := absurd hr h
  judged hr := absurd hr h
  newCorrection _ hp := absurd hp (by simp)

theorem judge_judged (L : ReviewCycleLedger) (data : LedgerData) (s : String) (kind : Kind)
    (number : Nat) (approval : Option Approval) (file : Option ProposalFile) :
    Judged L data s kind number approval (L.judge data s kind number approval file) := by
  unfold ReviewCycleLedger.judge
  simp only [Bool.and_eq_true, Bool.or_eq_true, decide_eq_true_eq]
  by_cases hgrant : L.needsApproval data s kind number = true ∧ approval.isNone = true
  · rw [if_pos hgrant]
    exact .of_stop (by decide)
  rw [if_neg hgrant]
  have happroved : L.needsApproval data s kind number = true → approval.isSome := by
    intro hneeds
    cases approval with
    | none => simp [hneeds] at hgrant
    | some _ => rfl
  by_cases hpending : kind = .gate ∧ ((data.subjectRows s).any fun row =>
      row.kind = .gate && row.decision = .reserved && row.outcomeClass = .pending) = true
  · rw [if_pos hpending]
    exact .of_stop (by decide)
  rw [if_neg hpending]
  have hgate : kind = .gate → ∀ other ∈ data.subjectRows s, other.isPendingGate = false := by
    intro hk other ho
    by_contra hp
    exact hpending ⟨hk, List.any_eq_true.mpr ⟨other, ho, by simpa [Row.isPendingGate, and_assoc] using hp⟩⟩
  by_cases hcont : ((data.subject s).repeated = true ∧
      (data.subject s).continuation.isSome = true) ∧ kind = .implement
  · rw [if_pos hcont]
    exact .of_stop (by decide)
  rw [if_neg hcont]
  have hnone : kind = .implement → (data.subject s).repeated = true →
      (data.subject s).continuation = none := by
    intro hk hrep
    simpa [hk, hrep] using hcont
  by_cases himpl : kind = .implement ∧
      (L.policy.threshold kind ≤ number ∨ (data.subject s).repeated = true)
  · rw [if_pos himpl]
    cases hp : L.proposal file (data.subjectRows s) with
    | none => exact .of_stop (by decide)
    | some proposal =>
      have hk := himpl.1
      refine ⟨fun _ => happroved, fun _ => hgate, fun _ => hnone, fun _ _ _ => rfl, ?_, ?_⟩
      · intro _ hg
        simp [hk] at hg
      · intro proposal' hp'
        obtain rfl := Option.some.inj hp'
        exact proposal_fresh hp
  rw [if_neg himpl]
  have hcorrected : kind = .implement → ¬ (L.policy.threshold .implement ≤ number ∨
      (data.subject s).repeated = true) := by
    intro hk h
    subst hk
    exact himpl ⟨rfl, h⟩
  by_cases hrep : kind = .gate ∧ (data.subject s).repeated = true
  · rw [if_pos hrep]
    have hk := hrep.1
    cases hc : (data.subject s).continuation.bind (Dict.get? data.rows) with
    | none => exact .of_stop (by decide)
    | some continuation =>
      by_cases hv : effectiveOutcomeClass L.os data continuation = .verdict
      · simp only [hv, if_true]
        obtain ⟨id, hid, hrow⟩ := Option.bind_eq_some_iff.mp hc
        refine ⟨fun _ => happroved, fun _ => hgate, ?_, ?_, ?_, ?_⟩
        · intro _ hi
          simp [hk] at hi
        · intro _ hi
          simp [hk] at hi
        · intro _ _ _
          exact ⟨id, continuation, hid, hrow, hv⟩
        · simp
      · simp only [hv, if_false]
        exact .of_stop (by decide)
  · rw [if_neg hrep]
    refine ⟨fun _ => happroved, fun _ => hgate, fun _ => hnone, ?_, ?_, ?_⟩
    · intro _ hk h
      exact absurd h (hcorrected hk)
    · intro _ hk hr
      exact absurd ⟨hk, hr⟩ hrep
    · simp

/-- `_approval` gives an unused grant of exactly this round. -/
theorem approval_spec {files : List ApprovalFile} {approval : Approval}
    (h : L.approval data s kind number files = .ok (some approval)) :
    approval.approvalId ∉ data.consumed ∧ approval.subjectBranch = s ∧ approval.kind = kind ∧
      approval.round = number := by
  unfold ReviewCycleLedger.approval at h
  cases hr : L.os.readApprovals files with
  | error abort => simp [hr, bind, Except.bind] at h
  | ok records =>
    simp only [hr, bind, Except.bind, pure, Except.pure, Except.ok.injEq] at h
    have hfound := List.find?_some h
    simpa [and_assoc] using hfound

theorem grant_spec {files : List ApprovalFile} {approval : Approval}
    (h : L.grant data s kind number files = .ok (some approval)) :
    approval.approvalId ∉ data.consumed ∧ approval.subjectBranch = s ∧ approval.kind = kind ∧
      approval.round = number := by
  unfold ReviewCycleLedger.grant at h
  split at h
  · exact approval_spec h
  · simp at h

/-- The row that `reserve` writes has what the ledger promises of reservations. -/
theorem newRow_issued {id : String} {approval : Option Approval}
    {verdict : Status × String × Option Proposal} (hnamed : id ≠ "" ∧ s ≠ "")
    (habsent : data.rows.get? id = none)
    (hgrant : ∀ a, approval = some a → a.approvalId ∉ data.consumed ∧ a.subjectBranch = s ∧
      a.kind = kind ∧ a.round = data.chargedRows L.os s kind + 1)
    (hj : Judged L data s kind (data.chargedRows L.os s kind + 1) approval verdict) : Issued L data
      (L.newRow data id s kind (data.chargedRows L.os s kind + 1) approval verdict) where
  named := hnamed
  absent := habsent
  round := rfl
  pending := rfl
  completion := rfl
  settledSequence := rfl
  legacySource := rfl
  issuedSequence := rfl
  granted a ha := by
    by_cases hr : verdict.1 = .reserved
    · have happ : approval = some a := by simpa [ReviewCycleLedger.newRow, hr] using ha
      exact ⟨hr, hgrant a happ⟩
    · simp [ReviewCycleLedger.newRow, hr] at ha
  allowed hr hnone := by
    replace hr : verdict.1 = .reserved := hr
    have happ : approval = none := by simpa [ReviewCycleLedger.newRow, hr] using hnone
    have hfree : ¬ L.needsApproval data s kind (data.chargedRows L.os s kind + 1) = true := by
      intro hn
      have hsome := hj.approved hr hn
      simp [happ] at hsome
    simp only [ReviewCycleLedger.needsApproval, Bool.or_eq_true, decide_eq_true_eq, not_or, not_lt] at hfree
    exact hfree.2
  cleared hc := by
    simp only [ReviewCycleLedger.newRow, Bool.and_eq_true, decide_eq_true_eq] at hc ⊢
    rw [if_pos hc.1.1]
    exact hc.1.2
  noPendingGate := hj.noPendingGate
  noContinuation := hj.noContinuation
  corrected := hj.corrected
  judged := hj.judged
  newCorrection := hj.newCorrection

/-- A reservation is judged on the ledger in which its subject is known already; that does not
matter to any of its guarantees. -/
theorem Issued.of_touch {row : Row} (h : Issued L (data.touchSubject s) row) :
    Issued L data row where
  named := h.named
  absent := h.absent
  round := h.round
  pending := h.pending
  completion := h.completion
  settledSequence := h.settledSequence
  legacySource := h.legacySource
  issuedSequence := h.issuedSequence
  granted := h.granted
  allowed := h.allowed
  cleared := h.cleared
  noPendingGate := h.noPendingGate
  noContinuation := by simpa using h.noContinuation
  corrected := by simpa using h.corrected
  judged := by
    have hj := h.judged
    simp only [LedgerData.subject_touchSubject] at hj
    exact hj
  newCorrection := h.newCorrection

theorem issued_touchSubject (data : LedgerData) (row : Row) :
    (data.touchSubject row.subjectBranch).issued row = data.issued row := by
  have hs : ((data.touchSubject row.subjectBranch).subject row.subjectBranch) =
      data.subject row.subjectBranch := data.subject_touchSubject _ _
  unfold LedgerData.issued
  rw [hs]
  simp [LedgerData.touchSubject]

theorem issue_spec {id : String} {approvals : List ApprovalFile} (hnamed : id ≠ "" ∧ s ≠ "")
    (habsent : data.rows.get? id = none)
    (h : L.issue id s kind file approvals data = .ok (data', decision)) :
    ∃ row, row.dispatchId = id ∧ row.subjectBranch = s ∧ row.kind = kind ∧
      Issued L data row ∧ data' = data.issued row ∧
      decision = ⟨row.decision, row.reason, some (.row row)⟩ := by
  unfold ReviewCycleLedger.issue at h
  simp only at h
  cases ha : L.grant (data.touchSubject s) s kind
      ((data.touchSubject s).chargedRows L.os s kind + 1) approvals with
  | error abort => simp [ha, bind, Except.bind] at h
  | ok approval =>
    simp only [ha, bind, Except.bind, pure, Except.pure, Except.ok.injEq, Prod.mk.injEq] at h
    obtain ⟨hdata, hdecision⟩ := h
    have habsent' : Dict.get? (data.touchSubject s).rows id = none := habsent
    have hissued := newRow_issued (L := L) hnamed habsent'
      (fun a h => grant_spec (h ▸ ha)) (judge_judged L (data.touchSubject s) s kind _ approval file)
    refine ⟨_, rfl, rfl, rfl, hissued.of_touch, ?_, hdecision.symm⟩
    rw [← hdata, ← issued_touchSubject]
    rfl

/-- The ways in which a call changes the ledger. -/
inductive Move (L : ReviewCycleLedger) (data : LedgerData) : LedgerData → Prop
  | issue {row : Row} (issued : Issued L data row) : Move L data (data.issued row)
  | settle {id : String} {row : Row} {classification : PassOutcomeClass}
      (found : data.rows.get? id = some row) (reserved : row.decision = .reserved)
      (waiting : row.completion = none) (final : classification ≠ .pending)
      (completion : Completion) : Move L data (L.complete id row completion classification data).1
  | settleUnjudged {id : String} {row : Row} (found : data.rows.get? id = some row)
      (gate : row.kind = .gate) (reserved : row.decision = .reserved)
      (waiting : row.completion = none) (completion : Completion) :
      Move L data (completeUnjudged id row completion data).1
  | correct {id : String} {row : Row} {reason : String}
      (eligible : correctionEligibility L.os data id = ⟨.eligible, reason, some (.row row)⟩)
      (observation : Json) (ledgerSha256 recordedAt : String) :
      Move L data (appendCorrection L.os data (correctionEvent L.os data row observation
        (L.os.observationDigest observation) ledgerSha256 correctionProducer recordedAt id) id
        row.subjectBranch)
  | importSources {s : String} {sources : List Json} {records : List LegacyRecord}
      (named : s ≠ "")
      (verified : L.os.legacyRecords s sources none [] = some records)
      (new : data.subjectRows s = [])
      (ids : ∀ record ∈ records, data.rows.get? record.dispatchId = none)
      (nonces : ∀ record ∈ records,
        record.dispatchNonce ∉ data.values.filterMap Row.nonce?) :
      Move L data (importRecords L.os s records 1 (data.touchSubject s))

theorem transaction_cases (os : LedgerPlatform) (storage : Storage)
    (read : Except String LedgerData) (operation : LedgerData → Outcome)
    (file : Option LedgerFile) :
    (transaction os storage read operation file).1 = file ∨
      ∃ data data' decision, read = .ok data ∧ operation data = .ok (data', decision) ∧
        (transaction os storage read operation file).1 = some (os.encode data') := by
  cases hread : read with
  | error reason =>
    left
    cases storage <;> rfl
  | ok data =>
    cases hop : operation data with
    | error abort =>
      left
      cases storage <;>
        simp only [transaction, Except.mapError, bind, Except.bind, hop]
    | ok out =>
      cases storage with
      | works | syncFails =>
        right
        refine ⟨data, out.1, out.2, rfl, hop, ?_⟩
        simp only [transaction, Except.mapError, bind, Except.bind, hop]
      | busy | lockFails | unreadable => exact .inl rfl
      | writeFails =>
        left
        simp only [transaction, Except.mapError, bind, Except.bind, hop]

theorem reserveOperation_cases {id : String} {approvals : List ApprovalFile}
    (hnamed : id ≠ "" ∧ s ≠ "")
    (h : L.reserveOperation id s kind file approvals data = .ok (data', decision)) :
    data' = data ∨ Move L data data' := by
  unfold ReviewCycleLedger.reserveOperation at h
  cases hold : data.rows.get? id with
  | some old =>
    left
    simp only [hold] at h
    split at h <;> exact (Prod.mk.inj (Except.ok.inj h)).1.symm
  | none =>
    right
    simp only [hold] at h
    obtain ⟨row, -, -, -, hissued, rfl, -⟩ := issue_spec hnamed hold h
    exact .issue hissued

theorem settleOperation_cases {id : String} {completion : Completion}
    {classification : PassOutcomeClass}
    (h : L.settleOperation id s kind completion classification data = .ok (data', decision)) :
    data' = data ∨ Move L data data' := by
  unfold ReviewCycleLedger.settleOperation at h
  cases hfound : data.rows.get? id with
  | none =>
    simp only [hfound] at h
    exact .inl (Prod.mk.inj (Except.ok.inj h)).1.symm
  | some row =>
    simp only [hfound] at h
    split at h
    · exact .inl (Prod.mk.inj (Except.ok.inj h)).1.symm
    split at h
    · exact .inl (Prod.mk.inj (Except.ok.inj h)).1.symm
    rename_i hreserved
    cases hc : row.completion with
    | some before =>
      left
      simp only [hc] at h
      split at h
      · exact (Prod.mk.inj (Except.ok.inj h)).1.symm
      · split at h
        · simp at h
        · exact (Prod.mk.inj (Except.ok.inj h)).1.symm
    | none =>
      simp only [hc] at h
      split at h
      · exact .inl (Prod.mk.inj (Except.ok.inj h)).1.symm
      · rename_i hfinal
        right
        obtain rfl : (L.complete id row completion classification data).1 = data' :=
          congrArg Prod.fst (Except.ok.inj h)
        exact .settle hfound (not_not.mp hreserved) hc hfinal completion

theorem settleUnjudgedOperation_cases {id : String} {evidence : Except Abort Json}
    (h : settleUnjudgedOperation id evidence data = .ok (data', decision)) :
    data' = data ∨ Move L data data' := by
  unfold settleUnjudgedOperation at h
  cases hfound : data.rows.get? id with
  | none =>
    simp only [hfound] at h
    exact .inl (Prod.mk.inj (Except.ok.inj h)).1.symm
  | some row =>
    simp only [hfound] at h
    split at h
    · exact .inl (Prod.mk.inj (Except.ok.inj h)).1.symm
    rename_i hgate
    simp only [ne_eq, not_or, not_not] at hgate
    cases evidence with
    | error abort => simp [bind, Except.bind] at h
    | ok evidence =>
      simp only [bind, Except.bind] at h
      cases hc : row.completion with
      | some before =>
        left
        simp only [hc] at h
        split at h
        · exact (Prod.mk.inj (Except.ok.inj h)).1.symm
        · simp at h
      | none =>
        right
        simp only [hc] at h
        obtain rfl := (Prod.mk.inj (Except.ok.inj h)).1
        exact .settleUnjudged hfound hgate.1 hgate.2 hc _

theorem appendOutcomeCorrectionOperation_cases
    {id expectedLedger expectedObservation now digest : String} {observation : Except Abort Json}
    (h : L.appendOutcomeCorrectionOperation id expectedLedger expectedObservation observation now
      digest data = .ok (data', decision)) : Move L data data' := by
  unfold ReviewCycleLedger.appendOutcomeCorrectionOperation at h
  cases observation with
  | error abort => simp [bind, Except.bind] at h
  | ok observation =>
    simp only [bind, Except.bind] at h
    split at h
    · split at h <;> simp at h
    · split at h
      · simp at h
      split at h
      · simp at h
      split at h
      · rename_i heligible
        obtain ⟨rfl, -⟩ := Prod.mk.inj (Except.ok.inj h)
        exact .correct heligible observation expectedLedger now
      · simp at h

theorem importOperation_cases {sources : List Json} {records : List LegacyRecord} (hnamed : s ≠ "")
    (hv : L.os.legacyRecords s sources none [] = some records)
    (h : L.importOperation s records data = .ok (data', decision)) :
    data' = data ∨ Move L data data' := by
  unfold ReviewCycleLedger.importOperation at h
  simp only at h
  split at h
  · split at h
    · exact .inl (Prod.mk.inj (Except.ok.inj h)).1.symm
    · simp at h
  · split at h
    · simp at h
    · rename_i hnew
      right
      simp only [not_or, not_exists, not_and, ne_eq, not_not, Option.not_isSome_iff_eq_none] at hnew
      obtain ⟨rfl, -⟩ := Prod.mk.inj (Except.ok.inj h)
      exact .importSources hnamed hv hnew.1 hnew.2.1 hnew.2.2

theorem perform_cases (L : ReviewCycleLedger) (file : Option LedgerFile) (call : Call × Storage) :
    (L.perform file call).1 = file ∨
      (file = none ∧ ∃ now : Timestamp,
        (L.perform file call).1 = some (L.os.encode (L.fresh now.text))) ∨
      ∃ data data', L.read file = .ok data ∧ (data' = data ∨ Move L data data') ∧
        (L.perform file call).1 = some (L.os.encode data') := by
  -- a transaction that reads the file and makes a move at most
  have hmove : ∀ storage operation,
      (∀ data data' decision, operation data = .ok (data', decision) →
        data' = data ∨ Move L data data') →
      (transaction L.os storage (L.read file) operation file).1 = file ∨
        (file = none ∧ ∃ now : Timestamp,
          (transaction L.os storage (L.read file) operation file).1 =
            some (L.os.encode (L.fresh now.text))) ∨
        ∃ data data', L.read file = .ok data ∧ (data' = data ∨ Move L data data') ∧
          (transaction L.os storage (L.read file) operation file).1 =
            some (L.os.encode data') := by
    intro storage operation hop
    rcases transaction_cases L.os storage (L.read file) operation file with
      hsame | ⟨data, data', decision, hread, ho, hfile⟩
    · exact .inl hsame
    · exact .inr (.inr ⟨data, data', hread, hop data data' decision ho, hfile⟩)
  obtain ⟨call, storage⟩ := call
  cases call with
  | activate now =>
    cases file with
    | some f =>
      apply hmove
      intro data data' decision h
      exact .inl (Prod.mk.inj (Except.ok.inj h)).1.symm
    | none =>
      rcases transaction_cases L.os storage (.ok (L.fresh now.text))
        (fun data => .ok (data, { status := .activated, reason := data.activatedAt })) none with
        hsame | ⟨data, data', decision, hread, ho, hfile⟩
      · exact .inl hsame
      · obtain rfl := Except.ok.inj hread
        obtain ⟨rfl, -⟩ := Prod.mk.inj (Except.ok.inj ho)
        exact .inr (.inl ⟨rfl, now, hfile⟩)
  | reserve id s kind proposal approvals =>
    simp only [ReviewCycleLedger.perform, ReviewCycleLedger.reserve]
    split
    · exact .inl rfl
    split
    · exact .inl rfl
    · rename_i hnamed
      exact hmove _ _ fun _ _ _ h => reserveOperation_cases (not_or.mp hnamed) h
  | settle id s kind outcome refusal ids fingerprints =>
    simp only [ReviewCycleLedger.perform, ReviewCycleLedger.settle]
    split
    · exact .inl rfl
    · exact hmove _ _ fun _ _ _ h => settleOperation_cases h
  | settleUnjudged id evidence =>
    exact hmove _ _ fun _ _ _ h => settleUnjudgedOperation_cases h
  | appendOutcomeCorrection id expectedLedger expectedObservation observation now =>
    exact hmove _ _ fun _ _ _ h => .inr (appendOutcomeCorrectionOperation_cases h)
  | importLegacySources s history =>
    simp only [ReviewCycleLedger.perform, ReviewCycleLedger.importLegacySources]
    split
    · exact .inl rfl
    split
    · exact .inl rfl
    rename_i hnamed
    split
    · exact .inl rfl
    split
    · exact .inl rfl
    · rename_i hv
      exact hmove _ _ fun _ _ _ h => importOperation_cases hnamed hv h

end

end Workbay.Review

import Workbay.Completion.Proofs.AppendProofs

/-!
# One well-formed chain for each admission

Every call keeps the invariant of the ledger, so in every reachable ledger each receipt has its
place in the chain of its admission. A replay finds its first receipt, because keys are stored once.
-/

namespace Workbay.Completion

open Effects List

variable {host : ProductionHost} {laneIdOf : Int → String}

variable {receipts' : List Receipt} {p : ProductionPayload} {r x : Receipt} {s : Ledger laneIdOf}

theorem Added.placed {receipts : List Receipt} (h : Added host receipts p r receipts')
    (hall : WellPlaced host receipts) : WellPlaced host receipts' := by
  cases h with
  | one _ hr hseal hplaced => exact EachAfter.append_iff.mpr ⟨hall, hplaced⟩
  | behindGap s gap _ hkind hs hgap hr hgapPlaced hplaced =>
    exact EachAfter.append_iff.mpr ⟨EachAfter.append_iff.mpr ⟨hall, hgapPlaced⟩, hplaced⟩

theorem Added.mem {receipts : List Receipt} (h : Added host receipts p r receipts')
    (hx : x ∈ receipts') : x ∈ receipts ∨ x.binding = p.binding := by
  cases h with
  | one _ hr hseal hplaced =>
    rcases mem_append.mp hx with hx | hx
    · exact .inl hx
    · rw [mem_singleton.mp hx, hr]
      exact .inr rfl
  | behindGap s gap _ hkind hs hgap hr hgapPlaced hplaced =>
    rcases mem_append.mp hx with hx | hx
    · rcases mem_append.mp hx with hx | hx
      · exact .inl hx
      · rw [mem_singleton.mp hx, hgap]
        exact .inr rfl
    · rw [mem_singleton.mp hx, hr]
      exact .inr rfl

theorem Added.record {receipts : List Receipt} (h : Added host receipts p r receipts') :
    receipts <+: receipts' ∧ r ∈ receipts' ∧ r.payload = p := by
  cases h with
  | one _ hr hseal hplaced =>
    exact ⟨prefix_append _ _, by simp, by rw [hr]; rfl⟩
  | behindGap s gap _ hkind hs hgap hr hgapPlaced hplaced =>
    refine ⟨?_, by simp, by rw [hr]; rfl⟩
    rw [append_assoc]
    exact prefix_append _ _

theorem ledgerMachine_refused {call : LedgerCall laneIdOf} {e : ProductionError}
    (h : (ledgerMachine host laneIdOf).answer s call = some (.error e)) :
    (ledgerMachine host laneIdOf).next s call = s := by
  cases call with
  | native db => cases h
  | record d =>
    simp only [Machine.answer, ledgerMachine] at h
    split at h <;> cases h
  | append kind request =>
    simp only [Machine.answer, Machine.next, ledgerMachine] at h ⊢
    split at h
    · cases h
    · rfl

variable {kind : ReceiptKind} {request : ProductionAppend}

section

variable (hs : LedgerInv host laneIdOf s.contracts s.receipts)

include hs

theorem ledgerMachine_append
    (h : (ledgerMachine host laneIdOf).answer s (.append kind request) = some (.ok r)) :
    ∃ p, prepared kind request = .ok p ∧ Bound host laneIdOf s.contracts p.binding ∧
      (((ledgerMachine host laneIdOf).next s (.append kind request)).receipts = s.receipts ∧
          r ∈ s.receipts ∧ r.payload = p ∨
        checkAppend host s.native.toNative s.contracts s.receipts p = .ok () ∧
          Added host s.receipts p r
          ((ledgerMachine host laneIdOf).next s (.append kind request)).receipts) := by
  simp only [Machine.answer, Machine.next, ledgerMachine] at h ⊢
  cases hcall : appendReceipt host s.native.toNative s.contracts s.receipts kind request with
  | error e =>
    rw [hcall] at h
    cases h
  | ok result =>
    obtain ⟨record, receipts⟩ := result
    rw [hcall] at h
    obtain rfl : record = r := Except.ok.inj (Option.some.inj h)
    exact appendReceipt_spec hs hcall

theorem ledgerMachine_receipts (call : LedgerCall laneIdOf) :
    ((ledgerMachine host laneIdOf).next s call).receipts = s.receipts ∨
      ∃ kind request p r, call = .append kind request ∧ prepared kind request = .ok p ∧
        ((ledgerMachine host laneIdOf).next s call).contracts = s.contracts ∧
        Bound host laneIdOf s.contracts p.binding ∧
        checkAppend host s.native.toNative s.contracts s.receipts p = .ok () ∧
        Added host s.receipts p r ((ledgerMachine host laneIdOf).next s call).receipts := by
  cases call with
  | native db => exact .inl rfl
  | record d =>
    simp only [Machine.next, ledgerMachine]
    split <;> exact .inl rfl
  | append kind request =>
    cases hanswer : (ledgerMachine host laneIdOf).answer s (.append kind request) with
    | none =>
      simp only [Machine.answer, ledgerMachine] at hanswer
      split at hanswer <;> cases hanswer
    | some result =>
      cases result with
      | error e => exact .inl (by rw [ledgerMachine_refused hanswer])
      | ok r =>
        obtain ⟨p, hp, hbound, ⟨hsame, -⟩ | ⟨hcheck, hadded⟩⟩ := ledgerMachine_append hs hanswer
        · exact .inl hsame
        · refine .inr ⟨kind, request, p, r, rfl, hp, ?_, hbound, hcheck, hadded⟩
          simp only [Machine.next, ledgerMachine]
          split <;> rfl

theorem ledgerMachine_contracts (call : LedgerCall laneIdOf) :
    ((ledgerMachine host laneIdOf).next s call).contracts = s.contracts ∨
      ∃ row record, ((ledgerMachine host laneIdOf).next s call).contracts = s.contracts ++ [row] ∧
        ((ledgerMachine host laneIdOf).next s call).receipts = s.receipts ∧
        Appended host.toContractHost s.contracts row record := by
  cases call with
  | native db => exact .inl rfl
  | append kind request =>
    simp only [Machine.next, ledgerMachine]
    split <;> exact .inl rfl
  | record d =>
    simp only [Machine.next, ledgerMachine]
    cases hcall : recordContract host.toContractHost s.native.toNative s.contracts d with
    | error e => exact .inl rfl
    | ok result =>
      obtain ⟨record, rows⟩ := result
      rcases recordContract_spec hs.recorded.numbered hcall with hsame | ⟨row, happend, happended⟩
      · exact .inl hsame
      · exact .inr ⟨row, record, happend, rfl, happended⟩

end

theorem LedgerInv.next (h : LedgerInv host laneIdOf s.contracts s.receipts)
    (call : LedgerCall laneIdOf) :
    LedgerInv host laneIdOf ((ledgerMachine host laneIdOf).next s call).contracts
      ((ledgerMachine host laneIdOf).next s call).receipts := by
  rcases ledgerMachine_contracts h call with hsame | ⟨row, record, hcontracts, hreceipts, happended⟩
  · rw [hsame]
    rcases ledgerMachine_receipts h call with
      hkept | ⟨kind, request, p, r, rfl, -, -, hbound, -, hadded⟩
    · rw [hkept]
      exact h
    · refine ⟨h.recorded, hadded.placed h.placed, fun x hx => ?_⟩
      rcases hadded.mem hx with hold | hnew
      · exact h.bound x hold
      · rw [hnew]
        exact hbound
  · rw [hcontracts, hreceipts]
    exact ⟨EachAfter.append_iff.mpr ⟨h.recorded, record, happended⟩, h.placed,
      fun r hr => (h.bound r hr).append row⟩

theorem LedgerInv.init : LedgerInv host laneIdOf [] [] :=
  ⟨EachAfter.nil, EachAfter.nil, fun r hr => absurd hr not_mem_nil⟩

theorem ledgerInv_run (host : ProductionHost) (calls : List (LedgerCall laneIdOf)) :
    LedgerInv host laneIdOf ((ledgerMachine host laneIdOf).run {} calls).contracts
      ((ledgerMachine host laneIdOf).run {} calls).receipts :=
  Machine.run_invariant (P := fun s : Ledger laneIdOf =>
    LedgerInv host laneIdOf s.contracts s.receipts) (fun _ call h => h.next call) .init calls

theorem receipts_prefix_next (h : LedgerInv host laneIdOf s.contracts s.receipts)
    (call : LedgerCall laneIdOf) :
    s.receipts <+: ((ledgerMachine host laneIdOf).next s call).receipts := by
  rcases ledgerMachine_receipts h call with hsame | ⟨_, _, _, _, -, -, -, -, -, hadded⟩
  · exact ⟨[], by rw [append_nil, hsame]⟩
  · exact hadded.record.1

theorem receipts_prefix (host : ProductionHost) (calls more : List (LedgerCall laneIdOf)) :
    ((ledgerMachine host laneIdOf).run {} calls).receipts <+:
      ((ledgerMachine host laneIdOf).run {} (calls ++ more)).receipts := by
  rw [Machine.run_append]
  have h := ledgerInv_run host calls
  generalize (ledgerMachine host laneIdOf).run {} calls = s at h
  induction more generalizing s with
  | nil => exact prefix_refl _
  | cons call more ih => exact (receipts_prefix_next h call).trans (ih _ (h.next call))

theorem WellPlaced.key_unique {receipts : List Receipt} (h : WellPlaced host receipts) {y : Receipt}
    (hx : x ∈ receipts) (hy : y ∈ receipts)
    (hkey : x.idempotencyKey = y.idempotencyKey ∨ x.evidenceId = y.evidenceId) : x = y := by
  induction receipts using List.reverseRecOn with
  | nil => cases hx
  | append_singleton receipts r ih =>
    obtain ⟨hreceipts, hr⟩ := EachAfter.append_iff.mp h
    have hfresh : ∀ z ∈ receipts,
        ¬ (z.idempotencyKey = r.idempotencyKey ∨ z.evidenceId = r.evidenceId) := by
      intro z hz
      rw [not_or]
      exact ⟨(hr.fresh z hz).2, (hr.fresh z hz).1⟩
    rcases mem_append.mp hx with hx | hx <;> rcases mem_append.mp hy with hy | hy
    · exact ih hreceipts hx hy
    · rw [mem_singleton.mp hy] at hkey
      exact absurd hkey (hfresh x hx)
    · rw [mem_singleton.mp hx] at hkey
      exact absurd (hkey.imp Eq.symm Eq.symm) (hfresh y hy)
    · rw [mem_singleton.mp hx, mem_singleton.mp hy]

theorem WellPlaced.stored {receipts : List Receipt} (h : WellPlaced host receipts)
    (hx : x ∈ receipts) : decodeReceipt host x = .ok x := by
  obtain ⟨before, after, heq⟩ := append_of_mem hx
  exact (h before x after heq).stored

theorem replay_found (h : LedgerInv host laneIdOf s.contracts s.receipts)
    (hp : prepared kind request = .ok p) (hr : r ∈ s.receipts) (hpayload : r.payload = p) :
    (ledgerMachine host laneIdOf).next s (.append kind request) = s ∧
      ((ledgerMachine host laneIdOf).answer s (.append kind request) = some (.ok r) ∨
        ∃ e, validateBinding host s.native.toNative s.contracts request.binding
            (kind ≠ .admission ∧ kind ≠ .contractLink) = .error e ∧
          (ledgerMachine host laneIdOf).answer s (.append kind request) = some (.error e)) := by
  obtain ⟨-, -, hbinding, -, -⟩ := prepared_spec hp
  have hkey : r.idempotencyKey = idempotency host p := by
    rw [← hpayload]
    exact (decodeReceipt_eq_ok.mp (h.placed.stored hr)).2.2
  have hfind : s.receipts.find? (·.idempotencyKey = idempotency host p) = some r := by
    cases hf : s.receipts.find? (·.idempotencyKey = idempotency host p) with
    | none =>
      have hnone := find?_eq_none.mp hf r hr
      simp [hkey] at hnone
    | some x =>
      have hx : x.idempotencyKey = idempotency host p := by simpa using find?_some hf
      rw [h.placed.key_unique (mem_of_find?_eq_some hf) hr (.inl (hx.trans hkey.symm))]
  have hdecode : decodeReceipt host r = .ok r := h.placed.stored hr
  have hcall : appendReceipt host s.native.toNative s.contracts s.receipts kind request =
      validateBinding host s.native.toNative s.contracts request.binding
        (kind ≠ .admission ∧ kind ≠ .contractLink) >>= fun _ => .ok (r, s.receipts) := by
    have hok : (prepared kind request >>= fun q => (.ok q : Except ProductionError _)) = .ok p := by
      rw [hp]
      rfl
    simp only [appendReceipt, hp, bind, Except.bind, hbinding, hfind, require, hpayload,
      hdecode, if_true, pure, Except.pure]
  simp only [Machine.next, Machine.answer, ledgerMachine, hcall]
  cases hvalid : validateBinding host s.native.toNative s.contracts request.binding
      (kind ≠ .admission ∧ kind ≠ .contractLink) with
  | ok u => exact ⟨rfl, .inl rfl⟩
  | error e => exact ⟨rfl, .inr ⟨e, rfl, rfl⟩⟩

theorem answered_stored (hs : LedgerInv host laneIdOf s.contracts s.receipts)
    (h : (ledgerMachine host laneIdOf).answer s (.append kind request) = some (.ok r)) :
    ∃ p, prepared kind request = .ok p ∧ r.payload = p ∧
      r ∈ ((ledgerMachine host laneIdOf).next s (.append kind request)).receipts := by
  obtain ⟨p, hp, -, ⟨hsame, hr, hpayload⟩ | ⟨-, hadded⟩⟩ := ledgerMachine_append hs h
  · exact ⟨p, hp, hpayload, by rw [hsame]; exact hr⟩
  · exact ⟨p, hp, hadded.record.2.2, hadded.record.2.1⟩

/-- The production ledger is one well-formed chain for each admission. After any calls and changes
of the other tables, the receipts of an admission are numbered from one, each names the one before
it, exactly the first is an admission, an operation is prepared at most once and settled at most
once, after its prepare, and what is not a contract link is at the point of the chain. Receipts
stay; a request that was answered is answered with its first receipt as long as its binding is still
current, and appends nothing again; a call that raises changes nothing. -/
theorem ledger_chains (host : ProductionHost) (laneIdOf : Int → String)
    (calls : List (LedgerCall laneIdOf)) :
    (∀ repository admissionId before r after,
      receiptsOf ((ledgerMachine host laneIdOf).run {} calls).receipts repository admissionId =
        before ++ r :: after →
      r.sequence = (before.length : Int) + 1 ∧
      r.previousEvidenceId = before.getLast?.map Receipt.evidenceId ∧
      (r.kind = .admission ↔ before = []) ∧
      (r.kind = .prepare → ∀ x ∈ before, x.kind = .prepare →
        x.payload.operationId ≠ r.payload.operationId) ∧
      (r.kind = .settle →
        (∃ x ∈ before, x.kind = .prepare ∧ x.payload.operationId = r.payload.operationId) ∧
        ∀ x ∈ before, x.kind = .settle → x.payload.operationId ≠ r.payload.operationId) ∧
      (r.kind ≠ .contractLink → ∀ b, pointOf before = some b → samePoint b r.binding = true)) ∧
    (∀ more, ((ledgerMachine host laneIdOf).run {} calls).receipts <+:
      ((ledgerMachine host laneIdOf).run {} (calls ++ more)).receipts) ∧
    (∀ kind request r more,
      (ledgerMachine host laneIdOf).answer ((ledgerMachine host laneIdOf).run {} calls)
        (.append kind request) = some (.ok r) →
      ∀ s, s = (ledgerMachine host laneIdOf).run {} (calls ++ .append kind request :: more) →
        (ledgerMachine host laneIdOf).next s (.append kind request) = s ∧
        ((ledgerMachine host laneIdOf).answer s (.append kind request) = some (.ok r) ∨
          ∃ e, validateBinding host s.native.toNative s.contracts request.binding
              (kind ≠ .admission ∧ kind ≠ .contractLink) = .error e ∧
            (ledgerMachine host laneIdOf).answer s (.append kind request) = some (.error e))) ∧
    ∀ call e, (ledgerMachine host laneIdOf).answer ((ledgerMachine host laneIdOf).run {} calls) call =
        some (.error e) →
      (ledgerMachine host laneIdOf).next ((ledgerMachine host laneIdOf).run {} calls) call =
        (ledgerMachine host laneIdOf).run {} calls := by
  have hinv := ledgerInv_run host calls
  refine ⟨fun repository admissionId before r after heq => ?_, receipts_prefix host calls,
    fun kind request r more hanswer s hs => ?_, fun call e h => ledgerMachine_refused h⟩
  · obtain ⟨earlier, hplaced, rfl⟩ := hinv.placed.placed heq
    exact ⟨hplaced.sequence, hplaced.previous, hplaced.root, hplaced.prepare, hplaced.settle,
      hplaced.point⟩
  · obtain ⟨p, hp, hpayload, hr⟩ := answered_stored hinv hanswer
    have hsplit : calls ++ .append kind request :: more =
        (calls ++ [.append kind request]) ++ more := by simp
    have hgrown := receipts_prefix host (calls ++ [.append kind request]) more
    rw [← hsplit, ← hs, Machine.run_append, Machine.run_cons, Machine.run_nil] at hgrown
    have hinv' := ledgerInv_run host (calls ++ .append kind request :: more)
    rw [← hs] at hinv'
    exact replay_found hinv' hp (hgrown.subset hr) hpayload

/-! A ledger with one lane, whose digests are short texts. -/

/-- Digests that tell the receipts of the example apart. -/
def plainHost : ProductionHost where
  text := fun _ => ""
  digest := fun p => p.objective
  objectiveDigest := fun s => s
  receiptDigest := fun p sequence _ => p.operationId ++ p.operationPhase ++ toString sequence
  bindingDigest := fun b => b.contractHash
  keyDigest
    | .seal _ _ policy _ => "seal" ++ policy.str?.getD ""
    | .operation _ producerKind operationId operationPhase =>
      producerKind ++ operationId ++ operationPhase
  payloadBytes := fun _ _ _ => 1

/-- The identity of the lane. -/
def exampleIdentity : LaneIdentity where
  repository := "repo"
  taskRef := "t"
  laneId := "l"
  laneRowId := 1
  identitySeq := none
  cycleId := some "0"
  branch := "b"
  admissionBase := "base"
  productTip := "tip"
  laneRevision := "r1"
  taskRevision := "1"

/-- A contract without findings. -/
def exampleDeclaration : Declaration where
  identity := exampleIdentity
  objective := "o"
  integrationRef := "main"
  acceptanceIds := ["a"]
  acceptanceVerifiers := [⟨"a", "test", 1, "c", "pass", "text"⟩]
  approved := true
  exhaustive := true
  evidenceIds := ["e"]
  assignedFindings := some []
  emptyAssignmentDeclared := true
  requiredCommands := some ["pytest"]

/-- The row of the lane. -/
def exampleLane (updatedAt : String) : LaneRow := ⟨1, "t", "l", none, "b", updatedAt, 0⟩

theorem exampleLane_fixed (updatedAt : String) :
    ∀ lane ∈ [exampleLane updatedAt], lane.laneId = "l" := by
  intro lane hlane
  rw [mem_singleton.mp hlane]
  rfl

/-- The tables, with the lane as it is after an update. -/
def exampleTables (updatedAt : String) : FixedLanes fun _ => "l" where
  lanes := [exampleLane updatedAt]
  tasks := [⟨"t", 1, "in_progress"⟩]
  fixed := exampleLane_fixed updatedAt

/-- A request at a head. -/
def exampleAppend (operationId : String) (head : ProductionHead) (facts : Facts) :
    ProductionAppend where
  binding := ⟨exampleIdentity, 1, "o", some ⟨"candidate", "c", "main", "i", none, none⟩⟩
  admissionId := "a"
  operationId := operationId
  producerKind := "agent"
  producerVersion := "1"
  writerAuthorityRef := "w"
  expectedHead := head
  facts := facts

/-- The admission of the lane, with its contract. -/
def exampleCalls : List (LedgerCall fun _ => "l") :=
  [.native (exampleTables "r1"), .record exampleDeclaration]

/-- The request of the admission. -/
def exampleAdmission : ProductionAppend := exampleAppend "root" ⟨0, none⟩ []

/-- Its receipt. -/
def exampleRoot : Receipt :=
  receiptAt plainHost { exampleAdmission with
    evidenceKind := .admission, operationPhase := "admission" } ⟨0, none⟩

/-- A request that was answered is refused later, when the row of its lane has changed. -/
theorem replay_refused :
    ¬ ∀ (host : ProductionHost) (laneIdOf : Int → String) (calls more : List (LedgerCall laneIdOf))
        (kind : ReceiptKind) (request : ProductionAppend) (r : Receipt),
      (ledgerMachine host laneIdOf).answer ((ledgerMachine host laneIdOf).run {} calls)
        (.append kind request) = some (.ok r) →
      (ledgerMachine host laneIdOf).answer ((ledgerMachine host laneIdOf).run {}
        (calls ++ .append kind request :: more)) (.append kind request) = some (.ok r) := by
  intro h
  have hreplay := h plainHost (fun _ => "l") exampleCalls [.native (exampleTables "r2")] .admission
    exampleAdmission exampleRoot (by decide +kernel)
  have hrefused : (ledgerMachine plainHost fun _ => "l").answer
      ((ledgerMachine plainHost fun _ => "l").run {}
        (exampleCalls ++ [.append .admission exampleAdmission, .native (exampleTables "r2")]))
      (.append .admission exampleAdmission) = some (.error (.refusal .identityMismatch
        "current lane/task identity changed or absent")) := by decide +kernel
  rw [hrefused] at hreplay
  cases hreplay

end Workbay.Completion

/-!
## Standing seals

A seal is appended when no operation is open, so what was prepared before it is settled before it. A
prepare behind it invalidates one seal, the last that stands. As long as no prepare is appended while
two seals stand, a seal that stands has no prepare behind it.
-/

namespace Workbay.Completion

open Effects List

variable {host : ProductionHost} {laneIdOf : Int → String} {receipts : List Receipt}

/-- Each seal that no receipt of its chain invalidates covers the operations of its admission: they
are settled before it, and none is prepared after it. -/
def SealsCover (receipts : List Receipt) : Prop :=
  ∀ repository admissionId before s after,
    receiptsOf receipts repository admissionId = before ++ s :: after → s.kind = .seal →
    (∀ g ∈ receiptsOf receipts repository admissionId, invalidates g s.evidenceId = false) →
    (∀ x ∈ before, x.kind = .prepare → ∃ y ∈ before, settles y x.payload.operationId = true) ∧
    ∀ x ∈ after, x.kind ≠ .prepare

/-- A prepare that is about to be appended meets at most one standing seal. -/
def MeetsOneSeal (host : ProductionHost) (laneIdOf : Int → String) (s : Ledger laneIdOf) :
    LedgerCall laneIdOf → Prop
  | .append kind request => ∀ p, prepared kind request = .ok p → p.evidenceKind = .prepare →
      (∀ r ∈ s.receipts, r.idempotencyKey ≠ idempotency host p) →
      checkAppend host s.native.toNative s.contracts s.receipts p = .ok () →
      (standingSeals (chainFor s.receipts p)).length ≤ 1
  | _ => True

variable {chain : List Receipt}

theorem mem_standingSeals {s : Receipt} : s ∈ standingSeals chain ↔ s ∈ chain ∧ s.kind = .seal ∧
      ∀ g ∈ chain, invalidates g s.evidenceId = false := by
  simp [standingSeals, inOrder, mem_insertionSort]

theorem standingSeals_behind {s gap : Receipt} (hstanding : standingSeals chain = [s])
    (hgap : gap.kind = .gap) (hinvalidates : invalidates gap s.evidenceId = true) :
    standingSeals (chain ++ [gap]) = [] := by
  rw [eq_nil_iff_forall_not_mem]
  intro x hx
  obtain ⟨hmem, hkind, hnone⟩ := mem_standingSeals.mp hx
  have hold : x ∈ chain := by
    rcases mem_append.mp hmem with h | h
    · exact h
    · rw [mem_singleton.mp h, hgap] at hkind
      cases hkind
  have hstands : x ∈ standingSeals chain :=
    mem_standingSeals.mpr ⟨hold, hkind, fun g hg => hnone g (mem_append_left _ hg)⟩
  rw [hstanding, mem_singleton] at hstands
  have hnot := hnone gap (by simp)
  rw [hstands, hinvalidates] at hnot
  cases hnot

variable {r : Receipt} {receipts' : List Receipt} {p : ProductionPayload}

theorem SealsCover.append (h : SealsCover receipts) (hr : Placed host receipts r)
    (hprepare : r.kind = .prepare → standingSeals (chainOf receipts r) = []) :
    SealsCover (receipts ++ [r]) := by
  intro repository admissionId before s after heq hkind hnone
  rw [receiptsOf_append] at heq hnone
  by_cases hb : r.belongs repository admissionId = true
  · obtain ⟨-, rfl, rfl⟩ := mem_receiptsOf.mp (show r ∈ receiptsOf [r] repository admissionId by
      simp [receiptsOf, hb])
    rw [if_pos hb] at heq hnone
    rcases eq_nil_or_concat after with rfl | ⟨rest, last, rfl⟩
    · -- the seal is the new receipt
      obtain ⟨hbefore, hs⟩ := append_inj' heq rfl
      obtain rfl : r = s := singleton_inj.mp hs
      refine ⟨?_, fun x hx => absurd hx not_mem_nil⟩
      rw [← hbefore]
      exact hr.sealed hkind
    · have hsplit : chainOf receipts r ++ [r] = (before ++ s :: rest) ++ [last] := by
        rw [heq]
        simp
      obtain ⟨hchain, hlast⟩ := append_inj' hsplit rfl
      obtain rfl : r = last := singleton_inj.mp hlast
      have hold : ∀ g ∈ chainOf receipts r, invalidates g s.evidenceId = false :=
        fun g hg => hnone g (mem_append_left _ hg)
      obtain ⟨hsettled, hafter⟩ := h _ _ before s rest hchain hkind hold
      refine ⟨hsettled, fun x hx => ?_⟩
      rw [concat_eq_append] at hx
      rcases mem_append.mp hx with hx | hx
      · exact hafter x hx
      · rw [mem_singleton.mp hx]
        intro hprep
        have hstands : s ∈ standingSeals (chainOf receipts r) :=
          mem_standingSeals.mpr ⟨by rw [hchain]; simp, hkind, hold⟩
        rw [hprepare hprep] at hstands
        exact absurd hstands not_mem_nil
  · rw [if_neg hb, append_nil] at heq hnone
    exact h _ _ before s after heq hkind hnone

theorem Added.fresh (h : Added host receipts p r receipts') {x : Receipt} (hx : x ∈ receipts) :
    x.idempotencyKey ≠ idempotency host p := by
  cases h with
  | one _ hr hseal hplaced =>
    rw [hr] at hplaced
    exact (hplaced.fresh x hx).2
  | behindGap s gap _ hkind hs hgap hr hgapPlaced hplaced =>
    rw [hr] at hplaced
    exact (hplaced.fresh x (mem_append_left _ hx)).2

theorem Added.sealsCover (h : Added host receipts p r receipts') (hcover : SealsCover receipts)
    (hone : p.evidenceKind = .prepare → (standingSeals (chainFor receipts p)).length ≤ 1) :
    SealsCover receipts' := by
  cases h with
  | one _ hr hseal hplaced =>
    refine hcover.append hplaced ?_
    rw [hr]
    exact hseal
  | behindGap s gap _ hkind hs hgap hr hgapPlaced hplaced =>
    have hgapKind : gap.kind = .gap := by
      rw [hgap]
      rfl
    have hstanding : standingSeals (chainFor receipts p) = [s] := by
      have hlength := hone hkind
      cases hlist : standingSeals (chainFor receipts p) with
      | nil =>
        rw [hlist] at hs
        cases hs
      | cons x xs =>
        rw [hlist, length_cons] at hlength
        have hnil : xs = [] := length_eq_zero_iff.mp (by omega)
        rw [hlist, hnil, getLast?_singleton] at hs
        rw [hnil, Option.some.inj hs]
    have hgapCover : SealsCover (receipts ++ [gap]) :=
      hcover.append hgapPlaced fun hprepare => by
        rw [hgapKind] at hprepare
        cases hprepare
    refine hgapCover.append hplaced fun _ => ?_
    have hchain : chainOf (receipts ++ [gap]) r = chainFor receipts p ++ [gap] := by
      rw [hr, hgap]
      exact chainOf_append_self receipts (receiptAt host (invalidation p s) p.expectedHead)
    rw [hchain]
    refine standingSeals_behind hstanding hgapKind ?_
    rw [hgap]
    simp [invalidates, receiptAt, invalidation, Facts.get, Dict.get?]

theorem standingSeals_nodup (h : Sequential chain) : (standingSeals chain).Nodup := by
  have hdistinct : chain.Nodup := h.pairwise.imp fun {a b} hab heq => by
    rw [heq] at hab
    omega
  exact (perm_insertionSort _ _).nodup_iff.mpr (hdistinct.filter _)

/-- Of two standing seals, one is not the seal `s`. -/
theorem exists_other_standing (h : Sequential chain) (htwo : 1 < (standingSeals chain).length)
    (s : Receipt) : ∃ x ∈ standingSeals chain, x ≠ s := by
  by_contra hnone
  have hall : ∀ x ∈ standingSeals chain, x = s := by
    intro x hx
    by_contra hne
    exact hnone ⟨x, hx, hne⟩
  have hnodup := standingSeals_nodup h
  rw [eq_replicate_of_mem hall, nodup_replicate] at hnodup
  omega

theorem Added.not_sealsCover (h : Added host receipts p r receipts')
    (hall : WellPlaced host receipts) (hkind : p.evidenceKind = .prepare)
    (hphase : p.operationPhase = p.evidenceKind.phase)
    (htwo : 1 < (standingSeals (chainFor receipts p)).length) : ¬ SealsCover receipts' := by
  cases h with
  | one _ hr hseal hplaced =>
    rw [hseal hkind] at htwo
    exact absurd htwo (by simp)
  | behindGap s gap _ _ hs hgap hr hgapPlaced hplaced =>
    -- the gap invalidates `s`, so another seal still stands
    obtain ⟨other, hother, hne⟩ := exists_other_standing (hall.sequential _ _) htwo s
    obtain ⟨hmem, hseal, hnone⟩ := mem_standingSeals.mp hother
    have hsmem : s ∈ chainFor receipts p := (mem_standingSeals.mp (mem_of_getLast? hs)).1
    have hids : other.evidenceId ≠ s.evidenceId := fun heq =>
      hne (hall.key_unique (mem_receiptsOf.mp hmem).1 (mem_receiptsOf.mp hsmem).1 (.inr heq))
    have hgapOther : invalidates gap other.evidenceId = false := by
      rw [hgap]
      simp [invalidates, receiptAt, invalidation, Facts.get, Dict.get?, Ne.symm hids]
    have hprepare : invalidates r other.evidenceId = false := by
      rw [hr]
      simp [invalidates, receiptAt, hphase, hkind, ReceiptKind.phase]
    have hchain : receiptsOf (receipts ++ [gap] ++ [r]) p.binding.identity.repository
        p.admissionId = chainFor receipts p ++ [gap] ++ [r] := by
      have hg : chainOf (receipts ++ [gap]) r = chainFor receipts p ++ [gap] := by
        rw [hr, hgap]
        exact chainOf_append_self receipts (receiptAt host (invalidation p s) p.expectedHead)
      rw [← hg, hr]
      exact chainOf_append_self (receipts ++ [gap]) (receiptAt host p gap.head)
    obtain ⟨before, after, hsplit⟩ := append_of_mem hmem
    have hsplit' : chainFor receipts p ++ [gap] ++ [r] =
        before ++ other :: (after ++ [gap] ++ [r]) := by
      rw [show chainFor receipts p = before ++ other :: after from hsplit]
      simp
    intro hcover
    have hcovered := (hcover _ _ before other _ (hchain.trans hsplit') hseal ?_).2 r (by simp)
    · rw [hr] at hcovered
      exact hcovered hkind
    · rw [hchain]
      intro g hg
      simp only [mem_append, mem_singleton] at hg
      rcases hg with (hg | rfl) | rfl
      · exact hnone g hg
      · exact hgapOther
      · exact hprepare

theorem sealsCover_next {s : Ledger laneIdOf}
    (hinv : LedgerInv host laneIdOf s.contracts s.receipts) (hcover : SealsCover s.receipts)
    {call : LedgerCall laneIdOf} (hone : MeetsOneSeal host laneIdOf s call) :
    SealsCover ((ledgerMachine host laneIdOf).next s call).receipts := by
  rcases ledgerMachine_receipts hinv call with
    hsame | ⟨kind, request, p, r, rfl, hp, -, -, hcheck, hadded⟩
  · rw [hsame]
    exact hcover
  · exact hadded.sealsCover hcover fun hkind => hone p hp hkind (fun _ hx => hadded.fresh hx) hcheck

theorem SealsCover.nil : SealsCover [] := by
  intro repository admissionId before s after heq
  simp [receiptsOf] at heq

/-- A standing seal covers everything, in every run in which no prepare is appended while two seals
of its admission stand; and a prepare that is appended while two stand leaves a standing seal that
does not cover it. -/
theorem seals_cover (host : ProductionHost) (laneIdOf : Int → String)
    (calls : List (LedgerCall laneIdOf)) :
    ((ledgerMachine host laneIdOf).Along (MeetsOneSeal host laneIdOf) {} calls →
      SealsCover ((ledgerMachine host laneIdOf).run {} calls).receipts) ∧
    ∀ request r s, s = (ledgerMachine host laneIdOf).run {} calls →
      (ledgerMachine host laneIdOf).answer s (.append .prepare request) = some (.ok r) →
      ((ledgerMachine host laneIdOf).next s (.append .prepare request)).receipts ≠ s.receipts →
      ¬ MeetsOneSeal host laneIdOf s (.append .prepare request) →
      ¬ SealsCover ((ledgerMachine host laneIdOf).next s (.append .prepare request)).receipts := by
  constructor
  · intro h
    have hboth : LedgerInv host laneIdOf ((ledgerMachine host laneIdOf).run {} calls).contracts
          ((ledgerMachine host laneIdOf).run {} calls).receipts ∧
        SealsCover ((ledgerMachine host laneIdOf).run {} calls).receipts :=
      h.invariant (Q := fun s : Ledger laneIdOf =>
          LedgerInv host laneIdOf s.contracts s.receipts ∧ SealsCover s.receipts)
        (fun _ call hs hone => ⟨hs.1.next call, sealsCover_next hs.1 hs.2 hone⟩)
        ⟨.init, .nil⟩
    exact hboth.2
  · intro request r s hs hanswer hmoved hnot
    have hinv : LedgerInv host laneIdOf s.contracts s.receipts := by
      rw [hs]
      exact ledgerInv_run host calls
    obtain ⟨p, hp, -, ⟨hsame, -⟩ | ⟨hcheck, hadded⟩⟩ := ledgerMachine_append hinv hanswer
    · exact absurd hsame hmoved
    · obtain ⟨hkind, hphase, -⟩ := prepared_spec hp
      refine hadded.not_sealsCover hinv.placed hkind (by rw [hphase, hkind]) ?_
      by_contra hle
      refine hnot fun p' hp' _ _ _ => ?_
      obtain rfl : p = p' := Except.ok.inj (hp.symm.trans hp')
      omega

/-- Two seals of one admission under different policies, and a prepare. -/
def twoSealCalls : List (LedgerCall fun _ => "l") :=
  exampleCalls ++ [
    .append .admission exampleAdmission,
    .append .seal (exampleAppend "s1" ⟨1, some "rootadmission1"⟩
      [("coverage_policy_digest", .str "p1")]),
    .append .seal (exampleAppend "s2" ⟨2, some "s1seal2"⟩
      [("coverage_policy_digest", .str "p2")]),
    .append .prepare (exampleAppend "op" ⟨3, some "s2seal3"⟩ [])]

/-- The chain of the two seals. -/
def twoSealChain : List Receipt :=
  receiptsOf ((ledgerMachine plainHost fun _ => "l").run {} twoSealCalls).receipts "repo" "a"

theorem twoSealChain_length : twoSealChain.length = 5 := by decide +kernel

/-- The prepare invalidates the second seal and leaves the first, which it follows. -/
theorem first_seal_stands :
    ¬ ∀ (host : ProductionHost) (laneIdOf : Int → String) (calls : List (LedgerCall laneIdOf)),
      SealsCover ((ledgerMachine host laneIdOf).run {} calls).receipts := by
  intro h
  have hchain : twoSealChain = twoSealChain.take 1 ++
      twoSealChain.get ⟨1, by rw [twoSealChain_length]; omega⟩ :: twoSealChain.drop 2 := by
    decide +kernel
  have hcover := h plainHost (fun _ => "l") twoSealCalls "repo" "a" _ _ _ hchain
    (by decide +kernel) (by decide +kernel)
  have hprepare : (twoSealChain.drop 2).any (fun x => x.kind = .prepare) = true := by
    decide +kernel
  obtain ⟨x, hx, hkind⟩ := any_eq_true.mp hprepare
  exact hcover.2 x hx (of_decide_eq_true hkind)

end Workbay.Completion

import Workbay.Review.Proofs.HistoryProofs

/-!
# Proofs: the review budget
-/

namespace Workbay.Review

open List

namespace LedgerData

/-- The number of imported rows of a subject. -/
def importedRows (data : LedgerData) (s : String) (kind : Kind) : Nat :=
  (data.subjectRows s).countP fun row => row.legacySource.isSome && row.kind = kind

/-- The number of operator grants that rows of a subject have consumed. -/
def grants (data : LedgerData) (s : String) (kind : Kind) : Nat :=
  (data.subjectRows s).countP fun row => row.operatorApproval.isSome && row.kind = kind

end LedgerData

/-- The budget of every subject and kind is kept, and every grant is consumed once, for the round
that it names. -/
structure Budget (L : ReviewCycleLedger) (data : LedgerData) : Prop where
  bound : ∀ s kind, data.chargedRows L.os s kind ≤
    max (L.policy.threshold kind) (data.importedRows s kind) + data.grants s kind
  once : data.consumed.Nodup
  exact : ∀ row ∈ data.values, ∀ approval, row.operatorApproval = some approval →
    approval.subjectBranch = row.subjectBranch ∧ approval.kind = row.kind ∧
      approval.round = row.round

section

variable {L : ReviewCycleLedger} {data data' : LedgerData}

variable {id : String} {row : Row}

/-- The grants and rounds of a ledger in which one row is set. -/
theorem exact_of_set
    (h : ∀ row ∈ data.values, ∀ approval, row.operatorApproval = some approval →
      approval.subjectBranch = row.subjectBranch ∧ approval.kind = row.kind ∧
        approval.round = row.round) (hrows : data'.rows = data.rows.set id row)
    (hrow : ∀ approval, row.operatorApproval = some approval →
      approval.subjectBranch = row.subjectBranch ∧ approval.kind = row.kind ∧
        approval.round = row.round) :
    ∀ row ∈ data'.values, ∀ approval, row.operatorApproval = some approval →
      approval.subjectBranch = row.subjectBranch ∧ approval.kind = row.kind ∧
        approval.round = row.round := by
  intro other hother
  unfold LedgerData.values at hother
  rw [hrows] at hother
  rcases mem_values_set hother with rfl | hmem
  · exact hrow
  · exact h other hmem

theorem Budget.issue (h : Budget L data) (hi : Issued L data row) : Budget L (data.issued row) := by
  have hvalues : (data.issued row).values = data.values ++ [row] :=
    LedgerData.values_of_new hi.absent row
  refine ⟨fun s kind => ?_, ?_, exact_of_set h.exact rfl fun approval ha => ?_⟩
  · have hb := h.bound s kind
    have hrows : (data.issued row).subjectRows s =
        data.subjectRows s ++ if row.subjectBranch = s then [row] else [] := by
      unfold LedgerData.subjectRows
      rw [hvalues, filter_append]
      by_cases hs : row.subjectBranch = s <;> simp [hs]
    have hclass : (data.issued row).isCharged L.os kind = data.isCharged L.os kind :=
      isCharged_congr rfl kind
    unfold LedgerData.chargedRows LedgerData.importedRows LedgerData.grants at hb ⊢
    rw [hrows, hclass]
    by_cases hs : row.subjectBranch = s
    · subst hs
      simp only [if_true, countP_append, countP_singleton, hi.legacySource,
        Option.isSome_none, Bool.false_and, Bool.false_eq_true, if_false, Nat.add_zero]
      by_cases hcharged : data.isCharged L.os kind row = true
      · rw [if_pos hcharged]
        simp only [LedgerData.isCharged, Bool.and_eq_true, decide_eq_true_eq] at hcharged
        obtain ⟨⟨rfl, hreserved⟩, -⟩ := hcharged
        cases hgrant : row.operatorApproval with
        | none =>
          -- a round within the allowance
          have hallowed := hi.allowed hreserved hgrant
          rw [hi.round] at hallowed
          unfold LedgerData.chargedRows at hallowed
          simp only [Option.isSome_none, Bool.false_and, Bool.false_eq_true, if_false]
          omega
        | some approval =>
          simp only [Option.isSome_some, Bool.true_and, decide_true, if_true]
          omega
      · rw [if_neg hcharged]
        omega
    · simp only [if_neg hs, append_nil]
      exact hb
  · unfold LedgerData.consumed
    rw [hvalues, filterMap_append, nodup_append]
    refine ⟨h.once, ?_, ?_⟩
    · cases hgrant : row.operatorApproval <;> simp [hgrant]
    · intro approvalId hold approvalId' hnew
      cases hgrant : row.operatorApproval with
      | none => simp [hgrant] at hnew
      | some approval =>
        obtain ⟨-, hunused, -⟩ := hi.granted approval hgrant
        simp only [filterMap_cons, hgrant, Option.map_some, filterMap_nil,
          mem_singleton] at hnew
        rintro rfl
        exact hunused (hnew ▸ hold)
  · exact (hi.granted approval ha).2.2

theorem Budget.settled (h : Budget L data) {row' : Row}
    (hrows : data'.rows = data.rows.set id row') (hc : data'.corrections = data.corrections)
    (found : data.rows.get? id = some row)
    (hsame : row'.subjectBranch = row.subjectBranch ∧ row'.kind = row.kind ∧
      row'.round = row.round ∧ row'.legacySource = row.legacySource ∧
      row'.operatorApproval = row.operatorApproval)
    (hcharged : ∀ kind, data.isCharged L.os kind row' = true → data.isCharged L.os kind row = true) :
    Budget L data' := by
  obtain ⟨hsubject, hkind, hround, hlegacy, hgrant⟩ := hsame
  have hcount : ∀ (s : String) (p : Row → Bool), (p row' = true → p row = true) →
      (data'.subjectRows s).countP p ≤ (data.subjectRows s).countP p := by
    intro s p hp
    rw [LedgerData.countP_subjectRows, LedgerData.countP_subjectRows]
    unfold LedgerData.values
    rw [hrows]
    have hset := Dict.countP_set found row' fun other => p other && decide (other.subjectBranch = s)
    have hle : (if (p row' && decide (row'.subjectBranch = s)) = true then 1 else 0) ≤
        if (p row && decide (row.subjectBranch = s)) = true then 1 else 0 := by
      rw [hsubject]
      by_cases hp' : (p row' && decide (row.subjectBranch = s)) = true
      · have hpold : (p row && decide (row.subjectBranch = s)) = true := by
          rw [Bool.and_eq_true] at hp' ⊢
          exact ⟨hp hp'.1, hp'.2⟩
        simp [hp', hpold]
      · simp [hp']
    omega
  have heq : ∀ (s : String) (p : Row → Bool), p row' = p row →
      (data'.subjectRows s).countP p = (data.subjectRows s).countP p := by
    intro s p hp
    rw [LedgerData.countP_subjectRows, LedgerData.countP_subjectRows]
    unfold LedgerData.values
    rw [hrows]
    apply Dict.countP_set_of_same
    · intro old hold
      rw [found] at hold
      obtain rfl := Option.some.inj hold
      rw [hp, hsubject]
    · simp [found]
  refine ⟨fun s kind => ?_, ?_, exact_of_set h.exact hrows fun approval ha => ?_⟩
  · have hb := h.bound s kind
    have hle : data'.chargedRows L.os s kind ≤ data.chargedRows L.os s kind := by
      unfold LedgerData.chargedRows
      rw [isCharged_congr hc]
      exact hcount s _ (hcharged kind)
    have himported : data'.importedRows s kind = data.importedRows s kind :=
      heq s _ (by rw [hlegacy, hkind])
    have hgrants : data'.grants s kind = data.grants s kind :=
      heq s _ (by rw [hgrant, hkind])
    rw [himported, hgrants]
    exact hle.trans hb
  · unfold LedgerData.consumed LedgerData.values
    rw [hrows, Dict.filterMap_set_of_same]
    · exact h.once
    · intro old hold
      rw [found] at hold
      obtain rfl := Option.some.inj hold
      rw [hgrant]
    · simp [found]
  · rw [hsubject, hkind, hround]
    rw [hgrant] at ha
    have hmem : row ∈ data.values := mem_map.mpr ⟨_, Dict.mem_of_get? found, rfl⟩
    exact h.exact row hmem approval ha

theorem Consistent.charged_of_waiting (hc : Consistent L data)
    (found : data.rows.get? id = some row) (reserved : row.decision = .reserved)
    (waiting : row.completion = none) : data.isCharged L.os row.kind row = true := by
  have hok := hc.row id row found
  have hno : ∀ event ∈ data.corrections, event.dispatchId ≠ row.dispatchId :=
    hok.dispatchId ▸ hc.not_corrected found waiting
  unfold LedgerData.isCharged
  rw [effectiveOutcomeClass_of_forall_ne hno, (hok.waiting waiting).1]
  simp [reserved]

theorem Budget.correct (h : Budget L data) (hc : Consistent L data) {reason : String}
    (heligible : correctionEligibility L.os data id = ⟨.eligible, reason, some (.row row)⟩)
    (observation : Json) (ledgerSha256 recordedAt : String) :
    Budget L (appendCorrection L.os data (correctionEvent L.os data row observation
      (L.os.observationDigest observation) ledgerSha256 correctionProducer recordedAt id) id
      row.subjectBranch) := by
  have he := eligible_spec heligible
  have hid := (hc.row id row he.found).dispatchId
  set event := correctionEvent L.os data row observation (L.os.observationDigest observation)
    ledgerSha256 correctionProducer recordedAt id with hevent
  refine ⟨fun s kind => ?_, h.once, h.exact⟩
  have hle : (appendCorrection L.os data event id row.subjectBranch).chargedRows L.os s kind ≤
      data.chargedRows L.os s kind := by
    apply countP_mono_left
    intro other hother hcharged
    simp only [LedgerData.isCharged, Bool.and_eq_true, decide_eq_true_eq] at hcharged ⊢
    refine ⟨hcharged.1, ?_⟩
    have hclass := hcharged.2
    rw [effectiveOutcomeClass_append rfl he.uncorrected] at hclass
    split at hclass
    · -- the corrected row itself is an infrastructure stop now
      rename_i heq
      have hsame : other = row := by
        have hmem := hc.mem_values.mp (LedgerData.mem_subjectRows.mp hother).1
        rw [heq] at hmem
        exact Option.some.inj (hmem.symm.trans he.found)
      rw [hsame, validCorrection_event hid he.kind he.verdict] at hclass
      exact absurd rfl hclass
    · exact hclass
  exact hle.trans (h.bound s kind)

theorem Budget.importSources (h : Budget L data) (hc : Consistent L data) {s : String}
    {records : List LegacyRecord} (hs : s ≠ "") (hv : ∀ record ∈ records, Verified record)
    (new : data.subjectRows s = [])
    (ids : ∀ record ∈ records, data.rows.get? record.dispatchId = none) :
    Budget L (importRecords L.os s records 1 (data.touchSubject s)) := by
  have hi := importRecords_spec hc hs hv new ids
  have hc' := hc.importRecords hs hv ids
  set data' := importRecords L.os s records 1 (data.touchSubject s)
  refine ⟨fun s' kind => ?_, hi.consumed ▸ h.once, fun row hrow approval ha => ?_⟩
  · by_cases hs' : s' = s
    · subst hs'
      have hle : data'.chargedRows L.os s' kind ≤ data'.importedRows s' kind := by
        apply countP_mono_left
        intro row hrow hcharged
        simp only [LedgerData.isCharged, Bool.and_eq_true, decide_eq_true_eq] at hcharged
        simp [hi.legacy row hrow, hcharged.1.1]
      omega
    · have hb := h.bound s' kind
      unfold LedgerData.chargedRows LedgerData.importedRows LedgerData.grants at hb ⊢
      rw [hi.others s' hs', isCharged_congr hi.corrections]
      exact hb
  · by_cases hrs : row.subjectBranch = s
    · have hlegacy := hi.legacy row (LedgerData.mem_subjectRows.mpr ⟨hrow, hrs⟩)
      have hnone := ((hc'.row _ row (hc'.mem_values.mp hrow)).imported hlegacy).2.2.2.2.1
      simp [hnone] at ha
    · have hmem : row ∈ data'.subjectRows row.subjectBranch :=
        LedgerData.mem_subjectRows.mpr ⟨hrow, rfl⟩
      rw [hi.others _ hrs] at hmem
      exact h.exact row (LedgerData.mem_subjectRows.mp hmem).1 approval ha

theorem Budget.move (h : Budget L data) (hc : Consistent L data) (hm : Move L data data') :
    Budget L data' := by
  cases hm with
  | issue issued => exact h.issue issued
  | @settle id row classification found reserved waiting final completion =>
    obtain ⟨state, status, -, hdata, -⟩ := complete_spec (L := L) completion classification
      (hc.row id row found).dispatchId (hc.not_corrected found waiting)
    rw [hdata]
    refine h.settled rfl rfl found ⟨rfl, rfl, rfl, rfl, rfl⟩ fun kind hcharged => ?_
    simp only [LedgerData.isCharged, Bool.and_eq_true, decide_eq_true_eq] at hcharged
    obtain rfl : row.kind = kind := hcharged.1.1
    exact hc.charged_of_waiting found reserved waiting
  | @settleUnjudged id row found gate reserved waiting completion =>
    rw [completeUnjudged_fst]
    refine h.settled rfl rfl found ⟨rfl, rfl, rfl, rfl, rfl⟩ fun kind hcharged => ?_
    simp only [LedgerData.isCharged, Bool.and_eq_true, decide_eq_true_eq] at hcharged
    obtain rfl : row.kind = kind := hcharged.1.1
    exact hc.charged_of_waiting found reserved waiting
  | correct eligible observation ledgerSha256 recordedAt =>
    exact h.correct hc eligible observation ledgerSha256 recordedAt
  | importSources named verified new ids nonces =>
    exact h.importSources hc named (legacyRecords_spec verified).2.1 new ids

end

/-- In every reachable ledger, for every subject and kind, the rows that are charged are at most the
allowance, or what was imported, and the grants that were consumed; and every grant is consumed by
one row at most, of the subject, kind and round that it names. -/
theorem review_budget {L : ReviewCycleLedger} {data : LedgerData} (h : L.Reachable data) :
    (∀ s kind, data.chargedRows L.os s kind ≤
      max (L.policy.threshold kind) (data.importedRows s kind) + data.grants s kind) ∧
    data.consumed.Nodup ∧
    ∀ row ∈ data.values, ∀ approval, row.operatorApproval = some approval →
      approval.subjectBranch = row.subjectBranch ∧ approval.kind = row.kind ∧
        approval.round = row.round := by
  have hbudget : Budget L data := by
    refine (reachable_invariant h (fun now => ?_) fun data data' hc hb hm => hb.move hc hm).2
    refine ⟨fun s kind => ?_, ?_, fun row hrow => ?_⟩
    · exact Nat.zero_le _
    · exact nodup_nil
    · simp [LedgerData.values, ReviewCycleLedger.fresh] at hrow
  exact ⟨hbudget.bound, hbudget.once, hbudget.exact⟩

/-- One source is charged, without a grant. -/
theorem review_budget_one_source :
    (plainRun oneSource).chargedRows plainLedger.os "b" .implement = 1 ∧
      (plainRun oneSource).chargedRows plainLedger.os "b" .implement ≤
        max (plainLedger.policy.threshold .implement)
          ((plainRun oneSource).importedRows "b" .implement) +
          (plainRun oneSource).grants "b" .implement := by
  refine ⟨by decide +kernel, ?_⟩
  have hreachable : plainLedger.Reachable (plainRun oneSource) := plainRun_reachable _
  exact (review_budget hreachable).1 "b" .implement

end Workbay.Review

import Workbay.Review.Proofs.MoveProofs

/-!
# Proofs: every ledger that the calls write is consistent

Rows, subjects, issuance and corrections agree with each other in every reachable ledger, and
`decode` accepts it as it is.
-/

namespace Workbay.Review

open List Dict

/-- A row agrees with the ledger that it is in. -/
structure RowOk (data : LedgerData) (id : String) (row : Row) : Prop where
  dispatchId : row.dispatchId = id
  named : row.dispatchId ≠ "" ∧ row.subjectBranch ≠ ""
  known : (data.subjects.get? row.subjectBranch).isSome
  issued : row.legacySource = none → ∃ value count, row.issuedSequence = some value ∧
    data.issuanceSequence = some count ∧ 0 < value ∧ value ≤ count
  imported : row.legacySource.isSome → row.issuedSequence = none ∧ row.kind = .implement ∧
    row.outcomeClass = .verdict ∧ row.completion.isSome ∧ row.operatorApproval = none ∧
    row.proposal = none
  waiting : row.completion = none → row.outcomeClass = .pending ∧ row.settledSequence = none
  settled : row.completion.isSome → row.decision = .reserved ∧ row.outcomeClass ≠ .pending ∧
    row.settlementStatus.isSome ∧
    ∃ n, row.settledSequence = some n ∧ n ≤ data.sequence

/-- A ledger agrees with itself. -/
structure Consistent (L : ReviewCycleLedger) (data : LedgerData) : Prop where
  version : data.version = 1
  policy : data.policy = L.policy.binding
  activatedAt : data.activatedAt ≠ ""
  nodup : (data.rows.map Prod.fst).Nodup
  row : ∀ id row, data.rows.get? id = some row → RowOk data id row
  issuance : (data.values.filterMap Row.issuedSequence).Nodup
  fixes : ∀ s state, data.subjects.get? s = some state →
    state.fixes = data.subjectFixes L.os s
  single : (data.corrections.map Correction.dispatchId).Nodup
  corrections : ∀ event ∈ data.corrections, ∃ row, data.rows.get? event.dispatchId = some row ∧
    validCorrection L.os event row = true ∧ row.completion.isSome

section

variable {L : ReviewCycleLedger} {data data' : LedgerData}

variable {row : Row} {reason : String}

theorem Consistent.mem_values (h : Consistent L data) :
    row ∈ data.values ↔ data.rows.get? row.dispatchId = some row := by
  unfold LedgerData.values
  rw [Dict.mem_values h.nodup]
  constructor
  · rintro ⟨id, hid⟩
    rwa [(h.row id row hid).dispatchId]
  · exact fun hid => ⟨_, hid⟩

variable {s : String}

theorem Consistent.subjectRows_of_unknown (h : Consistent L data)
    (hs : data.subjects.get? s = none) : data.subjectRows s = [] := by
  rw [eq_nil_iff_forall_not_mem]
  intro row hrow
  obtain ⟨hmem, rfl⟩ := LedgerData.mem_subjectRows.mp hrow
  have hknown := (h.row _ row (h.mem_values.mp hmem)).known
  simp [hs] at hknown

theorem Consistent.subject_fixes (h : Consistent L data) (s : String) :
    (data.subject s).fixes = data.subjectFixes L.os s := by
  cases hs : data.subjects.get? s with
  | some state => rw [LedgerData.subject_eq hs, h.fixes s state hs]
  | none =>
    have hrows := h.subjectRows_of_unknown hs
    have hzero : data.subjectFixes L.os s = 0 := by
      unfold LedgerData.subjectFixes
      rw [countP_eq_zero]
      intro row hrow hfix
      have hmem : row ∈ data.subjectRows s := by
        rw [LedgerData.mem_subjectRows]
        refine ⟨hrow, ?_⟩
        simp only [LedgerData.isFix, Bool.and_eq_true, decide_eq_true_eq] at hfix
        exact hfix.1.1.1.1
      simp [hrows] at hmem
    rw [hzero]
    simp [LedgerData.subject, hs]

theorem Consistent.not_corrected (h : Consistent L data) {id : String}
    (hrow : data.rows.get? id = some row) (hwait : row.completion = none) :
    ∀ event ∈ data.corrections, event.dispatchId ≠ id := by
  rintro event he rfl
  obtain ⟨row', hrow', -, hdone⟩ := h.corrections event he
  rw [hrow] at hrow'
  obtain rfl := Option.some.inj hrow'
  simp [hwait] at hdone

theorem Consistent.not_corrected_of_absent (h : Consistent L data) {id : String}
    (hrow : data.rows.get? id = none) : ∀ event ∈ data.corrections, event.dispatchId ≠ id := by
  rintro event he rfl
  obtain ⟨row, hrow', -⟩ := h.corrections event he
  simp [hrow] at hrow'

theorem subjectFixes_set (id : String) (row : Row) (hrows : data'.rows = data.rows.set id row)
    (hc : data'.corrections = data.corrections)
    (hsome : ∀ old, data.rows.get? id = some old →
      data.isFix L.os s row = data.isFix L.os s old)
    (hnone : data.rows.get? id = none → data.isFix L.os s row = false) :
    data'.subjectFixes L.os s = data.subjectFixes L.os s := by
  unfold LedgerData.subjectFixes LedgerData.values
  rw [hrows, isFix_congr hc]
  exact countP_set_of_same hsome hnone

theorem isFix_of_ne (h : row.subjectBranch ≠ s) : data.isFix L.os s row = false := by
  simp [LedgerData.isFix, h]

theorem isFix_of_waiting (h : row.completion = none) : data.isFix L.os s row = false := by
  simp [LedgerData.isFix, h]

theorem isFix_of_kind (h : row.kind ≠ .implement) : data.isFix L.os s row = false := by
  simp [LedgerData.isFix, h]

theorem isFix_of_not_corrected (h : ∀ event ∈ data.corrections, event.dispatchId ≠ row.dispatchId) :
    data.isFix L.os s row = (row.subjectBranch = s && row.kind = .implement
      && row.decision = .reserved && row.completion.isSome && row.outcomeClass = .verdict) := by
  unfold LedgerData.isFix
  rw [effectiveOutcomeClass_of_forall_ne h]

theorem Consistent.of_set (h : Consistent L data) (id : String) (state : SubjectState)
    (hrows : data'.rows = data.rows.set id row)
    (hsubjects : data'.subjects = data.subjects.set row.subjectBranch state)
    (hcorrections : data'.corrections = data.corrections) (hversion : data'.version = data.version)
    (hpolicy : data'.policy = data.policy) (hactivated : data'.activatedAt = data.activatedAt)
    (hsequence : data.sequence ≤ data'.sequence)
    (hcounter : ∀ count, data.issuanceSequence = some count →
      ∃ count', data'.issuanceSequence = some count' ∧ count ≤ count')
    (hold : ∀ old, data.rows.get? id = some old →
      old.subjectBranch = row.subjectBranch ∧ ∀ event ∈ data.corrections, event.dispatchId ≠ id)
    (hissuance : (data'.values.filterMap Row.issuedSequence).Nodup) (hrow : RowOk data' id row)
    (hfixes : state.fixes = data'.subjectFixes L.os row.subjectBranch) : Consistent L data' where
  version := by rw [hversion, h.version]
  policy := by rw [hpolicy, h.policy]
  activatedAt := by rw [hactivated]; exact h.activatedAt
  nodup := by rw [hrows]; exact nodup_set h.nodup _ _
  row id' row' hget := by
    rw [hrows, get?_set] at hget
    by_cases hid : id' = id
    · rw [if_pos hid, Option.some.injEq] at hget
      subst hget hid
      exact hrow
    · rw [if_neg hid] at hget
      have hok := h.row id' row' hget
      refine ⟨hok.dispatchId, hok.named, ?_, ?_, hok.imported, hok.waiting, ?_⟩
      · rw [hsubjects, get?_set]
        split
        · rfl
        · exact hok.known
      · intro hl
        obtain ⟨value, count, hv, hc, hpos, hle⟩ := hok.issued hl
        obtain ⟨count', hc', hle'⟩ := hcounter count hc
        exact ⟨value, count', hv, hc', hpos, hle.trans hle'⟩
      · intro hdone
        obtain ⟨hr, hp, hs, n, hn, hle⟩ := hok.settled hdone
        exact ⟨hr, hp, hs, n, hn, hle.trans hsequence⟩
  issuance := hissuance
  fixes s state' hget := by
    rw [hsubjects, get?_set] at hget
    by_cases hs : s = row.subjectBranch
    · rw [if_pos hs, Option.some.injEq] at hget
      subst hget
      rw [hs]
      exact hfixes
    · rw [if_neg hs] at hget
      rw [h.fixes s state' hget]
      symm
      apply subjectFixes_set id row hrows hcorrections
      · intro old hget'
        rw [isFix_of_ne (Ne.symm hs), isFix_of_ne]
        rw [(hold old hget').1]
        exact Ne.symm hs
      · exact fun _ => isFix_of_ne (Ne.symm hs)
  single := by rw [hcorrections]; exact h.single
  corrections event he := by
    rw [hcorrections] at he
    obtain ⟨row', hrow', hv, hdone⟩ := h.corrections event he
    refine ⟨row', ?_, hv, hdone⟩
    rw [hrows, get?_set_of_ne]
    · exact hrow'
    · rintro rfl
      exact (hold row' hrow').2 event he rfl

/-! ## The moves keep a ledger consistent -/

theorem SubjectState.reserve_fixes (state : SubjectState) (row : Row) :
    (state.reserve row).fixes = state.fixes := rfl

theorem Consistent.issue (h : Consistent L data) (hi : Issued L data row) :
    Consistent L (data.issued row) := by
  have hfixes : (data.issued row).subjectFixes L.os row.subjectBranch =
      data.subjectFixes L.os row.subjectBranch :=
    subjectFixes_set row.dispatchId row rfl rfl
      (fun old hold => by simp [hi.absent] at hold) (fun _ => isFix_of_waiting hi.completion)
  refine h.of_set row.dispatchId _ rfl rfl rfl rfl rfl rfl le_rfl ?_ ?_ ?_ ?_ ?_
  · intro count hcount
    refine ⟨count + 1, ?_, Nat.le_succ count⟩
    change row.issuedSequence = _
    rw [hi.issuedSequence, hcount]
    rfl
  · intro old hold
    simp [hi.absent] at hold
  · change (((data.rows.set row.dispatchId row).map Prod.snd).filterMap _).Nodup
    rw [LedgerData.values_of_new hi.absent, filterMap_append, nodup_append]
    refine ⟨h.issuance, by simp [hi.issuedSequence], ?_⟩
    intro value hvalue value' hvalue'
    obtain ⟨other, hother, hov⟩ := mem_filterMap.mp hvalue
    have hok := h.row _ other (h.mem_values.mp hother)
    have hlegacy : other.legacySource = none := by
      by_contra hl
      have := (hok.imported (Option.isSome_iff_ne_none.mpr hl)).1
      simp [hov] at this
    obtain ⟨v, count, hv, hc, -, hle⟩ := hok.issued hlegacy
    simp only [filterMap_cons, hi.issuedSequence, hc, filterMap_nil,
      mem_singleton] at hvalue'
    obtain rfl : value = v := Option.some.inj (hov.symm.trans hv)
    subst hvalue'
    simp only [Option.getD_some]
    omega
  · refine ⟨rfl, hi.named, ?_, ?_, ?_, ?_, ?_⟩
    · simp [LedgerData.issued]
    · intro _
      exact ⟨_, _, hi.issuedSequence, hi.issuedSequence, Nat.succ_pos _, le_rfl⟩
    · simp [hi.legacySource]
    · exact fun _ => ⟨hi.pending, hi.settledSequence⟩
    · simp [hi.completion]
  · rw [SubjectState.reserve_fixes, hfixes]
    exact h.subject_fixes _

/-- A row after its settlement. -/
def Row.settle (row : Row) (completion : Completion) (classification : PassOutcomeClass)
    (sequence : Nat) (status : Status) : Row :=
  { row with
    completion := some completion
    outcomeClass := classification
    settledSequence := some sequence
    settlementStatus := some status }

/-- The ledger after a settlement. -/
def LedgerData.completed (data : LedgerData) (id : String) (row : Row) (state : SubjectState) :
    LedgerData :=
  { data with
    sequence := data.sequence + 1
    rows := data.rows.set id row
    subjects := data.subjects.set row.subjectBranch state }

theorem SubjectState.settle_fixes (state : SubjectState) (id : String) (kind : Kind)
    (completion : Completion) (classification : PassOutcomeClass) (fixes : Nat) :
    (state.settle id kind completion classification fixes).1.fixes =
      if classification = .verdict ∧ kind = .implement then fixes else state.fixes := by
  cases classification <;> cases kind <;> simp [settle, judgeGate]

theorem complete_spec {id : String} (completion : Completion) (classification : PassOutcomeClass)
    (hid : row.dispatchId = id) (hno : ∀ event ∈ data.corrections, event.dispatchId ≠ id) :
    ∃ state status,
      (data.subject row.subjectBranch).settle id row.kind completion classification
        ((L.complete id row completion classification data).1.subjectFixes L.os
          row.subjectBranch) = (state, status) ∧
      (L.complete id row completion classification data).1 =
        data.completed id
          (row.settle completion classification (data.sequence + 1) status) state ∧
      (L.complete id row completion classification data).2 =
        ⟨status, "", some (.row
          (row.settle completion classification (data.sequence + 1) status))⟩ := by
  -- the fixes are counted before the status of the settlement is known
  set early : LedgerData := ({ data with sequence := data.sequence + 1 }.setRow id
    { row with
      completion := some completion
      outcomeClass := classification
      settledSequence := some (data.sequence + 1) }).touchSubject row.subjectBranch with hearly
  have hsubject : early.subject row.subjectBranch = data.subject row.subjectBranch := by
    rw [hearly, LedgerData.subject_touchSubject]
    rfl
  rcases hs : (data.subject row.subjectBranch).settle id row.kind completion
    classification (early.subjectFixes L.os row.subjectBranch) with ⟨state, status⟩
  have hresult : L.complete id row completion classification data =
      (data.completed id (row.settle completion classification (data.sequence + 1) status) state,
        ⟨status, "", some (.row
          (row.settle completion classification (data.sequence + 1) status))⟩) := by
    unfold ReviewCycleLedger.complete
    simp only [← hearly]
    rw [hsubject, hs]
    simp [hearly, LedgerData.setRow, LedgerData.setSubject, LedgerData.touchSubject,
      LedgerData.completed, Row.settle]
  have hfixes : (data.completed id (row.settle completion classification (data.sequence + 1)
      status) state).subjectFixes L.os row.subjectBranch =
      early.subjectFixes L.os row.subjectBranch := by
    apply subjectFixes_set id (row.settle completion classification (data.sequence + 1) status)
    · simp [hearly, LedgerData.completed, LedgerData.setRow, LedgerData.touchSubject]
    · rfl
    · intro old hold
      obtain rfl : _ = old := by
        simpa [hearly, LedgerData.setRow, LedgerData.touchSubject] using hold
      have hno' : ∀ event ∈ early.corrections, event.dispatchId ≠ row.dispatchId := hid ▸ hno
      rw [isFix_of_not_corrected, isFix_of_not_corrected]
      · rfl
      · exact hno'
      · exact hno'
    · intro hnone
      simp [hearly, LedgerData.setRow, LedgerData.touchSubject] at hnone
  refine ⟨state, status, ?_, by rw [hresult], by rw [hresult]⟩
  rw [hresult, hfixes, hs]

theorem Consistent.settle (h : Consistent L data) {id : String} {classification : PassOutcomeClass}
    (found : data.rows.get? id = some row) (reserved : row.decision = .reserved)
    (waiting : row.completion = none) (final : classification ≠ .pending) (completion : Completion) :
    Consistent L (L.complete id row completion classification data).1 := by
  have hok := h.row id row found
  have hno := h.not_corrected found waiting
  obtain ⟨state, status, hstate, hdata, -⟩ :=
    complete_spec (L := L) completion classification hok.dispatchId hno
  rw [hdata] at hstate ⊢
  have hlegacy : row.legacySource = none := by
    by_contra hl
    have := (hok.imported (Option.isSome_iff_ne_none.mpr hl)).2.2.2.1
    simp [waiting] at this
  refine h.of_set id _ rfl rfl rfl rfl rfl rfl (Nat.le_succ _) ?_ ?_ ?_ ?_ ?_
  · exact fun count hcount => ⟨count, hcount, le_rfl⟩
  · intro old hold
    rw [found] at hold
    obtain rfl := Option.some.inj hold
    exact ⟨rfl, hno⟩
  · change (((data.rows.set id _).map Prod.snd).filterMap _).Nodup
    rw [filterMap_set_of_same]
    · exact h.issuance
    · intro old hold
      rw [found] at hold
      obtain rfl := Option.some.inj hold
      rfl
    · simp [found]
  · refine ⟨hok.dispatchId, hok.named, ?_, hok.issued, ?_, ?_, ?_⟩
    · simp [LedgerData.completed]
    · simp [Row.settle, hlegacy]
    · simp [Row.settle]
    · exact fun _ => ⟨reserved, final, rfl, _, rfl, le_rfl⟩
  · have hfixes := SubjectState.settle_fixes (data.subject row.subjectBranch) id row.kind completion
      classification
      ((data.completed id (row.settle completion classification (data.sequence + 1) status)
        state).subjectFixes L.os row.subjectBranch)
    rw [hstate] at hfixes
    change state.fixes = (data.completed id _ state).subjectFixes L.os row.subjectBranch
    rw [hfixes]
    split
    · rfl
    · -- anything but the verdict of a source leaves the fixes as they were
      rename_i hkind
      rw [h.subject_fixes]
      symm
      refine subjectFixes_set id (row.settle completion classification (data.sequence + 1) status)
        rfl rfl ?_ ?_
      · intro old hold
        rw [found] at hold
        obtain rfl := Option.some.inj hold
        rw [isFix_of_waiting waiting]
        have hno' : ∀ event ∈ data.corrections, event.dispatchId ≠ row.dispatchId :=
          hok.dispatchId ▸ hno
        rw [isFix_of_not_corrected]
        swap
        · exact hno'
        rw [Bool.eq_false_iff]
        intro hfix
        simp only [Bool.and_eq_true, decide_eq_true_eq] at hfix
        exact hkind ⟨hfix.2, hfix.1.1.1.2⟩
      · simp [found]

theorem completeUnjudged_fst (id : String) (row : Row) (completion : Completion)
    (data : LedgerData) : (completeUnjudged id row completion data).1 =
      { data with
        sequence := data.sequence + 1
        rows := data.rows.set id
          (row.settle completion .verdict (data.sequence + 1) .settled) } := rfl

theorem Consistent.settleUnjudged (h : Consistent L data) {id : String}
    (found : data.rows.get? id = some row) (gate : row.kind = .gate)
    (reserved : row.decision = .reserved) (waiting : row.completion = none)
    (completion : Completion) : Consistent L (completeUnjudged id row completion data).1 := by
  have hok := h.row id row found
  have hno := h.not_corrected found waiting
  obtain ⟨state, hstate⟩ := Option.isSome_iff_exists.mp hok.known
  have hlegacy : row.legacySource = none := by
    by_contra hl
    have := (hok.imported (Option.isSome_iff_ne_none.mpr hl)).2.2.2.1
    simp [waiting] at this
  rw [completeUnjudged_fst]
  refine h.of_set id state rfl ?_ rfl rfl rfl rfl (Nat.le_succ _) ?_ ?_ ?_ ?_ ?_
  · exact (set_eq_self hstate).symm
  · exact fun count hcount => ⟨count, hcount, le_rfl⟩
  · intro old hold
    rw [found] at hold
    obtain rfl := Option.some.inj hold
    exact ⟨rfl, hno⟩
  · change (((data.rows.set id _).map Prod.snd).filterMap _).Nodup
    rw [filterMap_set_of_same]
    · exact h.issuance
    · intro old hold
      rw [found] at hold
      obtain rfl := Option.some.inj hold
      rfl
    · simp [found]
  · refine ⟨hok.dispatchId, hok.named, hok.known, hok.issued, ?_, ?_, ?_⟩
    · simp [Row.settle, hlegacy]
    · simp [Row.settle]
    · exact fun _ => ⟨reserved, by simp [Row.settle], rfl, _, rfl, le_rfl⟩
  · rw [h.fixes _ _ hstate]
    symm
    refine subjectFixes_set id (row.settle completion .verdict (data.sequence + 1) .settled)
      rfl rfl ?_ ?_
    · intro old hold
      rw [found] at hold
      obtain rfl := Option.some.inj hold
      rw [isFix_of_waiting waiting, isFix_of_kind]
      simp [Row.settle, gate]
    · simp [found]

/-- What an eligible row is. -/
structure Eligible (L : ReviewCycleLedger) (data : LedgerData) (id : String) (row : Row) :
    Prop where
  found : data.rows.get? id = some row
  uncorrected : ∀ event ∈ data.corrections, event.dispatchId ≠ id
  reserved : row.decision = .reserved
  kind : row.kind = .implement
  native : row.legacySource = none
  completed : row.completion.isSome
  verdict : row.outcomeClass = .verdict
  settled : ∃ sequence, row.settledSequence = some sequence ∧
    ∀ id' other, data.rows.get? id' = some other → id' ≠ id →
      other.subjectBranch = row.subjectBranch → row.dependence other sequence = .independent
  known : (data.subjects.get? row.subjectBranch).isSome
  notTerminal : (data.subject row.subjectBranch).terminal = false
  gate : ∀ gate, (data.subject row.subjectBranch).lastGate = some gate →
    gate.fixes < (data.subject row.subjectBranch).fixes

/-- One check of `correction_eligibility`: an eligible row has passed it. -/
theorem eligible_of_ite {c : Prop} [Decidable c] {refusal rest : LedgerDecision}
    {payload : Option Payload} (h : (if c then refusal else rest) = ⟨.eligible, reason, payload⟩)
    (hrefusal : refusal.status ≠ .eligible) : ¬ c ∧ rest = ⟨.eligible, reason, payload⟩ := by
  by_cases hc : c
  · rw [if_pos hc] at h
    rw [h] at hrefusal
    exact absurd rfl hrefusal
  · rw [if_neg hc] at h
    exact ⟨hc, h⟩

theorem eligible_spec {id : String}
    (h : correctionEligibility L.os data id = ⟨.eligible, reason, some (.row row)⟩) :
    Eligible L data id row := by
  unfold correctionEligibility at h
  cases hfound : data.rows.get? id with
  | none =>
    rw [hfound] at h
    exact absurd (congrArg LedgerDecision.status h) nofun
  | some found =>
    rw [hfound] at h
    obtain ⟨hcorrections, h⟩ := eligible_of_ite h nofun
    obtain ⟨hreserved, h⟩ := eligible_of_ite h nofun
    obtain ⟨hkind, h⟩ := eligible_of_ite h nofun
    obtain ⟨hlegacy, h⟩ := eligible_of_ite h nofun
    obtain ⟨hcompletion, h⟩ := eligible_of_ite h nofun
    obtain ⟨hverdict, h⟩ := eligible_of_ite h nofun
    cases hsequence : found.settledSequence with
    | none =>
      rw [hsequence] at h
      exact absurd (congrArg LedgerDecision.status h) nofun
    | some sequence =>
    cases hstate : data.subjects.get? found.subjectBranch with
    | none =>
      rw [hsequence, hstate] at h
      exact absurd (congrArg LedgerDecision.status h) nofun
    | some state =>
    rw [hsequence, hstate] at h
    obtain ⟨-, h⟩ := eligible_of_ite h nofun
    obtain ⟨hlater, h⟩ := eligible_of_ite h nofun
    obtain ⟨hunordered, h⟩ := eligible_of_ite h nofun
    obtain ⟨hgate, h⟩ := eligible_of_ite h nofun
    simp only [LedgerDecision.mk.injEq, Option.some.injEq, Payload.row.injEq, true_and] at h
    obtain ⟨-, rfl⟩ := h
    have hsubject := LedgerData.subject_eq hstate
    simp only [Bool.or_eq_true, not_or, Bool.not_eq_true, Option.any_eq_false] at hgate
    refine ⟨hfound, ?_, not_not.mp hreserved, not_not.mp hkind, by simpa using hlegacy,
      Option.isSome_iff_ne_none.mpr hcompletion, not_not.mp hverdict,
      ⟨sequence, hsequence, ?_⟩, by simp [hstate], by rw [hsubject]; exact hgate.1, ?_⟩
    · intro event he heq
      exact hcorrections (any_eq_true.mpr ⟨event, he, by simpa using heq⟩)
    · intro id' other hother hne hsame
      have hnone : ∀ dependence, data.dependents id found sequence dependence = [] →
          found.dependence other sequence ≠ dependence := by
        intro dependence hnil hdep
        have hmem : id' ∈ data.dependents id found sequence dependence := by
          unfold LedgerData.dependents
          rw [mem_insertionSort, mem_map]
          refine ⟨(id', other), ?_, rfl⟩
          rw [mem_filter]
          exact ⟨mem_of_get? hother, by simp [hne, hsame, hdep]⟩
        simp [hnil] at hmem
      have h₁ := hnone _ (not_not.mp hlater)
      have h₂ := hnone _ (not_not.mp hunordered)
      cases hdep : found.dependence other sequence <;> simp_all
    · intro gate hgate'
      rw [hsubject] at hgate' ⊢
      have := hgate.2 gate hgate'
      simpa using this

theorem validCorrection_event {id : String} (hid : row.dispatchId = id)
    (hkind : row.kind = .implement) (hverdict : row.outcomeClass = .verdict) (observation : Json)
    (ledgerSha256 recordedAt : String) :
    validCorrection L.os (correctionEvent L.os data row observation
      (L.os.observationDigest observation) ledgerSha256 correctionProducer recordedAt id) row =
      true := by
  simp [validCorrection, correctionEvent, hid, hkind, hverdict]

theorem effectiveOutcomeClass_append {event : Correction}
    (hc : data'.corrections = data.corrections ++ [event])
    (hnew : ∀ before ∈ data.corrections, before.dispatchId ≠ event.dispatchId) (row : Row) :
    effectiveOutcomeClass L.os data' row =
      if row.dispatchId = event.dispatchId then
        if validCorrection L.os event row then .infraStop else row.outcomeClass
      else effectiveOutcomeClass L.os data row := by
  unfold effectiveOutcomeClass
  rw [hc, filter_append]
  by_cases hid : row.dispatchId = event.dispatchId
  · have hnil : data.corrections.filter (fun before => before.dispatchId = row.dispatchId) = [] := by
      rw [filter_eq_nil_iff]
      intro before hb
      simpa [hid] using hnew before hb
    rw [hnil, if_pos hid]
    simp [hid]
  · have hnil : [event].filter (fun before => before.dispatchId = row.dispatchId) = [] := by
      simp [Ne.symm hid]
    rw [hnil, append_nil, if_neg hid]

theorem Consistent.subjectFixes_correct (h : Consistent L data) (event : Correction) (row : Row)
    (hrows : data'.rows = data.rows) (hc : data'.corrections = data.corrections ++ [event])
    (hnew : ∀ before ∈ data.corrections, before.dispatchId ≠ event.dispatchId)
    (hfound : data.rows.get? event.dispatchId = some row) (hs : row.subjectBranch ≠ s) :
    data'.subjectFixes L.os s = data.subjectFixes L.os s := by
  unfold LedgerData.subjectFixes
  have hvalues : data'.values = data.values := by
    unfold LedgerData.values
    rw [hrows]
  rw [hvalues]
  apply countP_congr
  intro other hother
  by_cases hid : other.dispatchId = event.dispatchId
  · have hsame : other = row := by
      have := h.mem_values.mp hother
      rw [hid, hfound] at this
      exact (Option.some.inj this).symm
    rw [hsame, isFix_of_ne hs, isFix_of_ne hs]
  · unfold LedgerData.isFix
    rw [effectiveOutcomeClass_append hc hnew, if_neg hid]

theorem Consistent.correct (h : Consistent L data) {id : String}
    (heligible : correctionEligibility L.os data id = ⟨.eligible, reason, some (.row row)⟩)
    (observation : Json) (ledgerSha256 recordedAt : String) :
    Consistent L (appendCorrection L.os data (correctionEvent L.os data row observation
      (L.os.observationDigest observation) ledgerSha256 correctionProducer recordedAt id) id
      row.subjectBranch) := by
  have he := eligible_spec heligible
  have hid := (h.row id row he.found).dispatchId
  set event := correctionEvent L.os data row observation (L.os.observationDigest observation)
    ledgerSha256 correctionProducer recordedAt id with hevent
  have hvalid : validCorrection L.os event row = true :=
    validCorrection_event hid he.kind he.verdict observation ledgerSha256 recordedAt
  have hevid : event.dispatchId = id := rfl
  refine ⟨h.version, h.policy, h.activatedAt, h.nodup, ?_, h.issuance, ?_, ?_, ?_⟩
  · intro id' row' hget
    have hok := h.row id' row' hget
    refine ⟨hok.dispatchId, hok.named, ?_, hok.issued, hok.imported, hok.waiting, ?_⟩
    · simp only [appendCorrection, LedgerData.setSubject, get?_set]
      split
      · rfl
      · exact hok.known
    · intro hdone
      obtain ⟨hr, hp, hs, n, hn, hle⟩ := hok.settled hdone
      exact ⟨hr, hp, hs, n, hn, hle.trans (Nat.le_succ _)⟩
  · intro s state hget
    simp only [appendCorrection, LedgerData.setSubject, get?_set] at hget
    by_cases hs : s = row.subjectBranch
    · rw [if_pos hs, Option.some.injEq] at hget
      rw [← hget, hs]
      exact subjectFixes_congr rfl rfl _
    · rw [if_neg hs] at hget
      rw [h.fixes s state hget]
      symm
      exact h.subjectFixes_correct event row rfl rfl he.uncorrected he.found (Ne.symm hs)
  · change ((data.corrections ++ [event]).map Correction.dispatchId).Nodup
    rw [map_append, nodup_append]
    refine ⟨h.single, by simp, ?_⟩
    intro before hb after ha
    obtain ⟨e, he', rfl⟩ := mem_map.mp hb
    simp only [map_cons, map_nil, mem_singleton] at ha
    rw [ha]
    exact he.uncorrected e he'
  · intro e hmem
    rcases mem_append.mp hmem with hold | hnew
    · exact h.corrections e hold
    · rw [mem_singleton.mp hnew]
      exact ⟨row, he.found, hvalid, he.completed⟩

theorem Consistent.touchSubject (h : Consistent L data) (s : String) :
    Consistent L (data.touchSubject s) := by
  refine ⟨h.version, h.policy, h.activatedAt, h.nodup, ?_, h.issuance, ?_, h.single,
    h.corrections⟩
  · intro id row hget
    have hok := h.row id row hget
    refine ⟨hok.dispatchId, hok.named, ?_, hok.issued, hok.imported, hok.waiting, hok.settled⟩
    simp only [LedgerData.touchSubject, get?_setDefault]
    split
    · rfl
    · exact hok.known
  · intro s' state hget
    have hfixes : (data.touchSubject s).subjectFixes L.os s' = data.subjectFixes L.os s' :=
      subjectFixes_congr rfl rfl s'
    have hsubject := data.subject_touchSubject s s'
    rw [LedgerData.subject_eq hget] at hsubject
    rw [hfixes, hsubject, h.subject_fixes]

theorem importRecord_rows (s : String) (record : LegacyRecord) (number : Nat)
    (data : LedgerData) : (importRecord L.os s record number data).rows =
      data.rows.set record.dispatchId (record.row s number data) := rfl

theorem importRecord_subjects (s : String) (record : LegacyRecord) (number : Nat)
    (data : LedgerData) : (importRecord L.os s record number data).subjects =
      data.subjects.set s { data.subject s with
        fixes := (importRecord L.os s record number data).subjectFixes L.os s } := rfl

theorem Consistent.importRecord (h : Consistent L data) {record : LegacyRecord} (number : Nat)
    (hs : s ≠ "") (hv : Verified record)
    (hno : ∀ event ∈ data.corrections, event.dispatchId ≠ record.dispatchId)
    (hold : ∀ old, data.rows.get? record.dispatchId = some old →
      old.subjectBranch = s ∧ old.issuedSequence = none) :
    Consistent L (importRecord L.os s record number data) := by
  refine h.of_set record.dispatchId _ rfl rfl rfl rfl rfl rfl (Nat.le_succ _) ?_ ?_ ?_ ?_ ?_
  · exact fun count hcount => ⟨count, hcount, le_rfl⟩
  · exact fun old hget => ⟨(hold old hget).1, hno⟩
  · change (((data.rows.set record.dispatchId _).map Prod.snd).filterMap _).Nodup
    rw [filterMap_set_of_same]
    · exact h.issuance
    · intro old hget
      exact (hold old hget).2.symm
    · exact fun _ => rfl
  · refine ⟨rfl, ⟨hv.named, hs⟩, ?_, ?_, ?_, ?_, ?_⟩
    · rw [importRecord_subjects]
      simp [LegacyRecord.row]
    · exact fun hnone => absurd hnone (Option.some_ne_none _)
    · exact fun _ => ⟨rfl, rfl, rfl, rfl, rfl, rfl⟩
    · exact fun hnone => absurd hnone (Option.some_ne_none _)
    · exact fun _ => ⟨rfl, by simp [LegacyRecord.row], rfl, _, rfl, le_rfl⟩
  · rfl

/-- A property that the import of one record keeps, as long as every dispatch id of the import is
free or held by a record of the same import, is kept by the whole import. -/
theorem importRecords_induction {P : LedgerData → Prop}
    (hstep : ∀ data record number, P data → Verified record →
      (∀ event ∈ data.corrections, event.dispatchId ≠ record.dispatchId) →
      (∀ old, data.rows.get? record.dispatchId = some old →
        old.subjectBranch = s ∧ old.legacySource.isSome) →
      P (Review.importRecord L.os s record number data)) :
    ∀ (records : List LegacyRecord) (number : Nat) (data : LedgerData), P data →
      (∀ record ∈ records, Verified record) →
      (∀ record ∈ records, ∀ event ∈ data.corrections, event.dispatchId ≠ record.dispatchId) →
      (∀ record ∈ records, ∀ old, data.rows.get? record.dispatchId = some old →
        old.subjectBranch = s ∧ old.legacySource.isSome) →
      P (importRecords L.os s records number data) := by
  intro records
  induction records with
  | nil => exact fun _ _ h _ _ _ => h
  | cons record records ih =>
    intro number data hP hv hno hold
    have hfirst := hstep data record number hP (hv record (by simp)) (hno record (by simp))
      (hold record (by simp))
    refine ih (number + 1) _ hfirst ?_ ?_ ?_
    · exact fun record' h' => hv record' (mem_cons_of_mem _ h')
    · exact fun record' h' => hno record' (mem_cons_of_mem _ h')
    · intro record' h' old hget
      rw [importRecord_rows, get?_set] at hget
      split at hget
      · rw [← Option.some.inj hget]
        exact ⟨rfl, rfl⟩
      · exact hold record' (mem_cons_of_mem _ h') old hget

theorem Consistent.importRecords (h : Consistent L data) {records : List LegacyRecord} (hs : s ≠ "")
    (hv : ∀ record ∈ records, Verified record)
    (ids : ∀ record ∈ records, data.rows.get? record.dispatchId = none) :
    Consistent L (importRecords L.os s records 1 (data.touchSubject s)) := by
  refine importRecords_induction (P := Consistent L) ?_ records 1 _ (h.touchSubject s) hv ?_ ?_
  · intro data record number hc hv hno hold
    refine hc.importRecord number hs hv hno fun old hget => ?_
    obtain ⟨hs, hlegacy⟩ := hold old hget
    exact ⟨hs, ((hc.row _ old hget).imported hlegacy).1⟩
  · intro record hr
    exact h.not_corrected_of_absent (ids record hr)
  · intro record hr old hget
    have hnone := ids record hr
    simp [LedgerData.touchSubject, hnone] at hget

theorem Consistent.move (h : Consistent L data) (hm : Move L data data') : Consistent L data' := by
  cases hm with
  | issue issued => exact h.issue issued
  | settle found reserved waiting final completion =>
    exact h.settle found reserved waiting final completion
  | settleUnjudged found gate reserved waiting completion =>
    exact h.settleUnjudged found gate reserved waiting completion
  | correct eligible observation ledgerSha256 recordedAt =>
    exact h.correct eligible observation ledgerSha256 recordedAt
  | importSources named verified new ids nonces =>
    exact h.importRecords named (legacyRecords_spec verified).2.1 ids

theorem consistent_fresh (L : ReviewCycleLedger) {now : String} (hnow : now ≠ "") :
    Consistent L (L.fresh now) where
  version := rfl
  policy := rfl
  activatedAt := hnow
  nodup := nodup_nil
  row id row h := by simp [ReviewCycleLedger.fresh] at h
  issuance := nodup_nil
  fixes s state h := by simp [ReviewCycleLedger.fresh] at h
  single := nodup_nil
  corrections event h := by simp [ReviewCycleLedger.fresh] at h

end

end Workbay.Review

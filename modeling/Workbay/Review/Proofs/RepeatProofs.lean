import Workbay.Review.Proofs.BudgetProofs

/-!
# Proofs: repeat control
-/

namespace Workbay.Review

open Workbay.Effects Dict

/-- A source of the subject `s` that a verdict has settled. -/
structure SettledSource (os : LedgerPlatform) (data : LedgerData) (s id : String) : Prop where
  source : ∃ row, data.rows.get? id = some row ∧ row.subjectBranch = s ∧
    row.kind = .implement ∧ row.completion.isSome ∧ effectiveOutcomeClass os data row = .verdict

/-- What the ledger keeps so that blockers are not judged again and again. -/
structure RepeatControl (L : ReviewCycleLedger) (data : LedgerData) : Prop where
  pendingGate : ∀ id id' row row', data.rows.get? id = some row →
    data.rows.get? id' = some row' → row.isPendingGate = true → row'.isPendingGate = true →
    row.subjectBranch = row'.subjectBranch → id = id'
  continuation : ∀ s id, (data.subject s).continuation = some id →
    ∃ row, data.rows.get? id = some row ∧ row.subjectBranch = s ∧ row.kind = .implement
  repeated : ∀ id row, data.rows.get? id = some row → row.isPendingGate = true →
    (data.subject row.subjectBranch).repeated = true →
      ∃ source, (data.subject row.subjectBranch).continuation = some source ∧
        SettledSource L.os data row.subjectBranch source
  texts : ∀ id id' row row' proposal proposal', data.rows.get? id = some row →
    data.rows.get? id' = some row' → row.subjectBranch = row'.subjectBranch →
    row.proposal = some proposal → row'.proposal = some proposal' →
    proposal.correction = proposal'.correction → id = id'
  corrected : ∀ id row, data.rows.get? id = some row → row.legacySource = none →
    row.kind = .implement → row.decision = .reserved →
    L.policy.threshold .implement ≤ row.round → row.proposal.isSome

section

variable {L : ReviewCycleLedger} {data data' : LedgerData}

variable {id : String} {row : Row}

theorem row_cases (hc : Consistent L data) (hm : Move L data data') {row' : Row}
    (hrow' : data'.rows.get? id = some row') : (∃ row, data.rows.get? id = some row ∧
      row.Advanced data.sequence data'.sequence row') ∨
    (Issued L data row' ∧ row'.dispatchId = id ∧ data' = data.issued row') ∨
    row'.legacySource.isSome := by
  cases hrow : data.rows.get? id with
  | none => exact .inr (hm.new_row hc hrow hrow')
  | some row =>
    obtain ⟨row'', hrow'', hadv⟩ := (Extends.of_move hc hm).rows id row hrow
    rw [hrow'] at hrow''
    obtain rfl := Option.some.inj hrow''
    exact .inl ⟨row, rfl, hadv⟩

theorem Consistent.not_pendingGate_of_legacy (hc : Consistent L data)
    (hrow : data.rows.get? id = some row) (hl : row.legacySource.isSome) :
    row.isPendingGate = false := by
  have hok := (hc.row id row hrow).imported hl
  simp [Row.isPendingGate, hok.2.2.1]

theorem mem_subjectRows_of_get? (hrow : data.rows.get? id = some row) :
    row ∈ data.subjectRows row.subjectBranch := by
  rw [LedgerData.mem_subjectRows]
  exact ⟨List.mem_map.mpr ⟨_, mem_of_get? hrow, rfl⟩, rfl⟩

theorem RepeatControl.pendingGate_move (h : RepeatControl L data) (hc : Consistent L data)
    (hm : Move L data data') : ∀ id id' row row', data'.rows.get? id = some row →
      data'.rows.get? id' = some row' → row.isPendingGate = true →
      row'.isPendingGate = true → row.subjectBranch = row'.subjectBranch → id = id' := by
  have hc' := hc.move hm
  -- a new gate finds no other one waiting
  have hnew : ∀ id id' row row', Issued L data row → row.dispatchId = id →
      data' = data.issued row → data'.rows.get? id' = some row' → row.isPendingGate = true →
      row'.isPendingGate = true → row.subjectBranch = row'.subjectBranch → id = id' := by
    intro id id' row row' hi hid hdata hrow' hp hp' hs
    by_contra hne
    rw [hdata] at hrow'
    simp only [LedgerData.issued, get?_set] at hrow'
    rw [if_neg (by rw [hid]; exact fun h => hne h.symm)] at hrow'
    have hmem := mem_subjectRows_of_get? hrow'
    rw [← hs] at hmem
    simp only [Row.isPendingGate, Bool.and_eq_true, decide_eq_true_eq] at hp
    have hno := hi.noPendingGate hp.1.2 hp.1.1 row' hmem
    simp [hno] at hp'
  intro id id' row row' hrow hrow' hp hp' hs
  rcases row_cases hc hm hrow with ⟨old, hold, hadv⟩ | ⟨hi, hid, hdata⟩ | hl
  · rcases row_cases hc hm hrow' with ⟨old', hold', hadv'⟩ | ⟨hi, hid, hdata⟩ | hl
    · obtain rfl : row = old := hadv.kept.2.2.2.2.2.2.2.2 hp
      obtain rfl : row' = old' := hadv'.kept.2.2.2.2.2.2.2.2 hp'
      exact h.pendingGate id id' row row' hold hold' hp hp' hs
    · exact (hnew id' id row' row hi hid hdata hrow hp' hp hs.symm).symm
    · simp [hc'.not_pendingGate_of_legacy hrow' hl] at hp'
  · exact hnew id id' row row' hi hid hdata hrow' hp hp' hs
  · simp [hc'.not_pendingGate_of_legacy hrow hl] at hp

theorem RepeatControl.texts_move (h : RepeatControl L data) (hc : Consistent L data)
    (hm : Move L data data') : ∀ id id' row row' proposal proposal',
      data'.rows.get? id = some row → data'.rows.get? id' = some row' →
      row.subjectBranch = row'.subjectBranch → row.proposal = some proposal →
      row'.proposal = some proposal' → proposal.correction = proposal'.correction → id = id' := by
  have hc' := hc.move hm
  have hnew : ∀ id id' row row' proposal proposal', Issued L data row → row.dispatchId = id →
      data' = data.issued row → data'.rows.get? id' = some row' →
      row.subjectBranch = row'.subjectBranch → row.proposal = some proposal →
      row'.proposal = some proposal' → proposal.correction = proposal'.correction → id = id' := by
    intro id id' row row' proposal proposal' hi hid hdata hrow' hs hp hp' heq
    by_contra hne
    rw [hdata] at hrow'
    simp only [LedgerData.issued, get?_set] at hrow'
    rw [if_neg (by rw [hid]; exact fun h => hne h.symm)] at hrow'
    have hmem := mem_subjectRows_of_get? hrow'
    rw [← hs] at hmem
    exact (hi.newCorrection proposal hp).2 row' hmem (by rw [hp', heq]; rfl)
  intro id id' row row' proposal proposal' hrow hrow' hs hp hp' heq
  rcases row_cases hc hm hrow with ⟨old, hold, hadv⟩ | ⟨hi, hid, hdata⟩ | hl
  · rcases row_cases hc hm hrow' with ⟨old', hold', hadv'⟩ | ⟨hi, hid, hdata⟩ | hl
    · obtain ⟨hsub, -, -, -, hprop, -⟩ := hadv.kept
      obtain ⟨hsub', -, -, -, hprop', -⟩ := hadv'.kept
      exact h.texts id id' old old' proposal proposal' hold hold'
        (by rw [← hsub, ← hsub', hs]) (by rw [← hprop, hp]) (by rw [← hprop', hp']) heq
    · exact (hnew id' id row' row proposal' proposal hi hid hdata hrow hs.symm hp' hp heq.symm).symm
    · have hnone := ((hc'.row id' row' hrow').imported hl).2.2.2.2.2
      simp [hnone] at hp'
  · exact hnew id id' row row' proposal proposal' hi hid hdata hrow' hs hp hp' heq
  · have hnone := ((hc'.row id row hrow).imported hl).2.2.2.2.2
    simp [hnone] at hp

theorem RepeatControl.corrected_move (h : RepeatControl L data) (hc : Consistent L data)
    (hm : Move L data data') : ∀ id row, data'.rows.get? id = some row →
      row.legacySource = none → row.kind = .implement → row.decision = .reserved →
      L.policy.threshold .implement ≤ row.round → row.proposal.isSome := by
  intro id row hrow hl hk hr hround
  rcases row_cases hc hm hrow with ⟨old, hold, hadv⟩ | ⟨hi, -, -⟩ | hl'
  · obtain ⟨-, hkind, hdecision, hround', hprop, hlegacy, -⟩ := hadv.kept
    rw [hprop]
    exact h.corrected id old hold (by rw [← hlegacy, hl]) (by rw [← hkind, hk])
      (by rw [← hdecision, hr]) (by rw [← hround']; exact hround)
  · exact hi.corrected hr hk (.inl hround)
  · simp [hl] at hl'

theorem subject_issued (data : LedgerData) (row : Row) (s : String) :
    (data.issued row).subject s =
      if s = row.subjectBranch then (data.subject s).reserve row else data.subject s := by
  simp only [LedgerData.subject, LedgerData.issued, get?_set]
  by_cases hs : s = row.subjectBranch
  · simp [hs]
  · simp [hs]

theorem subject_completed (data : LedgerData) (id : String) (row : Row) (state : SubjectState)
    (s : String) : (data.completed id row state).subject s =
      if s = row.subjectBranch then state else data.subject s := by
  simp only [LedgerData.subject, LedgerData.completed, get?_set]
  by_cases hs : s = row.subjectBranch <;> simp [hs]

theorem subject_appendCorrection (os : LedgerPlatform) (data : LedgerData) (event : Correction)
    (id s s' : String) : (appendCorrection os data event id s).subject s' =
      if s' = s then (data.subject s).correct id
        ((appendCorrection os data event id s).subjectFixes os s) else data.subject s' := by
  by_cases hs : s' = s
  · subst hs
    rw [if_pos rfl]
    exact LedgerData.subject_eq (get?_set_self _ _ _)
  · simp only [if_neg hs, LedgerData.subject, appendCorrection, LedgerData.setSubject,
      get?_set_of_ne _ _ hs]

theorem SubjectState.settle_continuation {state state' : SubjectState} {status : Status}
    {id' : String} {kind : Kind} {completion : Completion} {classification : PassOutcomeClass}
    {fixes : Nat} (h : state.settle id kind completion classification fixes = (state', status))
    (hc : state'.continuation = some id') : state.continuation = some id' := by
  have hstate := congrArg Prod.fst h
  simp only at hstate
  subst hstate
  cases classification with
  | infraStop =>
    simp only [settle] at hc
    split at hc
    · simp at hc
    · exact hc
  | pending => cases kind <;> exact hc
  | verdict =>
    cases kind with
    | gate => simp [settle, judgeGate] at hc
    | implement | analysis => exact hc

theorem SubjectState.settle_repeated {state state' : SubjectState} {status : Status} {kind : Kind}
    {completion : Completion} {classification : PassOutcomeClass} {fixes : Nat}
    (h : state.settle id kind completion classification fixes = (state', status))
    (hk : kind ≠ .gate) : state'.repeated = state.repeated ∧
      ∀ id', id' ≠ id → state.continuation = some id' → state'.continuation = some id' := by
  have hstate := congrArg Prod.fst h
  simp only at hstate
  subst hstate
  cases classification with
  | infraStop =>
    refine ⟨rfl, fun id' hne hc => ?_⟩
    have hid : state.continuation ≠ some id := by
      rw [hc]
      exact fun h => hne (Option.some.inj h)
    simp only [settle, if_neg hid]
    exact hc
  | pending => cases kind <;> exact ⟨rfl, fun _ _ hc => hc⟩
  | verdict =>
    cases kind with
    | gate => exact absurd rfl hk
    | implement | analysis => exact ⟨rfl, fun _ _ hc => hc⟩

theorem RepeatControl.continuation_move (h : RepeatControl L data) (hc : Consistent L data)
    (hm : Move L data data') : ∀ s id, (data'.subject s).continuation = some id →
      ∃ row, data'.rows.get? id = some row ∧ row.subjectBranch = s ∧
        row.kind = .implement := by
  -- a continuation that was there has kept its row
  have hkept : ∀ s id, (data.subject s).continuation = some id →
      ∃ row, data'.rows.get? id = some row ∧ row.subjectBranch = s ∧
        row.kind = .implement := by
    intro s id hcont
    obtain ⟨row, hrow, hs, hk⟩ := h.continuation s id hcont
    obtain ⟨row', hrow', hadv⟩ := (Extends.of_move hc hm).rows id row hrow
    obtain ⟨hs', hk', -⟩ := hadv.kept
    exact ⟨row', hrow', by rw [hs', hs], by rw [hk', hk]⟩
  intro s id hcont
  cases hm with
  | @issue row hi =>
    rw [subject_issued] at hcont
    split at hcont
    · rename_i hs
      simp only [SubjectState.reserve] at hcont
      split at hcont
      · rename_i hsource
        refine ⟨row, ?_, hs.symm, hsource.2.1⟩
        rw [← Option.some.inj hcont]
        exact get?_set_self _ _ _
      · exact hkept s id hcont
    · exact hkept s id hcont
  | @settle id' row classification found reserved waiting final completion =>
    obtain ⟨state, status, hstate, hdata, -⟩ := complete_spec (L := L) completion classification
      (hc.row id' row found).dispatchId (hc.not_corrected found waiting)
    apply hkept
    rw [hdata, subject_completed] at hcont
    split at hcont
    · rename_i hs
      rw [hs]
      exact SubjectState.settle_continuation hstate hcont
    · exact hcont
  | settleUnjudged => exact hkept s id hcont
  | correct =>
    apply hkept
    rw [subject_appendCorrection] at hcont
    split at hcont
    · rename_i hs
      rw [hs]
      simp only [SubjectState.correct] at hcont
      split at hcont
      · simp at hcont
      · exact hcont
    · exact hcont
  | @importSources s' sources records named verified new ids nonces =>
    have hi := importRecords_spec hc named (legacyRecords_spec verified).2.1 new ids
    apply hkept
    by_cases hs : s = s'
    · obtain ⟨fixes, hfixes⟩ := hi.state
      rw [hs, hfixes] at hcont
      rw [hs]
      exact hcont
    · rw [hi.subjects s hs] at hcont
      exact hcont

theorem Consistent.settledSource (hc : Consistent L data) {s : String}
    (hrow : data.rows.get? id = some row) (hs : row.subjectBranch = s)
    (hk : row.kind = .implement) (hv : effectiveOutcomeClass L.os data row = .verdict) :
    SettledSource L.os data s id := by
  have hdone : row.completion.isSome := by
    by_contra hwait
    have hpending := ((hc.row id row hrow).waiting (by simpa using hwait)).1
    rcases effectiveOutcomeClass_cases L.os data row with heq | ⟨heq, -⟩
    · rw [heq, hpending] at hv
      simp at hv
    · simp [heq] at hv
  exact ⟨row, hrow, hs, hk, hdone, hv⟩

theorem SettledSource.advance {s : String} (h : SettledSource L.os data s id)
    (hext : Extends data data')
    (heff : ∀ row, data.rows.get? id = some row →
      effectiveOutcomeClass L.os data' row = effectiveOutcomeClass L.os data row) :
    SettledSource L.os data' s id := by
  obtain ⟨row, hrow, hs, hk, hdone, hv⟩ := h.source
  obtain ⟨row', hrow', hadv⟩ := hext.rows id row hrow
  obtain ⟨-, -, -, -, -, -, -, hsame, -⟩ := hadv.kept
  obtain rfl := hsame hdone
  exact ⟨row', hrow', hs, hk, hdone, by rw [heff row' hrow, hv]⟩

theorem Eligible.no_pendingGate {id' : String} {gate : Row} (he : Eligible L data id row)
    (hc : Consistent L data) (hgate : data.rows.get? id' = some gate)
    (hp : gate.isPendingGate = true) : gate.subjectBranch ≠ row.subjectBranch := by
  intro hs
  simp only [Row.isPendingGate, Bool.and_eq_true, decide_eq_true_eq] at hp
  have hwait : gate.completion = none := by
    by_contra hdone
    have hok := (hc.row id' gate hgate).settled (Option.isSome_iff_ne_none.mpr hdone)
    exact hok.2.1 hp.2
  have hne : id' ≠ id := by
    rintro rfl
    obtain rfl := Option.some.inj (hgate.symm.trans he.found)
    rw [he.kind] at hp
    simp at hp
  obtain ⟨sequence, -, hind⟩ := he.settled
  have hdep := hind id' gate hgate hne hs
  unfold Row.dependence at hdep
  rw [if_pos ⟨hp.1.2, hwait⟩] at hdep
  split at hdep
  · rw [if_neg (by rw [hp.1.1, he.kind]; simp)] at hdep
    simp at hdep
  · simp at hdep

theorem RepeatControl.repeated_move (h : RepeatControl L data) (hc : Consistent L data)
    (hm : Move L data data') : ∀ id row, data'.rows.get? id = some row →
      row.isPendingGate = true → (data'.subject row.subjectBranch).repeated = true →
        ∃ source, (data'.subject row.subjectBranch).continuation = some source ∧
          SettledSource L.os data' row.subjectBranch source := by
  have hext := Extends.of_move hc hm
  have hc' := hc.move hm
  intro id row hrow hp hrep
  have hgate : row.kind = .gate ∧ row.decision = .reserved := by
    simp only [Row.isPendingGate, Bool.and_eq_true, decide_eq_true_eq] at hp
    exact hp.1
  -- a gate that waited before finds its source as it was
  have hold : ∀ s, data.rows.get? id = some row → row.subjectBranch = s →
      (data.subject s).repeated = true → ∃ source, (data.subject s).continuation = some source ∧
        SettledSource L.os data s source := by
    rintro s hget rfl hr
    exact h.repeated id row hget hp hr
  cases hm with
  | @issue new hi =>
    have hcorrections : (data.issued new).corrections = data.corrections := rfl
    rw [subject_issued] at hrep ⊢
    simp only [LedgerData.issued, get?_set] at hrow
    split at hrow
    · -- the new gate was judged on a settled source
      obtain rfl := Option.some.inj hrow
      rw [if_pos rfl] at hrep ⊢
      obtain ⟨source, row', hcont, hrow', hv⟩ := hi.judged hgate.2 hgate.1 hrep
      obtain ⟨row'', hrow'', hs, hk⟩ := h.continuation _ source hcont
      obtain rfl := Option.some.inj (hrow'.symm.trans hrow'')
      refine ⟨source, ?_, (hc.settledSource hrow' hs hk hv).advance hext
        fun _ _ => effectiveOutcomeClass_congr hcorrections _⟩
      simp only [SubjectState.reserve]
      rw [if_neg (by rw [hgate.1]; simp)]
      exact hcont
    · by_cases hs : row.subjectBranch = new.subjectBranch
      · rw [if_pos hs] at hrep ⊢
        obtain ⟨source, hcont, hsource⟩ := hold _ hrow rfl hrep
        refine ⟨source, ?_, hsource.advance hext
          fun _ _ => effectiveOutcomeClass_congr hcorrections _⟩
        simp only [SubjectState.reserve]
        split
        · rename_i hnew
          have hnone := hi.noContinuation hnew.1 hnew.2.1 (hs ▸ hrep)
          rw [hs, hnone] at hcont
          simp at hcont
        · exact hcont
      · rw [if_neg hs] at hrep ⊢
        obtain ⟨source, hcont, hsource⟩ := hold _ hrow rfl hrep
        exact ⟨source, hcont, hsource.advance hext
          fun _ _ => effectiveOutcomeClass_congr hcorrections _⟩
  | @settle id' row' classification found reserved waiting final completion =>
    obtain ⟨state, status, hstate, hdata, -⟩ := complete_spec (L := L) completion classification
      (hc.row id' row' found).dispatchId (hc.not_corrected found waiting)
    have hcorrections : (L.complete id' row' completion classification data).1.corrections =
        data.corrections := by rw [hdata]; rfl
    rw [hdata] at hrow
    rw [hdata, subject_completed] at hrep
    conv => enter [1, source, 1]; rw [hdata, subject_completed]
    simp only [LedgerData.completed, get?_set] at hrow
    split at hrow
    · -- the settled row itself waits no longer
      obtain rfl := Option.some.inj hrow
      simp only [Row.isPendingGate, Bool.and_eq_true, decide_eq_true_eq] at hp
      exact absurd hp.2 final
    · rename_i hne
      by_cases hs : row.subjectBranch = row'.subjectBranch
      · have hk : row'.kind ≠ .gate := by
          intro hk
          have hp' : row'.isPendingGate = true := by
            simp [Row.isPendingGate, hk, reserved, ((hc.row id' row' found).waiting waiting).1]
          exact hne (h.pendingGate id id' row row' hrow found hp hp' hs)
        obtain ⟨hrepeated, hcontinuation⟩ := SubjectState.settle_repeated hstate hk
        have hsame : (row'.settle completion classification (data.sequence + 1)
            status).subjectBranch = row.subjectBranch := hs.symm
        rw [if_pos hsame.symm] at hrep ⊢
        rw [hrepeated, ← hs] at hrep
        obtain ⟨source, hcont, hsource⟩ := hold _ hrow rfl hrep
        have hother : source ≠ id' := by
          rintro rfl
          obtain ⟨row'', hrow'', -, -, hdone, -⟩ := hsource.source
          obtain rfl := Option.some.inj (found.symm.trans hrow'')
          simp [waiting] at hdone
        exact ⟨source, hcontinuation source hother (hs ▸ hcont), hsource.advance hext
          fun _ _ => effectiveOutcomeClass_congr hcorrections _⟩
      · have hother : row.subjectBranch ≠ (row'.settle completion classification
            (data.sequence + 1) status).subjectBranch := hs
        rw [if_neg hother] at hrep ⊢
        obtain ⟨source, hcont, hsource⟩ := hold _ hrow rfl hrep
        exact ⟨source, hcont, hsource.advance hext
          fun _ _ => effectiveOutcomeClass_congr hcorrections _⟩
  | @settleUnjudged id' row' found gate reserved waiting completion =>
    simp only [completeUnjudged_fst, get?_set] at hrow
    split at hrow
    · obtain rfl := Option.some.inj hrow
      simp [Row.isPendingGate, Row.settle] at hp
    · obtain ⟨source, hcont, hsource⟩ := hold _ hrow rfl hrep
      exact ⟨source, hcont, hsource.advance hext fun _ _ => effectiveOutcomeClass_congr rfl _⟩
  | @correct id' row' reason eligible observation ledgerSha256 recordedAt =>
    have he := eligible_spec eligible
    have hs : row.subjectBranch ≠ row'.subjectBranch := he.no_pendingGate hc hrow hp
    rw [subject_appendCorrection, if_neg hs] at hrep ⊢
    obtain ⟨source, hcont, hsource⟩ := hold _ hrow rfl hrep
    refine ⟨source, hcont, hsource.advance hext fun row'' hrow'' => ?_⟩
    rw [effectiveOutcomeClass_append rfl he.uncorrected, if_neg]
    rw [(hc.row source row'' hrow'').dispatchId]
    rintro rfl
    obtain ⟨row₀, hrow₀, hs₀, -⟩ := hsource.source
    obtain rfl := Option.some.inj (hrow₀.symm.trans he.found)
    exact hs hs₀.symm
  | @importSources s' sources records named verified new ids nonces =>
    have hi := importRecords_spec hc named (legacyRecords_spec verified).2.1 new ids
    rcases hi.new id row hrow with hrow₀ | ⟨hl, -, -⟩
    · have hs : row.subjectBranch ≠ s' := by
        intro hs
        have hmem := mem_subjectRows_of_get? hrow₀
        rw [hs, new] at hmem
        simp at hmem
      rw [hi.subjects _ hs] at hrep ⊢
      obtain ⟨source, hcont, hsource⟩ := hold _ hrow₀ rfl hrep
      exact ⟨source, hcont, hsource.advance hext
        fun _ _ => effectiveOutcomeClass_congr hi.corrections _⟩
    · simp [hc'.not_pendingGate_of_legacy hrow hl] at hp

theorem RepeatControl.move (h : RepeatControl L data) (hc : Consistent L data)
    (hm : Move L data data') : RepeatControl L data' where
  pendingGate := h.pendingGate_move hc hm
  continuation := h.continuation_move hc hm
  repeated := h.repeated_move hc hm
  texts := h.texts_move hc hm
  corrected := h.corrected_move hc hm

theorem repeatControl_fresh (L : ReviewCycleLedger) (now : String) :
    RepeatControl L (L.fresh now) where
  pendingGate id id' row row' h := by simp [ReviewCycleLedger.fresh] at h
  continuation s id h := by simp [ReviewCycleLedger.fresh, LedgerData.subject] at h
  repeated id row h := by simp [ReviewCycleLedger.fresh] at h
  texts id id' row row' p p' h := by simp [ReviewCycleLedger.fresh] at h
  corrected id row h := by simp [ReviewCycleLedger.fresh] at h

end

theorem repeatControl_of_reachable {L : ReviewCycleLedger} {data : LedgerData}
    (h : L.Reachable data) : RepeatControl L data :=
  (reachable_invariant h (fun now => repeatControl_fresh L now.text)
    fun _ _ hc hr hm => hr.move hc hm).2

/-- In every reachable ledger at most one gate of a subject waits, and every native source that was
reserved at the threshold or beyond has a correction text of its own in its subject. A call reserves
a gate of a repeated subject only after a verdict has settled its continuation, and a native source
at the threshold or of a repeated subject only with a correction text that no earlier row of the
subject has; the row keeps that text for ever. -/
theorem repeat_control {L : ReviewCycleLedger} {data : LedgerData} (h : L.Reachable data) :
    (∀ id id' row row', data.rows.get? id = some row → data.rows.get? id' = some row' →
      row.isPendingGate = true → row'.isPendingGate = true →
      row.subjectBranch = row'.subjectBranch → id = id') ∧
    (∀ id row, data.rows.get? id = some row → row.legacySource = none →
      row.kind = .implement → row.decision = .reserved →
      L.policy.threshold .implement ≤ row.round → ∃ proposal, row.proposal = some proposal ∧
        ∀ id' row' proposal', data.rows.get? id' = some row' → id' ≠ id →
          row'.subjectBranch = row.subjectBranch → row'.proposal = some proposal' →
          proposal'.correction ≠ proposal.correction) ∧
    ∀ call data' id row, (L.perform (some (L.os.encode data)) call).1 = some (L.os.encode data') →
      data.rows.get? id = none → data'.rows.get? id = some row →
      row.decision = .reserved →
        (row.kind = .gate → (data.subject row.subjectBranch).repeated = true →
          ∃ source, (data.subject row.subjectBranch).continuation = some source ∧
            SettledSource L.os data row.subjectBranch source) ∧
        (row.kind = .implement → row.legacySource = none →
          (L.policy.threshold .implement ≤ row.round ∨
            (data.subject row.subjectBranch).repeated = true) →
          ∀ calls, ∃ data'' row'' proposal change,
            L.machine.run (some (L.os.encode data')) calls = some (L.os.encode data'') ∧
            data''.rows.get? id = some row'' ∧ row''.proposal = some proposal ∧
            proposal.correction = L.os.canonicalise change ∧
            ∀ other ∈ data.subjectRows row.subjectBranch,
              other.proposal.map Proposal.correction ≠ some proposal.correction) := by
  have hc := consistent_of_reachable h
  have hcontrol := repeatControl_of_reachable h
  refine ⟨hcontrol.pendingGate, ?_, ?_⟩
  · intro id row hrow hl hk hr hround
    obtain ⟨proposal, hp⟩ :=
      Option.isSome_iff_exists.mp (hcontrol.corrected id row hrow hl hk hr hround)
    refine ⟨proposal, hp, fun id' row' proposal' hrow' hne hs hp' heq => hne ?_⟩
    exact hcontrol.texts id' id row' row proposal' proposal hrow' hrow hs hp' hp heq
  · intro call data' id row hcall habsent hrow hreserved
    obtain ⟨found, hfound, hstep⟩ := perform_consistent hc call
    obtain rfl := encode_injective (Option.some.inj (hfound.symm.trans hcall))
    rcases hstep with rfl | hm
    · simp [habsent] at hrow
    have hnew := hm.new_row hc habsent hrow
    refine ⟨fun hk hrep => ?_, fun hk hl hneeds calls => ?_⟩
    · -- a gate is not imported
      rcases hnew with ⟨hi, -, -⟩ | hl
      · obtain ⟨source, continuation, hcont, hrow', hv⟩ := hi.judged hreserved hk hrep
        obtain ⟨row'', hrow'', hs, hkind⟩ := hcontrol.continuation _ source hcont
        obtain rfl := Option.some.inj (hrow'.symm.trans hrow'')
        exact ⟨source, hcont, hc.settledSource hrow' hs hkind hv⟩
      · rw [((hc.move hm).row id row hrow |>.imported hl).2.1] at hk
        simp at hk
    · rcases hnew with ⟨hi, -, -⟩ | hl'
      · obtain ⟨proposal, hp⟩ := Option.isSome_iff_exists.mp (hi.corrected hreserved hk hneeds)
        obtain ⟨⟨change, hchange⟩, hfresh⟩ := hi.newCorrection proposal hp
        obtain ⟨data'', hrun, -, hext⟩ := (hc.move hm).run calls
        obtain ⟨row'', hrow'', hadv⟩ := hext.rows id row hrow
        obtain ⟨-, -, -, -, hprop, -⟩ := hadv.kept
        exact ⟨data'', row'', proposal, change, hrun, hrow'', by rw [hprop, hp], hchange, hfresh⟩
      · simp [hl] at hl'

/-- The first source of a subject is at the threshold already, and has a correction. -/
theorem repeat_control_one_source : ∃ row proposal,
    Dict.get? (plainRun oneSource).rows "d" = some row ∧ row.proposal = some proposal ∧
      ∀ id' row' proposal', Dict.get? (plainRun oneSource).rows id' = some row' → id' ≠ "d" →
        row'.subjectBranch = row.subjectBranch → row'.proposal = some proposal' →
        proposal'.correction ≠ proposal.correction := by
  have hsource : (Dict.get? (plainRun oneSource).rows "d").map (fun row =>
      (row.legacySource, row.kind, row.decision, row.round)) =
      some (none, .implement, .reserved, 1) := by decide +kernel
  obtain ⟨row, hrow, hfields⟩ := Option.map_eq_some_iff.mp hsource
  simp only [Prod.mk.injEq] at hfields
  obtain ⟨hl, hk, hr, hround⟩ := hfields
  have hthreshold : plainLedger.policy.threshold .implement ≤ row.round := by
    rw [hround]
    decide
  have hreachable : plainLedger.Reachable (plainRun oneSource) := plainRun_reachable _
  obtain ⟨proposal, hp, hother⟩ :=
    (repeat_control hreachable).2.1 "d" row hrow hl hk hr hthreshold
  exact ⟨row, proposal, hrow, hp, hother⟩

/-- A verified source record of the subject `b`. -/
def sourceRecord (id nonce start : String) : Json :=
  let hex := String.ofList (List.replicate 40 'a')
  .obj [("dispatch_id", .str id), ("pass_id", .str "p"), ("task_ref", .str "t"),
    ("lane_id", .str "l"), ("outcome", .str "handoff_ready"), ("started_at", .str start),
    ("subject_branch", .str "b"), ("charged", .bool true),
    ("required_route", .obj [("model", .str "m"), ("effort", .str "e")]),
    ("source_head", .str hex), ("source_tree", .str hex),
    ("producer", .obj [("provenance", .str "v"),
      ("provenance_sha256", .str (String.ofList (List.replicate 64 'a'))),
      ("dispatch_nonce", .str nonce)])]

/-- A history is imported into the subject `b`. -/
def importsHistory (history : List Json) : Call × Storage :=
  (.importLegacySources "b" (.arr history), .works)

/-- An imported source at the threshold carries no correction text. -/
theorem imported_source_without_correction : ∃ row,
    Dict.get? (plainRun [activates, importsHistory [sourceRecord "d" "n" "s"]]).rows "d" =
      some row ∧
    row.kind = .implement ∧ row.decision = .reserved ∧
    plainLedger.policy.threshold .implement ≤ row.round ∧ row.proposal = none := by
  have hrow : (Dict.get? (plainRun [activates, importsHistory [sourceRecord "d" "n" "s"]]).rows
      "d").map (fun row => (row.kind, row.decision, row.round, row.proposal)) =
      some (.implement, .reserved, 1, none) := by decide +kernel
  obtain ⟨row, hfound, hfields⟩ := Option.map_eq_some_iff.mp hrow
  simp only [Prod.mk.injEq] at hfields
  obtain ⟨hk, hr, hround, hp⟩ := hfields
  exact ⟨row, hfound, hk, hr, by rw [hround]; decide, hp⟩

end Workbay.Review

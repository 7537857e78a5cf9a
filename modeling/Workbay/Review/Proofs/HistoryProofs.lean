import Workbay.Review.Proofs.ConsistencyProofs

/-!
# Proofs: the history of a ledger

A consistent ledger is read back as it was written, so what every move preserves holds of every
reachable ledger, and what every move relates is related along every run.
-/

namespace Workbay.Review

open Workbay.Effects List

variable {L : ReviewCycleLedger} {data data' : LedgerData}

theorem validIssuance_of_nodup {counter : Option Nat} :
    ∀ (rows : List Row) (seen : List Nat),
      (∀ row ∈ rows, ∀ value, row.issuedSequence = some value → row.legacySource = none ∧
        ∃ count, counter = some count ∧ 0 < value ∧ value ≤ count) →
      (rows.filterMap Row.issuedSequence).Nodup →
      (∀ value ∈ rows.filterMap Row.issuedSequence, value ∉ seen) →
      validIssuance counter rows seen = true := by
  intro rows
  induction rows with
  | nil => exact fun _ _ _ _ => rfl
  | cons row rows ih =>
    intro seen hrows hnodup hseen
    have hrest : ∀ other ∈ rows, ∀ value, other.issuedSequence = some value →
        other.legacySource = none ∧ ∃ count, counter = some count ∧ 0 < value ∧ value ≤ count :=
      fun other ho => hrows other (mem_cons_of_mem _ ho)
    cases hv : row.issuedSequence with
    | none =>
      simp only [filterMap_cons, hv] at hnodup hseen
      simp only [validIssuance, hv]
      exact ih seen hrest hnodup hseen
    | some value =>
      obtain ⟨hlegacy, count, rfl, hpos, hle⟩ := hrows row (by simp) value hv
      simp only [filterMap_cons, hv, nodup_cons] at hnodup hseen
      simp only [validIssuance, hv]
      have hvalue : value ∉ seen := hseen value (by simp)
      have hnext := ih (value :: seen) hrest hnodup.2 ?_
      · simp [hpos, hle, hvalue, hlegacy, hnext]
      · intro other ho hmem
        rcases mem_cons.mp hmem with heq | hmem
        · exact hnodup.1 (heq ▸ ho)
        · exact hseen other (mem_cons_of_mem _ ho) hmem

variable {os : LedgerPlatform} {P : LedgerData → Prop}

theorem validCorrections_of_nodup {rows : Dict String Row} :
    ∀ (events : List Correction) (seen : List String),
      (∀ event ∈ events, ∃ row, rows.get? event.dispatchId = some row ∧
        validCorrection os event row = true) →
      (events.map Correction.dispatchId).Nodup →
      (∀ event ∈ events, event.dispatchId ∉ seen) →
      validCorrections os rows events seen = true := by
  intro events
  induction events with
  | nil => exact fun _ _ _ _ => rfl
  | cons event events ih =>
    intro seen hevents hnodup hseen
    obtain ⟨row, hrow, hvalid⟩ := hevents event (by simp)
    simp only [map_cons, nodup_cons] at hnodup
    have hnext := ih (event.dispatchId :: seen)
      (fun other ho => hevents other (mem_cons_of_mem _ ho)) hnodup.2 ?_
    · have hnew : event.dispatchId ∉ seen := hseen event (by simp)
      simp [validCorrections, hrow, hvalid, hnew, hnext]
    · intro other ho hmem
      rcases mem_cons.mp hmem with heq | hmem
      · exact hnodup.1 (heq ▸ mem_map_of_mem ho)
      · exact hseen other (mem_cons_of_mem _ ho) hmem

theorem projectFixes_eq_self
    (hfixes : ∀ s state, data.subjects.get? s = some state →
      state.fixes = data.subjectFixes os s) : ∀ events : List Correction,
      (∀ event ∈ events, (data.subjects.get? event.subjectBranch).isSome) →
      projectFixes os events data = .ok data := by
  intro events
  induction events with
  | nil => exact fun _ => rfl
  | cons event events ih =>
    intro hknown
    obtain ⟨state, hstate⟩ := Option.isSome_iff_exists.mp (hknown event (by simp))
    have hsame : data.setSubject event.subjectBranch
        { state with fixes := data.subjectFixes os event.subjectBranch } = data := by
      rw [← hfixes _ state hstate]
      unfold LedgerData.setSubject
      rw [Dict.set_eq_self hstate]
    simp only [projectFixes, hstate, hsame]
    exact ih fun other ho => hknown other (mem_cons_of_mem _ ho)

theorem Consistent.decode_encode (h : Consistent L data) :
    L.decode (L.os.encode data) = .ok data := by
  have hissuance : validIssuance data.issuanceSequence data.values [] = true := by
    refine validIssuance_of_nodup _ _ ?_ h.issuance (by simp)
    intro row hrow value hvalue
    have hok := h.row _ row (h.mem_values.mp hrow)
    have hlegacy : row.legacySource = none := by
      by_contra hl
      have hnone := (hok.imported (Option.isSome_iff_ne_none.mpr hl)).1
      simp [hnone] at hvalue
    obtain ⟨v, count, hv, hc, hpos, hle⟩ := hok.issued hlegacy
    obtain rfl : v = value := Option.some.inj (hv.symm.trans hvalue)
    exact ⟨hlegacy, count, hc, hpos, hle⟩
  have hcorrections : validCorrections L.os data.rows data.corrections [] = true := by
    refine validCorrections_of_nodup _ _ ?_ h.single (by simp)
    intro event he
    obtain ⟨row, hrow, hvalid, -⟩ := h.corrections event he
    exact ⟨row, hrow, hvalid⟩
  have hproject : projectFixes L.os data.corrections data = .ok data := by
    refine projectFixes_eq_self h.fixes _ fun event he => ?_
    obtain ⟨row, hrow, hvalid, -⟩ := h.corrections event he
    simp only [validCorrection, Bool.and_eq_true, decide_eq_true_eq] at hvalid
    have hsubject : event.subjectBranch = row.subjectBranch := by simp only [hvalid]
    rw [hsubject]
    exact (h.row _ row hrow).known
  unfold ReviewCycleLedger.decode
  simp only [LedgerPlatform.encode, hissuance, hcorrections, hproject, h.version, h.policy,
    h.activatedAt, ne_eq, not_true_eq_false, or_self, if_false, bind, Except.bind]

/-- What the file holds: nothing before the rollout, a consistent ledger afterwards. -/
def FileOk (L : ReviewCycleLedger) (P : LedgerData → Prop) (file : Option LedgerFile) : Prop :=
  ∀ f, file = some f → ∃ data, f = L.os.encode data ∧ Consistent L data ∧ P data

theorem FileOk.perform {file : Option LedgerFile} (h : FileOk L P file)
    (hfresh : ∀ now : Timestamp, P (L.fresh now.text))
    (hmove : ∀ data data', Consistent L data → P data → Move L data data' → P data')
    (call : Call × Storage) : FileOk L P (L.perform file call).1 := by
  rcases perform_cases L file call with
    hsame | ⟨-, now, hnew⟩ | ⟨data, data', hread, hdata, hfile⟩
  · rw [hsame]
    exact h
  · rw [hnew]
    rintro f hf
    obtain rfl := Option.some.inj hf
    exact ⟨_, rfl, consistent_fresh L now.text_ne, hfresh now⟩
  · rw [hfile]
    rintro f hf
    obtain rfl := Option.some.inj hf
    cases file with
    | none => simp [ReviewCycleLedger.read] at hread
    | some g =>
      obtain ⟨before, rfl, hc, hp⟩ := h g rfl
      simp only [ReviewCycleLedger.read, hc.decode_encode] at hread
      obtain rfl := Except.ok.inj hread
      rcases hdata with rfl | hm
      · exact ⟨_, rfl, hc, hp⟩
      · exact ⟨_, rfl, hc.move hm, hmove _ _ hc hp hm⟩

theorem encode_injective (h : os.encode data = os.encode data') :
    data = data' := (LedgerFile.mk.inj h).1

theorem reachable_invariant (h : L.Reachable data)
    (hfresh : ∀ now : Timestamp, P (L.fresh now.text))
    (hmove : ∀ data data', Consistent L data → P data → Move L data data' → P data') :
    Consistent L data ∧ P data := by
  have hfile : FileOk L P (some (L.os.encode data)) := by
    refine Machine.Reachable.invariant h (fun f hf => by simp at hf) ?_
    exact fun file call hok => hok.perform hfresh hmove call
  obtain ⟨found, hfound, hc, hp⟩ := hfile _ rfl
  obtain rfl := encode_injective hfound
  exact ⟨hc, hp⟩

theorem consistent_of_reachable (h : L.Reachable data) : Consistent L data :=
  (reachable_invariant (P := fun _ => True) h (fun _ => trivial) fun _ _ _ _ _ => trivial).1

theorem perform_consistent (h : Consistent L data) (call : Call × Storage) :
    ∃ data', (L.perform (some (L.os.encode data)) call).1 = some (L.os.encode data') ∧
      (data' = data ∨ Move L data data') := by
  rcases perform_cases L (some (L.os.encode data)) call with
    hsame | ⟨hnone, -⟩ | ⟨before, data', hread, hdata, hfile⟩
  · exact ⟨data, hsame, .inl rfl⟩
  · simp at hnone
  · simp only [ReviewCycleLedger.read, h.decode_encode] at hread
    obtain rfl := Except.ok.inj hread
    exact ⟨data', hfile, hdata⟩

/-- What every move relates is related along every run, which keeps what every move preserves. -/
theorem run_from {R : LedgerData → LedgerData → Prop} (hrefl : ∀ data, R data data)
    (htrans : ∀ a b c, R a b → R b c → R a c)
    (hP : ∀ data data', Consistent L data → P data → Move L data data' → P data')
    (hmove : ∀ data data', Consistent L data → P data → Move L data data' → R data data')
    (calls : List (Call × Storage)) : ∀ data, Consistent L data → P data →
      ∃ data', L.machine.run (some (L.os.encode data)) calls = some (L.os.encode data') ∧
        Consistent L data' ∧ P data' ∧ R data data' := by
  induction calls with
  | nil => exact fun data hc hp => ⟨data, rfl, hc, hp, hrefl data⟩
  | cons call calls ih =>
    intro data hc hp
    obtain ⟨data₁, hfile, hstep⟩ := perform_consistent hc call
    have hone : Consistent L data₁ ∧ P data₁ ∧ R data data₁ := by
      rcases hstep with rfl | hm
      · exact ⟨hc, hp, hrefl _⟩
      · exact ⟨hc.move hm, hP _ _ hc hp hm, hmove _ _ hc hp hm⟩
    obtain ⟨data₂, hrun, hc₂, hp₂, hr₂⟩ := ih data₁ hone.1 hone.2.1
    refine ⟨data₂, ?_, hc₂, hp₂, htrans _ _ _ hone.2.2 hr₂⟩
    rw [Machine.run_cons, ← hrun]
    exact congrArg (fun file => L.machine.run file calls) hfile

end Workbay.Review

/-!
## Proofs: the history of a ledger is append-only
-/

namespace Workbay.Review

open Workbay.Effects Dict

variable {L : ReviewCycleLedger} {data data' : LedgerData}

/-- What may become of a row between a ledger that has counted to `before` and one that has counted
to `after`: it stays, or it was reserved and without a completion, and is settled. -/
def Row.Advanced (before after : Nat) (row row' : Row) : Prop :=
  row' = row ∨ (row.decision = .reserved ∧ row.completion = none ∧
    ∃ completion classification sequence status,
      classification ≠ .pending ∧ before < sequence ∧ sequence ≤ after ∧
        row' = row.settle completion classification sequence status)

theorem Row.Advanced.kept {before after : Nat} {row row' : Row} (h : row.Advanced before after row') :
    row'.subjectBranch = row.subjectBranch ∧ row'.kind = row.kind ∧
      row'.decision = row.decision ∧ row'.round = row.round ∧ row'.proposal = row.proposal ∧
      row'.legacySource = row.legacySource ∧ row'.issuedSequence = row.issuedSequence ∧
      (row.completion.isSome → row' = row) ∧ (row'.isPendingGate = true → row' = row) := by
  rcases h with rfl | ⟨-, hwait, completion, classification, sequence, status, hfinal, -, -, rfl⟩
  · exact ⟨rfl, rfl, rfl, rfl, rfl, rfl, rfl, fun _ => rfl, fun _ => rfl⟩
  · refine ⟨rfl, rfl, rfl, rfl, rfl, rfl, rfl, fun hdone => ?_, fun hpending => ?_⟩
    · simp [hwait] at hdone
    · simp only [Row.isPendingGate, Bool.and_eq_true, decide_eq_true_eq] at hpending
      exact absurd hpending.2 hfinal

/-- What a row that a later ledger has in addition shows of its age. -/
structure Row.NewSince (before : LedgerData) (row : Row) : Prop where
  issued : row.legacySource.isSome ∨
    ∃ value, row.issuedSequence = some value ∧ before.issuanceSequence.getD 0 < value
  settled : ∀ sequence, row.settledSequence = some sequence → before.sequence < sequence

/-- Every row and every correction of the first ledger is in the second one. -/
structure Extends (data data' : LedgerData) : Prop where
  sequence : data.sequence ≤ data'.sequence
  counter : data.issuanceSequence.getD 0 ≤ data'.issuanceSequence.getD 0
  rows : ∀ id row, data.rows.get? id = some row →
    ∃ row', data'.rows.get? id = some row' ∧
      row.Advanced data.sequence data'.sequence row'
  new : ∀ id row, data.rows.get? id = none → data'.rows.get? id = some row →
    row.NewSince data
  corrections : data.corrections <+: data'.corrections

theorem Extends.refl (data : LedgerData) : Extends data data where
  sequence := le_rfl
  counter := le_rfl
  rows _ row h := ⟨row, h, .inl rfl⟩
  new id row h h' := by simp [h] at h'
  corrections := List.prefix_refl _

theorem Row.Advanced.trans {a b c : Nat} {row row' row'' : Row} (h : row.Advanced a b row')
    (h' : row'.Advanced b c row'') (hab : a ≤ b) (hbc : b ≤ c) : row.Advanced a c row'' := by
  rcases h with rfl | ⟨hr, hc, completion, classification, sequence, status, hp, hlt, hle, rfl⟩
  · rcases h' with rfl | ⟨hr, hc, completion, classification, sequence, status, hp, hlt, hle, rfl⟩
    · exact .inl rfl
    · exact .inr ⟨hr, hc, completion, classification, sequence, status, hp, by omega, hle, rfl⟩
  · rcases h' with rfl | ⟨-, hc', -⟩
    · exact .inr ⟨hr, hc, completion, classification, sequence, status, hp, hlt, by omega, rfl⟩
    · simp [Row.settle] at hc'

theorem Extends.trans {data'' : LedgerData} (h : Extends data data') (h' : Extends data' data'') :
    Extends data data'' where
  sequence := h.sequence.trans h'.sequence
  counter := h.counter.trans h'.counter
  rows id row hrow := by
    obtain ⟨row', hrow', hadv⟩ := h.rows id row hrow
    obtain ⟨row'', hrow'', hadv'⟩ := h'.rows id row' hrow'
    exact ⟨row'', hrow'', hadv.trans hadv' h.sequence h'.sequence⟩
  new id row'' hnone hrow'' := by
    have hseq := h.sequence
    cases hmid : data'.rows.get? id with
    | none =>
      have hnew := h'.new id row'' hmid hrow''
      refine ⟨hnew.issued.imp_right ?_, fun sequence hs => ?_⟩
      · rintro ⟨value, hv, hlt⟩
        exact ⟨value, hv, h.counter.trans_lt hlt⟩
      · have hlt := hnew.settled sequence hs
        omega
    | some row' =>
      have hnew := h.new id row' hnone hmid
      obtain ⟨found, hfound, hadv⟩ := h'.rows id row' hmid
      obtain rfl := Option.some.inj (hrow''.symm.trans hfound)
      rcases hadv with rfl | ⟨-, -, completion, classification, sequence, status, -, hlt, -, rfl⟩
      · exact hnew
      · refine ⟨hnew.issued, fun sequence' hs => ?_⟩
        obtain rfl : sequence = sequence' := Option.some.inj hs
        omega
  corrections := h.corrections.trans h'.corrections

theorem Extends.of_set {id : String} {old row' : Row} (hseq : data.sequence ≤ data'.sequence)
    (hcounter : data'.issuanceSequence = data.issuanceSequence)
    (hcorrections : data'.corrections = data.corrections)
    (hrows : data'.rows = data.rows.set id row') (hold : data.rows.get? id = some old)
    (hadv : old.Advanced data.sequence data'.sequence row') : Extends data data' where
  sequence := hseq
  counter := by rw [hcounter]
  rows id' row hget := by
    rw [hrows, get?_set]
    by_cases hid : id' = id
    · subst hid
      obtain rfl := Option.some.inj (hold.symm.trans hget)
      exact ⟨row', by simp, hadv⟩
    · exact ⟨row, by rw [if_neg hid, hget], .inl rfl⟩
  new id' row hnone hget := by
    rw [hrows, get?_set] at hget
    by_cases hid : id' = id
    · subst hid
      simp [hold] at hnone
    · rw [if_neg hid, hnone] at hget
      simp at hget
  corrections := hcorrections ▸ List.prefix_refl _

theorem mem_values_set {id : String} {row other : Row}
    (h : other ∈ (data.rows.set id row).map Prod.snd) : other = row ∨ other ∈ data.values := by
  obtain ⟨⟨id', other⟩, hmem, rfl⟩ := List.mem_map.mp h
  rcases mem_set hmem with heq | hmem
  · exact .inl (Prod.mk.inj heq).2
  · exact .inr (List.mem_map.mpr ⟨_, hmem, rfl⟩)

theorem importRecords_get?_of_notMem {s id : String} :
    ∀ (records : List LegacyRecord) (number : Nat) (data : LedgerData),
      (∀ record ∈ records, record.dispatchId ≠ id) →
      Dict.get? (importRecords L.os s records number data).rows id = data.rows.get? id := by
  intro records
  induction records with
  | nil => exact fun _ _ _ => rfl
  | cons record records ih =>
    intro number data hid
    rw [importRecords, ih _ _ fun other ho => hid other (List.mem_cons_of_mem _ ho),
      importRecord_rows, get?_set_of_ne]
    exact (hid record (by simp)).symm

theorem importRecord_subject (s : String) (record : LegacyRecord) (number : Nat)
    (data : LedgerData) : (importRecord L.os s record number data).subject s =
      { data.subject s with
        fixes := (importRecord L.os s record number data).subjectFixes L.os s } :=
  LedgerData.subject_eq (by rw [importRecord_subjects, get?_set_self])

/-- What an import into the subject `s` does. -/
structure ImportedInto (s : String) (data data' : LedgerData) : Prop where
  corrections : data'.corrections = data.corrections
  others : ∀ s', s' ≠ s → data'.subjectRows s' = data.subjectRows s'
  subjects : ∀ s', s' ≠ s → data'.subject s' = data.subject s'
  legacy : ∀ row ∈ data'.subjectRows s, row.legacySource.isSome
  new : ∀ id row, data'.rows.get? id = some row →
    data.rows.get? id = some row ∨ (row.legacySource.isSome ∧ row.subjectBranch = s ∧
      ∀ sequence, row.settledSequence = some sequence → data.sequence < sequence)
  sequence : data.sequence ≤ data'.sequence
  counter : data'.issuanceSequence.getD 0 = data.issuanceSequence.getD 0
  state : ∃ fixes, data'.subject s = { data.subject s with fixes := fixes }
  consumed : data'.consumed = data.consumed

theorem importRecords_spec (h : Consistent L data) {s : String} {records : List LegacyRecord}
    (hs : s ≠ "") (hv : ∀ record ∈ records, Verified record) (new : data.subjectRows s = [])
    (ids : ∀ record ∈ records, data.rows.get? record.dispatchId = none) :
    ImportedInto s data (importRecords L.os s records 1 (data.touchSubject s)) := by
  have hall : Consistent L (importRecords L.os s records 1 (data.touchSubject s)) ∧
      ImportedInto s data (importRecords L.os s records 1 (data.touchSubject s)) := by
    refine importRecords_induction
      (P := fun data' => Consistent L data' ∧ ImportedInto s data data') ?_ records 1 _
      ⟨h.touchSubject s, rfl, fun _ _ => rfl, fun s' _ => data.subject_touchSubject s s', ?_,
        fun _ _ => .inl, le_rfl, rfl, ⟨_, data.subject_touchSubject s s⟩, rfl⟩ hv ?_ ?_
    · rintro data' record number ⟨hc, hi⟩ hv hno hold
      have hother : ∀ old, data'.rows.get? record.dispatchId = some old →
          old.operatorApproval = none := fun old hget =>
        ((hc.row _ old hget).imported (hold old hget).2).2.2.2.2.1
      refine ⟨hc.importRecord number hs hv hno fun old hget =>
        ⟨(hold old hget).1, ((hc.row _ old hget).imported (hold old hget).2).1⟩,
        hi.corrections, fun s' hs' => ?_, fun s' hs' => ?_, ?_, fun id row hrow => ?_,
        hi.sequence.trans (Nat.le_succ _), hi.counter, ?_, ?_⟩
      · rw [← hi.others s' hs']
        refine filter_set_of_not ?_ fun old hget => ?_
        · simp [LegacyRecord.row, hs'.symm]
        · simp [(hold old hget).1, hs'.symm]
      · rw [← hi.subjects s' hs']
        unfold LedgerData.subject
        rw [importRecord_subjects, get?_set_of_ne _ _ hs']
      · intro row hrow
        obtain ⟨hmem, hrs⟩ := LedgerData.mem_subjectRows.mp hrow
        unfold LedgerData.values at hmem
        rw [importRecord_rows] at hmem
        rcases mem_values_set hmem with rfl | hmem
        · rfl
        · exact hi.legacy row (LedgerData.mem_subjectRows.mpr ⟨hmem, hrs⟩)
      · rw [importRecord_rows, get?_set] at hrow
        split at hrow
        · rw [← Option.some.inj hrow]
          refine .inr ⟨rfl, rfl, fun sequence hseq => ?_⟩
          obtain rfl : data'.sequence + 1 = sequence := Option.some.inj hseq
          exact Nat.lt_succ_of_le hi.sequence
        · exact hi.new id row hrow
      · obtain ⟨fixes, hfixes⟩ := hi.state
        exact ⟨_, by rw [importRecord_subject, hfixes]⟩
      · rw [← hi.consumed]
        apply filterMap_set_of_same
        · intro old hget
          rw [hother old hget]
          rfl
        · exact fun _ => rfl
    · intro row hrow
      have hrow' : row ∈ data.subjectRows s := hrow
      simp [new] at hrow'
    · intro record hr
      exact h.not_corrected_of_absent (ids record hr)
    · intro record hr old hget
      have hnone := ids record hr
      simp [LedgerData.touchSubject, hnone] at hget
  exact hall.2

theorem Extends.of_move (h : Consistent L data) (hm : Move L data data') : Extends data data' := by
  cases hm with
  | @issue row hi =>
    have hcounter : data.issuanceSequence.getD 0 < data.issuanceSequence.getD 0 + 1 :=
      Nat.lt_succ_self _
    refine ⟨le_rfl, ?_, fun id row' hrow' => ⟨row', ?_, .inl rfl⟩, ?_, List.prefix_refl _⟩
    · simp only [LedgerData.issued, hi.issuedSequence, Option.getD_some]
      exact hcounter.le
    · simp only [LedgerData.issued, get?_set]
      rw [if_neg]
      · exact hrow'
      · rintro rfl
        simp [hi.absent] at hrow'
    · intro id row' hnone hrow'
      simp only [LedgerData.issued, get?_set, hnone] at hrow'
      split at hrow'
      · obtain rfl := Option.some.inj hrow'
        exact ⟨.inr ⟨_, hi.issuedSequence, hcounter⟩, by simp [hi.settledSequence]⟩
      · simp at hrow'
  | @settle id row classification found reserved waiting final completion =>
    obtain ⟨state, status, -, hdata, -⟩ := complete_spec (L := L) completion classification
      (h.row id row found).dispatchId (h.not_corrected found waiting)
    rw [hdata]
    exact .of_set (Nat.le_succ _) rfl rfl rfl found (.inr ⟨reserved, waiting, completion,
      classification, _, status, final, Nat.lt_succ_self _, le_rfl, rfl⟩)
  | @settleUnjudged id row found gate reserved waiting completion =>
    rw [completeUnjudged_fst]
    exact .of_set (Nat.le_succ _) rfl rfl rfl found (.inr ⟨reserved, waiting, completion,
      .verdict, _, .settled, by simp, Nat.lt_succ_self _, le_rfl, rfl⟩)
  | correct =>
    refine ⟨Nat.le_succ _, le_rfl, fun id row hrow => ⟨row, hrow, .inl rfl⟩, ?_,
      List.prefix_append _ _⟩
    intro id row hnone hrow
    have hsame : data.rows.get? id = some row := hrow
    simp [hnone] at hsame
  | @importSources s sources records named verified new ids nonces =>
    have hi := importRecords_spec h named (legacyRecords_spec verified).2.1 new ids
    refine ⟨hi.sequence, hi.counter.ge, fun id row hrow => ⟨row, ?_, .inl rfl⟩, ?_,
      hi.corrections ▸ List.prefix_refl _⟩
    · rw [importRecords_get?_of_notMem]
      · exact hrow
      · rintro record hr rfl
        simp [ids record hr] at hrow
    · intro id row hnone hrow
      rcases hi.new id row hrow with hold | ⟨hl, -, hs⟩
      · simp [hnone] at hold
      · exact ⟨.inl hl, hs⟩

theorem Move.new_row (h : Consistent L data) (hm : Move L data data') {id : String} {row : Row}
    (habsent : data.rows.get? id = none) (hrow : data'.rows.get? id = some row) :
    (Issued L data row ∧ row.dispatchId = id ∧ data' = data.issued row) ∨
      row.legacySource.isSome := by
  cases hm with
  | @issue issued hi =>
    left
    simp only [LedgerData.issued, get?_set] at hrow
    split at hrow
    · rename_i hid
      obtain rfl := Option.some.inj hrow
      exact ⟨hi, hid.symm, rfl⟩
    · simp [habsent] at hrow
  | @settle id' row' classification found reserved waiting final completion =>
    obtain ⟨state, status, -, hdata, -⟩ := complete_spec (L := L) completion classification
      (h.row id' row' found).dispatchId (h.not_corrected found waiting)
    rw [hdata] at hrow
    simp only [LedgerData.completed, get?_set] at hrow
    split at hrow
    · rename_i hid
      simp [hid, found] at habsent
    · simp [habsent] at hrow
  | @settleUnjudged id' row' found gate reserved waiting completion =>
    simp only [completeUnjudged_fst, get?_set] at hrow
    split at hrow
    · rename_i hid
      simp [hid, found] at habsent
    · simp [habsent] at hrow
  | correct =>
    have hsame : data.rows.get? id = some row := hrow
    simp [habsent] at hsame
  | importSources named verified new ids nonces =>
    right
    have hi := importRecords_spec h named (legacyRecords_spec verified).2.1 new ids
    rcases hi.new id row hrow with hold | hlegacy
    · simp [habsent] at hold
    · exact hlegacy.1

theorem Consistent.run (h : Consistent L data) (calls : List (Call × Storage)) :
    ∃ data', L.machine.run (some (L.os.encode data)) calls = some (L.os.encode data') ∧
      Consistent L data' ∧ Extends data data' := by
  obtain ⟨data', hrun, hc, -, he⟩ := run_from (P := fun _ => True) Extends.refl
    (fun _ _ _ => Extends.trans) (fun _ _ _ _ _ => trivial)
    (fun _ _ hc _ hm => Extends.of_move hc hm) calls data h trivial
  exact ⟨data', hrun, hc, he⟩

theorem reserve_replay (h : Consistent L data) {id : String} {row : Row}
    (hrow : data.rows.get? id = some row) (proposal : Option ProposalFile)
    (approvals : List ApprovalFile) (storage : Storage) :
    (L.perform (some (L.os.encode data))
      (.reserve id row.subjectBranch row.kind.value proposal approvals, storage)).1 =
        some (L.os.encode data) ∧
    (L.perform (some (L.os.encode data))
      (.reserve id row.subjectBranch row.kind.value proposal approvals, .works)).2 =
        ⟨row.decision, "replay", some (.row row)⟩ := by
  have hok := h.row id row hrow
  have hnamed : ¬ (id = "" ∨ row.subjectBranch = "") := by
    rw [← hok.dispatchId]
    exact not_or.mpr hok.named
  have hop : L.reserveOperation id row.subjectBranch row.kind proposal approvals data =
      .ok (data, ⟨row.decision, "replay", some (.row row)⟩) := by
    simp [ReviewCycleLedger.reserveOperation, hrow]
  simp only [ReviewCycleLedger.perform, ReviewCycleLedger.reserve, Kind.ofValue?_value,
    if_neg hnamed, ReviewCycleLedger.read, h.decode_encode]
  constructor
  · cases storage <;> simp [transaction, Except.mapError, bind, Except.bind, hop]
  · simp [transaction, Except.mapError, bind, Except.bind, hop]

/-- Along every run: settled rows never change; the decision, the round and the issuance of a
dispatch never change and a replayed reservation answers with them; the fixes of every subject are
those of its rows; and what the operations write is read back. -/
theorem ledger_append_only (h : L.Reachable data) (calls : List (Call × Storage)) :
    ∃ data', L.machine.run (some (L.os.encode data)) calls = some (L.os.encode data') ∧
      L.decode (L.os.encode data') = .ok data' ∧
      (∀ s state, data'.subjects.get? s = some state →
        state.fixes = data'.subjectFixes L.os s) ∧
      ∀ id row, data.rows.get? id = some row →
        ∃ row', data'.rows.get? id = some row' ∧
          (row.completion.isSome → row' = row) ∧
          row'.decision = row.decision ∧ row'.round = row.round ∧
          row'.issuedSequence = row.issuedSequence ∧
          ∀ proposal approvals storage,
            (L.perform (some (L.os.encode data'))
              (.reserve id row.subjectBranch row.kind.value proposal approvals, storage)).1 =
                some (L.os.encode data') ∧
            (L.perform (some (L.os.encode data'))
              (.reserve id row.subjectBranch row.kind.value proposal approvals, .works)).2 =
                ⟨row.decision, "replay", some (.row row')⟩ := by
  obtain ⟨data', hrun, hc, hext⟩ := (consistent_of_reachable h).run calls
  refine ⟨data', hrun, hc.decode_encode, hc.fixes, fun id row hrow => ?_⟩
  obtain ⟨row', hrow', hadv⟩ := hext.rows id row hrow
  obtain ⟨hsubject, hkind, hdecision, hround, -, -, hissued, hsettled, -⟩ := hadv.kept
  refine ⟨row', hrow', hsettled, hdecision, hround, hissued, fun proposal approvals storage => ?_⟩
  rw [← hsubject, ← hkind, ← hdecision]
  exact reserve_replay hc hrow' proposal approvals storage

/-- A ledger on a platform whose digests are all the same, with one automatic source round. -/
def plainLedger : ReviewCycleLedger where
  os :=
    { casefold := id
      isSpace := fun c => c = ' '
      fromIsoFormat := fun _ => some ⟨0, true⟩
      rowDigest := fun _ => ""
      observationDigest := fun _ => ""
      correctionDigest := fun _ _ _ => ""
      dataDigest := fun _ => ""
      fileDigest := fun _ => "" }
  policy :=
    { canonVersion := "v1"
      manifestDigest := "m"
      ruleIds := ["r"]
      dispatchStopAt := 1
      pinned := by decide
      ruleIds_sorted := by decide
      dispatchStopAt_pos := by decide
      approvalThresholds_pos := by simp }

/-- The anchor of the rollout. -/
def activates : Call × Storage := (.activate ⟨"t", by decide⟩, .works)

/-- A proposal file with one rule. -/
def proposalFile (change : String) : ProposalFile where
  path := "p"
  content := some ("e", "d",
    .obj [("rule_ids", .arr [.str "r"]), ("change_from_previous", .str change)])

/-- The source dispatch `id` of the branch `b` is reserved. -/
def reservesSource (id change : String) : Call × Storage :=
  (.reserve id "b" "implement" (some (proposalFile change)) [], .works)

/-- The source dispatch `id` of the branch `b` is settled. -/
def settlesSource (id outcome : String) : Call × Storage :=
  (.settle id "b" "implement" outcome none none none, .works)

/-- The ledger after some calls. -/
def plainRun (calls : List (Call × Storage)) : LedgerData :=
  ((plainLedger.machine.run none calls).map LedgerFile.data).getD (plainLedger.fresh "")

theorem plainRun_reachable (calls : List (Call × Storage)) :
    plainLedger.Reachable (plainRun (activates :: calls)) := by
  refine ⟨activates :: calls, ?_⟩
  have hfirst : plainLedger.machine.run none (activates :: calls) =
      plainLedger.machine.run (some (plainLedger.os.encode (plainLedger.fresh "t"))) calls := rfl
  have ht : "t" ≠ "" := by decide
  obtain ⟨data, hrun, -⟩ := (consistent_fresh plainLedger ht).run calls
  unfold plainRun
  rw [hfirst, hrun]
  rfl

/-- A source is reserved and settled. -/
def oneSource : List (Call × Storage) :=
  [activates, reservesSource "d" "c", settlesSource "d" "handoff_ready"]

/-- A settled source stays as it is when its reservation is repeated. -/
theorem ledger_append_only_settled_source : ∃ row data',
    Dict.get? (plainRun oneSource).rows "d" = some row ∧ row.completion.isSome ∧
      plainLedger.machine.run (some (plainLedger.os.encode (plainRun oneSource)))
        [reservesSource "d" "c"] = some (plainLedger.os.encode data') ∧
      data'.rows.get? "d" = some row := by
  have hsettled : (Dict.get? (plainRun oneSource).rows "d").any
      (fun row => row.completion.isSome) = true := by decide +kernel
  cases hrow : Dict.get? (plainRun oneSource).rows "d" with
  | none => simp [hrow] at hsettled
  | some row =>
  have hdone : row.completion.isSome := by simpa [hrow] using hsettled
  obtain ⟨data', hrun, -, -, hrows⟩ := ledger_append_only
    (plainRun_reachable [reservesSource "d" "c", settlesSource "d" "handoff_ready"])
    [reservesSource "d" "c"]
  obtain ⟨row', hrow', hkept, -⟩ := hrows "d" row hrow
  exact ⟨row, data', rfl, hdone, hrun, hkept hdone ▸ hrow'⟩

end Workbay.Review

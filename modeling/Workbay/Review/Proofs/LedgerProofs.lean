import Workbay.Review.System

/-!
# Proofs: rows, subjects and the fold
-/

namespace Workbay.Review

open List

variable {os : LedgerPlatform} {data data' : LedgerData}

@[simp] theorem LedgerData.subject_touchSubject (data : LedgerData) (s s' : String) :
    (data.touchSubject s).subject s' = data.subject s' := by
  simp only [subject, touchSubject, Dict.get?_setDefault]
  by_cases h : s' = s
  · subst h
    simp
  · simp [h]

@[simp] theorem LedgerData.subject_setSubject_self (data : LedgerData) (s : String)
    (state : SubjectState) : (data.setSubject s state).subject s = state := by
  simp [subject, setSubject]

theorem LedgerData.subject_eq {s : String} {state : SubjectState}
    (h : data.subjects.get? s = some state) : data.subject s = state := by
  simp [subject, h]

/-! ## The fold reads rows and corrections only -/

theorem effectiveOutcomeClass_congr (h : data'.corrections = data.corrections) (row : Row) :
    effectiveOutcomeClass os data' row = effectiveOutcomeClass os data row := by
  unfold effectiveOutcomeClass
  rw [h]

theorem isFix_congr (h : data'.corrections = data.corrections) (s : String) :
    data'.isFix os s = data.isFix os s := by
  funext row
  unfold LedgerData.isFix
  rw [effectiveOutcomeClass_congr h]

theorem isCharged_congr (h : data'.corrections = data.corrections) (kind : Kind) :
    data'.isCharged os kind = data.isCharged os kind := by
  funext row
  unfold LedgerData.isCharged
  rw [effectiveOutcomeClass_congr h]

theorem subjectFixes_congr (hrows : data'.rows = data.rows)
    (hc : data'.corrections = data.corrections) (s : String) :
    data'.subjectFixes os s = data.subjectFixes os s := by
  unfold LedgerData.subjectFixes LedgerData.values
  rw [isFix_congr hc, hrows]

theorem effectiveOutcomeClass_of_forall_ne {row : Row}
    (h : ∀ event ∈ data.corrections, event.dispatchId ≠ row.dispatchId) :
    effectiveOutcomeClass os data row = row.outcomeClass := by
  have hnil : data.corrections.filter (fun event => event.dispatchId = row.dispatchId) = [] := by
    rw [filter_eq_nil_iff]
    intro event he
    simpa using h event he
  unfold effectiveOutcomeClass
  rw [hnil]

theorem effectiveOutcomeClass_cases (os : LedgerPlatform) (data : LedgerData) (row : Row) :
    effectiveOutcomeClass os data row = row.outcomeClass ∨
      (effectiveOutcomeClass os data row = .infraStop ∧ row.outcomeClass = .verdict ∧
        row.kind = .implement) := by
  unfold effectiveOutcomeClass
  split
  · rename_i event _
    by_cases hv : validCorrection os event row = true
    · right
      rw [if_pos hv]
      simp only [validCorrection, Bool.and_eq_true, decide_eq_true_eq] at hv
      simp only [hv, and_self]
    · left
      rw [if_neg hv]
  · left
    rfl

/-- Count the rows of a subject that satisfy `p`. -/
theorem LedgerData.countP_subjectRows (data : LedgerData) (s : String) (p : Row → Bool) :
    (data.subjectRows s).countP p =
      data.values.countP fun row => p row && decide (row.subjectBranch = s) := by
  unfold subjectRows
  rw [countP_filter]

theorem LedgerData.values_of_new {id : String} (h : data.rows.get? id = none) (row : Row) :
    (data.rows.set id row).map Prod.snd = data.values ++ [row] := by
  rw [Dict.set_of_get?_eq_none h, map_append]
  rfl

theorem LedgerData.mem_subjectRows {s : String} {row : Row} :
    row ∈ data.subjectRows s ↔ row ∈ data.values ∧ row.subjectBranch = s := by
  simp [subjectRows]

theorem nonEmpty?_spec {value : Json} {key text : String} (h : nonEmpty? value key = some text) :
    value.get? key = some (.str text) ∧ text ≠ "" := by
  unfold nonEmpty? at h
  obtain ⟨hbind, hne⟩ := Option.filter_eq_some_iff.mp h
  obtain ⟨member, hmember, hstr⟩ := Option.bind_eq_some_iff.mp hbind
  refine ⟨?_, by simpa using hne⟩
  cases member <;> simp_all [Json.str?]

/-- What the importer knows of a record that passed its checks. -/
structure Verified (record : LegacyRecord) : Prop where
  dispatchId : record.record.get? "dispatch_id" = some (.str record.dispatchId)
  named : record.dispatchId ≠ ""
  order : record.order.2 = record.dispatchId
  nonce : ((record.record.get? "producer").bind fun producer =>
    (producer.get? "dispatch_nonce").bind Json.str?) = some record.dispatchNonce

theorem legacyRecord_spec {s : String} {source : Json} {record : LegacyRecord}
    (h : os.legacyRecord s source = some record) : record.record = source ∧ Verified record := by
  unfold LedgerPlatform.legacyRecord at h
  simp only [Option.bind_eq_bind, Option.bind_eq_some_iff, Option.guard_eq_some',
    Option.pure_def, Option.some.injEq] at h
  obtain ⟨-, -, id, hid, -, -, -, -, -, -, outcome, -, start, -, -, -, -, -, -, -, route, -, head, -,
    tree, -, -, -, producer, hproducer, -, -, sha, -, -, -, nonce, hnonce, refusal, -, -, -, started,
    -, -, -, rfl⟩ := h
  obtain ⟨hid, hne⟩ := nonEmpty?_spec hid
  obtain ⟨hnonce, -⟩ := nonEmpty?_spec hnonce
  exact ⟨rfl, hid, hne, rfl, by simp [hproducer, hnonce, Json.str?]⟩

/-- The records of a history: each from its source, in strictly increasing order and with distinct
nonces. -/
theorem legacyRecords_spec {s : String} :
    ∀ {sources : List Json} {previous : Option (Int × String)} {nonces : List String}
      {records : List LegacyRecord},
      os.legacyRecords s sources previous nonces = some records →
      records.map LegacyRecord.record = sources ∧ (∀ record ∈ records, Verified record) ∧
        (records.map LegacyRecord.dispatchNonce).Nodup ∧
        ∀ record ∈ records, record.dispatchNonce ∉ nonces := by
  intro sources
  induction sources with
  | nil =>
    intro previous nonces records h
    obtain rfl := Option.some.inj h
    simp
  | cons source sources ih =>
    intro previous nonces records h
    unfold LedgerPlatform.legacyRecords at h
    simp only [Option.bind_eq_bind, Option.bind_eq_some_iff, Option.guard_eq_some',
      Option.pure_def, Option.some.injEq] at h
    obtain ⟨record, hrecord, -, -, -, hnonce, rest, hrest, rfl⟩ := h
    obtain ⟨hsource, hverified⟩ := legacyRecord_spec hrecord
    obtain ⟨hsources, hall, hnodup, hnew⟩ := ih hrest
    refine ⟨by rw [map_cons, hsource, hsources], ?_, ?_, ?_⟩
    · intro other ho
      rcases mem_cons.mp ho with rfl | ho
      · exact hverified
      · exact hall other ho
    · rw [map_cons, nodup_cons]
      refine ⟨?_, hnodup⟩
      intro hmem
      obtain ⟨other, ho, heq⟩ := mem_map.mp hmem
      exact hnew other ho (by simp [heq])
    · intro other ho
      rcases mem_cons.mp ho with rfl | ho
      · exact hnonce
      · exact fun hmem => hnew other ho (mem_cons_of_mem _ hmem)

end Workbay.Review

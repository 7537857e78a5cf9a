import Workbay.RemoteJobs.Ledger

/-!
# The stages of remote jobs

Each operation reads one record and replaces it at most once, so what the updates of a record keep,
every run keeps. The failure counter is the one writer of a stage that does not look at the stage
that it finds.
-/

namespace Workbay.RemoteJobs

open Effects

/-- The place of a stage. -/
def Stage.rank : Stage → Nat
  | .intent => 0
  | .submitted => 1
  | .done => 2
  | .completed => 3
  | .deadLetter => 4

namespace JobRecord

/-- A record may follow another one. -/
structure Precedes (a b : JobRecord) : Prop where
  forward : a.stage.rank ≤ b.stage.rank
  completed : a.stage = .completed → b.stage = .completed
  deadLetter : a.stage = .deadLetter → b.stage = .deadLetter
  unit : ∀ unit, a.unit = some unit → b.unit = some unit
  rc : ∀ rc, a.rc = some rc → b.rc = some rc
  attempts : a.attempts ≤ b.attempts

theorem Precedes.refl (r : JobRecord) : r.Precedes r :=
  ⟨Nat.le_refl _, id, id, fun _ h => h, fun _ h => h, Nat.le_refl _⟩

variable {a b r : JobRecord}

theorem Precedes.trans {c : JobRecord} (h : a.Precedes b) (h' : b.Precedes c) : a.Precedes c where
  forward := Nat.le_trans h.forward h'.forward
  completed := fun hc => h'.completed (h.completed hc)
  deadLetter := fun hd => h'.deadLetter (h.deadLetter hd)
  unit := fun u hu => h'.unit u (h.unit u hu)
  rc := fun n hn => h'.rc n (h.rc n hn)
  attempts := Nat.le_trans h.attempts h'.attempts

theorem Precedes.of_open (hopen : a.stage.rank < Stage.completed.rank)
    (hle : a.stage.rank ≤ b.stage.rank) (hunit : ∀ unit, a.unit = some unit → b.unit = some unit)
    (hrc : ∀ rc, a.rc = some rc → b.rc = some rc) (hattempts : a.attempts ≤ b.attempts) :
    a.Precedes b where
  forward := hle
  completed hc := by
    rw [hc] at hopen
    exact absurd hopen (Nat.lt_irrefl _)
  deadLetter hd := by
    rw [hd] at hopen
    exact absurd hopen (by decide)
  unit := hunit
  rc := hrc
  attempts := hattempts

theorem Precedes.of_stage_eq (hstage : b.stage = a.stage)
    (hunit : ∀ unit, a.unit = some unit → b.unit = some unit)
    (hrc : ∀ rc, a.rc = some rc → b.rc = some rc) (hattempts : a.attempts ≤ b.attempts) :
    a.Precedes b where
  forward := Nat.le_of_eq (by rw [hstage])
  completed hc := by rw [hstage, hc]
  deadLetter hd := by rw [hstage, hd]
  unit := hunit
  rc := hrc
  attempts := hattempts

/-- A record has no unit before it is submitted and no return code before it is done. -/
def Consistent (r : JobRecord) : Prop :=
  (r.stage = .intent → r.unit = none) ∧
  (r.stage = .intent ∨ r.stage = .submitted → r.rc = none)

theorem consistent_of_rank (h : Stage.done.rank ≤ r.stage.rank) : r.Consistent := by
  refine ⟨fun hi => ?_, ?_⟩
  · rw [hi] at h
    exact absurd h (by decide)
  · rintro (hi | hs)
    · rw [hi] at h
      exact absurd h (by decide)
    · rw [hs] at h
      exact absurd h (by decide)

/-- An update of a consistent record gives a consistent record that may follow it. -/
def Advances (update : JobRecord → Except LedgerError JobRecord) (r : JobRecord) : Prop :=
  ∀ r', update r = .ok r' → r.Precedes r' ∧ r'.Consistent

theorem advances_markSubmitAmbiguous (hr : r.Consistent) : Advances markSubmitAmbiguous r := by
  intro r' h
  cases h
  exact ⟨.of_stage_eq rfl (fun _ h => h) (fun _ h => h) (Nat.le_refl _), hr⟩

theorem advances_markSubmitted (unit now : String) (hr : r.Consistent) :
    Advances (markSubmitted unit now) r := by
  intro r' h
  unfold markSubmitted at h
  cases hstage : r.stage with
  | intent =>
    simp only [hstage] at h
    cases h
    have hunit := hr.1 hstage
    have hrc := hr.2 (.inl hstage)
    refine ⟨.of_open (by rw [hstage]; decide) (by rw [hstage]; exact Nat.zero_le _) ?_
      (fun _ h => h) (Nat.le_refl _), fun hi => ?_, fun _ => hrc⟩
    · intro u hu
      rw [hunit] at hu
      cases hu
    · cases hi
  | submitted | done | completed =>
    -- The stage stays, and the unit is only set where there is none.
    simp only [hstage] at h
    split at h
    · rename_i hunit
      cases h
      refine ⟨.of_stage_eq hstage.symm ?_ (fun _ h => h) (Nat.le_refl _), fun hi => ?_, ?_⟩
      · intro u hu
        rw [hunit] at hu
        cases hu
      · cases hi
      · exact fun hopen => hr.2 (by rw [hstage]; exact hopen)
    · split at h
      · cases h
      · cases h
        exact ⟨.refl r, hr⟩
  | deadLetter =>
    simp only [hstage] at h
    cases h

theorem advances_markDone (rc : Int) (lost : Bool) (now : String) (hr : r.Consistent) :
    Advances (markDone rc lost now) r := by
  intro r' h
  unfold markDone at h
  cases hstage : r.stage with
  | intent | submitted =>
    simp only [hstage] at h
    cases h
    have hrc : r.rc = none := hr.2 (by rw [hstage]; decide)
    refine ⟨.of_open (by rw [hstage]; decide) ?_ (fun _ h => h) ?_ (Nat.le_refl _),
      consistent_of_rank (Nat.le_refl _)⟩
    · rw [hstage]
      show _ ≤ Stage.done.rank
      decide
    · intro n hn
      rw [hrc] at hn
      cases hn
  | done | completed =>
    simp only [hstage] at h
    split at h
    · cases h
    · cases h
      exact ⟨.refl r, hr⟩
  | deadLetter =>
    simp only [hstage] at h
    cases h

theorem advances_markCompleted (now : String) (hr : r.Consistent) :
    Advances (markCompleted now) r := by
  intro r' h
  unfold markCompleted at h
  cases hstage : r.stage with
  | done =>
    simp only [hstage] at h
    cases h
    refine ⟨.of_open (by rw [hstage]; decide) ?_ (fun _ h => h) (fun _ h => h) (Nat.le_refl _),
      consistent_of_rank (by show _ ≤ Stage.completed.rank; decide)⟩
    rw [hstage]
    show _ ≤ Stage.completed.rank
    decide
  | completed =>
    simp only [hstage] at h
    cases h
    exact ⟨.refl r, hr⟩
  | intent | submitted | deadLetter =>
    simp only [hstage] at h
    cases h

/-- The failure that uses up the attempts of a record. -/
def IsLast (r : JobRecord) : Prop := maxHandlerAttempts ≤ r.attempts + 1

theorem rank_le_deadLetter (s : Stage) : s.rank ≤ Stage.deadLetter.rank := by
  cases s <;> decide

theorem advances_handlerFailure (reason now : String) (hr : r.Consistent)
    (h : ¬ (r.stage = .completed ∧ r.IsLast)) : Advances (handlerFailure reason now) r := by
  intro r' hok
  unfold handlerFailure at hok
  split at hok
  · rename_i hlast
    cases hok
    refine ⟨⟨rank_le_deadLetter r.stage, ?_, fun _ => rfl, fun _ h => h, fun _ h => h,
      Nat.le_succ _⟩, consistent_of_rank (by show _ ≤ Stage.deadLetter.rank; decide)⟩
    intro hc
    exact absurd ⟨hc, hlast⟩ h
  · cases hok
    exact ⟨.of_stage_eq rfl (fun _ h => h) (fun _ h => h) (Nat.le_succ _), hr⟩

end JobRecord

/-- The update that a call makes to the record of a job. -/
def Call.update :
    Call → Option (String × Timing × (JobRecord → Except LedgerError JobRecord))
  | .recordIntent .. => none
  | .markSubmitAmbiguous jobId t => some (jobId, t, JobRecord.markSubmitAmbiguous)
  | .markSubmitted jobId unit t => some (jobId, t, JobRecord.markSubmitted unit t.now)
  | .markDone jobId rc lost t => some (jobId, t, JobRecord.markDone rc lost t.now)
  | .markCompleted jobId t => some (jobId, t, JobRecord.markCompleted t.now)
  | .handlerFailure jobId reason t => some (jobId, t, JobRecord.handlerFailure reason t.now)

/-- The deferrals can be read. -/
def Ledger.Readable (ledger : Ledger) : Prop :=
  ledger.deferrals.all Ledger.isDeferralValid = true

namespace Ledger

theorem updateJob_cases (jobId : String) (t : Timing)
    (update : JobRecord → Except LedgerError JobRecord) (ledger : Ledger) :
    ((updateJob jobId t update ledger).1 = ledger ∧
      ∃ e, (updateJob jobId t update ledger).2 = .error e) ∨
    isJobId jobId = true ∧ t.timesOut = false ∧
    ∃ before record now, ledger.jobs.get? jobId = some before ∧
      update before = .ok record ∧
      updateJob jobId t update ledger = ((updateJob jobId t update ledger).1,
        .ok { record with updatedAt := now }) ∧
      (updateJob jobId t update ledger).1 = ledger.setJob jobId { record with updatedAt := now } := by
  unfold updateJob
  by_cases hid : isJobId jobId = true
  · rw [if_pos hid]
    by_cases htime : t.timesOut = true
    · rw [if_pos htime]
      exact .inl ⟨rfl, _, rfl⟩
    · rw [if_neg htime]
      cases hget : ledger.jobs.get? jobId with
      | none => exact .inl ⟨rfl, _, rfl⟩
      | some before =>
        cases hupdate : update before with
        | error e => exact .inl ⟨by simp only [hupdate], e, by simp only [hupdate]⟩
        | ok record =>
          simp only [hupdate]
          refine .inr ⟨hid, Bool.not_eq_true _ ▸ htime, before, record, ?_⟩
          by_cases hsame : record = before
          · rw [if_pos hsame]
            refine ⟨record.updatedAt, rfl, hupdate, rfl, ?_⟩
            unfold setJob
            rw [hsame, Dict.set_eq_self hget]
          · rw [if_neg hsame]
            exact ⟨t.now, rfl, hupdate, rfl, rfl⟩
  · rw [if_neg hid]
    exact .inl ⟨rfl, _, rfl⟩

theorem removeCompletionDeferral_ok {jobId : String} {ledger : Ledger}
    (hid : isJobId jobId = true) (h : ledger.Readable) :
    ∃ deferrals, removeCompletionDeferral jobId ledger =
      ({ ledger with deferrals := deferrals }, .ok ()) ∧
      deferrals.all isDeferralValid = true := by
  refine ⟨Dict.pop ledger.deferrals jobId, ?_, ?_⟩
  · unfold removeCompletionDeferral readDeferrals
    rw [if_pos hid, if_pos (show ledger.deferrals.all isDeferralValid = true from h)]
  · unfold Readable at h
    rw [List.all_eq_true] at h ⊢
    intro entry hentry
    exact h entry (List.mem_filter.mp hentry).1

end Ledger

theorem Ledger.jobs_removeCompletionDeferral (jobId : String) (ledger : Ledger) :
    (removeCompletionDeferral jobId ledger).1.jobs = ledger.jobs := by
  unfold removeCompletionDeferral
  split
  · split
    · rfl
    · rfl
  · rfl

theorem Ledger.jobs_thenRemove (jobId : String) (result : Ledger × Except LedgerError JobRecord) :
    (thenRemove jobId result).1.jobs = result.1.jobs := by
  have hjobs := jobs_removeCompletionDeferral jobId result.1
  unfold thenRemove
  split
  · rfl
  · split
    · rename_i hremove
      rw [hremove] at hjobs
      exact hjobs
    · rename_i hremove
      rw [hremove] at hjobs
      exact hjobs

/-- The record of a job is replaced by what an update makes of it. -/
def Replaces (jobId : String) (t : Timing) (update : JobRecord → Except LedgerError JobRecord)
    (ledger ledger' : Ledger) : Prop :=
  isJobId jobId = true ∧ t.timesOut = false ∧ ∃ before record now, ledger.jobs.get? jobId = some before ∧
    update before = .ok record ∧
    ledger'.jobs = ledger.jobs.set jobId { record with updatedAt := now }

/-- An answer is a refusal. -/
def IsRefusal (answer : Except LedgerError JobRecord) : Prop := ∃ e, answer = .error e

theorem not_isRefusal_ok (r : JobRecord) : ¬ IsRefusal (.ok r) := by
  rintro ⟨e, h⟩
  cases h

/-- An operation that keeps the deferrals readable and is refused, changing nothing, or replaces
one record. -/
def Transacts (jobId : String) (t : Timing) (update : JobRecord → Except LedgerError JobRecord)
    (ledger : Ledger) (result : Ledger × Except LedgerError JobRecord) : Prop :=
  result.1.Readable ∧
  (result.1 = ledger ∧ IsRefusal result.2 ∨
    ¬ IsRefusal result.2 ∧ Replaces jobId t update ledger result.1)

variable {ledger : Ledger} {jobId : String} {t : Timing} {c : Call}

theorem transacts_updateJob (hread : ledger.Readable) (jobId : String) (t : Timing)
    (update : JobRecord → Except LedgerError JobRecord) :
    Transacts jobId t update ledger (Ledger.updateJob jobId t update ledger) := by
  rcases Ledger.updateJob_cases jobId t update ledger with
    ⟨hsame, hrefused⟩ | ⟨hid, htime, before, record, now, hget, hupdate, hanswer, hledger⟩
  · exact ⟨by rw [hsame]; exact hread, .inl ⟨hsame, hrefused⟩⟩
  · refine ⟨by rw [hledger]; exact hread, .inr ⟨?_, hid, htime, before, record, now, hget, hupdate, ?_⟩⟩
    · rw [hanswer]
      exact not_isRefusal_ok _
    · rw [hledger]
      rfl

theorem transacts_thenRemove {update : JobRecord → Except LedgerError JobRecord}
    {result : Ledger × Except LedgerError JobRecord} (h : Transacts jobId t update ledger result) :
    Transacts jobId t update ledger (Ledger.thenRemove jobId result) := by
  unfold Ledger.thenRemove
  cases hanswer : result.2 with
  | error e =>
    rcases h.2 with ⟨hsame, -⟩ | ⟨hok, -⟩
    · exact ⟨h.1, .inl ⟨hsame, e, rfl⟩⟩
    · exact absurd ⟨e, hanswer⟩ hok
  | ok record =>
    rcases h.2 with ⟨-, hrefused⟩ | ⟨-, hreplaces⟩
    · rw [hanswer] at hrefused
      exact absurd hrefused (not_isRefusal_ok record)
    · have hid := hreplaces.1
      obtain ⟨deferrals, hremove, hvalid⟩ := Ledger.removeCompletionDeferral_ok hid h.1
      simp only [hremove]
      exact ⟨hvalid, .inr ⟨not_isRefusal_ok record, hreplaces⟩⟩

/-- Every call but the recording of an intent makes its update. -/
theorem transacts_run (hread : ledger.Readable) {update : JobRecord → Except LedgerError JobRecord}
    (h : c.update = some (jobId, t, update)) : Transacts jobId t update ledger (c.run ledger) := by
  cases c with
  | recordIntent spec t => cases h
  | markSubmitAmbiguous id t =>
    cases h
    exact transacts_updateJob hread _ t _
  | markDone id rc lost t =>
    cases h
    exact transacts_updateJob hread _ t _
  | markCompleted id t =>
    cases h
    exact transacts_thenRemove (transacts_updateJob hread _ t _)
  | markSubmitted id unit t =>
    cases h
    show Transacts _ _ _ _ (markSubmitted _ unit t ledger)
    unfold markSubmitted
    split
    · exact ⟨hread, .inl ⟨rfl, _, rfl⟩⟩
    · exact transacts_updateJob hread _ t _
  | handlerFailure id reason t =>
    cases h
    show Transacts _ _ _ _ (recordHandlerFailure _ reason t ledger)
    have hupdate := transacts_updateJob hread jobId t (JobRecord.handlerFailure reason t.now)
    unfold recordHandlerFailure
    split
    · rename_i ledger' record heq
      rw [heq] at hupdate
      split
      · exact transacts_thenRemove hupdate
      · exact hupdate
    · rename_i ledger' e heq
      rw [heq] at hupdate
      exact hupdate

theorem recordIntent_cases (hread : ledger.Readable) (spec : RemoteJobSpec) (t : Timing) :
    (recordIntent spec t ledger).1.Readable ∧
    ((recordIntent spec t ledger).1 = ledger ∨
      ¬ IsRefusal (recordIntent spec t ledger).2 ∧ ledger.jobs.get? spec.jobId = none ∧
      (recordIntent spec t ledger).1.jobs =
        ledger.jobs.set spec.jobId (intentRecord spec t.now)) := by
  unfold recordIntent
  split
  · split
    · exact ⟨hread, .inl rfl⟩
    · split
      · split
        · exact ⟨hread, .inl rfl⟩
        · exact ⟨hread, .inl rfl⟩
      · rename_i hget
        exact ⟨hread, .inr ⟨not_isRefusal_ok _, hget, rfl⟩⟩
  · exact ⟨hread, .inl rfl⟩

/-- The deferrals can be read and the records are consistent. -/
def Ledger.Sound (ledger : Ledger) : Prop :=
  ledger.Readable ∧ ∀ id r, ledger.jobs.get? id = some r → r.Consistent

theorem sound_empty : Ledger.Sound {} := by
  refine ⟨rfl, ?_⟩
  intro id r h
  cases h

/-- A call counts the last failure of a job that is completed. -/
def Call.BuriesCompleted (ledger : Ledger) : Call → Prop
  | .handlerFailure jobId _ t => isJobId jobId = true ∧ t.timesOut = false ∧
      ∃ r, ledger.jobs.get? jobId = some r ∧ r.stage = .completed ∧ r.IsLast
  | _ => False

/-- Each record has a record that may follow it. -/
def Ledger.Precedes (ledger ledger' : Ledger) : Prop :=
  ∀ id r, ledger.jobs.get? id = some r →
    ∃ r', ledger'.jobs.get? id = some r' ∧ r.Precedes r'

theorem Ledger.Precedes.refl (ledger : Ledger) : ledger.Precedes ledger :=
  fun _ r h => ⟨r, h, .refl r⟩

theorem Ledger.Precedes.trans {a b c : Ledger} (h : a.Precedes b) (h' : b.Precedes c) :
    a.Precedes c := by
  intro id r hr
  obtain ⟨r', hr', hle⟩ := h id r hr
  obtain ⟨r'', hr'', hle'⟩ := h' id r' hr'
  exact ⟨r'', hr'', hle.trans hle'⟩

theorem advance_set {ledger' : Ledger} (hs : ledger.Sound) (hread : ledger'.Readable) {id : String}
    {record : JobRecord} (hjobs : ledger'.jobs = ledger.jobs.set id record)
    (hc : record.Consistent)
    (hle : ∀ before, ledger.jobs.get? id = some before → before.Precedes record) :
    ledger'.Sound ∧ ledger.Precedes ledger' := by
  refine ⟨⟨hread, fun k r hr => ?_⟩, fun k r hr => ?_⟩
  · rw [hjobs, Dict.get?_set] at hr
    split at hr
    · cases hr
      exact hc
    · exact hs.2 k r hr
  · rw [hjobs, Dict.get?_set]
    split
    · rename_i hk
      subst hk
      exact ⟨record, rfl, hle r hr⟩
    · exact ⟨r, hr, .refl r⟩

/-- Every record of the next ledger may follow the one that it was, unless a completed job is
buried. -/
theorem next_precedes (hs : ledger.Sound) (h : ¬ c.BuriesCompleted ledger) :
    (machine.next ledger c).Sound ∧ ledger.Precedes (machine.next ledger c) := by
  show (c.run ledger).1.Sound ∧ ledger.Precedes (c.run ledger).1
  cases hupdate : c.update with
  | none =>
    cases c with
    | recordIntent spec t =>
      show (recordIntent spec t ledger).1.Sound ∧ ledger.Precedes (recordIntent spec t ledger).1
      rcases recordIntent_cases hs.1 spec t with ⟨hread, hsame | ⟨-, hnone, hjobs⟩⟩
      · rw [hsame]
        exact ⟨hs, .refl ledger⟩
      · refine advance_set hs hread hjobs ⟨fun _ => rfl, fun _ => rfl⟩ fun before hb => ?_
        rw [hnone] at hb
        cases hb
    | _ => cases hupdate
  | some target =>
    obtain ⟨jobId, t, update⟩ := target
    obtain ⟨hread, ⟨hsame, -⟩ | ⟨-, hid, htime, before, record, now, hget, hrecord, hjobs⟩⟩ :=
      transacts_run hs.1 hupdate
    · rw [hsame]
      exact ⟨hs, .refl ledger⟩
    · have hadvances : JobRecord.Advances update before := by
        have hb := hs.2 jobId before hget
        cases c with
        | recordIntent spec t => cases hupdate
        | markSubmitAmbiguous id t =>
          cases hupdate
          exact JobRecord.advances_markSubmitAmbiguous hb
        | markSubmitted id unit t =>
          cases hupdate
          exact JobRecord.advances_markSubmitted unit t.now hb
        | markDone id rc lost t =>
          cases hupdate
          exact JobRecord.advances_markDone rc lost t.now hb
        | markCompleted id t =>
          cases hupdate
          exact JobRecord.advances_markCompleted t.now hb
        | handlerFailure id reason t =>
          cases hupdate
          refine JobRecord.advances_handlerFailure reason t.now hb fun hlate => ?_
          exact h ⟨hid, htime, before, hget, hlate.1, hlate.2⟩
      obtain ⟨hle, hc⟩ := hadvances record hrecord
      refine advance_set hs hread hjobs ⟨hc.1, hc.2⟩ fun b hb => ?_
      rw [hget] at hb
      cases hb
      exact ⟨hle.forward, hle.completed, hle.deadLetter, hle.unit, hle.rc, hle.attempts⟩

theorem next_of_refusal (hread : ledger.Readable) (h : IsRefusal (machine.answer ledger c)) :
    machine.next ledger c = ledger := by
  show (c.run ledger).1 = ledger
  have hrefused : IsRefusal (c.run ledger).2 := h
  cases hupdate : c.update with
  | none =>
    cases c with
    | recordIntent spec t =>
      rcases (recordIntent_cases hread spec t).2 with hsame | ⟨hok, -⟩
      · exact hsame
      · exact absurd hrefused hok
    | _ => cases hupdate
  | some target =>
    obtain ⟨jobId, t, update⟩ := target
    rcases (transacts_run hread hupdate).2 with ⟨hsame, -⟩ | ⟨hok, -⟩
    · exact hsame
    · exact absurd hrefused hok

theorem handlerFailure_buries (reason : String) {r : JobRecord} (hid : isJobId jobId = true)
    (htime : t.timesOut = false) (hget : ledger.jobs.get? jobId = some r)
    (hstage : r.stage ≠ .deadLetter) (hlast : r.IsLast) :
    ∃ r', Dict.get? ((Call.handlerFailure jobId reason t).run ledger).1.jobs jobId = some r' ∧
      r'.stage = .deadLetter := by
  have hrecord : JobRecord.handlerFailure reason t.now r = .ok { r with
      attempts := r.attempts + 1
      lastError := some reason
      stage := .deadLetter
      deadLetterAt := some t.now } := if_pos hlast
  have hupdate : Ledger.updateJob jobId t (JobRecord.handlerFailure reason t.now) ledger =
      (ledger.setJob jobId { r with
        attempts := r.attempts + 1
        lastError := some reason
        stage := .deadLetter
        deadLetterAt := some t.now
        updatedAt := t.now },
      .ok { r with
        attempts := r.attempts + 1
        lastError := some reason
        stage := .deadLetter
        deadLetterAt := some t.now
        updatedAt := t.now }) := by
    unfold Ledger.updateJob
    rw [if_pos hid, if_neg (by rw [htime]; decide), hget]
    simp only [hrecord]
    rw [if_neg]
    intro heq
    exact hstage (congrArg JobRecord.stage heq).symm
  refine ⟨{ r with
    attempts := r.attempts + 1
    lastError := some reason
    stage := .deadLetter
    deadLetterAt := some t.now
    updatedAt := t.now }, ?_, rfl⟩
  show Dict.get? (recordHandlerFailure jobId reason t ledger).1.jobs jobId = _
  unfold recordHandlerFailure
  rw [hupdate]
  simp only
  rw [if_pos (show maxHandlerAttempts ≤ r.attempts + 1 from hlast)]
  rw [Ledger.jobs_thenRemove]
  exact Dict.get?_set_self _ _ _

/-- Along a run no record goes back, and no refused call changes anything. -/
def StagesAdvance (calls : List Call) : Prop :=
  (∀ before rest after, calls = before ++ rest ++ after →
    (machine.run {} before).Precedes (machine.run {} (before ++ rest))) ∧
  ∀ before c after, calls = before ++ c :: after →
    IsRefusal (machine.answer (machine.run {} before) c) →
    machine.next (machine.run {} before) c = machine.run {} before

/-- A call does not bury a completed job. -/
def Call.SparesCompleted (ledger : Ledger) (c : Call) : Prop := ¬ c.BuriesCompleted ledger

theorem run_precedes (hs : ledger.Sound) {calls : List Call}
    (h : machine.Along Call.SparesCompleted ledger calls) :
    (machine.run ledger calls).Sound ∧ ledger.Precedes (machine.run ledger calls) := by
  induction calls generalizing ledger with
  | nil => exact ⟨hs, .refl ledger⟩
  | cons c calls ih =>
    obtain ⟨hnext, hle⟩ := next_precedes hs h.1
    obtain ⟨hsound, hrest⟩ := ih hnext h.2
    exact ⟨hsound, hle.trans hrest⟩

/-- The stages of a run advance if and only if no call of it counts the last failure of a job that
is completed. -/
theorem stagesAdvance_iff (calls : List Call) :
    StagesAdvance calls ↔ machine.Along Call.SparesCompleted {} calls := by
  constructor
  · intro h
    -- The first call that buries a completed job sends its record back.
    have hbefore : ∀ n, n ≤ calls.length →
        machine.Along Call.SparesCompleted {} (calls.take n) := by
      intro n hn
      induction n with
      | zero => trivial
      | succ n ih =>
        have hlt : n < calls.length := by omega
        have hsplit : calls = calls.take n ++ calls[n] :: calls.drop (n + 1) := by
          rw [List.getElem_cons_drop, List.take_append_drop]
        rw [← List.take_append_getElem hlt, Machine.along_append]
        refine ⟨ih (by omega), ?_, trivial⟩
        intro hburies
        cases hc : calls[n] with
        | handlerFailure jobId reason t =>
          rw [hc] at hburies
          obtain ⟨hid, htime, r, hget, hcompleted, hlast⟩ := hburies
          obtain ⟨r', hget', hdead⟩ := handlerFailure_buries reason hid htime hget
            (by rw [hcompleted]; decide) hlast
          obtain ⟨r'', hget'', hle⟩ := h.1 (calls.take n) [calls[n]] (calls.drop (n + 1))
            (by rw [List.append_assoc]; exact hsplit) jobId r hget
          rw [Machine.run_append, hc] at hget''
          have hsame : r'' = r' := Option.some.inj (hget''.symm.trans hget')
          have hstill := hle.completed hcompleted
          rw [hsame, hdead] at hstill
          cases hstill
        | _ =>
          rw [hc] at hburies
          exact hburies
    have hall := hbefore calls.length (Nat.le_refl _)
    rwa [List.take_length] at hall
  · intro h
    refine ⟨fun before rest after hcalls => ?_, fun before c after hcalls hrefused => ?_⟩
    · rw [hcalls, Machine.along_append, Machine.along_append] at h
      have hsound := (run_precedes sound_empty h.1.1).1
      rw [Machine.run_append]
      exact (run_precedes hsound h.1.2).2
    · rw [hcalls, Machine.along_append] at h
      exact next_of_refusal (run_precedes sound_empty h.1).1.1 hrefused

/-- A job that is completed and whose wake the handler then refuses five times. -/
def buriedRun : List Call :=
  [.recordIntent
      { jobId := "j00000000000000000000", taskRef := "t", laneId := "l", passId := "p", attempt := 1,
        backend := "b", branch := "b", laneKey := "k", argv := [], boundSeconds := 1,
        createdAt := "0" } { now := "1" },
    .markSubmitted "j00000000000000000000" "unit" { now := "2" },
    .markDone "j00000000000000000000" 0 false { now := "3" },
    .markCompleted "j00000000000000000000" { now := "4" },
    .handlerFailure "j00000000000000000000" "ValueError" { now := "5" },
    .handlerFailure "j00000000000000000000" "ValueError" { now := "6" },
    .handlerFailure "j00000000000000000000" "ValueError" { now := "7" },
    .handlerFailure "j00000000000000000000" "ValueError" { now := "8" },
    .handlerFailure "j00000000000000000000" "ValueError" { now := "9" }]

theorem completed_job_is_buried : ¬ StagesAdvance buriedRun := by
  intro h
  have hcompleted : (Dict.get? (machine.run {} (buriedRun.take 4)).jobs
      "j00000000000000000000").map (·.stage) = some .completed := by decide +kernel
  have hburied : (Dict.get? (machine.run {} buriedRun).jobs
      "j00000000000000000000").map (·.stage) = some .deadLetter := by decide +kernel
  obtain ⟨r, hr, hstage⟩ := Option.map_eq_some_iff.mp hcompleted
  obtain ⟨r', hr', hle⟩ := h.1 (buriedRun.take 4) (buriedRun.drop 4) [] rfl _ r hr
  have hdead : r'.stage = .deadLetter := by
    rw [show machine.run {} (buriedRun.take 4 ++ buriedRun.drop 4) = machine.run {} buriedRun
      from rfl] at hr'
    rw [hr'] at hburied
    exact Option.some.inj hburied
  have hstill := hle.completed hstage
  rw [hdead] at hstill
  cases hstill

end Workbay.RemoteJobs

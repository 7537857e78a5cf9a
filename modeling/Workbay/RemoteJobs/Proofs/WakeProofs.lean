import Workbay.RemoteJobs.Wake
import Workbay.RemoteJobs.Proofs.StageProofs

/-!
# A failing wake does not block the queue

A drain that comes to a line passes it, or the handler fails for its job, whose failures are counted
in its record. The fifth failure is passed like a success, so five drains that come to the line are
enough, wherever the job has a record that counts.
-/

namespace Workbay.RemoteJobs

open List

open Effects (Turn loop)

/-- A record keeps its failures and stays dead. -/
structure JobRecord.Endures (a b : JobRecord) : Prop where
  attempts : a.attempts ≤ b.attempts
  deadLetter : a.stage = .deadLetter → b.stage = .deadLetter

theorem JobRecord.Endures.refl (r : JobRecord) : r.Endures r := ⟨Nat.le_refl _, id⟩

theorem JobRecord.Endures.trans {a b c : JobRecord} (h : a.Endures b) (h' : b.Endures c) :
    a.Endures c :=
  ⟨Nat.le_trans h.attempts h'.attempts, fun hd => h'.deadLetter (h.deadLetter hd)⟩

/-- Every deferral can be read and is of a job that has a record. -/
def Ledger.Backed (ledger : Ledger) : Prop :=
  ledger.Readable ∧ ∀ entry ∈ ledger.deferrals, ∃ r, ledger.jobs.get? entry.1 = some r

/-- No record is lost, and the deferrals stay backed. -/
structure Ledger.LeadsTo (a b : Ledger) : Prop where
  backed : b.Backed
  endures : ∀ id r, a.jobs.get? id = some r →
    ∃ r', b.jobs.get? id = some r' ∧ r.Endures r'

namespace Ledger

variable {a b c : Ledger}

theorem LeadsTo.refl (h : a.Backed) : a.LeadsTo a := ⟨h, fun _ r hr => ⟨r, hr, .refl r⟩⟩

theorem LeadsTo.trans (h : a.LeadsTo b) (h' : b.LeadsTo c) : a.LeadsTo c := by
  refine ⟨h'.backed, fun id r hr => ?_⟩
  obtain ⟨r', hr', hle⟩ := h.endures id r hr
  obtain ⟨r'', hr'', hle'⟩ := h'.endures id r' hr'
  exact ⟨r'', hr'', hle.trans hle'⟩

variable {id : String} {before : JobRecord}

theorem leadsTo_set (ha : a.Backed) (hb : b.Readable) {record : JobRecord}
    (hjobs : b.jobs = a.jobs.set id record)
    (hrecord : ∀ before, a.jobs.get? id = some before → before.Endures record)
    (hdeferrals : ∀ entry ∈ b.deferrals, entry ∈ a.deferrals) : a.LeadsTo b := by
  have hendures : ∀ k r, a.jobs.get? k = some r →
      ∃ r', b.jobs.get? k = some r' ∧ r.Endures r' := by
    intro k r hr
    rw [hjobs, Dict.get?_set]
    split
    · rename_i hk
      subst hk
      exact ⟨record, rfl, hrecord r hr⟩
    · exact ⟨r, hr, .refl r⟩
  refine ⟨⟨hb, fun entry hentry => ?_⟩, hendures⟩
  obtain ⟨r, hr⟩ := ha.2 entry (hdeferrals entry hentry)
  obtain ⟨r', hr', -⟩ := hendures _ r hr
  exact ⟨r', hr'⟩

theorem leadsTo_of_jobs (ha : a.Backed) (hb : b.Readable) (hjobs : b.jobs = a.jobs)
    (hdeferrals : ∀ entry ∈ b.deferrals, entry ∈ a.deferrals) : a.LeadsTo b := by
  refine ⟨⟨hb, fun entry hentry => ?_⟩, fun id r hr => ?_⟩
  · rw [hjobs]
    exact ha.2 entry (hdeferrals entry hentry)
  · rw [hjobs]
    exact ⟨r, hr, .refl r⟩

theorem leadsTo_defer (ha : a.Backed) {deferral : Deferral} {r : JobRecord}
    (hvalid : isDeferralValid (id, deferral) = true) (hr : a.jobs.get? id = some r) :
    a.LeadsTo { a with deferrals := a.deferrals.set id deferral } := by
  have hmem : ∀ entry ∈ a.deferrals.set id deferral,
      entry = (id, deferral) ∨ entry ∈ a.deferrals := fun entry hentry => Dict.mem_set hentry
  refine ⟨⟨?_, fun entry hentry => ?_⟩, fun k r hr => ⟨r, hr, .refl r⟩⟩
  · refine all_eq_true.mpr fun entry hentry => ?_
    rcases hmem entry hentry with rfl | hold
    · exact hvalid
    · exact all_eq_true.mp ha.1 entry hold
  · rcases hmem entry hentry with rfl | hold
    · exact ⟨r, hr⟩
    · exact ha.2 entry hold

/-! ### The operations of a drain -/

theorem readDeferrals_eq (h : a.Readable) : a.readDeferrals = .ok a.deferrals := if_pos h

theorem removeCompletionDeferral_leadsTo (hid : isJobId id = true) (ha : a.Backed) :
    ∃ b, removeCompletionDeferral id a = (b, .ok ()) ∧ a.LeadsTo b ∧
      b.jobs = a.jobs := by
  refine ⟨{ a with deferrals := Dict.pop a.deferrals id }, ?_, ?_, rfl⟩
  · simp only [removeCompletionDeferral, if_pos hid, readDeferrals_eq ha.1]
  · refine leadsTo_of_jobs ha ?_ rfl fun entry hentry => (mem_filter.mp hentry).1
    exact all_eq_true.mpr fun entry hentry =>
      all_eq_true.mp ha.1 entry (mem_filter.mp hentry).1

theorem updateJob_leadsTo (now : String) {update : JobRecord → Except LedgerError JobRecord}
    {record : JobRecord} (hid : isJobId id = true) (ha : a.Backed)
    (hbefore : a.jobs.get? id = some before) (hupdate : update before = .ok record)
    (hendures : before.Endures record) :
    ∃ b at_, updateJob id { now } update a = (b, .ok { record with updatedAt := at_ }) ∧
      a.LeadsTo b ∧ b.deferrals = a.deferrals ∧
      b.jobs.get? id = some { record with updatedAt := at_ } := by
  by_cases hsame : record = before
  · refine ⟨a, record.updatedAt, ?_, .refl ha, rfl, ?_⟩
    · simp only [updateJob, if_pos hid, hbefore, hupdate, if_pos hsame, Bool.false_eq_true, if_false]
    · rw [hbefore, hsame]
  · refine ⟨a.setJob id { record with updatedAt := now }, now, ?_, ?_, rfl, ?_⟩
    · simp only [updateJob, if_pos hid, hbefore, hupdate, if_neg hsame, Bool.false_eq_true, if_false]
    · refine leadsTo_set ha ha.1 rfl (fun old hold => ?_) fun entry hentry => hentry
      obtain rfl := Option.some.inj (hbefore.symm.trans hold)
      exact ⟨hendures.attempts, hendures.deadLetter⟩
    · exact Dict.get?_set_self _ _ _

theorem incrementDeferredAttempts_leadsTo (id now : String) (ha : a.Backed) :
    ∃ b, incrementDeferredAttempts id now a = (b, .ok ()) ∧ a.LeadsTo b ∧ b.jobs = a.jobs := by
  cases hget : a.deferrals.get? id with
  | none =>
    exact ⟨a, by simp only [incrementDeferredAttempts, readDeferrals_eq ha.1, hget], .refl ha, rfl⟩
  | some deferral =>
    have hmem := Dict.mem_of_get? hget
    have hvalid := all_eq_true.mp ha.1 _ hmem
    obtain ⟨r, hr⟩ := ha.2 _ hmem
    refine ⟨_, by simp only [incrementDeferredAttempts, readDeferrals_eq ha.1, hget]; rfl,
      leadsTo_defer ha ?_ hr, rfl⟩
    simp only [isDeferralValid, Bool.and_eq_true, decide_eq_true_eq] at hvalid ⊢
    obtain ⟨⟨⟨⟨hid, hjob⟩, hreason⟩, hattempts⟩, hevent⟩ := hvalid
    exact ⟨⟨⟨⟨hid, hjob⟩, hreason⟩, Nat.le_succ_of_le hattempts⟩, hevent⟩

theorem recordHandlerFailure_leadsTo (reason now : String) (hid : isJobId id = true) (ha : a.Backed)
    (hbefore : a.jobs.get? id = some before) :
    ∃ b record, recordHandlerFailure id reason { now } a = (b, .ok record) ∧ a.LeadsTo b ∧
      record.attempts = before.attempts + 1 ∧ b.jobs.get? id = some record := by
  have hupdate : ∃ record, JobRecord.handlerFailure reason now before = .ok record ∧
      before.Endures record ∧ record.attempts = before.attempts + 1 := by
    rw [JobRecord.handlerFailure]
    split
    · exact ⟨_, rfl, ⟨Nat.le_succ _, fun _ => rfl⟩, rfl⟩
    · exact ⟨_, rfl, ⟨Nat.le_succ _, fun hd => hd⟩, rfl⟩
  obtain ⟨record, hrecord, hendures, hattempts⟩ := hupdate
  obtain ⟨b, at_, hok, hleads, -, hget⟩ := updateJob_leadsTo now hid ha hbefore hrecord hendures
  rw [recordHandlerFailure, hok]
  by_cases hlast : maxHandlerAttempts ≤ record.attempts
  · obtain ⟨b', hremove, hleads', hjobs⟩ := removeCompletionDeferral_leadsTo hid hleads.backed
    refine ⟨b', { record with updatedAt := at_ }, ?_, hleads.trans hleads', hattempts, ?_⟩
    · simp only [if_pos hlast, thenRemove, hremove]
    · rw [hjobs]
      exact hget
  · exact ⟨b, { record with updatedAt := at_ }, if_neg hlast, hleads, hattempts, hget⟩

theorem recordCompletionDeferral_leadsTo {event : WakeEvent} {reason : String} (now : String)
    (hid : isJobId event.jobId = true) (hreason : reason ≠ "") (ha : a.Backed)
    (hbefore : a.jobs.get? event.jobId = some before) :
    ∃ b, recordCompletionDeferral event reason now a = (b, .ok ()) ∧ a.LeadsTo b := by
  have hupdate : JobRecord.completionDeferral reason now before = .ok { before with
      completionDeferredAt := some (before.completionDeferredAt.getD now)
      completionDeferredReason := some reason } := rfl
  obtain ⟨b, at_, hok, hleads, hdeferrals, hget⟩ :=
    updateJob_leadsTo now hid ha hbefore hupdate ⟨Nat.le_refl _, fun hd => hd⟩
  refine ⟨_, by simp only [recordCompletionDeferral, hok, readDeferrals_eq hleads.backed.1]; rfl,
    hleads.trans (leadsTo_defer hleads.backed ?_ hget)⟩
  simp [isDeferralValid, nextDeferral, hid, hreason]

theorem recordCompletionDeferral_next {event : WakeEvent} {reason : String} (now : String)
    (hreason : reason ≠ "") (ha : a.Backed) :
    a.LeadsTo (recordCompletionDeferral event reason now a).1 := by
  by_cases hid : isJobId event.jobId = true
  · cases hget : a.jobs.get? event.jobId with
    | none =>
      have hrefused : recordCompletionDeferral event reason now a = (a, .error .jobNotFound) := by
        simp only [recordCompletionDeferral, updateJob, if_pos hid, hget, Bool.false_eq_true,
          if_false]
      rw [hrefused]
      exact .refl ha
    | some before =>
      obtain ⟨b, hok, hleads⟩ := recordCompletionDeferral_leadsTo now hid hreason ha hget
      rw [hok]
      exact hleads
  · have hrefused : recordCompletionDeferral event reason now a = (a, .error .invalidJobId) := by
      simp only [recordCompletionDeferral, updateJob, if_neg hid]
    rw [hrefused]
    exact .refl ha

theorem deferrals_updateJob (id : String) (t : Timing)
    (update : JobRecord → Except LedgerError JobRecord) (a : Ledger) :
    (updateJob id t update a).1.deferrals = a.deferrals := by
  rcases updateJob_cases id t update a with ⟨hsame, -⟩ | ⟨-, -, _, _, _, -, -, -, hset⟩
  · rw [hsame]
  · rw [hset]
    rfl

theorem deferrals_thenRemove (id : String) (result : Ledger × Except LedgerError JobRecord) :
    ∀ entry ∈ (thenRemove id result).1.deferrals, entry ∈ result.1.deferrals := by
  intro entry hentry
  rw [thenRemove] at hentry
  split at hentry
  · exact hentry
  · unfold removeCompletionDeferral readDeferrals at hentry
    split at hentry <;> rename_i heq
    · split at heq
      · split at heq
        · cases heq
          exact hentry
        · cases heq
      · cases heq
        exact hentry
    · split at heq
      · split at heq
        · cases heq
        · rename_i records hrecords
          obtain ⟨rfl, -⟩ := Prod.mk.inj heq
          split at hrecords
          · cases hrecords
            exact (mem_filter.mp hentry).1
          · cases hrecords
      · cases heq

theorem deferrals_next (a : Ledger) (c : Call) :
    ∀ entry ∈ (machine.next a c).deferrals, entry ∈ a.deferrals := by
  intro entry hentry
  change entry ∈ (c.run a).1.deferrals at hentry
  cases c with
  | recordIntent spec t =>
    simp only [Call.run, recordIntent] at hentry
    split at hentry
    · split at hentry
      · exact hentry
      · split at hentry
        · split at hentry <;> exact hentry
        · exact hentry
    · exact hentry
  | markSubmitAmbiguous id t =>
    simp only [Call.run, markSubmitAmbiguous, deferrals_updateJob] at hentry
    exact hentry
  | markSubmitted id unit t =>
    simp only [Call.run, markSubmitted] at hentry
    split at hentry
    · exact hentry
    · rw [deferrals_updateJob] at hentry
      exact hentry
  | markDone id rc lost t =>
    simp only [Call.run, markDone, deferrals_updateJob] at hentry
    exact hentry
  | markCompleted id t =>
    have hupdate := deferrals_thenRemove id _ entry hentry
    rw [deferrals_updateJob] at hupdate
    exact hupdate
  | handlerFailure id reason t =>
    have hkept := deferrals_updateJob id t (JobRecord.handlerFailure reason t.now) a
    simp only [Call.run, recordHandlerFailure] at hentry
    split at hentry <;> rename_i heq
    · rw [heq] at hkept
      split at hentry
      · rw [← hkept]
        exact deferrals_thenRemove id _ entry hentry
      · rw [← hkept]
        exact hentry
    · rw [heq] at hkept
      rw [← hkept]
      exact hentry

theorem endures_update {c : Call} {t : Timing} {update : JobRecord → Except LedgerError JobRecord}
    (h : c.update = some (id, t, update)) {r r' : JobRecord} (hr : update r = .ok r') :
    r.Endures r' := by
  cases c with
  | recordIntent spec t => cases h
  | markSubmitAmbiguous id t =>
    cases h
    cases hr
    exact ⟨Nat.le_refl _, fun hd => hd⟩
  | markSubmitted id unit t =>
    cases h
    unfold JobRecord.markSubmitted at hr
    cases hstage : r.stage <;> simp only [hstage] at hr
    case intent =>
      cases hr
      exact ⟨Nat.le_refl _, fun hd => by rw [hstage] at hd; cases hd⟩
    case deadLetter => cases hr
    all_goals
      split at hr
      · cases hr
        exact ⟨Nat.le_refl _, fun hd => by rw [hstage] at hd; cases hd⟩
      · split at hr
        · cases hr
        · cases hr
          exact .refl r
  | markDone id rc lost t =>
    cases h
    unfold JobRecord.markDone at hr
    cases hstage : r.stage <;> simp only [hstage] at hr
    case intent | submitted =>
      cases hr
      exact ⟨Nat.le_refl _, fun hd => by rw [hstage] at hd; cases hd⟩
    case deadLetter => cases hr
    all_goals
      split at hr
      · cases hr
      · cases hr
        exact .refl r
  | markCompleted id t =>
    cases h
    unfold JobRecord.markCompleted at hr
    cases hstage : r.stage <;> simp only [hstage] at hr
    case done =>
      cases hr
      exact ⟨Nat.le_refl _, fun hd => by rw [hstage] at hd; cases hd⟩
    case completed =>
      cases hr
      exact .refl r
    all_goals cases hr
  | handlerFailure id reason t =>
    cases h
    unfold JobRecord.handlerFailure at hr
    split at hr
    · cases hr
      exact ⟨Nat.le_succ _, fun _ => rfl⟩
    · cases hr
      exact ⟨Nat.le_succ _, fun hd => hd⟩

theorem next_leadsTo (ha : a.Backed) (call : Call) : a.LeadsTo (machine.next a call) := by
  have hdeferrals := deferrals_next a call
  change a.LeadsTo (call.run a).1
  change ∀ entry ∈ (call.run a).1.deferrals, entry ∈ a.deferrals at hdeferrals
  cases hupdate : call.update with
  | none =>
    cases call with
    | recordIntent spec t =>
      obtain ⟨hread, hsame | ⟨-, hnew, hjobs⟩⟩ := recordIntent_cases ha.1 spec t
      · rw [show (Call.recordIntent spec t).run a = recordIntent spec t a from rfl, hsame]
        exact .refl ha
      · refine leadsTo_set ha hread hjobs (fun before hbefore => ?_) hdeferrals
        rw [hnew] at hbefore
        cases hbefore
    | markSubmitAmbiguous | markSubmitted | markDone | markCompleted | handlerFailure =>
      cases hupdate
  | some target =>
    obtain ⟨id, t, update⟩ := target
    obtain ⟨hread, ⟨hsame, -⟩ | ⟨-, -, -, before, record, now, hget, hok, hjobs⟩⟩ :=
      transacts_run ha.1 hupdate
    · rw [hsame]
      exact .refl ha
    · refine leadsTo_set ha hread hjobs (fun old hold => ?_) hdeferrals
      obtain rfl := Option.some.inj (hget.symm.trans hold)
      have hendures := endures_update hupdate hok
      exact ⟨hendures.attempts, hendures.deadLetter⟩

theorem run_leadsTo (ha : a.Backed) (calls : List Call) : a.LeadsTo (machine.run a calls) := by
  induction calls generalizing a with
  | nil => exact .refl ha
  | cons call calls ih =>
    have hfirst := next_leadsTo ha call
    exact hfirst.trans (ih hfirst.backed)

end Ledger

variable {timestamp : String → ℚ} {c : DrainCall} {q : WakeQueue} {d : Drain} {line : WakeLine}

/-! ## Drains that come to a line -/

/-- The place of the cursor among all the lines that ever were in the journal. -/
def WakeQueue.position (q : WakeQueue) : Nat := q.dropped + q.cursor

/-- A handler that defers says why. -/
def DrainCall.GivesReasons (c : DrainCall) : Prop :=
  ∀ n event ledger reason, (c.handler n event ledger).outcome = .deferred reason → reason ≠ ""

/-- Neither its budget nor its stop callback keeps a drain from the line at the cursor. -/
def DrainCall.arrives (timestamp : String → ℚ) (c : DrainCall) (q : WakeQueue) : Bool :=
  match q.ledger.readDeferrals with
  | .error _ => true
  | .ok deferrals =>
    !c.isUsedUp (c.retryAll timestamp deferrals (q.maintain c.isDueBefore)).state &&
      !c.shouldStop (c.retryAll timestamp deferrals (q.maintain c.isDueBefore)).state.checks

theorem DrainCall.arrives_of_unbounded (timestamp : String → ℚ) (q : WakeQueue)
    (hbudget : c.maxEvents = none) (hstop : ∀ n, c.shouldStop n = false) :
    c.arrives timestamp q = true := by
  rw [arrives]
  split
  · rfl
  · simp only [isUsedUp, hbudget, hstop, Option.any_none, Bool.not_false, Bool.and_self]

/-- A handler that defers in an operation says why. -/
def WakeOp.GivesReasons : WakeOp → Prop
  | .drain c => c.GivesReasons
  | _ => True

/-- An operation is a drain that comes to the line at the cursor. -/
def WakeOp.arrives (timestamp : String → ℚ) (q : WakeQueue) : WakeOp → Bool
  | .drain c => c.arrives timestamp q
  | _ => false

/-- The number of the drains of a run that come to the line at the cursor. -/
def arrivals (timestamp : String → ℚ) : WakeQueue → List WakeOp → Nat
  | _, [] => 0
  | q, op :: ops =>
    (if op.arrives timestamp q then 1 else 0) + arrivals timestamp (op.next timestamp q) ops

namespace WakeQueue

@[simp] theorem ledger_maintain (isDue : Bool) (q : WakeQueue) :
    (q.maintain isDue).ledger = q.ledger := by
  cases isDue <;> rfl

@[simp] theorem pending_maintain (isDue : Bool) (q : WakeQueue) :
    (q.maintain isDue).pending = q.pending := by
  cases isDue <;> rfl

@[simp] theorem position_maintain (isDue : Bool) (q : WakeQueue) :
    (q.maintain isDue).position = q.position := by
  cases isDue <;> rfl

end WakeQueue

/-- The journal of a drain goes on from that of a queue: lines are appended and the cursor does not
go back. -/
structure Drain.Onward (q : WakeQueue) (d : Drain) : Prop where
  lines : q.lines <+: d.queue.lines
  dropped : d.queue.dropped = q.dropped
  cursor : q.cursor ≤ d.queue.cursor

/-- The cursor and the jobs that were looked at stay. -/
structure Drain.Still (q : WakeQueue) (reexamined : List String) (d : Drain) : Prop where
  lines : q.lines <+: d.queue.lines
  dropped : d.queue.dropped = q.dropped
  cursor : d.queue.cursor = q.cursor
  reexamined : d.reexamined = reexamined

namespace Drain

theorem Still.onward {reexamined : List String} (h : Still q reexamined d) : Onward q d :=
  ⟨h.lines, h.dropped, h.cursor.ge⟩

theorem Onward.pass (h : Onward q d) : Onward q d.pass :=
  ⟨h.lines, h.dropped, Nat.le_succ_of_le h.cursor⟩

theorem Onward.handle (h : Onward q d) (c : DrainCall) (event : WakeEvent) :
    Onward q (c.handle event d) :=
  ⟨h.lines.trans (prefix_append _ _), h.dropped, h.cursor⟩

theorem Still.handle {reexamined : List String} (h : Still q reexamined d) (c : DrainCall)
    (event : WakeEvent) : Still q reexamined (c.handle event d) :=
  ⟨h.lines.trans (prefix_append _ _), h.dropped, h.cursor, h.reexamined⟩

variable {α : Type} {op : Ledger → Ledger × Except LedgerError α}
  {next : α → Drain → Turn Drain LedgerError}

theorem perform_state {P : Drain → Prop} (hraised : ∀ ledger, P { d with queue.ledger := ledger })
    (hnext : ∀ a d', P d' → P (next a d').state) : P (d.perform op next).state := by
  rw [perform]
  split
  · exact hraised _
  · exact hnext _ _ (hraised _)

theorem perform_of_ok {ledger : Ledger} {a : α} (h : op d.queue.ledger = (ledger, .ok a)) :
    d.perform op next = next a { d with queue.ledger := ledger } := by
  rw [perform, h]

theorem perform_ledger {P : Ledger → Prop} (hop : P (op d.queue.ledger).1)
    (hnext : ∀ (a : α) (d' : Drain), P d'.queue.ledger → P (next a d').state.queue.ledger) :
    P (d.perform op next).state.queue.ledger := by
  rw [perform]
  split
  · rename_i heq
    rw [heq] at hop
    exact hop
  · rename_i ledger a heq
    rw [heq] at hop
    exact hnext a { d with queue.ledger := ledger } hop

end Drain

namespace DrainCall

open Drain

theorem retry_still {reexamined : List String} (c : DrainCall) (entry : String × Deferral)
    (h : Still q reexamined d) : Still q reexamined (c.retry entry d).state := by
  have hchecked : Still q reexamined d.checked := ⟨h.lines, h.dropped, h.cursor, h.reexamined⟩
  rw [retry]
  split
  · exact h
  · split
    · exact hchecked
    · split
      · exact hchecked
      · exact hchecked
      · split
        · exact perform_state (fun _ => ⟨h.lines, h.dropped, h.cursor, h.reexamined⟩)
            fun _ _ h' => h'
        · have hspent : Still q reexamined d.checked.spend :=
            ⟨h.lines, h.dropped, h.cursor, h.reexamined⟩
          have hhandle := hspent.handle c entry.2.event
          have hledger : ∀ ledger, Still q reexamined
              { c.handle entry.2.event d.checked.spend with queue.ledger := ledger } := fun _ =>
            ⟨hhandle.lines, hhandle.dropped, hhandle.cursor, hhandle.reexamined⟩
          rw [retryOpen]
          split
          · exact perform_state hledger fun _ _ h' => ⟨h'.lines, h'.dropped, h'.cursor, h'.reexamined⟩
          · exact perform_state hledger fun _ _ h' => h'
          · refine perform_state hledger fun _ d' h' => perform_state (fun _ => ?_) fun _ d'' h'' => ?_
            · exact ⟨h'.lines, h'.dropped, h'.cursor, h'.reexamined⟩
            · split <;> exact ⟨h''.lines, h''.dropped, h''.cursor, h''.reexamined⟩

theorem deliver_onward (c : DrainCall) (line : WakeLine) (h : Onward q d) :
    Onward q (c.deliver line d).state := by
  have hchecked : Onward q d.checked := ⟨h.lines, h.dropped, h.cursor⟩
  have hpass : Onward q d.checked.pass := hchecked.pass
  have hopen : ∀ event, Onward q (c.deliverOpen event d.checked).state := by
    intro event
    have hhandle := hchecked.handle c event
    have hledger : ∀ ledger, Onward q { c.handle event d.checked with queue.ledger := ledger } :=
      fun _ => ⟨hhandle.lines, hhandle.dropped, hhandle.cursor⟩
    rw [deliverOpen]
    split
    · exact ⟨hhandle.pass.lines, hhandle.pass.dropped, hhandle.pass.cursor⟩
    · exact perform_state hledger fun _ _ h' => ⟨h'.pass.lines, h'.pass.dropped, h'.pass.cursor⟩
    · refine perform_state hledger fun _ _ h' => ?_
      split
      · exact ⟨h'.pass.lines, h'.pass.dropped, h'.pass.cursor⟩
      · exact ⟨h'.lines, h'.dropped, h'.cursor⟩
  unfold deliver
  split
  · exact h
  · split
    · exact hchecked
    · split
      · exact ⟨hpass.lines, hpass.dropped, hpass.cursor⟩
      · rw [deliverEvent]
        split
        · split
          · exact ⟨hpass.lines, hpass.dropped, hpass.cursor⟩
          · split
            · exact ⟨hpass.lines, hpass.dropped, hpass.cursor⟩
            · exact hopen _
        · split
          · exact ⟨hpass.lines, hpass.dropped, hpass.cursor⟩
          · exact hopen _
        · exact hchecked

theorem handle_leadsTo (c : DrainCall) (event : WakeEvent) (h : d.queue.ledger.Backed) :
    d.queue.ledger.LeadsTo (c.handle event d).queue.ledger :=
  Ledger.run_leadsTo h _

theorem retry_leadsTo (hreasons : c.GivesReasons) {entry : String × Deferral}
    (hvalid : Ledger.isDeferralValid entry = true) (h : d.queue.ledger.Backed) :
    (c.retry entry d).IsCalm ∧ d.queue.ledger.LeadsTo (c.retry entry d).state.queue.ledger := by
  simp only [Ledger.isDeferralValid, Bool.and_eq_true, decide_eq_true_eq] at hvalid
  obtain ⟨⟨⟨⟨hid, -⟩, -⟩, -⟩, hevent⟩ := hvalid
  rw [retry]
  split
  · exact ⟨Turn.isCalm_leave _, .refl h⟩
  · split
    · exact ⟨Turn.isCalm_leave _, .refl h⟩
    · cases hget : d.queue.ledger.jobs.get? entry.1 with
      | none =>
        simp only [readJob, if_pos hid, hget]
        exact ⟨Turn.isCalm_next _, .refl h⟩
      | some saved =>
        simp only [readJob, if_pos hid, hget]
        split
        · have hchecked : d.checked.queue.ledger.Backed := h
          obtain ⟨ledger, hok, hleads, -⟩ := Ledger.removeCompletionDeferral_leadsTo hid hchecked
          rw [perform_of_ok hok]
          exact ⟨Turn.isCalm_next _, hleads⟩
        · have hhandle : d.queue.ledger.LeadsTo
              (c.handle entry.2.event d.checked.spend).queue.ledger := handle_leadsTo c _ h
          obtain ⟨record, hrecord, -⟩ := hhandle.endures _ _ hget
          rw [retryOpen]
          cases houtcome : (c.handling entry.2.event d.checked.spend).outcome with
          | processed =>
            obtain ⟨ledger, hok, hleads, -⟩ :=
              Ledger.removeCompletionDeferral_leadsTo hid hhandle.backed
            simp only [perform_of_ok hok]
            exact ⟨Turn.isCalm_next _, hhandle.trans hleads⟩
          | deferred reason =>
            obtain ⟨ledger, hok, hleads⟩ := Ledger.recordCompletionDeferral_leadsTo
              (c.now d.checked.spend) (hevent.symm ▸ hid) (hreasons _ _ _ _ houtcome)
              hhandle.backed (hevent.symm ▸ hrecord)
            simp only [perform_of_ok hok]
            exact ⟨Turn.isCalm_next _, hhandle.trans hleads⟩
          | failed reason =>
            obtain ⟨ledger, hok, hleads, hjobs⟩ := Ledger.incrementDeferredAttempts_leadsTo entry.1
              (c.now d.checked.spend) hhandle.backed
            obtain ⟨ledger', failure, hok', hleads', -⟩ := Ledger.recordHandlerFailure_leadsTo
              reason (c.now d.checked.spend) hid hleads.backed (hjobs.symm ▸ hrecord)
            simp only [perform_of_ok hok]
            rw [perform_of_ok hok']
            split <;> exact ⟨Turn.isCalm_next _, (hhandle.trans hleads).trans hleads'⟩

theorem deliver_leadsTo (hreasons : c.GivesReasons) (line : WakeLine)
    (h : d.queue.ledger.Backed) :
    d.queue.ledger.LeadsTo (c.deliver line d).state.queue.ledger := by
  have hopen : ∀ event, d.checked.queue.ledger.LeadsTo
      (c.deliverOpen event d.checked).state.queue.ledger := by
    intro event
    have hhandle : d.checked.queue.ledger.LeadsTo (c.handle event d.checked).queue.ledger :=
      handle_leadsTo c event h
    rw [deliverOpen]
    cases houtcome : (c.handling event d.checked).outcome with
    | processed => exact hhandle
    | deferred reason =>
      refine hhandle.trans (perform_ledger ?_ fun _ _ hleads => hleads)
      exact Ledger.recordCompletionDeferral_next _ (hreasons _ _ _ _ houtcome) hhandle.backed
    | failed reason =>
      refine hhandle.trans (perform_ledger ?_ fun _ _ hleads => ?_)
      · exact Ledger.next_leadsTo hhandle.backed (.handlerFailure event.jobId reason _)
      · split <;> exact hleads
  unfold deliver
  split
  · exact .refl h
  · split
    · exact .refl h
    · split
      · exact .refl h
      · rw [deliverEvent]
        split
        · split
          · exact .refl h
          · split
            · exact .refl h
            · exact hopen _
        · split
          · exact .refl h
          · exact hopen _
        · exact .refl h

end DrainCall

/-- The job of a line, if the line can be decoded, has a record. -/
def Recorded (line : WakeLine) (ledger : Ledger) : Prop :=
  ∀ event, line = some event → ∃ record, readJob event.jobId ledger = .ok record

variable {id : String} {event : WakeEvent}

theorem readJob_eq_ok {ledger : Ledger} {record : JobRecord} : readJob id ledger = .ok record ↔
      isJobId id = true ∧ ledger.jobs.get? id = some record := by
  rw [readJob]
  by_cases hid : isJobId id = true
  · rw [if_pos hid]
    cases ledger.jobs.get? id <;> simp [hid]
  · simp [hid]

theorem Recorded.leadsTo {a b : Ledger} (h : Recorded line a) (hleads : a.LeadsTo b) :
    Recorded line b := by
  intro event hevent
  obtain ⟨record, hrecord⟩ := h event hevent
  obtain ⟨hid, hget⟩ := readJob_eq_ok.mp hrecord
  obtain ⟨record', hget', -⟩ := hleads.endures _ _ hget
  exact ⟨record', readJob_eq_ok.mpr ⟨hid, hget'⟩⟩

/-- What comes of a drain at a line that it does not pass: the failure of the handler is counted in
the record of the job and is not the last one. -/
def Charged (line : WakeLine) (before after : Ledger) : Prop :=
  ∃ event r', line = some event ∧ after.jobs.get? event.jobId = some r' ∧
    r'.attempts < maxHandlerAttempts ∧
    ∀ r, before.jobs.get? event.jobId = some r → r.attempts + 1 ≤ r'.attempts

theorem Charged.of_leadsTo {a b c : Ledger} (hleads : a.LeadsTo b) (h : Charged line b c) :
    Charged line a c := by
  obtain ⟨event, r', hline, hr', hlt, hcount⟩ := h
  refine ⟨event, r', hline, hr', hlt, fun r hr => ?_⟩
  obtain ⟨r'', hr'', hle⟩ := hleads.endures _ _ hr
  exact Nat.le_trans (Nat.succ_le_succ hle.attempts) (hcount r'' hr'')

theorem DrainCall.deliver_head (hreasons : c.GivesReasons) (hback : d.queue.ledger.Backed)
    (hrecord : Recorded line d.queue.ledger) (hused : c.isUsedUp d = false)
    (hstop : c.shouldStop d.checks = false) :
    (∃ d', c.deliver line d = .next d' ∧ d'.queue.cursor = d.queue.cursor + 1) ∨
      ∃ d', c.deliver line d = .leave d' ∧ d'.queue.cursor = d.queue.cursor ∧
        Charged line d.queue.ledger d'.queue.ledger := by
  cases line with
  | none =>
    left
    simp only [deliver, hused, hstop, Bool.false_eq_true, if_false]
    exact ⟨_, rfl, rfl⟩
  | some event =>
    obtain ⟨saved, hsaved⟩ := hrecord event rfl
    have hsaved' : readJob event.jobId d.checked.queue.ledger = .ok saved := hsaved
    simp only [deliver, hused, hstop, Bool.false_eq_true, if_false, deliverEvent, hsaved']
    split
    · exact .inl ⟨_, rfl, rfl⟩
    · split
      · exact .inl ⟨_, rfl, rfl⟩
      · obtain ⟨hid, hget⟩ := readJob_eq_ok.mp hsaved
        have hhandle : d.queue.ledger.LeadsTo (c.handle event d.checked).queue.ledger :=
          c.handle_leadsTo event hback
        obtain ⟨record, hrecord', -⟩ := hhandle.endures _ _ hget
        rw [deliverOpen]
        cases houtcome : (c.handling event d.checked).outcome with
        | processed => exact .inl ⟨_, rfl, rfl⟩
        | deferred reason =>
          obtain ⟨ledger, hok, -⟩ := Ledger.recordCompletionDeferral_leadsTo (c.now d.checked) hid
            (hreasons _ _ _ _ houtcome) hhandle.backed hrecord'
          simp only [Drain.perform_of_ok hok]
          exact .inl ⟨_, rfl, rfl⟩
        | failed reason =>
          obtain ⟨ledger, failure, hok, -, hattempts, hfailure⟩ :=
            Ledger.recordHandlerFailure_leadsTo reason (c.now d.checked) hid hhandle.backed hrecord'
          simp only [Drain.perform_of_ok hok]
          split
          · exact .inl ⟨_, rfl, rfl⟩
          · rename_i hlast
            refine .inr ⟨_, rfl, rfl, ?_⟩
            refine Charged.of_leadsTo hhandle ⟨event, failure, rfl, hfailure, Nat.lt_of_not_le hlast,
              fun r hr => ?_⟩
            obtain rfl := Option.some.inj (hrecord'.symm.trans hr)
            exact hattempts.ge

theorem head_pending {q q' : WakeQueue} (hlines : q.lines <+: q'.lines)
    (hcursor : q'.cursor = q.cursor) (hhead : q.pending.head? = some line) :
    q'.pending.head? = some line := by
  obtain ⟨extra, hextra⟩ := hlines
  rw [WakeQueue.pending, List.head?_drop] at hhead ⊢
  obtain ⟨hlt, -⟩ := List.getElem?_eq_some_iff.mp hhead
  rw [hcursor, ← hextra, List.getElem?_append_left hlt]
  exact hhead

theorem DrainCall.retryAll_spec (timestamp : String → ℚ) (hreasons : c.GivesReasons)
    (h : q.ledger.Backed) :
    (c.retryAll timestamp q.ledger.deferrals q).IsCalm ∧
      Drain.Still q (q.ledger.deferrals.map Prod.fst)
        (c.retryAll timestamp q.ledger.deferrals q).state ∧
      q.ledger.LeadsTo (c.retryAll timestamp q.ledger.deferrals q).state.queue.ledger := by
  have hvalid : ∀ entry ∈ due timestamp q.ledger.deferrals,
      Ledger.isDeferralValid entry = true := by
    intro entry hentry
    exact all_eq_true.mp h.1 entry ((mem_insertionSort _).mp hentry)
  have hturn : ∀ entry ∈ due timestamp q.ledger.deferrals, ∀ d : Drain,
      q.ledger.LeadsTo d.queue.ledger →
      (c.retry entry d).IsCalm ∧ q.ledger.LeadsTo (c.retry entry d).state.queue.ledger := by
    intro entry hentry d hleads
    obtain ⟨hcalm, hleads'⟩ := c.retry_leadsTo hreasons (hvalid entry hentry) hleads.backed
    exact ⟨hcalm, hleads.trans hleads'⟩
  refine ⟨?_, ?_, ?_⟩
  · exact Effects.loop_calm hturn (.refl h)
  · exact Effects.loop_induct (fun entry _ d hstill => c.retry_still entry hstill)
      ⟨prefix_refl _, rfl, rfl, rfl⟩
  · exact Effects.loop_induct
      (P := fun d : Drain => q.ledger.LeadsTo d.queue.ledger)
      (fun entry hentry d hleads => (hturn entry hentry d hleads).2) (.refl h)

theorem DrainCall.finish_queue (c : DrainCall) (timestamp : String → ℚ)
    (turn : Turn Drain LedgerError) :
    (c.finish timestamp turn).1.position = turn.state.queue.position ∧
      (c.finish timestamp turn).1.pending = turn.state.queue.pending ∧
      (c.finish timestamp turn).1.ledger = turn.state.queue.ledger := by
  rw [finish]
  split
  · exact ⟨rfl, rfl, rfl⟩
  · exact ⟨WakeQueue.position_maintain _ _, WakeQueue.pending_maintain _ _,
      WakeQueue.ledger_maintain _ _⟩

theorem position_le_drain (timestamp : String → ℚ) (c : DrainCall) (q : WakeQueue) :
    q.position ≤ (drainWake timestamp c q).1.position := by
  have honward : Drain.Onward (q.maintain c.isDueBefore)
      (c.body timestamp (q.maintain c.isDueBefore)).state := by
    have hstart : ∀ reexamined, Drain.Onward (q.maintain c.isDueBefore)
        { queue := q.maintain c.isDueBefore, reexamined } :=
      fun _ => ⟨prefix_refl _, rfl, Nat.le_refl _⟩
    rw [DrainCall.body]
    split
    · exact hstart []
    · rename_i deferrals hread
      refine Turn.andThen_induct (P := Drain.Onward (q.maintain c.isDueBefore)) ?_ fun d hd => ?_
      · have hstill : Drain.Still (q.maintain c.isDueBefore) (deferrals.map Prod.fst)
            (c.retryAll timestamp deferrals (q.maintain c.isDueBefore)).state :=
          Effects.loop_induct (fun entry _ d hstill => c.retry_still entry hstill)
            ⟨prefix_refl _, rfl, rfl, rfl⟩
        exact hstill.onward
      · exact Effects.loop_induct (fun line _ d hd => c.deliver_onward line hd) hd
  rw [drainWake, (c.finish_queue timestamp _).1, ← WakeQueue.position_maintain c.isDueBefore q]
  exact Nat.add_le_add honward.dropped.ge honward.cursor

/-- A drain passes the line at the cursor, or it leaves the line there; if it came to the line, the
job is charged with a failure. -/
theorem drainWake_head (timestamp : String → ℚ) (hreasons : c.GivesReasons)
    (hback : q.ledger.Backed) (hhead : q.pending.head? = some line)
    (hrecord : Recorded line q.ledger) :
    q.position < (drainWake timestamp c q).1.position ∨
      (drainWake timestamp c q).1.position = q.position ∧
        (drainWake timestamp c q).1.pending.head? = some line ∧
        q.ledger.LeadsTo (drainWake timestamp c q).1.ledger ∧
        (c.arrives timestamp q = true →
          Charged line q.ledger (drainWake timestamp c q).1.ledger) := by
  obtain ⟨rest, hpending⟩ : ∃ rest, q.pending = line :: rest := by
    cases hp : q.pending with
    | nil =>
      rw [hp] at hhead
      cases hhead
    | cons first rest =>
      rw [hp] at hhead
      exact ⟨rest, by rw [Option.some.inj hhead]⟩
  have hread : q.ledger.readDeferrals = .ok q.ledger.deferrals := Ledger.readDeferrals_eq hback.1
  obtain ⟨hcalm, hstill, hleads⟩ :=
    c.retryAll_spec timestamp hreasons (q := q.maintain c.isDueBefore) (by simpa using hback)
  rw [WakeQueue.ledger_maintain] at hcalm hstill hleads
  have harrives : c.arrives timestamp q =
      (!c.isUsedUp (c.retryAll timestamp q.ledger.deferrals (q.maintain c.isDueBefore)).state &&
        !c.shouldStop
          (c.retryAll timestamp q.ledger.deferrals (q.maintain c.isDueBefore)).state.checks) := by
    rw [DrainCall.arrives, hread]
  have hbody : c.body timestamp (q.maintain c.isDueBefore) = Effects.loop c.deliver (line :: rest)
      (c.retryAll timestamp q.ledger.deferrals (q.maintain c.isDueBefore)).state := by
    rw [DrainCall.body, WakeQueue.ledger_maintain, hread, WakeQueue.pending_maintain, hpending]
    exact hcalm.andThen_eq _
  generalize (c.retryAll timestamp q.ledger.deferrals (q.maintain c.isDueBefore)).state = d
    at hstill hleads harrives hbody
  obtain ⟨hposition, hpend, hledger⟩ :=
    c.finish_queue timestamp (c.body timestamp (q.maintain c.isDueBefore))
  rw [← drainWake] at hposition hpend hledger
  rw [hposition, hpend, hledger, hbody, ← WakeQueue.position_maintain c.isDueBefore q]
  rw [← WakeQueue.pending_maintain c.isDueBefore q] at hhead
  -- a turn that is the last one leaves the line at the cursor
  have hleave : ∀ d' : Drain, Drain.Onward (q.maintain c.isDueBefore) d' →
      d'.queue.cursor = d.queue.cursor →
      d'.queue.position = (q.maintain c.isDueBefore).position ∧
        d'.queue.pending.head? = some line := by
    intro d' honward hcursor
    have hsame : d'.queue.cursor = (q.maintain c.isDueBefore).cursor :=
      hcursor.trans hstill.cursor
    refine ⟨?_, head_pending honward.lines hsame hhead⟩
    rw [WakeQueue.position, honward.dropped, hsame, WakeQueue.position]
  have honward : Drain.Onward (q.maintain c.isDueBefore) (c.deliver line d).state :=
    c.deliver_onward line hstill.onward
  rw [Effects.loop]
  by_cases hused : c.isUsedUp d = true
  · have hturn : c.deliver line d = .leave d := by simp only [DrainCall.deliver, hused, if_true]
    rw [hturn]
    obtain ⟨hpos, hhead'⟩ := hleave d hstill.onward rfl
    exact .inr ⟨hpos, hhead', hleads, fun harr => by simp [harrives, hused] at harr⟩
  · rw [Bool.not_eq_true] at hused
    by_cases hstop : c.shouldStop d.checks = true
    · have hturn : c.deliver line d = .leave d.checked := by
        simp only [DrainCall.deliver, hused, hstop, if_true, Bool.false_eq_true, if_false]
      rw [hturn] at honward ⊢
      obtain ⟨hpos, hhead'⟩ := hleave d.checked honward rfl
      exact .inr ⟨hpos, hhead', hleads, fun harr => by simp [harrives, hstop] at harr⟩
    · rw [Bool.not_eq_true] at hstop
      rcases c.deliver_head hreasons hleads.backed (hrecord.leadsTo hleads) hused hstop with
        ⟨d', hturn, hcursor⟩ | ⟨d', hturn, hcursor, hcharged⟩
      · rw [hturn] at honward ⊢
        left
        have hrest : Drain.Onward d'.queue (Effects.loop c.deliver rest d').state :=
          Effects.loop_induct (fun line _ d hd => c.deliver_onward line hd)
            ⟨prefix_refl _, rfl, Nat.le_refl _⟩
        have hnext := hrest.cursor
        have hdropped := hrest.dropped.trans honward.dropped
        have hcursor' := hstill.cursor
        show (q.maintain c.isDueBefore).position <
          (Effects.loop c.deliver rest d').state.queue.position
        rw [WakeQueue.position, WakeQueue.position, hdropped]
        omega
      · have hleads' := c.deliver_leadsTo hreasons line hleads.backed
        rw [hturn] at honward hleads' ⊢
        obtain ⟨hpos, hhead'⟩ := hleave d' honward hcursor
        exact .inr ⟨hpos, hhead', hleads.trans hleads', fun _ => .of_leadsTo hleads hcharged⟩

theorem position_le_next (timestamp : String → ℚ) (q : WakeQueue) (op : WakeOp) :
    q.position ≤ (op.next timestamp q).position := by
  cases op with
  | call c => exact Nat.le_refl _
  | append line => exact Nat.le_refl _
  | maintain => exact (WakeQueue.position_maintain true q).ge
  | drain c => exact position_le_drain timestamp c q

theorem position_le_run (timestamp : String → ℚ) (q : WakeQueue) (ops : List WakeOp) :
    q.position ≤ (runWake timestamp q ops).position := by
  induction ops generalizing q with
  | nil => exact Nat.le_refl _
  | cons op ops ih => exact Nat.le_trans (position_le_next timestamp q op) (ih _)

theorem next_head (timestamp : String → ℚ) {op : WakeOp} (hreasons : op.GivesReasons)
    (hback : q.ledger.Backed) (hhead : q.pending.head? = some line)
    (hrecord : Recorded line q.ledger) :
    q.position < (op.next timestamp q).position ∨
      (op.next timestamp q).position = q.position ∧
        (op.next timestamp q).pending.head? = some line ∧
        q.ledger.LeadsTo (op.next timestamp q).ledger ∧
        (op.arrives timestamp q = true →
          Charged line q.ledger (op.next timestamp q).ledger) := by
  cases op with
  | drain c => exact drainWake_head timestamp hreasons hback hhead hrecord
  | call c =>
    exact .inr ⟨rfl, hhead, Ledger.next_leadsTo hback c, fun h => by cases h⟩
  | append line' =>
    refine .inr ⟨rfl, ?_, .refl hback, fun h => by cases h⟩
    exact head_pending (prefix_append _ _) rfl hhead
  | maintain =>
    refine .inr ⟨WakeQueue.position_maintain true q, ?_, .refl hback, fun h => by cases h⟩
    exact (congrArg List.head? (WakeQueue.pending_maintain true q)).trans hhead

/-- As many drains that come to the line as the job has failures left pass the line. -/
theorem position_lt_run {ops : List WakeOp} (hops : ∀ op ∈ ops, op.GivesReasons)
    (hback : q.ledger.Backed) (hhead : q.pending.head? = some line)
    (hrecord : Recorded line q.ledger) {n : Nat} (hn : 0 < n)
    (hleft : ∀ event r, line = some event → q.ledger.jobs.get? event.jobId = some r →
      maxHandlerAttempts ≤ r.attempts + n)
    (harrivals : n ≤ arrivals timestamp q ops) :
    q.position < (runWake timestamp q ops).position := by
  induction ops generalizing q n with
  | nil => exact absurd (Nat.lt_of_lt_of_le hn harrivals) (Nat.lt_irrefl 0)
  | cons op ops ih =>
    have hrest := position_le_run timestamp (op.next timestamp q) ops
    rcases next_head timestamp (hops op mem_cons_self) hback hhead hrecord with
      hpassed | ⟨hpos, hhead', hleads, hcharge⟩
    · exact Nat.lt_of_lt_of_le hpassed hrest
    · have hops' : ∀ op' ∈ ops, op'.GivesReasons := fun op' h => hops op' (mem_cons_of_mem _ h)
      rw [← hpos]
      rw [arrivals] at harrivals
      by_cases harr : op.arrives timestamp q = true
      · rw [if_pos harr] at harrivals
        obtain ⟨event, r', rfl, hr', hlt, hcount⟩ := hcharge harr
        obtain ⟨r, hr⟩ := hrecord event rfl
        have hmore := hcount r (readJob_eq_ok.mp hr).2
        have hbound := hleft event r rfl (readJob_eq_ok.mp hr).2
        refine ih hops' hleads.backed hhead' (hrecord.leadsTo hleads) (n := n - 1) (by omega) ?_
          (by omega)
        intro event' r'' heq hr''
        obtain rfl := Option.some.inj heq
        obtain rfl := Option.some.inj (hr'.symm.trans hr'')
        omega
      · rw [if_neg harr, Nat.zero_add] at harrivals
        refine ih hops' hleads.backed hhead' (hrecord.leadsTo hleads) hn ?_ harrivals
        rintro event r' rfl hr'
        obtain ⟨r, hr⟩ := hrecord event rfl
        obtain ⟨r'', hr'', hle⟩ := hleads.endures _ _ (readJob_eq_ok.mp hr).2
        obtain rfl := Option.some.inj (hr''.symm.trans hr')
        exact Nat.le_trans (hleft event r rfl (readJob_eq_ok.mp hr).2)
          (Nat.add_le_add_right hle.attempts n)

theorem backed_next (timestamp : String → ℚ) {op : WakeOp} (hreasons : op.GivesReasons)
    (hback : q.ledger.Backed) : (op.next timestamp q).ledger.Backed := by
  cases op with
  | call c => exact (Ledger.next_leadsTo hback c).backed
  | append line => exact hback
  | maintain => exact hback
  | drain c =>
    show (drainWake timestamp c q).1.ledger.Backed
    rw [drainWake, (c.finish_queue timestamp _).2.2, DrainCall.body, WakeQueue.ledger_maintain,
      Ledger.readDeferrals_eq hback.1]
    obtain ⟨-, -, hleads⟩ :=
      c.retryAll_spec timestamp hreasons (q := q.maintain c.isDueBefore) (by simpa using hback)
    refine Turn.andThen_induct (P := fun d : Drain => d.queue.ledger.Backed) ?_ fun d hd => ?_
    · simpa using hleads.backed
    · exact Effects.loop_induct (P := fun d : Drain => d.queue.ledger.Backed)
        (fun line _ d hd => (c.deliver_leadsTo hreasons line hd).backed) hd

/-- A handler that always fails. -/
def failing : DrainCall where
  handler := fun _ _ _ => { outcome := .failed "RuntimeError" }

/-- A text is no id of a job that has a record. -/
def Unrecorded (id : String) (ledger : Ledger) : Prop :=
  isJobId id = true → ledger.jobs.get? id = none

theorem recorded_of_not_unrecorded {ledger : Ledger} (h : ¬ Unrecorded event.jobId ledger) :
    Recorded (some event) ledger := by
  rintro event' heq
  obtain rfl := Option.some.inj heq
  rw [Unrecorded, Classical.not_imp] at h
  obtain ⟨record, hrecord⟩ := Option.ne_none_iff_exists'.mp h.2
  exact ⟨record, readJob_eq_ok.mpr ⟨h.1, hrecord⟩⟩

theorem Unrecorded.of_jobs {a b : Ledger} (h : Unrecorded id a) (hjobs : b.jobs = a.jobs) :
    Unrecorded id b := fun hid => by rw [hjobs, h hid]

theorem Unrecorded.handlerFailure {a : Ledger} (h : Unrecorded id a) (id' reason : String)
    (t : Timing) : Unrecorded id (recordHandlerFailure id' reason t a).1 := by
  have hjobs : (recordHandlerFailure id' reason t a).1.jobs =
      (Ledger.updateJob id' t (JobRecord.handlerFailure reason t.now) a).1.jobs := by
    rw [recordHandlerFailure]
    split
    · rename_i heq
      split
      · rw [Ledger.jobs_thenRemove, heq]
      · rw [heq]
    · rename_i heq
      rw [heq]
  refine Unrecorded.of_jobs (fun hid => ?_) hjobs
  rcases Ledger.updateJob_cases id' t (JobRecord.handlerFailure reason t.now) a with
    ⟨hsame, -⟩ | ⟨-, -, before, record, now, hget, -, -, hset⟩
  · rw [hsame]
    exact h hid
  · have hne : id ≠ id' := by
      rintro rfl
      rw [h hid] at hget
      cases hget
    rw [hset]
    show Dict.get? (a.jobs.set id' _) id = none
    rw [Dict.get?_set_of_ne _ _ hne]
    exact h hid

theorem jobs_incrementDeferredAttempts (id now : String) (a : Ledger) :
    (incrementDeferredAttempts id now a).1.jobs = a.jobs := by
  rw [incrementDeferredAttempts]
  split
  · rfl
  · split <;> rfl

theorem failing_retry (entry : String × Deferral) (h : Unrecorded id d.queue.ledger) :
    Unrecorded id (failing.retry entry d).state.queue.ledger := by
  have hchecked : Unrecorded id d.checked.queue.ledger := h
  rw [DrainCall.retry]
  split
  · exact h
  · split
    · exact h
    · split
      · exact h
      · exact h
      · split
        · exact Drain.perform_ledger
            (hchecked.of_jobs (Ledger.jobs_removeCompletionDeferral _ _)) fun _ _ h' => h'
        · have hhandle : Unrecorded id
              (failing.handle entry.2.event d.checked.spend).queue.ledger := h
          have houtcome : (failing.handling entry.2.event d.checked.spend).outcome =
              .failed "RuntimeError" := rfl
          simp only [DrainCall.retryOpen, houtcome]
          refine Drain.perform_ledger (hhandle.of_jobs (jobs_incrementDeferredAttempts _ _ _))
            fun _ d' h' => ?_
          refine Drain.perform_ledger (h'.handlerFailure _ _ _) fun _ d'' h'' => ?_
          split <;> exact h''

theorem failing_deliver (h : Unrecorded event.jobId d.queue.ledger)
    (hnew : event.jobId ∉ d.reexamined) : ∃ d' e, failing.deliver (some event) d = .raised d' e ∧
      d'.queue.cursor = d.queue.cursor ∧ d'.queue.ledger = d.queue.ledger := by
  have hdeliver : failing.deliver (some event) d = failing.deliverEvent event d.checked := rfl
  by_cases hid : isJobId event.jobId = true
  · have hread : readJob event.jobId d.checked.queue.ledger = .error .jobNotFound := by
      have hnone : d.checked.queue.ledger.jobs.get? event.jobId = none := h hid
      simp only [readJob, if_pos hid, hnone]
    have hopen : failing.deliverEvent event d.checked = failing.deliverOpen event d.checked := by
      simp only [DrainCall.deliverEvent, hread]
      exact if_neg hnew
    have hfailure : recordHandlerFailure event.jobId "RuntimeError"
        { now := failing.now d.checked } (failing.handle event d.checked).queue.ledger =
        (d.queue.ledger, .error .jobNotFound) := by
      have hnone : d.queue.ledger.jobs.get? event.jobId = none := h hid
      show recordHandlerFailure event.jobId _ _ d.queue.ledger = _
      simp only [recordHandlerFailure, Ledger.updateJob, if_pos hid, hnone, Bool.false_eq_true,
        if_false]
    have hperform : failing.deliverOpen event d.checked = .raised
        { failing.handle event d.checked with queue.ledger := d.queue.ledger } .jobNotFound := by
      have houtcome : (failing.handling event d.checked).outcome = .failed "RuntimeError" := rfl
      simp only [DrainCall.deliverOpen, houtcome, Drain.perform, hfailure]
    exact ⟨_, _, hdeliver.trans (hopen.trans hperform), rfl, rfl⟩
  · have hread : readJob event.jobId d.checked.queue.ledger = .error .invalidJobId := by
      simp only [readJob, if_neg hid]
    refine ⟨d.checked, .invalidJobId, hdeliver.trans ?_, rfl, rfl⟩
    simp only [DrainCall.deliverEvent, hread]

theorem failing_givesReasons : failing.GivesReasons := by
  intro n event ledger reason h
  cases h

theorem failing_stuck (timestamp : String → ℚ) (hback : q.ledger.Backed)
    (hhead : q.pending.head? = some (some event)) (h : Unrecorded event.jobId q.ledger) :
    failing.arrives timestamp q = true ∧
      (drainWake timestamp failing q).1.position = q.position ∧
      (drainWake timestamp failing q).1.pending.head? = some (some event) ∧
      Unrecorded event.jobId (drainWake timestamp failing q).1.ledger := by
  obtain ⟨rest, hpending⟩ : ∃ rest, q.pending = some event :: rest := by
    cases hp : q.pending with
    | nil =>
      rw [hp] at hhead
      cases hhead
    | cons first rest =>
      rw [hp] at hhead
      exact ⟨rest, by rw [Option.some.inj hhead]⟩
  have hread : q.ledger.readDeferrals = .ok q.ledger.deferrals := Ledger.readDeferrals_eq hback.1
  obtain ⟨hcalm, hstill, hleads⟩ := failing.retryAll_spec timestamp failing_givesReasons hback
  have hunrecorded : Unrecorded event.jobId
      (failing.retryAll timestamp q.ledger.deferrals q).state.queue.ledger :=
    Effects.loop_induct (P := fun d : Drain => Unrecorded event.jobId d.queue.ledger)
      (fun entry _ d hd => failing_retry entry hd) h
  have hbody : failing.body timestamp q = Effects.loop failing.deliver (some event :: rest)
      (failing.retryAll timestamp q.ledger.deferrals q).state := by
    rw [DrainCall.body, hread, hpending]
    exact hcalm.andThen_eq _
  have harrives : failing.arrives timestamp q = true :=
    DrainCall.arrives_of_unbounded timestamp q rfl fun _ => rfl
  generalize (failing.retryAll timestamp q.ledger.deferrals q).state = d
    at hstill hleads hunrecorded hbody
  have hnew : event.jobId ∉ d.reexamined := by
    rw [hstill.reexamined]
    intro hmem
    obtain ⟨entry, hentry, hid⟩ := mem_map.mp hmem
    obtain ⟨r, hr⟩ := hback.2 entry hentry
    have hvalid := all_eq_true.mp hback.1 entry hentry
    simp only [Ledger.isDeferralValid, Bool.and_eq_true] at hvalid
    rw [hid] at hr hvalid
    rw [h hvalid.1.1.1.1] at hr
    cases hr
  obtain ⟨d', e, hturn, hcursor, hledger⟩ := failing_deliver hunrecorded hnew
  have honward : Drain.Onward q (failing.deliver (some event) d).state :=
    failing.deliver_onward _ hstill.onward
  rw [hturn] at honward
  have hend : failing.body timestamp q = .raised d' e := by
    rw [hbody, Effects.loop, hturn]
  obtain ⟨hposition, hpend, hledger'⟩ := failing.finish_queue timestamp (failing.body timestamp q)
  have hdrain : drainWake timestamp failing q =
      failing.finish timestamp (failing.body timestamp q) := rfl
  rw [hdrain, hposition, hpend, hledger', hend]
  have hsame : d'.queue.cursor = q.cursor := hcursor.trans hstill.cursor
  refine ⟨harrives, ?_, head_pending honward.lines hsame hhead, ?_⟩
  · have hdropped : d'.queue.dropped = q.dropped := honward.dropped
    show d'.queue.dropped + d'.queue.cursor = _
    rw [hsame, hdropped]
    rfl
  · show Unrecorded event.jobId d'.queue.ledger
    rw [hledger]
    exact hunrecorded

/-- However often the handler fails for a job without a record, its line stays at the cursor. -/
theorem failing_run (timestamp : String → ℚ) (n : Nat) (hback : q.ledger.Backed)
    (hhead : q.pending.head? = some (some event)) (h : Unrecorded event.jobId q.ledger) :
    arrivals timestamp q (List.replicate n (.drain failing)) = n ∧
      (runWake timestamp q (List.replicate n (.drain failing))).position = q.position := by
  induction n generalizing q with
  | zero => exact ⟨rfl, rfl⟩
  | succ n ih =>
    obtain ⟨harrives, hposition, hhead', h'⟩ := failing_stuck timestamp hback hhead h
    have hreasons : (WakeOp.drain failing).GivesReasons := failing_givesReasons
    have hback' : (drainWake timestamp failing q).1.ledger.Backed :=
      backed_next timestamp hreasons hback
    obtain ⟨hcount, hpos⟩ := ih hback' hhead' h'
    refine ⟨?_, hpos.trans hposition⟩
    rw [replicate_succ, arrivals]
    show (if failing.arrives timestamp q = true then 1 else 0) + _ = _
    rw [if_pos harrives]
    show 1 + arrivals timestamp (drainWake timestamp failing q).1 _ = _
    rw [hcount, Nat.add_comm]

/-- In every run in which handlers that defer say why and five drains come to the line at the cursor,
the cursor moves past the line. -/
def PassedByFive (timestamp : String → ℚ) (q : WakeQueue) : Prop :=
  ∀ ops : List WakeOp, (∀ op ∈ ops, op.GivesReasons) →
    maxHandlerAttempts ≤ arrivals timestamp q ops →
    q.position < (runWake timestamp q ops).position

/-- The line at the cursor is passed if and only if it cannot be decoded or its job has a record. -/
theorem passedByFive_iff (hback : q.ledger.Backed) (hhead : q.pending.head? = some line) :
    PassedByFive timestamp q ↔ Recorded line q.ledger := by
  constructor
  · intro h event heq
    subst heq
    by_contra hnone
    have hunrecorded : Unrecorded event.jobId q.ledger := by
      by_contra hun
      exact hnone (recorded_of_not_unrecorded hun event rfl)
    obtain ⟨hcount, hposition⟩ := failing_run timestamp maxHandlerAttempts hback hhead hunrecorded
    have hpassed := h _ (fun op hop => ?_) hcount.ge
    · rw [hposition] at hpassed
      exact Nat.lt_irrefl _ hpassed
    · rw [eq_of_mem_replicate hop]
      exact failing_givesReasons
  · intro h ops hops harrivals
    refine position_lt_run hops hback hhead h (n := maxHandlerAttempts) (by decide) ?_ harrivals
    exact fun _ r _ _ => Nat.le_add_left _ _

/-- The wake of a job whose intent was never recorded. -/
def strayWake : WakeEvent where
  jobId := "j00000000000000000000"
  passId := "p"
  kind := "done"
  rc := none
  observedAt := "2025-01-01T00:00:00+00:00"

/-- A journal with one line of a job without a record. -/
def strayQueue : WakeQueue := { lines := [some strayWake] }

/-- The same line after one that cannot be decoded. -/
def garbledQueue : WakeQueue := { lines := [none, some strayWake] }

theorem garbled_passed : PassedByFive (fun _ => 0) garbledQueue := by
  have hback : garbledQueue.ledger.Backed := ⟨rfl, fun _ h => absurd h not_mem_nil⟩
  refine (passedByFive_iff hback rfl).mpr fun event h => ?_
  cases h

theorem strayWake_blocks : ¬ PassedByFive (fun _ => 0) strayQueue := by
  intro h
  have hback : strayQueue.ledger.Backed := ⟨rfl, fun _ h => absurd h not_mem_nil⟩
  have hhead : strayQueue.pending.head? = some (some strayWake) := rfl
  obtain ⟨hcount, hposition⟩ :=
    failing_run (fun _ => 0) maxHandlerAttempts hback hhead fun _ => rfl
  have hpassed := h _ (fun op hop => ?_) hcount.ge
  · rw [hposition] at hpassed
    exact Nat.lt_irrefl _ hpassed
  · rw [eq_of_mem_replicate hop]
    exact failing_givesReasons

end Workbay.RemoteJobs

import Workbay.Breaker.Proofs.LatchProofs
import Workbay.Data.Rounding

/-!
# One half-open trial at a time

The row of a backend that was granted a trial stays open or half-open since then until a success,
a checkpoint or the release of the lease is recorded. As long as it does, an admission measures the
cooldown from the trial or from later.
-/

namespace Workbay.Breaker

open List

variable {data : Data} {backend : String} {lease : BreakerState}

variable {cooldown now start : ℚ} {caller : Owner} {settings : Settings} {m : Option String}
  {c : Call} {Trial : BreakerState → Prop} {s : BreakerState}

theorem isCooling_mono {s t s' t' : ℚ} (hle : s ≤ t) (h : t' - s' ≤ t - s)
    (hcool : isCooling cooldown s t = true) : isCooling cooldown s' t' = true := by
  unfold isCooling at hcool
  cases helapsed : binary64 (t - s) with
  | none =>
    simp only [helapsed] at hcool
    have hlt : t < s := of_decide_eq_true hcool
    linarith
  | some elapsed =>
    simp only [helapsed] at hcool
    have hpos : 0 < cooldown - elapsed := by
      by_contra hnot
      rw [not_lt] at hnot
      cases hremaining : binary64 (cooldown - elapsed) with
      | none =>
        simp only [hremaining] at hcool
        have hlt : elapsed < cooldown := of_decide_eq_true hcool
        linarith
      | some remaining =>
        simp only [hremaining] at hcool
        have hlt : 0 < remaining := of_decide_eq_true hcool
        have hround := (binary64_eq_some.mp hremaining).1
        have hle : rounded (cooldown - elapsed) ≤ 0 := rounded_nonpos hnot
        linarith
    have hshorter : ∀ elapsed', binary64 (t' - s') = some elapsed' → elapsed' ≤ elapsed := by
      intro elapsed' helapsed'
      by_cases hnonneg : 0 ≤ t' - s'
      · obtain ⟨x, hx, hle⟩ := binary64_mono hnonneg h helapsed
        obtain rfl := Option.some.inj (helapsed'.symm.trans hx)
        exact hle
      · have hneg : rounded (t' - s') ≤ 0 := rounded_nonpos (not_le.mp hnonneg).le
        have hround := (binary64_eq_some.mp helapsed').1
        have hzero : 0 ≤ elapsed := binary64_nonneg (sub_nonneg.mpr hle) helapsed
        linarith
    cases helapsed' : binary64 (t' - s') with
    | none =>
      simp only [isCooling, helapsed']
      refine decide_eq_true ?_
      by_contra hnot
      obtain ⟨x, hx, -⟩ := binary64_mono (sub_nonneg.mpr (not_lt.mp hnot)) h helapsed
      rw [helapsed'] at hx
      cases hx
    | some elapsed' =>
      have hle := hshorter elapsed' helapsed'
      simp only [isCooling, helapsed']
      cases hremaining' : binary64 (cooldown - elapsed') with
      | none => exact decide_eq_true (by linarith)
      | some remaining' =>
        obtain ⟨remaining, hremaining, hle'⟩ :=
          binary64_mono hpos.le (by linarith : cooldown - elapsed ≤ cooldown - elapsed') hremaining'
        simp only [hremaining] at hcool
        have hlt : 0 < remaining := of_decide_eq_true hcool
        exact decide_eq_true (hlt.trans_le hle')

theorem isCooling_self (hpos : 0 < cooldown) (hfloat : binary64 cooldown = some cooldown) (t : ℚ) :
    isCooling cooldown t t = true := by
  have hzero : binary64 0 = some 0 := by decide +kernel
  simp [isCooling, hzero, hfloat, hpos]

/-- A call that grants a trial of a backend, with the row that carries its lease. -/
def Call.Grants (backend : String) (lease : BreakerState) (data : Data) (c : Call) : Prop :=
  ∃ m caller, c.operation = .admit_ backend m caller ∧
    ∃ admission, (c.run data).1 = .admission admission ∧ admission.trialState = some lease

theorem admitTransport_cases : ((admitTransport cooldown backend caller now data).2 = data ∧
      (admitTransport cooldown backend caller now data).1.trialState = none) ∨
    ((admitTransport cooldown backend caller now data).2 =
        data.set backend ((row data backend).halfOpen now caller) ∧
      (admitTransport cooldown backend caller now data).1.trialState =
        some ((row data backend).halfOpen now caller) ∧
      (((row data backend).phase = .halfOpen ∧ ∀ s ∈ (row data backend).trialStartedAt,
          isCooling cooldown s now = false) ∨
        ((row data backend).phase = .open_ ∧
          isCooling cooldown ((row data backend).openedAt.getD now) now = false))) := by
  cases hphase : (row data backend).phase with
  | closed =>
    left
    simp only [admitTransport, hphase]
    exact ⟨trivial, trivial⟩
  | halfOpen =>
    simp only [admitTransport, hphase]
    split
    · exact .inl ⟨rfl, rfl⟩
    · rename_i hnot
      refine .inr ⟨rfl, rfl, .inl ⟨trivial, ?_⟩⟩
      intro s hs
      simpa [Option.mem_def.mp hs] using hnot
  | open_ =>
    simp only [admitTransport, hphase]
    split
    · exact .inl ⟨rfl, rfl⟩
    · rename_i hnot
      exact .inr ⟨rfl, rfl, .inr ⟨trivial, by simpa using hnot⟩⟩

theorem admitDispatch_cases : ((admitDispatch settings backend m caller now data).2 = data ∧
      (admitDispatch settings backend m caller now data).1.trialState = none) ∨
    admitDispatch settings backend m caller now data =
      admitTransport settings.cooldown backend caller now data := by
  unfold admitDispatch
  cases settings.error with
  | some error => exact .inl ⟨rfl, rfl⟩
  | none =>
    cases firstOpenConfiguration data (some backend) m with
    | some found => exact .inl ⟨rfl, rfl⟩
    | none => exact .inr rfl

theorem Call.Grants.spec (h : c.Grants backend lease data) :
    row (c.run data).2 backend = lease ∧ lease.phase = .halfOpen ∧
      lease.trialStartedAt = some c.now ∧ lease.trialInProgress = true ∧
      (((row data backend).phase = .halfOpen ∧ ∀ s ∈ (row data backend).trialStartedAt,
          isCooling c.settings.cooldown s c.now = false) ∨
        ((row data backend).phase = .open_ ∧
          isCooling c.settings.cooldown ((row data backend).openedAt.getD c.now) c.now = false)) := by
  obtain ⟨m, caller, hoperation, admission, hreply, hlease⟩ := h
  obtain ⟨operation, settings, now⟩ := c
  obtain rfl : operation = .admit_ backend m caller := hoperation
  have hadmission : (admitDispatch settings backend m caller now data).1 = admission :=
    Reply.admission.inj hreply
  have hrun : (Call.run ⟨.admit_ backend m caller, settings, now⟩ data).2 =
      (admitDispatch settings backend m caller now data).2 := rfl
  rw [hrun]
  subst hadmission
  rcases admitDispatch_cases with ⟨-, hnone⟩ | heq
  · rw [hnone] at hlease
    cases hlease
  · rw [heq] at hlease ⊢
    rcases admitTransport_cases with ⟨-, hnone⟩ | ⟨hdata, hstate, hfound⟩
    · rw [hnone] at hlease
      cases hlease
    · rw [hstate] at hlease
      obtain rfl := Option.some.inj hlease
      rw [hdata, row_set_self]
      exact ⟨rfl, rfl, rfl, rfl, hfound⟩

/-- A row that is open since a time, or half-open with a trial that a predicate holds of. -/
def Since (start : ℚ) (Trial : BreakerState → Prop) (s : BreakerState) : Prop :=
  (s.phase = .open_ ∧ ∃ openedAt ∈ s.openedAt, start ≤ openedAt) ∨
    (s.phase = .halfOpen ∧ Trial s)

theorem Since.ne_closed (h : Since start Trial s) : s.phase ≠ .closed := by
  rcases h with ⟨hphase, -⟩ | ⟨hphase, -⟩ <;> simp [hphase]

theorem since_opened {count : Nat} {failureClass : FailureClass} (h : start ≤ now) :
    Since start Trial (s.opened count failureClass now) := .inl ⟨rfl, now, rfl, h⟩

theorem since_fail (h : start ≤ now) (hs : Since start Trial s) :
    Since start Trial (s.fail settings now) := by
  unfold BreakerState.fail
  split
  · exact since_opened h
  · rw [if_pos (.inl hs.ne_closed)]
    exact since_opened h

/-- A trial that carries a lease, whatever its failures are. -/
structure Stable (Trial : BreakerState → Prop) : Prop where
  count : ∀ s n, Trial s → Trial { s with failureCount := n }

/-- A call that records a success or a checkpoint of a backend. -/
def Call.Succeeds (backend : String) (c : Call) : Prop :=
  match c.operation with
  | .recordSuccess b => b = backend
  | .recordFailure b failure _ => b = backend ∧ failure = .checkpoint
  | .finishTrial admission outcome =>
    admission.breakerKey = some backend ∧ (outcome = .success ∨ outcome = .checkpoint)
  | _ => False

/-- A call that gives the trial of a backend back. -/
def Call.Releases (backend : String) (data : Data) (c : Call) : Prop :=
  match c.operation with
  | .finishTrial admission outcome => admission.breakerKey = some backend ∧ outcome = .neutral ∧
      ∃ trial ∈ admission.trialState, (row data backend).sameLease trial = true
  | _ => False

/-- A reset of a backend. -/
def Call.Resets (backend : String) (c : Call) : Prop :=
  match c.operation with
  | .reset target => Removes target backend
  | _ => False

theorem since_finishTrial (hTrial : Stable Trial) {admission : Admission} {outcome : TrialOutcome}
    (hnow : start ≤ now) (h : Since start Trial (row data backend))
    (hsuccess : ¬ Call.Succeeds backend ⟨.finishTrial admission outcome, settings, now⟩)
    (hrelease : ¬ Call.Releases backend data ⟨.finishTrial admission outcome, settings, now⟩) :
    Since start Trial
      (row (settle data (finishTrial settings admission outcome now data)).2 backend) := by
  simp only [Call.Succeeds, Call.Releases, not_and, not_or] at hsuccess hrelease
  unfold finishTrial
  split
  · rename_i trial own htrial hown
    simp only
    split
    · exact h
    · by_cases heq : own = backend
      · subst heq
        cases outcome with
        | unknown => exact h
        | success => exact absurd rfl (hsuccess hown).1
        | checkpoint => exact absurd rfl (hsuccess hown).2
        | neutral =>
          have hnot : (row data own).sameLease trial ≠ true := by
            intro hsame
            exact hrelease hown rfl ⟨trial, htrial, hsame⟩
          simp only [BreakerState.finishTrial, if_neg hnot]
          exact h
        | transport =>
          simp only [BreakerState.finishTrial, Option.map_some, settle, row_set_self]
          split
          · exact .inl ⟨rfl, now, rfl, hnow⟩
          · unfold BreakerState.failLate
            split
            · rename_i hlate
              rcases h with ⟨hphase, -⟩ | ⟨hphase, hcarries⟩
              · rw [hphase] at hlate
                cases hlate.1
              · exact .inr ⟨hphase, hTrial.count _ _ hcarries⟩
            · exact since_fail hnow h
      · cases (row data own).finishTrial trial settings outcome now with
        | none => exact h
        | some written =>
          cases written with
          | none => exact h
          | some new =>
            have hsame : row (data.set own new) backend = row data backend :=
              row_set_of_ne _ (Ne.symm heq)
            exact hsame ▸ h
  · exact h

theorem since_recordFailure {b : String} {failure : Failure} (hnow : start ≤ now)
    (h : Since start Trial (row data backend)) (hsuccess : ¬ (b = backend ∧ failure = .checkpoint)) :
    Since start Trial
      (row (settle data (recordFailure settings b failure m now data)).2 backend) := by
  by_cases hkey : backend = failureKey b failure m
  · unfold recordFailure
    rw [← hkey]
    cases failure with
    | neutral | unknown => exact h
    | checkpoint => exact absurd ⟨hkey.symm, rfl⟩ hsuccess
    | transport =>
      simp only [settle, row_set_self]
      exact since_fail hnow h
    | configuration =>
      simp only
      split <;> simp only [settle, row_set_self] <;> exact since_opened hnow
  · rw [row_recordFailure hkey]
    exact h

/-- A call leaves the row open or half-open since a trial: an admission that grants another one
gives a trial that the predicate holds of. -/
theorem Call.since (hTrial : Stable Trial) (hnow : start ≤ c.now)
    (h : Since start Trial (row data backend)) (hsuccess : ¬ c.Succeeds backend)
    (hrelease : ¬ c.Releases backend data) (hreset : ¬ c.Resets backend)
    (hgrant : ∀ lease, c.Grants backend lease data → Trial lease) :
    Since start Trial (row (c.run data).2 backend) := by
  obtain ⟨operation, settings, now⟩ := c
  cases operation with
  | admit_ b m caller =>
    by_cases hb : b = backend
    · subst hb
      have hrun : (Call.run ⟨.admit_ b m caller, settings, now⟩ data).2 =
          (admitDispatch settings b m caller now data).2 := rfl
      cases htrial : (admitDispatch settings b m caller now data).1.trialState with
      | none =>
        rw [hrun]
        rcases admitDispatch_cases with ⟨hdata, -⟩ | heq
        · rw [hdata]
          exact h
        · rw [heq] at htrial ⊢
          rcases admitTransport_cases with ⟨hdata, -⟩ | ⟨-, hsome, -⟩
          · rw [hdata]
            exact h
          · rw [hsome] at htrial
            cases htrial
      | some lease =>
        have hgrants : Call.Grants b lease data ⟨.admit_ b m caller, settings, now⟩ :=
          ⟨m, caller, rfl, _, rfl, htrial⟩
        obtain ⟨hrow, hphase, -⟩ := hgrants.spec
        rw [hrow]
        exact .inr ⟨hphase, hgrant lease hgrants⟩
    · have hsame : row (admitDispatch settings b m caller now data).2 backend =
          row data backend := by
        rcases @admitDispatch_cases data b now caller settings m with ⟨hdata, -⟩ | heq
        · rw [hdata]
        · rw [heq, row_admitTransport (Ne.symm hb)]
      exact hsame ▸ h
  | inspect b m => exact h
  | recordFailure b failure m => exact since_recordFailure hnow h hsuccess
  | recordSuccess b =>
    have hsame : row (Breaker.recordSuccess b data).2 backend = row data backend :=
      row_set_of_ne _ (Ne.symm hsuccess)
    exact hsame ▸ h
  | finishTrial admission outcome => exact since_finishTrial hTrial hnow h hsuccess hrelease
  | reset target =>
    have hsame : row (Breaker.reset target data).2 backend = row data backend := row_reset hreset
    exact hsame ▸ h

/-- A run of calls leaves the row open or half-open since a trial. -/
theorem since_runCalls (hTrial : Stable Trial) {calls : List Call}
    (hnow : ∀ c ∈ calls, start ≤ c.now) (h : Since start Trial (row data backend))
    (hkeeps : ∀ before c after, calls = before ++ c :: after →
      Since start Trial (row (runCalls before data) backend) →
      ¬ c.Succeeds backend ∧ ¬ c.Releases backend (runCalls before data) ∧ ¬ c.Resets backend ∧
        ∀ lease, c.Grants backend lease (runCalls before data) → Trial lease) :
    Since start Trial (row (runCalls calls data) backend) := by
  induction calls generalizing data with
  | nil => exact h
  | cons c calls ih =>
    obtain ⟨hsuccess, hrelease, hreset, hgrant⟩ := hkeeps [] c calls rfl h
    have hstep : Since start Trial (row (c.run data).2 backend) :=
      c.since hTrial (hnow c mem_cons_self) h hsuccess hrelease hreset hgrant
    refine ih (fun c' hc' => hnow c' (mem_cons_of_mem _ hc')) hstep ?_
    intro before c' after hsplit hsince
    exact hkeeps (c :: before) c' after (by rw [hsplit]; rfl) hsince

/-- A trial that started at a time or later. -/
def StartedSince (start : ℚ) (s : BreakerState) : Prop :=
  ∃ startedAt ∈ s.trialStartedAt, start ≤ startedAt

/-- A trial with the lease of another. -/
def SameTrial (lease s : BreakerState) : Prop :=
  s.trialStartedAt = lease.trialStartedAt ∧ s.trialOwner = lease.trialOwner

theorem stable_startedSince (start : ℚ) : Stable (StartedSince start) := ⟨fun _ _ h => h⟩

theorem stable_sameTrial (lease : BreakerState) : Stable (SameTrial lease) := ⟨fun _ _ h => h⟩

theorem Since.mono {Trial' : BreakerState → Prop} (h : Since start Trial s)
    (hle : ∀ s, Trial s → Trial' s) : Since start Trial' s :=
  h.imp id fun hhalf => ⟨hhalf.1, hle s hhalf.2⟩

/-- A backend whose row is open or half-open since a time is granted a trial once the cooldown
from then is over. -/
theorem Call.Grants.not_cooling (h : c.Grants backend lease data) (hnow : start ≤ c.now)
    (hsince : Since start (StartedSince start) (row data backend)) :
    isCooling c.settings.cooldown start c.now = false := by
  obtain ⟨-, -, -, -, hfound⟩ := h.spec
  by_contra hcool
  rw [Bool.not_eq_false] at hcool
  have hlater : ∀ s, start ≤ s → isCooling c.settings.cooldown s c.now = true :=
    fun s hs => isCooling_mono hnow (by linarith) hcool
  rcases hsince with ⟨hphase, openedAt, hopened, hle⟩ | ⟨hphase, startedAt, hstarted, hle⟩
  · rcases hfound with ⟨hhalf, -⟩ | ⟨-, hnot⟩
    · rw [hphase] at hhalf
      cases hhalf
    · rw [Option.mem_def.mp hopened, Option.getD_some, hlater openedAt hle] at hnot
      cases hnot
  · rcases hfound with ⟨-, hnot⟩ | ⟨hopen, -⟩
    · have hstart := hnot startedAt hstarted
      rw [hlater startedAt hle] at hstart
      cases hstart
    · rw [hphase] at hopen
      cases hopen

/-- A call that is answered by letting a dispatch through has granted a trial, unless the row is
closed. -/
theorem admitDispatch_refused_or_grants (h : (row data backend).phase ≠ .closed) :
    (admitDispatch settings backend m caller now data).1.allowed = false ∨
      ∃ lease, Call.Grants backend lease data ⟨.admit_ backend m caller, settings, now⟩ := by
  cases hallowed : (admitDispatch settings backend m caller now data).1.allowed with
  | false => exact .inl rfl
  | true =>
    right
    cases htrial : (admitDispatch settings backend m caller now data).1.trialState with
    | some lease => exact ⟨lease, m, caller, rfl, _, rfl, htrial⟩
    | none =>
      exfalso
      unfold admitDispatch at hallowed htrial
      cases herror : settings.error with
      | some error =>
        rw [herror] at hallowed
        cases hallowed
      | none =>
        simp only [herror] at hallowed htrial
        cases hfound : firstOpenConfiguration data (some backend) m with
        | some found =>
          rw [hfound] at hallowed
          cases hallowed
        | none =>
          simp only [hfound] at hallowed htrial
          cases hphase : (row data backend).phase with
          | closed => exact h hphase
          | halfOpen =>
            simp only [admitTransport, hphase] at hallowed htrial
            split at hallowed
            · cases hallowed
            · rename_i hnot
              rw [if_neg hnot] at htrial
              cases htrial
          | open_ =>
            simp only [admitTransport, hphase] at hallowed htrial
            split at hallowed
            · cases hallowed
            · rename_i hnot
              rw [if_neg hnot] at htrial
              cases htrial

/-- A call that reports the end of a trial. -/
def Call.Finishes (backend : String) (lease : BreakerState) (c : Call) : Prop :=
  match c.operation with
  | .finishTrial admission _ => admission.breakerKey = some backend ∧
      ∃ trial ∈ admission.trialState, SameTrial lease trial
  | _ => False

theorem Call.not_releases (h : ¬ c.Finishes backend lease)
    (hsince : Since start (SameTrial lease) (row data backend)) : ¬ c.Releases backend data := by
  obtain ⟨operation, settings, now⟩ := c
  cases operation with
  | finishTrial admission outcome =>
    rintro ⟨hkey, -, trial, htrial, hsame⟩
    simp only [BreakerState.sameLease, Bool.and_eq_true, decide_eq_true_eq] at hsame
    rcases hsince with ⟨hphase, -⟩ | ⟨-, hstarted, howner⟩
    · rw [hphase] at hsame
      cases hsame.1.1.1
    · exact h ⟨hkey, trial, htrial, hsame.1.2.symm.trans hstarted, hsame.2.symm.trans howner⟩
  | admit_ b m caller => exact id
  | inspect b m => exact id
  | recordFailure b failure m => exact id
  | recordSuccess b => exact id
  | reset target => exact id

theorem sameLease_finishTrial {admission : Admission} {trial : BreakerState}
    (hkey : admission.breakerKey = some backend) (htrial : admission.trialState = some trial)
    (hne : trial.trialStartedAt ≠ lease.trialStartedAt) (hstarted : lease.trialStartedAt.isSome)
    (h : (row data backend).sameLease lease = true) :
    (row (settle data (finishTrial settings admission .transport now data)).2 backend).sameLease
      lease = true := by
  simp only [finishTrial, htrial, hkey]
  split
  · exact h
  · have hlease := h
    simp only [BreakerState.sameLease, Bool.and_eq_true, decide_eq_true_eq] at hlease
    have hnot : (row data backend).sameLease trial ≠ true := by
      intro hsame
      simp only [BreakerState.sameLease, Bool.and_eq_true, decide_eq_true_eq] at hsame
      exact hne (hsame.1.2.symm.trans hlease.1.2)
    simp only [BreakerState.finishTrial, if_neg hnot, Option.map_some, settle, row_set_self,
      BreakerState.failLate]
    rw [if_pos ⟨hlease.1.1.1, hlease.1.1.2, by rw [hlease.1.2]; exact hstarted⟩]
    exact h

/-- One trial at a time: until its cooldown is over, it is finished, or a success or a checkpoint
is recorded, no other dispatch is let through; two grants without a success, a checkpoint, a
release or a reset between them are a cooldown apart; and the transport failure of a trial whose
lease is over leaves the lease of a later one. -/
theorem one_trial {settings : Settings} {grant next : Call} {calls : List Call}
    (hgrant : grant.Grants backend lease data)
    (hsettings : ∀ c ∈ grant :: (calls ++ [next]), c.settings = settings)
    (hclock : (grant :: (calls ++ [next])).Pairwise fun a b => a.now ≤ b.now) :
    let start := (grant.run data).2
    ((∀ c ∈ calls, ¬ c.Succeeds backend ∧ ¬ c.Finishes backend lease ∧ ¬ c.Resets backend) →
      isCooling settings.cooldown grant.now next.now = true →
      ∀ m caller, next.operation = .admit_ backend m caller →
        ∃ admission, (next.run (runCalls calls start)).1 = .admission admission ∧
          admission.allowed = false) ∧
    ((∀ before c after, calls = before ++ c :: after → ¬ c.Succeeds backend ∧
        ¬ c.Releases backend (runCalls before start) ∧ ¬ c.Resets backend) →
      ∀ lease', next.Grants backend lease' (runCalls calls start) →
        isCooling settings.cooldown grant.now next.now = false) ∧
    (0 < settings.cooldown → binary64 settings.cooldown = some settings.cooldown →
      ∀ lease', next.Grants backend lease' (runCalls calls start) →
        isCooling settings.cooldown grant.now next.now = false →
        ∀ (later : Data) (late : Call) (admission : Admission),
          (row later backend).sameLease lease' = true →
          late.operation = .finishTrial admission .transport →
          admission.breakerKey = some backend → admission.trialState = some lease →
          (row (late.run later).2 backend).sameLease lease' = true) := by
  intro start
  obtain ⟨hrow, hphase, hstarted, -, -⟩ := hgrant.spec
  obtain ⟨hafter, hrest⟩ := pairwise_cons.mp hclock
  have hcalls : ∀ c ∈ calls, grant.now ≤ c.now ∧ c.now ≤ next.now := by
    intro c hc
    refine ⟨hafter c (mem_append_left _ hc), ?_⟩
    exact (pairwise_append.mp hrest).2.2 c hc next (mem_singleton_self _)
  have hnext : grant.now ≤ next.now := hafter next (by simp)
  have hsetting : ∀ c ∈ calls, c.settings = settings :=
    fun c hc => hsettings c (mem_cons_of_mem _ (mem_append_left _ hc))
  have hlast : next.settings = settings := hsettings next (by simp)
  have hsame : ∀ s, SameTrial lease s → StartedSince grant.now s := by
    intro s hs
    exact ⟨grant.now, hs.1.trans hstarted, le_rfl⟩
  refine ⟨?_, ?_, ?_⟩
  · intro hkeeps hcool m caller hoperation
    have hsince : Since grant.now (SameTrial lease) (row (runCalls calls start) backend) := by
      refine since_runCalls (stable_sameTrial lease) (fun c hc => (hcalls c hc).1)
        (.inr ⟨hrow ▸ hphase, hrow ▸ ⟨rfl, rfl⟩⟩) ?_
      intro before c after hsplit hsince
      have hc : c ∈ calls := by
        rw [hsplit]
        simp
      obtain ⟨hsuccess, hfinish, hreset⟩ := hkeeps c hc
      refine ⟨hsuccess, Call.not_releases hfinish hsince, hreset, ?_⟩
      intro lease' hgrants
      have hover := hgrants.not_cooling (hcalls c hc).1 (hsince.mono hsame)
      rw [hsetting c hc, isCooling_mono hnext (by linarith [(hcalls c hc).2]) hcool] at hover
      cases hover
    obtain ⟨operation, settings', now⟩ := next
    obtain rfl : operation = .admit_ backend m caller := hoperation
    refine ⟨_, rfl, ?_⟩
    refine (admitDispatch_refused_or_grants hsince.ne_closed).resolve_right ?_
    rintro ⟨lease', hgrants⟩
    have hover := hgrants.not_cooling hnext (hsince.mono hsame)
    rw [hlast, hcool] at hover
    cases hover
  · intro hkeeps lease' hgrants
    have hsince : Since grant.now (StartedSince grant.now)
        (row (runCalls calls start) backend) := by
      refine since_runCalls (stable_startedSince _) (fun c hc => (hcalls c hc).1)
        (.inr ⟨hrow ▸ hphase, hrow ▸ ⟨grant.now, hstarted, le_rfl⟩⟩) ?_
      intro before c after hsplit _
      obtain ⟨hsuccess, hrelease, hreset⟩ := hkeeps before c after hsplit
      refine ⟨hsuccess, hrelease, hreset, fun lease' hgrants => ?_⟩
      refine ⟨c.now, hgrants.spec.2.2.1, (hcalls c ?_).1⟩
      rw [hsplit]
      simp
    rw [← hlast]
    exact hgrants.not_cooling hnext hsince
  · intro hpos hfloat lease' hgrants hover later late admission hcarries hoperation hkey htrial
    obtain ⟨-, -, hstarted', -⟩ := hgrants.spec
    obtain ⟨operation, settings', now⟩ := late
    obtain rfl : operation = .finishTrial admission .transport := hoperation
    refine sameLease_finishTrial hkey htrial ?_ (by rw [hstarted']; rfl) hcarries
    rw [hstarted, hstarted']
    intro heq
    rw [← Option.some.inj heq, isCooling_self hpos hfloat] at hover
    cases hover

/-- Three failures open a backend; after the cooldown, one of two callers is let through. -/
theorem one_trial_sample :
    let failures := (range 3).map fun n => (⟨.recordFailure "codex" .transport none, {}, n⟩ : Call)
    let opened := runCalls failures []
    let grant : Call := ⟨.admit_ "codex" none ⟨some 1, none, none⟩, {}, 400⟩
    let next : Call := ⟨.admit_ "codex" (some "m") ⟨some 2, none, none⟩, {}, 500⟩
    ∃ admission, (next.run (grant.run opened).2).1 = .admission admission ∧
      admission.allowed = false := by
  intro failures opened grant next
  have hgrant : ∃ lease, grant.Grants "codex" lease opened :=
    ⟨(row opened "codex").halfOpen 400 ⟨some 1, none, none⟩, none, ⟨some 1, none, none⟩, rfl,
      trialOf "codex" ((row opened "codex").halfOpen 400 ⟨some 1, none, none⟩) .trial,
      by decide +kernel, rfl⟩
  obtain ⟨lease, hgrants⟩ := hgrant
  have hboth : ∀ c ∈ grant :: ([] ++ [next]), c.settings = {} := by
    intro c hc
    simp only [nil_append, mem_cons, not_mem_nil, or_false] at hc
    rcases hc with rfl | rfl <;> rfl
  have hclock : (grant :: ([] ++ [next])).Pairwise fun a b => a.now ≤ b.now := by decide +kernel
  exact (one_trial hgrants hboth hclock).1 (by simp) (by decide +kernel) (some "m")
    ⟨some 2, none, none⟩ rfl

end Workbay.Breaker

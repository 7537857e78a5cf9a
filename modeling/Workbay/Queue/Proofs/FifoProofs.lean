import Workbay.Effects.Proofs.SafeProofs
import Workbay.Queue.JobFiles
import Workbay.Queue.Proofs.BurstProofs

/-!
# Proofs: a pass starts its rows in order

A row that a pass leaves behind is out of the queue, or it has waited too long; neither is undone
before the pass ends. So every row before the one that is started is settled.
-/

namespace Workbay.Queue

open Effects List

/-- The job is out of the queue, or it has waited too long but has got no `done.json`. -/
def JobFiles.Settled (w : JobFiles) (job : String) : Prop :=
  (w.file job).out = true ∨ job ∈ w.uncertified

variable {maxWait : ℚ} {rows : List String} {w w' : JobFiles} {c : Choice} {job j : String}

theorem currentQueuedEligibility_cases (maxWait : ℚ) (f : JobFile) (clock : ℚ) :
    (∃ reason, f.currentQueuedEligibility maxWait clock = (.refused reason, f)) ∨
    (f.currentQueuedEligibility maxWait clock = (.gone, f) ∧ f.out = true) ∨
    f.out = false ∧ (f.currentQueuedEligibility maxWait clock = (.gone, f.writeDone) ∨
      ∃ state latest, f.currentQueuedEligibility maxWait clock = (.queued state, f) ∧
        f.state = .object latest) := by
  unfold JobFile.currentQueuedEligibility JobFile.out
  split
  · exact .inl ⟨_, rfl⟩
  · exact .inl ⟨_, rfl⟩
  · rename_i latest hstate
    split
    · rename_i hgone
      refine .inr (.inl ⟨rfl, ?_⟩)
      simpa [or_comm] using hgone
    · rename_i hwaits
      split
      · exact .inl ⟨_, rfl⟩
      · have hout : (f.done || !latest.state.equals (.str "queued")) = false := by
          simpa [and_comm] using hwaits
        split
        · exact .inr (.inr ⟨hout, .inl rfl⟩)
        · exact .inr (.inr ⟨hout, .inr ⟨_, latest, rfl, hstate⟩⟩)

/-- Nothing is started, and what is settled stays so. -/
def JobFiles.Grows (w w' : JobFiles) : Prop :=
  w'.started = w.started ∧ ∀ j, w.Settled j → w'.Settled j

theorem eligibility_cases (maxWait : ℚ) (w : JobFiles) (c : Choice) (job : String) :
    (∃ reason, w.eligibility maxWait c job = (.refused reason, w)) ∨
    (∃ state latest, w.eligibility maxWait c job = (.queued state, w) ∧
      (w.file job).out = false ∧ (w.file job).state = .object latest) ∨
    ∃ w', w.eligibility maxWait c job = (.gone, w') ∧ w.Grows w' ∧ w'.Settled job := by
  unfold JobFiles.eligibility
  rcases currentQueuedEligibility_cases maxWait (w.file job) c.clock with
    ⟨reason, h⟩ | ⟨h, hout⟩ | ⟨hout, h | ⟨state, latest, h, hstate⟩⟩
  all_goals rw [h]
  · exact .inl ⟨reason, rfl⟩
  · refine .inr (.inr ⟨_, rfl, ⟨rfl, fun j hj => ?_⟩, .inl ?_⟩)
    · simpa [JobFiles.put, JobFiles.Settled, hout] using hj
    · simpa [JobFiles.put] using hout
  · have hself : JobFiles.Settled { w.put job (w.file job).writeDone with
        uncertified := if (w.file job).writeDone.out then w.uncertified
          else job :: w.uncertified } job := by
      cases hdone : (w.file job).writeDone.out with
      | true => exact .inl (by simpa [JobFiles.put] using hdone)
      | false => exact .inr mem_cons_self
    refine .inr (.inr ⟨_, rfl, ⟨rfl, fun j hj => ?_⟩, hself⟩)
    by_cases hjob : j = job
    · exact hjob ▸ hself
    · refine hj.imp (fun hj => by simpa [JobFiles.put, hjob] using hj) fun hj => ?_
      show j ∈ ite _ _ _
      split
      · exact hj
      · exact mem_cons_of_mem _ hj
  · exact .inr (.inl ⟨state, latest, rfl, hout, hstate⟩)

theorem spawn_out {f : JobFile} {latest : JobRecord} (hstate : f.state = .object latest)
    (h : (c.spawn f).1.2 = none) : (c.spawn f).2.out = true := by
  have hleft : (if c.left.out then c.left else f.withState "launching").out = true := by
    split
    · assumption
    · simp [JobFile.out, JobFile.withState, hstate, Reading.equals]
  unfold Choice.spawn at h ⊢
  cases hending : c.ending with
  | timedOut | failed _ => cases hfenced : c.fenced <;> simp [hending, hfenced, ScriptEnd.refusal] at h
  | returned =>
    cases hfenced : c.fenced with
    | some reason => simpa [hending, hfenced, ScriptEnd.refusal] using hleft
    | none =>
      simp only [ScriptEnd.refusal]
      generalize (if c.left.out then c.left else f.withState "launching") = left at hleft
      unfold JobFile.settle
      split
      · rename_i settled hsettled
        split
        · simp [JobFile.out, JobFile.withState, hsettled, Reading.equals, ScriptEnd.state]
        · exact hleft
      · exact hleft

/-- The row that an answer leaves behind. -/
def passed : (op : DrainOp) → op.Answer → Option String
  | .lockedEligibility job, .ok .gone => some job
  | .currentEligibility job, .gone => some job
  | .eligibleReservationRow job, false => some job
  | .launch job _, (_, none) => some job
  | _, _ => none

theorem passed_launch {admission : Admission} {a : Bool × Option String}
    (h : passed (.launch job admission) a = some j) : j = job ∧ a.2 = none := by
  obtain ⟨launched, _ | refusal⟩ := a
  · exact ⟨(Option.some.inj h).symm, rfl⟩
  · cases h

/-- What is settled stays so, a launch starts its own job at most, and a row that is left behind is
settled. -/
def JobFiles.Steps (w : JobFiles) (op : DrainOp) (r : op.Answer × JobFiles) : Prop :=
  (∀ j, w.Settled j → r.2.Settled j) ∧
  (∀ j ∈ r.2.started, j ∈ w.started ∨ ∃ admission, op = .launch j admission) ∧
  ∀ job, passed op r.1 = some job → r.2.Settled job

variable {op : DrainOp} {a : op.Answer}

theorem steps_stay (h : passed op a = none) : w.Steps op (a, w) := by
  refine ⟨fun _ hj => hj, fun _ hj => .inl hj, fun job hpassed => ?_⟩
  rw [h] at hpassed
  cases hpassed

theorem steps_grow (hgrows : w.Grows w') (hsettled : w'.Settled job) (h : passed op a = some job) :
    w.Steps op (a, w') := by
  refine ⟨hgrows.2, fun j hj => .inl (hgrows.1 ▸ hj), fun job' hpassed => ?_⟩
  obtain rfl := Option.some.inj (h.symm.trans hpassed)
  exact hsettled

theorem launch_steps (maxWait : ℚ) (w : JobFiles) (c : Choice) (job : String) (admission : Admission) :
    w.Steps (.launch job admission) (w.launch maxWait c job) := by
  unfold JobFiles.launch
  split
  · exact steps_stay rfl
  · rcases eligibility_cases maxWait w c job with
      ⟨reason, h⟩ | ⟨state, latest, h, hout, hstate⟩ | ⟨w', h, hgrows, hsettled⟩
    all_goals rw [h]
    · exact steps_stay rfl
    · simp only
      split
      · exact steps_stay rfl
      · refine ⟨fun j hj => ?_, fun j hj => ?_, fun j hpassed => ?_⟩
        · by_cases hjob : j = job
          · subst hjob
            exact .inr (hj.resolve_left (by simp [hout]))
          · exact hj.imp (fun hj => by simpa [JobFiles.put, hjob] using hj) fun hj => hj
        · exact (mem_cons.mp hj).symm.imp_right fun h => ⟨admission, by rw [h]⟩
        · obtain ⟨rfl, hnone⟩ := passed_launch hpassed
          exact .inl (by simpa [JobFiles.put] using spawn_out hstate hnone)
    · exact steps_grow hgrows hsettled rfl

theorem eligibility_steps (maxWait : ℚ) (w : JobFiles) (c : Choice) (op : DrainOp)
    (answer : Eligibility → op.Answer) (hgone : passed op (answer .gone) = some job)
    (hqueued : ∀ state, passed op (answer (.queued state)) = none)
    (hrefused : ∀ reason, passed op (answer (.refused reason)) = none) :
    w.Steps op (answer (w.eligibility maxWait c job).1, (w.eligibility maxWait c job).2) := by
  rcases eligibility_cases maxWait w c job with
    ⟨reason, h⟩ | ⟨state, latest, h, -⟩ | ⟨w', h, hgrows, hsettled⟩
  all_goals rw [h]
  · exact steps_stay (hrefused reason)
  · exact steps_stay (hqueued state)
  · exact steps_grow hgrows hsettled hgone

theorem perform_steps (maxWait : ℚ) (w : JobFiles) (c : Choice) (op : DrainOp) :
    w.Steps op (w.perform maxWait c op) := by
  cases op with
  | launch job admission => exact launch_steps maxWait w c job admission
  | lockedEligibility job =>
    simp only [JobFiles.perform]
    split
    · exact steps_stay rfl
    · exact eligibility_steps maxWait w c (.lockedEligibility job) .ok rfl (fun _ => rfl) fun _ => rfl
  | currentEligibility job =>
    exact eligibility_steps maxWait w c (.currentEligibility job) id rfl (fun _ => rfl) fun _ => rfl
  | eligibleReservationRow job =>
    simp only [JobFiles.perform]
    split
    · exact steps_stay rfl
    · exact eligibility_steps maxWait w c (.eligibleReservationRow job) Eligibility.keepsRow rfl
        (fun _ => rfl) fun _ => rfl
  | _ => exact steps_stay rfl

theorem act_spec (h : act maxWait rows op c w = some (a, w')) :
    (∀ j ∈ rows, w.Settled j → w'.Settled j) ∧
    (∀ j ∈ w'.started, j ∈ w.started ∨ ∃ admission, op = .launch j admission) ∧
    ∀ job, passed op a = some job → w'.Settled job := by
  have hothers : ∀ j ∈ rows, w.Settled j → (w.interfere rows c.others).Settled j := by
    intro j hj h
    refine h.imp (fun h => ?_) fun h => h
    simp only [JobFiles.interfere]
    split
    · split
      · exact h
      · rename_i hnot
        simpa [hj, h] using hnot
    · exact h
  obtain ⟨hgrows, hstarted, hpassed⟩ := perform_steps maxWait (w.interfere rows c.others) c op
  rw [Option.some.inj h] at hgrows hstarted hpassed
  exact ⟨fun j hj hset => hgrows j (hothers j hj hset), hstarted, hpassed⟩

variable {α : Type} {p : DrainM α} {r : Except DrainError α} {cfg : Settings} {b b' : Burst}
  {later : Bool} {before after : List String}

theorem settled_of_runs (hr : Runs (act maxWait rows) p w r w') (hj : j ∈ rows)
    (h : w.Settled j) : w'.Settled j := by
  induction hr with
  | ret | raise => exact h
  | call c ha _ ih => exact ih ((act_spec ha).1 j hj h)

theorem started_of_runs {post : Except DrainError α → Prop}
    (hr : Runs (act maxWait rows) p w r w') (hp : p.Ensures (Starts cfg job) post) :
    (∀ j ∈ w'.started, j ∈ w.started ∨ j = job) ∧ post r := by
  refine hr.keeps (J := fun w₁ => ∀ j ∈ w₁.started, j ∈ w.started ∨ j = job) hp
    (fun hop ha h j hj => ?_) fun j hj => .inl hj
  rcases (act_spec ha).2.1 j hj with hj | ⟨admission, rfl⟩
  · exact h j hj
  · exact .inr hop.1

theorem eligible_runs (h : Runs (act maxWait rows) (eligible cfg job) w (.ok false) w') :
    w'.Settled job := by
  unfold eligible at h
  split at h
  · obtain ⟨c, a, w₁, ha, h⟩ := h.of_call
    cases h
    exact (act_spec ha).2.2 job rfl
  · obtain ⟨c, a, w₁, ha, h⟩ := h.of_call
    cases a with
    | gone =>
      cases h
      exact (act_spec ha).2.2 job rfl
    | queued _ | refused _ => cases h

/-- Rows are left out of a list only when they are settled. -/
def Pruned (w : JobFiles) (before after : List String) : Prop :=
  after.Sublist before ∧ ∀ j ∈ before, j ∉ after → w.Settled j

theorem Pruned.of_runs (h : Pruned w before after) (hrows : ∀ j ∈ before, j ∈ rows)
    (hr : Runs (act maxWait rows) p w r w') : Pruned w' before after :=
  ⟨h.1, fun j hj hnot => settled_of_runs hr (hrows j hj) (h.2 j hj hnot)⟩

theorem eligibleRows_runs (hrows : ∀ j ∈ before, j ∈ rows)
    (h : Runs (act maxWait rows) (eligibleRows cfg before) w (.ok after) w') :
    Pruned w' before after := by
  induction before generalizing w after with
  | nil =>
    cases h
    exact ⟨.slnil, fun _ hj => by cases hj⟩
  | cons job before ih =>
    obtain ⟨keep, w₁, hkeep, h⟩ := h.ok_bind
    obtain ⟨kept, w₂, hrest, h⟩ := h.ok_bind
    cases h
    obtain ⟨hsub, hset⟩ := ih (fun j hj => hrows j (mem_cons_of_mem _ hj)) hrest
    cases keep with
    | false =>
      refine ⟨hsub.cons _, fun j hj hnot => ?_⟩
      rcases mem_cons.mp hj with rfl | hj
      · exact settled_of_runs hrest (hrows j mem_cons_self) (eligible_runs hkeep)
      · exact hset j hj hnot
    | true =>
      refine ⟨hsub.cons_cons _, fun j hj hnot => ?_⟩
      rcases mem_cons.mp hj with rfl | hj
      · exact absurd mem_cons_self hnot
      · exact hset j hj fun hmem => hnot (mem_cons_of_mem _ hmem)

section

variable (hrows : ∀ j ∈ b.rest, j ∈ rows)

include hrows

theorem prepare_runs {holder : HolderUsage} {state : JobState} {candidate : Candidate}
    (h : Runs (act maxWait rows) (prepare cfg later b job holder state) w
      (.ok (.ok (b', candidate))) w') : Pruned w' b.rest b'.rest := by
  obtain ⟨rest, w₁, hrest, h⟩ := h.ok_bind
  have hpruned := (eligibleRows_runs hrows hrest).of_runs hrows h
  suffices b'.rest = rest from this ▸ hpruned
  obtain ⟨_ | known, w₂, -, h⟩ := h.ok_bind
  · cases h
  · obtain ⟨reason | dirs, w₃, -, h⟩ := h.ok_bind
    · cases h
    · obtain ⟨_ | pending, w₄, -, h⟩ := h.ok_bind
      · cases h
      · simp only at h
        split at h
        · cases h
        · cases h
        · obtain ⟨rfl, -⟩ := (started_of_runs h (prepareLaunch_ensures later job _ job _ _)).2 b'
            candidate rfl
          rfl

variable {v : Visited} (hjob : job ∈ rows)

/-- A row that is left behind is settled, and so are the rows that are left out. -/
def LeavesBehind (w : JobFiles) (b : Burst) (job : String) (v : Visited) : Prop :=
  v.2 = none → w.Settled job ∧ Pruned w b.rest v.1.rest

omit hrows in
theorem leavesBehind_refused {refusal : String} : LeavesBehind w b job (b', some refusal) :=
  fun h => by cases h

omit hrows in
theorem leavesBehind_same (h : w.Settled job) : LeavesBehind w b job (b, none) :=
  fun _ => ⟨h, .refl _, fun _ hj hnot => absurd hj hnot⟩

include hjob

theorem startPrepared_runs {prepared : Except String (Burst × Candidate)}
    (hprepared : ∀ b₁ candidate, prepared = .ok (b₁, candidate) → Pruned w b.rest b₁.rest)
    (h : Runs (act maxWait rows) (startPrepared cfg b job prepared) w (.ok v) w') :
    LeavesBehind w' b job v := by
  rcases prepared with reason | ⟨b₁, candidate⟩
  · cases h
    exact leavesBehind_refused
  · have hpruned := (hprepared b₁ candidate rfl).of_runs hrows h
    obtain ⟨c, ⟨launched, _ | refusal⟩, w₁, ha, h⟩ := h.of_call
    · have hsettled := settled_of_runs h hjob ((act_spec ha).2.2 job rfl)
      cases launched with
      | false =>
        cases h
        exact fun _ => ⟨hsettled, hpruned⟩
      | true =>
        obtain ⟨-, -, w₂, -, h⟩ := h.of_call
        obtain ⟨-, latest, w₃, -, h⟩ := h.of_call
        cases h
        exact fun _ => ⟨hsettled, hpruned⟩
    · cases h
      exact leavesBehind_refused

theorem visitQueued_runs {state : JobState}
    (h : Runs (act maxWait rows) (visitQueued cfg later b job state) w (.ok v) w') :
    LeavesBehind w' b job v := by
  have hstart : ∀ {holder latest w}, Runs (act maxWait rows)
      (prepare cfg later b job holder latest >>= startPrepared cfg b job) w (.ok v) w' →
      LeavesBehind w' b job v := by
    intro holder latest w h
    obtain ⟨prepared, w₁, hprepared, h⟩ := h.ok_bind
    exact startPrepared_runs hrows hjob (fun b₁ candidate heq => prepare_runs hrows
      (heq ▸ hprepared)) h
  unfold visitQueued at h
  split at h
  · exact hstart h
  · obtain ⟨-, reason | holder, w₁, -, h⟩ := h.of_call
    · cases h
      exact leavesBehind_refused
    · obtain ⟨c, latest | _ | reason, w₂, ha, h⟩ := h.of_call
      · exact hstart h
      · cases h
        exact leavesBehind_same ((act_spec ha).2.2 job rfl)
      · cases h
        exact leavesBehind_refused

theorem visitRow_runs (h : Runs (act maxWait rows) (visitRow cfg later job (b, none)) w (.ok v) w') :
    LeavesBehind w' b job v := by
  obtain ⟨c, reason | state | _ | reason, w₁, ha, h⟩ := h.of_call
  · cases h
    exact leavesBehind_refused
  · exact visitQueued_runs hrows hjob h
  · cases h
    exact leavesBehind_same ((act_spec ha).2.2 job rfl)
  · cases h
    exact leavesBehind_refused

theorem visit_runs (h : Runs (act maxWait rows) (visit cfg later b job) w (.ok v) w') :
    LeavesBehind w' b job v := by
  obtain ⟨_ | refusal, w₁, -, h⟩ := h.ok_bind
  · obtain ⟨⟨b₁, refusal⟩, w₂, hread, h⟩ := h.ok_bind
    have hrest : b₁.rest = b.rest := by
      split at hread
      · obtain ⟨-, began, w₃, -, hread⟩ := hread.of_call
        obtain ⟨samples, w₄, -, hread⟩ := hread.ok_bind
        obtain ⟨-, ended, w₅, -, hread⟩ := hread.of_call
        obtain ⟨-, exception | measure, w₆, -, hread⟩ := hread.of_call
        all_goals cases hread; rfl
      · cases hread
        rfl
    cases refusal with
    | some refusal =>
      cases h
      exact leavesBehind_refused
    | none =>
      unfold LeavesBehind
      rw [← hrest]
      exact visitRow_runs (hrest ▸ hrows) hjob h
  · cases h
    exact leavesBehind_refused

end

/-- Every job that is started comes after settled jobs only. -/
def InOrder (rows : List String) (w : JobFiles) : Prop :=
  ∀ job ∈ w.started, ∀ earlier, [earlier, job].Sublist rows → w.Settled earlier

theorem not_mem_of_earlier {earlier : String} {rest : List String} (hnodup : rows.Nodup)
    (hrest : (job :: rest).Sublist rows) (h : [earlier, job].Sublist rows) :
    earlier ∉ job :: rest := by
  intro hmem
  obtain ⟨front, back, rfl, hfront, hback⟩ := cons_sublist_iff.mp h
  have hback := singleton_sublist.mp hback
  have hdisjoint : ∀ j ∈ front, j ∉ back := fun j hj hj' =>
    (nodup_append.mp hnodup).2.2 j hj j hj' rfl
  obtain ⟨first, second, heq, hfirst, hsecond⟩ := sublist_append_iff.mp hrest
  cases first with
  | nil =>
    rw [heq] at hmem
    exact hdisjoint earlier hfront (hsecond.subset hmem)
  | cons j first =>
    obtain ⟨rfl, -⟩ := List.cons.inj heq
    exact hdisjoint job (hfirst.subset mem_cons_self) hback

theorem drainRows_runs (hnodup : rows.Nodup) (fuel : Nat) :
    ∀ {later : Bool} {b : Burst} {w : JobFiles} {r : Except DrainError BurstOutcome},
      Runs (act maxWait rows) (drainRows cfg fuel later b) w r w' → b.Charged →
      Pruned w rows b.rest → InOrder rows w → InOrder rows w' := by
  induction fuel with
  | zero =>
    intro later b w r h _ _ horder
    cases h
    exact horder
  | succ fuel ih =>
    intro later b w r h hb hpruned horder
    unfold drainRows at h
    split at h
    · cases h
      exact horder
    · rename_i job rest hrest
      rw [hrest] at hpruned
      have hsub := hpruned.1
      have hvisit : ∀ {o : Except DrainError Visited} {w₁ : JobFiles},
          Runs (act maxWait rows) (visit cfg later { b with rest := rest } job) w o w₁ →
          InOrder rows w₁ ∧ Goes o := by
        intro o w₁ hv
        obtain ⟨hstarted, hgoes⟩ :=
          started_of_runs hv (visit_ensures later (hb.withRest rest b.costs) job)
        refine ⟨fun j hj earlier hbefore => ?_, hgoes⟩
        have hin : earlier ∈ rows := hbefore.subset mem_cons_self
        refine settled_of_runs hv hin ?_
        rcases hstarted j hj with hj | rfl
        · exact horder j hj earlier hbefore
        · exact hpruned.2 earlier hin (not_mem_of_earlier hnodup hsub hbefore)
      rcases h.of_bind with ⟨⟨b', refusal⟩, w₁, hv, h⟩ | ⟨x, -, hv⟩
      · obtain ⟨horder', hgoes⟩ := hvisit hv
        cases refusal with
        | some refusal =>
          cases h
          exact horder'
        | none =>
          obtain ⟨hsettled, hsub', hleft⟩ := visit_runs
            (fun j hj => hsub.subset (mem_cons_of_mem _ hj)) (hsub.subset mem_cons_self) hv rfl
          refine ih h (hgoes b' rfl) ⟨hsub'.trans (sublist_of_cons_sublist hsub),
            fun j hj hnot => ?_⟩ horder'
          by_cases hmem : j ∈ job :: rest
          · rcases mem_cons.mp hmem with rfl | hmem
            · exact hsettled
            · exact hleft j hmem hnot
          · exact settled_of_runs hv hj (hpruned.2 j hj hmem)
      · exact (hvisit hv).1

/-- First in, first out: whatever the files, the locks, the gauges and the scripts do during a pass,
a job is started only when every earlier row of the snapshot is out of the queue or has waited too
long without a receipt. -/
theorem drain_fifo (hnodup : rows.Nodup) {baseline : Readings} {r : Except DrainError BurstOutcome}
    {file : String → JobFile} {earlier : String}
    (hr : Runs (act maxWait rows) (drain cfg rows baseline) ⟨file, [], []⟩ r w')
    (hstarted : job ∈ w'.started) (hearlier : [earlier, job].Sublist rows) :
    (w'.file earlier).out = true ∨ earlier ∈ w'.uncertified :=
  drainRows_runs hnodup rows.length hr (charged_baseline rows baseline)
    ⟨.refl _, fun _ hj hnot => absurd hj hnot⟩ (fun _ hj => by cases hj) job hstarted earlier hearlier

/-! ## What a pass starts -/

theorem eligibility_keeps (maxWait : ℚ) (w : JobFiles) (c : Choice) (job j : String) :
    (w.eligibility maxWait c job).2.started = w.started ∧
      ((w.file j).out = true → ((w.eligibility maxWait c job).2.file j).out = true) := by
  unfold JobFiles.eligibility
  rcases currentQueuedEligibility_cases maxWait (w.file job) c.clock with
    ⟨reason, h⟩ | ⟨h, -⟩ | ⟨hout, h | ⟨state, latest, h, -⟩⟩
  all_goals rw [h]
  · exact ⟨rfl, id⟩
  · refine ⟨rfl, fun hj => ?_⟩
    by_cases hjob : j = job <;> simp_all [JobFiles.put]
  · refine ⟨rfl, fun hj => ?_⟩
    have hne : j ≠ job := fun heq => by simp [heq, hout] at hj
    simpa [JobFiles.put, hne] using hj
  · exact ⟨rfl, id⟩

/-- An operation starts nothing, or it launches a job that is in the queue; a job that is out of the
queue stays out. -/
def Launches (w : JobFiles) (op : DrainOp) (w' : JobFiles) : Prop :=
  (w'.started = w.started ∨
    ∃ job admission, op = .launch job admission ∧ w'.started = job :: w.started ∧
      (w.file job).out = false) ∧
  ∀ j, (w.file j).out = true → (w'.file j).out = true

theorem launch_launches (maxWait : ℚ) (w : JobFiles) (c : Choice) (job : String)
    (admission : Admission) :
    Launches w (.launch job admission) (w.launch maxWait c job).2 := by
  have hkeeps := eligibility_keeps maxWait w c job
  unfold JobFiles.launch
  split
  · exact ⟨.inl rfl, fun _ => id⟩
  · rcases eligibility_cases maxWait w c job with
      ⟨reason, h⟩ | ⟨state, latest, h, hout, -⟩ | ⟨w', h, -⟩
    all_goals rw [h] at hkeeps ⊢
    · exact ⟨.inl rfl, fun _ => id⟩
    · simp only
      split
      · exact ⟨.inl rfl, fun _ => id⟩
      · refine ⟨.inr ⟨job, admission, rfl, rfl, hout⟩, fun j hj => ?_⟩
        have hne : j ≠ job := fun heq => by simp [heq, hout] at hj
        simpa [JobFiles.put, hne] using hj
    · exact ⟨.inl (hkeeps job).1, fun j => (hkeeps j).2⟩

theorem perform_launches (maxWait : ℚ) (w : JobFiles) (c : Choice) (op : DrainOp) :
    Launches w op (w.perform maxWait c op).2 := by
  have hkeeps : ∀ job, Launches w op (w.eligibility maxWait c job).2 := fun job =>
    ⟨.inl (eligibility_keeps maxWait w c job job).1,
      fun j => (eligibility_keeps maxWait w c job j).2⟩
  cases op with
  | launch job admission => exact launch_launches maxWait w c job admission
  | lockedEligibility job | eligibleReservationRow job =>
    simp only [JobFiles.perform]
    split
    · exact ⟨.inl rfl, fun _ => id⟩
    · exact hkeeps job
  | currentEligibility job => exact hkeeps job
  | _ => exact ⟨.inl rfl, fun _ => id⟩

theorem act_launches (h : act maxWait rows op c w = some (a, w')) :
    (w'.started = w.started ∨
      ∃ job admission, op = .launch job admission ∧ w'.started = job :: w.started ∧
        (job ∈ rows → (w.file job).out = false)) ∧
    ∀ j ∈ rows, (w.file j).out = true → (w'.file j).out = true := by
  have hothers : ∀ j ∈ rows, (w.file j).out = true →
      ((w.interfere rows c.others).file j).out = true := by
    intro j hj h
    simp only [JobFiles.interfere]
    split
    · split
      · exact h
      · rename_i hnot
        simpa [hj, h] using hnot
    · exact h
  obtain ⟨hstarted, hout⟩ := perform_launches maxWait (w.interfere rows c.others) c op
  rw [Option.some.inj h] at hstarted hout
  refine ⟨hstarted.imp_right ?_, fun j hj hset => hout j (hothers j hj hset)⟩
  rintro ⟨job, admission, hop, hjob, hqueued⟩
  refine ⟨job, admission, hop, hjob, fun hin => ?_⟩
  by_contra hnot
  rw [hothers job hin (by simpa using hnot)] at hqueued
  cases hqueued

theorem stays_out (hr : Runs (act maxWait rows) p w r w') (hj : j ∈ rows)
    (hout : (w.file j).out = true) (hnot : j ∉ w.started) :
    (w'.file j).out = true ∧ j ∉ w'.started := by
  induction hr with
  | ret | raise => exact ⟨hout, hnot⟩
  | call c ha _ ih =>
    obtain ⟨hstarted, hkeeps⟩ := act_launches ha
    refine ih (hkeeps j hj hout) ?_
    rcases hstarted with heq | ⟨job, -, -, heq, hqueued⟩
    · rwa [heq]
    · rw [heq]
      refine fun hmem => (mem_cons.mp hmem).elim (fun hjob => ?_) hnot
      subst hjob
      rw [hqueued hj] at hout
      cases hout

/-- A part of a visit that launches no row starts nothing. -/
theorem started_eq (cfg : Settings) {q : String → Except DrainError α → Prop}
    (hr : Runs (act maxWait rows) p w r w') (hp : ∀ row, p.Ensures (Starts cfg row) (q row)) :
    w'.started = w.started := by
  induction hr with
  | ret | raise => rfl
  | call c ha _ ih =>
    rw [ih fun row => (hp row).2 _]
    rcases (act_launches ha).1 with heq | ⟨job, admission, rfl, -⟩
    · exact heq
    · have hself := congrArg String.length ((hp (job ++ "+")).1).1
      simp at hself

/-- At most one launch, of the job itself. -/
def Once (job : String) (w w' : JobFiles) : Prop :=
  w'.started = w.started ∨ w'.started = job :: w.started

theorem once_bind {β : Type} {f : α → DrainM β} {r : Except DrainError β} (cfg : Settings)
    {q : String → Except DrainError α → Prop} (hp : ∀ row, p.Ensures (Starts cfg row) (q row))
    (hr : Runs (act maxWait rows) (p >>= f) w r w')
    (hf : ∀ a w₁, Runs (act maxWait rows) (f a) w₁ r w' → Once job w₁ w') : Once job w w' := by
  rcases hr.of_bind with ⟨a, w₁, hfirst, hrest⟩ | ⟨x, -, hfirst⟩
  · have hstarted := started_eq cfg hfirst hp
    have honce := hf a w₁ hrest
    unfold Once at honce ⊢
    rwa [hstarted] at honce
  · exact .inl (started_eq cfg hfirst hp)

theorem once_call (cfg : Settings) {next : op.Answer → DrainM α} (hop : ∀ row, Starts cfg row op)
    (hr : Runs (act maxWait rows) (.call op next) w r w')
    (hf : ∀ a w₁, Runs (act maxWait rows) (next a) w₁ r w' → Once job w₁ w') : Once job w w' :=
  once_bind cfg (p := .call op .ret) (q := fun _ _ => True)
    (fun row => ⟨hop row, fun _ => trivial⟩) hr hf

section

variable {v : Except DrainError Visited}

theorem startPrepared_once {prepared : Except String (Burst × Candidate)}
    (hr : Runs (act maxWait rows) (startPrepared cfg b job prepared) w v w') : Once job w w' := by
  rcases prepared with reason | ⟨b₁, candidate⟩
  · cases hr
    exact .inl rfl
  · obtain ⟨c, answer, w₁, ha, hr⟩ := hr.of_call
    have hrest : w'.started = w₁.started := by
      refine started_eq cfg (q := fun _ _ => True) hr fun row => ?_
      rcases answer with ⟨_ | _, _ | refusal⟩
      · trivial
      · trivial
      · exact ⟨trivial, fun _ => ⟨trivial, fun _ => trivial⟩⟩
      · trivial
    unfold Once
    rw [hrest]
    rcases (act_launches ha).1 with heq | ⟨job', admission, hop, heq, -⟩
    · exact .inl heq
    · cases hop
      exact .inr heq

theorem visitQueued_once {state : JobState}
    (hr : Runs (act maxWait rows) (visitQueued cfg later b job state) w v w') : Once job w w' := by
  have hstart : ∀ {holder latest w}, Runs (act maxWait rows)
      (prepare cfg later b job holder latest >>= startPrepared cfg b job) w v w' →
      Once job w w' := fun h =>
    once_bind cfg (fun row => prepare_ensures later b job _ _) h fun _ _ => startPrepared_once
  unfold visitQueued at hr
  split at hr
  · exact hstart hr
  · refine once_call cfg (fun _ => by trivial) hr fun locked w₁ hr => ?_
    rcases locked with reason | holder
    · cases hr
      exact .inl rfl
    · refine once_call cfg (fun _ => by trivial) hr fun found w₂ hr => ?_
      cases found with
      | queued latest => exact hstart hr
      | gone | refused _ =>
        cases hr
        exact .inl rfl

theorem visitRow_once {visited : Visited}
    (hr : Runs (act maxWait rows) (visitRow cfg later job visited) w v w') : Once job w w' := by
  rcases visited with ⟨b, _ | refusal⟩
  · refine once_call cfg (fun _ => by trivial) hr fun found w₁ hr => ?_
    rcases found with reason | state | _ | reason
    · cases hr
      exact .inl rfl
    · exact visitQueued_once hr
    all_goals
      cases hr
      exact .inl rfl
  · cases hr
    exact .inl rfl

theorem visit_once (hr : Runs (act maxWait rows) (visit cfg later b job) w v w') :
    Once job w w' := by
  refine once_bind cfg (q := fun _ _ => True) (fun row => ?_) hr
    fun refusal w₁ hr => ?_
  · unfold mayGoOn
    split
    · refine ⟨trivial, fun stop => ?_⟩
      cases stop with
      | true => trivial
      | false => exact ⟨trivial, fun late => by cases late <;> trivial⟩
    · trivial
  · cases refusal with
    | some refusal =>
      cases hr
      exact .inl rfl
    | none =>
      refine once_bind cfg (q := fun _ _ => True) (fun row => ?_) hr
        fun visited w₂ => visitRow_once
      split
      · refine ⟨trivial, fun began => ?_⟩
        refine Prog.Ensures.bind (readSamples_ensures _ b.accepted) (fun samples _ => ?_)
          fun _ _ => trivial
        exact ⟨trivial, fun ended => ⟨trivial, fun measure => by cases measure <;> trivial⟩⟩
      · trivial

end

theorem drainRows_starts (fuel : Nat) :
    ∀ {later : Bool} {b : Burst} {w : JobFiles} {r : Except DrainError BurstOutcome},
      Runs (act maxWait rows) (drainRows cfg fuel later b) w r w' →
      (w.started.reverse ++ b.rest).Sublist rows → w'.started.reverse.Sublist rows := by
  induction fuel with
  | zero =>
    intro later b w r h hsub
    cases h
    exact (sublist_append_left _ _).trans hsub
  | succ fuel ih =>
    intro later b w r h hsub
    unfold drainRows at h
    split at h
    · cases h
      exact (sublist_append_left _ _).trans hsub
    · rename_i job rest hrest
      rw [hrest] at hsub
      have hvisit : ∀ {o : Except DrainError Visited} {w₁ : JobFiles},
          Runs (act maxWait rows) (visit cfg later { b with rest := rest } job) w o w₁ →
          (w₁.started.reverse ++ rest).Sublist rows := by
        intro o w₁ hv
        rcases visit_once hv with heq | heq
        · rw [heq]
          exact ((sublist_cons_self job rest).append_left _).trans hsub
        · rw [heq, reverse_cons, append_assoc]
          exact hsub
      have hin : ∀ j ∈ job :: rest, j ∈ rows := fun j hj => hsub.subset (mem_append_right _ hj)
      rcases h.of_bind with ⟨⟨b', refusal⟩, w₁, hv, h⟩ | ⟨x, -, hv⟩
      · cases refusal with
        | some refusal =>
          cases h
          exact (sublist_append_left _ _).trans (hvisit hv)
        | none =>
          obtain ⟨-, hleft, -⟩ := visit_runs (fun j hj => hin j (mem_cons_of_mem _ hj))
            (hin job mem_cons_self) hv rfl
          exact ih h ((hleft.append_left _).trans (hvisit hv))
      · exact (sublist_append_left _ _).trans (hvisit hv)

/-- A pass runs the start scripts of jobs of its snapshot only, in their order, each at most once;
a job that is out of the queue stays out and is not started, whatever other programs write. -/
theorem drain_starts {baseline : Readings} {r : Except DrainError BurstOutcome}
    {file : String → JobFile}
    (hr : Runs (act maxWait rows) (drain cfg rows baseline) ⟨file, [], []⟩ r w') :
    w'.started.reverse.Sublist rows ∧
      ∀ j ∈ rows, (file j).out = true → (w'.file j).out = true ∧ j ∉ w'.started :=
  ⟨drainRows_starts rows.length hr (.refl _), fun _ hj hout => stays_out hr hj hout not_mem_nil⟩

/-- The first job has waited too long, the second one has not. -/
def sampleFiles (certifiable : Bool) (job : String) : JobFile where
  state := .object ⟨.str "queued", some (if job = "a" then 0 else 95), .str job⟩
  certifiable := certifiable

/-- The clock stands at 100; every start script returns. -/
def sampleChoice : Choice where
  clock := 100
  answer := sampleEnv (sampleGauges 0 1 100) []
  left := { state := .object ⟨.str "launching", some 95, .str "b"⟩ }
  ending := .returned

theorem sampleFiles_runs (certifiable : Bool) : ∃ r w',
    Runs (act 10 ["a", "b"]) (drain (sampleSettings 5) ["a", "b"] (sampleGauges 0 1 100))
      ⟨sampleFiles certifiable, [], []⟩ r w' ∧
    w'.started = ["b"] ∧ (w'.file "a").out = certifiable := by
  have hview : (Runs.follow (act 10 ["a", "b"]) sampleChoice (drain (sampleSettings 5) ["a", "b"]
      (sampleGauges 0 1 100)) ⟨sampleFiles certifiable, [], []⟩).map (fun rw =>
      (rw.2.started, (rw.2.file "a").out)) = some (["b"], certifiable) := by
    cases certifiable <;> decide +kernel
  obtain ⟨⟨r, w'⟩, hfollow, hview⟩ := Option.map_eq_some_iff.mp hview
  obtain ⟨hstarted, hout⟩ := Prod.mk.inj hview
  exact ⟨r, w', .of_follow hfollow, hstarted, hout⟩

theorem drain_fifo_sample : ∃ w' : JobFiles,
    "b" ∈ w'.started ∧ ((w'.file "a").out = true ∨ "a" ∈ w'.uncertified) := by
  obtain ⟨r, w', hr, hstarted, -⟩ := sampleFiles_runs true
  have hb : "b" ∈ w'.started := by simp [hstarted]
  exact ⟨w', hb, drain_fifo (by decide) hr hb (.refl _)⟩

/-- The receipt of a job that has waited too long cannot be written; the job stays queued, and the
next one is started. -/
theorem expired_job_overtaken : ∃ r w',
    Runs (act 10 ["a", "b"]) (drain (sampleSettings 5) ["a", "b"] (sampleGauges 0 1 100))
      ⟨sampleFiles false, [], []⟩ r w' ∧
    "b" ∈ w'.started ∧ (w'.file "a").out = false := by
  obtain ⟨r, w', hr, hstarted, hout⟩ := sampleFiles_runs false
  exact ⟨r, w', hr, by simp [hstarted], hout⟩

theorem drain_starts_sample : ∃ w' : JobFiles, w'.started = ["b"] ∧
    w'.started.reverse.Sublist ["a", "b"] := by
  obtain ⟨r, w', hr, hstarted, -⟩ := sampleFiles_runs true
  exact ⟨w', hstarted, (drain_starts hr).1⟩

end Workbay.Queue

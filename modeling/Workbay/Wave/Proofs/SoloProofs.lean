import Workbay.Wave.Proofs.SupervisorRunsProofs

/-!
# One supervisor at a time

A single supervisor never meets a touched lane, so all that it has seen is as it is. The width, the
conflicts, the dependencies and the attempts are respected in every state of every run, however
often the supervisor dies and starts again.
-/

namespace Workbay.Wave

open Effects Git List

/-- One supervisor. -/
abbrev soloSystem (os : Platform) (ctx : SupervisorContext) := supervisorSystem (ι := Unit) os ctx

/-- The event records a submission for a lane. -/
def JournalEvent.Submits (e : JournalEvent) (laneId : LaneId) : Prop :=
  e.kind = "lane.submitted" ∧ laneOf e.fields = some laneId

section

variable {ι : Type} [DecidableEq ι] {os : Platform} {ctx : SupervisorContext} {i : ι}
  {spec : WaveSpec} {w w' : SupervisorWorld ι}

/-- A lane that an event makes running has just been submitted. -/
theorem LaneMove.running {budget : Int} {st : LaneState} {e : JournalEvent}
    {unproven : String → String → Option String} (hm : LaneMove budget st e)
    (hrun : (st.apply unproven e).state = .running) :
    (e.kind = "lane.submitted" ∧ e.int? "attempt" = some (st.apply unproven e).attempt ∧
      e.fields.get? "job" = (st.apply unproven e).job) ∨
    (st.state = .running ∧ (st.apply unproven e).attempt = st.attempt ∧
      (st.apply unproven e).job = st.job) := by
  cases hm with
  | deferred hk hs =>
    rw [apply_deferred hk] at hrun ⊢
    exact .inr ⟨hrun, rfl, rfl⟩
  | submitted hk hattempt hs =>
    rw [apply_submitted hk hattempt]
    exact .inl ⟨hk, hattempt, rfl⟩
  | collected hk hs => rw [apply_collected hk] at hrun; simp at hrun
  | gated hk hs htip =>
    have hne : (st.apply unproven e).state ≠ .running := by
      by_cases hok : e.bool? "ok" = some true
      · rw [apply_gated_accepted hk hok hs htip]; simp
      · rw [apply_gated_rejected hk hok]; simp
    exact absurd hrun hne
  | integrated hk hs htip =>
    have hne : (st.apply unproven e).state ≠ .running := by
      cases hu : unproven ((e.str? "tip").getD "") ((e.str? "wave_tip").getD "") with
      | none => rw [apply_integrated_proven hk hu]; simp
      | some reason => rw [apply_integrated_unproven hk hu]; simp
    exact absurd hrun hne
  | failed hk hs => rw [apply_failed hk] at hrun; simp at hrun
  | parked hk hs => rw [apply_parked hk] at hrun; simp at hrun

theorem LaneStatus.Step.holding {s s' : LaneStatus} (h : Step s s')
    (hold : s'.isConflictHolding = true) :
    s.isConflictHolding = true ∨ (s = .pending ∧ s' = .running) := by
  cases h <;> simp_all [LaneStatus.isConflictHolding]

theorem LaneStatus.Step.running {s s' : LaneStatus} (h : Step s s') (hrun : s' = .running) :
    s = .running ∨ s = .pending := by
  cases h <;> simp_all [LaneStatus.isTerminal]

/-! ## Running lanes have been submitted -/

/-- Every running lane owes its attempt and its job to a recorded submission. -/
def Attested (w : SupervisorWorld ι) : Prop :=
  ∀ laneId, (w.lane laneId).state = .running → ∃ e ∈ w.journal, e.Submits laneId ∧
    e.int? "attempt" = some (w.lane laneId).attempt ∧
    e.fields.get? "job" = (w.lane laneId).job

theorem Attested.step (h : Attested w) (hok : SupervisorOk ctx w) (hok' : SupervisorOk ctx w')
    (hg : Guaranteed ctx i w w') : Attested w' := by
  have hkeep : ∀ laneId, w.journal <+: w'.journal → w'.lane laneId = w.lane laneId →
      (w'.lane laneId).state = .running → ∃ e ∈ w'.journal, e.Submits laneId ∧
        e.int? "attempt" = some (w'.lane laneId).attempt ∧
        e.fields.get? "job" = (w'.lane laneId).job := by
    intro laneId hpre hsame hrun
    rw [hsame] at hrun ⊢
    obtain ⟨e, he, hrest⟩ := h laneId hrun
    exact ⟨e, hpre.subset he, hrest⟩
  intro laneId hrun
  rcases hg.cases hok hok' with ⟨hlane, hj⟩ | ⟨e, l, ha, hlane, -⟩
  · refine hkeep laneId ?_ (by rw [hlane]) hrun
    rcases hj with hj | ⟨e, hj, -⟩
    · exact hj ▸ prefix_refl _
    · exact ⟨[e], hj.symm⟩
  · have hpre : w.journal <+: w'.journal := ⟨[e], ha.journal.symm⟩
    by_cases heq : laneId = l
    · subst heq
      have hnow : w'.lane laneId = (w.lane laneId).apply (inGraph w'.repo) e := by
        rw [hlane, Function.update_self]
      rw [hnow] at hrun ⊢
      rcases ha.move.running hrun with ⟨hk, hattempt, hjob⟩ | ⟨hrun', hattempt, hjob⟩
      · exact ⟨e, by rw [ha.journal]; simp, ⟨hk, ha.lane⟩, hattempt, hjob⟩
      · rw [hattempt, hjob]
        obtain ⟨e', he', hrest⟩ := h laneId hrun'
        exact ⟨e', hpre.subset he', hrest⟩
    · refine hkeep laneId hpre ?_ hrun
      rw [hlane, Function.update_of_ne heq]

/-- Width, conflicts and dependencies are respected. -/
structure Scheduled (ctx : SupervisorContext) (spec : WaveSpec) (w : SupervisorWorld ι) : Prop where
  running : spec.laneIds.countP (fun l => decide ((w.lane l).state = .running)) ≤ ctx.width.toNat
  apart : ∀ pairs, conflicts spec = .ok pairs → ∀ a ∈ spec.laneIds, ∀ b ∈ spec.laneIds, a ≠ b →
    (w.lane a).state.isConflictHolding = true → (w.lane b).state.isConflictHolding = true →
    inConflict pairs a b = false
  integrated : ∀ e ∈ w.journal, ∀ laneId, e.Submits laneId →
    ∀ dependency ∈ spec.dependsOn laneId, (w.lane dependency).state = .integrated

omit [DecidableEq ι] in
theorem Scheduled.of_lane (h : Scheduled ctx spec w) (hlane : w'.lane = w.lane)
    (hj : ∀ e ∈ w'.journal, e ∈ w.journal ∨ e.kind ≠ "lane.submitted") :
    Scheduled ctx spec w' := by
  refine ⟨by rw [hlane]; exact h.running, by rw [hlane]; exact h.apart, ?_⟩
  intro e he laneId hsub
  rw [hlane]
  exact h.integrated e ((hj e he).resolve_right fun hk => hk hsub.1) laneId hsub

theorem AppendedFor.startable {e : JournalEvent} {laneId : LaneId}
    (ha : AppendedFor ctx i w w' e laneId) (hspec : ctx.spec = .ok spec) (ht : w.touched i = [])
    (hp : (w.lane laneId).state = .pending) (hk : e.kind = "lane.submitted") :
    Startable spec ctx.width w.lane laneId := by
  obtain ⟨spec', hspec', hstart⟩ := ha.start ht hp hk
  obtain rfl : spec = spec' := Except.ok.inj (hspec.symm.trans hspec')
  exact hstart

theorem Scheduled.step (h : Scheduled ctx spec w) (hspec : ctx.spec = .ok spec)
    (hok : SupervisorOk ctx w) (hok' : SupervisorOk ctx w') (hg : Guaranteed ctx i w w')
    (ht : w.touched i = []) (hatt : Attested w) : Scheduled ctx spec w' := by
  have hterm : ∀ {a}, (w.lane a).state.isTerminal = true → w'.lane a = w.lane a :=
    hg.terminal hok hok'
  rcases hg.cases hok hok' with ⟨hlane, hj⟩ | ⟨e, l, ha, hlane, hstep⟩
  · refine h.of_lane hlane fun e he => ?_
    rcases hj with hj | ⟨e', hj, hk⟩
    · exact .inl (hj ▸ he)
    · rw [hj, mem_append, mem_singleton] at he
      refine he.imp_right ?_
      rintro rfl
      rw [hk]
      simp
  have hother : ∀ a, a ≠ l → w'.lane a = w.lane a := fun a ha => by
    rw [hlane, Function.update_of_ne ha]
  -- a lane that becomes running was running or could start
  have hnew : (w'.lane l).state = .running → (w.lane l).state = .running ∨
      ((w.lane l).state = .pending ∧ Startable spec ctx.width w.lane l) := by
    intro hrun
    refine (hstep.running hrun).imp_right fun hp => ⟨hp, ?_⟩
    have hrun' : ((w.lane l).apply (inGraph w'.repo) e).state = .running := by
      rw [hlane, Function.update_self] at hrun
      exact hrun
    rcases ha.move.running hrun' with ⟨hk, -⟩ | ⟨hrunning, -⟩
    · exact ha.startable hspec ht hp hk
    · rw [hp] at hrunning; simp at hrunning
  have hholds : (w'.lane l).state.isConflictHolding = true →
      (w.lane l).state.isConflictHolding = true ∨ Startable spec ctx.width w.lane l := by
    intro hhold
    rcases hstep.holding hhold with hold | ⟨hp, hrun⟩
    · exact .inl hold
    · rcases hnew hrun with hrunning | ⟨-, hstart⟩
      · rw [hp] at hrunning; simp at hrunning
      · exact .inr hstart
  refine ⟨?_, fun pairs hp a hamem b hbmem hab hha hhb => ?_, fun e' he' laneId hsub d hd => ?_⟩
  · have hle : spec.laneIds.countP (fun a => decide ((w'.lane a).state = .running)) ≤
        spec.laneIds.countP (fun a => decide ((w.lane a).state = .running)) + 1 :=
      countP_le_succ spec.laneIds_nodup fun a hne => by rw [hother a hne]
    by_cases hrun : (w'.lane l).state = .running ∧ (w.lane l).state ≠ .running
    · obtain ⟨-, hstart⟩ := (hnew hrun.1).resolve_left hrun.2
      have hroom := hstart.room
      omega
    · refine le_trans (countP_mono_left fun a _ hra => ?_) h.running
      rw [decide_eq_true_eq] at hra ⊢
      by_cases heq : a = l
      · subst heq
        by_contra hne
        exact hrun ⟨hra, hne⟩
      · rw [← hother a heq]
        exact hra
  · by_cases hal : a = l
    · subst hal
      rw [hother b (Ne.symm hab)] at hhb
      rcases hholds hha with hold | hstart
      · exact h.apart pairs hp a hamem b hbmem hab hold hhb
      · exact hstart.free pairs hp b hbmem hhb
    · rw [hother a hal] at hha
      by_cases hbl : b = l
      · subst hbl
        rcases hholds hhb with hold | hstart
        · exact h.apart pairs hp a hamem b hbmem hab hha hold
        · rw [inConflict_comm]
          exact hstart.free pairs hp a hamem hha
      · rw [hother b hbl] at hhb
        exact h.apart pairs hp a hamem b hbmem hab hha hhb
  · have hbefore : (w.lane d).state = .integrated := by
      rw [ha.journal, mem_append, mem_singleton] at he'
      rcases he' with he' | rfl
      · exact h.integrated e' he' laneId hsub d hd
      · obtain rfl : l = laneId := Option.some.inj (ha.lane.symm.trans hsub.2)
        cases ha.move with
        | submitted _ _ hs =>
          rcases hs with hp | ⟨hrun, -⟩
          · exact (ha.startable hspec ht hp hsub.1).integrated d hd
          · obtain ⟨e₀, he₀, hsub₀, -⟩ := hatt l hrun
            exact h.integrated e₀ he₀ l hsub₀ d hd
        | deferred hk => rw [hsub.1] at hk; simp at hk
        | collected hk => rw [hsub.1] at hk; simp at hk
        | gated hk => rw [hsub.1] at hk; simp at hk
        | integrated hk => rw [hsub.1] at hk; simp at hk
        | failed hk => rw [hsub.1] at hk; simp at hk
        | parked hk => rw [hsub.1] at hk; simp at hk
    have hsame : w'.lane d = w.lane d := hterm (by rw [hbefore]; rfl)
    rw [hsame]
    exact hbefore

/-- Attempts stay within the budget, and each one but the first follows a recorded submission that
the executor has reported lost. -/
structure Disciplined (ctx : SupervisorContext) (w : SupervisorWorld ι) : Prop where
  attempts : ∀ laneId attempt n, .submit laneId attempt n ∈ w.calls →
    1 ≤ attempt ∧ attempt ≤ ctx.attemptBudget ∧ n ≤ w.journal.length
  retries : ∀ after laneId attempt n before,
    w.calls = after ++ .submit laneId attempt n :: before → 1 < attempt →
    ∃ e ∈ w.journal.take n, e.Submits laneId ∧ e.int? "attempt" = some (attempt - 1) ∧
      ∃ job, e.fields.get? "job" = some job ∧ .status job "lost" ∈ before

theorem Guaranteed.journal_prefix (hg : Guaranteed ctx i w w') : w.journal <+: w'.journal := by
  rcases hg.journal with ⟨hj, -⟩ | ⟨e, hj, -⟩ | ⟨e, l, ha⟩
  · exact hj ▸ prefix_refl _
  · exact ⟨[e], hj.symm⟩
  · exact ⟨[e], ha.journal.symm⟩

theorem Disciplined.step (h : Disciplined ctx w) (hok : SupervisorOk ctx w)
    (hg : Guaranteed ctx i w w') (ht : w.touched i = []) (hatt : Attested w) :
    Disciplined ctx w' := by
  have hpre := hg.journal_prefix
  have htake : ∀ {n}, n ≤ w.journal.length → w'.journal.take n = w.journal.take n := by
    intro n hn
    obtain ⟨added, hadded⟩ := hpre
    rw [← hadded, take_append_of_le_length hn]
  -- what is said of the calls that were there before
  have hold : ∀ after laneId attempt n before,
      w.calls = after ++ .submit laneId attempt n :: before → 1 < attempt →
      ∃ e ∈ w'.journal.take n, e.Submits laneId ∧ e.int? "attempt" = some (attempt - 1) ∧
        ∃ job, e.fields.get? "job" = some job ∧ .status job "lost" ∈ before := by
    intro after laneId attempt n before hcalls hlt
    have hmem : ExecutorCall.submit laneId attempt n ∈ w.calls := by rw [hcalls]; simp
    rw [htake (h.attempts _ _ _ hmem).2.2]
    exact h.retries after laneId attempt n before hcalls hlt
  have hbound : ∀ laneId attempt n, .submit laneId attempt n ∈ w.calls →
      1 ≤ attempt ∧ attempt ≤ ctx.attemptBudget ∧ n ≤ w'.journal.length := by
    intro laneId attempt n hmem
    obtain ⟨h₁, h₂, h₃⟩ := h.attempts laneId attempt n hmem
    exact ⟨h₁, h₂, h₃.trans hpre.length_le⟩
  rcases hg.calls with hcalls | ⟨job, report, hcalls⟩ | ⟨l, k, hcalls, hdue⟩
  · rw [← hcalls] at hold hbound
    exact ⟨hbound, hold⟩
  · refine ⟨fun laneId attempt n hmem => ?_, fun after laneId attempt n before heq hlt => ?_⟩
    · rw [hcalls, mem_cons] at hmem
      exact hbound laneId attempt n (hmem.resolve_left nofun)
    · rw [hcalls] at heq
      cases after with
      | nil => simp at heq
      | cons c after => exact hold after laneId attempt n before (List.cons.inj heq).2 hlt
  · obtain ⟨hone, hle, hnext, hstate⟩ := hdue ht
    refine ⟨fun laneId attempt n hmem => ?_, fun after laneId attempt n before heq hlt => ?_⟩
    · rw [hcalls, mem_cons] at hmem
      rcases hmem with hnew | hmem
      · obtain ⟨rfl, rfl, rfl⟩ := ExecutorCall.submit.inj hnew
        exact ⟨hone, hle, hpre.length_le⟩
      · exact hbound laneId attempt n hmem
    · rw [hcalls] at heq
      cases after with
      | cons c after => exact hold after laneId attempt n before (List.cons.inj heq).2 hlt
      | nil =>
        obtain ⟨hnew, rfl⟩ := List.cons.inj heq
        obtain ⟨rfl, rfl, rfl⟩ := ExecutorCall.submit.inj hnew
        rcases hstate with hp | ⟨hrun, job, hjob, hlost⟩
        · have hzero := (hok.lanes l).pending hp
          omega
        · obtain ⟨e, he, hsub, hattempt, hejob⟩ := hatt l hrun
          refine ⟨e, ?_, hsub, ?_, job, hejob.trans hjob, hlost⟩
          · rw [htake le_rfl, take_length]
            exact he
          · rw [hattempt, hnext]
            simp

end

/-! ## Runs of a single supervisor -/

section

variable {os : Platform} {ctx : SupervisorContext} {spec : WaveSpec} {s s' : SupervisorConfig Unit}

theorem solo_enter (os : Platform) (ctx : SupervisorContext) (i r : Unit)
    (w : SupervisorWorld Unit) :
    ((soloSystem os ctx).enter i r w).touched () = [] := by
  show Function.update w.touched () [] () = []
  exact Function.update_self _ _ _

variable {w w' : SupervisorWorld Unit}

theorem solo_act {i : Unit} {op : SupervisorOp} {c : SupervisorChoice} {a : op.Answer}
    (ha : (soloSystem os ctx).act i op c w = some (a, w')) (ht : w.touched () = []) :
    w'.touched () = [] ∧ w'.raced = w.raced := by
  rcases SupervisorOp.act_notes ha with ⟨hr', ht'⟩ | ⟨l, hr', ht'⟩
  · exact ⟨by rw [ht', ht], hr'⟩
  · have hnot : decide (l ∈ w.touched i) = false := by
      rw [ht]
      rfl
    refine ⟨?_, by rw [hr', hnot, Bool.or_false]⟩
    rw [ht']
    show (if () = i then w.touched () else l :: w.touched ()) = []
    rw [if_pos rfl, ht]

theorem solo_quiet (h : (soloSystem os ctx).Reachable SupervisorWorld.IsNew s) :
    s.world.raced = false ∧ s.world.touched () = [] := by
  obtain ⟨w, ⟨-, -, hraced, htouched⟩, hs⟩ := h
  refine hs.preserves (P := fun s => s.world.raced = false ∧ s.world.touched () = []) ?_
    ⟨hraced, htouched ()⟩
  rintro s l s' ⟨hr, ht⟩ hn
  rcases System.next_cases hn with ⟨i, r, -, -, hw, -⟩ | ⟨i, c, e, k, a, -, -, ha, -⟩ |
    ⟨i, p, -, -, hw, -⟩ | ⟨d, -, hd, -⟩
  · rw [hw]
    exact ⟨hr, solo_enter os ctx i r s.world⟩
  · obtain ⟨ht', hr'⟩ := solo_act ha ht
    exact ⟨hr'.trans hr, ht'⟩
  · rw [hw]
    exact ⟨hr, ht⟩
  · obtain ⟨repo, -, hw⟩ := Option.map_eq_some_iff.mp hd
    rw [← hw]
    exact ⟨hr, ht⟩

/-- Everything that holds in the states of a single supervisor. -/
structure SoloOk (ctx : SupervisorContext) (w : SupervisorWorld Unit) : Prop where
  touched : w.touched () = []
  attested : Attested w
  scheduled : ∀ spec, ctx.spec = .ok spec → Scheduled ctx spec w
  disciplined : Disciplined ctx w

theorem SoloOk.of_isNew (h : w.IsNew) : SoloOk ctx w := by
  obtain ⟨hj, hcalls, -, ht⟩ := h
  have hlane : ∀ l, w.lane l = {} := fun l => by
    unfold SupervisorWorld.lane
    rw [hj, laneView_nil]
  refine ⟨ht (), fun l hrun => ?_, fun spec _ => ⟨?_, ?_, ?_⟩, ⟨?_, ?_⟩⟩
  · rw [hlane] at hrun
    simp at hrun
  · simp [hlane]
  · intro pairs _ a _ b _ _ hha
    rw [hlane] at hha
    simp [LaneStatus.isConflictHolding] at hha
  · intro e he
    rw [hj] at he
    simp at he
  · intro l k n hmem
    rw [hcalls] at hmem
    simp at hmem
  · intro after l k n before heq
    rw [hcalls] at heq
    simp at heq

theorem SoloOk.forward (h : SoloOk ctx w) (hlane : w'.lane = w.lane) (hj : w'.journal = w.journal)
    (hcalls : w'.calls = w.calls) (ht : w'.touched () = []) : SoloOk ctx w' := by
  refine ⟨ht, ?_, fun spec hspec => ?_, ⟨?_, ?_⟩⟩
  · unfold Attested
    rw [hlane, hj]
    exact h.attested
  · exact (h.scheduled spec hspec).of_lane hlane fun e he => .inl (hj ▸ he)
  · rw [hcalls, hj]
    exact h.disciplined.attempts
  · rw [hcalls, hj]
    exact h.disciplined.retries

/-- One supervisor, in any run: the invariant of the journal and all that follows from being
alone. -/
theorem solo_ok (h : (soloSystem os ctx).Reachable SupervisorWorld.IsNew s) :
    Supervised os ctx s ∧ SoloOk ctx s.world := by
  have hquiet := (solo_quiet h).1
  refine ⟨supervised_of_reachable h hquiet, ?_⟩
  obtain ⟨w, hnew, hs⟩ := h
  refine (supervisors_sound os ctx).invariant (J := SoloOk ctx) ?_ ?_ ?_ (supervised_boot hnew)
    (quiet_of_steps hs hquiet).1 (.of_isNew hnew)
  · intro i r w hok hsolo
    exact hsolo.forward rfl rfl rfl (solo_enter os ctx i r w)
  · intro i e c a w w' hok hok' hsolo ha hg
    have ht : w.touched i = [] := hsolo.touched
    refine ⟨?_, hsolo.attested.step hok hok' hg, fun spec hspec => ?_, ?_⟩
    · exact (solo_act (Option.filter_eq_some_iff.mp ha).1 ht).1
    · exact (hsolo.scheduled spec hspec).step hspec hok hok' hg ht hsolo.attested
    · exact hsolo.disciplined.step hok hg ht hsolo.attested
  · intro d w w' hok hsolo hd
    obtain ⟨hd, -⟩ := Option.filter_eq_some_iff.mp hd
    obtain ⟨repo, hrepo, rfl⟩ := Option.map_eq_some_iff.mp hd
    refine hsolo.forward (funext fun l => ?_) rfl rfl hsolo.touched
    apply lane_forward hok.certified
    · exact RepoMove.forward hrepo
    · rfl

/-- Between two states of a run nothing has been submitted for a lane, neither to the executor nor
in the journal. -/
def NotSubmitted (laneId : LaneId) (w w' : SupervisorWorld Unit) : Prop :=
  ∃ calls events, w'.calls = calls ++ w.calls ∧ w'.journal = w.journal ++ events ∧
    (∀ attempt n, .submit laneId attempt n ∉ calls) ∧ ∀ e ∈ events, ¬ e.Submits laneId

theorem NotSubmitted.step {w₀ : SupervisorWorld Unit} {laneId : LaneId}
    (h : NotSubmitted laneId w₀ w) (hg : Guaranteed ctx () w w') (ht : w.touched () = [])
    (hterm : (w.lane laneId).state.isTerminal = true) : NotSubmitted laneId w₀ w' := by
  obtain ⟨calls, events, hcalls, hj, hno, hnone⟩ := h
  have hcalls' : ∃ added, w'.calls = added ++ w.calls ∧
      ∀ attempt n, .submit laneId attempt n ∉ added := by
    rcases hg.calls with h | ⟨job, report, h⟩ | ⟨l, k, h, hdue⟩
    · exact ⟨[], h, by simp⟩
    · exact ⟨[_], h, by simp⟩
    · refine ⟨[_], h, fun attempt n hmem => ?_⟩
      obtain ⟨rfl, -, -⟩ := ExecutorCall.submit.inj (mem_singleton.mp hmem)
      obtain ⟨-, -, -, hstate⟩ := hdue ht
      rcases hstate with hp | ⟨hrun, -⟩
      · rw [hp] at hterm; simp [LaneStatus.isTerminal] at hterm
      · rw [hrun] at hterm; simp [LaneStatus.isTerminal] at hterm
  have hevents : ∃ added, w'.journal = w.journal ++ added ∧ ∀ e ∈ added, ¬ e.Submits laneId := by
    rcases hg.journal with ⟨h, -⟩ | ⟨e, h, hk, -⟩ | ⟨e, l, ha⟩
    · exact ⟨[], by simp [h], by simp⟩
    · refine ⟨[e], h, fun e' he' hsub => ?_⟩
      have hkind := hsub.1
      rw [mem_singleton.mp he', hk] at hkind
      simp at hkind
    · refine ⟨[e], ha.journal, fun e' he' hsub => ?_⟩
      rw [mem_singleton.mp he'] at hsub
      obtain rfl : l = laneId := Option.some.inj (ha.lane.symm.trans hsub.2)
      rw [ha.move.not_terminal] at hterm
      simp at hterm
  obtain ⟨added, hadded, hno'⟩ := hcalls'
  obtain ⟨more, hmore, hnone'⟩ := hevents
  refine ⟨added ++ calls, events ++ more, by rw [hadded, hcalls, append_assoc],
    by rw [hmore, hj, append_assoc], fun attempt n hmem => ?_, fun e he => ?_⟩
  · exact (mem_append.mp hmem).elim (hno' attempt n) (hno attempt n)
  · exact (mem_append.mp he).elim (hnone e) (hnone' e)

end

end Workbay.Wave

import Workbay.Wave.Proofs.FrontierProofs
import Workbay.Wave.Proofs.IntegrateProofs
import Workbay.Wave.Proofs.RulesProofs

/-!
# One turn of each loop

The bodies of the loops of a round append only legal events, ask only for attempts that are due, and
leave the records of the round right.
-/

namespace Workbay.Wave

open Effects Git

section

variable {ι : Type} {ctx : SupervisorContext} {i : ι} {w : SupervisorWorld ι} {laneId : LaneId}

theorem Permitted.parked {lane : LaneId → LaneState} {reason : String} {extra : Dict String Json}
    (hknown : laneId ∈ ctx.laneIds)
    (hextra : laneId ∉ w.touched i → LaneOk w.repo.objectIdLength (lane laneId) →
      ParkedExtra w.repo.objectIdLength extra)
    (hstate : laneId ∉ w.touched i → (lane laneId).state.isTerminal = false) :
    Permitted ctx i lane laneId "lane.parked"
      (("lane_id", .str laneId) :: ("reason", .str reason) :: extra) w :=
  .of_legal rfl hknown (fun hun hlane =>
    .parked (SupervisorContext.ne_of_mem_laneIds hknown) (hextra hun hlane) (hstate hun))
    (by simp) (by simp)

theorem Permitted.failed {lane : LaneId → LaneState} {reason : String} {extra : Dict String Json}
    (hknown : laneId ∈ ctx.laneIds)
    (hextra : laneId ∉ w.touched i → LaneOk w.repo.objectIdLength (lane laneId) → FailedExtra extra)
    (hstate : laneId ∉ w.touched i → (lane laneId).state.isTerminal = false) :
    Permitted ctx i lane laneId "lane.failed"
      (("lane_id", .str laneId) :: ("reason", .str reason) :: extra) w :=
  .of_legal rfl hknown (fun hun hlane =>
    .failed (SupervisorContext.ne_of_mem_laneIds hknown) (hextra hun hlane) (hstate hun))
    (by simp) (by simp)

variable [DecidableEq ι] {os : Platform} {r : Round}

/-- A turn that leaves the records right. -/
abbrev SafeTurn (os : Platform) (ctx : SupervisorContext) (i : ι) (p : SupervisorM Flow)
    (w : SupervisorWorld ι) : Prop :=
  SafeStep os ctx i (SafeStep.Returns (Flow.Leaves i (Round.Right i))) p w

namespace SafeTurn

theorem returned : SafeTurn os ctx i (.ret (.returned r)) w :=
  SafeStep.returns_ret fun _ _ => trivial

theorem cont (hr : r.Right i w) : SafeTurn os ctx i (.ret (.cont r)) w :=
  SafeStep.returns_ret fun _ hs => Seen.since hr hs

theorem record {lane : LaneId → LaneState} {kind : String} {fields : Dict String Json}
    (hok : SupervisorOk ctx w) (hseen : Seen i lane w)
    (hmay : Permitted ctx i lane laneId kind fields w) :
    SafeTurn os ctx i (do
      let r ← r.record ctx.wave kind fields
      return .cont r) w :=
  SafeStep.bind hok (SafeStep.record_round hok hseen hmay) fun _ _ _ h => cont h.1

end SafeTurn

/-- What holds before each turn of the first loop. -/
def Submitting (ctx : SupervisorContext) (i : ι) (spec : WaveSpec) (rest : List LaneId) (r : Round)
    (w : SupervisorWorld ι) : Prop :=
  r.Right i w ∧ ∃ lane, Seen i lane w ∧ ReadyLanes spec ctx.width lane rest

theorem submitReady_safe {spec : WaveSpec} {rest : List LaneId} (hspec : ctx.spec = .ok spec)
    (hbudget : 1 ≤ ctx.attemptBudget) (hok : SupervisorOk ctx w)
    (hinv : Submitting ctx i spec (laneId :: rest) r w) :
    SafeStep os ctx i (SafeStep.Returns (Flow.Leaves i (Submitting ctx i spec rest)))
      (submitReady ctx ctx.wave laneId r) w := by
  obtain ⟨hr, lane, hseen, hready⟩ := hinv
  have hsub : Submittable ctx i lane laneId ((r.states.lane laneId).attempt + 1) w := by
    have hpending := hready.pending laneId List.mem_cons_self
    refine ⟨?_, fun hun => ?_, fun _ _ => ⟨spec, hspec, hready.head⟩⟩
    · unfold SupervisorContext.laneIds
      rw [hspec]
      exact hready.known laneId List.mem_cons_self
    · have hview := hseen laneId hun
      have hsame : r.states.lane laneId = lane laneId := (hr laneId hun).symm.trans hview
      have hzero := (hok.lanes laneId).pending (by rw [hview]; exact hpending)
      rw [hview] at hzero
      refine ⟨by rw [hsame], by rw [hsame, hzero]; omega, .inl hpending⟩
  unfold submitReady
  simp only [Prog.perform_bind]
  refine SafeStep.shouldStop fun w₁ stop hs₁ hok₁ => ?_
  cases stop with
  | true => exact SafeStep.returns_ret fun _ _ => trivial
  | false =>
    by_cases hstop : r.stopAdmitting = true
    · simp only [hstop, Bool.false_eq_true, if_false, if_true]
      exact SafeStep.returns_ret fun _ hs => Seen.since hr (hs₁.trans hs)
    · simp only [hstop, Bool.false_eq_true, if_false]
      refine Safe.weaken ?_ (SafeStep.submit_round hok₁ (hseen.since hs₁) (Seen.since hr hs₁)
        (hsub.since hs₁))
      rintro o w' _ h flow rfl
      obtain ⟨r', hflow, hr', st, hst⟩ := h flow rfl
      rcases hflow with rfl | rfl
      · exact ⟨hr', _, hst, hready.tail st⟩
      · exact hr'

theorem retryLost_safe {job : Json} (hok : SupervisorOk ctx w) (hr : r.Right i w)
    (hknown : laneId ∈ ctx.laneIds) (hrun : (r.states.lane laneId).state = .running)
    (hjob : (r.states.lane laneId).job = some job) (hlost : .status job "lost" ∈ w.calls) :
    SafeTurn os ctx i (retryLost ctx ctx.wave laneId r) w := by
  unfold retryLost
  by_cases hover : (r.states.lane laneId).attempt ≥ ctx.attemptBudget
  · simp only [hover, if_true]
    refine SafeTurn.record hok hr (.parked hknown (fun hun hlane => .attempt ?_) fun _ => ?_)
    · exact (hlane.running hrun).1
    · rw [hrun]; rfl
  · simp only [hover, if_false]
    by_cases hstop : r.stopAdmitting = true
    · rw [if_pos hstop]
      exact SafeTurn.cont hr
    · rw [if_neg hstop]
      have hsub : Submittable ctx i r.states.lane laneId
          ((r.states.lane laneId).attempt + 1) w := by
        refine ⟨hknown, fun _ => ⟨rfl, by omega, .inr ⟨hrun, job, hjob, hlost⟩⟩, fun _ hp => ?_⟩
        rw [hrun] at hp
        simp at hp
      refine Safe.weaken ?_ (SafeStep.submit_round hok hr hr hsub)
      rintro o w' _ h flow rfl
      obtain ⟨r', hflow, hr', -⟩ := h flow rfl
      rcases hflow with rfl | rfl <;> exact hr'

omit [DecidableEq ι] in
theorem isFullObjectId_of_pinCommit {repo : Repo} {tip resolved : String}
    (h : pinCommit repo tip = .ok resolved) :
    isFullObjectId resolved repo.objectIdLength = true := by
  unfold pinCommit at h
  split_ifs at h
  cases hp : repo.peelCommit tip with
  | none => simp [hp] at h
  | some c =>
    simp only [hp] at h
    split_ifs at h with hfull
    obtain rfl := Except.ok.inj h
    simpa using hfull

theorem collectDone_safe {job : Json} (hr : r.Right i w)
    (hknown : laneId ∈ ctx.laneIds) (hrun : (r.states.lane laneId).state = .running) :
    SafeTurn os ctx i (collectDone ctx.wave laneId job r) w := by
  have hopen : (r.states.lane laneId).state.isTerminal = false := by rw [hrun]; rfl
  have hpark : ∀ reason w, SupervisorOk ctx w → r.Right i w → SafeTurn os ctx i (do
      let r ← r.record ctx.wave "lane.parked" [("lane_id", .str laneId), ("reason", .str reason)]
      return .cont r) w := fun reason w hok hr =>
    SafeTurn.record hok hr (.parked hknown (fun _ _ => .none) fun _ => hopen)
  unfold collectDone
  simp only [Prog.perform_bind]
  refine SafeStep.collect fun w₁ result hs₁ hok₁ => ?_
  have hr₁ := Seen.since hr hs₁
  cases collectedResult result with
  | none => exact hpark _ _ hok₁ hr₁
  | some c =>
    obtain ⟨ok, branch, tip, detail⟩ := c
    refine SafeStep.readRepo fun w₂ hs₂ hok₂ => ?_
    have hr₂ := Seen.since hr₁ hs₂
    cases hpin : pinCommit w₂.repo tip with
    | error reason => exact hpark _ _ hok₂ hr₂
    | ok tip =>
      have hmay : Permitted ctx i r.states.lane laneId "lane.collected" [("lane_id", .str laneId),
          ("attempt", .int (r.states.lane laneId).attempt), ("ok", .bool ok),
          ("branch", .str branch), ("tip", .str tip), ("detail", .str detail)] w₂ := by
        refine .of_legal rfl hknown (fun _ hlane => ?_) (by simp) (by simp)
        refine .collected (SupervisorContext.ne_of_mem_laneIds hknown) (hlane.running hrun).1 ?_ hrun
        exact isFullObjectId_of_pinCommit hpin
      refine SafeStep.bind hok₂ (SafeStep.emit_round hok₂ hr₂ hmay) fun r' w₃ hok₃ _ => ?_
      refine SafeStep.shouldStop fun w₄ stop _ hok₄ => ?_
      cases stop with
      | true => exact SafeTurn.returned
      | false =>
        exact SafeStep.bind hok₄ (SafeStep.replay_round hok₄) fun r'' w₅ _ h => SafeTurn.cont h.2

theorem pollRunning_safe (hr : r.Right i w)
    (hknown : laneId ∈ ctx.laneIds) :
    SafeTurn os ctx i (pollRunning ctx ctx.wave laneId r) w := by
  unfold pollRunning
  simp only [Prog.perform_bind]
  refine SafeStep.shouldStop fun w₁ stop hs₁ hok₁ => ?_
  have hr₁ := Seen.since hr hs₁
  cases stop with
  | true => exact SafeTurn.returned
  | false =>
    by_cases hrun : (r.states.lane laneId).state = .running
    · have hopen : (r.states.lane laneId).state.isTerminal = false := by rw [hrun]; rfl
      simp only [Bool.false_eq_true, if_false, hrun, ne_eq, not_true_eq_false]
      split
      · rename_i job hjob
        refine SafeStep.status fun w₂ status hs₂ hok₂ hcall => ?_
        have hr₂ := Seen.since hr₁ hs₂
        split_ifs with hbusy hlost hdone
        · exact SafeTurn.cont hr₂
        · exact retryLost_safe hok₂ hr₂ hknown hrun hjob (hlost ▸ hcall)
        · exact collectDone_safe hr₂ hknown hrun
        · exact SafeTurn.record hok₂ hr₂ (.failed hknown (fun _ _ => .none) fun _ => hopen)
      · exact SafeTurn.record hok₁ hr₁ (.failed hknown (fun _ _ => .none) fun _ => hopen)
    · simp only [Bool.false_eq_true, if_false, ne_eq, hrun, not_false_eq_true, if_true]
      exact SafeTurn.cont hr₁

variable {st : LaneState} {base : String}

omit [DecidableEq ι] in
theorem Seen.of_lane (h : laneId ∉ w.touched i → w.lane laneId = st) :
    Seen i (Function.update w.lane laneId st) w := by
  intro l hl
  by_cases heq : l = laneId
  · subst heq
    rw [Function.update_self]
    exact h hl
  · rw [Function.update_of_ne heq]

/-- The collection result and the content rule; nothing is appended for a lane that passes. -/
theorem revalidateCollected_safe (hr : r.Right i w) (hknown : laneId ∈ ctx.laneIds)
    (hcollected : (r.states.lane laneId).state = .collected) :
    SafeStep os ctx i (SafeStep.Returns fun event w' => event = none → Since ctx i w w')
      (revalidateCollected ctx.wave base laneId (r.states.lane laneId)) w := by
  have hopen : (r.states.lane laneId).state.isTerminal = false := by rw [hcollected]; rfl
  have hevent : ∀ {kind fields w₁}, SupervisorOk ctx w₁ → Seen i r.states.lane w₁ →
      Permitted ctx i r.states.lane laneId kind fields w₁ →
      SafeStep os ctx i (SafeStep.Returns fun event w' => event = none → Since ctx i w w')
        (do
          let event ← emit ctx.wave kind fields
          return some event) w₁ := fun hok₁ hr₁ hmay =>
    SafeStep.bind hok₁ (SafeStep.emit hr₁ hmay) fun _ _ _ _ =>
      SafeStep.returns_ret fun _ _ h => by simp at h
  unfold revalidateCollected
  split
  · rename_i ok tip hlaneok htip
    simp only [Prog.perform_bind]
    refine SafeStep.readRepo fun w₁ hs₁ hok₁ => ?_
    have hr₁ := Seen.since hr hs₁
    split
    · exact hevent hok₁ hr₁ (.parked hknown (fun _ _ => .none) fun _ => hopen)
    · split_ifs
      · refine hevent hok₁ hr₁ (.parked hknown (fun _ hlane => .disagree ?_) fun _ => hopen)
        exact hlane.tip tip htip
      · refine hevent hok₁ hr₁ (.failed hknown (fun _ hlane => ?_) fun _ => hopen)
        obtain ⟨detail, hdetail⟩ := Option.isSome_iff_exists.mp (hlane.collected hcollected).2.2
        rw [hdetail]
        exact .detail
      · exact SafeStep.returns_ret fun _ hs _ => hs₁.trans hs
  · exact SafeStep.returns_raise

/-- What the gate loop knows of its lane. -/
def Gating (i : ι) (laneId : LaneId) (st : LaneState) (w : SupervisorWorld ι) : Prop :=
  laneId ∉ w.touched i → w.lane laneId = st ∧ st.state = .collected

omit [DecidableEq ι] in
theorem Gating.since {w' : SupervisorWorld ι} (h : Gating i laneId st w) (hs : Since ctx i w w') :
    Gating i laneId st w' := by
  intro hun
  obtain ⟨hview, hst⟩ := h fun hm => hun (hs.touched _ hm)
  exact ⟨(hs.lane laneId hun).trans hview, hst⟩

omit [DecidableEq ι] in
theorem Gating.after {w' : SupervisorWorld ι} {fields : Dict String Json} (h : Gating i laneId st w)
    (hok : fields.get? "ok" = some (.bool false))
    (ha : After i (Function.update w.lane laneId st) laneId "lane.gated" fields w w') :
    ∃ st', Gating i laneId st' w' := by
  obtain ⟨ht, st', hst', hbecame⟩ := ha
  refine ⟨st', fun hun => ⟨?_, ?_⟩⟩
  · have hview := hst' laneId hun
    rwa [Function.update_self] at hview
  · rw [Function.update_self] at hbecame
    rcases hbecame with rfl | ⟨e, unproven, hk, hf, rfl⟩
    · exact (h fun hm => hun (ht _ hm)).2
    · rw [apply_gated_rejected hk (by simp [JournalEvent.bool?, hf, hok, Json.bool?])]

theorem gateProbes_safe (hknown : laneId ∈ ctx.laneIds) :
    ∀ (left : Nat) {probes : Int} {lane : LaneState} {r : Round} {w : SupervisorWorld ι},
      (laneId ∉ w.touched i → 0 ≤ probes) → SupervisorOk ctx w → Gating i laneId lane w →
      SafeStep os ctx i (SafeStep.Returns fun _ _ => True)
        (gateProbes ctx.wave laneId left probes lane r) w := by
  have hne := SupervisorContext.ne_of_mem_laneIds hknown
  intro left
  induction left with
  | zero => exact fun _ _ _ => SafeStep.returns_ret fun _ _ => trivial
  | succ left ih =>
    intro probes lane r w hprobes hok hgating
    unfold gateProbes
    simp only [Prog.perform_bind]
    refine SafeStep.gate fun w₁ result hs₁ hok₁ => ?_
    have hgating₁ := hgating.since hs₁
    have hseen₁ : Seen i (Function.update w₁.lane laneId lane) w₁ :=
      .of_lane fun hun => (hgating₁ hun).1
    -- what a verdict on the lane needs
    have htip : laneId ∉ w₁.touched i → LaneOk w₁.repo.objectIdLength lane →
        ∃ tip, lane.tip = some tip ∧ isFullObjectId tip w₁.repo.objectIdLength = true := by
      intro hun hlane
      obtain ⟨tip, htip⟩ := Option.isSome_iff_exists.mp (hlane.collected (hgating₁ hun).2).2.1
      exact ⟨tip, htip, hlane.tip tip htip⟩
    have hreject : ∀ {reason}, Permitted ctx i (Function.update w₁.lane laneId lane) laneId
        "lane.gated" [("lane_id", .str laneId), ("ok", .bool false), ("probe", .int (probes + 1)),
          ("reason", .str reason), ("tip", optionalStr lane.tip)] w₁ := by
      intro reason
      refine .of_legal rfl hknown (fun hun hlane => ?_) (by simp) (by simp)
      rw [Function.update_self] at hlane ⊢
      obtain ⟨tip, ht, hfull⟩ := htip hun hlane
      rw [ht]
      have hprobe := hprobes fun hm => hun (hs₁.touched _ hm)
      exact .rejected hne (hgating₁ hun).2 ht hfull (by omega)
    have haccept : ∀ {reason}, Permitted ctx i (Function.update w₁.lane laneId lane) laneId
        "lane.gated" [("lane_id", .str laneId), ("ok", .bool true), ("reason", .str reason),
          ("tip", optionalStr lane.tip)] w₁ := by
      intro reason
      refine .of_legal rfl hknown (fun hun hlane => ?_) (by simp) (by simp)
      rw [Function.update_self] at hlane ⊢
      obtain ⟨tip, ht, hfull⟩ := htip hun hlane
      rw [ht]
      exact .accepted hne (hgating₁ hun).2 ht hfull
    split_ifs with haccepted hlast
    · exact SafeStep.bind hok₁ (SafeStep.emit_round hok₁ hseen₁ haccept) fun _ _ _ _ =>
        SafeStep.returns_ret fun _ _ => trivial
    · refine SafeStep.bind hok₁ (SafeStep.emit_round hok₁ hseen₁ hreject)
        fun r' w₂ hok₂ hafter => ?_
      obtain ⟨st, hgating₂⟩ := hgating₁.after rfl hafter.2
      have hseen₂ : Seen i (Function.update w₂.lane laneId st) w₂ :=
        .of_lane fun hun => (hgating₂ hun).1
      refine SafeStep.bind hok₂ (SafeStep.emit_round hok₂ hseen₂
        (.parked hknown (fun _ _ => .detail) fun hun => ?_)) fun r'' w₃ hok₃ _ => ?_
      · rw [Function.update_self, (hgating₂ hun).2]
        rfl
      · refine SafeStep.shouldStop fun w₄ stop _ _ => ?_
        cases stop <;> exact SafeStep.returns_ret fun _ _ => trivial
    · refine SafeStep.bind hok₁ (SafeStep.emit_round hok₁ hseen₁ hreject)
        fun r' w₂ hok₂ hafter => ?_
      obtain ⟨st, hgating₂⟩ := hgating₁.after rfl hafter.2
      refine SafeStep.bind hok₂ (SafeStep.replay_round hok₂) fun r'' w₃ hok₃ hreplay => ?_
      refine SafeStep.shouldStop fun w₄ stop hs₄ hok₄ => ?_
      cases stop with
      | true => exact SafeStep.returns_ret fun _ _ => trivial
      | false =>
        refine ih (fun hun => ?_) hok₄ fun hun => ?_
        · have hprobe := hprobes fun hm => hun
            (hs₄.touched _ (hreplay.1.touched _ (hafter.2.1 _ (hs₁.touched _ hm))))
          omega
        obtain ⟨hview, hst⟩ := (hgating₂.since (hreplay.1.trans hs₄)) hun
        have hright := Seen.since hreplay.2 hs₄ laneId hun
        unfold LaneStates.lane Dict.getD at hright
        cases hget : Dict.get? r''.states laneId with
        | none =>
          rw [hview, hget] at hright
          rw [hright] at hst
          simp at hst
        | some st' =>
          rw [hview, hget] at hright
          obtain rfl : st = st' := hright
          exact ⟨hview, hst⟩

theorem gateCollected_safe (hr : r.Right i w) (hknown : laneId ∈ ctx.laneIds) :
    SafeTurn os ctx i (gateCollected ctx.wave base laneId r) w := by
  unfold gateCollected
  simp only [Prog.perform_bind]
  refine SafeStep.shouldStop fun w₁ stop hs₁ hok₁ => ?_
  have hr₁ := Seen.since hr hs₁
  cases stop with
  | true => exact SafeTurn.returned
  | false =>
    by_cases hcollected : (r.states.lane laneId).state = .collected
    · simp only [Bool.false_eq_true, if_false, hcollected, ne_eq, not_true_eq_false]
      refine SafeStep.bind hok₁ (revalidateCollected_safe hr₁ hknown hcollected)
        fun event w₂ hok₂ hevent => ?_
      cases event with
      | some event =>
        exact SafeStep.bind hok₂ (SafeStep.replay_round hok₂) fun _ _ _ h => SafeTurn.cont h.2
      | none =>
        have hr₂ := Seen.since hr₁ (hevent rfl)
        have hopen : (r.states.lane laneId).state.isTerminal = false := by rw [hcollected]; rfl
        simp only
        split_ifs with hprobes
        · exact SafeTurn.record hok₂ hr₂ (.parked hknown (fun _ _ => .detail) fun _ => hopen)
        · have hgating : Gating i laneId (r.states.lane laneId) w₂ := fun hun =>
            ⟨hr₂ laneId hun, hcollected⟩
          refine SafeStep.bind hok₂ (gateProbes_safe hknown _ (fun hun => ?_) hok₂ hgating)
            fun flow w₃ hok₃ _ => ?_
          · rw [← hr₂ laneId hun]
            exact (hok₂.lanes laneId).gateProbes
          · cases flow with
            | returned r => exact SafeTurn.returned
            | brk r =>
              exact SafeStep.bind hok₃ (SafeStep.replay_round hok₃) fun _ _ _ h => SafeTurn.cont h.2
            | cont r =>
              exact SafeStep.bind hok₃ (SafeStep.replay_round hok₃) fun _ _ _ h => SafeTurn.cont h.2
    · simp only [Bool.false_eq_true, if_false, hcollected, ne_eq, not_false_eq_true, if_true]
      exact SafeTurn.cont hr₁

/-- `integrate` may be called by a supervisor that does not race. -/
theorem quiet_integrating : Integrating ((quietSystem ι os ctx).act i) (supervisorConduct ctx i) i
    (waveBranch ctx.wave) (Since ctx i) (fun _ => True) where
  did _ _ _ _ _ ha _ := SupervisorOp.did_of_act ha
  forward _ _ hs := hs.forward
  tips _ _ _ _ _ _ := trivial
  own _ _ _ _ hok hf :=
    ⟨SupervisorOk.forward hok hf rfl, .of_repo hf,
      .of_forward hok.certified hf rfl rfl (List.suffix_refl _)⟩
  within _ _ hs := hs
  trans _ _ _ := Since.trans

theorem integrateGated_safe (hr : r.Right i w) (hknown : laneId ∈ ctx.laneIds) :
    SafeTurn os ctx i (integrateGated ctx.wave base laneId r) w := by
  have hne := SupervisorContext.ne_of_mem_laneIds hknown
  unfold integrateGated
  simp only [Prog.perform_bind]
  refine SafeStep.shouldStop fun w₁ stop hs₁ hok₁ => ?_
  have hr₁ := Seen.since hr hs₁
  cases stop with
  | true => exact SafeTurn.returned
  | false =>
    by_cases hgated : (r.states.lane laneId).state = .gated
    · have hopen : (r.states.lane laneId).state.isTerminal = false := by rw [hgated]; rfl
      simp only [Bool.false_eq_true, if_false, hgated, ne_eq, not_true_eq_false]
      split
      · exact SafeStep.returns_raise
      rename_i tip htip
      refine Safe.attempt (fun o w₂ hok₂ h => ?_) hok₁
        (integrate_safe quiet_integrating hok₁ trivial fun _ _ => trivial)
      obtain ⟨hs₂, hout⟩ := h
      have hr₂ := Seen.since hr₁ hs₂
      split
      · rename_i t
        obtain ⟨oldTip, -, -, -, hint⟩ := hout t rfl
        refine SafeTurn.record hok₂ hr₂ ⟨rfl, hknown, fun _ hlane => ?_, fun _ e hf => ?_,
          fun _ _ h => by simp at h⟩
        · exact .integrated hne hgated htip (hlane.tip tip htip)
            (w₂.repo.fullIds _ hint.recorded)
        · simp only [JournalEvent.str?, hf, Dict.get?, String.reduceEq, if_false, if_true,
            Option.bind_some, Json.str?, Option.getD_some]
          exact hint.toCertified
      · exact SafeTurn.cont hr₂
      · exact SafeTurn.record hok₂ hr₂ (.parked hknown (fun _ _ => .none) fun _ => hopen)
      · exact SafeStep.returns_raise
    · simp only [Bool.false_eq_true, if_false, hgated, ne_eq, not_false_eq_true, if_true]
      exact SafeTurn.cont hr₁

theorem parkBlocked_safe {lane : LaneId × LaneId} (hr : r.Right i w)
    (hknown : lane.1 ∈ ctx.laneIds) : SafeTurn os ctx i (parkBlocked ctx.wave lane r) w := by
  unfold parkBlocked
  by_cases hpending : (r.states.lane lane.1).state = .pending
  · have hopen : (r.states.lane lane.1).state.isTerminal = false := by rw [hpending]; rfl
    simp only [hpending, ne_eq, not_true_eq_false, if_false, Prog.perform_bind]
    refine SafeStep.shouldStop fun w₁ stop hs₁ hok₁ => ?_
    cases stop with
    | true => exact SafeTurn.returned
    | false =>
      exact SafeTurn.record hok₁ (Seen.since hr hs₁)
        (.parked hknown (fun _ _ => .blocker) fun _ => hopen)
  · simp only [hpending, ne_eq, not_false_eq_true, if_true]
    exact SafeTurn.cont hr

end

end Workbay.Wave

/-!
## A whole step is safe

From a context that passes every check a step only appends legal events and only asks for attempts
that are due, whatever the other supervisors do in between. All supervisors together are sound.
-/

namespace Workbay.Wave

open Effects Git

/-- The fields of a refusal that is recorded. -/
inductive RefusedFields : Dict String Json → Prop where
  | reason {reason : String} : RefusedFields [("reason", .str reason)]
  | problems {reason : String} {problems : List Json} :
      RefusedFields [("reason", .str reason), ("problems", .arr problems)]

theorem RefusedFields.ok {fields : Dict String Json} (h : RefusedFields fields) :
    laneOf fields = none ∧
      ∀ n, ∀ e : JournalEvent, e.kind = "wave.refused" → e.fields = fields → EventOk n e := by
  cases h with
  | reason =>
    refine ⟨rfl, fun n e hk hf => .refused hk (by rw [hf]; rfl) ?_⟩
    simp [mistypedField, hk, hf, replayRequiredFields, replayOptionalFields, Dict.getD, Dict.get?,
      FieldType.accepts]
  | problems =>
    refine ⟨rfl, fun n e hk hf => .refused hk (by rw [hf]; rfl) ?_⟩
    simp [mistypedField, hk, hf, replayRequiredFields, replayOptionalFields, Dict.getD, Dict.get?,
      FieldType.accepts]

theorem prepareSpec_cases (ctx : SupervisorContext) :
    (∃ refusal, prepareSpec ctx = .error refusal ∧ RefusedFields refusal.fields) ∨
    ∃ spec base, prepareSpec ctx = .ok (spec, base) ∧ ctx.spec = .ok spec ∧
      1 ≤ ctx.attemptBudget := by
  unfold prepareSpec
  cases hspec : ctx.spec with
  | error wave => exact .inl ⟨_, rfl, .reason⟩
  | ok spec =>
    simp only
    cases validateWaveId spec.wave with
    | error x => exact .inl ⟨_, rfl, .reason⟩
    | ok _ =>
      simp only
      by_cases hvalid : validate spec ≠ []
      · rw [if_pos hvalid]
        exact .inl ⟨_, rfl, .problems⟩
      rw [if_neg hvalid]
      cases ctx.widthBound with
      | error _ => exact .inl ⟨_, rfl, .reason⟩
      | ok bound =>
        simp only
        by_cases hwidth : ctx.width < 1 ∨ bound.any fun b => ctx.width > b
        · rw [if_pos hwidth]
          exact .inl ⟨_, rfl, .reason⟩
        rw [if_neg hwidth]
        by_cases hbudget : ctx.attemptBudget < 1
        · rw [if_pos hbudget]
          exact .inl ⟨_, rfl, .reason⟩
        rw [if_neg hbudget]
        cases ctx.baseSha with
        | none => exact .inl ⟨_, rfl, .reason⟩
        | some base =>
          simp only
          by_cases hsha : isFullSha base = true
          · rw [if_pos hsha]
            exact .inr ⟨spec, base, rfl, rfl, by omega⟩
          · rw [if_neg hsha]
            exact .inl ⟨_, rfl, .reason⟩

/-- The context has passed every check. -/
structure Prepared.For (ctx : SupervisorContext) (p : Prepared) : Prop where
  wave : p.wave = ctx.wave
  spec : ctx.spec = .ok p.spec
  budget : 1 ≤ ctx.attemptBudget

section

variable {ι : Type} [DecidableEq ι] {os : Platform} {ctx : SupervisorContext} {i : ι}
  {w : SupervisorWorld ι}

theorem prepare_safe : SafeStep os ctx i (SafeStep.Returns fun outcome _ =>
    (∃ refusal, outcome = .error refusal ∧ (refusal.retryable = true ∨
      RefusedFields refusal.fields)) ∨ ∃ p : Prepared, outcome = .ok p ∧ p.For ctx)
    (prepare ctx) w := by
  unfold prepare
  rcases prepareSpec_cases ctx with ⟨refusal, heq, hfields⟩ | ⟨spec, base, heq, hspec, hbudget⟩
  · rw [heq]
    exact SafeStep.returns_ret fun _ _ => .inl ⟨refusal, rfl, .inr hfields⟩
  · rw [heq]
    simp only [Prog.perform_bind]
    refine SafeStep.readRepo fun w₁ _ _ => ?_
    split
    · refine SafeStep.returns_ret fun _ _ => .inr ⟨_, rfl, ?_, hspec, hbudget⟩
      unfold SupervisorContext.wave
      rw [hspec]
    · exact SafeStep.returns_ret fun _ _ => .inl ⟨_, rfl, .inl rfl⟩

theorem refuse_safe {refusal : Refusal}
    (hfields : refusal.retryable = true ∨ RefusedFields refusal.fields) :
    SafeStep os ctx i (SafeStep.Returns fun _ _ => True) (refuse refusal) w := by
  unfold refuse
  by_cases hretry : refusal.retryable = true
  · simp only [hretry, if_true]
    exact SafeStep.returns_ret fun _ _ => trivial
  simp only [hretry, Bool.false_eq_true, if_false]
  obtain ⟨hlane, hlegal⟩ := (hfields.resolve_left hretry).ok
  cases refusal.wave with
  | none => exact SafeStep.returns_ret fun _ _ => trivial
  | some wave =>
    by_cases hwave : isWaveId wave = true
    · simp only [hwave, Bool.not_true, Bool.false_eq_true, if_false, Prog.perform_bind]
      refine SafeStep.readJournal fun w₁ answer _ hok₁ _ => ?_
      split_ifs
      · exact SafeStep.returns_ret fun _ _ => trivial
      · exact SafeStep.bind hok₁ (SafeStep.emitRefused hlane hlegal) fun _ _ _ _ =>
          SafeStep.returns_ret fun _ _ => trivial
    · simp only [hwave, Bool.not_false, if_true]
      exact SafeStep.returns_ret fun _ _ => trivial

theorem andThen_safe {flow : Flow} {next : Round → SupervisorM Flow}
    (hflow : flow.Leaves i (Round.Right i) w)
    (hnext : ∀ r, r.Right i w → SafeTurn os ctx i (next r) w) :
    SafeTurn os ctx i (flow.andThen next) w := by
  cases flow with
  | returned r => exact SafeTurn.returned
  | brk r => exact hnext r hflow
  | cont r => exact hnext r hflow

theorem roundLoops_safe {p : Prepared} {ready : List LaneId} {r : Round} (hp : p.For ctx)
    (hok : SupervisorOk ctx w) (hr : r.Right i w)
    (hready : ReadyLanes p.spec ctx.width r.states.lane ready) :
    SafeTurn os ctx i (roundLoops ctx p ready r) w := by
  have hknown : ∀ {laneId}, laneId ∈ p.spec.laneIds → laneId ∈ ctx.laneIds := by
    intro laneId h
    unfold SupervisorContext.laneIds
    rw [hp.spec]
    exact h
  unfold roundLoops
  rw [hp.wave]
  refine SafeStep.bind hok (SafeStep.forLanes (I := Submitting ctx i p.spec) (fun _ _ h => h.1)
    (fun laneId rest r w hok h => submitReady_safe hp.spec hp.budget hok h) hok
    ⟨hr, _, hr, hready⟩) fun flow w₁ hok₁ hflow => andThen_safe hflow fun r₁ hr₁ => ?_
  refine SafeStep.bind hok₁ (SafeStep.forLanes_right (fun laneId hl r w _ hr =>
    pollRunning_safe hr (hknown hl)) hok₁ hr₁) fun flow w₂ hok₂ hflow =>
      andThen_safe hflow fun r₂ hr₂ => ?_
  refine SafeStep.bind hok₂ (SafeStep.replay_round hok₂) fun r₃ w₃ hok₃ h₃ => ?_
  refine SafeStep.bind hok₃ (SafeStep.forLanes_right (fun laneId hl r w _ hr =>
    gateCollected_safe hr (hknown hl)) hok₃ h₃.2) fun flow w₄ hok₄ hflow =>
      andThen_safe hflow fun r₄ hr₄ => ?_
  refine SafeStep.bind hok₄ (SafeStep.replay_round hok₄) fun r₅ w₅ hok₅ h₅ => ?_
  refine SafeStep.bind hok₅ (SafeStep.forLanes_right (fun laneId hl r w _ hr =>
    integrateGated_safe hr (hknown (mem_laneIds_of_integrationOrder hl))) hok₅ h₅.2)
      fun flow w₆ hok₆ hflow => andThen_safe hflow fun r₆ hr₆ => ?_
  refine SafeStep.bind hok₆ (SafeStep.replay_round hok₆) fun r₇ w₇ hok₇ h₇ => ?_
  exact SafeStep.forLanes_right (fun lane hl r w _ hr =>
    parkBlocked_safe hr (hknown (mem_laneIds_of_blocked hl))) hok₇ h₇.2

theorem advance_safe {p : Prepared} (hp : p.For ctx) (hok : SupervisorOk ctx w) :
    SafeStep os ctx i (SafeStep.Returns fun _ _ => True) (advance ctx p) w := by
  unfold advance
  rw [hp.wave]
  refine SafeStep.bind hok SafeStep.replayNow fun states w₁ hok₁ h₁ => ?_
  have hround : ∀ ready (next : Flow → SupervisorM (List SupervisorEvent)),
      ReadyLanes p.spec ctx.width states.lane ready →
      (∀ flow w, SafeStep os ctx i (SafeStep.Returns fun _ _ => True) (next flow) w) →
      SafeStep os ctx i (SafeStep.Returns fun _ _ => True)
        (roundLoops ctx p ready { states := states } >>= next) w₁ := by
    intro ready next hready hnext
    exact SafeStep.bind hok₁ (roundLoops_safe hp hok₁ h₁.2 hready) fun flow w _ _ => hnext flow w
  simp only
  by_cases hroom : ctx.width - runningLanes p.spec states > 0
  · simp only [hroom, if_true]
    split
    · exact SafeStep.bind hok₁ (SafeStep.emitRefused (RefusedFields.reason).ok.1
        (RefusedFields.reason).ok.2) fun _ _ _ _ => SafeStep.returns_ret fun _ _ => trivial
    · rename_i ready hready
      refine hround ready _ (ReadyLanes.of_frontier hready hroom) fun flow _ => ?_
      cases flow <;> exact SafeStep.returns_ret fun _ _ => trivial
  · simp only [hroom, if_false]
    refine hround [] _ (.nil _ _ _) fun flow _ => ?_
    cases flow <;> exact SafeStep.returns_ret fun _ _ => trivial

/-- Every step of every supervisor is safe. -/
theorem step_safe (hok : SupervisorOk ctx w) :
    SafeStep os ctx i (SafeStep.Returns fun _ _ => True) (step ctx) w := by
  unfold step
  refine SafeStep.bind hok prepare_safe fun outcome w₁ hok₁ h => ?_
  rcases h with ⟨refusal, rfl, hfields⟩ | ⟨p, rfl, hp⟩
  · exact refuse_safe hfields
  · simp only [Prog.perform_bind]
    refine SafeStep.readJournal fun w₂ answer _ hok₂ _ => ?_
    split
    · exact SafeStep.returns_ret fun _ _ => trivial
    · split_ifs
      · exact SafeStep.returns_ret fun _ _ => trivial
      · exact advance_safe hp hok₂

theorem RepoMove.forward {d : RepoMove} {wave : String} {repo repo' : Repo}
    (h : d.apply wave repo = some repo') : Forward (waveBranch wave) repo repo' := by
  cases d with
  | commit oid tree parents message => exact Forward.of_commitTree h
  | tag oid target =>
    simp only [RepoMove.apply] at h
    split_ifs at h with hnew
    obtain rfl := Option.some.inj h
    exact Forward.of_tag hnew.1 hnew.2
  | moveRef ref new =>
    simp only [RepoMove.apply] at h
    split_ifs at h with hc hmay
    obtain rfl := Option.some.inj h
    refine Forward.of_setRef hc fun href old hold => ?_
    unfold mayMove at hmay
    rw [Bool.or_eq_true, decide_eq_true_eq] at hmay
    rcases hmay with hne | hall
    · exact absurd href hne
    · rw [hold] at hall
      exact hall

omit [DecidableEq ι] in
theorem lane_forward_append {w' : SupervisorWorld ι} {e : JournalEvent} {laneId : LaneId}
    (hc : CertifiedEvents w.repo ctx.wave w.journal)
    (hf : Forward (waveBranch ctx.wave) w.repo w'.repo) (hj : w'.journal = w.journal ++ [e])
    (hne : laneOf e.fields ≠ some laneId) : w'.lane laneId = w.lane laneId := by
  unfold SupervisorWorld.lane
  rw [hj, laneView_concat, if_neg hne]
  exact laneView_congr fun e he hk => ((hc e he hk).forward hf).2

theorem Guaranteed.since {j : ι} {w' : SupervisorWorld ι} (hj : j ≠ i) (hok : SupervisorOk ctx w)
    (h : Guaranteed ctx i w w') : Since ctx j w w' := by
  have hcalls : w.calls <:+ w'.calls := by
    rcases h.calls with h | ⟨_, _, h⟩ | ⟨_, _, h, -⟩
    · exact ⟨[], h.symm⟩
    · exact ⟨[_], h.symm⟩
    · exact ⟨[_], h.symm⟩
  rcases h.journal with ⟨hjournal, ht⟩ | ⟨e, hjournal, -, hlane, ht⟩ | ⟨e, laneId, ha⟩
  · exact .of_forward hok.certified h.forward hjournal ht hcalls
  · refine ⟨h.forward, hcalls, fun l hl => by rw [ht]; exact hl, fun l _ => ?_⟩
    exact lane_forward_append hok.certified h.forward hjournal (by simp [hlane])
  · have ht : w'.touched j = laneId :: w.touched j := by rw [ha.touched]; simp [hj]
    refine ⟨h.forward, hcalls, fun l hl => ?_, fun l hl => ?_⟩
    · rw [ht]; exact List.mem_cons_of_mem _ hl
    · rw [ht, List.mem_cons, not_or] at hl
      refine lane_forward_append hok.certified h.forward ha.journal ?_
      rw [ha.lane]
      exact fun heq => hl.1 (Option.some.inj heq).symm

/-- All supervisors that do not race are sound. -/
theorem supervisors_sound (os : Platform) (ctx : SupervisorContext) :
    Sound (quietSystem ι os ctx) (supervisorConduct ctx) (SupervisorOk ctx)
      (fun _ => SafeStep.Returns fun _ _ => True) where
  inv_eq _ := rfl
  enter j _ w hok := by
    have hf : Forward (waveBranch ctx.wave) w.repo w.repo := Forward.refl _
    have hok' : SupervisorOk ctx ((quietSystem ι os ctx).enter j () w) := hok.forward hf rfl
    refine ⟨hok', step_safe hok', fun k hk => ?_⟩
    refine ⟨hf, List.suffix_refl _, fun l hl => ?_, fun l _ => rfl⟩
    have ht : ((quietSystem ι os ctx).enter j () w).touched k = w.touched k :=
      Function.update_of_ne hk _ _
    rw [ht]
    exact hl
  compat i j e c a w w' hj hok _ _ hg := hg.since hj hok
  env d w w' hok hd := by
    obtain ⟨hd, -⟩ := Option.filter_eq_some_iff.mp hd
    obtain ⟨repo, hrepo, rfl⟩ := Option.map_eq_some_iff.mp hd
    have hf : Forward (waveBranch ctx.wave) w.repo repo := RepoMove.forward hrepo
    have hok' : SupervisorOk ctx { w with repo := repo } := hok.forward hf rfl
    exact ⟨hok', fun j => .of_forward hok.certified hf rfl rfl (List.suffix_refl _)⟩

end

end Workbay.Wave

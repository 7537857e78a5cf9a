import Workbay.Wave.Proofs.SoloProofs

/-!
# Runs of supervisors: the life of a lane

Between two states of a run the status of a lane follows the steps of its life, its attempts are
the submissions that the journal has for it, and what the wave has integrated stays there.
-/

namespace Workbay.Wave

open List Effects Git Relation

section

variable {ι : Type} [DecidableEq ι] {os : Platform} {ctx : SupervisorContext} {i : ι}
  {w w' w'' : SupervisorWorld ι}

/-- How many submissions a journal has for a lane. -/
def submissions (journal : List JournalEvent) (laneId : LaneId) : Nat :=
  journal.countP fun e => decide (e.kind = "lane.submitted" ∧ laneOf e.fields = some laneId)

theorem submissions_concat (journal : List JournalEvent) (e : JournalEvent) (laneId : LaneId) :
    submissions (journal ++ [e]) laneId = submissions journal laneId +
      if e.kind = "lane.submitted" ∧ laneOf e.fields = some laneId then 1 else 0 := by
  simp [submissions, countP_append, countP_singleton]

theorem LaneMove.attempt {n : Nat} {budget : Int} {st : LaneState} {e : JournalEvent}
    (unproven : String → String → Option String) (hm : LaneMove budget st e) (hst : LaneOk n st) :
    (st.apply unproven e).attempt = st.attempt + (if e.kind = "lane.submitted" then 1 else 0) ∧
      ((st.apply unproven e).attempt = st.attempt ∨
        (st.apply unproven e).attempt ≤ max 1 budget) := by
  cases hm with
  | deferred hk hs => simp [apply_deferred hk, hk]
  | submitted hk hattempt hs =>
    rw [apply_submitted hk hattempt, if_pos hk]
    refine ⟨rfl, .inr ?_⟩
    rcases hs with hs | ⟨-, hs⟩
    · have h := hst.pending hs
      simp only
      omega
    · exact le_max_of_le_right hs
  | collected hk hs => simp [apply_collected hk, hk]
  | gated hk hs htip =>
    by_cases hok : e.bool? "ok" = some true
    · simp [apply_gated_accepted hk hok hs htip, hk]
    · simp [apply_gated_rejected hk hok, hk]
  | integrated hk hs htip =>
    cases hu : unproven ((e.str? "tip").getD "") ((e.str? "wave_tip").getD "") with
    | none => simp [apply_integrated_proven hk hu, hk]
    | some reason => simp [apply_integrated_unproven hk hu, hk]
  | failed hk hs => simp [apply_failed hk, hk]
  | parked hk hs => simp [apply_parked hk, hk]

/-- What a part of a run does to the lanes and to the repository. -/
structure LivesOn (ctx : SupervisorContext) (w w' : SupervisorWorld ι) : Prop where
  forward : Forward (waveBranch ctx.wave) w.repo w'.repo
  status : ∀ laneId, ReflTransGen LaneStatus.Step (w.lane laneId).state (w'.lane laneId).state
  attempts : ∀ laneId, (w'.lane laneId).attempt + submissions w.journal laneId =
    (w.lane laneId).attempt + submissions w'.journal laneId
  bounded : ∀ laneId, (w'.lane laneId).attempt = (w.lane laneId).attempt ∨
    (w'.lane laneId).attempt ≤ max 1 ctx.attemptBudget
  kept : w.journal <+: w'.journal

omit [DecidableEq ι] in
theorem LivesOn.trans (h : LivesOn ctx w w') (h' : LivesOn ctx w' w'') : LivesOn ctx w w'' := by
  refine ⟨h.forward.trans h'.forward, fun l => (h.status l).trans (h'.status l), fun l => ?_,
    fun l => ?_, h.kept.trans h'.kept⟩
  · have hfirst := h.attempts l
    have hrest := h'.attempts l
    omega
  · rcases h'.bounded l with hsame | hle
    · rw [hsame]
      exact h.bounded l
    · exact .inr hle

omit [DecidableEq ι] in
theorem LivesOn.of_lane (hf : Forward (waveBranch ctx.wave) w.repo w'.repo)
    (hlane : w'.lane = w.lane) (hpre : w.journal <+: w'.journal)
    (hcount : ∀ l, submissions w'.journal l = submissions w.journal l) : LivesOn ctx w w' := by
  refine ⟨hf, fun l => ?_, fun l => ?_, fun l => .inl ?_, hpre⟩
  · rw [hlane]
  · rw [hlane, hcount]
  · rw [hlane]

theorem LivesOn.step (hok : SupervisorOk ctx w) (hok' : SupervisorOk ctx w')
    (hg : Guaranteed ctx i w w') : LivesOn ctx w w' := by
  rcases hg.cases hok hok' with ⟨hlane, hj | ⟨e, hj, hk⟩⟩ | ⟨e, laneId, ha, hlane, hstep⟩
  · exact .of_lane hg.forward hlane hg.journal_prefix fun l => by rw [hj]
  · refine .of_lane hg.forward hlane hg.journal_prefix fun l => ?_
    rw [hj, submissions_concat, hk]
    simp
  · obtain ⟨hattempt, hbound⟩ :=
      ha.move.attempt (inGraph w'.repo) (hok.lanes laneId)
    have hother : ∀ l, l ≠ laneId → w'.lane l = w.lane l := fun l hl => by
      rw [hlane, Function.update_of_ne hl]
    have hself : w'.lane laneId = (w.lane laneId).apply (inGraph w'.repo) e := by
      rw [hlane, Function.update_self]
    refine ⟨hg.forward, fun l => ?_, fun l => ?_, fun l => ?_, hg.journal_prefix⟩
    · by_cases hl : l = laneId
      · exact .single (hl ▸ hstep)
      · rw [hother l hl]
    · rw [ha.journal, submissions_concat, ha.lane]
      by_cases hl : l = laneId
      · subst hl
        rw [hself, hattempt]
        by_cases hk : e.kind = "lane.submitted" <;> simp [hk] <;> omega
      · rw [hother l hl, if_neg fun h => hl (Option.some.inj h.2).symm]
        omega
    · by_cases hl : l = laneId
      · subst hl
        rw [hself]
        exact hbound
      · rw [hother l hl]
        exact .inl rfl

variable {s s' : SupervisorConfig ι}

end

section

variable {os : Platform} {ctx : SupervisorContext} {s : SupervisorConfig Unit}

/-- A single supervisor asks the executor only for attempts within the budget, for another one only
when it has recorded the last one and heard that its job is lost; and a running lane has the attempt
and the job of a recorded submission. -/
theorem attempts_disciplined (h : (soloSystem os ctx).Reachable SupervisorWorld.IsNew s)
    {states : LaneStates} (hr : replay s.world.repo ctx.wave s.world.journal = .ok states) :
    Disciplined ctx s.world ∧ ∀ laneId, (states.lane laneId).state = .running →
      ∃ e ∈ s.world.journal, e.Submits laneId ∧
        e.int? "attempt" = some (states.lane laneId).attempt ∧
        e.fields.get? "job" = (states.lane laneId).job := by
  obtain ⟨hholds, hsolo⟩ := solo_ok h
  rw [replay_eq_lane hholds.1 hr]
  exact ⟨hsolo.disciplined, hsolo.attested⟩

end

/-- What the worker of the lane has made. -/
def laneCommit : String := "bbbbbbbbbbbbbbbbbbbbbbbbbbbbbbbbbbbbbbbb"

/-- The lane is submitted, collected, gated and integrated, in one step. -/
def integratesLane : List (SupervisorLabel Unit) :=
  [.env (.commit laneCommit "u" [baseCommit] "work"),
    .env (.moveRef (waveBranch "w") laneCommit)] ++ submitsFirst () ++ recordsSubmission () ++
  ([.flag false, .report "done", .value (.obj [("ok", .bool true), ("branch", .str "lane"),
      ("tip", .str laneCommit), ("detail", .str "d")]), .plain, .plain, .time "" "d", .flag false,
    .plain, .plain, .plain, .plain, .flag false, .plain,
    .value (.obj [("ok", .bool true), ("reason", .str "fine")]), .plain, .time "" "e", .plain,
    .plain, .plain, .plain, .flag false, .plain, .plain, .plain, .plain, .plain, .plain,
    .time "" "f"]).map (Label.tick ())

/-- The wave goes on. -/
def goesOn : List (SupervisorLabel Unit) :=
  [.halt (), .env (.commit "cccccccccccccccccccccccccccccccccccccccc" "v" [laneCommit] "more"),
    .env (.moveRef (waveBranch "w") "cccccccccccccccccccccccccccccccccccccccc")]

/-- A wave reaches a state where its lane is integrated, and goes on. -/
theorem integratesLane_runs : ∃ s s' states states',
    (soloSystem transparentPlatform soloContext).Reachable SupervisorWorld.IsNew s ∧
    (soloSystem transparentPlatform soloContext).Steps s s' ∧
    replay s.world.repo "w" s.world.journal = .ok states ∧
    replay s'.world.repo "w" s'.world.journal = .ok states' ∧
    s.world.journal.map JournalEvent.kind =
      ["lane.submitted", "lane.collected", "lane.gated", "lane.integrated"] := by
  have hrun : ((soloSystem transparentPlatform soloContext).exec (System.boot (newWorld Unit))
      integratesLane).map (fun s => (laneStatus s, s.world.journal.map JournalEvent.kind)) =
      some (some .integrated,
        ["lane.submitted", "lane.collected", "lane.gated", "lane.integrated"]) := by
    decide +kernel
  have hrest : ((soloSystem transparentPlatform soloContext).exec (System.boot (newWorld Unit))
      (integratesLane ++ goesOn)).bind laneStatus = some .integrated := by decide +kernel
  have hok : ∀ s : SupervisorConfig Unit, laneStatus s = some .integrated →
      ∃ states, replay s.world.repo "w" s.world.journal = .ok states := by
    intro s h
    unfold laneStatus at h
    cases hr : replay s.world.repo "w" s.world.journal with
    | error x => simp [hr, Except.toOption] at h
    | ok states => exact ⟨states, rfl⟩
  obtain ⟨s, hs, hstatus⟩ := Option.map_eq_some_iff.mp hrun
  rw [System.exec_append, hs] at hrest
  obtain ⟨s', hs', hstatus'⟩ := Option.bind_eq_some_iff.mp hrest
  obtain ⟨states, hr⟩ := hok s (Prod.mk.inj hstatus).1
  obtain ⟨states', hr'⟩ := hok s' hstatus'
  exact ⟨s, s', states, states', ⟨_, newWorld_isNew Unit, _, hs⟩, ⟨_, hs'⟩, hr, hr',
    (Prod.mk.inj hstatus).2⟩

theorem attempts_disciplined_integrated : ∃ s : SupervisorConfig Unit,
    s.world.journal.map JournalEvent.kind =
      ["lane.submitted", "lane.collected", "lane.gated", "lane.integrated"] ∧
    Disciplined soloContext s.world := by
  obtain ⟨s, -, states, -, hreach, -, hr, -, hkinds⟩ := integratesLane_runs
  exact ⟨s, hkinds, (@attempts_disciplined _ soloContext _ hreach _ hr).1⟩

end Workbay.Wave

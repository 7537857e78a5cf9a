import Workbay.Wave.Proofs.JournalRunsProofs
import Workbay.Wave.Proofs.TurnProofs

/-!
# Runs of supervisors

What holds in every state that supervisors of one wave can reach, whatever the executor and the gate
answer, whoever crashes when, and whatever others do to the repository.
-/

namespace Workbay.Wave

open Effects Git

section

variable {ι : Type} [DecidableEq ι] {os : Platform} {ctx : SupervisorContext} {i : ι}
  {w w' : SupervisorWorld ι}

/-! ## One step, seen from a lane -/

theorem Guaranteed.cases (hok : SupervisorOk ctx w) (hok' : SupervisorOk ctx w')
    (h : Guaranteed ctx i w w') :
    (w'.lane = w.lane ∧ (w'.journal = w.journal ∨
      ∃ e, w'.journal = w.journal ++ [e] ∧ e.kind = "wave.refused")) ∨
    ∃ e laneId, AppendedFor ctx i w w' e laneId ∧
      w'.lane = Function.update w.lane laneId ((w.lane laneId).apply (inGraph w'.repo) e) ∧
      LaneStatus.Step (w.lane laneId).state (w'.lane laneId).state := by
  rcases h.journal with ⟨hj, -⟩ | ⟨e, hj, hk, hlane, -⟩ | ⟨e, laneId, ha⟩
  · exact .inl ⟨funext (lane_forward hok.certified h.forward hj), .inl hj⟩
  · refine .inl ⟨funext fun l => ?_, .inr ⟨e, hj, hk⟩⟩
    exact lane_forward_append hok.certified h.forward hj (by simp [hlane])
  · have hlane : w'.lane =
        Function.update w.lane laneId ((w.lane laneId).apply (inGraph w'.repo) e) := by
      funext l
      by_cases heq : l = laneId
      · subst heq
        have hview : laneView (inGraph w'.repo) w.journal l = w.lane l :=
          laneView_congr fun e he hk => ((hok.certified e he hk).forward h.forward).2
        rw [Function.update_self]
        unfold SupervisorWorld.lane at hview ⊢
        rw [ha.journal, laneView_concat, if_pos ha.lane, hview]
      · rw [Function.update_of_ne heq]
        refine lane_forward_append hok.certified h.forward ha.journal ?_
        rw [ha.lane]
        exact fun h => heq (Option.some.inj h).symm
    have he : EventOk w.repo.objectIdLength e := by
      rw [← h.forward.objectIdLength]
      exact hok'.events e (by rw [ha.journal]; simp)
    refine .inr ⟨e, laneId, ha, hlane, ?_⟩
    rw [hlane, Function.update_self]
    exact (ha.move.apply he (hok.lanes laneId)).2

theorem LaneStatus.Step.not_terminal {s s' : LaneStatus} (h : Step s s') : s.isTerminal = false := by
  cases h <;> first | rfl | assumption

theorem Guaranteed.terminal (hok : SupervisorOk ctx w) (hok' : SupervisorOk ctx w')
    (h : Guaranteed ctx i w w') {laneId : LaneId}
    (ht : (w.lane laneId).state.isTerminal = true) : w'.lane laneId = w.lane laneId := by
  rcases h.cases hok hok' with ⟨hlane, -⟩ | ⟨e, l, -, hlane, hstep⟩
  · rw [hlane]
  · rw [hlane]
    refine Function.update_of_ne ?_ _ _
    rintro rfl
    rw [hstep.not_terminal] at ht
    simp at ht

theorem SupervisorOp.act_notes {wave : String} {op : SupervisorOp} {c : SupervisorChoice}
    {a : op.Answer} (h : op.act os wave i c w = some (a, w')) :
    (w'.raced = w.raced ∧ w'.touched = w.touched) ∨ ∃ laneId,
      w'.raced = (w.raced || decide (laneId ∈ w.touched i)) ∧
      w'.touched = fun j => if j = i then w.touched j else laneId :: w.touched j := by
  cases op with
  | append kind fields seq parent =>
    cases c <;> simp only [SupervisorOp.act, reduceCtorEq] at h
    · obtain ⟨-, rfl⟩ := Prod.mk.inj (Option.some.inj h)
      exact .inl ⟨rfl, rfl⟩
    · have h := Option.some.inj h
      unfold SupervisorWorld.append at h
      dsimp only at h
      split at h
      · obtain ⟨-, rfl⟩ := Prod.mk.inj h
        exact .inr ⟨_, rfl, rfl⟩
      · obtain ⟨-, rfl⟩ := Prod.mk.inj h
        exact .inl ⟨rfl, rfl⟩
  | commitTree tree parents message =>
    cases c <;> simp only [SupervisorOp.act, reduceCtorEq] at h
    · obtain ⟨-, rfl⟩ := Prod.mk.inj (Option.some.inj h)
      exact .inl ⟨rfl, rfl⟩
    · obtain ⟨repo, -, heq⟩ := Option.map_eq_some_iff.mp h
      obtain ⟨-, rfl⟩ := Prod.mk.inj heq
      exact .inl ⟨rfl, rfl⟩
  | updateRef ref new old =>
    cases c <;> simp only [SupervisorOp.act, reduceCtorEq] at h
    · split at h <;> obtain ⟨-, rfl⟩ := Prod.mk.inj (Option.some.inj h) <;> exact .inl ⟨rfl, rfl⟩
    · obtain ⟨-, rfl⟩ := Prod.mk.inj (Option.some.inj h)
      exact .inl ⟨rfl, rfl⟩
  | readJournal =>
    cases c <;> simp only [SupervisorOp.act, reduceCtorEq] at h
    · split_ifs at h <;> obtain ⟨-, rfl⟩ := Prod.mk.inj (Option.some.inj h) <;>
        exact .inl ⟨rfl, rfl⟩
    · obtain ⟨-, rfl⟩ := Prod.mk.inj (Option.some.inj h)
      exact .inl ⟨rfl, rfl⟩
  | _ =>
    cases c <;> simp only [SupervisorOp.act, reduceCtorEq] at h
    obtain ⟨-, rfl⟩ := Prod.mk.inj (Option.some.inj h)
    exact .inl ⟨rfl, rfl⟩

variable {s s' : SupervisorConfig ι}

theorem raced_of_next {l : Label ι Unit SupervisorChoice RepoMove}
    (h : (supervisorSystem os ctx).next s l = some s') (hq : s'.world.raced = false) :
    s.world.raced = false := by
  rcases System.next_cases h with ⟨i, r, -, -, hw, -⟩ | ⟨i, c, e, k, a, -, -, ha, -⟩ |
    ⟨i, p, -, -, hw, -⟩ | ⟨d, -, hd, -⟩
  · rw [hw] at hq; exact hq
  · rcases SupervisorOp.act_notes ha with ⟨hr, -⟩ | ⟨l, hr, -⟩
    · exact hr ▸ hq
    · rw [hr, Bool.or_eq_false_iff] at hq
      exact hq.1
  · rw [hw] at hq; exact hq
  · obtain ⟨repo, -, hw⟩ := Option.map_eq_some_iff.mp hd
    rw [← hw] at hq
    exact hq

theorem quiet_of_steps (h : (supervisorSystem os ctx).Steps s s') (hq : s'.world.raced = false) :
    (quietSystem ι os ctx).Steps s s' ∧ s.world.raced = false := by
  obtain ⟨hs, hr⟩ := System.Steps.restrict (fun w => !w.raced)
    (fun s l s' hn hg => by
      simp only [Bool.not_eq_true'] at hg ⊢
      exact raced_of_next hn hg) h (by simpa using hq)
  exact ⟨hs, by simpa using hr⟩

omit [DecidableEq ι] in
theorem SupervisorWorld.IsNew.ok (h : w.IsNew) : SupervisorOk ctx w := by
  obtain ⟨hj, -, -, -⟩ := h
  refine ⟨by simp [hj], by simp [CertifiedEvents, hj], fun l => ?_, by simp [hj]⟩
  unfold SupervisorWorld.lane
  rw [hj, laneView_nil]
  exact .initial _

/-- The invariant holds, and the rest of every running step is safe. -/
abbrev Supervised (os : Platform) (ctx : SupervisorContext) (s : SupervisorConfig ι) : Prop :=
  Sound.Holds (quietSystem ι os ctx) (supervisorConduct ctx) (SupervisorOk ctx)
    (fun _ => SafeStep.Returns fun _ _ => True) s

theorem supervised_boot (h : w.IsNew) : Supervised os ctx (System.boot w) :=
  ⟨h.ok, fun i p hp => by simp [System.boot] at hp⟩

theorem supervised_of_reachable (h : (supervisorSystem os ctx).Reachable SupervisorWorld.IsNew s)
    (hq : s.world.raced = false) : Supervised os ctx s := by
  obtain ⟨w, hw, hs⟩ := h
  exact (supervisors_sound os ctx).reachable (fun w hw => SupervisorWorld.IsNew.ok hw)
    ⟨w, hw, (quiet_of_steps hs hq).1⟩

omit [DecidableEq ι] in
theorem replay_eq_lane (hok : SupervisorOk ctx w) {states : LaneStates}
    (h : replay w.repo ctx.wave w.journal = .ok states) : states.lane = w.lane := by
  obtain ⟨states', hreplay, hget, -⟩ := hok.replay
  obtain rfl := Except.ok.inj (hreplay.symm.trans h)
  funext laneId
  simp only [LaneStates.lane, Dict.getD, hget laneId, SupervisorWorld.lane, laneView]

end

/-- A wave with one lane. -/
def soloSpec : WaveSpec where
  wave := "w"
  lanes := [("a", ⟨[], ["src"], 1, by simp, by simp, by simp, by simp⟩)]
  lanes_sorted := by decide
  lanes_ne := by decide

/-- The commit that the wave starts from. -/
def baseCommit : String := "aaaaaaaaaaaaaaaaaaaaaaaaaaaaaaaaaaaaaaaa"

/-- One lane, one attempt. -/
def soloContext : SupervisorContext := { spec := .ok soloSpec, baseSha := some baseCommit }

/-- The history of nothing but the base. -/
def baseNodes : List (Node String CommitData) := [⟨baseCommit, [], ⟨"t", "base"⟩⟩]

theorem baseNodes_ordered : Ordered baseNodes := by decide

theorem baseNodes_fullIds (a : String) (ha : a ∈ ids baseNodes) : isFullObjectId a 40 = true := by
  obtain rfl : a = baseCommit := by simpa [baseNodes, ids] using ha
  decide +kernel

theorem baseNodes_tips (ref tip : String) (h : Dict.get? ([] : Dict String String) ref = some tip) :
    tip ∈ ids baseNodes := by
  cases h

/-- A repository with nothing but the base. -/
def baseRepo : Repo where
  objectIdLength := 40
  graph := ⟨baseNodes, baseNodes_ordered⟩
  tags := []
  refs := []
  symbolicRefs := []
  mergeTree _ _ := .conflict
  fullIds := baseNodes_fullIds
  tips := baseNodes_tips

/-- Nothing has happened yet. -/
def newWorld (ι : Type) : SupervisorWorld ι := ⟨baseRepo, [], [], fun _ => [], false⟩

theorem newWorld_isNew (ι : Type) : (newWorld ι).IsNew := ⟨rfl, rfl, rfl, fun _ => rfl⟩

/-- The job of the first attempt. -/
def firstJob : Json := .obj [("id", .str "a/1")]

abbrev SupervisorLabel (ι : Type) := Label ι Unit SupervisorChoice RepoMove

section

variable {ι : Type} (i : ι)

/-- `i` reads an empty journal and submits the first attempt of the lane. -/
def submitsFirst : List (SupervisorLabel ι) :=
  .start i () :: [.plain, .plain, .plain, .plain, .flag false, .value firstJob].map (Label.tick i)

/-- `i` records what it has submitted. -/
def recordsSubmission : List (SupervisorLabel ι) :=
  [.plain, .time "" "c", .plain, .plain].map (Label.tick i)

end

/-- The status that replay gives to the lane. -/
def laneStatus {ι : Type} (s : SupervisorConfig ι) : Option LaneStatus :=
  (replay s.world.repo "w" s.world.journal).toOption.map fun states => (states.lane "a").state

end Workbay.Wave

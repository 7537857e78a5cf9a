import Workbay.Wave.Proofs.ReplayProofs

/-!
# The life of one lane

Which events the supervisor may append for a lane depends on the record of that lane alone. Each of
them leaves a record from which the next step can go on.
-/

namespace Workbay.Wave

/-- The record can be worked on: what a status needs is there, in objects ids of length `n`. -/
structure LaneOk (n : Nat) (st : LaneState) : Prop where
  attempt : 0 ≤ st.attempt
  gateProbes : 0 ≤ st.gateProbes
  tip : ∀ tip, st.tip = some tip → Git.isFullObjectId tip n = true
  pending : st.state = .pending → st.attempt = 0
  running : st.state = .running → 1 ≤ st.attempt ∧ ∃ job, st.job = some (.obj job)
  collected : st.state = .collected → st.ok.isSome ∧ st.tip.isSome ∧ st.detail.isSome
  gated : st.state = .gated → st.tip.isSome

theorem LaneOk.initial (n : Nat) : LaneOk n {} := by
  constructor <;> simp

/-- What the supervisor may append for a lane with the record `st`, if an attempt budget holds. -/
inductive LaneMove (budget : Int) (st : LaneState) (e : JournalEvent) : Prop where
  | deferred (hk : e.kind = "lane.admission_deferred")
      (hs : st.state = .pending ∨ st.state = .running)
  | submitted (hk : e.kind = "lane.submitted")
      (hattempt : e.int? "attempt" = some (st.attempt + 1))
      (hs : st.state = .pending ∨ (st.state = .running ∧ st.attempt + 1 ≤ budget))
  | collected (hk : e.kind = "lane.collected") (hs : st.state = .running)
  | gated (hk : e.kind = "lane.gated") (hs : st.state = .collected)
      (htip : e.str? "tip" = st.tip)
  | integrated (hk : e.kind = "lane.integrated") (hs : st.state = .gated)
      (htip : e.str? "tip" = st.tip)
  | failed (hk : e.kind = "lane.failed") (hs : st.state.isTerminal = false)
  | parked (hk : e.kind = "lane.parked") (hs : st.state.isTerminal = false)

/-- Where the status of a lane can go in one step. -/
inductive LaneStatus.Step : LaneStatus → LaneStatus → Prop where
  | same {s : LaneStatus} (h : s.isTerminal = false) : Step s s
  | submit : Step .pending .running
  | collect : Step .running .collected
  | gate : Step .collected .gated
  | integrate : Step .gated .integrated
  | fail {s : LaneStatus} (h : s.isTerminal = false) : Step s .failed
  | park {s : LaneStatus} (h : s.isTerminal = false) : Step s .parked

section

variable {n : Nat} {budget : Int} {st : LaneState} {e : JournalEvent}
  {unproven : String → String → Option String}

/-! ## The effect of each kind of event -/

theorem apply_deferred (hk : e.kind = "lane.admission_deferred") :
    st.apply unproven e = { st with admissionDeferredReason := e.str? "reason" } := by
  simp [LaneState.apply, hk]

theorem apply_submitted (hk : e.kind = "lane.submitted") {attempt : Int}
    (ha : e.int? "attempt" = some attempt) :
    st.apply unproven e =
      { st with
        state := .running, attempt := attempt, job := e.fields.get? "job", branch := none
        tip := none, detail := none, gateProbes := 0, admissionDeferredReason := none } := by
  simp [LaneState.apply, hk, ha]

theorem apply_collected (hk : e.kind = "lane.collected") :
    st.apply unproven e =
      { st with
        state := .collected, ok := e.bool? "ok", branch := e.str? "branch", tip := e.str? "tip"
        detail := e.str? "detail", gateProbes := 0 } := by
  simp [LaneState.apply, hk]

theorem apply_gated_accepted (hk : e.kind = "lane.gated") (hok : e.bool? "ok" = some true)
    (hs : st.state = .collected) (htip : e.str? "tip" = st.tip) :
    st.apply unproven e = { st with state := .gated, gateReason := e.str? "reason" } := by
  simp [LaneState.apply, hk, hok, hs, htip]

theorem apply_gated_rejected (hk : e.kind = "lane.gated") (hok : e.bool? "ok" ≠ some true) :
    st.apply unproven e =
      { st with
        state := .collected, gateProbes := max st.gateProbes ((e.int? "probe").getD 0)
        gateReason := e.str? "reason" } := by
  simp [LaneState.apply, hk, hok]

theorem apply_integrated_proven (hk : e.kind = "lane.integrated")
    (hu : unproven ((e.str? "tip").getD "") ((e.str? "wave_tip").getD "") = none) :
    st.apply unproven e =
      { st with
        state := .integrated, tip := some ((e.str? "tip").getD "")
        waveTip := some ((e.str? "wave_tip").getD ""), integrationUnproven := none } := by
  simp [LaneState.apply, hk, hu]

theorem apply_integrated_unproven (hk : e.kind = "lane.integrated") {reason : String}
    (hu : unproven ((e.str? "tip").getD "") ((e.str? "wave_tip").getD "") = some reason) :
    st.apply unproven e =
      { st with
        state := .gated, tip := some ((e.str? "tip").getD "")
        integrationUnproven := some reason } := by
  simp [LaneState.apply, hk, hu]

theorem apply_failed (hk : e.kind = "lane.failed") :
    st.apply unproven e =
      { st with state := .failed, reason := e.str? "reason", detail := e.str? "detail" } := by
  simp [LaneState.apply, hk]

theorem apply_parked (hk : e.kind = "lane.parked") :
    st.apply unproven e =
      { st with
        state := .parked, reason := e.str? "reason", detail := e.str? "detail"
        blocker := e.str? "blocker" } := by
  simp [LaneState.apply, hk]

theorem LaneMove.apply (hm : LaneMove budget st e) (he : EventOk n e) (hst : LaneOk n st) :
    LaneOk n (st.apply unproven e) ∧ LaneStatus.Step st.state (st.apply unproven e).state := by
  cases hm with
  | deferred hk hs =>
    rw [apply_deferred hk]
    refine ⟨⟨hst.attempt, hst.gateProbes, hst.tip, hst.pending, hst.running, hst.collected,
      hst.gated⟩, .same ?_⟩
    rcases hs with hs | hs <;> rw [hs] <;> rfl
  | submitted hk ha hs =>
    obtain ⟨⟨attempt, ha', hpos⟩, job, hjob⟩ := he.submitted hk
    rw [apply_submitted hk ha']
    refine ⟨⟨by simp only; omega, le_refl _, by simp, by simp, fun _ => ⟨hpos, job, hjob⟩, by simp,
      by simp⟩, ?_⟩
    rcases hs with hs | ⟨hs, -⟩
    · rw [hs]; exact .submit
    · rw [hs]; exact .same rfl
  | collected hk hs =>
    obtain ⟨ok, tip, detail, hok, htip, hdetail, hfull⟩ := he.collected hk
    rw [apply_collected hk]
    refine ⟨⟨hst.attempt, le_refl _, ?_, by simp, by simp, fun _ => ?_, by simp⟩, ?_⟩
    · intro t ht
      obtain rfl : tip = t := Option.some.inj (htip.symm.trans ht)
      exact hfull
    · simp [hok, htip, hdetail]
    · rw [hs]; exact .collect
  | gated hk hs htip =>
    obtain ⟨ok, tip, hok, htip', hfull⟩ := he.gated hk
    cases ok with
    | true =>
      rw [apply_gated_accepted hk hok hs htip]
      refine ⟨⟨hst.attempt, hst.gateProbes, hst.tip, by simp, by simp, by simp, fun _ => ?_⟩, ?_⟩
      · rw [← htip, htip']; rfl
      · rw [hs]; exact .gate
    | false =>
      rw [apply_gated_rejected hk (by simp [hok])]
      refine ⟨⟨hst.attempt, ?_, hst.tip, by simp, by simp, fun _ => hst.collected hs, by simp⟩, ?_⟩
      · exact le_max_of_le_left hst.gateProbes
      · rw [hs]; exact .same rfl
  | integrated hk hs htip =>
    obtain ⟨tip, waveTip, htip', -, hfull⟩ := he.integrated hk
    have hget : (e.str? "tip").getD "" = tip := by rw [htip']; rfl
    have hfull' : ∀ t, some ((e.str? "tip").getD "") = some t →
        Git.isFullObjectId t n = true := by
      intro t ht
      obtain rfl := Option.some.inj ht
      rw [hget]
      exact hfull
    cases hu : unproven ((e.str? "tip").getD "") ((e.str? "wave_tip").getD "") with
    | none =>
      rw [apply_integrated_proven hk hu]
      refine ⟨⟨hst.attempt, hst.gateProbes, hfull', by simp, by simp, by simp, by simp⟩, ?_⟩
      rw [hs]; exact .integrate
    | some reason =>
      rw [apply_integrated_unproven hk hu]
      refine ⟨⟨hst.attempt, hst.gateProbes, hfull', by simp, by simp, by simp, by simp⟩, ?_⟩
      rw [hs]; exact .same rfl
  | failed hk hs =>
    rw [apply_failed hk]
    exact ⟨⟨hst.attempt, hst.gateProbes, hst.tip, by simp, by simp, by simp, by simp⟩, .fail hs⟩
  | parked hk hs =>
    rw [apply_parked hk]
    exact ⟨⟨hst.attempt, hst.gateProbes, hst.tip, by simp, by simp, by simp, by simp⟩, .park hs⟩

theorem LaneMove.not_terminal (hm : LaneMove budget st e) : st.state.isTerminal = false := by
  cases hm with
  | deferred hk hs => rcases hs with hs | hs <;> rw [hs] <;> rfl
  | submitted hk ha hs => rcases hs with hs | ⟨hs, -⟩ <;> rw [hs] <;> rfl
  | collected hk hs => rw [hs]; rfl
  | gated hk hs htip => rw [hs]; rfl
  | integrated hk hs htip => rw [hs]; rfl
  | failed hk hs => exact hs
  | parked hk hs => exact hs

end

end Workbay.Wave

/-!
## The events that the supervisor emits

Every event that the supervisor writes for a lane passes the checks of the next replay, and is a
legal move of a lane in the state that the supervisor has seen.
-/

namespace Workbay.Wave

open Git

/-- Every event of this kind with these fields is well-formed, and a legal move of a lane with the
record `st`. -/
def Legal (n : Nat) (budget : Int) (st : LaneState) (kind : String) (fields : Dict String Json) :
    Prop :=
  ∀ e : JournalEvent, e.kind = kind → e.fields = fields → EventOk n e ∧ LaneMove budget st e

/-- The fields that come with the reason of a parked lane. -/
inductive ParkedExtra (n : Nat) : Dict String Json → Prop where
  | none : ParkedExtra n []
  | attempt {attempt : Int} (h : 1 ≤ attempt) : ParkedExtra n [("attempt", .int attempt)]
  | disagree {ok : Bool} {tip : String} (h : isFullObjectId tip n = true) :
      ParkedExtra n [("ok", .bool ok), ("tip", .str tip)]
  | detail {detail : String} : ParkedExtra n [("detail", .str detail)]
  | blocker {blocker : LaneId} : ParkedExtra n [("blocker", .str blocker)]

/-- The fields that come with the reason of a failed lane. -/
inductive FailedExtra : Dict String Json → Prop where
  | none : FailedExtra []
  | detail {detail : String} : FailedExtra [("detail", .str detail)]

section

variable {n : Nat} {budget : Int} {st : LaneState} {e : JournalEvent} {laneId : LaneId}
  {reason tip : String}

theorem EventOk.of_checks (laneId : LaneId) (hlane : laneOf e.fields = some laneId) (hm : mistypedField e = none)
    (hv : invalidValue n e = none) : EventOk n e := by
  refine ⟨?_, .inr (by simp [hlane])⟩
  simp [validateReplayEvent, hm, hv]

theorem EventOk.refused (hk : e.kind = "wave.refused") (hlane : e.fields.get? "lane_id" = none)
    (hm : mistypedField e = none) : EventOk n e := by
  refine ⟨?_, .inl hk⟩
  simp [validateReplayEvent, hm, invalidValue, hk, hlane]

section

variable (hl : laneId ≠ "")

include hl

theorem Legal.deferred (hs : st.state = .pending ∨ st.state = .running) :
    Legal n budget st "lane.admission_deferred"
      [("lane_id", .str laneId), ("reason", .str reason)] := by
  intro e hk hf
  refine ⟨.of_checks laneId (by rw [hf]; rfl) ?_ ?_, .deferred hk hs⟩
  · simp [mistypedField, hk, hf, replayRequiredFields, replayOptionalFields, Dict.getD, Dict.get?,
      FieldType.accepts]
  · simp [invalidValue, hk, hf, Dict.get?, isFalsy, hl]

theorem Legal.submitted {attempt : Int} {job : List (String × Json)} (hpos : 1 ≤ attempt)
    (hnext : attempt = st.attempt + 1)
    (hs : st.state = .pending ∨ (st.state = .running ∧ attempt ≤ budget)) :
    Legal n budget st "lane.submitted"
      [("lane_id", .str laneId), ("attempt", .int attempt), ("job", .obj job)] := by
  intro e hk hf
  have hint : e.int? "attempt" = some attempt := by
    simp [JournalEvent.int?, hf, Dict.get?, Json.int?]
  refine ⟨.of_checks laneId (by rw [hf]; rfl) ?_ ?_, .submitted hk ?_ ?_⟩
  · simp [mistypedField, hk, hf, replayRequiredFields, replayOptionalFields, Dict.getD, Dict.get?,
      FieldType.accepts]
  · simp [invalidValue, hk, hf, Dict.get?, isFalsy, hl, JournalEvent.int?, Json.int?, hpos]
  · rw [hint, hnext]
  · rw [← hnext]
    exact hs

theorem Legal.collected {attempt : Int} {ok : Bool} {branch detail : String}
    (hattempt : 1 ≤ attempt) (htip : isFullObjectId tip n = true) (hs : st.state = .running) :
    Legal n budget st "lane.collected"
      [("lane_id", .str laneId), ("attempt", .int attempt), ("ok", .bool ok),
        ("branch", .str branch), ("tip", .str tip), ("detail", .str detail)] := by
  intro e hk hf
  refine ⟨.of_checks laneId (by rw [hf]; rfl) ?_ ?_, .collected hk hs⟩
  · simp [mistypedField, hk, hf, replayRequiredFields, replayOptionalFields, Dict.getD, Dict.get?,
      FieldType.accepts]
  · simp [invalidValue, hk, hf, Dict.get?, isFalsy, hl, JournalEvent.int?, Json.int?, hasFullId,
      JournalEvent.str?, Json.str?, htip, hattempt]

theorem Legal.accepted (hs : st.state = .collected) (hst : st.tip = some tip)
    (htip : isFullObjectId tip n = true) : Legal n budget st "lane.gated"
      [("lane_id", .str laneId), ("ok", .bool true), ("reason", .str reason),
        ("tip", .str tip)] := by
  intro e hk hf
  have hstr : e.str? "tip" = st.tip := by
    simp [JournalEvent.str?, hf, Dict.get?, Json.str?, hst]
  refine ⟨.of_checks laneId (by rw [hf]; rfl) ?_ ?_, .gated hk hs hstr⟩
  · simp [mistypedField, hk, hf, replayRequiredFields, replayOptionalFields, Dict.getD, Dict.get?,
      FieldType.accepts]
  · simp [invalidValue, hk, hf, Dict.get?, isFalsy, hl, JournalEvent.bool?, Json.bool?, hasFullId,
      JournalEvent.str?, Json.str?, htip]

theorem Legal.rejected {probe : Int} (hs : st.state = .collected) (hst : st.tip = some tip)
    (htip : isFullObjectId tip n = true) (hprobe : 1 ≤ probe) : Legal n budget st "lane.gated"
      [("lane_id", .str laneId), ("ok", .bool false), ("probe", .int probe), ("reason", .str reason),
        ("tip", .str tip)] := by
  intro e hk hf
  have hstr : e.str? "tip" = st.tip := by
    simp [JournalEvent.str?, hf, Dict.get?, Json.str?, hst]
  refine ⟨.of_checks laneId (by rw [hf]; rfl) ?_ ?_, .gated hk hs hstr⟩
  · simp [mistypedField, hk, hf, replayRequiredFields, replayOptionalFields, Dict.getD, Dict.get?,
      FieldType.accepts]
  · simp [invalidValue, hk, hf, Dict.get?, isFalsy, hl, JournalEvent.int?, Json.int?,
      JournalEvent.bool?, Json.bool?, hasFullId, JournalEvent.str?, Json.str?, htip, hprobe]

theorem Legal.integrated {waveTip : String} (hs : st.state = .gated) (hst : st.tip = some tip)
    (htip : isFullObjectId tip n = true) (hwave : isFullObjectId waveTip n = true) :
    Legal n budget st "lane.integrated"
      [("lane_id", .str laneId), ("tip", .str tip), ("wave_tip", .str waveTip)] := by
  intro e hk hf
  have hstr : e.str? "tip" = st.tip := by
    simp [JournalEvent.str?, hf, Dict.get?, Json.str?, hst]
  refine ⟨.of_checks laneId (by rw [hf]; rfl) ?_ ?_, .integrated hk hs hstr⟩
  · simp [mistypedField, hk, hf, replayRequiredFields, replayOptionalFields, Dict.getD, Dict.get?,
      FieldType.accepts]
  · simp [invalidValue, hk, hf, Dict.get?, isFalsy, hl, hasFullId, JournalEvent.str?, Json.str?,
      htip, hwave]

theorem Legal.failed {extra : Dict String Json} (hx : FailedExtra extra)
    (hs : st.state.isTerminal = false) : Legal n budget st "lane.failed"
      (("lane_id", .str laneId) :: ("reason", .str reason) :: extra) := by
  intro e hk hf
  refine ⟨.of_checks laneId (by rw [hf]; rfl) ?_ ?_, .failed hk hs⟩
  · cases hx <;>
      simp [mistypedField, hk, hf, replayRequiredFields, replayOptionalFields, Dict.getD, Dict.get?,
        FieldType.accepts]
  · simp [invalidValue, hk, hf, Dict.get?, isFalsy, hl]

theorem Legal.parked {extra : Dict String Json} (hx : ParkedExtra n extra)
    (hs : st.state.isTerminal = false) : Legal n budget st "lane.parked"
      (("lane_id", .str laneId) :: ("reason", .str reason) :: extra) := by
  intro e hk hf
  refine ⟨.of_checks laneId (by rw [hf]; rfl) ?_ ?_, .parked hk hs⟩
  · cases hx <;>
      simp [mistypedField, hk, hf, replayRequiredFields, replayOptionalFields, Dict.getD, Dict.get?,
        FieldType.accepts]
  · cases hx <;>
      simp_all [invalidValue, Dict.get?, isFalsy, JournalEvent.int?, Json.int?, hasFullId,
        JournalEvent.str?, Json.str?]

end

end

end Workbay.Wave

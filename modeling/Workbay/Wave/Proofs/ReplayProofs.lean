import Workbay.Wave.Supervisor

/-!
# Replay, lane by lane

`replay` folds all lanes at once. Seen from one lane it is a fold over the events of that lane, and
a journal whose events are all well-formed is always replayed without an exception.
-/

namespace Workbay.Wave

open Effects Git List

/-- The event passes the check of `replay` and names its lane by a string. -/
def EventOk (n : Nat) (e : JournalEvent) : Prop :=
  validateReplayEvent n e = .ok () ∧ (e.kind = "wave.refused" ∨ (laneOf e.fields).isSome)

namespace EventOk

variable {n : Nat} {e : JournalEvent}

section

variable (h : EventOk n e)

include h

theorem typed (hk : replayRequiredFields.get? e.kind ≠ none) :
    mistypedField e = none ∧ invalidValue n e = none := by
  have hv := h.1
  unfold validateReplayEvent at hv
  rw [if_neg hk] at hv
  cases hm : mistypedField e with
  | some f => simp [hm] at hv
  | none =>
    cases hi : invalidValue n e with
    | some f => simp [hm, hi] at hv
    | none => exact ⟨rfl, rfl⟩

theorem required {f : String × FieldType} (hf : f ∈ replayRequiredFields.getD e.kind []) :
    ∃ value, e.fields.get? f.1 = some value ∧ f.2.accepts value = true := by
  have hk : replayRequiredFields.get? e.kind ≠ none := by
    intro hnone
    simp [Dict.getD, hnone] at hf
  have hm := (h.typed hk).1
  unfold mistypedField at hm
  simp only [Option.map_eq_none_iff, Option.or_eq_none_iff] at hm
  have hfind := find?_eq_none.mp hm.1 f hf
  simp only [Bool.not_eq_true, Bool.not_eq_false'] at hfind
  cases hv : e.fields.get? f.1 with
  | none => simp [hv] at hfind
  | some value => exact ⟨value, rfl, by simpa [hv] using hfind⟩

theorem str (field : String)
    (hf : (field, FieldType.str) ∈ replayRequiredFields.getD e.kind []) :
    ∃ value, e.str? field = some value := by
  obtain ⟨value, hget, hty⟩ := h.required hf
  cases value with
  | str s =>
    refine ⟨s, ?_⟩
    simp only at hget
    simp [JournalEvent.str?, hget, Json.str?]
  | _ => simp [FieldType.accepts] at hty

theorem int (field : String)
    (hf : (field, FieldType.int) ∈ replayRequiredFields.getD e.kind []) :
    ∃ value, e.int? field = some value := by
  obtain ⟨value, hget, hty⟩ := h.required hf
  cases value with
  | int i =>
    refine ⟨i, ?_⟩
    simp only at hget
    simp [JournalEvent.int?, hget, Json.int?]
  | _ => simp [FieldType.accepts] at hty

theorem bool (field : String)
    (hf : (field, FieldType.bool) ∈ replayRequiredFields.getD e.kind []) :
    ∃ value, e.bool? field = some value := by
  obtain ⟨value, hget, hty⟩ := h.required hf
  cases value with
  | bool b =>
    refine ⟨b, ?_⟩
    simp only at hget
    simp [JournalEvent.bool?, hget, Json.bool?]
  | _ => simp [FieldType.accepts] at hty

theorem submitted (hk : e.kind = "lane.submitted") :
    (∃ attempt, e.int? "attempt" = some attempt ∧ 1 ≤ attempt) ∧
      ∃ job, e.fields.get? "job" = some (.obj job) := by
  have hreq : replayRequiredFields.getD e.kind [] =
      [("lane_id", .str), ("attempt", .int), ("job", .dict)] := by rw [hk]; rfl
  obtain ⟨attempt, ha⟩ := h.int "attempt" (by rw [hreq]; simp)
  obtain ⟨job, hj, hty⟩ := h.required (f := ("job", .dict)) (by rw [hreq]; simp)
  have hval := (h.typed (by rw [hk]; decide)).2
  refine ⟨⟨attempt, ha, ?_⟩, ?_⟩
  · by_contra hlt
    refine absurd hval ?_
    unfold invalidValue
    have hlt' : attempt < 1 := by omega
    simp only [hk, ha, Option.any_some, hlt', decide_true, if_true]
    split_ifs <;> simp
  · cases job <;> simp [FieldType.accepts] at hty
    exact ⟨_, hj⟩

theorem collected (hk : e.kind = "lane.collected") :
    ∃ ok tip detail, e.bool? "ok" = some ok ∧ e.str? "tip" = some tip ∧
      e.str? "detail" = some detail ∧ isFullObjectId tip n = true := by
  have hreq : replayRequiredFields.getD e.kind [] =
      [("lane_id", .str), ("attempt", .int), ("ok", .bool), ("branch", .str), ("tip", .str),
        ("detail", .str)] := by rw [hk]; rfl
  obtain ⟨ok, hok⟩ := h.bool "ok" (by rw [hreq]; simp)
  obtain ⟨tip, htip⟩ := h.str "tip" (by rw [hreq]; simp)
  obtain ⟨detail, hd⟩ := h.str "detail" (by rw [hreq]; simp)
  have hval := (h.typed (by rw [hk]; decide)).2
  refine ⟨ok, tip, detail, hok, htip, hd, ?_⟩
  cases hfull : isFullObjectId tip n with
  | true => rfl
  | false =>
    refine absurd hval ?_
    unfold invalidValue hasFullId
    simp only [hk, htip, Option.all_some, hfull, String.reduceEq, if_false, if_true, Bool.not_false]
    split_ifs <;> simp

theorem gated (hk : e.kind = "lane.gated") :
    ∃ ok tip, e.bool? "ok" = some ok ∧ e.str? "tip" = some tip ∧
      isFullObjectId tip n = true := by
  have hreq : replayRequiredFields.getD e.kind [] =
      [("lane_id", .str), ("ok", .bool), ("reason", .str), ("tip", .str)] := by rw [hk]; rfl
  obtain ⟨ok, hok⟩ := h.bool "ok" (by rw [hreq]; simp)
  obtain ⟨tip, htip⟩ := h.str "tip" (by rw [hreq]; simp)
  have hval := (h.typed (by rw [hk]; decide)).2
  refine ⟨ok, tip, hok, htip, ?_⟩
  cases hfull : isFullObjectId tip n with
  | true => rfl
  | false =>
    refine absurd hval ?_
    unfold invalidValue hasFullId
    simp only [hk, htip, Option.all_some, hfull, String.reduceEq, if_false, if_true, Bool.not_false]
    split_ifs <;> simp

theorem integrated (hk : e.kind = "lane.integrated") :
    ∃ tip waveTip, e.str? "tip" = some tip ∧ e.str? "wave_tip" = some waveTip ∧
      isFullObjectId tip n = true := by
  have hreq : replayRequiredFields.getD e.kind [] =
      [("lane_id", .str), ("tip", .str), ("wave_tip", .str)] := by rw [hk]; rfl
  obtain ⟨tip, htip⟩ := h.str "tip" (by rw [hreq]; simp)
  obtain ⟨waveTip, hwave⟩ := h.str "wave_tip" (by rw [hreq]; simp)
  have hval := (h.typed (by rw [hk]; decide)).2
  refine ⟨tip, waveTip, htip, hwave, ?_⟩
  cases hfull : isFullObjectId tip n with
  | true => rfl
  | false =>
    refine absurd hval ?_
    unfold invalidValue hasFullId
    simp only [hk, htip, Option.all_some, hfull, String.reduceEq, if_false, if_true, Bool.not_false]
    split_ifs <;> simp

end

end EventOk

/-- The record of a lane after the events, if it has one. -/
def laneView? (unproven : String → String → Option String) (events : List JournalEvent)
    (laneId : LaneId) : Option LaneState :=
  events.foldl (fun st e =>
    if laneOf e.fields = some laneId ∧ e.kind ≠ "wave.refused" then
      some ((st.getD {}).apply unproven e)
    else st) none

/-- The record of a lane after the events. -/
def laneView (unproven : String → String → Option String) (events : List JournalEvent)
    (laneId : LaneId) : LaneState := (laneView? unproven events laneId).getD {}

section View

variable {unproven unproven' : String → String → Option String} {events : List JournalEvent}
  {e : JournalEvent} {laneId : LaneId} {n : Nat}

theorem laneView?_concat : laneView? unproven (events ++ [e]) laneId =
    if laneOf e.fields = some laneId ∧ e.kind ≠ "wave.refused" then
      some ((laneView unproven events laneId).apply unproven e)
    else laneView? unproven events laneId := by
  simp only [laneView?, foldl_append, foldl_cons, foldl_nil, laneView]

theorem LaneState.apply_refused (st : LaneState) (h : e.kind = "wave.refused") :
    st.apply unproven e = st := by
  simp [LaneState.apply, h]

@[simp] theorem laneView_nil : laneView unproven [] laneId = {} := rfl

theorem laneView_concat : laneView unproven (events ++ [e]) laneId =
    if laneOf e.fields = some laneId then (laneView unproven events laneId).apply unproven e
    else laneView unproven events laneId := by
  unfold laneView
  rw [laneView?_concat]
  by_cases hl : laneOf e.fields = some laneId
  · by_cases hk : e.kind = "wave.refused"
    · simp [hl, hk, LaneState.apply_refused]
    · simp [hl, hk, laneView]
  · simp [hl]

theorem laneView?_congr (h : ∀ e ∈ events, e.kind = "lane.integrated" →
    unproven ((e.str? "tip").getD "") ((e.str? "wave_tip").getD "") =
      unproven' ((e.str? "tip").getD "") ((e.str? "wave_tip").getD "")) :
    laneView? unproven events laneId = laneView? unproven' events laneId := by
  induction events using List.reverseRecOn with
  | nil => rfl
  | append_singleton events e ih =>
    have hview := ih fun e' he' => h e' (mem_append_left _ he')
    have happly : ∀ st : LaneState, st.apply unproven e = st.apply unproven' e := by
      intro st
      unfold LaneState.apply
      split <;> try rfl
      rename_i hk
      simp only [h e (mem_append_right _ mem_cons_self) hk]
    rw [laneView?_concat, laneView?_concat, laneView, laneView, hview, happly]

theorem laneView_congr (h : ∀ e ∈ events, e.kind = "lane.integrated" →
    unproven ((e.str? "tip").getD "") ((e.str? "wave_tip").getD "") =
      unproven' ((e.str? "tip").getD "") ((e.str? "wave_tip").getD "")) :
    laneView unproven events laneId = laneView unproven' events laneId := by
  unfold laneView
  rw [laneView?_congr h]

theorem laneOf_eq_some {fields : Dict String Json} {laneId : LaneId} :
    laneOf fields = some laneId ↔ fields.get? "lane_id" = some (.str laneId) := by
  unfold laneOf
  constructor
  · intro h
    split at h
    · obtain rfl := Option.some.inj h
      assumption
    · simp at h
  · intro h
    rw [h]

theorem replayEvent_ok (h : EventOk n e) (states : LaneStates) :
    ∃ states', replayEvent unproven n states e = .ok states' ∧
      (∀ laneId, states'.get? laneId =
        if laneOf e.fields = some laneId ∧ e.kind ≠ "wave.refused" then
          some ((states.lane laneId).apply unproven e)
        else states.get? laneId) ∧
      ((states.map Prod.fst).Nodup → (states'.map Prod.fst).Nodup) := by
  unfold replayEvent
  rw [h.1]
  by_cases hk : e.kind = "wave.refused"
  · refine ⟨states, ?_, fun laneId => by simp [hk], fun h => h⟩
    simp [hk, Bind.bind, Except.bind, Pure.pure, Except.pure]
  · obtain ⟨l, hl⟩ := Option.isSome_iff_exists.mp (h.2.resolve_left hk)
    have hget := laneOf_eq_some.mp hl
    refine ⟨states.set l ((states.lane l).apply unproven e), ?_, fun laneId => ?_,
      fun h => Dict.nodup_set h _ _⟩
    · simp [hk, hget, Bind.bind, Except.bind, Pure.pure, Except.pure]
    · rw [Dict.get?_set, hl]
      by_cases heq : laneId = l
      · subst heq
        simp [hk]
      · have hne : ¬ (some l = some laneId ∧ e.kind ≠ "wave.refused") := by
          rintro ⟨h, -⟩
          exact heq (Option.some.inj h).symm
        rw [if_neg heq, if_neg hne]

theorem foldlM_replayEvent_ok (unproven : String → String → Option String)
    (h : ∀ e ∈ events, EventOk n e) :
    ∃ states, events.foldlM (replayEvent unproven n) [] = .ok states ∧
      (∀ laneId, states.get? laneId = laneView? unproven events laneId) ∧
      (states.map Prod.fst).Nodup := by
  induction events using List.reverseRecOn with
  | nil => exact ⟨[], rfl, fun _ => rfl, nodup_nil⟩
  | append_singleton events e ih =>
    obtain ⟨states, hfold, hget, hnd⟩ := ih fun e' he' => h e' (mem_append_left _ he')
    obtain ⟨states', hstep, hget', hnd'⟩ :=
      replayEvent_ok (h e (mem_append_right _ mem_cons_self)) states
    refine ⟨states', ?_, fun laneId => ?_, hnd' hnd⟩
    · rw [foldlM_append, hfold]
      simp only [foldlM_cons, foldlM_nil]
      show (replayEvent unproven n states e >>= pure) = _
      rw [hstep]
      rfl
    · rw [hget', laneView?_concat, ← hget]
      simp only [LaneStates.lane, Dict.getD, laneView, hget]

end View

end Workbay.Wave

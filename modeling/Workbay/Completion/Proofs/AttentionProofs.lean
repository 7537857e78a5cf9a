import Workbay.Completion.Attention

/-!
# Events stay

A call adds an event, moves one event, or leaves the events as they are. An event moves in three
ways, each under its own conditions: storage gets an outcome, or the event is discharged or
reassigned. What every move keeps, every run keeps.
-/

namespace Workbay.Completion

open Effects List

variable {host : AttentionHost} {s : AttentionStore}

/-! ## What can happen to an event -/

/-- The moves of an event in a store. -/
inductive EventStep (host : AttentionHost) (s : AttentionStore) (e : EventRow) : EventRow → Prop where
  /-- The storage gets its outcome; it is removed only while the obligations are as prepared. -/
  | outcome (o : StorageOutcome) (ho : o ≠ .prepared) (hstate : e.state = .prepared)
      (hremoved : o = .storageRemoved →
        fingerprint host s e.receipt.taskRef e.receipt.laneId = .ok e.obligationFingerprint) :
      EventStep host s e { e with state := o.state, storageOutcome := o }
  /-- A later completed assessment of the integration, of the same lane row and identity and with
  the current fingerprint, discharges the event. -/
  | discharge (completed : EventRow) (hpending : e.pending = true)
      (hmem : completed ∈ newerCompleted s.events e completed.receipt.assessmentId)
      (hne : completed.receipt.assessmentId ≠ e.receipt.assessmentId)
      (hcurrent : fingerprint host s e.receipt.taskRef e.receipt.laneId =
        .ok completed.obligationFingerprint) :
      EventStep host s e
        { e with
          state := .discharged, resolution := some (.discharge completed.receipt.assessmentId) }
  /-- An owner reassigns the event to another carrier. -/
  | reassign (c : Reassignment) (authorityId : String) (hpending : e.pending = true)
      (hother : (c.taskRef, c.laneId) ≠ (e.receipt.taskRef, e.receipt.laneId)) :
      EventStep host s e
        { e with state := .reassigned, resolution := some (.carrier c authorityId) }

/-- What stays of an event. -/
structure Kept (e e' : EventRow) : Prop where
  eventSequence : e'.eventSequence = e.eventSequence
  eventId : e'.eventId = e.eventId
  operationIntent : e'.operationIntent = e.operationIntent
  receipt : e'.receipt = e.receipt
  obligationFingerprint : e'.obligationFingerprint = e.obligationFingerprint
  nextAction : e'.nextAction = e.nextAction
  observer : e'.observer = e.observer
  outcome : e.storageOutcome ≠ .prepared → e'.storageOutcome = e.storageOutcome
  resolved : e.pending = false →
    e'.pending = false ∧ e'.state = e.state ∧ e'.resolution = e.resolution

theorem Kept.refl (e : EventRow) : Kept e e :=
  ⟨rfl, rfl, rfl, rfl, rfl, rfl, rfl, fun _ => rfl, fun h => ⟨h, rfl, rfl⟩⟩

variable {a b e' : EventRow} {s' : AttentionStore} {e : CompletionEvent}

theorem Kept.trans {c : EventRow} (h : Kept a b) (h' : Kept b c) : Kept a c where
  eventSequence := h'.eventSequence.trans h.eventSequence
  eventId := h'.eventId.trans h.eventId
  operationIntent := h'.operationIntent.trans h.operationIntent
  receipt := h'.receipt.trans h.receipt
  obligationFingerprint := h'.obligationFingerprint.trans h.obligationFingerprint
  nextAction := h'.nextAction.trans h.nextAction
  observer := h'.observer.trans h.observer
  outcome := fun hne => by
    have hb := h.outcome hne
    rw [h'.outcome (by rw [hb]; exact hne), hb]
  resolved := fun hres => by
    obtain ⟨hb, hstate, hresolution⟩ := h.resolved hres
    obtain ⟨hc, hstate', hresolution'⟩ := h'.resolved hb
    exact ⟨hc, hstate'.trans hstate, hresolution'.trans hresolution⟩

/-- The events of a store: in sequence, with ids and operations of their own. An event without an
outcome of its storage has none in either column. -/
structure EventsInv (events : List EventRow) : Prop where
  ordered : events.Pairwise fun a b => a.eventSequence < b.eventSequence
  positive : ∀ e ∈ events, 0 < e.eventSequence
  ids : (events.map EventRow.eventId).Nodup
  keys : (events.map fun e => (e.receipt.assessmentId, e.operationIntent)).Nodup
  outcomes : ∀ e ∈ events, e.state = .prepared → e.storageOutcome = .prepared

theorem EventsInv.nil : EventsInv [] := by
  constructor <;> simp

variable {events : List EventRow} {eventId : String}

theorem EventsInv.eq_of_id (h : EventsInv events) (ha : a ∈ events) (hb : b ∈ events)
    (hid : a.eventId = b.eventId) : a = b :=
  inj_on_of_nodup_map h.ids ha hb hid

theorem EventStep.kept {e : EventRow} (h : EventStep host s e e')
    (houtcome : e.state = .prepared → e.storageOutcome = .prepared) : Kept e e' := by
  have hopen : ∀ {p : Prop}, e.pending = true → e.pending = false → p := by
    intro p ht hf
    rw [ht] at hf
    cases hf
  cases h with
  | outcome o ho hstate hremoved =>
    refine ⟨rfl, rfl, rfl, rfl, rfl, rfl, rfl, fun hne => absurd (houtcome hstate) hne, ?_⟩
    exact hopen (by simp [EventRow.pending, hstate])
  | discharge completed hpending hmem hne hcurrent =>
    exact ⟨rfl, rfl, rfl, rfl, rfl, rfl, rfl, fun _ => rfl, hopen hpending⟩
  | reassign c authorityId hpending hother =>
    exact ⟨rfl, rfl, rfl, rfl, rfl, rfl, rfl, fun _ => rfl, hopen hpending⟩

/-- What a call does to the events. -/
inductive EventsStep (host : AttentionHost) (s : AttentionStore) : List EventRow → Prop where
  | same : EventsStep host s s.events
  | added (e : EventRow) (hseq : e.eventSequence = nextSequence s.events)
      (hid : ∀ x ∈ s.events, x.eventId ≠ e.eventId)
      (hkey : ∀ x ∈ s.events, ¬ (x.receipt.assessmentId = e.receipt.assessmentId ∧
        x.operationIntent = e.operationIntent))
      (houtcome : e.storageOutcome = .prepared) : EventsStep host s (s.events ++ [e])
  | moved (e e' : EventRow) (hmem : e ∈ s.events) (hstep : EventStep host s e e') :
      EventsStep host s (updateEvent s.events e.eventId fun _ => e')

theorem updateEvent_eq (h : EventsInv events) {e : EventRow} (he : e ∈ events)
    (f : EventRow → EventRow) :
    updateEvent events e.eventId f = updateEvent events e.eventId fun _ => f e := by
  refine map_congr_left fun x hx => ?_
  by_cases hid : x.eventId = e.eventId
  · rw [if_pos hid, if_pos hid, h.eq_of_id hx he hid]
  · rw [if_neg hid, if_neg hid]

theorem eventRow_eq_ok {e : EventRow} (h : eventRow events eventId = .ok e) :
    e ∈ events ∧ e.eventId = eventId := by
  rw [eventRow] at h
  split at h
  · rename_i row hfind
    obtain rfl : row = e := Except.ok.inj h
    exact ⟨mem_of_find?_eq_some hfind, by simpa using find?_some hfind⟩
  · cases h

theorem validateReceipt_eq_ok {r receipt : CompletionReceipt}
    (h : validateReceipt r = .ok receipt) : receipt = r.detach := by
  simp only [validateReceipt, checkItems, bind_eq_ok, exists_const, require_eq_ok, pure,
    Except.pure, Except.ok.injEq] at h
  obtain ⟨-, -, -, -, -, -, -, -, -, -, -, -, -, -, -, rfl⟩ := h
  rfl

theorem prepare_cases {call : PrepareCall} {a : CompletionAuthorization}
    (h : prepareCompletionWarning host s call = .ok (a, s')) :
    ∃ e, (e.receipt.assessmentId = call.receipt.assessmentId ∧
        e.operationIntent = call.operationIntent) ∧ a = e.authorization ∧
      ((e ∈ s.events ∧ s' = s) ∨ (e = newEvent s.events call call.receipt.detach ∧
        (∀ x ∈ s.events, x.eventId ≠ e.eventId) ∧
        (∀ x ∈ s.events, ¬ (x.receipt.assessmentId = e.receipt.assessmentId ∧
          x.operationIntent = e.operationIntent)) ∧
        s'.events = s.events ++ [e])) := by
  simp only [prepareCompletionWarning, bind_eq_ok, exists_const, require_eq_ok] at h
  obtain ⟨receipt, hreceipt, -, h⟩ := h
  obtain rfl := validateReceipt_eq_ok hreceipt
  split at h
  · rename_i existing hfind
    simp only [bind_eq_ok, exists_const, require_eq_ok, pure, Except.pure, Except.ok.injEq,
      Prod.mk.injEq] at h
    obtain ⟨-, rfl, rfl⟩ := h
    have hexisting := find?_some hfind
    simp only [decide_eq_true_eq] at hexisting
    exact ⟨existing, hexisting, rfl, .inl ⟨mem_of_find?_eq_some hfind, rfl⟩⟩
  · rename_i hnone
    simp only [prepareNew, bind_eq_ok, exists_const, require_eq_ok] at h
    obtain ⟨record, -, -, current, -, -, h⟩ := h
    split at h
    · cases h
    · simp only [bind_eq_ok, exists_const, require_eq_ok, pure, Except.pure, Except.ok.injEq,
        Prod.mk.injEq] at h
      obtain ⟨hid, rfl, rfl⟩ := h
      refine ⟨_, ⟨rfl, rfl⟩, rfl, .inr ⟨rfl, fun x hx => ?_, fun x hx => ?_, rfl⟩⟩
      · simpa [newEvent] using all_eq_true.mp hid x hx
      · simpa [newEvent] using find?_eq_none.mp hnone x hx

theorem prepare_spec {call : PrepareCall} {a : CompletionAuthorization}
    (h : prepareCompletionWarning host s call = .ok (a, s')) : EventsStep host s s'.events := by
  obtain ⟨e, -, -, ⟨-, rfl⟩ | ⟨rfl, hid, hkey, hevents⟩⟩ := prepare_cases h
  · exact .same
  · rw [hevents]
    exact .added _ rfl hid hkey rfl

theorem checkRemoval_eq_ok {row : EventRow} (h : checkRemoval host s row = .ok ()) :
    fingerprint host s row.receipt.taskRef row.receipt.laneId = .ok row.obligationFingerprint := by
  simp only [checkRemoval, bind_eq_ok, exists_const, require_eq_ok] at h
  obtain ⟨-, current, hcurrent, rfl⟩ := h
  exact hcurrent

section

variable (hinv : EventsInv s.events)

include hinv

theorem outcome_moves {outcome : StorageOutcome} {authorization : CompletionAuthorization}
    (h : recordCompletionOutcome host s eventId outcome authorization = .ok (e, s')) :
    s' = s ∨ ∃ row ∈ s.events, row.eventId = eventId ∧
      EventStep host s row { row with state := outcome.state, storageOutcome := outcome } ∧
      s' = { s with events := updateEvent s.events row.eventId fun _ =>
        { row with state := outcome.state, storageOutcome := outcome } } := by
  simp only [recordCompletionOutcome, bind_eq_ok, exists_const, require_eq_ok] at h
  obtain ⟨houtcome, row, hrow, -, h⟩ := h
  obtain ⟨hmem, rfl⟩ := eventRow_eq_ok hrow
  split at h
  · simp only [pure, Except.pure, Except.ok.injEq, Prod.mk.injEq] at h
    exact .inl h.2.symm
  · simp only [bind_eq_ok, exists_const, require_eq_ok, pure, Except.pure, Except.ok.injEq,
      Prod.mk.injEq] at h
    obtain ⟨hstate, _, hremoval, updated, -, -, rfl⟩ := h
    refine .inr ⟨row, hmem, rfl, .outcome _ houtcome hstate fun hremoved => ?_, ?_⟩
    · rw [checkOutcome, if_pos hremoved] at hremoval
      exact checkRemoval_eq_ok hremoval
    · rw [updateEvent_eq hinv hmem]

theorem outcome_spec {outcome : StorageOutcome} {authorization : CompletionAuthorization}
    (h : recordCompletionOutcome host s eventId outcome authorization = .ok (e, s')) :
    EventsStep host s s'.events := by
  rcases outcome_moves hinv h with rfl | ⟨row, hmem, -, hstep, rfl⟩
  · exact .same
  · exact .moved row _ hmem hstep

theorem resolve_spec {row : EventRow} (hmem : row ∈ s.events) {state : EventState}
    {resolution : Resolution} (h : resolve s row state resolution = .ok (e, s'))
    (hstep : row.pending = true →
      EventStep host s row { row with state, resolution := some resolution }) :
    EventsStep host s s'.events := by
  rw [resolve] at h
  split at h
  · simp only [bind_eq_ok, exists_const, require_eq_ok, pure, Except.pure, Except.ok.injEq,
      Prod.mk.injEq] at h
    obtain ⟨-, -, rfl⟩ := h
    exact .same
  · rename_i hopen
    simp only [bind_eq_ok, pure, Except.pure, Except.ok.injEq, Prod.mk.injEq] at h
    obtain ⟨updated, -, -, rfl⟩ := h
    show EventsStep host s (updateEvent s.events row.eventId fun e =>
      { e with state, resolution := some resolution })
    rw [updateEvent_eq hinv hmem]
    refine .moved row _ hmem (hstep ?_)
    rw [EventRow.pending]
    cases hstate : row.state <;> simp [hstate] at hopen ⊢

theorem discharge_spec {assessmentId : String}
    (h : dischargeCompletionEvent host s eventId assessmentId = .ok (e, s')) :
    EventsStep host s s'.events := by
  simp only [dischargeCompletionEvent, bind_eq_ok] at h
  obtain ⟨row, hrow, h⟩ := h
  obtain ⟨hmem, rfl⟩ := eventRow_eq_ok hrow
  split at h
  · rename_i hdischarged
    refine resolve_spec hinv hmem h fun hpending => ?_
    simp [EventRow.pending, hdischarged] at hpending
  · split at h
    · cases h
    · rename_i completed hlast
      simp only [bind_eq_ok, exists_const, require_eq_ok] at h
      obtain ⟨hne, current, hcurrent, rfl, h⟩ := h
      have hnewer : completed ∈ newerCompleted s.events row assessmentId :=
        (mem_insertionSort _).mp (mem_of_getLast? hlast)
      obtain rfl : completed.receipt.assessmentId = assessmentId := by
        have := (mem_filter.mp hnewer).2
        simp only [decide_eq_true_eq] at this
        exact this.1
      exact resolve_spec hinv hmem h fun hpending =>
        .discharge completed hpending hnewer hne hcurrent

theorem reassign_spec {carrier : Reassignment} {authorityId : String}
    (h : reassign s eventId carrier authorityId = .ok (e, s')) : EventsStep host s s'.events := by
  simp only [reassign, bind_eq_ok, exists_const, require_eq_ok] at h
  obtain ⟨-, row, hrow, hother, h⟩ := h
  obtain ⟨hmem, rfl⟩ := eventRow_eq_ok hrow
  exact resolve_spec hinv hmem h fun hpending => .reassign carrier.detach authorityId hpending hother

theorem attention_step (call : AttentionCall) :
    EventsStep host s ((attentionMachine host).next s call).events := by
  cases call with
  | prepare call =>
    simp only [Machine.next, attentionMachine]
    cases hcall : prepareCompletionWarning host s call with
    | error r => exact .same
    | ok result => exact prepare_spec hcall
  | outcome eventId outcome authorization =>
    simp only [Machine.next, attentionMachine]
    cases hcall : recordCompletionOutcome host s eventId outcome authorization with
    | error r => exact .same
    | ok result => exact outcome_spec hinv hcall
  | discharge eventId assessmentId =>
    simp only [Machine.next, attentionMachine]
    cases hcall : dischargeCompletionEvent host s eventId assessmentId with
    | error r => exact .same
    | ok result => exact discharge_spec hinv hcall
  | reassign eventId carrier authorityId =>
    simp only [Machine.next, attentionMachine]
    cases hcall : reassign s eventId carrier authorityId with
    | error r => exact .same
    | ok result => exact reassign_spec hinv hcall
  | change native tests contracts => exact .same

end

theorem lt_nextSequence {e : EventRow} (he : e ∈ events) :
    e.eventSequence < nextSequence events := by
  have hmem : e.eventSequence ∈ events.map EventRow.eventSequence := mem_map_of_mem he
  cases hmax : (events.map EventRow.eventSequence).max? with
  | none =>
    rw [max?_eq_none_iff.mp hmax] at hmem
    exact absurd hmem not_mem_nil
  | some n =>
    have hle : e.eventSequence ≤ n := (max?_eq_some_iff.mp hmax).2 _ hmem
    rw [nextSequence, hmax, Option.getD_some]
    omega

theorem map_updateEvent {β : Type} (h : EventsInv events) {e : EventRow} (he : e ∈ events)
    {f : EventRow → β} (hf : f e' = f e) :
    (updateEvent events e.eventId fun _ => e').map f = events.map f := by
  rw [updateEvent, map_map]
  refine map_congr_left fun x hx => ?_
  rw [Function.comp_apply]
  split
  · rename_i hid
    rw [h.eq_of_id hx he hid, hf]
  · rfl

theorem mem_updateEvent {x : EventRow} (h : x ∈ updateEvent events eventId fun _ => e') :
    x = e' ∨ x ∈ events ∧ x.eventId ≠ eventId := by
  obtain ⟨y, hy, rfl⟩ := mem_map.mp h
  split
  · exact .inl rfl
  · rename_i hid
    exact .inr ⟨hy, hid⟩

theorem EventsStep.inv (h : EventsStep host s events) (hinv : EventsInv s.events) :
    EventsInv events := by
  cases h with
  | same => exact hinv
  | added e hseq hid hkey houtcome =>
    refine ⟨?_, ?_, ?_, ?_, ?_⟩
    · refine pairwise_append.mpr ⟨hinv.ordered, pairwise_singleton _ _, ?_⟩
      intro x hx y hy
      rw [mem_singleton.mp hy, hseq]
      exact lt_nextSequence hx
    · intro x hx
      rcases mem_append.mp hx with hx | hx
      · exact hinv.positive x hx
      · rw [mem_singleton.mp hx, hseq, nextSequence]
        omega
    · rw [map_append, map_singleton]
      refine nodup_append.mpr ⟨hinv.ids, nodup_singleton _, ?_⟩
      intro a ha b hb
      obtain ⟨x, hx, rfl⟩ := mem_map.mp ha
      rw [mem_singleton.mp hb]
      exact hid x hx
    · rw [map_append, map_singleton]
      refine nodup_append.mpr ⟨hinv.keys, nodup_singleton _, ?_⟩
      intro a ha b hb hab
      obtain ⟨x, hx, rfl⟩ := mem_map.mp ha
      rw [mem_singleton.mp hb] at hab
      exact hkey x hx (Prod.mk.inj hab)
    · intro x hx hstate
      rcases mem_append.mp hx with hx | hx
      · exact hinv.outcomes x hx hstate
      · rw [mem_singleton.mp hx, houtcome]
  | moved e e' hmem hstep =>
    have hkept : Kept e e' := hstep.kept (hinv.outcomes e hmem)
    have hsequences := map_updateEvent hinv hmem (f := EventRow.eventSequence) hkept.eventSequence
    refine ⟨?_, ?_, ?_, ?_, ?_⟩
    · rw [← pairwise_map (f := EventRow.eventSequence) (R := (· < ·)), hsequences]
      exact pairwise_map.mpr hinv.ordered
    · intro x hx
      rcases mem_updateEvent hx with rfl | ⟨hx, -⟩
      · rw [hkept.eventSequence]
        exact hinv.positive e hmem
      · exact hinv.positive x hx
    · rw [map_updateEvent hinv hmem hkept.eventId]
      exact hinv.ids
    · rw [map_updateEvent hinv hmem (by rw [hkept.receipt, hkept.operationIntent])]
      exact hinv.keys
    · intro x hx hstate
      rcases mem_updateEvent hx with rfl | ⟨hx, -⟩
      · cases hstep with
        | outcome o ho hprepared hremoved =>
          cases o with
          | prepared => rfl
          | storageRemoved => cases hstate
          | held => cases hstate
        | discharge completed hpending hnewer hne hcurrent => cases hstate
        | reassign c authorityId hpending hother => cases hstate
      · exact hinv.outcomes x hx hstate

/-- An event is still there after a call, as it was or moved. -/
theorem EventsStep.event (h : EventsStep host s events) (hinv : EventsInv s.events) {e : EventRow}
    (he : e ∈ s.events) : ∃ e' ∈ events, e' = e ∨ EventStep host s e e' := by
  cases h with
  | same => exact ⟨e, he, .inl rfl⟩
  | added a hseq hid hkey houtcome => exact ⟨e, mem_append_left _ he, .inl rfl⟩
  | moved a a' hmem hstep =>
    have hx : (if e.eventId = a.eventId then a' else e) ∈
        updateEvent s.events a.eventId fun _ => a' :=
      mem_map_of_mem (f := fun e => if e.eventId = a.eventId then a' else e) he
    by_cases hid : e.eventId = a.eventId
    · rw [if_pos hid] at hx
      obtain rfl : e = a := hinv.eq_of_id he hmem hid
      exact ⟨a', hx, .inr hstep⟩
    · rw [if_neg hid] at hx
      exact ⟨e, hx, .inl rfl⟩

/-- The events of one store are kept in another. -/
def EventsKept (events events' : List EventRow) : Prop :=
  ∀ e ∈ events, ∃ e' ∈ events', Kept e e'

end Workbay.Completion

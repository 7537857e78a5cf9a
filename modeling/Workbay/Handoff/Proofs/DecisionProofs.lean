import Workbay.Handoff.Proofs.StateProofs

/-!
# Recording decisions and test results

A recorded decision is one row for its key; a recorded test is a row of its own. A refresh of a
decision goes through only for the row that its event id is bound to, and leaves the claim as it is.
-/

namespace Workbay.Handoff

open List

variable {rules : TextRules}

theorem lt_nextId {ids : List Nat} {id : Nat} (h : id ∈ ids) : id < nextId ids := by
  rw [nextId]
  induction ids with
  | nil => cases h
  | cons i ids ih =>
    rw [foldr_cons]
    rcases mem_cons.mp h with rfl | h
    · omega
    · have hlt := ih h
      omega

theorem nextId_notMem (ids : List Nat) : nextId ids ∉ ids :=
  fun h => absurd (lt_nextId h) (Nat.lt_irrefl _)

/-- What an upsert leaves: the row of the key, and all other rows with their ids and tasks. -/
structure Upserted (decisions : List DecisionRow) (taskRef decision session : String)
    (decisions' : List DecisionRow) (id : Nat) : Prop where
  row : ∃ row ∈ decisions', row.id = id ∧ row.hasKey taskRef decision session = true
  ids : (decisions.map DecisionRow.id).Nodup → (decisions'.map DecisionRow.id).Nodup
  kept : ∀ old ∈ decisions, ∃ row ∈ decisions', row.id = old.id ∧ row.taskRef = old.taskRef

theorem upsertDecision_spec (rules : TextRules) (decisions : List DecisionRow) (new : DecisionRow)
    (refresh : Bool) (hid : new.id = nextId (decisions.map DecisionRow.id)) :
    Upserted decisions new.taskRef new.decision new.session
      (upsertDecision rules decisions new refresh).1
      (upsertDecision rules decisions new refresh).2.1 := by
  rw [upsertDecision]
  cases hfind : decisions.find? (·.hasKey new.taskRef new.decision new.session) with
  | none =>
    refine ⟨⟨{ new with decisionOrigin := new.decisionOrigin.or (rules.decisionOrigin new.decision) },
      by simp, rfl, by simp [DecisionRow.hasKey]⟩, fun hnodup => ?_, fun old hold => ?_⟩
    · rw [map_append, map_singleton]
      refine nodup_append.mpr ⟨hnodup, nodup_singleton _, fun a ha b hb heq => ?_⟩
      rw [mem_singleton.mp hb, hid] at heq
      exact nextId_notMem _ (heq ▸ ha)
    · exact ⟨old, mem_append_left _ hold, rfl, rfl⟩
  | some old =>
    have hold := mem_of_find?_eq_some hfind
    have hkey := find?_some hfind
    cases refresh with
    | false => exact ⟨⟨old, hold, rfl, hkey⟩, id, fun x hx => ⟨x, hx, rfl, rfl⟩⟩
    | true =>
      refine ⟨⟨old.refresh new, ?_, rfl, hkey⟩, fun hnodup => ?_, fun x hx => ?_⟩
      · exact mem_map.mpr ⟨old, hold, if_pos hkey⟩
      · have hids : (decisions.map fun row =>
            if row.hasKey new.taskRef new.decision new.session then row.refresh new else row).map
              DecisionRow.id = decisions.map DecisionRow.id := by
          rw [map_map]
          refine map_congr_left fun x _ => ?_
          rw [Function.comp_apply]
          split <;> rfl
        exact hids ▸ hnodup
      · refine ⟨_, mem_map_of_mem hx, ?_⟩
        split <;> exact ⟨rfl, rfl⟩

/-- A call refreshes the decision that its event id is bound to. -/
def RefreshesOwn (s : Store) (o : Outside) (c : DecisionCall) : Prop :=
  c.refreshRationaleOnConflict = true ∧ ∃ resolved existing, o.taskRef = .ok resolved ∧
    fetchProjectionEvent s.claims c.eventId = some existing ∧
    ownsDecision s.decisions existing resolved c.decision c.session = true

/-- What a call that stores a decision leaves. -/
structure DecisionStored (s : Store) (o : Outside) (c : DecisionCall) (s' : Store) (e : Envelope)
    (resolved : String) (id : Nat) : Prop where
  ok : e.ok = true
  resolves : o.taskRef = .ok resolved
  frame : s'.archives = s.archives ∧ s'.tasks = s.tasks ∧ s'.tests = s.tests ∧
    s'.traces = s.traces ∧ s'.resources = s.resources
  decisions : Upserted s.decisions resolved c.decision c.session s'.decisions id

/-- A decision is stored, and its event id bound to it; or the row is refreshed that its event id is
bound to already. -/
inductive DecisionWritten (s : Store) (o : Outside) (c : DecisionCall) (s' : Store)
    (e : Envelope) : Prop where
  | claimed (resolved : String) (id : Nat) (h : DecisionStored s o c s' e resolved id)
      (hfresh : ∀ id, normalizeEventId c.eventId = some id → ¬ Stored s.claims id)
      (hclaims : s'.claims = withClaim s.claims (normalizeEventId c.eventId) fun eventId =>
        ⟨eventId, "record_event.decision", "decisions", some id, some resolved, o.now⟩)
  | refreshed (resolved : String) (id : Nat) (h : DecisionStored s o c s' e resolved id)
      (hown : RefreshesOwn s o c) (hclaims : s'.claims = s.claims)

variable {s s' : Store} {o : Outside} {resolved : String} {c : DecisionCall} {e : Envelope}

theorem storeDecision_spec (rules : TextRules) (c : DecisionCall) (ctx : WriteContext)
    (warnings : List String) {s₁ : Store} (hresolved : o.taskRef = .ok resolved)
    (hs : ∃ claims, s₁ = { s with claims := claims }) :
    ∃ id, DecisionStored s o c (storeDecision rules s₁ o c resolved ctx warnings).1
        (storeDecision rules s₁ o c resolved ctx warnings).2 resolved id ∧
      (storeDecision rules s₁ o c resolved ctx warnings).1.claims =
        completeProjectionEvent s₁.claims c.eventId "decisions" (some id) (some resolved) ∧
      ∃ new refresh, id = (upsertDecision rules s.decisions new refresh).2.1 ∧
        new.taskRef = resolved ∧ new.decision = c.decision ∧ new.session = c.session := by
  obtain ⟨claims, rfl⟩ := hs
  have hupserted := upsertDecision_spec rules s.decisions
    (decisionRow (nextId (s.decisions.map DecisionRow.id)) resolved ctx c o.now)
    c.refreshRationaleOnConflict rfl
  exact ⟨_, ⟨rfl, hresolved, ⟨rfl, rfl, rfl, rfl, rfl⟩, hupserted⟩, rfl, _, _, rfl,
    rfl, rfl, rfl⟩

theorem complete_owned (hinv : HandoffInv s) {eventId : Option String} {existing : ClaimRow}
    {row : DecisionRow} {decision session : String}
    (hid : normalizeEventId eventId = some existing.eventId) (hmem : existing ∈ s.claims)
    (hrow : row ∈ s.decisions) (hkey : row.hasKey resolved decision session = true)
    (htable : existing.targetTable = "decisions") (htarget : existing.targetId = some row.id) :
    completeProjectionEvent s.claims eventId "decisions" (some row.id) (some resolved) =
      s.claims := by
  obtain ⟨bound, hbound, hboundId, hboundRef⟩ := hinv.bound existing hmem htable
  have hsame : bound = row := by
    refine inj_on_of_nodup_map hinv.decisions hbound hrow ?_
    rw [hboundId] at htarget
    exact Option.some.inj htarget
  have href : existing.taskRef = some resolved := by
    simp only [DecisionRow.hasKey, Bool.and_eq_true, decide_eq_true_eq] at hkey
    rw [hboundRef, hsame, hkey.1.1]
  rw [completeProjectionEvent, hid]
  refine (map_congr_left fun c hc => ?_).trans (map_id s.claims)
  by_cases heq : c.eventId = existing.eventId
  · obtain rfl := inj_on_of_nodup_map hinv.claims hc hmem heq
    rw [if_pos rfl, id, ← htable, ← htarget, Option.some_or, ← href]
  · rw [if_neg heq, id]

theorem claimDecision_spec {ctx : WriteContext} {warnings : List String} (hinv : HandoffInv s)
    (hresolved : o.taskRef = .ok resolved)
    (h : claimDecision rules s o c resolved ctx warnings = (s', e)) :
    Kept s (normalizeEventId c.eventId) s' e ∨ DecisionWritten s o c s' e := by
  rw [claimDecision] at h
  split at h
  · rename_i existing _ hclaim
    obtain ⟨hid, hmem⟩ := claimProjectionEvent_some hclaim
    have hfetch : fetchProjectionEvent s.claims c.eventId = some existing := by
      rw [← claimProjectionEvent_fst, hclaim]
    by_cases hrefresh : c.refreshRationaleOnConflict = true
    · rw [if_pos hrefresh] at h
      by_cases howns : ownsDecision s.decisions existing resolved c.decision c.session = true
      · rw [if_pos howns] at h
        obtain ⟨id, hstored, hclaims, new, refresh, hnew, href, hdec, hses⟩ :=
          storeDecision_spec rules c ctx warnings hresolved ⟨s.claims, rfl⟩
        rw [h] at hstored hclaims
        refine .inr (.refreshed resolved id hstored ⟨hrefresh, resolved, existing, hresolved,
          hfetch, howns⟩ ?_)
        rw [hclaims]
        rw [ownsDecision] at howns
        split at howns
        · rename_i row hfind
          simp only [Bool.and_eq_true, decide_eq_true_eq] at howns
          have hidRow : id = row.id := by
            rw [hnew, upsertDecision, href, hdec, hses, hfind]
            simp only
            split <;> rfl
          have hkey := find?_some hfind
          rw [hidRow]
          exact complete_owned hinv hid hmem (mem_of_find?_eq_some hfind) hkey howns.1 howns.2
        · cases howns
      · rw [if_neg howns] at h
        obtain ⟨rfl, rfl⟩ := Prod.mk.inj h
        exact .inl (.refused rfl rfl)
    · rw [if_neg hrefresh] at h
      obtain ⟨rfl, rfl⟩ := Prod.mk.inj h
      exact .inl (.replayed hid hmem rfl)
  · rename_i claims hclaim
    obtain ⟨hfresh, rfl⟩ := claimProjectionEvent_none hclaim
    obtain ⟨id, hstored, hclaims, -⟩ : ∃ id, DecisionStored s o c _ _ resolved id ∧ _ :=
      storeDecision_spec rules c ctx warnings hresolved ⟨_, rfl⟩
    rw [h] at hstored hclaims
    refine .inr (.claimed resolved id hstored hfresh ?_)
    rw [hclaims]
    exact complete_withClaim (fun _ => rfl) hfresh

theorem recordDecisionWithConn_spec (hinv : HandoffInv s)
    (h : recordDecisionWithConn rules s o c = .ok (s', e)) :
    Kept s (normalizeEventId c.eventId) s' e ∨ DecisionWritten s o c s' e := by
  simp only [recordDecisionWithConn, bind_eq_ok] at h
  obtain ⟨resolved, hresolved, h⟩ := h
  have htask : o.taskRef = .ok resolved := by
    cases href : o.taskRef with
    | error name =>
      rw [href] at hresolved
      cases hresolved
    | ok ref =>
      rw [href] at hresolved
      rw [Except.ok.inj hresolved]
  split at h
  · rename_i prior hprior
    obtain ⟨rfl, rfl⟩ := Prod.mk.inj (Except.ok.inj h)
    split at hprior
    · cases hprior
    · obtain ⟨hid, hmem⟩ := fetchProjectionEvent_eq_some hprior
      exact .inl (.replayed hid hmem rfl)
  · simp only [bind_eq_ok, pure, Except.pure, Except.ok.injEq] at h
    obtain ⟨ctx, -, warnings, -, h⟩ := h
    exact claimDecision_spec hinv htask h

theorem recordDecision_spec (hinv : HandoffInv s) (h : recordDecision rules s o c = .ok (s', e)) :
    Kept s (normalizeEventId c.eventId) s' e ∨ DecisionWritten s o c s' e := by
  rw [recordDecision] at h
  split at h
  · obtain ⟨rfl, rfl⟩ := Prod.mk.inj (Except.ok.inj h)
    exact .inl (.refused rfl rfl)
  · split at h
    · obtain ⟨rfl, rfl⟩ := Prod.mk.inj (Except.ok.inj h)
      exact .inl (.refused rfl rfl)
    · split at h
      · obtain ⟨rfl, rfl⟩ := Prod.mk.inj (Except.ok.inj h)
        exact .inl (.refused rfl rfl)
      · -- the normalised files are no part of what is said here of the call
        rcases recordDecisionWithConn_spec hinv h with hkept | hwritten
        · exact .inl hkept
        · refine .inr ?_
          cases hwritten with
          | claimed resolved id h hfresh hclaims =>
            exact .claimed resolved id ⟨h.ok, h.resolves, h.frame, h.decisions⟩ hfresh hclaims
          | refreshed resolved id h hown hclaims =>
            exact .refreshed resolved id ⟨h.ok, h.resolves, h.frame, h.decisions⟩ hown hclaims
      · exact recordDecisionWithConn_spec hinv h

/-- What a call that stores a test leaves. -/
structure TestWritten (s : Store) (o : Outside) (c : TestCall) (s' : Store) (e : Envelope) :
    Prop where
  ok : e.ok = true
  fresh : ∀ id, normalizeEventId c.eventId = some id → ¬ Stored s.claims id
  frame : s'.archives = s.archives ∧ s'.tasks = s.tasks ∧ s'.decisions = s.decisions ∧
    s'.resources = s.resources
  tests : ∃ row resolved, o.taskRef = .ok resolved ∧ s'.tests = s.tests ++ [row] ∧
    row.id ∉ s.tests.map TestRow.id ∧ row.taskRef = resolved ∧
    s'.claims = withClaim s.claims (normalizeEventId c.eventId) fun id =>
      ⟨id, "record_event.test_result", "verified_tests", some row.id, some resolved, o.now⟩

theorem recordTestResult_spec {c : TestCall} (h : recordTestResult rules s o c = .ok (s', e)) :
    Kept s (normalizeEventId c.eventId) s' e ∨ TestWritten s o c s' e := by
  simp only [recordTestResult, bind_eq_ok] at h
  obtain ⟨resolved, hresolved, h⟩ := h
  have htask : o.taskRef = .ok resolved := by
    cases href : o.taskRef with
    | error name =>
      rw [href] at hresolved
      cases hresolved
    | ok ref =>
      rw [href] at hresolved
      rw [Except.ok.inj hresolved]
  split at h
  · rename_i prior hprior
    obtain ⟨rfl, rfl⟩ := Prod.mk.inj (Except.ok.inj h)
    obtain ⟨hid, hmem⟩ := fetchProjectionEvent_eq_some hprior
    exact .inl (.replayed hid hmem rfl)
  · simp only [bind_eq_ok, pure, Except.pure, Except.ok.injEq] at h
    obtain ⟨ctx, -, warnings, -, h⟩ := h
    rw [claimTest] at h
    split at h
    · rename_i existing _ hclaim
      obtain ⟨hid, hmem⟩ := claimProjectionEvent_some hclaim
      obtain ⟨rfl, rfl⟩ := Prod.mk.inj h
      exact .inl (.replayed hid hmem rfl)
    · rename_i claims hclaim
      obtain ⟨hfresh, rfl⟩ := claimProjectionEvent_none hclaim
      obtain ⟨rfl, rfl⟩ := Prod.mk.inj h
      refine .inr ⟨rfl, hfresh, ⟨rfl, rfl, rfl, rfl⟩, _, resolved, htask, rfl, ?_, rfl, ?_⟩
      · exact nextId_notMem _
      · exact complete_withClaim (fun _ => rfl) hfresh

end Workbay.Handoff

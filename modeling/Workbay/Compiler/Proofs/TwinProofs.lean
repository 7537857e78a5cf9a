import Workbay.Compiler.Proofs.BackendProofs

/-!
# Proofs: the emission of verify twins

What a state of the emission knows of every twin: the lane that it reviews, its reviewer and its
blocker. One candidate, one lane and the shared gate each keep it.
-/

namespace Workbay.Compiler

open Workbay.Manifest List Dict

theorem isVerifyTwin_twinId (laneId family : String) : isVerifyTwin (twinId laneId family) = true := by
  unfold isVerifyTwin containsText twinId
  rw [decide_eq_true_eq, String.toList_append, String.toList_append]
  exact ⟨laneId.toList, family.toList, rfl⟩

theorem isVerifyTwin_sharedGateId : isVerifyTwin sharedGateId = true :=
  isVerifyTwin_twinId "wave_uncovered" "no_reviewer"

theorem pendingBlocker_inj {twin twin' laneId laneId' : String}
    (h : pendingBlocker twin laneId = pendingBlocker twin' laneId') :
    twin = twin' ∧ laneId = laneId' := by
  simp only [pendingBlocker, Blocker.mk.injEq, Message.mk.injEq, List.cons.injEq, Arg.text.injEq,
    and_true, true_and] at h
  exact ⟨h.1, h.2.2⟩

theorem noReviewerHold_inj {laneId laneId' : String}
    (h : noReviewerHold laneId = noReviewerHold laneId') : laneId = laneId' := by
  simp only [noReviewerHold, Blocker.mk.injEq, Option.some.injEq] at h
  exact h.2.1

theorem pendingBlocker_ne_noReviewerHold (twin laneId laneId' : String) :
    pendingBlocker twin laneId ≠ noReviewerHold laneId' := by
  intro h
  simp only [pendingBlocker, noReviewerHold, Blocker.mk.injEq, reduceCtorEq, false_and,
    and_false] at h

theorem unknownBackendHold_ne_noReviewerHold (laneId backend laneId' : String) :
    unknownBackendHold laneId backend ≠ noReviewerHold laneId' := by
  intro h
  simp only [unknownBackendHold, noReviewerHold, Blocker.mk.injEq, reduceCtorEq, false_and,
    and_false] at h

theorem unknownBackendHold_ne_pendingBlocker (laneId backend twin laneId' : String) :
    unknownBackendHold laneId backend ≠ pendingBlocker twin laneId' := by
  intro h
  simp only [unknownBackendHold, pendingBlocker, Blocker.mk.injEq, reduceCtorEq, false_and,
    and_false] at h

section

variable {registry : Registry} {work : List String} {lanes₀ : Dict String Fields}
  {dependsOn₀ : Dict String (List String)}

/-- The backend that an implement lane prefers. -/
def implBackend (lanes₀ : Dict String Fields) (laneId : String) : String :=
  preferredBackend (lanes₀.getD laneId [])

/-- A row to provision is the twin of an implement lane. -/
structure TwinOf (registry : Registry) (work : List String) (lanes₀ : Dict String Fields)
    (state : Emission) (row : Provision) (laneId : String) : Prop where
  work : laneId ∈ work
  named : isVerifyTwin row.laneId = true
  lane : ∃ lane, state.lanes.get? row.laneId = some lane ∧
    preferredBackend lane = row.preferredBackend ∧
    lane.get? "owned_paths" = some (.arr [])
  depends : state.dependsOn.get? row.laneId = some [laneId]
  pending : pendingBlocker row.laneId laneId ∈ state.blockers
  listed : row.laneId ∈ state.twinsByParent.getD laneId []
  reviewer : ∃ spec, Reviewer registry (implBackend lanes₀ laneId) row.preferredBackend spec

/-- What a later state keeps of an earlier one. -/
structure Extends (state state' : Emission) : Prop where
  lanes : ∀ x, (state.lanes.get? x).isSome →
    state'.lanes.get? x = state.lanes.get? x
  dependsOn : ∀ x, (state.lanes.get? x).isSome →
    state'.dependsOn.get? x = state.dependsOn.get? x
  provisioning : state.provisioning ⊆ state'.provisioning
  blockers : state.blockers ⊆ state'.blockers
  twins : ∀ laneId,
    state.twinsByParent.getD laneId [] ⊆ state'.twinsByParent.getD laneId []

variable {state' : Emission} {laneId backend taskRef : String}

variable {state : Emission} {row : Provision}

theorem TwinOf.mono (hext : Extends state state') (h : TwinOf registry work lanes₀ state row laneId) :
    TwinOf registry work lanes₀ state' row laneId := by
  obtain ⟨lane, hlane, hbackend⟩ := h.lane
  have hsome : (state.lanes.get? row.laneId).isSome := by rw [hlane]; rfl
  exact
    { work := h.work
      named := h.named
      lane := ⟨lane, (hext.lanes _ hsome).trans hlane, hbackend⟩
      depends := (hext.dependsOn _ hsome).trans h.depends
      pending := hext.blockers h.pending
      listed := hext.twins laneId h.listed
      reviewer := h.reviewer }

/-- What a state of the emission is made of. -/
structure Emitting (registry : Registry) (work : List String) (lanes₀ : Dict String Fields)
    (dependsOn₀ : Dict String (List String)) (state : Emission) : Prop where
  lanesWork : ∀ x ∈ work, state.lanes.get? x = lanes₀.get? x
  dependsOnWork : ∀ x ∈ work, state.dependsOn.get? x = dependsOn₀.get? x
  laneKeys : ∀ x, (state.lanes.get? x).isSome →
    x ∈ work ∨ ∃ row ∈ state.provisioning, row.laneId = x
  dependsOnKeys : ∀ x, (state.dependsOn.get? x).isSome →
    x ∈ work ∨ ∃ row ∈ state.provisioning, row.laneId = x
  lanesNodup : (state.lanes.map Prod.fst).Nodup
  dependsOnNodup : (state.dependsOn.map Prod.fst).Nodup
  rows : ∀ row ∈ state.provisioning, ∃ laneId, TwinOf registry work lanes₀ state row laneId
  blockers : ∀ blocker ∈ state.blockers,
    (∃ row ∈ state.provisioning, ∃ laneId, TwinOf registry work lanes₀ state row laneId ∧
      blocker = pendingBlocker row.laneId laneId) ∨
    ∃ laneId ∈ work, registry.get? (implBackend lanes₀ laneId) = none ∧
      blocker = unknownBackendHold laneId (implBackend lanes₀ laneId)
  listed : ∀ laneId, ∀ twin ∈ state.twinsByParent.getD laneId [],
    ∃ row ∈ state.provisioning, row.laneId = twin ∧ TwinOf registry work lanes₀ state row laneId

theorem addTwin_extends (taskRef laneId backend : String) (spec : BackendSpec)
    (hfresh : state.lanes.get? (twinId laneId spec.modelFamily) = none) :
    Extends state (addTwin taskRef laneId backend spec state) := by
  have hne : ∀ x, (state.lanes.get? x).isSome → x ≠ twinId laneId spec.modelFamily := by
    rintro x hx rfl
    rw [hfresh] at hx
    cases hx
  constructor
  · exact fun x hx => get?_set_of_ne _ _ (hne x hx)
  · exact fun x hx => get?_set_of_ne _ _ (hne x hx)
  · exact subset_append_left _ _
  · exact subset_append_left _ _
  · intro other
    unfold addTwin
    simp only
    by_cases heq : other = laneId
    · subst heq
      rw [getD_set_self]
      exact subset_append_left _ _
    · rw [getD_set_of_ne _ _ _ heq]
      exact List.Subset.refl _

theorem preferredBackend_twinLane (branch worktreePath backend title objective : String) :
    preferredBackend (twinLane branch worktreePath backend title objective) = backend := by
  simp [preferredBackend, twinLane, get?_cons, Json.str?]

theorem addTwin_emitting (taskRef : String) {spec : BackendSpec} (hlane : laneId ∈ work)
    (hwork : ∀ x ∈ work, isVerifyTwin x = false)
    (hreviewer : Reviewer registry (implBackend lanes₀ laneId) backend spec)
    (hfresh : state.lanes.get? (twinId laneId spec.modelFamily) = none)
    (h : Emitting registry work lanes₀ dependsOn₀ state) :
    Emitting registry work lanes₀ dependsOn₀ (addTwin taskRef laneId backend spec state) := by
  have hext := addTwin_extends taskRef laneId backend spec hfresh
  have hne : ∀ x ∈ work, x ≠ twinId laneId spec.modelFamily := by
    rintro x hx rfl
    have hnot := hwork _ hx
    rw [isVerifyTwin_twinId] at hnot
    cases hnot
  obtain ⟨row, hrow, hprovisioning⟩ : ∃ row : Provision,
      (row.laneId = twinId laneId spec.modelFamily ∧ row.preferredBackend = backend) ∧
      (addTwin taskRef laneId backend spec state).provisioning = state.provisioning ++ [row] :=
    ⟨_, ⟨rfl, rfl⟩, rfl⟩
  obtain ⟨lane, hset, hbackend⟩ : ∃ lane : Fields,
      (addTwin taskRef laneId backend spec state).lanes =
        state.lanes.set (twinId laneId spec.modelFamily) lane ∧
      preferredBackend lane = backend ∧ lane.get? "owned_paths" = some (.arr []) :=
    ⟨_, rfl, preferredBackend_twinLane _ _ _ _ _, by simp [twinLane, get?_cons]⟩
  have hdepends : (addTwin taskRef laneId backend spec state).dependsOn =
      state.dependsOn.set (twinId laneId spec.modelFamily) [laneId] := rfl
  have hblockers : (addTwin taskRef laneId backend spec state).blockers =
      state.blockers ++ [pendingBlocker (twinId laneId spec.modelFamily) laneId] := rfl
  have htwins : (addTwin taskRef laneId backend spec state).twinsByParent =
      state.twinsByParent.set laneId
        (state.twinsByParent.getD laneId [] ++ [twinId laneId spec.modelFamily]) := rfl
  -- the new row
  have hnew : TwinOf registry work lanes₀ (addTwin taskRef laneId backend spec state) row laneId := by
    constructor
    · exact hlane
    · rw [hrow.1, isVerifyTwin_twinId]
    · rw [hrow.1, hrow.2, hset, get?_set_self]
      exact ⟨lane, rfl, hbackend⟩
    · rw [hrow.1, hdepends, get?_set_self]
    · rw [hrow.1, hblockers]
      exact mem_append_right _ (mem_singleton_self _)
    · rw [hrow.1, htwins, getD_set_self]
      exact mem_append_right _ (mem_singleton_self _)
    · rw [hrow.2]
      exact ⟨spec, hreviewer⟩
  have hkeys : ∀ x, x = twinId laneId spec.modelFamily ∨
      (x ∈ work ∨ ∃ row ∈ state.provisioning, row.laneId = x) →
      x ∈ work ∨ ∃ row ∈ (addTwin taskRef laneId backend spec state).provisioning,
        row.laneId = x := by
    rintro x (rfl | hx | ⟨old, hold, heq⟩)
    · rw [hprovisioning]
      exact .inr ⟨row, mem_append_right _ (mem_singleton_self _), hrow.1⟩
    · exact .inl hx
    · exact .inr ⟨old, hext.provisioning hold, heq⟩
  constructor
  · intro x hx
    rw [hset, get?_set_of_ne _ _ (hne x hx)]
    exact h.lanesWork x hx
  · intro x hx
    rw [hdepends, get?_set_of_ne _ _ (hne x hx)]
    exact h.dependsOnWork x hx
  · intro x hx
    refine hkeys x ?_
    by_cases heq : x = twinId laneId spec.modelFamily
    · exact .inl heq
    · rw [hset, get?_set_of_ne _ _ heq] at hx
      exact .inr (h.laneKeys x hx)
  · intro x hx
    refine hkeys x ?_
    by_cases heq : x = twinId laneId spec.modelFamily
    · exact .inl heq
    · rw [hdepends, get?_set_of_ne _ _ heq] at hx
      exact .inr (h.dependsOnKeys x hx)
  · rw [hset]
    exact nodup_set h.lanesNodup _ _
  · rw [hdepends]
    exact nodup_set h.dependsOnNodup _ _
  · intro old hold
    rw [hprovisioning] at hold
    rcases mem_append.mp hold with hold | hold
    · obtain ⟨other, htwin⟩ := h.rows old hold
      exact ⟨other, htwin.mono hext⟩
    · obtain rfl := mem_singleton.mp hold
      exact ⟨laneId, hnew⟩
  · intro blocker hblocker
    rw [hblockers] at hblocker
    rcases mem_append.mp hblocker with hblocker | hblocker
    · refine (h.blockers blocker hblocker).imp_left ?_
      rintro ⟨old, hold, other, htwin, rfl⟩
      exact ⟨old, hext.provisioning hold, other, htwin.mono hext, rfl⟩
    · obtain rfl := mem_singleton.mp hblocker
      refine .inl ⟨row, ?_, laneId, hnew, by rw [hrow.1]⟩
      rw [hprovisioning]
      exact mem_append_right _ (mem_singleton_self _)
  · intro other twin htwin
    have hold : twin ∈ state.twinsByParent.getD other [] ∨
        (other = laneId ∧ twin = twinId laneId spec.modelFamily) := by
      rw [htwins] at htwin
      by_cases heq : other = laneId
      · subst heq
        rw [getD_set_self] at htwin
        rcases mem_append.mp htwin with htwin | htwin
        · exact .inl htwin
        · exact .inr ⟨rfl, mem_singleton.mp htwin⟩
      · rw [getD_set_of_ne _ _ _ heq] at htwin
        exact .inl htwin
    rcases hold with hold | ⟨rfl, rfl⟩
    · obtain ⟨old, hin, heq, htwin⟩ := h.listed other twin hold
      exact ⟨old, hext.provisioning hin, heq, htwin.mono hext⟩
    · refine ⟨row, ?_, hrow.1, hnew⟩
      rw [hprovisioning]
      exact mem_append_right _ (mem_singleton_self _)

theorem emitCandidate_emitting {chosenLocal : Option String} (hlane : laneId ∈ work)
    (hwork : ∀ x ∈ work, isVerifyTwin x = false)
    (hbackend : backend ∈ selectReviewBackends registry (implBackend lanes₀ laneId))
    (h : Emitting registry work lanes₀ dependsOn₀ state)
    (hemit : emitCandidate registry taskRef laneId chosenLocal state backend = .ok state') :
    Emitting registry work lanes₀ dependsOn₀ state' := by
  obtain ⟨spec, hreviewer⟩ := mem_selectReviewBackends hbackend
  unfold emitCandidate at hemit
  rw [hreviewer.registered] at hemit
  simp only at hemit
  split at hemit
  · obtain rfl := Except.ok.inj hemit
    exact h
  split at hemit
  · cases hemit
  · rename_i hfresh
    obtain rfl := Except.ok.inj hemit
    exact addTwin_emitting taskRef hlane hwork hreviewer (Option.not_isSome_iff_eq_none.mp hfresh) h

theorem noteBackend_extends (laneId : String) (state : Emission) :
    Extends state (noteBackend registry laneId state) := by
  unfold noteBackend
  simp only
  split
  · exact ⟨fun _ _ => rfl, fun _ _ => rfl, List.Subset.refl _, List.Subset.refl _,
      fun _ => List.Subset.refl _⟩
  split
  · exact ⟨fun _ _ => rfl, fun _ _ => rfl, List.Subset.refl _, List.Subset.refl _,
      fun _ => List.Subset.refl _⟩
  · exact ⟨fun _ _ => rfl, fun _ _ => rfl, List.Subset.refl _, subset_append_left _ _,
      fun _ => List.Subset.refl _⟩

theorem noteBackend_cases (laneId : String) (state : Emission) :
    (noteBackend registry laneId state).lanes = state.lanes ∧
    (noteBackend registry laneId state).dependsOn = state.dependsOn ∧
    (noteBackend registry laneId state).provisioning = state.provisioning ∧
    (noteBackend registry laneId state).twinsByParent = state.twinsByParent ∧
    (noteBackend registry laneId state).blockers = state.blockers ++
      if implBackend state.lanes laneId ≠ "" ∧
          registry.get? (implBackend state.lanes laneId) = none then
        [unknownBackendHold laneId (implBackend state.lanes laneId)]
      else [] := by
  unfold noteBackend implBackend
  simp only
  by_cases hname : preferredBackend (state.lanes.getD laneId []) = ""
  · simp [hname]
  · cases hget : registry.get? (preferredBackend (state.lanes.getD laneId [])) with
    | none => simp [hname, hget]
    | some spec => simp [hname, hget]

theorem noteBackend_emitting (hlane : laneId ∈ work)
    (h : Emitting registry work lanes₀ dependsOn₀ state) :
    Emitting registry work lanes₀ dependsOn₀ (noteBackend registry laneId state) := by
  have hext := @noteBackend_extends registry laneId state
  obtain ⟨hlanes, hdepends, hprovisioning, htwins, hblockers⟩ :=
    @noteBackend_cases registry laneId state
  have hbackend : implBackend state.lanes laneId = implBackend lanes₀ laneId := by
    unfold implBackend Dict.getD
    rw [h.lanesWork laneId hlane]
  rw [hbackend] at hblockers
  constructor
  · rw [hlanes]
    exact h.lanesWork
  · rw [hdepends]
    exact h.dependsOnWork
  · rw [hlanes, hprovisioning]
    exact h.laneKeys
  · rw [hdepends, hprovisioning]
    exact h.dependsOnKeys
  · rw [hlanes]
    exact h.lanesNodup
  · rw [hdepends]
    exact h.dependsOnNodup
  · rw [hprovisioning]
    intro row hrow
    obtain ⟨other, htwin⟩ := h.rows row hrow
    exact ⟨other, htwin.mono hext⟩
  · intro blocker hblocker
    rw [hblockers] at hblocker
    rw [hprovisioning]
    rcases mem_append.mp hblocker with hblocker | hblocker
    · refine (h.blockers blocker hblocker).imp_left ?_
      rintro ⟨row, hrow, other, htwin, rfl⟩
      exact ⟨row, hrow, other, htwin.mono hext, rfl⟩
    · split at hblocker
      · rename_i hunknown
        exact .inr ⟨laneId, hlane, hunknown.2, mem_singleton.mp hblocker⟩
      · cases hblocker
  · rw [htwins, hprovisioning]
    intro other twin htwin
    obtain ⟨row, hrow, heq, htwin⟩ := h.listed other twin htwin
    exact ⟨row, hrow, heq, htwin.mono hext⟩

theorem emitLane_emitting {caps : Caps} (hlane : laneId ∈ work)
    (hwork : ∀ x ∈ work, isVerifyTwin x = false)
    (h : Emitting registry work lanes₀ dependsOn₀ state)
    (hemit : emitLane registry caps taskRef state laneId = .ok state') :
    Emitting registry work lanes₀ dependsOn₀ state' := by
  have hbackend : preferredBackend (state.lanes.getD laneId []) =
      implBackend lanes₀ laneId := by
    unfold implBackend Dict.getD
    rw [h.lanesWork laneId hlane]
  unfold emitLane at hemit
  rw [hbackend] at hemit
  refine foldlM_induct (fun _ state => Emitting registry work lanes₀ dependsOn₀ state) ?_
    (noteBackend_emitting hlane h) hemit
  intro seen backend rest s s' hsplit hs hstep
  refine emitCandidate_emitting hlane hwork ?_ hs hstep
  rw [hsplit]
  exact mem_append_right _ mem_cons_self

theorem emitting_start (hlanes : ∀ x, (lanes₀.get? x).isSome → x ∈ work)
    (hdepends : ∀ x, (dependsOn₀.get? x).isSome → x ∈ work)
    (hlanesNodup : (lanes₀.map Prod.fst).Nodup) (hdependsNodup : (dependsOn₀.map Prod.fst).Nodup) :
    Emitting registry work lanes₀ dependsOn₀ { lanes := lanes₀, dependsOn := dependsOn₀ } where
  lanesWork _ _ := rfl
  dependsOnWork _ _ := rfl
  laneKeys x hx := .inl (hlanes x hx)
  dependsOnKeys x hx := .inl (hdepends x hx)
  lanesNodup := hlanesNodup
  dependsOnNodup := hdependsNodup
  rows := by simp
  blockers := by simp
  listed := by simp [Dict.getD]

/-- A lane that verifies reviews an implement lane: its blocker says so, or it is the shared gate and
the lane is held on it. -/
def Reviews (blockers : List Blocker) (twin laneId : String) : Prop :=
  pendingBlocker twin laneId ∈ blockers ∨ (twin = sharedGateId ∧ noReviewerHold laneId ∈ blockers)

/-- A row to provision waits for the lanes that it reviews, and may review them. -/
structure Provisioned (registry : Registry) (work : List String) (lanes₀ : Dict String Fields)
    (state : Emission) (row : Provision) : Prop where
  named : isVerifyTwin row.laneId = true
  lane : ∃ lane, state.lanes.get? row.laneId = some lane ∧
    preferredBackend lane = row.preferredBackend ∧
    lane.get? "owned_paths" = some (.arr [])
  depends : ∃ prereqs, state.dependsOn.get? row.laneId = some prereqs ∧ prereqs ≠ [] ∧
    ∀ laneId, laneId ∈ prereqs ↔ Reviews state.blockers row.laneId laneId
  reviewer : ∀ laneId, Reviews state.blockers row.laneId laneId → laneId ∈ work ∧
    ∃ spec, Reviewer registry (implBackend lanes₀ laneId) row.preferredBackend spec

/-- An implement lane has a twin, or is held for one of two reasons. -/
def Covered (registry : Registry) (lanes₀ : Dict String Fields) (blockers : List Blocker)
    (laneId : String) : Prop :=
  (∃ twin, pendingBlocker twin laneId ∈ blockers) ∨ noReviewerHold laneId ∈ blockers ∨
    (registry.get? (implBackend lanes₀ laneId) = none ∧
      unknownBackendHold laneId (implBackend lanes₀ laneId) ∈ blockers)

/-- What the emission ends with, before the dependents are rerouted. -/
structure Emitted (registry : Registry) (work : List String) (lanes₀ : Dict String Fields)
    (dependsOn₀ : Dict String (List String)) (state : Emission) : Prop where
  lanesWork : ∀ x ∈ work, state.lanes.get? x = lanes₀.get? x
  dependsOnWork : ∀ x ∈ work, state.dependsOn.get? x = dependsOn₀.get? x
  laneKeys : ∀ x, (state.lanes.get? x).isSome →
    x ∈ work ∨ ∃ row ∈ state.provisioning, row.laneId = x
  dependsOnKeys : ∀ x, (state.dependsOn.get? x).isSome →
    x ∈ work ∨ ∃ row ∈ state.provisioning, row.laneId = x
  lanesNodup : (state.lanes.map Prod.fst).Nodup
  dependsOnNodup : (state.dependsOn.map Prod.fst).Nodup
  rows : ∀ row ∈ state.provisioning, Provisioned registry work lanes₀ state row
  pending : ∀ twin laneId, pendingBlocker twin laneId ∈ state.blockers →
    twin ∈ state.twinsByParent.getD laneId [] ∧ ∃ row ∈ state.provisioning, row.laneId = twin
  listed : ∀ laneId, ∀ twin ∈ state.twinsByParent.getD laneId [], isVerifyTwin twin = true
  covered : ∀ laneId ∈ work, Covered registry lanes₀ state.blockers laneId

section

variable (h : Emitting registry work lanes₀ dependsOn₀ state)

include h

theorem Emitting.twinOf_of_pending {twin : String}
    (hin : pendingBlocker twin laneId ∈ state.blockers) :
    ∃ row ∈ state.provisioning, row.laneId = twin ∧
      TwinOf registry work lanes₀ state row laneId := by
  rcases h.blockers _ hin with ⟨row, hrow, other, htwin, heq⟩ | ⟨other, -, -, heq⟩
  · obtain ⟨rfl, rfl⟩ := pendingBlocker_inj heq
    exact ⟨row, hrow, rfl, htwin⟩
  · exact absurd heq.symm (unknownBackendHold_ne_pendingBlocker _ _ _ _)

theorem Emitting.noReviewerHold_notMem (laneId : String) :
    noReviewerHold laneId ∉ state.blockers := by
  intro hin
  rcases h.blockers _ hin with ⟨row, -, other, -, heq⟩ | ⟨other, -, -, heq⟩
  · exact pendingBlocker_ne_noReviewerHold _ _ _ heq.symm
  · exact unknownBackendHold_ne_noReviewerHold _ _ _ heq.symm

theorem TwinOf.reviews_iff (htwin : TwinOf registry work lanes₀ state row laneId)
    (hblockers : ∀ twin other, pendingBlocker twin other ∈ state'.blockers ↔
      pendingBlocker twin other ∈ state.blockers)
    (hgate : row.laneId ≠ sharedGateId ∨ ∀ other, noReviewerHold other ∉ state'.blockers)
    {other : String} : Reviews state'.blockers row.laneId other ↔ other = laneId := by
  unfold Reviews
  rw [hblockers]
  constructor
  · rintro (hpending | ⟨heq, hhold⟩)
    · obtain ⟨row', -, heq, htwin'⟩ := h.twinOf_of_pending hpending
      have hdepends := htwin'.depends
      rw [heq, htwin.depends] at hdepends
      simpa using hdepends.symm
    · exact (hgate.elim (absurd heq) fun hnot => absurd hhold (hnot other))
  · rintro rfl
    exact .inl htwin.pending

theorem TwinOf.provisioned (htwin : TwinOf registry work lanes₀ state row laneId)
    (hext : Extends state state')
    (hblockers : ∀ twin other, pendingBlocker twin other ∈ state'.blockers ↔
      pendingBlocker twin other ∈ state.blockers)
    (hgate : row.laneId ≠ sharedGateId ∨ ∀ other, noReviewerHold other ∉ state'.blockers) :
    Provisioned registry work lanes₀ state' row := by
  have hreviews : ∀ other, Reviews state'.blockers row.laneId other ↔ other = laneId :=
    fun _ => htwin.reviews_iff h hblockers hgate
  have hlater := htwin.mono hext
  exact
    { named := hlater.named
      lane := hlater.lane
      depends := ⟨[laneId], hlater.depends, cons_ne_nil _ _, fun other => by
        rw [hreviews, mem_singleton]⟩
      reviewer := fun other hother => by
        obtain rfl := (hreviews other).mp hother
        exact ⟨hlater.work, hlater.reviewer⟩ }

theorem Emitting.covered_or (hlane : laneId ∈ work) :
    Covered registry lanes₀ state.blockers laneId ∨ laneId ∈ uncoveredForHold work state := by
  by_cases hnone : state.twinsByParent.getD laneId [] = []
  · by_cases hheld : ∃ blocker ∈ state.blockers, blocker.laneId = some laneId
    · obtain ⟨blocker, hin, heq⟩ := hheld
      rcases h.blockers blocker hin with ⟨row, -, other, -, rfl⟩ | ⟨other, -, hunknown, rfl⟩
      · cases heq
      · obtain rfl := Option.some.inj heq
        exact .inl (.inr (.inr ⟨hunknown, hin⟩))
    · refine .inr (mem_filter.mpr ⟨mem_filter.mpr ⟨?_, by simp [hnone]⟩, ?_⟩)
      · exact (mem_insertionSort _).mpr hlane
      · rw [all_eq_true]
        intro blocker hin
        exact decide_eq_true fun heq => hheld ⟨blocker, hin, heq⟩
  · obtain ⟨twin, htwin⟩ := exists_mem_of_ne_nil _ hnone
    obtain ⟨row, -, -, hof⟩ := h.listed laneId twin htwin
    exact .inl (.inl ⟨row.laneId, hof.pending⟩)

theorem Emitting.emitted (hnone : uncoveredForHold work state = []) (diagnostics : List Message) :
    Emitted registry work lanes₀ dependsOn₀ { state with diagnostics } where
  lanesWork := h.lanesWork
  dependsOnWork := h.dependsOnWork
  laneKeys := h.laneKeys
  dependsOnKeys := h.dependsOnKeys
  lanesNodup := h.lanesNodup
  dependsOnNodup := h.dependsOnNodup
  rows row hrow := by
    obtain ⟨laneId, htwin⟩ := h.rows row hrow
    exact htwin.provisioned h
      ⟨fun _ _ => rfl, fun _ _ => rfl, List.Subset.refl _, List.Subset.refl _,
        fun _ => List.Subset.refl _⟩
      (fun _ _ => Iff.rfl) (.inr h.noReviewerHold_notMem)
  pending twin laneId hin := by
    obtain ⟨row, hrow, rfl, htwin⟩ := h.twinOf_of_pending hin
    exact ⟨htwin.listed, row, hrow, rfl⟩
  listed laneId twin hin := by
    obtain ⟨row, -, rfl, htwin⟩ := h.listed laneId twin hin
    exact htwin.named
  covered laneId hlane := by
    refine (h.covered_or hlane).resolve_right ?_
    rw [hnone]
    exact not_mem_nil

end

theorem addSharedGate_extends (taskRef backend : String) (uncovered : List String)
    (hfresh : state.lanes.get? sharedGateId = none) (diagnostics : List Message) :
    Extends state (addSharedGate taskRef backend uncovered { state with diagnostics }) := by
  have hne : ∀ x, (state.lanes.get? x).isSome → x ≠ sharedGateId := by
    rintro x hx rfl
    rw [hfresh] at hx
    cases hx
  constructor
  · exact fun x hx => get?_set_of_ne _ _ (hne x hx)
  · exact fun x hx => get?_set_of_ne _ _ (hne x hx)
  · exact subset_append_left _ _
  · exact subset_append_left _ _
  · exact fun _ => List.Subset.refl _

theorem addSharedGate_emitted {spec : BackendSpec} (hwork : ∀ x ∈ work, isVerifyTwin x = false)
    (h : Emitting registry work lanes₀ dependsOn₀ state) (hsome : uncoveredForHold work state ≠ [])
    (hfresh : state.lanes.get? sharedGateId = none)
    (hreviewer : ∀ laneId ∈ uncoveredForHold work state,
      Reviewer registry (implBackend lanes₀ laneId) backend spec) (diagnostics : List Message) :
    Emitted registry work lanes₀ dependsOn₀
      (addSharedGate taskRef backend (uncoveredForHold work state) { state with diagnostics }) := by
  obtain ⟨gated, hgated⟩ : ∃ gated, gated = addSharedGate taskRef backend
    (uncoveredForHold work state) { state with diagnostics } := ⟨_, rfl⟩
  rw [← hgated]
  obtain ⟨row, hrow, hprovisioning⟩ : ∃ row : Provision,
      (row.laneId = sharedGateId ∧ row.preferredBackend = backend) ∧
        gated.provisioning = state.provisioning ++ [row] := by
    rw [hgated]
    exact ⟨_, ⟨rfl, rfl⟩, rfl⟩
  obtain ⟨lane, hset, hlane⟩ : ∃ lane : Fields,
      gated.lanes = state.lanes.set sharedGateId lane ∧ preferredBackend lane = backend ∧
        lane.get? "owned_paths" = some (.arr []) := by
    rw [hgated]
    exact ⟨_, rfl, preferredBackend_twinLane _ _ _ _ _, by simp [twinLane, get?_cons]⟩
  have hdepends : gated.dependsOn = state.dependsOn.set sharedGateId
      ((uncoveredForHold work state).insertionSort (· ≤ ·)) := by
    rw [hgated]
    rfl
  have hblockers : gated.blockers =
      state.blockers ++ (uncoveredForHold work state).map noReviewerHold := by
    rw [hgated]
    rfl
  have htwins : gated.twinsByParent = state.twinsByParent := by
    rw [hgated]
    rfl
  have hext : Extends state gated := by
    rw [hgated]
    exact addSharedGate_extends taskRef backend _ hfresh _
  clear hgated
  have hneGate : ∀ x, (state.lanes.get? x).isSome → x ≠ sharedGateId := by
    rintro x hx rfl
    rw [hfresh] at hx
    cases hx
  have hneWork : ∀ x ∈ work, x ≠ sharedGateId := by
    rintro x hx rfl
    have hnot := hwork _ hx
    rw [isVerifyTwin_sharedGateId] at hnot
    cases hnot
  have hpending : ∀ twin other, pendingBlocker twin other ∈ gated.blockers ↔
      pendingBlocker twin other ∈ state.blockers := by
    intro twin other
    rw [hblockers, mem_append]
    refine or_iff_left fun hin => ?_
    obtain ⟨laneId, -, heq⟩ := mem_map.mp hin
    exact pendingBlocker_ne_noReviewerHold _ _ _ heq.symm
  have hhold : ∀ laneId, noReviewerHold laneId ∈ gated.blockers ↔
      laneId ∈ uncoveredForHold work state := by
    intro laneId
    rw [hblockers, mem_append, or_iff_right (h.noReviewerHold_notMem laneId), mem_map]
    constructor
    · rintro ⟨other, hin, heq⟩
      exact noReviewerHold_inj heq ▸ hin
    · exact fun hin => ⟨laneId, hin, rfl⟩
  have hgate : ∀ laneId, Reviews gated.blockers sharedGateId laneId ↔
      laneId ∈ uncoveredForHold work state := by
    intro laneId
    unfold Reviews
    rw [hpending, hhold, eq_self, true_and]
    refine or_iff_right fun hin => ?_
    obtain ⟨other, -, heq, htwin⟩ := h.twinOf_of_pending hin
    obtain ⟨old, hold, -⟩ := htwin.lane
    rw [heq, hfresh] at hold
    cases hold
  have huncovered : ∀ laneId ∈ uncoveredForHold work state, laneId ∈ work := fun laneId hin =>
    (mem_insertionSort _).mp (mem_of_mem_filter (mem_of_mem_filter hin))
  have hkeys : ∀ x, x = sharedGateId ∨
      (x ∈ work ∨ ∃ row ∈ state.provisioning, row.laneId = x) →
      x ∈ work ∨ ∃ row ∈ gated.provisioning, row.laneId = x := by
    rintro x (rfl | hx | ⟨old, hold, heq⟩)
    · rw [hprovisioning]
      exact .inr ⟨row, mem_append_right _ (mem_singleton_self _), hrow.1⟩
    · exact .inl hx
    · exact .inr ⟨old, hext.provisioning hold, heq⟩
  constructor
  · intro x hx
    rw [hset, get?_set_of_ne _ _ (hneWork x hx)]
    exact h.lanesWork x hx
  · intro x hx
    rw [hdepends, get?_set_of_ne _ _ (hneWork x hx)]
    exact h.dependsOnWork x hx
  · intro x hx
    refine hkeys x ?_
    by_cases heq : x = sharedGateId
    · exact .inl heq
    · rw [hset, get?_set_of_ne _ _ heq] at hx
      exact .inr (h.laneKeys x hx)
  · intro x hx
    refine hkeys x ?_
    by_cases heq : x = sharedGateId
    · exact .inl heq
    · rw [hdepends, get?_set_of_ne _ _ heq] at hx
      exact .inr (h.dependsOnKeys x hx)
  · rw [hset]
    exact nodup_set h.lanesNodup _ _
  · rw [hdepends]
    exact nodup_set h.dependsOnNodup _ _
  · intro other hother
    rw [hprovisioning] at hother
    rcases mem_append.mp hother with hother | hother
    · obtain ⟨laneId, htwin⟩ := h.rows other hother
      obtain ⟨old, hold, -⟩ := htwin.lane
      exact htwin.provisioned h hext hpending (.inl (hneGate _ (by rw [hold]; rfl)))
    · obtain rfl := mem_singleton.mp hother
      constructor
      · rw [hrow.1, isVerifyTwin_sharedGateId]
      · rw [hrow.1, hrow.2, hset, get?_set_self]
        exact ⟨lane, rfl, hlane⟩
      · rw [hrow.1, hdepends, get?_set_self]
        refine ⟨_, rfl, fun hnil => hsome ?_, fun laneId => ?_⟩
        · have hlen := length_insertionSort (· ≤ ·) (uncoveredForHold work state)
          rw [hnil] at hlen
          exact length_eq_zero_iff.mp hlen.symm
        · rw [mem_insertionSort, hgate]
      · rw [hrow.1, hrow.2]
        intro laneId hreviews
        have hin := (hgate laneId).mp hreviews
        exact ⟨huncovered laneId hin, spec, hreviewer laneId hin⟩
  · intro twin laneId hin
    obtain ⟨old, hold, rfl, htwin⟩ := h.twinOf_of_pending ((hpending twin laneId).mp hin)
    rw [htwins]
    exact ⟨htwin.listed, old, hext.provisioning hold, rfl⟩
  · rw [htwins]
    intro laneId twin hin
    obtain ⟨old, -, rfl, htwin⟩ := h.listed laneId twin hin
    exact htwin.named
  · intro laneId hin
    rcases h.covered_or hin with hcovered | huncov
    · refine hcovered.imp ?_ (Or.imp ?_ ?_)
      · rintro ⟨twin, htwin⟩
        exact ⟨twin, hext.blockers htwin⟩
      · exact fun hheld => hext.blockers hheld
      · exact fun hheld => ⟨hheld.1, hext.blockers hheld.2⟩
    · exact .inr (.inl ((hhold laneId).mpr huncov))

theorem holdUncovered_emitted (hwork : ∀ x ∈ work, isVerifyTwin x = false)
    (h : Emitting registry work lanes₀ dependsOn₀ state)
    (hold : holdUncovered registry taskRef work state = .ok state') :
    Emitted registry work lanes₀ dependsOn₀ state' := by
  unfold holdUncovered at hold
  simp only at hold
  split at hold
  · rename_i hnone
    obtain rfl := Except.ok.inj hold
    exact h.emitted hnone _
  rename_i hsome
  split at hold
  · cases hold
  rename_i hfresh
  cases hselect : selectSharedNoReviewerBackend registry (uncoveredForHold work state)
      state.lanes with
  | error refusal =>
    rw [hselect] at hold
    cases hold
  | ok backend =>
    rw [hselect] at hold
    obtain ⟨-, hstate⟩ := check_then_eq_ok.mp hold
    obtain rfl := Except.ok.inj hstate
    obtain ⟨spec, hreviewer⟩ := selectSharedNoReviewerBackend_spec hsome hselect
    refine @addSharedGate_emitted registry work lanes₀ dependsOn₀ _ _ _ spec hwork h hsome
      (Option.not_isSome_iff_eq_none.mp hfresh) (fun laneId hin => ?_) _
    have hlane : laneId ∈ work :=
      (mem_insertionSort _).mp (mem_of_mem_filter (mem_of_mem_filter hin))
    have hbackend : implBackend state.lanes laneId = implBackend lanes₀ laneId := by
      unfold implBackend Dict.getD
      rw [h.lanesWork laneId hlane]
    rw [← hbackend]
    exact hreviewer laneId hin

theorem getD_reroute {consumer : String} : laneId ∈ Dict.getD (reroute work state) consumer [] ↔
      laneId ∈ state.dependsOn.getD consumer [] ∨
      (isVerifyTwin consumer = false ∧ ∃ prereq ∈ state.dependsOn.getD consumer [],
        prereq ∈ work ∧ laneId ∈ state.twinsByParent.getD prereq []) := by
  have hextras : ∀ prereqs : List String, laneId ∈ prereqs.flatMap (fun prereq =>
      if prereq ∈ work then state.twinsByParent.getD prereq [] else []) ↔
      ∃ prereq ∈ prereqs, prereq ∈ work ∧ laneId ∈ state.twinsByParent.getD prereq [] := by
    intro prereqs
    rw [mem_flatMap]
    refine exists_congr fun prereq => and_congr_right fun _ => ?_
    split <;> simp_all
  have hget : Dict.get? (reroute work state) consumer =
      (state.dependsOn.get? consumer).map fun prereqs =>
        if isVerifyTwin consumer then prereqs.insertionSort (· ≤ ·)
        else if prereqs.flatMap (fun prereq =>
            if prereq ∈ work then state.twinsByParent.getD prereq [] else []) ⊆ prereqs then
          prereqs.insertionSort (· ≤ ·)
        else withTwins work state.twinsByParent prereqs := by
    refine Eq.trans ?_ (get?_map_entries state.dependsOn (fun consumer prereqs =>
        if isVerifyTwin consumer then prereqs.insertionSort (· ≤ ·)
        else if prereqs.flatMap (fun prereq =>
            if prereq ∈ work then state.twinsByParent.getD prereq [] else []) ⊆ prereqs then
          prereqs.insertionSort (· ≤ ·)
        else withTwins work state.twinsByParent prereqs) consumer)
    unfold reroute
    congr 1
    refine map_congr_left fun entry _ => ?_
    obtain ⟨key, prereqs⟩ := entry
    simp only
    split
    · rfl
    split <;> rfl
  rw [Dict.getD, hget, Dict.getD]
  cases hprereqs : state.dependsOn.get? consumer with
  | none => simp
  | some prereqs =>
    rw [Option.map_some, Option.getD_some, Option.getD_some]
    split
    · rename_i htwin
      simp [htwin]
    rename_i htwin
    rw [Bool.not_eq_true] at htwin
    simp only [htwin, true_and]
    split
    · rename_i hsubset
      rw [mem_insertionSort]
      refine (or_iff_left_of_imp fun hextra => ?_).symm
      exact hsubset ((hextras prereqs).mpr hextra)
    · unfold withTwins
      simp only
      rw [mem_insertionSort, mem_dedup, mem_append, hextras]

theorem emitVerifyTwins_spec {cap : Int} {severities : Dict String String} {result : Emission}
    (hwork : ∀ x ∈ work, isVerifyTwin x = false)
    (hlanes : ∀ x, (lanes₀.get? x).isSome → x ∈ work)
    (hdepends : ∀ x, (dependsOn₀.get? x).isSome → x ∈ work)
    (hlanesNodup : (lanes₀.map Prod.fst).Nodup) (hdependsNodup : (dependsOn₀.map Prod.fst).Nodup)
    (h : emitVerifyTwins registry cap taskRef work severities lanes₀ dependsOn₀ = .ok result) :
    ∃ state, Emitted registry work lanes₀ dependsOn₀ state ∧ result.lanes = state.lanes ∧
      result.dependsOn = reroute work state ∧ result.provisioning.Perm state.provisioning ∧
      result.blockers.Perm state.blockers := by
  unfold emitVerifyTwins at h
  simp only at h
  obtain ⟨seen, hseen, h⟩ := bind_eq_ok.mp h
  obtain ⟨state, hstate, h⟩ := bind_eq_ok.mp h
  obtain rfl := Except.ok.inj h
  have hemitting : Emitting registry work lanes₀ dependsOn₀ seen := by
    refine foldlM_induct (fun _ state => Emitting registry work lanes₀ dependsOn₀ state) ?_
      (emitting_start hlanes hdepends hlanesNodup hdependsNodup) hseen
    intro done laneId rest s s' hsplit hs hstep
    have hin : laneId ∈ done ++ laneId :: rest := mem_append_right _ mem_cons_self
    rw [← hsplit] at hin
    exact emitLane_emitting ((mem_insertionSort _).mp hin) hwork hs hstep
  exact ⟨state, holdUncovered_emitted hwork hemitting hstate, rfl, rfl,
    perm_insertionSort _ _, perm_insertionSort _ _⟩

end

end Workbay.Compiler

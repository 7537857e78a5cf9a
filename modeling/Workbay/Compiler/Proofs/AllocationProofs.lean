import Workbay.Compiler.Proofs.TwinProofs

/-!
# Proofs: who gets a reviewer

The local reviewers are given out lane by lane, by severity and then by name. Whether a lane has a
twin at its turn depends on the reviewers that the lanes before it have left.
-/

namespace Workbay.Compiler

open Workbay.Manifest List

/-! ## What is left of the local reviewers -/

/-- The twins with a local reviewer so far: of each backend, and of all of them. -/
structure Slots where
  emitted : Dict String Nat := []
  total : Nat := 0

/-- One more twin with a local reviewer. -/
def Slots.take (slots : Slots) (backend : String) : Slots where
  emitted := slots.emitted.set backend (slots.emitted.getD backend 0 + 1)
  total := slots.total + 1

/-- The local reviewers that are left for the work of a backend. -/
def freeLocals (registry : Registry) (caps : Caps) (slots : Slots) (implBackend : String) :
    List String :=
  if slots.total < caps.total then
    localPool registry caps slots.emitted (selectReviewBackends registry implBackend)
  else []

/-- The one that is next: with the least load, then of the first rank. -/
def nextLocal (registry : Registry) (caps : Caps) (slots : Slots) (implBackend : String) :
    Option String :=
  let load := fun backend => slots.emitted.getD backend 0
  ((freeLocals registry caps slots implBackend).insertionSort fun a b =>
    load a < load b ∨ (load a = load b ∧ ranksBefore registry a b)).head?

/-- What a lane leaves. -/
def leave (registry : Registry) (caps : Caps) (lanes : Dict String Fields) (slots : Slots)
    (laneId : String) : Slots :=
  match nextLocal registry caps slots (implBackend lanes laneId) with
  | none => slots
  | some backend => slots.take backend

/-- There is a reviewer for the work of a backend: a remote one, or one of those that are left. -/
def hasReviewer (registry : Registry) (caps : Caps) (slots : Slots) (implBackend : String) : Bool :=
  ((selectReviewBackends registry implBackend).any fun backend =>
      (registry.get? backend).any fun spec => spec.costClass = costRemote) ||
    freeLocals registry caps slots implBackend ≠ []

/-- The reviewers that a state of the emission has given out. -/
def slotsOf (state : Emission) : Slots where
  emitted := state.localEmitted
  total := state.localTotal

section

variable {registry : Registry} {caps : Caps} {work : List String} {lanes₀ : Dict String Fields}
  {dependsOn₀ : Dict String (List String)}

theorem chooseLocal_eq (state : Emission) (implBackend : String) :
    chooseLocal registry caps state (selectReviewBackends registry implBackend) =
      nextLocal registry caps (slotsOf state) implBackend := by
  unfold chooseLocal nextLocal freeLocals slotsOf
  simp only
  split
  · rfl
  · rfl

variable {slots : Slots} {backend laneId taskRef : String} {chosen : Option String}
  {state' : Emission}

theorem nextLocal_eq_some {implBackend : String}
    (h : nextLocal registry caps slots implBackend = some backend) :
    backend ∈ selectReviewBackends registry implBackend ∧
      ∀ spec, registry.get? backend = some spec → spec.costClass ≠ costRemote := by
  have hin : backend ∈ freeLocals registry caps slots implBackend :=
    (mem_insertionSort _).mp (mem_of_mem_head? h)
  unfold freeLocals at hin
  split at hin
  · obtain ⟨hin, hpool⟩ := mem_filter.mp hin
    refine ⟨hin, fun spec hspec => ?_⟩
    rw [hspec, Option.any_some, decide_eq_true_eq] at hpool
    exact hpool.2.1
  · cases hin

theorem nextLocal_isSome {implBackend : String} :
    (nextLocal registry caps slots implBackend).isSome ↔
      freeLocals registry caps slots implBackend ≠ [] := by
  unfold nextLocal
  simp only
  rw [isSome_head?, ← length_pos_iff, length_insertionSort, length_pos_iff]

theorem hasReviewer_iff {implBackend : String} :
    hasReviewer registry caps slots implBackend = true ↔
      ∃ backend ∈ selectReviewBackends registry implBackend, ∃ spec,
        registry.get? backend = some spec ∧ (spec.costClass = costRemote ∨
          nextLocal registry caps slots implBackend = some backend) := by
  unfold hasReviewer
  rw [Bool.or_eq_true, any_eq_true, decide_eq_true_eq, ← nextLocal_isSome,
    Option.isSome_iff_exists]
  constructor
  · rintro (⟨backend, hin, hremote⟩ | ⟨backend, hnext⟩)
    · cases hspec : registry.get? backend with
      | none =>
        rw [hspec] at hremote
        cases hremote
      | some spec =>
        rw [hspec] at hremote
        exact ⟨backend, hin, spec, hspec, .inl (of_decide_eq_true hremote)⟩
    · obtain ⟨hin, -⟩ := nextLocal_eq_some hnext
      obtain ⟨spec, hreviewer⟩ := mem_selectReviewBackends hin
      exact ⟨backend, hin, spec, hreviewer.registered, .inr hnext⟩
  · rintro ⟨backend, hin, spec, hspec, hremote | hnext⟩
    · refine .inl ⟨backend, hin, ?_⟩
      rw [hspec]
      exact decide_eq_true hremote
    · exact .inr ⟨backend, hnext⟩

/-- The turn of a lane, when some of its candidates have been seen. -/
structure Turn (registry : Registry) (laneId : String) (chosen : Option String) (start : Emission)
    (seen : List String) (state : Emission) : Prop where
  untaken : (∀ backend, chosen = some backend → backend ∉ seen) → slotsOf state = slotsOf start
  taken : ∀ backend, chosen = some backend → backend ∈ seen →
    slotsOf state = (slotsOf start).take backend
  /-- The chosen reviewer has its twin, so that it is not given out again. -/
  minted : ∀ backend, chosen = some backend → backend ∈ seen → ∃ spec,
    registry.get? backend = some spec ∧
      (state.lanes.get? (twinId laneId spec.modelFamily)).isSome
  others : ∀ other, other ≠ laneId →
    state.twinsByParent.getD other [] = start.twinsByParent.getD other []
  own : state.twinsByParent.getD laneId [] ≠ [] ↔ ∃ backend ∈ seen, ∃ spec,
    registry.get? backend = some spec ∧ (spec.costClass = costRemote ∨ chosen = some backend)

theorem turn_start {start : Emission} (h : start.twinsByParent.getD laneId [] = []) :
    Turn registry laneId chosen start [] start where
  untaken _ := rfl
  taken _ _ hin := by cases hin
  minted _ _ hin := by cases hin
  others _ _ := rfl
  own := by simp [h]

theorem Turn.skip {start state : Emission} {seen : List String} {spec : BackendSpec}
    (h : Turn registry laneId chosen start seen state) (hspec : registry.get? backend = some spec)
    (hlocal : spec.costClass ≠ costRemote) (hchosen : chosen ≠ some backend) :
    Turn registry laneId chosen start (seen ++ [backend]) state := by
  have hseen : ∀ other, chosen = some other → (other ∈ seen ++ [backend] ↔ other ∈ seen) := by
    intro other hother
    rw [mem_append, mem_singleton]
    refine or_iff_left ?_
    rintro rfl
    exact hchosen hother
  constructor
  · intro hnot
    exact h.untaken fun other hother hin => hnot other hother ((hseen other hother).mpr hin)
  · exact fun other hother hin => h.taken other hother ((hseen other hother).mp hin)
  · exact fun other hother hin => h.minted other hother ((hseen other hother).mp hin)
  · exact h.others
  · rw [h.own]
    constructor
    · rintro ⟨other, hin, hother⟩
      exact ⟨other, mem_append_left _ hin, hother⟩
    · rintro ⟨other, hin, spec', hspec', hor⟩
      rcases mem_append.mp hin with hin | hin
      · exact ⟨other, hin, spec', hspec', hor⟩
      · obtain rfl := mem_singleton.mp hin
        obtain rfl := Option.some.inj (hspec.symm.trans hspec')
        exact absurd hor (not_or.mpr ⟨hlocal, hchosen⟩)

theorem Turn.add {start state : Emission} {seen : List String} {spec : BackendSpec}
    (h : Turn registry laneId chosen start seen state) (hspec : registry.get? backend = some spec)
    (hlocal : chosen = some backend → spec.costClass ≠ costRemote)
    (hused : spec.costClass = costRemote ∨ chosen = some backend)
    (hfresh : state.lanes.get? (twinId laneId spec.modelFamily) = none) :
    Turn registry laneId chosen start (seen ++ [backend])
      (addTwin taskRef laneId backend spec state) := by
  have hext := addTwin_extends taskRef laneId backend spec hfresh
  have htwins : (addTwin taskRef laneId backend spec state).twinsByParent =
      state.twinsByParent.set laneId
        (state.twinsByParent.getD laneId [] ++ [twinId laneId spec.modelFamily]) := rfl
  have hslots : slotsOf (addTwin taskRef laneId backend spec state) =
      if spec.costClass = costRemote then slotsOf state else (slotsOf state).take backend := by
    unfold addTwin slotsOf Slots.take
    by_cases hremote : spec.costClass = costRemote
    · simp [hremote]
    · simp [hremote]
  -- the chosen one is not seen twice
  have hnew : chosen = some backend → backend ∉ seen := by
    intro hchosen hin
    obtain ⟨spec', hspec', htwin⟩ := h.minted backend hchosen hin
    obtain rfl := Option.some.inj (hspec.symm.trans hspec')
    rw [hfresh] at htwin
    cases htwin
  constructor
  · intro hnot
    have hne : chosen ≠ some backend := fun hchosen =>
      hnot backend hchosen (mem_append_right _ (mem_singleton_self _))
    rw [hslots, if_pos (hused.resolve_right hne)]
    exact h.untaken fun other hother hin => hnot other hother (mem_append_left _ hin)
  · intro other hother hin
    by_cases heq : other = backend
    · subst heq
      rw [hslots, if_neg (hlocal hother), h.untaken ?_]
      intro other' hother' hin'
      obtain rfl := Option.some.inj (hother.symm.trans hother')
      exact hnew hother hin'
    · have hne : chosen ≠ some backend := by
        rw [hother]
        exact fun hsome => heq (Option.some.inj hsome)
      have hin' : other ∈ seen := by
        rcases mem_append.mp hin with hin | hin
        · exact hin
        · exact absurd (mem_singleton.mp hin) heq
      rw [hslots, if_pos (hused.resolve_right hne), h.taken other hother hin']
  · intro other hother hin
    rcases mem_append.mp hin with hin | hin
    · obtain ⟨spec', hspec', htwin⟩ := h.minted other hother hin
      exact ⟨spec', hspec', by rw [hext.lanes _ htwin]; exact htwin⟩
    · obtain rfl := mem_singleton.mp hin
      refine ⟨spec, hspec, ?_⟩
      unfold addTwin
      simp only
      rw [Dict.get?_set_self]
      rfl
  · intro other hother
    rw [htwins, Dict.getD_set_of_ne _ _ _ hother]
    exact h.others other hother
  · rw [htwins, Dict.getD_set_self]
    refine iff_of_true ?_ ⟨backend, mem_append_right _ (mem_singleton_self _), spec,
      hspec, hused⟩
    exact append_ne_nil_of_right_ne_nil _ (cons_ne_nil _ _)

theorem noteBackend_slots (laneId : String) (state : Emission) :
    slotsOf (noteBackend registry laneId state) = slotsOf state := by
  unfold noteBackend
  simp only
  split
  · rfl
  split <;> rfl

theorem emitLane_slots {implBackend : String} {state : Emission}
    (hbackend : preferredBackend (state.lanes.getD laneId []) = implBackend)
    (hnone : state.twinsByParent.getD laneId [] = [])
    (h : emitLane registry caps taskRef state laneId = .ok state') :
    (slotsOf state' = match nextLocal registry caps (slotsOf state) implBackend with
      | none => slotsOf state
      | some backend => (slotsOf state).take backend) ∧
    (∀ other, other ≠ laneId →
      state'.twinsByParent.getD other [] = state.twinsByParent.getD other []) ∧
    (state'.twinsByParent.getD laneId [] ≠ [] ↔
      hasReviewer registry caps (slotsOf state) implBackend = true) := by
  obtain ⟨-, -, -, htwins, -⟩ := @noteBackend_cases registry laneId state
  have hslots := @noteBackend_slots registry laneId state
  unfold emitLane at h
  simp only at h
  rw [hbackend, chooseLocal_eq, hslots] at h
  obtain ⟨chosen, hchosen⟩ : ∃ chosen,
    chosen = nextLocal registry caps (slotsOf state) implBackend := ⟨_, rfl⟩
  rw [← hchosen] at h
  have hturn : Turn registry laneId chosen (noteBackend registry laneId state)
      (selectReviewBackends registry implBackend) state' := by
    refine foldlM_induct (fun seen s =>
      Turn registry laneId chosen (noteBackend registry laneId state) seen s) ?_
      (turn_start (by rw [htwins]; exact hnone)) h
    intro seen backend rest s s' hsplit hs hstep
    have hin : backend ∈ selectReviewBackends registry implBackend := by
      rw [hsplit]
      exact mem_append_right _ mem_cons_self
    obtain ⟨spec, hreviewer⟩ := mem_selectReviewBackends hin
    have hlocal : chosen = some backend → spec.costClass ≠ costRemote := fun heq =>
      (nextLocal_eq_some (hchosen.symm.trans heq)).2 spec hreviewer.registered
    unfold emitCandidate at hstep
    rw [hreviewer.registered] at hstep
    simp only at hstep
    split at hstep
    · rename_i hskip
      obtain rfl := Except.ok.inj hstep
      obtain ⟨hnotRemote, hnotChosen⟩ := hskip.resolve_left hreviewer.family
      exact hs.skip hreviewer.registered hnotRemote hnotChosen
    rename_i hused
    split at hstep
    · cases hstep
    rename_i hfresh
    obtain rfl := Except.ok.inj hstep
    refine hs.add hreviewer.registered hlocal ?_ (Option.not_isSome_iff_eq_none.mp hfresh)
    by_contra hnot
    rw [not_or] at hnot
    exact hused (.inr hnot)
  refine ⟨?_, fun other hother => ?_, ?_⟩
  · rw [← hchosen]
    cases hcases : chosen with
    | none =>
      rw [hturn.untaken (fun backend heq => by rw [hcases] at heq; cases heq), hslots]
    | some backend =>
      have hin := (nextLocal_eq_some (hchosen.symm.trans hcases)).1
      rw [hturn.taken backend hcases hin, hslots]
  · rw [hturn.others other hother, htwins]
  · rw [hturn.own, hasReviewer_iff, hchosen]

/-- What is left for a lane, when those before it have had their turn. -/
def leftAfter (registry : Registry) (caps : Caps) (lanes : Dict String Fields)
    (before : List String) : Slots :=
  before.foldl (leave registry caps lanes) {}

/-- The lanes that have had their turn have a twin just when there was a reviewer for them. -/
structure Allocated (registry : Registry) (caps : Caps) (lanes₀ : Dict String Fields)
    (done : List String) (state : Emission) : Prop where
  slots : slotsOf state = leftAfter registry caps lanes₀ done
  waiting : ∀ laneId, laneId ∉ done → state.twinsByParent.getD laneId [] = []
  served : ∀ before laneId after, done = before ++ laneId :: after →
    (state.twinsByParent.getD laneId [] ≠ [] ↔
      hasReviewer registry caps (leftAfter registry caps lanes₀ before)
        (implBackend lanes₀ laneId) = true)

/-- The turn of one more lane. -/
theorem Allocated.step {done : List String} {state : Emission}
    (hlane : state.lanes.get? laneId = lanes₀.get? laneId) (hnew : laneId ∉ done)
    (h : Allocated registry caps lanes₀ done state)
    (hemit : emitLane registry caps taskRef state laneId = .ok state') :
    Allocated registry caps lanes₀ (done ++ [laneId]) state' := by
  have hbackend : preferredBackend (state.lanes.getD laneId []) =
      implBackend lanes₀ laneId := by
    unfold implBackend Dict.getD
    rw [hlane]
  obtain ⟨hslots, hothers, hown⟩ := emitLane_slots hbackend (h.waiting laneId hnew) hemit
  constructor
  · rw [hslots, h.slots, leftAfter, leftAfter, foldl_append]
    rfl
  · intro other hnot
    rw [mem_append, mem_singleton, not_or] at hnot
    rw [hothers other hnot.2]
    exact h.waiting other hnot.1
  · intro before other after hsplit
    rcases eq_nil_or_concat after with rfl | ⟨after, last, rfl⟩
    · obtain ⟨rfl, heq⟩ := append_inj' hsplit rfl
      obtain rfl := singleton_inj.mp heq
      rw [hown, h.slots]
    · rw [concat_eq_append, ← cons_append, ← append_assoc] at hsplit
      obtain ⟨rfl, -⟩ := append_inj' hsplit rfl
      have hne : other ≠ laneId := by
        rintro rfl
        exact hnew (mem_append_right _ mem_cons_self)
      rw [hothers other hne]
      exact h.served before other after rfl

theorem foldlM_emitLane {order : List String} {seen : Emission} (hnodup : order.Nodup)
    (horder : ∀ x ∈ order, x ∈ work) (hwork : ∀ x ∈ work, isVerifyTwin x = false)
    (hstart : Emitting registry work lanes₀ dependsOn₀ { lanes := lanes₀, dependsOn := dependsOn₀ })
    (h : order.foldlM (emitLane registry caps taskRef)
      { lanes := lanes₀, dependsOn := dependsOn₀ } = .ok seen) :
    Emitting registry work lanes₀ dependsOn₀ seen ∧
      Allocated registry caps lanes₀ order seen := by
  refine foldlM_induct (fun done s => Emitting registry work lanes₀ dependsOn₀ s ∧
    Allocated registry caps lanes₀ done s) ?_ ⟨hstart, rfl, fun _ _ => rfl, ?_⟩ h
  · rintro done laneId rest s s' hsplit ⟨hemitting, hallocated⟩ hstep
    have hin : laneId ∈ work := by
      refine horder laneId ?_
      rw [hsplit]
      exact mem_append_right _ mem_cons_self
    have hnew : laneId ∉ done := by
      rw [hsplit] at hnodup
      exact fun hdone => disjoint_of_nodup_append hnodup hdone mem_cons_self
    exact ⟨emitLane_emitting hin hwork hemitting hstep,
      hallocated.step (hemitting.lanesWork laneId hin) hnew hstep⟩
  · intro before laneId after hsplit
    cases before <;> cases hsplit

theorem holdUncovered_keeps {state : Emission}
    (h : holdUncovered registry taskRef work state = .ok state') :
    Extends state state' ∧ ∀ blocker ∈ state'.blockers, blocker ∈ state.blockers ∨
      ((∃ laneId, blocker = noReviewerHold laneId) ∧
        ∃ row ∈ state'.provisioning, row.laneId = sharedGateId) := by
  unfold holdUncovered at h
  simp only at h
  split at h
  · obtain rfl := Except.ok.inj h
    exact ⟨⟨fun _ _ => rfl, fun _ _ => rfl, List.Subset.refl _, List.Subset.refl _,
      fun _ => List.Subset.refl _⟩, fun _ hin => .inl hin⟩
  split at h
  · cases h
  rename_i hfresh
  obtain ⟨backend, -, h⟩ := bind_eq_ok.mp h
  obtain ⟨-, hstate⟩ := check_then_eq_ok.mp h
  obtain rfl := Except.ok.inj hstate
  refine ⟨addSharedGate_extends taskRef backend _ (Option.not_isSome_iff_eq_none.mp hfresh) _, ?_⟩
  intro blocker hin
  rcases mem_append.mp hin with hin | hin
  · exact .inl hin
  · obtain ⟨laneId, -, rfl⟩ := mem_map.mp hin
    exact .inr ⟨⟨laneId, rfl⟩, _, mem_append_right _ (mem_singleton_self _), rfl⟩

end

end Workbay.Compiler

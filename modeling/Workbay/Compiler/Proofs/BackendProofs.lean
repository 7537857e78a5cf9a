import Workbay.Compiler.Twins

/-!
# Proofs: who may review
-/

namespace Workbay.Compiler

open Workbay.Manifest List

variable {registry : Registry}

/-- A backend may review the work of another one: it is registered as a reviewer, and its family is
not the other one's. -/
structure Reviewer (registry : Registry) (implBackend backend : String) (spec : BackendSpec) :
    Prop where
  registered : registry.get? backend = some spec
  eligible : spec.reviewEligible = true
  family : spec.modelFamily ≠ ""
  independent : ∀ implSpec, registry.get? implBackend = some implSpec →
    implSpec.modelFamily ≠ spec.modelFamily

variable {implBackend backend : String}

theorem mem_reviewersOf {family : String} (h : (family, backend) ∈ reviewersOf registry implBackend) :
    ∃ spec, Reviewer registry implBackend backend spec ∧ spec.modelFamily = family := by
  unfold reviewersOf at h
  obtain ⟨⟨name, spec⟩, hin, heq⟩ := mem_map.mp h
  obtain ⟨rfl, rfl⟩ := Prod.mk.inj heq
  obtain ⟨hin, hmay⟩ := mem_filter.mp hin
  simp only [Bool.decide_and, Bool.and_eq_true, decide_eq_true_eq] at hmay
  obtain ⟨-, heligible, hfamily, hother⟩ := hmay
  refine ⟨spec, ⟨Dict.get?_of_mem registry.distinct hin, heligible, hfamily, ?_⟩, rfl⟩
  intro implSpec himpl heq
  exact hother (by rw [himpl, Option.map_some, heq])

theorem mem_selectReviewBackends (h : backend ∈ selectReviewBackends registry implBackend) :
    ∃ spec, Reviewer registry implBackend backend spec := by
  unfold selectReviewBackends at h
  split at h
  · cases h
  rw [mem_insertionSort, mem_filterMap] at h
  obtain ⟨⟨family, names⟩, hgroup, hhead⟩ := h
  have hname : backend ∈ names := by
    have hmem := mem_of_mem_head? hhead
    rwa [mem_insertionSort] at hmem
  rw [sortedEntries, mem_insertionSort, Dict.mem_group] at hgroup
  obtain ⟨rfl, -⟩ := hgroup
  obtain ⟨⟨family', name⟩, hin, rfl⟩ := mem_map.mp hname
  obtain ⟨spec, hreviewer, -⟩ := mem_reviewersOf (mem_of_mem_filter hin)
  exact ⟨spec, hreviewer⟩

theorem selectReviewBackends_of_unknown (hname : implBackend ≠ "")
    (h : registry.get? implBackend = none) : selectReviewBackends registry implBackend = [] :=
  if_pos ⟨hname, h⟩

theorem sharedCandidates_eq_ok {laneId : String} {lane : Fields} {result : String × List String} :
    sharedCandidates registry laneId lane = .ok result ↔
      ∃ spec, registry.get? (preferredBackend lane) = some spec ∧ spec.modelFamily ≠ "" ∧
        result = (spec.modelFamily, selectReviewBackends registry (preferredBackend lane)) := by
  unfold sharedCandidates preferredBackend
  simp only
  cases registry.get? (((lane.get? "preferred_backend").bind Json.str?).getD "") with
  | none => simp
  | some spec =>
    simp only [Option.some.injEq, exists_eq_left']
    by_cases hfamily : spec.modelFamily = ""
    · simp [hfamily]
    · rw [if_neg hfamily]
      exact ⟨fun h => ⟨hfamily, (Except.ok.inj h).symm⟩, fun h => h.2 ▸ rfl⟩

theorem selectSharedNoReviewerBackend_spec {uncovered : List String} {lanes : Dict String Fields}
    (hsome : uncovered ≠ [])
    (h : selectSharedNoReviewerBackend registry uncovered lanes = .ok backend) :
    ∃ spec, ∀ laneId ∈ uncovered,
      Reviewer registry (preferredBackend (lanes.getD laneId [])) backend spec := by
  unfold selectSharedNoReviewerBackend at h
  cases hread : readAll (fun laneId => sharedCandidates registry laneId (lanes.getD laneId []))
      (uncovered.insertionSort (· ≤ ·)) with
  | error refusal =>
    rw [hread] at h
    cases h
  | ok covered =>
    rw [hread] at h
    replace h : firstShared registry covered = .ok backend := h
    have heligible : backend ∈ sharedEligible registry covered := by
      unfold firstShared at h
      split at h
      · rename_i first rest hsorted
        obtain rfl := Except.ok.inj h
        rw [← mem_insertionSort fun a b => ranksBefore registry a b, hsorted]
        exact mem_cons_self
      · cases h
    have hall : ∀ entry ∈ covered, backend ∈ entry.2 := by
      unfold sharedEligible at heligible
      split at heligible
      · cases heligible
      · obtain ⟨hin, -⟩ := mem_filter.mp heligible
        obtain ⟨hfirst, hothers⟩ := mem_filter.mp hin
        simp only [all_eq_true, decide_eq_true_eq] at hothers
        exact forall_mem_cons.mpr ⟨hfirst, hothers⟩
    have hreviewer : ∀ laneId ∈ uncovered, ∃ spec,
        Reviewer registry (preferredBackend (lanes.getD laneId [])) backend spec := by
      intro laneId hin
      obtain ⟨entry, hentry, hcandidates⟩ :=
        exists_of_readAll hread ((mem_insertionSort _).mpr hin)
      obtain ⟨implSpec, -, -, rfl⟩ := sharedCandidates_eq_ok.mp hcandidates
      exact mem_selectReviewBackends (hall _ hentry)
    obtain ⟨first, hfirst⟩ := exists_mem_of_ne_nil _ hsome
    obtain ⟨spec, hspec⟩ := hreviewer first hfirst
    refine ⟨spec, fun laneId hin => ?_⟩
    obtain ⟨spec', hspec'⟩ := hreviewer laneId hin
    obtain rfl := Option.some.inj (hspec.registered.symm.trans hspec'.registered)
    exact hspec'

end Workbay.Compiler

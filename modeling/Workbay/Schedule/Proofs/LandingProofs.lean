import Workbay.Schedule.Landing

/-!
# One landing wave

The candidates are judged in order, so that a candidate is ready next to all that were ready before it.
-/

namespace Workbay.Schedule

open List

variable {fromIsoFormat : IsoFormat} {mainSha : Option String} {writeSets : Row}

/-- A complete green gate of a candidate, for exactly its base and tip. -/
structure GreenGate (fromIsoFormat : IsoFormat) (mainSha : Option String) (candidate : Row)
    (fields : Row) : Prop where
  gate : gateOf candidate = .obj fields
  green : textOf fields "status" = some "green"
  complete : ∀ key ∈ contentGateKeys, ∃ s, textOf fields key = some s ∧ Text.strip s ≠ ""
  observed : ∃ s, textOf fields "observed_at" = some s ∧ fromIsoFormat (observedAt s) = some true
  base : isSha40 mainSha = true ∧ textOf fields "base_sha" = mainSha
  tip : isSha40 (textOf candidate "candidate_sha") = true ∧
    textOf fields "tested_sha" = textOf candidate "candidate_sha"

theorem contentGateRefusal_none {candidate : Row}
    (h : contentGateRefusal fromIsoFormat (gateOf candidate) mainSha
      (textOf candidate "candidate_sha") = none) :
    ∃ fields, GreenGate fromIsoFormat mainSha candidate fields := by
  unfold contentGateRefusal at h
  split at h
  · cases h
  · cases h
  next fields _ hgate =>
    split at h
    · cases h
    split at h
    · cases h
    split at h
    · cases h
    next hgreen =>
    split at h
    · cases h
    next hcomplete =>
    split at h
    · cases h
    next hobserved =>
    split at h
    · cases h
    next hbase =>
    split at h
    · cases h
    next htip =>
    have hcomplete : ∀ key ∈ contentGateKeys, ∃ s, textOf fields key = some s ∧
        Text.strip s ≠ "" := by
      intro key hkey
      have hany := not_not.mp hcomplete key hkey
      cases htext : textOf fields key with
      | none =>
        rw [htext] at hany
        cases hany
      | some s =>
        rw [htext] at hany
        exact ⟨s, rfl, by simpa using hany⟩
    obtain ⟨s, hs, -⟩ := hcomplete "observed_at" (by decide)
    rw [hs, Option.getD_some] at hobserved
    refine ⟨fields, hgate, not_not.mp hgreen, hcomplete, ⟨s, hs, not_not.mp hobserved⟩, ?_, ?_⟩
    · exact ⟨by simpa using fun h => hbase (.inl h), not_not.mp fun h => hbase (.inr h)⟩
    · exact ⟨by simpa using fun h => htip (.inl h), not_not.mp fun h => htip (.inr h)⟩
  · cases h

/-- What the ready ones among some candidates write. -/
def occupiedBy (writeSets : Row) (judged : List (Row × Option LandingRefusal)) : List String :=
  (judged.filter fun e => e.2 = none).flatMap fun e => (writeSetOf writeSets e.1).getD []

/-- The rows of the ready ones among some candidates, and of the others. -/
def readyRows (writeSets : Row) (judged : List (Row × Option LandingRefusal)) : List Row :=
  judged.filterMap fun e => if e.2 = none then some (readyRow writeSets e.1) else none

def refusedRows (writeSets : Row) (judged : List (Row × Option LandingRefusal)) : List Row :=
  judged.filterMap fun e => e.2.map (refusedRow writeSets e.1)

/-- Every candidate is judged next to the ready ones before it. -/
def Judged (fromIsoFormat : IsoFormat) (mainSha : Option String) (writeSets : Row)
    (judged : List (Row × Option LandingRefusal)) : Prop :=
  ∀ before e after, judged = before ++ e :: after →
    e.2 = landingRefusal fromIsoFormat mainSha writeSets (occupiedBy writeSets before) e.1

theorem computeLandingReadySet_concat (candidates : List Row) (candidate : Row) :
    computeLandingReadySet fromIsoFormat mainSha writeSets (candidates ++ [candidate]) =
      landingStep fromIsoFormat mainSha writeSets
        (computeLandingReadySet fromIsoFormat mainSha writeSets candidates) candidate := by
  unfold computeLandingReadySet
  rw [foldl_append]
  rfl

theorem Judged.concat {judged : List (Row × Option LandingRefusal)}
    (h : Judged fromIsoFormat mainSha writeSets judged) (candidate : Row) :
    Judged fromIsoFormat mainSha writeSets (judged ++ [(candidate,
      landingRefusal fromIsoFormat mainSha writeSets (occupiedBy writeSets judged) candidate)]) := by
  intro before e after heq
  rcases eq_nil_or_concat after with rfl | ⟨init, last, rfl⟩
  · obtain ⟨rfl, hlast⟩ := append_inj' heq rfl
    obtain rfl := (List.cons.inj hlast).1
    rfl
  · rw [concat_eq_append, ← cons_append, ← append_assoc] at heq
    obtain ⟨rfl, -⟩ := append_inj' heq rfl
    exact h before e init rfl

theorem computeLandingReadySet_judged (fromIsoFormat : IsoFormat) (mainSha : Option String)
    (writeSets : Row) (candidates : List Row) :
    ∃ judged, judged.map Prod.fst = candidates ∧
      Judged fromIsoFormat mainSha writeSets judged ∧
      computeLandingReadySet fromIsoFormat mainSha writeSets candidates =
        ⟨readyRows writeSets judged, refusedRows writeSets judged, occupiedBy writeSets judged⟩ := by
  induction candidates using List.reverseRecOn with
  | nil =>
    refine ⟨[], rfl, fun before e after heq => ?_, rfl⟩
    simp at heq
  | append_singleton candidates candidate ih =>
    obtain ⟨judged, hmap, hjudged, hstate⟩ := ih
    refine ⟨_, ?_, hjudged.concat candidate, ?_⟩
    · rw [map_append, hmap]
      rfl
    · rw [computeLandingReadySet_concat, hstate, landingStep]
      cases landingRefusal fromIsoFormat mainSha writeSets (occupiedBy writeSets judged) candidate with
      | none => simp [readyRows, refusedRows, occupiedBy]
      | some refusal => simp [readyRows, refusedRows, occupiedBy]

theorem landingRefusal_none {occupied : List String} {candidate : Row}
    (h : landingRefusal fromIsoFormat mainSha writeSets occupied candidate = none) :
    (∃ fields, GreenGate fromIsoFormat mainSha candidate fields) ∧
      ∃ paths, writeSetOf writeSets candidate = some paths ∧ ∀ path ∈ paths, path ∉ occupied := by
  unfold landingRefusal at h
  split at h
  · cases h
  next hgate =>
    split at h
    · cases h
    next paths hpaths =>
      split at h
      · cases h
      next hfree =>
        exact ⟨contentGateRefusal_none hgate, paths, hpaths, fun path hpath hoccupied =>
          hfree ⟨path, hpath, hoccupied⟩⟩

theorem landingRefusal_overlap {occupied : List String} {candidate : Row}
    (h : landingRefusal fromIsoFormat mainSha writeSets occupied candidate =
      some .writeSetOverlap) :
    ∃ paths, writeSetOf writeSets candidate = some paths ∧ ∃ path ∈ paths, path ∈ occupied := by
  unfold landingRefusal at h
  split at h
  · cases h
  · split at h
    · cases h
    next paths hpaths =>
      split at h
      next htaken => exact ⟨paths, hpaths, htaken⟩
      · cases h

/-- What two candidates write. -/
def writes (writeSets : Row) (candidate : Row) : List String :=
  (writeSetOf writeSets candidate).getD []

/-- Every candidate is in one of the two lists, in order; the ready ones have a complete green gate and
write nothing in common, and who is refused for an overlap overlaps a ready one before it. -/
theorem computeLandingReadySet_wave (fromIsoFormat : IsoFormat) (mainSha : Option String)
    (writeSets : Row) (candidates : List Row) :
    ∃ judged : List (Row × Option LandingRefusal), judged.map Prod.fst = candidates ∧
      (computeLandingReadySet fromIsoFormat mainSha writeSets candidates).ready =
        readyRows writeSets judged ∧
      (computeLandingReadySet fromIsoFormat mainSha writeSets candidates).refused =
        refusedRows writeSets judged ∧
      (judged.filter fun e => e.2 = none).Pairwise (fun e e' =>
        List.Disjoint (writes writeSets e.1) (writes writeSets e'.1)) ∧
      (∀ e ∈ judged, e.2 = none → (∃ fields, GreenGate fromIsoFormat mainSha e.1 fields) ∧
        (writeSetOf writeSets e.1).isSome) ∧
      ∀ before e after, judged = before ++ e :: after → e.2 = some .writeSetOverlap →
        ∃ e' ∈ before, e'.2 = none ∧ ¬ List.Disjoint (writes writeSets e'.1)
          (writes writeSets e.1) := by
  obtain ⟨judged, hmap, hjudged, hstate⟩ :=
    computeLandingReadySet_judged fromIsoFormat mainSha writeSets candidates
  have hmem : ∀ e ∈ judged, e.2 = none → ∃ before after, judged = before ++ e :: after ∧
      landingRefusal fromIsoFormat mainSha writeSets (occupiedBy writeSets before) e.1 = none := by
    intro e he hnone
    obtain ⟨before, after, heq⟩ := append_of_mem he
    exact ⟨before, after, heq, (hjudged before e after heq).symm.trans hnone⟩
  refine ⟨judged, hmap, by rw [hstate], by rw [hstate], ?_, fun e he hnone => ?_,
    fun before e after heq hoverlap => ?_⟩
  · rw [pairwise_filter]
    refine pairwise_iff_forall_sublist.mpr fun {e e'} hsub hready hready' => ?_
    obtain ⟨front, rest, heq, hfront, hrest⟩ := cons_sublist_iff.mp hsub
    obtain ⟨middle, after, rfl⟩ := append_of_mem (singleton_sublist.mp hrest)
    rw [← append_assoc] at heq
    have hrefusal := (hjudged (front ++ middle) e' after heq).symm.trans (by simpa using hready')
    obtain ⟨-, paths, hpaths, hfree⟩ := landingRefusal_none hrefusal
    intro path hpath hpath'
    rw [writes, hpaths, Option.getD_some] at hpath'
    refine hfree path hpath' (mem_flatMap.mpr ⟨e, mem_filter.mpr ⟨?_, hready⟩, hpath⟩)
    exact mem_append_left _ hfront
  · obtain ⟨before, after, heq, hrefusal⟩ := hmem e he hnone
    obtain ⟨hgreen, paths, hpaths, -⟩ := landingRefusal_none hrefusal
    exact ⟨hgreen, by rw [hpaths]; rfl⟩
  · have hrefusal := (hjudged before e after heq).symm.trans hoverlap
    obtain ⟨paths, hpaths, path, hpath, htaken⟩ := landingRefusal_overlap hrefusal
    obtain ⟨e', he', hpath'⟩ := mem_flatMap.mp htaken
    obtain ⟨hbefore, hready⟩ := mem_filter.mp he'
    refine ⟨e', hbefore, by simpa using hready, fun hdisjoint => hdisjoint hpath' ?_⟩
    rw [writes, hpaths]
    exact hpath

end Workbay.Schedule

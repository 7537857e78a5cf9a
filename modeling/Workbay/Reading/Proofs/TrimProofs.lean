import Workbay.Reading.Proofs.ReductionProofs

/-!
# The add-ons of a session

The findings and the touched files are lowered only where the session is over its budget, and never
below one finding and two files. A session is over its budget in the end if and only if it is so with
the add-ons at these floors.
-/

namespace Workbay.Reading

open Effects (Settles whileLoop_settles whileLoop_induct whileLoop_stays)

/-- The least that the add-ons are trimmed to: one finding in summary, and two files. -/
def addOnFloor (addOn : ResolvedSessionAddOnShape) : Int :=
  (if 0 < addOn.openFindingsLimit then perFindingBytes "summary" else 0) +
    (if 0 < addOn.topNTouchedFiles then perTouchedFileBytes * min 2 addOn.topNTouchedFiles else 0)

namespace Trim

/-- What trimming keeps. -/
structure Within (start t : Trim) : Prop where
  stateBytes : t.stateBytes = start.stateBytes
  omitted : ∀ o, o ≠ .continuation → (o ∈ t.omitted ↔ o ∈ start.omitted)
  findings_le : t.addOn.openFindingsLimit ≤ start.addOn.openFindingsLimit
  findings_ge : min 1 start.addOn.openFindingsLimit ≤ t.addOn.openFindingsLimit
  files_le : t.addOn.topNTouchedFiles ≤ start.addOn.topNTouchedFiles
  files_ge : min 2 start.addOn.topNTouchedFiles ≤ t.addOn.topNTouchedFiles

/-- The add-ons that are left out are those with no rows. -/
structure Marked (t : Trim) : Prop where
  findings : Omission.openFindings ∈ t.omitted ↔ t.addOn.openFindingsLimit ≤ 0
  files : Omission.touchedFiles ∈ t.omitted ↔ t.addOn.topNTouchedFiles ≤ 0

/-- The continuation is left out, and the findings are summaries. -/
structure Summarized (t : Trim) : Prop where
  continuation : Omission.continuation ∈ t.omitted
  detail : Omission.openFindings ∈ t.omitted ∨ t.addOn.openFindingsDetail = "summary"

section

variable {start t : Trim} {budget : Int}

theorem Within.refl (t : Trim) : t.Within t :=
  ⟨rfl, fun _ _ => Iff.rfl, le_refl _, min_le_right _ _, le_refl _, min_le_right _ _⟩

theorem Within.marked (h : start.Within t) (hmarked : start.Marked) : t.Marked := by
  have hfindings := h.findings_ge
  have hfindings' := h.findings_le
  have hfiles := h.files_ge
  have hfiles' := h.files_le
  constructor
  · rw [h.omitted _ (by simp), hmarked.findings]
    omega
  · rw [h.omitted _ (by simp), hmarked.files]
    omega

theorem Marked.compoundBytes_eq (h : t.Marked) :
    t.compoundBytes = t.stateBytes +
      ((if 0 < t.addOn.openFindingsLimit then
          perFindingBytes t.addOn.openFindingsDetail * t.addOn.openFindingsLimit else 0) +
        (if 0 < t.addOn.topNTouchedFiles then
          perTouchedFileBytes * t.addOn.topNTouchedFiles else 0)) := by
  have hfindings : (!decide (Omission.openFindings ∈ t.omitted) &&
      decide (0 < t.addOn.openFindingsLimit)) = decide (0 < t.addOn.openFindingsLimit) := by
    by_cases hlt : 0 < t.addOn.openFindingsLimit
    · have hkept : Omission.openFindings ∉ t.omitted := fun hmem => by
        have hle := h.findings.mp hmem
        omega
      simp [hkept]
    · simp [hlt]
  have hfiles : (!decide (Omission.touchedFiles ∈ t.omitted) &&
      decide (0 < t.addOn.topNTouchedFiles)) = decide (0 < t.addOn.topNTouchedFiles) := by
    by_cases hlt : 0 < t.addOn.topNTouchedFiles
    · have hkept : Omission.touchedFiles ∉ t.omitted := fun hmem => by
        have hle := h.files.mp hmem
        omega
      simp [hkept]
    · simp [hlt]
  unfold compoundBytes estimateSessionAddOnBytes
  rw [hfindings, hfiles]
  simp

theorem perFindingBytes_ge (detail : String) : 250 ≤ perFindingBytes detail := by
  unfold perFindingBytes
  split <;> omega

theorem Within.floor_le (h : start.Within t) (hmarked : start.Marked) :
    start.stateBytes + addOnFloor start.addOn ≤ t.compoundBytes := by
  have hfindings := h.findings_ge
  have hfindings' := h.findings_le
  have hfiles := h.files_ge
  have hfiles' := h.files_le
  have hper := perFindingBytes_ge t.addOn.openFindingsDetail
  rw [(h.marked hmarked).compoundBytes_eq, h.stateBytes]
  have hrows : 0 < t.addOn.openFindingsLimit →
      250 * 1 ≤ perFindingBytes t.addOn.openFindingsDetail * t.addOn.openFindingsLimit := by
    intro hlt
    exact mul_le_mul hper (by omega) (by omega) (by omega)
  have hsummary : perFindingBytes "summary" = 250 := rfl
  unfold addOnFloor
  rw [hsummary]
  simp only [perTouchedFileBytes]
  split_ifs with h1 h2 h3 h4 <;> omega

theorem Within.eq_floor (h : start.Within t) (hmarked : start.Marked) (hsummary : t.Summarized)
    (hfindings : t.addOn.openFindingsLimit ≤ 1) (hfiles : t.addOn.topNTouchedFiles ≤ 2) :
    t.compoundBytes = start.stateBytes + addOnFloor start.addOn := by
  have hfindings_ge := h.findings_ge
  have hfindings_le := h.findings_le
  have hfiles_ge := h.files_ge
  have hfiles_le := h.files_le
  rw [(h.marked hmarked).compoundBytes_eq, h.stateBytes]
  have hrows : 0 < t.addOn.openFindingsLimit →
      perFindingBytes t.addOn.openFindingsDetail * t.addOn.openFindingsLimit = 250 := by
    intro hlt
    have hone : t.addOn.openFindingsLimit = 1 := by omega
    have hdetail : t.addOn.openFindingsDetail = "summary" := by
      rcases hsummary.detail with hmem | hdetail
      · have hle := (h.marked hmarked).findings.mp hmem
        omega
      · exact hdetail
    rw [hone, hdetail]
    rfl
  have hsummary : perFindingBytes "summary" = 250 := rfl
  unfold addOnFloor
  rw [hsummary]
  simp only [perTouchedFileBytes]
  split_ifs with h1 h2 h3 h4 <;> omega

theorem compoundBytes_dropContinuation (budget : Int) (t : Trim) :
    (t.dropContinuation budget).compoundBytes = t.compoundBytes := by
  unfold dropContinuation
  split
  · simp [compoundBytes]
  · rfl

theorem Within.dropContinuation (h : start.Within t) : start.Within (t.dropContinuation budget) := by
  unfold Trim.dropContinuation
  split
  · refine ⟨h.stateBytes, fun o ho => ?_, h.findings_le, h.findings_ge, h.files_le, h.files_ge⟩
    rw [← h.omitted o ho]
    simp [ho]
  · exact h

theorem Within.summarizeFindings (h : start.Within t) :
    start.Within (t.summarizeFindings budget) := by
  unfold Trim.summarizeFindings
  split
  · exact ⟨h.stateBytes, h.omitted, h.findings_le, h.findings_ge, h.files_le, h.files_ge⟩
  · exact h

theorem Within.halveFindings (h : start.Within t) (hlt : 1 < t.addOn.openFindingsLimit) :
    start.Within t.halveFindings := by
  have hle := h.findings_le
  refine ⟨h.stateBytes, h.omitted, ?_, ?_, h.files_le, h.files_ge⟩
  · simp only [Trim.halveFindings]
    omega
  · simp only [Trim.halveFindings]
    omega

theorem Within.halveFiles (h : start.Within t) (hlt : 2 < t.addOn.topNTouchedFiles) :
    start.Within t.halveFiles := by
  have hle := h.files_le
  refine ⟨h.stateBytes, h.omitted, h.findings_le, h.findings_ge, ?_, ?_⟩
  · simp only [Trim.halveFiles]
    omega
  · simp only [Trim.halveFiles]
    omega

theorem summarized_of_over (h : budget < t.compoundBytes) :
    ((t.dropContinuation budget).summarizeFindings budget).Summarized := by
  have hdropped : Omission.continuation ∈ (t.dropContinuation budget).omitted := by
    unfold dropContinuation
    split
    case isTrue => simp
    case isFalse hnot =>
      by_contra hmem
      exact hnot ⟨h, hmem⟩
  have hover : budget < (t.dropContinuation budget).compoundBytes := by
    rw [compoundBytes_dropContinuation]
    exact h
  unfold summarizeFindings
  split
  case isTrue => exact ⟨hdropped, .inr rfl⟩
  case isFalse hnot =>
    refine ⟨hdropped, ?_⟩
    by_contra hdetail
    rw [not_or] at hdetail
    exact hnot ⟨hover, hdetail.1, hdetail.2⟩

theorem findingsToHalve_iff : findingsToHalve budget t = true ↔
    budget < t.compoundBytes ∧ 1 < t.addOn.openFindingsLimit := by
  simp [findingsToHalve]

theorem filesToHalve_iff : filesToHalve budget t = true ↔
    budget < t.compoundBytes ∧ 2 < t.addOn.topNTouchedFiles := by
  simp [filesToHalve]

theorem lowerFindings_settles (budget : Int) (hwithin : start.Within t) :
    ∃ t', Settles (fun fuel => lowerFindings fuel budget t) t' ∧ start.Within t' ∧
      (t.Summarized → t'.Summarized) ∧
      (budget < t'.compoundBytes → t'.addOn.openFindingsLimit ≤ 1) ∧
      (t.compoundBytes ≤ budget → t' = t) := by
  obtain ⟨t', hsettles⟩ := whileLoop_settles (findingsToHalve budget) halveFindings
    (fun t => t.addOn.openFindingsLimit.toNat) (fun t htest => by
      obtain ⟨-, hlt⟩ := findingsToHalve_iff.mp htest
      simp only [Trim.halveFindings]
      omega) t
  obtain ⟨fuel, hfuel⟩ := hsettles.ended
  obtain ⟨⟨hwithin', hsummary⟩, hexit⟩ := whileLoop_induct (findingsToHalve budget) halveFindings
    (fun t' => start.Within t' ∧ (t.Summarized → t'.Summarized))
    (fun t' hP htest => by
      obtain ⟨-, hlt⟩ := findingsToHalve_iff.mp htest
      exact ⟨hP.1.halveFindings hlt, fun h => ⟨(hP.2 h).continuation, (hP.2 h).detail⟩⟩)
    ⟨hwithin, id⟩ hfuel
  refine ⟨t', hsettles, hwithin', hsummary, fun hover => ?_, fun hfits => ?_⟩
  · by_contra hlt
    rw [findingsToHalve_iff.mpr ⟨hover, not_le.mp hlt⟩] at hexit
    cases hexit
  · have hnot : findingsToHalve budget t = false := by simp [findingsToHalve, not_lt.mpr hfits]
    exact hsettles.unique (whileLoop_stays _ _ hnot)

theorem lowerFiles_settles (budget : Int) (hwithin : start.Within t) :
    ∃ t', Settles (fun fuel => lowerFiles fuel budget t) t' ∧ start.Within t' ∧
      (t.Summarized → t'.Summarized) ∧
      (budget < t'.compoundBytes → t'.addOn.topNTouchedFiles ≤ 2) ∧
      t'.addOn.openFindingsLimit = t.addOn.openFindingsLimit ∧
      (t.compoundBytes ≤ budget → t' = t) := by
  obtain ⟨t', hsettles⟩ := whileLoop_settles (filesToHalve budget) halveFiles
    (fun t => t.addOn.topNTouchedFiles.toNat) (fun t htest => by
      obtain ⟨-, hlt⟩ := filesToHalve_iff.mp htest
      simp only [Trim.halveFiles]
      omega) t
  obtain ⟨fuel, hfuel⟩ := hsettles.ended
  obtain ⟨⟨hwithin', hsummary, hfindings⟩, hexit⟩ := whileLoop_induct (filesToHalve budget) halveFiles
    (fun t' => start.Within t' ∧ (t.Summarized → t'.Summarized) ∧
      t'.addOn.openFindingsLimit = t.addOn.openFindingsLimit)
    (fun t' hP htest => by
      obtain ⟨-, hlt⟩ := filesToHalve_iff.mp htest
      exact ⟨hP.1.halveFiles hlt, fun h => ⟨(hP.2.1 h).continuation, (hP.2.1 h).detail⟩, hP.2.2⟩)
    ⟨hwithin, id, rfl⟩ hfuel
  refine ⟨t', hsettles, hwithin', hsummary, fun hover => ?_, hfindings, fun hfits => ?_⟩
  · by_contra hlt
    rw [filesToHalve_iff.mpr ⟨hover, not_le.mp hlt⟩] at hexit
    cases hexit
  · have hnot : filesToHalve budget t = false := by simp [filesToHalve, not_lt.mpr hfits]
    exact hsettles.unique (whileLoop_stays _ _ hnot)

/-- What trimming ends in. -/
structure Trimmed (budget : Int) (start t : Trim) : Prop where
  within : start.Within t
  floors : budget < t.compoundBytes → t.Summarized ∧ t.addOn.openFindingsLimit ≤ 1 ∧
    t.addOn.topNTouchedFiles ≤ 2

theorem summarizeFindings_of_fits (h : t.compoundBytes ≤ budget) :
    (t.dropContinuation budget).summarizeFindings budget = t := by
  have hdrop : t.dropContinuation budget = t := by
    unfold dropContinuation
    rw [if_neg fun hover => absurd hover.1 (not_lt.mpr h)]
  rw [hdrop]
  unfold summarizeFindings
  rw [if_neg fun hover => absurd hover.1 (not_lt.mpr h)]

theorem trimAddOns_settles (budget : Int) (start : Trim) :
    ∃ t, Settles (fun fuel => trimAddOns fuel budget start) t ∧ Trimmed budget start t := by
  have hwithin : start.Within ((start.dropContinuation budget).summarizeFindings budget) :=
    (Within.refl start).dropContinuation.summarizeFindings
  obtain ⟨mid, hmid, hwithin', hsummary, hfloor, hkept⟩ :=
    lowerFindings_settles budget hwithin
  obtain ⟨t, ht, hwithin'', hsummary', hfiles, hfindings, hstays⟩ :=
    lowerFiles_settles budget hwithin'
  refine ⟨t, hmid.bind ht, hwithin'', fun hover => ?_⟩
  have hmidover : budget < mid.compoundBytes := by
    by_contra hfits
    rw [hstays (not_lt.mp hfits)] at hover
    exact hfits hover
  have hstart : budget < start.compoundBytes := by
    by_contra hfits
    rw [summarizeFindings_of_fits (not_lt.mp hfits)] at hkept
    rw [hkept (not_lt.mp hfits)] at hmidover
    exact hfits hmidover
  refine ⟨hsummary' (hsummary (summarized_of_over hstart)), ?_, hfiles hover⟩
  rw [hfindings]
  exact hfloor hmidover

theorem Trimmed.over_iff (h : Trimmed budget start t) (hmarked : start.Marked) :
    budget < t.compoundBytes ↔ budget < start.stateBytes + addOnFloor start.addOn := by
  constructor
  · intro hover
    obtain ⟨hsummary, hfindings, hfiles⟩ := h.floors hover
    rw [h.within.eq_floor hmarked hsummary hfindings hfiles] at hover
    exact hover
  · intro hover
    exact lt_of_lt_of_le hover (h.within.floor_le hmarked)

end

end Trim

end Workbay.Reading

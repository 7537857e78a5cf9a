import Workbay.Retention.Proofs.EligibleProofs

/-!
# Proofs: an analysis and its admission agree

What a snapshot adds to the holds of an admission: nothing exactly for an eligible resource, as long as
the proofs that it combines are in their windows.
-/

namespace Workbay.Retention

open Relation Workbay.Graph List

/-- A time is in the window of a proof. -/
def Proof.Covers (proof : Proof) (now : Int) : Prop :=
  ∃ observedAt validUntil, proof.observedAt = some observedAt ∧ proof.validUntil = some validUntil ∧
    observedAt.instant ≤ now ∧ now ≤ validUntil.instant

theorem windowProblem_eq_none {proof : Proof} {now : Int} :
    windowProblem proof now = none ↔ proof.Covers now := by
  unfold windowProblem Proof.Covers
  cases hobserved : proof.observedAt with
  | none => simp
  | some observedAt =>
    cases huntil : proof.validUntil with
    | none => simp
    | some validUntil =>
      simp only [Option.some.injEq, exists_and_left, exists_eq_left']
      split_ifs <;> simp <;> omega

theorem proofProblem_eq_none {proof : Proof} {now : Int} :
    proofProblem proof now = none ↔
      proof.state = .verified ∧ proof.evidence ≠ [] ∧ proof.Covers now := by
  rw [← windowProblem_eq_none, proofProblem]
  split_ifs with hstate hevidence
  · simp [hstate]
  · simp [hevidence]
  · simp only [not_not] at hstate
    simp [hstate, hevidence]

theorem proofHolds_eq_nil {proof : Proof} {subject : String} {now : Int} :
    proofHolds proof subject now = [] ↔ proofProblem proof now = none := by
  unfold proofHolds
  cases proofProblem proof now with
  | none => simp
  | some code => simp

theorem proofProblem_later {proof : Proof} {now later : Int} (h : proofProblem proof now = none) :
    proofProblem proof later = none ↔ proof.Covers later := by
  rw [proofProblem_eq_none] at h ⊢
  exact ⟨fun hlater => hlater.2.2, fun hcovers => ⟨h.1, h.2.1, hcovers⟩⟩

theorem foldl_least (measure : Timestamp → Int) (ts : List Timestamp) (t : Timestamp) :
    ts.foldl (fun best u => if measure u < measure best then u else best) t ∈ t :: ts ∧
      ∀ u ∈ t :: ts,
        measure (ts.foldl (fun best u => if measure u < measure best then u else best) t) ≤
          measure u := by
  induction ts generalizing t with
  | nil => exact ⟨mem_cons_self .., fun u hu => by rw [mem_singleton.mp hu]; rfl⟩
  | cons v ts ih =>
    rw [foldl_cons]
    obtain ⟨hmem, hle⟩ := ih (if measure v < measure t then v else t)
    by_cases hlt : measure v < measure t
    · rw [if_pos hlt] at hmem hle ⊢
      refine ⟨mem_cons_of_mem _ hmem, fun u hu => ?_⟩
      rcases mem_cons.mp hu with rfl | hu
      · have := hle v (mem_cons_self ..)
        omega
      · exact hle u hu
    · rw [if_neg hlt] at hmem hle ⊢
      refine ⟨?_, fun u hu => ?_⟩
      · rcases mem_cons.mp hmem with heq | hmem
        · rw [heq]
          exact mem_cons_self ..
        · exact mem_cons_of_mem _ (mem_cons_of_mem _ hmem)
      · have ht := hle t (mem_cons_self ..)
        rcases mem_cons.mp hu with rfl | hu
        · exact ht
        · rcases mem_cons.mp hu with rfl | hu
          · omega
          · exact hle u (mem_cons_of_mem _ hu)

theorem firstLeast_eq_some {measure : Timestamp → Int} {ts : List Timestamp} {t : Timestamp}
    (h : firstLeast measure ts = some t) : t ∈ ts ∧ ∀ u ∈ ts, measure t ≤ measure u := by
  cases ts with
  | nil => cases h
  | cons u ts =>
    obtain rfl := Option.some.inj h
    exact foldl_least measure ts u

theorem firstLeast_eq_none {measure : Timestamp → Int} {ts : List Timestamp}
    (h : firstLeast measure ts = none) : ts = [] := by
  cases ts with
  | nil => rfl
  | cons _ _ => cases h

section Combined

variable {proofs : List Proof} {evidence : EvidenceRef} {now : Timestamp}

theorem combined_held (later : Int) :
    proofProblem (combined proofs evidence now true) later ≠ none := by
  rw [ne_eq, proofProblem_eq_none, combined, Bool.true_or, Bool.true_or, if_pos rfl]
  rintro ⟨hstate, -⟩
  cases hstate

theorem combined_eq_none_iff (hne : proofs ≠ [])
    (hgood : ∀ p ∈ proofs, proofProblem p now.instant = none) {later : Int}
    (hlater : now.instant ≤ later) :
    proofProblem (combined proofs evidence now false) later = none ↔
      ∀ p ∈ proofs, p.Covers later := by
  have hany : (proofs.any fun p => (proofProblem p now.instant).isSome) = false := by
    rw [any_eq_false]
    intro p hp
    simp [hgood p hp]
  have hempty : proofs.isEmpty = false := by
    cases proofs with
    | nil => exact absurd rfl hne
    | cons _ _ => rfl
  rw [combined, hany, hempty, if_neg (by simp), proofProblem_eq_none]
  have hwindow : ∀ p ∈ proofs, p.Covers now.instant := fun p hp =>
    (proofProblem_eq_none.mp (hgood p hp)).2.2
  have hevidence : fresh [] (evidence :: proofs.flatMap (·.evidence)) ≠ [] := by
    intro hnil
    have hin : evidence ∈ fresh [] (evidence :: proofs.flatMap (·.evidence)) :=
      mem_fresh.mpr ⟨mem_cons_self .., not_mem_nil⟩
    rw [hnil] at hin
    cases hin
  constructor
  · rintro ⟨-, -, observedAt, validUntil, hobserved, huntil, -, hle⟩ p hp
    obtain ⟨o, v, ho, hv, hole, -⟩ := hwindow p hp
    refine ⟨o, v, ho, hv, by omega, ?_⟩
    have hmin : validUntil.instant ≤ v.instant :=
      (firstLeast_eq_some huntil).2 v (mem_filterMap.mpr ⟨p, hp, hv⟩)
    omega
  · intro hcovers
    obtain ⟨p, hp⟩ := exists_mem_of_ne_nil _ hne
    obtain ⟨o, v, ho, hv, -⟩ := hcovers p hp
    cases hobserved : firstLeast (fun t => -t.instant) (proofs.filterMap (·.observedAt)) with
    | none =>
      have hin := mem_filterMap.mpr ⟨p, hp, ho⟩
      rw [firstLeast_eq_none hobserved] at hin
      cases hin
    | some observedAt =>
      cases huntil : firstLeast (·.instant) (proofs.filterMap (·.validUntil)) with
      | none =>
        have hin := mem_filterMap.mpr ⟨p, hp, hv⟩
        rw [firstLeast_eq_none huntil] at hin
        cases hin
      | some validUntil =>
        refine ⟨rfl, hevidence, observedAt, validUntil, rfl, rfl, ?_, ?_⟩
        · obtain ⟨p', hp', ho'⟩ := mem_filterMap.mp (firstLeast_eq_some hobserved).1
          obtain ⟨o', -, heq, -, hle, -⟩ := hcovers p' hp'
          rw [ho'] at heq
          rwa [Option.some.inj heq]
        · obtain ⟨p', hp', hv'⟩ := mem_filterMap.mp (firstLeast_eq_some huntil).1
          obtain ⟨-, v', -, heq, -, hle⟩ := hcovers p' hp'
          rw [hv'] at heq
          rwa [Option.some.inj heq]

end Combined

namespace Inventory

variable {q : Inventory} {key : ResourceIdentity → String} {r : ResourceIdentity}

theorem Clear.mem_relevantEdges (h : q.Clear r) {e : DependencyEdge} :
    e ∈ q.relevantEdges r ↔ e ∈ q.edges ∧ e.provider = r := by
  have hreverse : q.reverse r = [] := by
    rw [eq_nil_iff_forall_not_mem]
    intro x hx
    obtain ⟨e, he, hopen, -, hprovider⟩ := mem_reverse.mp hx
    exact h.unneeded e he hopen hprovider
  have hancestors : q.ancestors r = [r] := by
    rw [ancestors, Nat.add_comm, flood, hreverse]
    cases q.nodes.length with
    | zero => rfl
    | succ n => rfl
  rw [relevantEdges, mem_filter, hancestors, decide_eq_true_eq, mem_singleton]

theorem Clear.combinedProofs_good (h : q.Clear r) :
    ∀ p ∈ q.combinedProofs r, proofProblem p q.now.instant = none := by
  intro p hp
  rcases mem_cons.mp hp with rfl | hp
  · exact h.inventoried
  rcases mem_cons.mp hp with rfl | hp
  · exact h.cleared
  obtain ⟨e, he, rfl⟩ := mem_map.mp hp
  obtain ⟨he, hprovider⟩ := h.mem_relevantEdges.mp he
  by_contra hproblem
  refine h.unneeded e he ?_ hprovider
  rw [isOpen, Bool.or_eq_true]
  exact .inr (Option.isSome_iff_ne_none.mpr hproblem)

theorem Clear.released (h : q.Clear r) {e : DependencyEdge} (he : e ∈ q.edges)
    (hprovider : e.provider = r) : e.state = .released := by
  by_contra hstate
  refine h.unneeded e he ?_ hprovider
  rw [isOpen, Bool.or_eq_true]
  exact .inl (decide_eq_true hstate)

theorem Clear.length_component (h : q.Clear r) {c : List ResourceIdentity} (hc : c ∈ q.members key)
    (hr : r ∈ c) : c.length ≤ 1 := by
  by_contra hlen
  refine h.acyclic ((sccHeld_iff hc hr).mp ?_)
  rw [sccHeld, Bool.or_eq_true]
  exact .inl (decide_eq_true (by omega))

theorem get?_snapshots {digests : Digests} {analysis : DependencyAnalysis}
    (h : analyzeDependencies digests q = .ok analysis) (hr : r ∈ q.resources) :
    ∃ c ∈ q.members digests.canonicalDigest, r ∈ c ∧ analysis.snapshots.get? r =
      some (q.snapshot digests (sortedBy digests.canonicalDigest c) r) := by
  obtain ⟨-, -, -, hsnapshots⟩ := analyzeDependencies_ok h
  obtain ⟨-, hcover, hnodup⟩ := members_spec q digests.canonicalDigest
  obtain ⟨c, hc, hrc⟩ := hcover r (mem_nodes.mpr (.inl hr))
  refine ⟨c, hc, hrc, Dict.get?_of_mem ?_ ?_⟩
  · have hkeys : analysis.snapshots.map Prod.fst =
        (((q.members digests.canonicalDigest).map (sortedBy digests.canonicalDigest)).flatten).filter
          (· ∈ q.resources) := by
      rw [hsnapshots, List.map_flatMap, List.filter_flatten, List.flatMap_def]
      congr 1
      refine List.map_congr_left fun component _ => ?_
      rw [List.map_map]
      exact List.map_id _
    rw [hkeys]
    exact ((flatten_sortedBy _ _).nodup_iff.mpr hnodup).filter _
  · rw [hsnapshots]
    refine List.mem_flatMap.mpr ⟨_, List.mem_map_of_mem hc, List.mem_map.mpr ⟨r, ?_, rfl⟩⟩
    exact List.mem_filter.mpr ⟨mem_sortedBy.mpr hrc, decide_eq_true hr⟩

end Inventory

theorem dependencyHolds_eq_nil {s : DependencySnapshot} {r : ResourceIdentity} {now : Int} :
    dependencyHolds s r now = [] ↔
      proofProblem s.inventoryComplete now = none ∧ proofProblem s.noLiveConsumers now = none ∧
        proofProblem s.sccClear now = none ∧ s.componentMembers.length ≤ 1 ∧
        ∀ e ∈ s.edges, proofProblem e.proof now = none ∧ (e.provider = r → e.state = .released) := by
  simp only [dependencyHolds, append_eq_nil_iff, proofHolds_eq_nil, flatMap_eq_nil_iff,
    and_assoc]
  have hlen : (if s.componentMembers.length > 1 then
      [(⟨"scc_held", "dependencies.component_members"⟩ : Hold)] else []) = [] ↔
      s.componentMembers.length ≤ 1 := by
    by_cases h : s.componentMembers.length > 1
    · simp [h]
    · simp [h, Nat.le_of_not_lt h]
  have hedge : ∀ e : DependencyEdge, (if e.provider = r ∧ e.state ≠ .released then
      [(⟨if e.state = .required then "dependency_required" else "dependency_unknown",
        "dependency.provider"⟩ : Hold)] else []) = [] ↔ (e.provider = r → e.state = .released) := by
    intro e
    by_cases h : e.provider = r ∧ e.state ≠ .released
    · rw [if_pos h]
      exact ⟨fun hnil => (by cases hnil), fun himp => absurd (himp h.1) h.2⟩
    · rw [if_neg h]
      exact ⟨fun _ hprovider => by_contra fun hstate => h ⟨hprovider, hstate⟩, fun _ => rfl⟩
  simp only [hlen, hedge]

/-- An admission has nothing against the snapshot of a resource exactly when the analysis found it
eligible, and later on as long as all combined proofs are in their windows. -/
theorem dependencyHolds_snapshot_iff {digests : Digests} {q : Inventory}
    {analysis : DependencyAnalysis} {r : ResourceIdentity}
    (h : analyzeDependencies digests q = .ok analysis) (hr : r ∈ q.resources) :
    ∃ s, analysis.snapshots.get? r = some s ∧
      (dependencyHolds s r q.now.instant = [] ↔ r ∈ analysis.eligibleOrder) ∧
      ∀ later, q.now.instant ≤ later →
        (dependencyHolds s r later = [] ↔
          r ∈ analysis.eligibleOrder ∧ ∀ p ∈ q.combinedProofs r, p.Covers later) := by
  obtain ⟨c, hc, hrc, hsnapshot⟩ := Inventory.get?_snapshots h hr
  have hlater : ∀ later, q.now.instant ≤ later →
      (dependencyHolds (q.snapshot digests (sortedBy digests.canonicalDigest c) r) r later = [] ↔
        r ∈ analysis.eligibleOrder ∧ ∀ p ∈ q.combinedProofs r, p.Covers later) := by
    intro later hle
    rw [dependencyHolds_eq_nil, mem_eligibleOrder h]
    by_cases hclear : q.Clear r
    · have hreasons : q.reasons digests.canonicalDigest r = [] :=
        (Inventory.reasons_eq_nil hr).mpr hclear
      have hgood := hclear.combinedProofs_good
      have hcombined : proofProblem (combined (q.combinedProofs r) (digests.analysisEvidence q) q.now
          false) later = none ↔ ∀ p ∈ q.combinedProofs r, p.Covers later :=
        combined_eq_none_iff (cons_ne_nil _ _) hgood hle
      have hlen : (sortedBy digests.canonicalDigest c).length ≤ 1 := by
        rw [sortedBy, length_insertionSort]
        exact hclear.length_component hc hrc
      simp only [Inventory.snapshot, hreasons, ne_eq, not_true_eq_false, decide_false]
      constructor
      · rintro ⟨-, hlive, -⟩
        exact ⟨hclear, hcombined.mp hlive⟩
      · rintro ⟨-, hcovers⟩
        refine ⟨?_, hcombined.mpr hcovers, hcombined.mpr hcovers, hlen, fun e he => ⟨?_, ?_⟩⟩
        · have hin : q.inventoryComplete ∈ q.combinedProofs r := mem_cons_self ..
          exact (proofProblem_later (hgood _ hin)).mpr (hcovers _ hin)
        · have hin : e.proof ∈ q.combinedProofs r :=
            mem_cons_of_mem _ (mem_cons_of_mem _ (mem_map_of_mem he))
          exact (proofProblem_later (hgood _ hin)).mpr (hcovers _ hin)
        · exact hclear.released (hclear.mem_relevantEdges.mp he).1
    · have hreasons : q.reasons digests.canonicalDigest r ≠ [] :=
        fun hnil => hclear ((Inventory.reasons_eq_nil hr).mp hnil)
      constructor
      · rintro ⟨-, hlive, -⟩
        simp only [Inventory.snapshot, hreasons, ne_eq, not_false_eq_true, decide_true] at hlive
        exact absurd hlive (combined_held later)
      · rintro ⟨hclear', -⟩
        exact absurd hclear' hclear
  refine ⟨_, hsnapshot, ?_, hlater⟩
  rw [hlater _ (le_refl _)]
  refine ⟨fun hboth => hboth.1, fun hin => ⟨hin, fun p hp => ?_⟩⟩
  exact (proofProblem_eq_none.mp
    (((mem_eligibleOrder h).mp hin).combinedProofs_good p hp)).2.2

/-- A released resource is admitted at the end of its window, and held after it. -/
theorem dependencyHolds_snapshot_iff_lone : ∃ analysis s,
    analyzeDependencies namesAsDigests (releasedInventory ["a"] []) = .ok analysis ∧
      analysis.snapshots.get? (named "a") = some s ∧
      (dependencyHolds s (named "a") 2 = [] ↔ named "a" ∈ analysis.eligibleOrder ∧
        ∀ p ∈ (releasedInventory ["a"] []).combinedProofs (named "a"), p.Covers 2) := by
  obtain ⟨s, hs, -, hlater⟩ := dependencyHolds_snapshot_iff
    (show analyzeDependencies namesAsDigests (releasedInventory ["a"] []) = .ok _ from rfl)
    (show named "a" ∈ (releasedInventory ["a"] []).resources from mem_singleton_self _)
  exact ⟨_, s, rfl, hs, hlater 2 (by decide)⟩

end Workbay.Retention

import Workbay.Compiler.Proofs.JuniorProofs

/-!
# Proofs: which holds a twin closes

The emission records a blocker for each twin and for each lane that is held. Which of them a finished
twin closes is read off the ids alone.
-/

namespace Workbay.Compiler

open Workbay.Manifest List

theorem foldl_addKey {closes : String → Bool} {keys : List String} : ∀ {own : List String},
    own.Nodup → (keys.foldl (fun closed key =>
      if closes key ∧ key ∉ closed then closed ++ [key] else closed) own).Nodup ∧
    ∀ key, key ∈ keys.foldl (fun closed key =>
      if closes key ∧ key ∉ closed then closed ++ [key] else closed) own ↔
        key ∈ own ∨ (key ∈ keys ∧ closes key = true) := by
  induction keys with
  | nil =>
    intro own hown
    exact ⟨hown, fun key => by simp⟩
  | cons next rest ih =>
    intro own hown
    rw [foldl_cons]
    split
    · rename_i hnext
      obtain ⟨hnodup, hmem⟩ := @ih (own ++ [next]) (by
        rw [nodup_append_comm, singleton_append, nodup_cons]
        exact ⟨hnext.2, hown⟩)
      refine ⟨hnodup, fun key => ?_⟩
      rw [hmem, mem_append, mem_singleton, mem_cons, or_assoc, or_and_right]
      refine or_congr_right (or_congr_left ⟨?_, And.left⟩)
      rintro rfl
      exact ⟨rfl, hnext.1⟩
    · rename_i hnext
      obtain ⟨hnodup, hmem⟩ := ih hown
      refine ⟨hnodup, fun key => ?_⟩
      rw [hmem, mem_cons, or_and_right, or_left_comm]
      refine (or_iff_right_of_imp ?_).symm
      rintro ⟨rfl, hcloses⟩
      by_contra hnone
      exact hnext ⟨hcloses, fun hin => hnone (.inl hin)⟩

theorem holdsResolvedByTwin_spec (twin : String) (keys : List String) :
    (holdsResolvedByTwin twin keys).Nodup ∧ ∀ key, key ∈ holdsResolvedByTwin twin keys ↔
      key ∈ keys ∧ ((key = twin ∧ twin ≠ "") ∨
        (twin = sharedGateId ∧ endsWith key (verifyNamespace ++ "no_reviewer") = true)) := by
  obtain ⟨own, howned⟩ : ∃ own, own = if twin ≠ "" ∧ twin ∈ keys then [twin] else [] := ⟨_, rfl⟩
  have hnodup : own.Nodup := by
    rw [howned]
    split
    · exact nodup_singleton _
    · exact nodup_nil
  have hown : ∀ key, key ∈ own ↔ key ∈ keys ∧ key = twin ∧ twin ≠ "" := by
    intro key
    rw [howned]
    split
    · rename_i hin
      rw [mem_singleton]
      exact ⟨fun heq => ⟨heq ▸ hin.2, heq, hin.1⟩, fun hkey => hkey.2.1⟩
    · rename_i hnot
      refine ⟨fun hin => (by cases hin), ?_⟩
      rintro ⟨hin, rfl, hne⟩
      exact absurd ⟨hne, hin⟩ hnot
  unfold holdsResolvedByTwin
  simp only
  rw [← howned]
  split
  · rename_i hgate
    refine ⟨(foldl_addKey hnodup).1, fun key => ?_⟩
    rw [(foldl_addKey hnodup).2, hown, and_or_left, and_iff_right hgate]
  · rename_i hgate
    refine ⟨hnodup, fun key => ?_⟩
    rw [hown]
    simp [hgate]

theorem mem_holdsResolvedByTwin {twin key : String} {keys : List String} :
    key ∈ holdsResolvedByTwin twin keys ↔ key ∈ keys ∧ ((key = twin ∧ twin ≠ "") ∨
      (twin = sharedGateId ∧ endsWith key (verifyNamespace ++ "no_reviewer") = true)) :=
  (holdsResolvedByTwin_spec twin keys).2 key

theorem endsWith_append (text suffix : String) : endsWith (text ++ suffix) suffix = true := by
  unfold endsWith
  rw [decide_eq_true_eq, String.toList_append]
  exact suffix_append _ _

theorem endsWith_twinId (laneId family : String) :
    endsWith (twinId laneId family) (verifyNamespace ++ family) = true := by
  unfold twinId
  rw [String.append_assoc]
  exact endsWith_append _ _

theorem endsWith_sharedGateId : endsWith sharedGateId (verifyNamespace ++ "no_reviewer") = true :=
  endsWith_twinId "wave_uncovered" "no_reviewer"

theorem not_endsWith_unknown {key : String}
    (h : endsWith key (verifyNamespace ++ "unknown_backend") = true) :
    endsWith key (verifyNamespace ++ "no_reviewer") = false := by
  unfold endsWith at *
  rw [decide_eq_true_eq] at h
  rw [decide_eq_false_iff_not]
  intro h'
  rcases suffix_or_suffix_of_suffix h h' with hsuffix | hsuffix
  · exact absurd hsuffix (by decide)
  · exact absurd hsuffix (by decide)

/-! ## The holds of a compilation -/

/-- The keys under which the blockers of a compilation are recorded. -/
def CompileResult.blockerKeys (result : CompileResult) : List String :=
  result.blockers.map Blocker.twinLaneId

/-- No twin of a lane is named as the hold of one. -/
def PlainTwins (result : CompileResult) : Prop :=
  ∀ row ∈ result.twinProvisioning, row.laneId = sharedGateId ∨
    (endsWith row.laneId (verifyNamespace ++ "no_reviewer") = false ∧
      endsWith row.laneId (verifyNamespace ++ "unknown_backend") = false)

/-- A blocker that was recorded for a lane, to be closed by a twin: the one of that twin, or the hold
of a lane that is left to the shared gate. -/
def RecordedFor (twin laneId : String) (blocker : Blocker) : Prop :=
  blocker = pendingBlocker twin laneId ∨ (twin = sharedGateId ∧ blocker = noReviewerHold laneId)

/-- The twins of a compilation close the holds of the lanes that they review. -/
structure HoldsClosed (result : CompileResult) : Prop where
  keys : ∀ twin, (holdsResolvedByTwin twin result.blockerKeys).Nodup ∧
    holdsResolvedByTwin twin result.blockerKeys ⊆ result.blockerKeys
  /-- A twin closes exactly what was recorded for the lanes that it waits for. -/
  own : ∀ row ∈ result.twinProvisioning, ∀ blocker ∈ result.blockers,
    (blocker.twinLaneId ∈ holdsResolvedByTwin row.laneId result.blockerKeys ↔
      ∃ laneId ∈ prereqsIn result.manifest row.laneId, RecordedFor row.laneId laneId blocker)
  /-- The shared gate closes every hold of a lane without a reviewer. -/
  gate : ∀ laneId, noReviewerHold laneId ∈ result.blockers →
    (∃ row ∈ result.twinProvisioning, row.laneId = sharedGateId) ∧
      (noReviewerHold laneId).twinLaneId ∈ holdsResolvedByTwin sharedGateId result.blockerKeys
  /-- All twins together leave the holds of unknown backends, and no others. -/
  all : ∀ blocker ∈ result.blockers,
    (∃ row ∈ result.twinProvisioning,
      blocker.twinLaneId ∈ holdsResolvedByTwin row.laneId result.blockerKeys) ↔
      ∀ laneId backend, blocker ≠ unknownBackendHold laneId backend

section

variable {host : Host} {registry : Registry} {options : Options} {items : List Fields}
  {result : CompileResult} {graph : WorkGraph} {state : Emission}

/-- A blocker is that of a twin, or the hold of a lane without a reviewer, or of an unknown
backend. -/
theorem Compiled.blocker_cases (h : Compiled host registry options items result graph state)
    {blocker : Blocker} (hin : blocker ∈ result.blockers) :
    (∃ row ∈ result.twinProvisioning, ∃ laneId, blocker = pendingBlocker row.laneId laneId) ∨
    ((∃ laneId, blocker = noReviewerHold laneId) ∧
      ∃ row ∈ result.twinProvisioning, row.laneId = sharedGateId) ∨
    ∃ laneId backend, blocker = unknownBackendHold laneId backend := by
  cases htwins : options.emitVerifyTwins with
  | true =>
    obtain ⟨-, seen, held, hemitting, -, hext, hkinds, -, -, -, -, hprovisioning, hblockers⟩ :=
      addTwins_seen h.merged h.notTwin htwins h.twins
    have hrow : ∀ row, row ∈ result.twinProvisioning ↔ row ∈ held.provisioning := by
      intro row
      rw [h.twinProvisioning, hprovisioning.mem_iff]
    rw [h.blockers, hblockers.mem_iff] at hin
    rcases hkinds blocker hin with hin | ⟨hhold, row, hgate, heq⟩
    · rcases hemitting.blockers blocker hin with ⟨row, hin, laneId, -, heq⟩ | ⟨laneId, -, -, heq⟩
      · exact .inl ⟨row, (hrow row).mpr (hext.provisioning hin), laneId, heq⟩
      · exact .inr (.inr ⟨laneId, _, heq⟩)
    · exact .inr (.inl ⟨hhold, row, (hrow row).mpr hgate, heq⟩)
  | false =>
    have hstate := h.twins
    unfold addTwins at hstate
    rw [htwins, if_neg Bool.false_ne_true] at hstate
    obtain ⟨-, hstate⟩ := check_then_eq_ok.mp hstate
    obtain rfl := Except.ok.inj hstate
    rw [h.blockers] at hin
    cases hin

theorem Compiled.closes_iff (h : Compiled host registry options items result graph state)
    (hplain : PlainTwins result) {row : Provision} (hrow : row ∈ result.twinProvisioning)
    (hne : row.laneId ≠ "") {blocker : Blocker} (hin : blocker ∈ result.blockers) :
    blocker.twinLaneId ∈ holdsResolvedByTwin row.laneId result.blockerKeys ↔
      ∃ laneId, RecordedFor row.laneId laneId blocker := by
  have hkey : blocker.twinLaneId ∈ result.blockerKeys := mem_map_of_mem hin
  rw [mem_holdsResolvedByTwin, and_iff_right hkey]
  constructor
  · rcases h.blocker_cases hin with ⟨other, hother, laneId, rfl⟩ | ⟨⟨laneId, rfl⟩, -⟩ |
      ⟨laneId, backend, rfl⟩
    · rintro (⟨heq, -⟩ | ⟨hgate, hends⟩)
      · exact ⟨laneId, .inl (congrArg (pendingBlocker · laneId) heq)⟩
      · -- only the shared gate is named as a hold
        rcases hplain other hother with heq | ⟨hnot, -⟩
        · exact ⟨laneId, .inl (by rw [heq, hgate])⟩
        · rw [show endsWith other.laneId _ = true from hends] at hnot
          cases hnot
    · intro hcloses
      refine ⟨laneId, .inr ⟨?_, rfl⟩⟩
      rcases hcloses with ⟨heq, -⟩ | ⟨hgate, -⟩
      · refine (hplain row hrow).resolve_right fun hnot => ?_
        rw [← heq, show endsWith (noReviewerHold laneId).twinLaneId _ = true from
          endsWith_twinId laneId "no_reviewer"] at hnot
        cases hnot.1
      · exact hgate
    · have hends : endsWith (unknownBackendHold laneId backend).twinLaneId
          (verifyNamespace ++ "unknown_backend") = true := endsWith_twinId laneId _
      have hother := not_endsWith_unknown hends
      rintro (⟨heq, -⟩ | ⟨-, hgate⟩)
      · rw [heq] at hends hother
        rcases hplain row hrow with hgate | hnot
        · rw [hgate, endsWith_sharedGateId] at hother
          cases hother
        · rw [hnot.2] at hends
          cases hends
      · rw [hother] at hgate
        cases hgate
  · rintro ⟨laneId, rfl | ⟨hgate, rfl⟩⟩
    · exact .inl ⟨rfl, hne⟩
    · exact .inr ⟨hgate, endsWith_twinId laneId "no_reviewer"⟩

end

/-- The twins of every compilation close the holds of the lanes that they review, unless a twin is
named as a hold. -/
theorem compileWorkManifest_holdsClosed {host : Host} {registry : Registry} {options : Options}
    {items : List Fields} {result : CompileResult}
    (h : compileWorkManifest host registry options items = .ok result)
    (hplain : PlainTwins result) : HoldsClosed result := by
  obtain ⟨graph, state, hcompiled⟩ := compileWorkManifest_compiled h
  have hemits : result.twinProvisioning ≠ [] → options.emitVerifyTwins = true := by
    intro hsome
    by_contra hnot
    have hstate := hcompiled.twins
    unfold addTwins at hstate
    rw [if_neg hnot] at hstate
    obtain ⟨-, hstate⟩ := check_then_eq_ok.mp hstate
    obtain rfl := Except.ok.inj hstate
    exact hsome hcompiled.twinProvisioning
  have hgated : ∀ row ∈ result.twinProvisioning, Gated registry result := fun row hrow =>
    hcompiled.gated (hemits (ne_nil_of_mem hrow))
  have hne : ∀ row ∈ result.twinProvisioning, row.laneId ≠ "" := by
    intro row hrow heq
    have hname := (((hgated row hrow).twins row.laneId).mpr ⟨row, hrow, rfl⟩).2
    rw [heq] at hname
    exact absurd hname (by decide)
  have hrecorded : ∀ row ∈ result.twinProvisioning, ∀ blocker ∈ result.blockers,
      (∃ laneId, RecordedFor row.laneId laneId blocker) ↔
        ∃ laneId ∈ prereqsIn result.manifest row.laneId, RecordedFor row.laneId laneId blocker := by
    intro row hrow blocker hin
    refine exists_congr fun laneId => (and_iff_right_of_imp fun hfor => ?_).symm
    rw [((hgated row hrow).prereqs row hrow).2]
    rcases hfor with rfl | ⟨hgate, rfl⟩
    · exact .inl hin
    · exact .inr ⟨hgate, hin⟩
  constructor
  · exact fun twin => ⟨(holdsResolvedByTwin_spec twin _).1,
      fun key hkey => (mem_holdsResolvedByTwin.mp hkey).1⟩
  · intro row hrow blocker hin
    rw [hcompiled.closes_iff hplain hrow (hne row hrow) hin, hrecorded row hrow blocker hin]
  · intro laneId hin
    have hgate : ∃ row ∈ result.twinProvisioning, row.laneId = sharedGateId := by
      rcases hcompiled.blocker_cases hin with ⟨row, -, other, heq⟩ | ⟨-, hgate⟩ |
        ⟨other, backend, heq⟩
      · exact absurd heq.symm (pendingBlocker_ne_noReviewerHold _ _ _)
      · exact hgate
      · exact absurd heq.symm (unknownBackendHold_ne_noReviewerHold _ _ _)
    exact ⟨hgate, mem_holdsResolvedByTwin.mpr
      ⟨mem_map_of_mem hin, .inr ⟨rfl, endsWith_twinId laneId "no_reviewer"⟩⟩⟩
  · intro blocker hin
    constructor
    · rintro ⟨row, hrow, hcloses⟩ laneId backend rfl
      obtain ⟨other, heq | ⟨-, heq⟩⟩ :=
        (hcompiled.closes_iff hplain hrow (hne row hrow) hin).mp hcloses
      · exact unknownBackendHold_ne_pendingBlocker _ _ _ _ heq
      · exact unknownBackendHold_ne_noReviewerHold _ _ _ heq
    · intro hknown
      rcases hcompiled.blocker_cases hin with ⟨row, hrow, laneId, rfl⟩ |
        ⟨⟨laneId, rfl⟩, row, hrow, hgate⟩ | ⟨laneId, backend, rfl⟩
      · exact ⟨row, hrow, (hcompiled.closes_iff hplain hrow (hne row hrow) hin).mpr
          ⟨laneId, .inl rfl⟩⟩
      · exact ⟨row, hrow, (hcompiled.closes_iff hplain hrow (hne row hrow) hin).mpr
          ⟨laneId, .inr ⟨hgate, rfl⟩⟩⟩
      · exact absurd rfl (hknown laneId backend)

theorem compileWorkManifest_holdsClosed_sample : ∃ result,
    compileWorkManifest sampleHost loneRegistry juniorOptions neighbourItems = .ok result ∧
      HoldsClosed result := by
  have hchecked : (compileWorkManifest sampleHost loneRegistry juniorOptions
      neighbourItems).toOption.any (fun (result : CompileResult) => decide
        (∀ row ∈ result.twinProvisioning, row.laneId = sharedGateId ∨
          (endsWith row.laneId (verifyNamespace ++ "no_reviewer") = false ∧
            endsWith row.laneId (verifyNamespace ++ "unknown_backend") = false))) = true := by
    decide +kernel
  cases h : compileWorkManifest sampleHost loneRegistry juniorOptions neighbourItems with
  | ok result =>
    rw [h] at hchecked
    have hplain := of_decide_eq_true hchecked
    exact ⟨result, rfl, compileWorkManifest_holdsClosed h hplain⟩
  | error refusal =>
    rw [h] at hchecked
    cases hchecked

/-- An item whose backend is not registered, beside one that gets its twins. -/
def unlistedItems : List Fields :=
  [sampleItem "a" ["src/a"] [("preferred_backend", .str "unlisted")],
    sampleItem "b" ["src/b"] [("preferred_backend", .str "codex-remote")]]

/-- All twins are finished, and the hold of the unknown backend is left. -/
theorem unknown_backend_stays_held : ∃ result,
    compileWorkManifest sampleHost sampleRegistry { taskRef := "T-1" } unlistedItems = .ok result ∧
      result.twinProvisioning ≠ [] ∧ ∃ blocker ∈ result.blockers,
        ∀ row ∈ result.twinProvisioning,
          blocker.twinLaneId ∉ holdsResolvedByTwin row.laneId result.blockerKeys := by
  have hchecked : (compileWorkManifest sampleHost sampleRegistry { taskRef := "T-1" }
      unlistedItems).toOption.any (fun (result : CompileResult) => decide
        (result.twinProvisioning ≠ [] ∧ ∃ blocker ∈ result.blockers,
          ∀ row ∈ result.twinProvisioning,
            blocker.twinLaneId ∉ holdsResolvedByTwin row.laneId result.blockerKeys)) = true := by
    decide +kernel
  cases h : compileWorkManifest sampleHost sampleRegistry { taskRef := "T-1" } unlistedItems with
  | ok result =>
    rw [h] at hchecked
    exact ⟨result, rfl, of_decide_eq_true hchecked⟩
  | error refusal =>
    rw [h] at hchecked
    cases hchecked

end Workbay.Compiler

import Mathlib.Data.List.Pairwise
import Workbay.Compiler.Proofs.CompileProofs

/-!
# Proofs: verify twins gate the implement lanes
-/

namespace Workbay.Compiler

open Workbay.Manifest Workbay.Graph

/-- The prerequisites of a lane in a manifest. -/
def prereqsIn (manifest : Fields) (laneId : String) : List String :=
  successors (adjacencyOf manifest "depends_on") laneId

/-- The fields of a lane in a manifest. -/
def laneIn (manifest : Fields) (laneId : String) : Fields :=
  ((Dict.get? (members manifest "lanes") laneId).bind Json.obj?).getD []

/-- The twins of a compiled manifest gate its implement lanes, which are those with a plain name. -/
structure Gated (registry : Registry) (result : CompileResult) : Prop where
  /-- The twins are the lanes that are provisioned, with their reviewers. -/
  twins : ∀ laneId, (laneId ∈ laneIdsOf result.manifest ∧ isVerifyTwin laneId = true) ↔
    ∃ row ∈ result.twinProvisioning, row.laneId = laneId
  backend : ∀ row ∈ result.twinProvisioning,
    preferredBackend (laneIn result.manifest row.laneId) = row.preferredBackend
  /-- A twin waits for exactly the lanes that it reviews. -/
  prereqs : ∀ row ∈ result.twinProvisioning, (prereqsIn result.manifest row.laneId ≠ [] ∧
    ∀ laneId, laneId ∈ prereqsIn result.manifest row.laneId ↔
      Reviews result.blockers row.laneId laneId)
  /-- A reviewer is of another family than the backend of a lane that it reviews. -/
  independent : ∀ row ∈ result.twinProvisioning, ∀ laneId,
    Reviews result.blockers row.laneId laneId →
      laneId ∈ laneIdsOf result.manifest ∧ isVerifyTwin laneId = false ∧
        ∃ spec, Reviewer registry (preferredBackend (laneIn result.manifest laneId))
          row.preferredBackend spec
  /-- What waits for an implement lane waits for its twins. -/
  dependents : ∀ consumer laneId twin, isVerifyTwin consumer = false →
    laneId ∈ prereqsIn result.manifest consumer → pendingBlocker twin laneId ∈ result.blockers →
      twin ∈ prereqsIn result.manifest consumer
  acyclic : Acyclic (prereqsIn result.manifest)
  /-- An implement lane has a twin, or is held without a reviewer, or for its backend. -/
  covered : ∀ laneId ∈ laneIdsOf result.manifest, isVerifyTwin laneId = false →
    (∃ twin, pendingBlocker twin laneId ∈ result.blockers) ∨
      noReviewerHold laneId ∈ result.blockers ∨
      (registry.get? (preferredBackend (laneIn result.manifest laneId)) = none ∧
        unknownBackendHold laneId (preferredBackend (laneIn result.manifest laneId)) ∈
          result.blockers)

theorem laneIn_manifestOf {taskRef : String} {lanes : Dict String Fields}
    {dependsOn : Dict String (List String)} {conflicts : Fields}
    (hnodup : (lanes.map Prod.fst).Nodup) (laneId : String) :
    laneIn (manifestOf taskRef lanes dependsOn conflicts) laneId = lanes.getD laneId [] := by
  unfold laneIn Dict.getD
  rw [get?_lanes hnodup]
  cases lanes.get? laneId <;> rfl

theorem Compiled.gated {host : Host} {registry : Registry} {options : Options}
    {items : List Fields} {result : CompileResult} {graph : WorkGraph} {state : Emission}
    (hcompiled : Compiled host registry options items result graph state)
    (htwins : options.emitVerifyTwins = true) : Gated registry result := by
  obtain ⟨emitted, hemitted, hlanes, hdepends, hprovisioning, hblockers⟩ :=
    addTwins_emitted hcompiled.merged hcompiled.notTwin htwins hcompiled.twins
  obtain ⟨conflicts, hmanifest⟩ := hcompiled.manifest
  have hdependsNodup : (state.dependsOn.map Prod.fst).Nodup := by
    rw [hdepends, map_fst_reroute]
    exact hemitted.dependsOnNodup
  have hprereqs : ∀ laneId,
      prereqsIn result.manifest laneId = Dict.getD (reroute graph.laneIds emitted) laneId [] := by
    intro laneId
    unfold prereqsIn
    rw [hmanifest, successors_dependsOn hdependsNodup, hdepends]
  have hlane : ∀ laneId, laneIn result.manifest laneId = emitted.lanes.getD laneId [] := by
    intro laneId
    rw [hmanifest, hlanes, laneIn_manifestOf hemitted.lanesNodup]
  have himpl : ∀ laneId ∈ graph.laneIds,
      preferredBackend (laneIn result.manifest laneId) = implBackend graph.lanes laneId := by
    intro laneId hin
    rw [hlane, implBackend, Dict.getD, Dict.getD, hemitted.lanesWork laneId hin]
  have hids : ∀ laneId, laneId ∈ laneIdsOf result.manifest ↔
      (emitted.lanes.get? laneId).isSome := by
    intro laneId
    rw [hmanifest, hlanes, mem_laneIdsOf, Dict.get?_isSome_iff]
  have hrow : ∀ row, row ∈ result.twinProvisioning ↔ row ∈ emitted.provisioning := by
    intro row
    rw [hcompiled.twinProvisioning, hprovisioning.mem_iff]
  have hblocker : ∀ blocker, blocker ∈ result.blockers ↔ blocker ∈ emitted.blockers := by
    intro blocker
    rw [hcompiled.blockers, hblockers.mem_iff]
  have hreviews : ∀ twin laneId,
      Reviews result.blockers twin laneId ↔ Reviews emitted.blockers twin laneId := by
    intro twin laneId
    unfold Reviews
    rw [hblocker, hblocker]
  have hplain : ∀ laneId, laneId ∈ laneIdsOf result.manifest → isVerifyTwin laneId = false →
      laneId ∈ graph.laneIds := by
    intro laneId hin hname
    refine (hemitted.laneKeys laneId ((hids laneId).mp hin)).resolve_right ?_
    rintro ⟨row, hrowIn, rfl⟩
    rw [(hemitted.rows row hrowIn).named] at hname
    cases hname
  have hwork : ∀ laneId ∈ graph.laneIds, laneId ∈ laneIdsOf result.manifest := by
    intro laneId hin
    rw [hids, hemitted.lanesWork laneId hin]
    exact hcompiled.merged.mem_laneIds.mp hin
  constructor
  · intro laneId
    constructor
    · rintro ⟨hin, hname⟩
      rcases hemitted.laneKeys laneId ((hids laneId).mp hin) with hin | ⟨row, hin, heq⟩
      · rw [hcompiled.notTwin laneId hin] at hname
        cases hname
      · exact ⟨row, (hrow row).mpr hin, heq⟩
    · rintro ⟨row, hin, rfl⟩
      have hprovisioned := hemitted.rows row ((hrow row).mp hin)
      obtain ⟨lane, hget, -⟩ := hprovisioned.lane
      exact ⟨(hids _).mpr (by rw [hget]; rfl), hprovisioned.named⟩
  · intro row hin
    obtain ⟨lane, hget, hbackend, -⟩ := (hemitted.rows row ((hrow row).mp hin)).lane
    rw [hlane, Dict.getD, hget]
    exact hbackend
  · intro row hin
    have hprovisioned := hemitted.rows row ((hrow row).mp hin)
    obtain ⟨prereqs, hget, hne, hmem⟩ := hprovisioned.depends
    have hiff : ∀ laneId, laneId ∈ prereqsIn result.manifest row.laneId ↔ laneId ∈ prereqs := by
      intro laneId
      rw [hprereqs, getD_reroute, hprovisioned.named, Dict.getD, hget]
      simp
    refine ⟨fun hnil => ?_, fun laneId => ?_⟩
    · obtain ⟨laneId, hin⟩ := List.exists_mem_of_ne_nil _ hne
      have hmem := (hiff laneId).mpr hin
      rw [hnil] at hmem
      cases hmem
    · rw [hiff, hmem, hreviews]
  · intro row hin laneId hreview
    obtain ⟨hlaneId, hreviewer⟩ := (hemitted.rows row ((hrow row).mp hin)).reviewer laneId
      ((hreviews _ _).mp hreview)
    rw [himpl laneId hlaneId]
    exact ⟨hwork laneId hlaneId, hcompiled.notTwin laneId hlaneId, hreviewer⟩
  · intro consumer laneId twin hconsumer hin hpending
    obtain ⟨hlisted, row, hrowIn, rfl⟩ := hemitted.pending twin laneId ((hblocker _).mp hpending)
    obtain ⟨hlaneId, -⟩ := (hemitted.rows row hrowIn).reviewer laneId
      (.inl ((hblocker _).mp hpending))
    rw [hprereqs, getD_reroute] at hin ⊢
    rcases hin with hin | ⟨-, prereq, -, -, htwin⟩
    · exact .inr ⟨hconsumer, laneId, hin, hlaneId, hlisted⟩
    · have hname := hemitted.listed prereq laneId htwin
      rw [hcompiled.notTwin laneId hlaneId] at hname
      cases hname
  · exact hcompiled.accepted.acyclic
  · intro laneId hin hname
    have hlaneId := hplain laneId hin hname
    rw [himpl laneId hlaneId]
    refine (hemitted.covered laneId hlaneId).imp ?_ (Or.imp ?_ ?_)
    · rintro ⟨twin, htwin⟩
      exact ⟨twin, (hblocker _).mpr htwin⟩
    · exact fun hheld => (hblocker _).mpr hheld
    · exact fun hheld => ⟨hheld.1, (hblocker _).mpr hheld.2⟩

/-- Every compilation that emits twins gates its implement lanes. -/
theorem compileWorkManifest_gated {host : Host} {registry : Registry} {options : Options}
    {items : List Fields} {result : CompileResult} (htwins : options.emitVerifyTwins = true)
    (h : compileWorkManifest host registry options items = .ok result) :
    Gated registry result := by
  obtain ⟨graph, state, hcompiled⟩ := compileWorkManifest_compiled h
  exact hcompiled.gated htwins

theorem compileWorkManifest_gated_sample : ∃ result,
    compileWorkManifest sampleHost sampleRegistry { taskRef := "T-1" } sampleItems = .ok result ∧
      Gated sampleRegistry result := by
  cases h : compileWorkManifest sampleHost sampleRegistry { taskRef := "T-1" } sampleItems with
  | ok result => exact ⟨result, rfl, compileWorkManifest_gated rfl h⟩
  | error refusal =>
    have hcompiles : (compileWorkManifest sampleHost sampleRegistry { taskRef := "T-1" }
        sampleItems).toOption.isSome = true := by decide +kernel
    rw [h] at hcompiles
    cases hcompiles

/-- A lane whose backend is not registered gets neither a twin nor the hold of a lane without a
reviewer. -/
theorem unknown_backend_without_reviewer_hold : ∃ result,
    compileWorkManifest sampleHost sampleRegistry { taskRef := "T-1" }
        [sampleItem "a" ["src/a"] [("preferred_backend", .str "unlisted")]] = .ok result ∧
      "a" ∈ laneIdsOf result.manifest ∧ isVerifyTwin "a" = false ∧
      result.twinProvisioning = [] ∧ noReviewerHold "a" ∉ result.blockers := by
  cases h : compileWorkManifest sampleHost sampleRegistry { taskRef := "T-1" }
      [sampleItem "a" ["src/a"] [("preferred_backend", .str "unlisted")]] with
  | ok result =>
    have hchecked : (compileWorkManifest sampleHost sampleRegistry { taskRef := "T-1" }
        [sampleItem "a" ["src/a"] [("preferred_backend", .str "unlisted")]]).toOption.all
          fun result => "a" ∈ laneIdsOf result.manifest ∧ isVerifyTwin "a" = false ∧
            result.twinProvisioning = [] ∧ noReviewerHold "a" ∉ result.blockers := by
      decide +kernel
    rw [h] at hchecked
    exact ⟨result, rfl, of_decide_eq_true hchecked⟩
  | error refusal =>
    have hcompiles : (compileWorkManifest sampleHost sampleRegistry { taskRef := "T-1" }
        [sampleItem "a" ["src/a"] [("preferred_backend", .str "unlisted")]]).toOption.isSome =
          true := by decide +kernel
    rw [h] at hcompiles
    cases hcompiles

end Workbay.Compiler

/-!
## Proofs: a compiled work graph is free of collisions
-/

namespace Workbay.Compiler

open Relation Workbay.Manifest Workbay.Graph List

/-- The whole tree is among the roots of some members, and is not the only one. -/
def WholeTreeBeside (byId : Items) (members : List String) : Prop :=
  (∃ member ∈ members, "" ∈ rootsOfItem byId member) ∧
    ∃ member ∈ members, ∃ root ∈ rootsOfItem byId member, root ≠ ""

theorem mem_laneOwnedPaths {byId : Items} {members : List String} {root : String} :
    root ∈ laneOwnedPaths byId members ↔
      (∃ member ∈ members, root ∈ rootsOfItem byId member) ∧
        ¬ (root = "" ∧ WholeTreeBeside byId members) := by
  have hroots : ∀ x, x ∈ (members.flatMap (rootsOfItem byId)).dedup ↔
      ∃ member ∈ members, x ∈ rootsOfItem byId member := by
    intro x
    rw [mem_dedup, mem_flatMap]
  have hnodup := nodup_dedup (members.flatMap (rootsOfItem byId))
  have hbeside : ("" ∈ (members.flatMap (rootsOfItem byId)).dedup ∧
      1 < (members.flatMap (rootsOfItem byId)).dedup.length) ↔ WholeTreeBeside byId members := by
    unfold WholeTreeBeside
    rw [hroots]
    refine and_congr_right fun hwhole => ?_
    constructor
    · intro hlen
      by_contra hnone
      have hall : ∀ x ∈ (members.flatMap (rootsOfItem byId)).dedup, x = "" := by
        intro x hx
        by_contra hne
        obtain ⟨member, hmember, hin⟩ := (hroots x).mp hx
        exact hnone ⟨member, hmember, x, hin, hne⟩
      have hle := (subperm_of_subset hnodup
        (fun x hx => mem_singleton.mpr (hall x hx) :
          (members.flatMap (rootsOfItem byId)).dedup ⊆ [""])).length_le
      rw [length_singleton] at hle
      omega
    · rintro ⟨member, hmember, x, hx, hne⟩
      have hpair : ["", x].Subperm (members.flatMap (rootsOfItem byId)).dedup := by
        refine subperm_of_subset (by simp [Ne.symm hne]) fun y hy => ?_
        rw [hroots]
        rcases mem_cons.mp hy with rfl | hy
        · exact hwhole
        · exact ⟨member, hmember, mem_singleton.mp hy ▸ hx⟩
      exact hpair.length_le
  unfold laneOwnedPaths
  simp only
  rw [mem_insertionSort]
  by_cases hdrop : "" ∈ (members.flatMap (rootsOfItem byId)).dedup ∧
      1 < (members.flatMap (rootsOfItem byId)).dedup.length
  · rw [if_pos hdrop, mem_filter, hroots]
    refine and_congr_right fun _ => ?_
    simp [hbeside.mp hdrop]
  · rw [if_neg hdrop, hroots]
    exact (and_iff_left fun h => hdrop (hbeside.mpr h.2)).symm

theorem textsOf_owned {byId : Items} {members : List String} {lane : Fields}
    (h : OwnsRootsOf byId members lane) :
    textsOf lane "owned_paths" = laneOwnedPaths byId members := by
  unfold textsOf
  rw [h.1]
  simp [strings]

/-- The lanes of a compiled manifest, with the lane of every item. -/
structure CollisionFree (items : List Fields) (manifest : Fields) (lane : String → String) :
    Prop where
  /-- Every item has a lane, and every lane has an item, or is a twin that owns nothing. -/
  assigned : ∀ item ∈ items, lane (idOf item) ∈ laneIdsOf manifest
  inhabited : ∀ laneId ∈ laneIdsOf manifest, (∃ item ∈ items, lane (idOf item) = laneId) ∨
    (isVerifyTwin laneId = true ∧ textsOf (laneIn manifest laneId) "owned_paths" = [])
  /-- Two items have one lane when they are joined. -/
  classes : ∀ a ∈ items, ∀ b ∈ items, (lane (idOf a) = lane (idOf b) ↔
    EqvGen (Joined (items.map fun item => (idOf item, item))) (idOf a) (idOf b))
  /-- A path of an item is owned by its lane only, and by that one unless it is the whole tree
  beside others. -/
  owners : ∀ item ∈ items, ∃ roots, itemRoots item = .ok roots ∧
    ∀ root ∈ roots, ∀ laneId ∈ laneIdsOf manifest,
      (root ∈ textsOf (laneIn manifest laneId) "owned_paths" ↔
        laneId = lane (idOf item) ∧ ¬ (root = "" ∧ ∃ other ∈ items,
          lane (idOf other) = laneId ∧ ∃ roots', itemRoots other = .ok roots' ∧
            ∃ root' ∈ roots', root' ≠ ""))
  owned : ∀ laneId ∈ laneIdsOf manifest,
    ∀ root ∈ textsOf (laneIn manifest laneId) "owned_paths",
      ∃ item ∈ items, lane (idOf item) = laneId ∧ ∃ roots, itemRoots item = .ok roots ∧ root ∈ roots
  /-- Lanes whose roots overlap are ordered, or joined by an edge between two colours. -/
  apart : ∀ a ∈ laneIdsOf manifest, ∀ b ∈ laneIdsOf manifest, a ≠ b →
    ∀ left ∈ ownedRoots (laneIn manifest a), ∀ right ∈ ownedRoots (laneIn manifest b),
      ownedPathRootsOverlap left right = true →
        (ReflTransGen (Step (prereqsIn manifest)) a b ∨
          ReflTransGen (Step (prereqsIn manifest)) b a) ∨
        (unordered a b ∈ conflictPairs manifest ∧ Bicoloured (colourClasses manifest) a b)
  acyclic : Acyclic (prereqsIn manifest)
  /-- The merge order has every lane once, after its prerequisites. -/
  mergeOrder : (textsOf manifest "merge_order").Perm (laneIdsOf manifest) ∧
    ∀ front laneId back, textsOf manifest "merge_order" = front ++ laneId :: back →
      ∀ prereq ∈ prereqsIn manifest laneId, prereq ∈ front
  downstream : ∀ laneId dependent,
    dependent ∈ successors (adjacencyOf manifest "downstream") laneId ↔
      laneId ∈ prereqsIn manifest dependent

section

variable {host : Host} {registry : Registry} {options : Options} {items : List Fields}
  {result : CompileResult} {graph : WorkGraph} {state : Emission}

section

variable (h : Compiled host registry options items result graph state)

include h

theorem Compiled.itemRoots_eq (hnodup : (items.map idOf).Nodup) {item : Fields} (hin : item ∈ items) :
    itemRoots item =
      .ok (rootsOfItem (items.map fun item => (idOf item, item)) (idOf item)) := by
  have hget : Dict.get? (items.map fun item => (idOf item, item)) (idOf item) = some item := by
    refine Dict.get?_of_mem ?_ (List.mem_map_of_mem hin)
    rw [List.map_map]
    exact hnodup
  have hcheck := (h.workItems item hin).2.2
  unfold checkItem at hcheck
  obtain ⟨-, hcheck⟩ := check_then_eq_ok.mp hcheck
  obtain ⟨-, hcheck⟩ := check_then_eq_ok.mp hcheck
  unfold rootsOfItem itemOf Dict.getD
  rw [hget, Option.getD_some]
  split at hcheck
  · cases hcheck
  · rename_i roots hroots
    rw [hroots]
    rfl

theorem Compiled.mem_ids {itemId : String} :
    itemId ∈ sortedIds (items.map fun item => (idOf item, item)) ↔
      ∃ item ∈ items, idOf item = itemId := by
  rw [h.ids, mem_insertionSort, mem_map]

theorem Compiled.laneOf_mem {item : Fields} (hin : item ∈ items) :
    laneOf graph.canon (idOf item) ∈ graph.laneIds :=
  (h.merged.laneIds _).mpr ⟨idOf item, h.mem_ids.mpr ⟨item, hin, rfl⟩, rfl⟩

theorem Compiled.mem_membersOf {laneId itemId : String} (hlane : laneId ∈ graph.laneIds) :
    itemId ∈ graph.membersOf laneId ↔
      ∃ item ∈ items, idOf item = itemId ∧ laneOf graph.canon itemId = laneId := by
  rw [h.merged.membersOf laneId hlane, h.mem_ids]
  constructor
  · rintro ⟨⟨item, hin, heq⟩, hof⟩
    exact ⟨item, hin, heq, hof⟩
  · rintro ⟨item, hin, heq, hof⟩
    exact ⟨⟨item, hin, heq⟩, hof⟩

theorem Compiled.laneIn_owns {laneId : String} (hlane : laneId ∈ laneIdsOf result.manifest) :
    (laneId ∈ graph.laneIds ∧ OwnsRootsOf (items.map fun item => (idOf item, item))
        (graph.membersOf laneId) (laneIn result.manifest laneId)) ∨
      (laneId ∉ graph.laneIds ∧ isVerifyTwin laneId = true ∧
        Dict.get? (laneIn result.manifest laneId) "owned_paths" = some (.arr [])) := by
  obtain ⟨conflicts, hmanifest⟩ := h.manifest
  have hadded := addTwins_added h.merged h.notTwin h.twins
  rw [hmanifest, mem_laneIdsOf, ← Dict.get?_isSome_iff] at hlane
  obtain ⟨lane, hget⟩ := Option.isSome_iff_exists.mp hlane
  rw [hmanifest, laneIn_manifestOf hadded.laneNodup, Dict.getD, hget, Option.getD_some]
  by_cases hwork : laneId ∈ graph.laneIds
  · rw [hadded.work laneId hwork] at hget
    exact .inl ⟨hwork, h.merged.lanes laneId lane hget⟩
  · exact .inr ⟨hwork, (hadded.other laneId lane hget).resolve_left hwork⟩

theorem Compiled.mem_lanes {laneId : String} (hlane : laneId ∈ graph.laneIds) :
    laneId ∈ laneIdsOf result.manifest := by
  obtain ⟨conflicts, hmanifest⟩ := h.manifest
  have hadded := addTwins_added h.merged h.notTwin h.twins
  rw [hmanifest, mem_laneIdsOf, ← Dict.get?_isSome_iff, hadded.work laneId hlane]
  exact h.merged.mem_laneIds.mp hlane

theorem Compiled.mem_laneRoots {laneId root : String} (hlane : laneId ∈ laneIdsOf result.manifest)
    (hroot : root ∈ ownedRoots (laneIn result.manifest laneId)) :
    (laneId, ownedRoots (laneIn result.manifest laneId)) ∈
      laneRoots (members result.manifest "lanes") := by
  rcases h.laneIn_owns hlane with ⟨-, hretired⟩ | ⟨-, -, howned⟩
  · obtain ⟨conflicts, hmanifest⟩ := h.manifest
    have hadded := addTwins_added h.merged h.notTwin h.twins
    rw [hmanifest, mem_laneIdsOf, ← Dict.get?_isSome_iff] at hlane
    obtain ⟨lane, hget⟩ := Option.isSome_iff_exists.mp hlane
    have hlaneIn : laneIn result.manifest laneId = lane := by
      rw [hmanifest, laneIn_manifestOf hadded.laneNodup, Dict.getD, hget, Option.getD_some]
    rw [hlaneIn] at hretired hroot ⊢
    refine mem_filterMap.mpr ⟨(laneId, .obj lane), ?_, ?_⟩
    · refine Dict.mem_of_get? ?_
      rw [hmanifest, get?_lanes hadded.laneNodup, hget]
      rfl
    · simp [hretired.2, ne_nil_of_mem hroot]
  · unfold ownedRoots at hroot
    rw [howned] at hroot
    simp at hroot

theorem Compiled.mem_owned (hnodup : (items.map idOf).Nodup) {laneId root : String}
    (hlane : laneId ∈ laneIdsOf result.manifest) :
    root ∈ textsOf (laneIn result.manifest laneId) "owned_paths" ↔
      (∃ item ∈ items, laneOf graph.canon (idOf item) = laneId ∧
        ∃ roots, itemRoots item = .ok roots ∧ root ∈ roots) ∧
      ¬ (root = "" ∧ ∃ other ∈ items, laneOf graph.canon (idOf other) = laneId ∧
        ∃ roots', itemRoots other = .ok roots' ∧ ∃ root' ∈ roots', root' ≠ "") := by
  rcases h.laneIn_owns hlane with ⟨hwork, howns⟩ | ⟨hwork, -, howned⟩
  · -- the members of the lane are the items with this lane
    have hsome : ∀ p : String → Prop, (∃ member ∈ graph.membersOf laneId, ∃ root ∈
        rootsOfItem (items.map fun item => (idOf item, item)) member, p root) ↔
        ∃ item ∈ items, laneOf graph.canon (idOf item) = laneId ∧
          ∃ roots, itemRoots item = .ok roots ∧ ∃ root ∈ roots, p root := by
      intro p
      constructor
      · rintro ⟨member, hmember, root, hroot, hp⟩
        obtain ⟨item, hin, rfl, hof⟩ := (h.mem_membersOf hwork).mp hmember
        exact ⟨item, hin, hof, _, h.itemRoots_eq hnodup hin, root, hroot, hp⟩
      · rintro ⟨item, hin, hof, roots, hroots, root, hroot, hp⟩
        rw [h.itemRoots_eq hnodup hin] at hroots
        obtain rfl := Except.ok.inj hroots
        exact ⟨idOf item, (h.mem_membersOf hwork).mpr ⟨item, hin, rfl, hof⟩, root, hroot, hp⟩
    have howner := hsome (· = root)
    have hbeside := hsome (· ≠ "")
    have hwhole := hsome (· = "")
    simp only [exists_eq_right] at howner hwhole
    rw [textsOf_owned howns, mem_laneOwnedPaths, howner]
    refine and_congr_right fun hitem => not_congr (and_congr_right fun hempty => ?_)
    subst hempty
    unfold WholeTreeBeside
    rw [hwhole, hbeside]
    exact and_iff_right hitem
  · have hnone : textsOf (laneIn result.manifest laneId) "owned_paths" = [] := by
      unfold textsOf
      rw [howned]
      rfl
    rw [hnone]
    constructor
    · intro hin
      cases hin
    · rintro ⟨⟨item, hin, rfl, -⟩, -⟩
      exact absurd (h.laneOf_mem hin) hwork

theorem Compiled.prereqs {laneId prereq : String} (hin : prereq ∈ prereqsIn result.manifest laneId) :
    laneId ∈ laneIdsOf result.manifest ∧ prereq ∈ laneIdsOf result.manifest := by
  refine ⟨?_, successors_subset h.accepted.dependsOn hin⟩
  have hkey := mem_keys_of_successors (ne_nil_of_mem hin)
  obtain ⟨entry, hentry, rfl⟩ := mem_map.mp hkey
  obtain ⟨source, hsource, rfl⟩ := mem_map.mp hentry
  exact (h.accepted.dependsOn source hsource).1

theorem Compiled.apart {a b left right : String} (ha : a ∈ laneIdsOf result.manifest)
    (hb : b ∈ laneIdsOf result.manifest) (hab : a ≠ b)
    (hleft : left ∈ ownedRoots (laneIn result.manifest a))
    (hright : right ∈ ownedRoots (laneIn result.manifest b))
    (hoverlap : ownedPathRootsOverlap left right = true) :
    (ReflTransGen (Step (prereqsIn result.manifest)) a b ∨
      ReflTransGen (Step (prereqsIn result.manifest)) b a) ∨
    (unordered a b ∈ conflictPairs result.manifest ∧
      Bicoloured (colourClasses result.manifest) a b) := by
  have hsymm : Std.Symm (Apart (adjacencyOf result.manifest "depends_on")
      (conflictPairs result.manifest) (colourClasses result.manifest)) := ⟨fun _ _ => Apart.symm⟩
  have hapart := h.accepted.apart.forall (h.mem_laneRoots ha hleft) (h.mem_laneRoots hb hright)
    fun heq => hab (congrArg Prod.fst heq)
  rcases hapart left hleft right hright hoverlap with hcomparable | hcolours
  · exact .inl (comparable_iff.mp hcomparable)
  · exact .inr hcolours

theorem Compiled.mergeOrder :
    (textsOf result.manifest "merge_order").Perm (laneIdsOf result.manifest) ∧
    ∀ front laneId back, textsOf result.manifest "merge_order" = front ++ laneId :: back →
      ∀ prereq ∈ prereqsIn result.manifest laneId, prereq ∈ front := by
  obtain ⟨conflicts, hmanifest⟩ := h.manifest
  have hadded := addTwins_added h.merged h.notTwin h.twins
  have hprereqs : ∀ laneId, prereqsOf ((state.lanes.map Prod.fst).insertionSort (· ≤ ·))
      state.dependsOn laneId = prereqsIn result.manifest laneId := by
    intro laneId
    unfold prereqsOf prereqsIn
    rw [hmanifest, successors_dependsOn hadded.dependsOnNodup]
    refine List.filter_eq_self.mpr fun prereq hin => decide_eq_true ?_
    have hprereq : prereq ∈ prereqsIn result.manifest laneId := by
      unfold prereqsIn
      rw [hmanifest, successors_dependsOn hadded.dependsOnNodup]
      exact hin
    have hlane := (h.prereqs hprereq).2
    rw [hmanifest, mem_laneIdsOf] at hlane
    exact (List.mem_insertionSort (· ≤ ·)).mpr hlane
  have hacyclic : Acyclic (prereqsOf ((state.lanes.map Prod.fst).insertionSort (· ≤ ·))
      state.dependsOn) := by
    rw [funext hprereqs]
    exact h.accepted.acyclic
  have hvertices : ((state.lanes.map Prod.fst).insertionSort (· ≤ ·)).Nodup :=
    (List.perm_insertionSort _ _).nodup_iff.mpr hadded.laneNodup
  obtain ⟨hperm, horder⟩ := topologicalOrder_spec hadded.dependsOnNodup hvertices hacyclic
  have horderEq : textsOf result.manifest "merge_order" =
      topologicalOrder ((state.lanes.map Prod.fst).insertionSort (· ≤ ·)) state.dependsOn := by
    rw [hmanifest]
    exact mergeOrder_eq
  have hids : (laneIdsOf result.manifest).Perm (state.lanes.map Prod.fst) := by
    rw [hmanifest, laneIdsOf, members_lanes, List.map_map]
    exact (List.perm_insertionSort _ state.lanes).map Prod.fst
  rw [horderEq]
  refine ⟨(hperm.trans (List.perm_insertionSort _ _)).trans hids.symm, ?_⟩
  intro front laneId back hsplit prereq hin
  refine horder front laneId back hsplit prereq ?_
  rw [hprereqs]
  exact hin

theorem Compiled.downstream (laneId dependent : String) :
    dependent ∈ successors (adjacencyOf result.manifest "downstream") laneId ↔
      laneId ∈ prereqsIn result.manifest dependent := by
  obtain ⟨conflicts, hmanifest⟩ := h.manifest
  have hadded := addTwins_added h.merged h.notTwin h.twins
  have hprereqs : prereqsIn result.manifest dependent =
      state.dependsOn.getD dependent [] := by
    unfold prereqsIn
    rw [hmanifest, successors_dependsOn hadded.dependsOnNodup]
  have hlanes : laneId ∈ prereqsIn result.manifest dependent →
      laneId ∈ state.lanes.map Prod.fst ∧ dependent ∈ state.lanes.map Prod.fst := by
    intro hin
    obtain ⟨hdependent, hlane⟩ := h.prereqs hin
    rw [hmanifest, mem_laneIdsOf] at hdependent hlane
    exact ⟨hlane, hdependent⟩
  rw [hprereqs] at hlanes ⊢
  rw [hmanifest, mem_successors_downstream hadded.dependsOnNodup]
  constructor
  · exact fun hin => hin.2.2
  · exact fun hin => ⟨(hlanes hin).1, (hlanes hin).2, hin⟩

end

end

/-- The manifest of every successful compilation is free of collisions. -/
theorem compileWorkManifest_collisionFree {host : Host} {registry : Registry} {options : Options}
    {items : List Fields} {result : CompileResult}
    (h : compileWorkManifest host registry options items = .ok result) :
    ∃ lane, CollisionFree items result.manifest lane := by
  obtain ⟨-, -, -, -, hnodup, -⟩ := compileWorkManifest_eq_ok.mp h
  obtain ⟨graph, state, hcompiled⟩ := compileWorkManifest_compiled h
  refine ⟨laneOf graph.canon, ?_⟩
  constructor
  · exact fun item hin => hcompiled.mem_lanes (hcompiled.laneOf_mem hin)
  · intro laneId hlane
    rcases hcompiled.laneIn_owns hlane with ⟨hwork, -⟩ | ⟨-, htwin, howned⟩
    · obtain ⟨itemId, hid, hof⟩ := (hcompiled.merged.laneIds laneId).mp hwork
      obtain ⟨item, hin, rfl⟩ := hcompiled.mem_ids.mp hid
      exact .inl ⟨item, hin, hof⟩
    · refine .inr ⟨htwin, ?_⟩
      unfold textsOf
      rw [howned]
      rfl
  · intro a ha b hb
    exact hcompiled.merged.laneOf_eq _ (hcompiled.mem_ids.mpr ⟨a, ha, rfl⟩) _
      (hcompiled.mem_ids.mpr ⟨b, hb, rfl⟩)
  · intro item hin
    refine ⟨_, hcompiled.itemRoots_eq hnodup hin, fun root hroot laneId hlane => ?_⟩
    rw [hcompiled.mem_owned hnodup hlane]
    constructor
    · rintro ⟨⟨other, hother, hof, roots, hroots, hshared⟩, hwhole⟩
      refine ⟨?_, hwhole⟩
      rw [hcompiled.itemRoots_eq hnodup hother] at hroots
      obtain rfl := Except.ok.inj hroots
      -- two items with one root have one lane
      have hids := hcompiled.mem_ids.mpr ⟨item, hin, rfl⟩
      have hids' := hcompiled.mem_ids.mpr ⟨other, hother, rfl⟩
      rw [← hof]
      exact (hcompiled.merged.laneOf_eq _ hids' _ hids).mpr
        (EqvGen.rel _ _ (.inl ⟨hids', hids, root, hshared, hroot⟩))
    · rintro ⟨rfl, hwhole⟩
      exact ⟨⟨item, hin, rfl, _, hcompiled.itemRoots_eq hnodup hin, hroot⟩, hwhole⟩
  · intro laneId hlane root hroot
    exact ((hcompiled.mem_owned hnodup hlane).mp hroot).1
  · exact fun a ha b hb hab left hleft right hright =>
      hcompiled.apart ha hb hab hleft hright
  · exact hcompiled.accepted.acyclic
  · exact hcompiled.mergeOrder
  · exact hcompiled.downstream

theorem compileWorkManifest_collisionFree_sample : ∃ result,
    compileWorkManifest sampleHost sampleRegistry { taskRef := "T-1" } sampleItems = .ok result ∧
      ∃ lane, CollisionFree sampleItems result.manifest lane := by
  cases h : compileWorkManifest sampleHost sampleRegistry { taskRef := "T-1" } sampleItems with
  | ok result => exact ⟨result, rfl, compileWorkManifest_collisionFree h⟩
  | error refusal =>
    have hcompiles : (compileWorkManifest sampleHost sampleRegistry { taskRef := "T-1" }
        sampleItems).toOption.isSome = true := by decide +kernel
    rw [h] at hcompiles
    cases hcompiles

/-- An item with the whole tree beside a path compiles, and no lane owns the whole tree. -/
theorem whole_tree_without_owner : ∃ result,
    compileWorkManifest sampleHost sampleRegistry { taskRef := "T-1" }
        [sampleItem "a" [".", "a"] []] = .ok result ∧
      itemRoots (sampleItem "a" [".", "a"] []) = .ok ["", "a"] ∧
      ∀ laneId ∈ laneIdsOf result.manifest,
        "" ∉ textsOf (laneIn result.manifest laneId) "owned_paths" := by
  cases h : compileWorkManifest sampleHost sampleRegistry { taskRef := "T-1" }
      [sampleItem "a" [".", "a"] []] with
  | ok result =>
    have hchecked : (compileWorkManifest sampleHost sampleRegistry { taskRef := "T-1" }
        [sampleItem "a" [".", "a"] []]).toOption.all fun (result : CompileResult) =>
          decide (∀ laneId ∈ laneIdsOf result.manifest,
            "" ∉ textsOf (laneIn result.manifest laneId) "owned_paths") := by
      decide +kernel
    rw [h] at hchecked
    exact ⟨result, rfl, by decide +kernel, of_decide_eq_true hchecked⟩
  | error refusal =>
    have hcompiles : (compileWorkManifest sampleHost sampleRegistry { taskRef := "T-1" }
        [sampleItem "a" [".", "a"] []]).toOption.isSome = true := by decide +kernel
    rw [h] at hcompiles
    cases hcompiles

end Workbay.Compiler

import Workbay.Compiler.Compile
import Workbay.Manifest.Proofs.EvictionProofs

/-!
# Proofs: the order of the work items does not matter

Every stage reads the items through their sorted ids and through lookups.
-/

namespace Workbay.Compiler

open Workbay.Manifest Workbay.Graph List

/-- The same items, in any order. -/
structure SameItems (byId byId' : Items) : Prop where
  sortedIds : sortedIds byId = sortedIds byId'
  get? : Dict.get? byId = Dict.get? byId'

section

variable {byId byId' : Items}

section

variable (h : SameItems byId byId')

include h

theorem SameItems.itemOf : itemOf byId = itemOf byId' := by
  funext itemId
  unfold Compiler.itemOf Dict.getD
  rw [h.get?]

theorem SameItems.rootsOfItem : rootsOfItem byId = rootsOfItem byId' := by
  funext itemId
  unfold Compiler.rootsOfItem
  rw [h.itemOf]

theorem SameItems.isOperator : isOperator byId = isOperator byId' := by
  funext itemId
  unfold Compiler.isOperator
  rw [h.itemOf]

theorem SameItems.readOperators {β : Type} (field : String)
    (read : String → Json → Except Refusal β) :
    readOperators byId field read = readOperators byId' field read := by
  unfold Compiler.readOperators
  rw [h.itemOf, h.isOperator, h.sortedIds]

theorem SameItems.declaredBackend? : declaredBackend? byId = declaredBackend? byId' := by
  funext itemId
  unfold Compiler.declaredBackend?
  rw [h.itemOf]

theorem SameItems.statedSeverity? : statedSeverity? byId = statedSeverity? byId' := by
  funext itemId
  unfold Compiler.statedSeverity?
  rw [h.itemOf]

theorem SameItems.severityDiagnostic? : severityDiagnostic? byId = severityDiagnostic? byId' := by
  funext itemId
  unfold Compiler.severityDiagnostic?
  rw [h.statedSeverity?]

end

section

variable (h : SameItems byId byId')

include h

theorem SameItems.buildUnion : buildUnion byId = buildUnion byId' := by
  have hpairs : rootPairs byId = rootPairs byId' := by
    unfold rootPairs
    rw [h.sortedIds, h.rootsOfItem]
  have hpartner : fusePartner byId = fusePartner byId' := by
    funext itemId partner
    unfold fusePartner
    rw [h.get?]
  unfold Compiler.buildUnion
  rw [hpairs, hpartner, h.readOperators, h.sortedIds]

theorem SameItems.validateComponentPreferredBackends (classes : Dict String (List String)) :
    validateComponentPreferredBackends byId classes =
      validateComponentPreferredBackends byId' classes := by
  have hcheck : checkPreferredBackends byId = checkPreferredBackends byId' := by
    funext members
    unfold checkPreferredBackends
    rw [h.declaredBackend?]
  unfold Compiler.validateComponentPreferredBackends
  rw [hcheck]

theorem SameItems.laneOwnedPaths : laneOwnedPaths byId = laneOwnedPaths byId' := by
  funext members
  unfold Compiler.laneOwnedPaths
  rw [h.rootsOfItem]

theorem SameItems.enforceMaxLaneFiles (classes : Dict String (List String)) (maxFiles : Option Int) :
    enforceMaxLaneFiles byId classes maxFiles = enforceMaxLaneFiles byId' classes maxFiles := by
  unfold Compiler.enforceMaxLaneFiles
  rw [h.laneOwnedPaths]

theorem SameItems.refuseParentChildCollisions (parent canon : Dict String String)
    (dependsOn : Dict String (List String)) (allow : Bool) :
    refuseParentChildCollisions byId parent canon dependsOn allow =
      refuseParentChildCollisions byId' parent canon dependsOn allow := by
  have hcollisions : collisionsOf byId parent canon dependsOn =
      collisionsOf byId' parent canon dependsOn := by
    funext pair
    unfold collisionsOf
    rw [h.rootsOfItem]
  unfold Compiler.refuseParentChildCollisions
  rw [hcollisions, h.sortedIds]

theorem SameItems.deriveEdgesAndState (canon : Dict String String) :
    deriveEdgesAndState byId canon = deriveEdgesAndState byId' canon := by
  unfold Compiler.deriveEdgesAndState
  simp only [h.readOperators]

theorem SameItems.laneTestCommands : laneTestCommands byId = laneTestCommands byId' := by
  have hmember : memberTestCommands byId = memberTestCommands byId' := by
    funext member
    unfold memberTestCommands
    rw [h.itemOf]
  funext members
  unfold Compiler.laneTestCommands
  rw [hmember]

theorem SameItems.workLane : workLane byId = workLane byId' := by
  have hsummary : laneSummary byId = laneSummary byId' := by
    funext members
    unfold laneSummary
    rw [h.itemOf]
  funext edges taskRef laneId members
  unfold Compiler.workLane
  rw [h.laneTestCommands, h.laneOwnedPaths, hsummary, h.declaredBackend?]

theorem SameItems.mergeItems (options : Options) (taskRef : String) :
    mergeItems options taskRef byId = mergeItems options taskRef byId' := by
  unfold Compiler.mergeItems
  rw [h.buildUnion]
  simp only [h.validateComponentPreferredBackends, h.deriveEdgesAndState,
    h.refuseParentChildCollisions, h.enforceMaxLaneFiles, h.workLane, h.statedSeverity?,
    h.severityDiagnostic?]

theorem SameItems.classifyLanes (options : Options) :
    classifyLanes options byId = classifyLanes options byId' := by
  have hproduced : producedKeys byId = producedKeys byId' := by
    funext members
    unfold producedKeys
    rw [h.itemOf]
  have hlane : classifyLane byId = classifyLane byId' := by
    funext overlay accepted slacks critical laneId members lane
    unfold classifyLane
    rw [hproduced]
  funext graph
  unfold Compiler.classifyLanes
  rw [hlane]

theorem SameItems.compileItems (host : Host) (registry : Registry) (options : Options) :
    compileItems host registry options byId = compileItems host registry options byId' := by
  unfold Compiler.compileItems
  simp only [h.mergeItems, h.classifyLanes]

end

end

/-- The id of an item that has one. -/
def idOf (item : Fields) : String := ((item.get? "id").bind Json.str?).getD ""

/-- What is checked of one item. -/
def IsItem (item : Fields) : Prop :=
  item.get? "id" = some (.str (idOf item)) ∧ Text.strip (idOf item) ≠ "" ∧
    checkItem (idOf item) item = .ok ()

theorem validateWorkItems_eq_ok {items : List Fields} : ∀ {byId result : Items},
    validateWorkItems items byId = .ok result ↔
      (∀ item ∈ items, IsItem item) ∧ (items.map idOf).Nodup ∧
        (∀ item ∈ items, byId.get? (idOf item) = none) ∧
        result = byId ++ items.map fun item => (idOf item, item) := by
  induction items with
  | nil =>
    intro byId result
    simp [validateWorkItems, eq_comm]
  | cons item items ih =>
    intro byId result
    rw [validateWorkItems]
    cases hid : item.get? "id" with
    | none => simp [IsItem, hid]
    | some value =>
      cases value with
      | str itemId =>
        have hitem : idOf item = itemId := by simp [idOf, hid, Json.str?]
        by_cases hblank : Text.strip itemId = ""
        · simp [hblank, IsItem, hitem]
        cases hget : byId.get? itemId with
        | some old => simp [hblank, hget, hitem]
        | none =>
          cases hcheck : checkItem itemId item with
          | error refusal => simp [hblank, hget, hcheck, IsItem, hitem]
          | ok _ =>
            have hset := Dict.set_of_get?_eq_none hget item
            have hkeys : (∀ other ∈ items,
                  Dict.get? (byId.set itemId item) (idOf other) = none) ↔
                itemId ∉ items.map idOf ∧
                  ∀ other ∈ items, byId.get? (idOf other) = none := by
              simp only [Dict.get?_set, mem_map, not_exists, not_and]
              constructor
              · intro hall
                refine ⟨fun other hin heq => ?_, fun other hin => ?_⟩
                · have := hall other hin
                  simp [heq] at this
                · have := hall other hin
                  split at this
                  · cases this
                  · exact this
              · rintro ⟨hne, hall⟩ other hin
                rw [if_neg (hne other hin)]
                exact hall other hin
            simp only [hblank, hget, hcheck, if_false, Option.isSome_none, Bool.false_eq_true]
            have hself : IsItem item := by
              simp [IsItem, hitem, hid, hblank, hcheck]
            rw [ih, hkeys, hset]
            simp only [forall_mem_cons, map_cons, nodup_cons, hitem, hself, hget,
              true_and, append_assoc, singleton_append]
            constructor
            · rintro ⟨hall, hnodup, ⟨hfresh, hnone⟩, hresult⟩
              exact ⟨hall, ⟨hfresh, hnodup⟩, hnone, hresult⟩
            · rintro ⟨hall, ⟨hfresh, hnodup⟩, hnone, hresult⟩
              exact ⟨hall, hnodup, ⟨hfresh, hnone⟩, hresult⟩
      | _ => simp [IsItem, hid]

theorem sameItems_of_perm {byId byId' : Items} (h : byId.Perm byId')
    (hdistinct : (byId.map Prod.fst).Nodup) : SameItems byId byId' := by
  constructor
  · unfold sortedIds
    refine List.Perm.eq_of_sortedLE sortedLE_insertionSort sortedLE_insertionSort ?_
    exact (perm_insertionSort _ _).trans ((h.map Prod.fst).trans
      (perm_insertionSort _ _).symm)
  · funext itemId
    exact Dict.get?_perm h hdistinct itemId

theorem compileWorkManifest_eq_ok {host : Host} {registry : Registry} {options : Options}
    {items : List Fields} {result : CompileResult} :
    compileWorkManifest host registry options items = .ok result ↔
      Text.strip options.taskRef ≠ "" ∧ items ≠ [] ∧
        (∀ item ∈ items, refuseReservedId item = .ok ()) ∧
        (∀ item ∈ items, IsItem item) ∧ (items.map idOf).Nodup ∧
        compileItems host registry options (items.map fun item => (idOf item, item)) =
          .ok result := by
  unfold compileWorkManifest
  simp only [check_then_eq_ok, require_eq_ok, checkAll_eq_ok]
  refine and_congr_right fun _ => and_congr_right fun _ => and_congr_right fun _ => ?_
  constructor
  · intro h
    cases hvalid : validateWorkItems items [] with
    | error refusal =>
      rw [hvalid] at h
      cases h
    | ok byId =>
      obtain ⟨hitems, hnodup, -, rfl⟩ := validateWorkItems_eq_ok.mp hvalid
      rw [hvalid] at h
      exact ⟨hitems, hnodup, h⟩
  · rintro ⟨hitems, hnodup, h⟩
    have hvalid := (@validateWorkItems_eq_ok _ [] _).mpr ⟨hitems, hnodup, by simp, rfl⟩
    rw [hvalid]
    exact h

theorem compileWorkManifest_ok_of_perm {host : Host} {registry : Registry} {options : Options}
    {items items' : List Fields} (hperm : items.Perm items') {result : CompileResult}
    (h : compileWorkManifest host registry options items = .ok result) :
    compileWorkManifest host registry options items' = .ok result := by
  obtain ⟨htask, hne, hreserved, hitems, hnodup, hcompile⟩ := compileWorkManifest_eq_ok.mp h
  have hsame := sameItems_of_perm (hperm.map fun item => (idOf item, item))
    (by rw [map_map]; exact hnodup)
  refine compileWorkManifest_eq_ok.mpr ⟨htask, ?_, fun item hin => ?_, fun item hin => ?_,
    (hperm.map idOf).nodup_iff.mp hnodup, ?_⟩
  · rintro rfl
    exact hne hperm.eq_nil
  · exact hreserved item (hperm.mem_iff.mpr hin)
  · exact hitems item (hperm.mem_iff.mpr hin)
  · rw [← hsame.compileItems]
    exact hcompile

/-- The result of a compilation does not depend on the order of the work items. -/
theorem compileWorkManifest_perm (host : Host) (registry : Registry) (options : Options)
    {items items' : List Fields} (hperm : items.Perm items') :
    (∃ result, compileWorkManifest host registry options items = .ok result ∧
        compileWorkManifest host registry options items' = .ok result) ∨
      ((∃ refusal, compileWorkManifest host registry options items = .error refusal) ∧
        ∃ refusal, compileWorkManifest host registry options items' = .error refusal) := by
  cases h : compileWorkManifest host registry options items with
  | ok result => exact .inl ⟨result, rfl, compileWorkManifest_ok_of_perm hperm h⟩
  | error refusal =>
    refine .inr ⟨⟨refusal, rfl⟩, ?_⟩
    cases h' : compileWorkManifest host registry options items' with
    | error refusal' => exact ⟨refusal', rfl⟩
    | ok result' =>
      rw [compileWorkManifest_ok_of_perm hperm.symm h'] at h
      cases h

/-- Three backends of three families; the last one is local. -/
def sampleRegistry : Registry where
  specs :=
    [("codex-remote", ⟨"remote", "remote", "codex", 10, true, true⟩),
      ("grok-remote", ⟨"remote", "remote", "grok", 20, true, true⟩),
      ("claude-code", ⟨"cli", "remote_api", "claude", 30, true, false⟩)]
  distinct := by decide

/-- An operator item. -/
def sampleItem (itemId : String) (paths : List String) (more : Fields) : Fields :=
  [("id", .str itemId), ("kind", .str "operator"), ("file_paths", .arr (paths.map .str))] ++ more

/-- Two items, of which the second one waits for the first one. -/
def sampleItems : List Fields :=
  [sampleItem "b" ["src/b"] [], sampleItem "a" ["src/a"] [("depends_on", .arr [.str "b"])]]

/-- The items compile in both orders. -/
theorem compileWorkManifest_perm_sample : ∃ result,
    compileWorkManifest sampleHost sampleRegistry { taskRef := "T-1" } sampleItems = .ok result ∧
      compileWorkManifest sampleHost sampleRegistry { taskRef := "T-1" } sampleItems.reverse =
        .ok result := by
  rcases compileWorkManifest_perm sampleHost sampleRegistry { taskRef := "T-1" }
    sampleItems.reverse_perm.symm with h | ⟨⟨refusal, hrefused⟩, -⟩
  · exact h
  · have hcompiles : (compileWorkManifest sampleHost sampleRegistry { taskRef := "T-1" }
        sampleItems).toOption.isSome = true := by decide +kernel
    rw [hrefused] at hcompiles
    cases hcompiles

end Workbay.Compiler

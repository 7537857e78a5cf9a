import Workbay.Graph.Proofs.TopologicalOrderProofs
import Workbay.Compiler.Proofs.OrderProofs
import Workbay.Compiler.Proofs.TwinProofs
import Workbay.Compiler.Proofs.MergeProofs

/-!
# Proofs: what a compiled manifest says
-/

namespace Workbay.Compiler

open Workbay.Manifest Workbay.Graph List Dict

variable {α : Type} {entries : Dict String α}

theorem get?_sortedEntries (hnodup : (entries.map Prod.fst).Nodup) (key : String) :
    Dict.get? (sortedEntries entries) key = entries.get? key :=
  (get?_perm (perm_insertionSort _ entries).symm hnodup key).symm

theorem mem_sortedEntries {entry : String × α} :
    entry ∈ sortedEntries entries ↔ entry ∈ entries := mem_insertionSort _

theorem nodup_sortedEntries (hnodup : (entries.map Prod.fst).Nodup) :
    ((sortedEntries entries).map Prod.fst).Nodup :=
  ((perm_insertionSort _ entries).map Prod.fst).nodup_iff.mpr hnodup

theorem readAdjacency_map (adjacency : Dict String (List String)) :
    readAdjacency (adjacency.map fun (laneId, laneIds) => (laneId, strings laneIds)) = adjacency := by
  unfold readAdjacency
  rw [map_map]
  refine (map_congr_left fun entry _ => ?_).trans (map_id adjacency)
  obtain ⟨laneId, laneIds⟩ := entry
  simp [strings, texts_map_str]

section

variable {taskRef : String} {lanes : Dict String Fields} {dependsOn : Dict String (List String)}
  {conflicts : Fields}

theorem members_lanes : members (manifestOf taskRef lanes dependsOn conflicts) "lanes" =
    (sortedEntries lanes).map fun (laneId, lane) => (laneId, .obj lane) := by
  simp [members, manifestOf, get?_cons, Json.obj?]

theorem get?_lanes (hnodup : (lanes.map Prod.fst).Nodup) (laneId : String) :
    Dict.get? (members (manifestOf taskRef lanes dependsOn conflicts) "lanes") laneId =
      (lanes.get? laneId).map .obj := by
  rw [members_lanes, ← get?_sortedEntries hnodup]
  exact get?_map_entries (sortedEntries lanes) (fun _ lane => Json.obj lane) laneId

theorem mem_laneIdsOf {laneId : String} :
    laneId ∈ laneIdsOf (manifestOf taskRef lanes dependsOn conflicts) ↔
      laneId ∈ lanes.map Prod.fst := by
  unfold laneIdsOf
  rw [members_lanes, map_map]
  exact ((perm_insertionSort _ lanes).map Prod.fst).mem_iff

theorem successors_dependsOn (hnodup : (dependsOn.map Prod.fst).Nodup) (laneId : String) :
    successors (adjacencyOf (manifestOf taskRef lanes dependsOn conflicts) "depends_on") laneId =
      dependsOn.getD laneId [] := by
  have hread : adjacencyOf (manifestOf taskRef lanes dependsOn conflicts) "depends_on" =
      (sortedEntries dependsOn).filter fun entry => entry.2 ≠ [] := by
    rw [← readAdjacency_map ((sortedEntries dependsOn).filter fun entry => entry.2 ≠ [])]
    simp [adjacencyOf, members, manifestOf, get?_cons, Json.obj?, adjacencyField]
  unfold successors
  rw [hread, Dict.getD, Dict.getD, ← get?_sortedEntries hnodup]
  have hsorted := nodup_sortedEntries hnodup
  cases hget : Dict.get? (sortedEntries dependsOn) laneId with
  | none =>
    have hnone : Dict.get? ((sortedEntries dependsOn).filter fun entry => entry.2 ≠ []) laneId =
        none := by
      rw [get?_eq_none_iff] at hget ⊢
      refine fun hin => hget ?_
      obtain ⟨entry, hentry, heq⟩ := mem_map.mp hin
      exact mem_map.mpr ⟨entry, mem_of_mem_filter hentry, heq⟩
    rw [hnone]
  | some prereqs =>
    have hnodup' : (((sortedEntries dependsOn).filter fun entry => entry.2 ≠ []).map
        Prod.fst).Nodup := hsorted.sublist (filter_sublist.map Prod.fst)
    by_cases hempty : prereqs = []
    · subst hempty
      have hnone : Dict.get? ((sortedEntries dependsOn).filter fun entry => entry.2 ≠ []) laneId =
          none := by
        rw [get?_eq_none_iff]
        intro hin
        obtain ⟨⟨key, prereqs⟩, hentry, rfl⟩ := mem_map.mp hin
        obtain ⟨hentry, hne⟩ := mem_filter.mp hentry
        have hsame := get?_of_mem hsorted hentry
        rw [hget] at hsame
        obtain rfl := Option.some.inj hsame
        simp at hne
      rw [hnone]
      rfl
    · have hin : (laneId, prereqs) ∈ (sortedEntries dependsOn).filter fun entry => entry.2 ≠ [] :=
        mem_filter.mpr ⟨mem_of_get? hget, by simp [hempty]⟩
      rw [get?_of_mem hnodup' hin]

theorem mergeOrder_eq : texts ((Dict.get? (manifestOf taskRef lanes dependsOn conflicts)
    "merge_order").getD .null) =
      topologicalOrder ((lanes.map Prod.fst).insertionSort (· ≤ ·)) dependsOn := by
  simp [manifestOf, get?_cons, strings]

theorem mem_successors_downstream (hnodup : (dependsOn.map Prod.fst).Nodup)
    {laneId dependent : String} :
    dependent ∈ successors (adjacencyOf (manifestOf taskRef lanes dependsOn conflicts)
        "downstream") laneId ↔
      laneId ∈ lanes.map Prod.fst ∧ dependent ∈ lanes.map Prod.fst ∧
        laneId ∈ dependsOn.getD dependent [] := by
  have hread : adjacencyOf (manifestOf taskRef lanes dependsOn conflicts) "downstream" =
      downstreamFromDependsOn ((lanes.map Prod.fst).insertionSort (· ≤ ·)) dependsOn := by
    rw [← readAdjacency_map (downstreamFromDependsOn _ _)]
    simp [adjacencyOf, members, manifestOf, get?_cons, Json.obj?, adjacencyField]
  have hsorted : ∀ x, x ∈ (lanes.map Prod.fst).insertionSort (· ≤ ·) ↔ x ∈ lanes.map Prod.fst :=
    fun x => mem_insertionSort (· ≤ ·)
  unfold successors downstreamFromDependsOn at *
  rw [hread, Dict.getD, get?_map_key, ← hsorted laneId]
  split
  · rename_i hlane
    rw [and_iff_right hlane, Option.getD_some, mem_insertionSort, mem_dedup, mem_map]
    constructor
    · rintro ⟨⟨consumer, prereqs⟩, hentry, rfl⟩
      obtain ⟨hentry, hcond⟩ := mem_filter.mp hentry
      obtain ⟨hconsumer, hin⟩ := of_decide_eq_true hcond
      refine ⟨(hsorted _).mp hconsumer, ?_⟩
      rw [Dict.getD, get?_of_mem hnodup hentry]
      exact hin
    · rintro ⟨hdependent, hin⟩
      cases hget : dependsOn.get? dependent with
      | none =>
        rw [Dict.getD, hget] at hin
        cases hin
      | some prereqs =>
        rw [Dict.getD, hget] at hin
        exact ⟨(dependent, prereqs), mem_filter.mpr ⟨mem_of_get? hget,
          decide_eq_true ⟨(hsorted _).mpr hdependent, hin⟩⟩, rfl⟩
  · rename_i hlane
    simp [hlane]

end

end Workbay.Compiler

/-!
## Proofs: what a successful compilation has done
-/

namespace Workbay.Compiler

open Relation Workbay.Manifest Workbay.Graph Workbay.Schedule List Dict

/-! ## The fields of a work lane -/

variable {byId : Items} {laneId : String} {options : Options} {registry : Registry}

variable {members : List String} {lane : Fields} {graph : WorkGraph}

theorem get?_classifyLane {overlay : Option (List String)} {accepted : Bool}
    {slacks : Dict String Int} {critical : List String} {key : String}
    (hkey : key ∉ ["difficulty", "slack", "critical", "preferred_tier", "preferred_backend"]) :
    Dict.get? (classifyLane byId overlay accepted slacks critical laneId members lane) key =
      lane.get? key := by
  simp only [mem_cons, not_mem_nil, or_false, not_or] at hkey
  obtain ⟨hdifficulty, hslack, hcritical, htier, hbackend⟩ := hkey
  unfold classifyLane
  simp only
  split
  · rw [get?_setDefault, if_neg hbackend, get?_set_of_ne _ _ htier,
      get?_set_of_ne _ _ hcritical, get?_set_of_ne _ _ hslack,
      get?_set_of_ne _ _ hdifficulty]
  · rw [get?_set_of_ne _ _ hcritical, get?_set_of_ne _ _ hslack,
      get?_set_of_ne _ _ hdifficulty]

/-- A lane that owns its members' roots and has not been retired. -/
def OwnsRootsOf (byId : Items) (members : List String) (lane : Fields) : Prop :=
  lane.get? "owned_paths" = some (strings (laneOwnedPaths byId members)) ∧
    ownershipRetired lane = false

theorem workLane_owns {edges : Edges} {taskRef : String}
    (h : workLane byId edges taskRef laneId members = .ok lane) :
    OwnsRootsOf byId members lane := by
  unfold workLane at h
  cases hcommands : laneTestCommands byId members with
  | error refusal =>
    rw [hcommands] at h
    cases h
  | ok commands =>
    rw [hcommands] at h
    obtain rfl := Except.ok.inj h
    have hnone : ∀ key ∈ ["landed", "terminal", "released"], ∀ (lane : Fields),
        (∀ entry ∈ lane, entry.1 ∉ ["landed", "terminal", "released"]) →
        lane.get? key = none := by
      intro key hkey lane hlane
      rw [get?_eq_none_iff]
      intro hin
      obtain ⟨entry, hentry, rfl⟩ := mem_map.mp hin
      exact hlane entry hentry hkey
    refine ⟨by simp [get?_cons], ?_⟩
    have hfields : ∀ entry ∈ ([("branch", Json.str (defaultBranch taskRef laneId)),
        ("worktree_path", .str (defaultWorktree taskRef laneId)),
        ("owned_paths", strings (laneOwnedPaths byId members)),
        ("test_commands", strings commands), ("title", .str laneId),
        ("objective", .str (laneSummary byId members))] ++
        optionalField "preferred_backend" ((members.findSome? (declaredBackend? byId)).map .str) ++
        optionalField "state_writes" ((edges.stateWrites.get? laneId).map strings) ++
        optionalField "state_reads" ((edges.stateReads.get? laneId).map strings) : Fields),
        entry.1 ∉ ["landed", "terminal", "released"] := by
      have hoptional : ∀ key value, key ∉ ["landed", "terminal", "released"] →
          ∀ entry ∈ optionalField key value, entry.1 ∉ ["landed", "terminal", "released"] := by
        intro key value hkey entry hentry
        unfold optionalField at hentry
        split at hentry
        · obtain rfl := mem_singleton.mp hentry
          exact hkey
        · cases hentry
      intro entry hentry
      rcases mem_append.mp hentry with hentry | hentry
      · rcases mem_append.mp hentry with hentry | hentry
        · rcases mem_append.mp hentry with hentry | hentry
          · simp only [mem_cons, not_mem_nil, or_false] at hentry
            rcases hentry with rfl | rfl | rfl | rfl | rfl | rfl <;> simp
          · exact hoptional _ _ (by decide) entry hentry
        · exact hoptional _ _ (by decide) entry hentry
      · exact hoptional _ _ (by decide) entry hentry
    unfold ownershipRetired
    rw [hnone "landed" (by decide) _ hfields, hnone "terminal" (by decide) _ hfields,
      hnone "released" (by decide) _ hfields]
    rfl

theorem OwnsRootsOf.classifyLane {overlay : Option (List String)} {accepted : Bool}
    {slacks : Dict String Int} {critical : List String} (h : OwnsRootsOf byId members lane) :
    OwnsRootsOf byId members
      (classifyLane byId overlay accepted slacks critical laneId members lane) := by
  obtain ⟨howned, hretired⟩ := h
  refine ⟨(get?_classifyLane (by decide)).trans howned, ?_⟩
  unfold ownershipRetired at hretired ⊢
  rw [get?_classifyLane (by decide), get?_classifyLane (by decide), get?_classifyLane (by decide)]
  exact hretired

theorem nodup_collect (pairs : List (String × String)) : ((collect pairs).map Prod.fst).Nodup := by
  unfold collect
  refine nodup_sortedEntries ?_
  rw [List.map_map]
  exact nodup_group pairs

theorem mem_keys_collect {pairs : List (String × String)}
    (h : laneId ∈ (collect pairs).map Prod.fst) : laneId ∈ pairs.map Prod.fst := by
  obtain ⟨entry, hentry, rfl⟩ := mem_map.mp h
  unfold collect at hentry
  rw [mem_sortedEntries] at hentry
  obtain ⟨⟨key, values⟩, hgroup, rfl⟩ := mem_map.mp hentry
  exact (mem_group.mp hgroup).2

/-- What is known of the lanes of the items. -/
structure Merged (byId : Items) (graph : WorkGraph) : Prop where
  laneIds : ∀ laneId, laneId ∈ graph.laneIds ↔
    ∃ itemId ∈ sortedIds byId, laneOf graph.canon itemId = laneId
  laneOf_mem : ∀ itemId ∈ sortedIds byId, laneOf graph.canon itemId ∈ sortedIds byId
  laneOf_eq : ∀ a ∈ sortedIds byId, ∀ b ∈ sortedIds byId,
    (laneOf graph.canon a = laneOf graph.canon b ↔ EqvGen (Joined byId) a b)
  membersOf : ∀ laneId ∈ graph.laneIds, ∀ itemId,
    itemId ∈ graph.membersOf laneId ↔ itemId ∈ sortedIds byId ∧ laneOf graph.canon itemId = laneId
  laneKeys : graph.lanes.map Prod.fst = graph.membersByLane.map Prod.fst
  laneNodup : (graph.lanes.map Prod.fst).Nodup
  lanes : ∀ laneId lane, graph.lanes.get? laneId = some lane →
    OwnsRootsOf byId (graph.membersOf laneId) lane
  dependsOn : ∀ laneId, (graph.edges.dependsOn.get? laneId).isSome → laneId ∈ graph.laneIds
  dependsOnNodup : (graph.edges.dependsOn.map Prod.fst).Nodup

theorem deriveEdgesAndState_keys {canon : Dict String String} {edges : Edges}
    (h : deriveEdgesAndState byId canon = .ok edges) :
    (edges.dependsOn.map Prod.fst).Nodup ∧ ∀ laneId ∈ edges.dependsOn.map Prod.fst,
      ∃ itemId ∈ sortedIds byId, laneOf canon itemId = laneId := by
  unfold deriveEdgesAndState at h
  obtain ⟨declared, hdeclared, h⟩ := bind_eq_ok.mp h
  obtain ⟨produced, hproduced, h⟩ := bind_eq_ok.mp h
  obtain ⟨consumed, hconsumed, h⟩ := bind_eq_ok.mp h
  obtain rfl := Except.ok.inj h
  refine ⟨nodup_collect _, fun laneId hlane => ?_⟩
  obtain ⟨⟨consumer, producer⟩, hpair, rfl⟩ := mem_map.mp (mem_keys_collect hlane)
  rcases mem_append.mp (mem_of_mem_filter hpair) with hpair | hpair
  · obtain ⟨itemId, hid, -, entry, -, hread⟩ := (mem_readOperators hdeclared).mp hpair
    unfold readDependency at hread
    split at hread
    · split at hread
      · obtain ⟨rfl, -⟩ := Prod.mk.inj (Except.ok.inj hread)
        exact ⟨itemId, hid, rfl⟩
      · cases hread
    · cases hread
  · unfold consumerPairs at hpair
    obtain ⟨⟨lane, key⟩, hin, hpair⟩ := mem_flatMap.mp hpair
    obtain ⟨other, -, heq⟩ := mem_map.mp hpair
    obtain ⟨rfl, -⟩ := Prod.mk.inj heq
    obtain ⟨itemId, hid, -, entry, -, hread⟩ := (mem_readOperators hconsumed).mp hin
    unfold readStateKey at hread
    split at hread
    · split at hread
      · cases hread
      · obtain ⟨rfl, -⟩ := Prod.mk.inj (Except.ok.inj hread)
        exact ⟨itemId, hid, rfl⟩
    · cases hread

theorem mergeItems_merged {taskRef : String} (hdistinct : (byId.map Prod.fst).Nodup)
    (h : mergeItems options taskRef byId = .ok graph) : Merged byId graph := by
  unfold mergeItems at h
  obtain ⟨parent, hparent, h⟩ := bind_eq_ok.mp h
  obtain ⟨-, h⟩ := check_then_eq_ok.mp h
  obtain ⟨edges, hedges, h⟩ := bind_eq_ok.mp h
  obtain ⟨collisions, -, h⟩ := bind_eq_ok.mp h
  obtain ⟨-, h⟩ := check_then_eq_ok.mp h
  obtain ⟨lanes, hlanes, h⟩ := bind_eq_ok.mp h
  obtain rfl := Except.ok.inj h
  obtain ⟨hforest, hmember, hclasses⟩ := buildUnion_spec hdistinct hparent
  obtain ⟨hedgesNodup, hedgesKeys⟩ := deriveEdgesAndState_keys hedges
  have hgroupsNodup := nodup_sortedEntries (membersByLane_nodup (canonicalMap (components parent)))
  have hleads : ∀ itemId ∈ sortedIds byId,
      Leads parent itemId (laneOf (canonicalMap (components parent)) itemId) :=
    fun itemId hin => laneOf_leads hforest ((hmember itemId).mpr hin)
  -- the groups are the classes
  have hgroup : ∀ laneId members,
      (laneId, members) ∈ sortedEntries (membersByLane (canonicalMap (components parent))) →
      (∀ itemId, itemId ∈ members ↔ itemId ∈ sortedIds byId ∧
        laneOf (canonicalMap (components parent)) itemId = laneId) ∧
      ∃ itemId ∈ sortedIds byId, laneOf (canonicalMap (components parent)) itemId = laneId := by
    intro laneId members hin
    obtain ⟨hmembers, itemId, hitem⟩ := mem_membersByLane hforest (mem_sortedEntries.mp hin)
    have hiff : ∀ itemId, Leads parent itemId laneId ↔ itemId ∈ sortedIds byId ∧
        laneOf (canonicalMap (components parent)) itemId = laneId := by
      intro itemId
      constructor
      · intro hlead
        have hid := (hmember itemId).mp hlead.isMember
        exact ⟨hid, (hleads itemId hid).unique hlead⟩
      · rintro ⟨hid, rfl⟩
        exact hleads itemId hid
    exact ⟨fun itemId => (hmembers itemId).trans (hiff itemId), itemId, (hiff itemId).mp hitem⟩
  have hlaneIds : ∀ laneId,
      laneId ∈ (sortedEntries (membersByLane (canonicalMap (components parent)))).map Prod.fst ↔
      ∃ itemId ∈ sortedIds byId, laneOf (canonicalMap (components parent)) itemId = laneId := by
    intro laneId
    constructor
    · intro hin
      obtain ⟨⟨key, members⟩, hentry, rfl⟩ := mem_map.mp hin
      exact (hgroup key members hentry).2
    · rintro ⟨itemId, hid, rfl⟩
      obtain ⟨members, hin⟩ := exists_mem_membersByLane hforest (hleads itemId hid)
      exact mem_map.mpr ⟨_, mem_sortedEntries.mpr hin, rfl⟩
  have hkeys : lanes.map Prod.fst =
      (sortedEntries (membersByLane (canonicalMap (components parent)))).map Prod.fst := by
    refine map_eq_of_readAll (fun entry row hread => ?_) hlanes
    cases hwork : workLane byId edges taskRef entry.1 entry.2 with
    | error refusal =>
      rw [hwork] at hread
      cases hread
    | ok lane =>
      rw [hwork] at hread
      exact congrArg Prod.fst (Except.ok.inj hread).symm
  constructor
  · intro laneId
    rw [WorkGraph.laneIds, mem_insertionSort, hlaneIds]
  · intro itemId hid
    exact (hmember _).mp (Leads.self (hleads itemId hid).2).isMember
  · intro a ha b hb
    rw [← hclasses a b ha hb]
    exact laneOf_eq_iff hforest ((hmember a).mpr ha) ((hmember b).mpr hb)
  · intro laneId hlane itemId
    rw [WorkGraph.laneIds, mem_insertionSort] at hlane
    obtain ⟨⟨key, members⟩, hentry, rfl⟩ := mem_map.mp hlane
    rw [WorkGraph.membersOf, Dict.getD, get?_of_mem hgroupsNodup hentry]
    exact (hgroup key members hentry).1 itemId
  · exact hkeys
  · rw [hkeys]
    exact hgroupsNodup
  · intro laneId lane hlane
    obtain ⟨⟨key, members⟩, hentry, hread⟩ :=
      exists_of_mem_readAll hlanes (mem_of_get? hlane)
    cases hwork : workLane byId edges taskRef key members with
    | error refusal =>
      rw [hwork] at hread
      cases hread
    | ok lane' =>
      rw [hwork] at hread
      obtain ⟨rfl, rfl⟩ := Prod.mk.inj (Except.ok.inj hread)
      rw [WorkGraph.membersOf, Dict.getD, get?_of_mem hgroupsNodup hentry]
      exact workLane_owns hwork
  · intro laneId hin
    rw [WorkGraph.laneIds, mem_insertionSort, hlaneIds]
    exact hedgesKeys laneId (get?_isSome_iff.mp hin)
  · exact hedgesNodup

theorem classifyLanes_merged {merged : WorkGraph} (hmerged : Merged byId merged)
    (h : classifyLanes options byId merged = .ok graph) :
    Merged byId graph ∧ graph.canon = merged.canon := by
  unfold classifyLanes at h
  split at h
  · cases h
  rename_i slacks hslacks
  obtain rfl := Except.ok.inj h
  refine ⟨⟨hmerged.laneIds, hmerged.laneOf_mem, hmerged.laneOf_eq, hmerged.membersOf, ?_, ?_, ?_,
    hmerged.dependsOn, hmerged.dependsOnNodup⟩, rfl⟩
  · rw [List.map_map]
    exact hmerged.laneKeys
  · rw [List.map_map]
    exact hmerged.laneNodup
  · intro laneId lane hlane
    obtain ⟨⟨key, old⟩, hin, heq⟩ := List.mem_map.mp (mem_of_get? hlane)
    obtain ⟨rfl, rfl⟩ := Prod.mk.inj heq
    exact (hmerged.lanes key old (get?_of_mem hmerged.laneNodup hin)).classifyLane

/-- The lanes after the emission: those of the items as they were, and twins that own nothing. -/
structure Added (graph : WorkGraph) (state : Emission) : Prop where
  laneNodup : (state.lanes.map Prod.fst).Nodup
  dependsOnNodup : (state.dependsOn.map Prod.fst).Nodup
  work : ∀ laneId ∈ graph.laneIds, state.lanes.get? laneId = graph.lanes.get? laneId
  other : ∀ laneId lane, state.lanes.get? laneId = some lane → laneId ∈ graph.laneIds ∨
    (isVerifyTwin laneId = true ∧ lane.get? "owned_paths" = some (.arr []))

theorem Merged.mem_laneIds (h : Merged byId graph) :
    laneId ∈ graph.laneIds ↔ (graph.lanes.get? laneId).isSome := by
  rw [get?_isSome_iff, h.laneKeys, WorkGraph.laneIds, mem_insertionSort]

theorem map_fst_reroute (work : List String) (state : Emission) :
    (reroute work state).map Prod.fst = state.dependsOn.map Prod.fst := by
  unfold reroute
  rw [List.map_map]
  refine List.map_congr_left fun entry _ => ?_
  obtain ⟨consumer, prereqs⟩ := entry
  simp only [Function.comp]
  split
  · rfl
  split <;> rfl

theorem addTwins_emitted {taskRef : String} {result : Emission} (hmerged : Merged byId graph)
    (hwork : ∀ laneId ∈ graph.laneIds, isVerifyTwin laneId = false)
    (htwins : options.emitVerifyTwins = true)
    (h : addTwins registry options taskRef graph = .ok result) :
    ∃ state, Emitted registry graph.laneIds graph.lanes graph.edges.dependsOn state ∧
      result.lanes = state.lanes ∧ result.dependsOn = reroute graph.laneIds state ∧
      result.provisioning.Perm state.provisioning ∧ result.blockers.Perm state.blockers := by
  unfold addTwins at h
  rw [if_pos htwins] at h
  obtain ⟨-, h⟩ := check_then_eq_ok.mp h
  obtain ⟨emission, hemission, h⟩ := bind_eq_ok.mp h
  obtain ⟨-, h⟩ := check_then_eq_ok.mp h
  obtain rfl := Except.ok.inj h
  exact emitVerifyTwins_spec hwork (fun x hx => hmerged.mem_laneIds.mpr hx) hmerged.dependsOn
    hmerged.laneNodup hmerged.dependsOnNodup hemission

theorem addTwins_added {taskRef : String} {result : Emission} (hmerged : Merged byId graph)
    (hwork : ∀ laneId ∈ graph.laneIds, isVerifyTwin laneId = false)
    (h : addTwins registry options taskRef graph = .ok result) : Added graph result := by
  by_cases htwins : options.emitVerifyTwins = true
  · obtain ⟨state, hemitted, hlanes, hdepends, -, -⟩ := addTwins_emitted hmerged hwork htwins h
    constructor
    · rw [hlanes]
      exact hemitted.lanesNodup
    · rw [hdepends, map_fst_reroute]
      exact hemitted.dependsOnNodup
    · rw [hlanes]
      exact hemitted.lanesWork
    · rw [hlanes]
      intro laneId lane hlane
      refine (hemitted.laneKeys laneId (by rw [hlane]; rfl)).imp_right ?_
      rintro ⟨row, hrow, rfl⟩
      obtain ⟨lane', hlane', -, howned⟩ := (hemitted.rows row hrow).lane
      obtain rfl := Option.some.inj (hlane.symm.trans hlane')
      exact ⟨(hemitted.rows row hrow).named, howned⟩
  · unfold addTwins at h
    rw [if_neg htwins] at h
    obtain ⟨-, h⟩ := check_then_eq_ok.mp h
    obtain rfl := Except.ok.inj h
    exact ⟨hmerged.laneNodup, hmerged.dependsOnNodup, fun _ _ => rfl, fun laneId lane hlane =>
      Or.inl (hmerged.mem_laneIds.mpr (by rw [hlane]; rfl))⟩

/-- The lanes of the items, merged and classified. -/
def classifiedItems (options : Options) (items : List Fields) : Except Refusal WorkGraph := do
  let byId := items.map fun item => (idOf item, item)
  let merged ← mergeItems options (Text.strip options.taskRef) byId
  classifyLanes options byId merged

/-- The stages of a successful compilation. -/
structure Compiled (host : Host) (registry : Registry) (options : Options) (items : List Fields)
    (result : CompileResult) (graph : WorkGraph) (state : Emission) : Prop where
  workItems : ∀ item ∈ items, IsItem item
  ids : sortedIds (items.map fun item => (idOf item, item)) =
    (items.map idOf).insertionSort (· ≤ ·)
  merged : Merged (items.map fun item => (idOf item, item)) graph
  notTwin : ∀ laneId ∈ graph.laneIds, isVerifyTwin laneId = false
  twins : addTwins registry options (Text.strip options.taskRef) graph = .ok state
  manifest : ∃ conflicts, result.manifest =
    manifestOf (Text.strip options.taskRef) state.lanes state.dependsOn conflicts
  accepted : Accepted host result.manifest
  twinProvisioning : result.twinProvisioning = state.provisioning
  blockers : result.blockers = state.blockers

theorem compileWorkManifest_classified {host : Host} {items : List Fields} {result : CompileResult}
    (h : compileWorkManifest host registry options items = .ok result) :
    ∃ graph state, classifiedItems options items = .ok graph ∧
      Compiled host registry options items result graph state := by
  obtain ⟨-, -, hreserved, hitems, hnodup, hcompile⟩ := compileWorkManifest_eq_ok.mp h
  have hkeys : (items.map fun item => (idOf item, item)).map Prod.fst = items.map idOf := by
    rw [List.map_map]
    rfl
  unfold compileItems at hcompile
  simp only at hcompile
  obtain ⟨merged, hmerge, hcompile⟩ := bind_eq_ok.mp hcompile
  obtain ⟨graph, hclassify, hcompile⟩ := bind_eq_ok.mp hcompile
  obtain ⟨conflicts, -, hcompile⟩ := bind_eq_ok.mp hcompile
  obtain ⟨state, hstate, hcompile⟩ := bind_eq_ok.mp hcompile
  obtain ⟨hvalid, hresult⟩ := check_then_eq_ok.mp hcompile
  obtain rfl := Except.ok.inj hresult
  have hmerged := (classifyLanes_merged (mergeItems_merged (by rw [hkeys]; exact hnodup) hmerge)
    hclassify).1
  refine ⟨graph, state, bind_eq_ok.mpr ⟨merged, hmerge, hclassify⟩, hitems,
    by rw [sortedIds, hkeys], hmerged, fun laneId hlane => ?_, hstate, ⟨_, rfl⟩, ?_, rfl, rfl⟩
  · obtain ⟨itemId, hid, rfl⟩ := (hmerged.laneIds laneId).mp hlane
    have hlaneId := mem_sortedIds.mp (hmerged.laneOf_mem itemId hid)
    rw [hkeys] at hlaneId
    obtain ⟨item, hin, heq⟩ := List.mem_map.mp hlaneId
    have hfree := hreserved item hin
    unfold refuseReservedId at hfree
    rw [(hitems item hin).1] at hfree
    rw [← heq]
    exact require_eq_ok.mp hfree
  · refine validateManifest_eq_ok.mp ?_
    cases hcheck : validateManifest host (manifestOf (Text.strip options.taskRef) state.lanes
        state.dependsOn (conflictFields options graph.laneIds conflicts)) with
    | ok u => rfl
    | error refusal =>
      rw [hcheck] at hvalid
      cases hvalid

theorem compileWorkManifest_compiled {host : Host} {items : List Fields} {result : CompileResult}
    (h : compileWorkManifest host registry options items = .ok result) :
    ∃ graph state, Compiled host registry options items result graph state := by
  obtain ⟨graph, state, -, hcompiled⟩ := compileWorkManifest_classified h
  exact ⟨graph, state, hcompiled⟩

end Workbay.Compiler

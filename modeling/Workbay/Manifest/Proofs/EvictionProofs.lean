import Workbay.Manifest.Proofs.ContractionProofs

/-!
# Proofs: taking terminal lanes out of a manifest
-/

namespace Workbay.Manifest

open Relation Workbay.Graph List

/-- Every lane has an evictable terminal status. -/
def Evictable (data : Fields) (laneIds : List String) : Prop :=
  ∀ laneId ∈ laneIds, ∃ lane, Dict.get? (members data "lanes") laneId = some lane ∧
    isEvictable lane = true

/-- The entries of `merge_order` and of `downstream` are strings. -/
def HasNames (data : Fields) : Prop :=
  (∀ value ∈ elements data "merge_order", value.str?.isSome = true) ∧
    ∀ entry ∈ members data "downstream", isStrArray entry.2 = true

instance (data : Fields) : Decidable (HasNames data) :=
  inferInstanceAs (Decidable (_ ∧ _))

/-- The lanes of a request, sorted. -/
def requestedLanes (laneIds : List String) : List String := laneIds.dedup.insertionSort (· ≤ ·)

variable {laneIds : List String} {data : Fields}

theorem mem_requestedLanes {laneId : String} :
    laneId ∈ requestedLanes laneIds ↔ laneId ∈ laneIds := by
  unfold requestedLanes
  rw [(perm_insertionSort _ _).mem_iff, mem_dedup]

theorem evictionRefusal_eq_none {lanes : Fields} {laneId : String} {lane : Json}
    (hget : lanes.get? laneId = some lane) (h : isEvictable lane = true) :
    evictionRefusal lanes laneId = none := by
  unfold evictionRefusal
  rw [hget]
  cases lane with
  | null => cases h
  | _ => exact if_pos h

theorem refusals_eq_nil (h : Evictable data laneIds) :
    (requestedLanes laneIds).filterMap (evictionRefusal (members data "lanes")) = [] := by
  rw [filterMap_eq_nil_iff]
  intro laneId hin
  obtain ⟨lane, hget, hevictable⟩ := h laneId (mem_requestedLanes.mp hin)
  exact evictionRefusal_eq_none hget hevictable

theorem contractTerminalLanes_eq_ok (h : Evictable data laneIds) (htyped : isTyped data = true) :
    contractTerminalLanes data laneIds =
      .ok (contractFields (requestedLanes laneIds) data,
        contractionRecord (requestedLanes laneIds) data) := by
  unfold contractTerminalLanes
  show (if (requestedLanes laneIds).filterMap (evictionRefusal (members data "lanes")) ≠ [] then _
    else _) = _
  rw [if_neg (not_not.mpr (refusals_eq_nil h)), if_pos htyped]
  rfl

theorem isTyped_of_accepted {host : Host} (h : Accepted host data) (hnames : HasNames data) :
    isTyped data = true := by
  unfold isTyped
  rw [Bool.and_eq_true, Bool.and_eq_true, all_eq_true, all_eq_true, all_eq_true]
  refine ⟨⟨hnames.1, fun entry hentry => ?_⟩, hnames.2⟩
  obtain ⟨-, values, hvalues, hall⟩ := h.dependsOn entry hentry
  rw [hvalues]
  refine all_eq_true.mpr fun value hvalue => ?_
  have hname := hall value hvalue
  cases value with
  | str s => rfl
  | _ => cases hname

theorem hasNames_contractFields {removed : List String} (h : HasNames data) :
    HasNames (contractFields removed data) := by
  refine ⟨?_, ?_⟩
  · rw [elements_mergeOrder]
    exact fun value hvalue => h.1 value (mem_filter.mp hvalue).1
  · rw [members_graph (.inr rfl)]
    intro entry hentry
    obtain ⟨-, targets, -, hvalue⟩ := mem_writeAdjacency_contracted hentry
    rw [hvalue, isStrArray_iff, texts_map_str]

theorem evictable_contractFields {removed : List String} (h : Evictable data laneIds)
    (hdisjoint : ∀ laneId ∈ laneIds, laneId ∉ removed) :
    Evictable (contractFields removed data) laneIds := by
  intro laneId hin
  obtain ⟨lane, hget, hevictable⟩ := h laneId hin
  refine ⟨lane, ?_, hevictable⟩
  rw [members_lanes, Dict.get?_filter_key _ (fun laneId => decide (laneId ∉ removed))
    (by simpa using hdisjoint laneId hin)]
  exact hget

theorem isRemoved_requestedLanes (laneIds : List String) (value : Option Json) :
    isRemoved (requestedLanes laneIds) value = isRemoved laneIds value := by
  unfold isRemoved
  simp only [mem_requestedLanes]

theorem LaneManifest.nodup_adjacencyOf (manifest : LaneManifest) (key : String) :
    ((adjacencyOf manifest.fields key).map Prod.fst).Nodup := by
  have hkeys : ((members manifest.fields key).map Prod.fst).Nodup := by
    unfold members
    cases hget : manifest.fields.get? key with
    | none => simp
    | some value =>
      have hall := (Bool.and_eq_true _ _ ▸ manifest.distinct).2
      have hvalue := Json.wellFormed_of_mem hall (Dict.mem_of_get? hget)
      cases value with
      | obj entries => exact of_decide_eq_true (Bool.and_eq_true _ _ ▸ hvalue).1
      | _ => simp [Json.obj?]
  unfold adjacencyOf readAdjacency
  rw [List.map_map]
  exact hkeys

/-- What a contraction keeps, and what its record says. -/
structure Contracted (host : Host) (before : Fields) (removed : List String) (after : Fields)
    (record : LaneEvictionContraction) : Prop where
  accepted : validateManifest host after = .ok ()
  survivors : ∀ x, x ∈ laneIdsOf after ↔ x ∈ laneIdsOf before ∧ x ∉ removed
  dependsOn : ∀ x ∈ laneIdsOf after, ∀ y ∈ laneIdsOf after,
    (ReflTransGen (EdgeOf after "depends_on") x y ↔ ReflTransGen (EdgeOf before "depends_on") x y)
  downstream : ∀ x ∈ laneIdsOf after, ∀ y ∈ laneIdsOf after,
    (ReflTransGen (EdgeOf after "downstream") x y ↔ ReflTransGen (EdgeOf before "downstream") x y)
  mergeOrder : elements after "merge_order" =
    (elements before "merge_order").filter fun value => !isRemoved removed (some value)
  dependsOnDropped : ∀ x y, (x, y) ∈ record.edgesDropped.dependsOn ↔
    EdgeOf before "depends_on" x y ∧ ¬ EdgeOf after "depends_on" x y
  dependsOnAdded : ∀ x y, (x, y) ∈ record.edgesAdded.dependsOn ↔
    EdgeOf after "depends_on" x y ∧ ¬ EdgeOf before "depends_on" x y
  /-- The edges from surviving lanes to themselves are dropped and not recorded. -/
  downstreamDropped : ∀ x y, (x = y → x ∈ removed) →
    ((x, y) ∈ record.edgesDropped.downstream ↔
      EdgeOf before "downstream" x y ∧ ¬ EdgeOf after "downstream" x y)
  downstreamAdded : ∀ x y, (x, y) ∈ record.edgesAdded.downstream ↔
    EdgeOf after "downstream" x y ∧ ¬ EdgeOf before "downstream" x y
  conflictsDropped : ∀ pair, pair ∈ record.edgesDropped.conflictEdges ↔
    pair ∈ elements before "conflict_edges" ∧ pair ∉ elements after "conflict_edges"
  conflictsAdded : ∀ pair, pair ∈ record.edgesAdded.conflictEdges ↔
    pair ∈ elements after "conflict_edges" ∧ pair ∉ elements before "conflict_edges"

/-- Two manifests have the same edges of the three kinds. -/
def SameEdges (data data' : Fields) : Prop :=
  (∀ x y, EdgeOf data "depends_on" x y ↔ EdgeOf data' "depends_on" x y) ∧
    (∀ x y, EdgeOf data "downstream" x y ↔ EdgeOf data' "downstream" x y) ∧
      ∀ pair, pair ∈ elements data "conflict_edges" ↔ pair ∈ elements data' "conflict_edges"

theorem contracted_contractFields {host : Host} (manifest : LaneManifest)
    (h : Accepted host manifest.fields) (laneIds : List String) :
    Contracted host manifest.fields laneIds
      (contractFields (requestedLanes laneIds) manifest.fields)
      (contractionRecord (requestedLanes laneIds) manifest.fields) where
  accepted := validateManifest_eq_ok.mpr (h.contractFields _)
  survivors := fun x => by rw [mem_laneIdsOf_contractFields, mem_requestedLanes]
  dependsOn := fun x hx y hy => reaches_contractFields (.inl rfl)
    (mem_laneIdsOf_contractFields.mp hx).2 (mem_laneIdsOf_contractFields.mp hy).2
  downstream := fun x hx y hy => reaches_contractFields (.inr rfl)
    (mem_laneIdsOf_contractFields.mp hx).2 (mem_laneIdsOf_contractFields.mp hy).2
  mergeOrder := by
    rw [elements_mergeOrder]
    simp only [isRemoved_requestedLanes]
  dependsOnDropped := by
    intro x y
    unfold EdgeOf
    rw [adjacencyOf_contractFields (.inl rfl)]
    by_cases hloop : x = y
    · -- a surviving lane has no edge to itself: the graph is acyclic
      subst hloop
      have hno : ¬ Step (successors (adjacencyOf manifest.fields "depends_on")) x x :=
        fun hstep => h.acyclic x (TransGen.single hstep)
      unfold contractionRecord
      simp only [mem_dropped_iff (manifest.nodup_adjacencyOf "depends_on"), hno, false_and]
    · exact dropped_exact (manifest.nodup_adjacencyOf "depends_on") fun heq => absurd heq hloop
  dependsOnAdded := by
    intro x y
    unfold EdgeOf
    rw [adjacencyOf_contractFields (.inl rfl)]
    exact added_exact (manifest.nodup_adjacencyOf "depends_on")
  downstreamDropped := by
    intro x y hloop
    unfold EdgeOf
    rw [adjacencyOf_contractFields (.inr rfl)]
    exact dropped_exact (manifest.nodup_adjacencyOf "downstream")
      fun heq => mem_requestedLanes.mpr (hloop heq)
  downstreamAdded := by
    intro x y
    unfold EdgeOf
    rw [adjacencyOf_contractFields (.inr rfl)]
    exact added_exact (manifest.nodup_adjacencyOf "downstream")
  conflictsDropped := by
    intro pair
    rw [elements_conflicts]
    unfold contractionRecord
    simp only [mem_filter, Bool.not_eq_true', not_and, Bool.not_eq_false]
    exact ⟨fun hpair => ⟨hpair.1, fun _ => hpair.2⟩, fun hpair => ⟨hpair.1, hpair.2 hpair.1⟩⟩
  conflictsAdded := by
    intro pair
    rw [elements_conflicts]
    refine ⟨fun hpair => absurd hpair not_mem_nil, ?_⟩
    rintro ⟨hpair, hnot⟩
    exact absurd (mem_filter.mp hpair).1 hnot

variable {first second both : List String}

section

variable (hboth : ∀ x, x ∈ both ↔ x ∈ first ∨ x ∈ second)

include hboth

theorem edgeOf_contractFields_twice {key : String} (hkey : key = "depends_on" ∨ key = "downstream")
    (x y : String) : EdgeOf (contractFields second (contractFields first data)) key x y ↔
      EdgeOf (contractFields both data) key x y := by
  have hfirst : EdgeOf (contractFields first data) key = Bypass (EdgeOf data key) (· ∈ first) :=
    funext fun x => funext fun y => propext (edgeOf_contractFields hkey)
  have hset : (fun t => t ∈ both) = fun t => t ∈ first ∨ t ∈ second :=
    funext fun t => propext (hboth t)
  rw [edgeOf_contractFields hkey, edgeOf_contractFields hkey, hfirst, bypass_bypass_iff, hset]

theorem touchesRemoved_append (pair : Json) :
    touchesRemoved both pair = (touchesRemoved first pair || touchesRemoved second pair) := by
  unfold touchesRemoved isRemoved
  rw [Bool.eq_iff_iff]
  simp only [any_eq_true, Bool.or_eq_true, Option.bind_some]
  constructor
  · rintro ⟨endpoint, hin, hname⟩
    cases hstr : endpoint.str? with
    | none => simp [hstr] at hname
    | some name =>
      rw [hstr] at hname
      rcases (hboth name).mp (by simpa using hname) with hfirst | hsecond
      · exact .inl ⟨endpoint, hin, by simpa [hstr] using hfirst⟩
      · exact .inr ⟨endpoint, hin, by simpa [hstr] using hsecond⟩
  · rintro (⟨endpoint, hin, hname⟩ | ⟨endpoint, hin, hname⟩)
    all_goals
      refine ⟨endpoint, hin, ?_⟩
      cases hstr : endpoint.str? with
      | none => simp [hstr] at hname
      | some name =>
        rw [hstr] at hname
        have hin : name ∈ both := (hboth name).mpr (by simp at hname; simp [hname])
        simpa using hin

theorem sameEdges_twice :
    SameEdges (contractFields second (contractFields first data)) (contractFields both data) := by
  refine ⟨edgeOf_contractFields_twice hboth (.inl rfl),
    edgeOf_contractFields_twice hboth (.inr rfl), fun pair => ?_⟩
  rw [elements_conflicts, elements_conflicts, elements_conflicts]
  simp only [mem_filter, touchesRemoved_append hboth, Bool.not_or, Bool.and_eq_true]
  rw [and_assoc]

end

/-- Taking evictable terminal lanes out of a valid manifest keeps it valid, keeps the order of the
lanes that stay, records what it dropped and added, and can be done in two parts. -/
theorem contractTerminalLanes_preserves {host : Host} (manifest : LaneManifest)
    (hvalid : validateManifest host manifest.fields = .ok ()) (hnames : HasNames manifest.fields)
    {first : List String} (hfirst : Evictable manifest.fields first) :
    ∃ after record, contractTerminalLanes manifest.fields first = .ok (after, record) ∧
      Contracted host manifest.fields first after record ∧
      ∀ second, Evictable manifest.fields second → (∀ laneId ∈ second, laneId ∉ first) →
        ∃ later laterRecord both bothRecord,
          contractTerminalLanes after second = .ok (later, laterRecord) ∧
          contractTerminalLanes manifest.fields (first ++ second) = .ok (both, bothRecord) ∧
          SameEdges later both := by
  have h := validateManifest_eq_ok.mp hvalid
  refine ⟨_, _, contractTerminalLanes_eq_ok hfirst (isTyped_of_accepted h hnames),
    contracted_contractFields manifest h first, fun second hsecond hdisjoint => ?_⟩
  have hlater : Evictable (contractFields (requestedLanes first) manifest.fields) second :=
    evictable_contractFields hsecond fun laneId hin hremoved =>
      hdisjoint laneId hin (mem_requestedLanes.mp hremoved)
  have hunion : Evictable manifest.fields (first ++ second) := by
    intro laneId hin
    rcases mem_append.mp hin with hin | hin
    · exact hfirst laneId hin
    · exact hsecond laneId hin
  refine ⟨_, _, _, _, contractTerminalLanes_eq_ok hlater
      (isTyped_of_accepted (h.contractFields _) (hasNames_contractFields hnames)),
    contractTerminalLanes_eq_ok hunion (isTyped_of_accepted h hnames), sameEdges_twice fun x => ?_⟩
  rw [mem_requestedLanes, mem_requestedLanes, mem_requestedLanes, mem_append]

instance (data : Fields) (key x y : String) : Decidable (EdgeOf data key x y) :=
  inferInstanceAs (Decidable (y ∈ successors (adjacencyOf data key) x))

/-- A machine whose only time stamp of UTC is the one below. -/
def sampleHost : Host :=
  { isUtcStamp := (· = "2026-01-01T00:00:00+00:00"), casefold := id, home := "/home/user" }

/-- A lane that owns one path. -/
def sampleLane (name : String) (more : Fields) : Json :=
  .obj ([("branch", .str ("lane/" ++ name)), ("worktree_path", .str ("trees/" ++ name)),
    ("owned_paths", .arr [.str ("src/" ++ name)]), ("test_commands", .arr [])] ++ more)

/-- The marker of a lane that was merged. -/
def sampleTerminal : Fields :=
  [("terminal", .obj [("status", .str "merged"), ("source", .str "worktree_lanes"),
    ("at", .str "2026-01-01T00:00:00+00:00")])]

/-- Two lanes on both sides of two merged ones; `loops` are the dependents of the lane `a`. -/
def sampleManifest (loops : List String) : LaneManifest where
  fields :=
    [("task_ref", .str "T-1"),
      ("merge_order", .arr [.str "a", .str "t", .str "u", .str "b"]),
      ("lanes", .obj [("a", sampleLane "a" []), ("t", sampleLane "t" sampleTerminal),
        ("u", sampleLane "u" sampleTerminal), ("b", sampleLane "b" [])]),
      ("downstream", .obj [("a", .arr (loops.map .str)), ("t", .arr [.str "u"]),
        ("u", .arr [.str "b"])]),
      ("depends_on", .obj [("b", .arr [.str "u"]), ("u", .arr [.str "t"]),
        ("t", .arr [.str "a"])])]
  distinct := by
    simp [Json.wellFormed, Json.wellFormedMembers, Json.wellFormedList, sampleLane, sampleTerminal,
      Json.wellFormedList_map_str]

theorem evictable_sample (loops : List String) : Evictable (sampleManifest loops).fields ["t"] := by
  intro laneId hin
  obtain rfl := mem_singleton.mp hin
  exact ⟨sampleLane "t" sampleTerminal, rfl, by decide +kernel⟩

theorem contractTerminalLanes_preserves_sample :
    ∃ after record, contractTerminalLanes (sampleManifest ["t"]).fields ["t"] = .ok (after, record) ∧
      Contracted sampleHost (sampleManifest ["t"]).fields ["t"] after record := by
  obtain ⟨after, record, hrun, hcontracted, -⟩ := @contractTerminalLanes_preserves
    sampleHost (sampleManifest ["t"]) (by decide +kernel) (by decide +kernel)
    _ (evictable_sample ["t"])
  exact ⟨after, record, hrun, hcontracted⟩

/-- A dependent of itself goes without a record. -/
theorem contractTerminalLanes_forgets_loop :
    validateManifest sampleHost (sampleManifest ["a", "t"]).fields = .ok () ∧
      Evictable (sampleManifest ["a", "t"]).fields ["t"] ∧
      ∃ after record,
        contractTerminalLanes (sampleManifest ["a", "t"]).fields ["t"] = .ok (after, record) ∧
        EdgeOf (sampleManifest ["a", "t"]).fields "downstream" "a" "a" ∧
        ¬ EdgeOf after "downstream" "a" "a" ∧ ("a", "a") ∉ record.edgesDropped.downstream := by
  refine ⟨by decide +kernel, evictable_sample _, _, _, rfl, ?_⟩
  decide +kernel

end Workbay.Manifest

import Workbay.Manifest.Proofs.EvictionProofs
import Workbay.Schedule.Layers
import Workbay.Schedule.Proofs.LayerProofs

/-!
# The layers of an accepted manifest

The scheduler reads the graph that was validated, but for the lane with the empty name and the blank
prerequisites. A lane comes too early when it lists what is far below it too often.
-/

namespace Workbay.Schedule

open Relation Workbay.Graph Workbay.Manifest List

theorem members_keys_nodup (manifest : LaneManifest) (key : String) :
    ((members manifest.fields key).map Prod.fst).Nodup := by
  have hkeys := manifest.nodup_adjacencyOf key
  unfold adjacencyOf readAdjacency at hkeys
  rw [List.map_map] at hkeys
  exact hkeys

theorem laneIds_perm (data : Fields) : (laneIds data).Perm ((laneIdsOf data).filter (· ≠ "")) :=
  perm_insertionSort _ _

theorem laneIds_nodup (manifest : LaneManifest) : (laneIds manifest.fields).Nodup :=
  (laneIds_perm manifest.fields).nodup_iff.mpr ((members_keys_nodup manifest "lanes").filter _)

theorem mem_laneIds {data : Fields} {x : String} : x ∈ laneIds data ↔ x ∈ laneIdsOf data ∧ x ≠ "" := by
  rw [(laneIds_perm data).mem_iff, mem_filter, decide_eq_true_eq]

section

variable {manifest : LaneManifest} {host : Host} (h : Accepted host manifest.fields)

include h in
theorem listedDependsOn_eq : listedDependsOn manifest.fields =
    ((members manifest.fields "depends_on").filter fun entry => entry.1 ≠ "").map fun e =>
      (e.1, (texts e.2).filter fun prereq => Text.strip prereq ≠ "") := by
  unfold listedDependsOn dependsOnMap
  rw [filterMap_map]
  refine filterMap_eq_map_iff_forall_eq_some.mpr fun e he => ?_
  obtain ⟨-, values, hvalues, -⟩ := h.dependsOn e (mem_filter.mp he).1
  obtain ⟨lane, value⟩ := e
  obtain rfl : value = .arr values := hvalues
  rfl

include h in
theorem listedDependsOn_nodup : ((listedDependsOn manifest.fields).map Prod.fst).Nodup := by
  rw [listedDependsOn_eq h, List.map_map]
  exact (members_keys_nodup manifest "depends_on").sublist (List.filter_sublist.map Prod.fst)

include h in
theorem mem_laneIdsOf_of_successors {x y : String}
    (hy : y ∈ successors (adjacencyOf manifest.fields "depends_on") x) :
    y ∈ laneIdsOf manifest.fields := successors_subset h.dependsOn hy

include h in
theorem prereqsOf_declared_manifest {x : String} (hx : x ∈ laneIds manifest.fields) :
    prereqsOf (declaredDependsOn (laneIds manifest.fields) (listedDependsOn manifest.fields)) x =
      (successors (adjacencyOf manifest.fields "depends_on") x).filter fun prereq =>
        Text.strip prereq ≠ "" := by
  have hne : x ≠ "" := (mem_laneIds.mp hx).2
  have hlisted : prereqsOf (listedDependsOn manifest.fields) x =
      (successors (adjacencyOf manifest.fields "depends_on") x).filter fun prereq =>
        Text.strip prereq ≠ "" := by
    rw [listedDependsOn_eq h, prereqsOf, Dict.getD,
      Dict.get?_map_entries _ (fun _ value => (texts value).filter fun prereq => Text.strip prereq ≠ ""),
      Dict.get?_filter_key _ (fun lane => decide (lane ≠ "")) (decide_eq_true hne)]
    unfold successors adjacencyOf readAdjacency Dict.getD
    rw [Dict.get?_map_entries _ fun _ value => texts value]
    cases Dict.get? (members manifest.fields "depends_on") x <;> rfl
  rw [prereqsOf_declaredDependsOn, if_pos hx, hlisted, filter_filter]
  refine filter_congr fun y hy => ?_
  rw [Bool.and_eq_right_iff_imp]
  intro hstrip
  refine decide_eq_true (mem_laneIds.mpr ⟨mem_laneIdsOf_of_successors h hy, ?_⟩)
  rintro rfl
  exact of_decide_eq_true hstrip rfl

include h in
theorem acyclic_declared_manifest : Acyclic (prereqsOf (declaredDependsOn (laneIds manifest.fields)
    (listedDependsOn manifest.fields))) := by
  intro x hcycle
  refine h.acyclic x (hcycle.lift id fun a b hab => ?_)
  have ha := (mem_declared hab).1
  unfold Step at hab
  rw [prereqsOf_declared_manifest h ha] at hab
  exact (mem_filter.mp hab).1

end

/-- Every lane is in exactly one layer, and in a later one than its prerequisites. -/
def Layered (data : Fields) : Prop :=
  ∃ layers, manifestLayers data = .ok layers ∧ layers.flatten.Perm (laneIdsOf data) ∧
    ∀ front next back, layers = front ++ next :: back →
      ∀ x ∈ next, ∀ y ∈ successors (adjacencyOf data "depends_on") x, y ∈ front.flatten

/-- No lane has the empty name, no lane lists too much of what is far below it, and a blank prerequisite,
which is not read, is not as deep as the lane. -/
structure LayersRight (data : Fields) : Prop where
  named : "" ∉ laneIdsOf data
  few : ListsFew (laneIds data) (listedDependsOn data)
  blank : ∀ x ∈ laneIdsOf data, ∀ y ∈ successors (adjacencyOf data "depends_on") x,
    Text.strip y = "" → depth (laneIds data) (listedDependsOn data) y <
      depth (laneIds data) (listedDependsOn data) x

/-- The layers of an accepted manifest respect every prerequisite exactly if no lane is unnamed, lists too
much, or has a blank prerequisite as deep as itself. -/
theorem manifestLayers_layered_iff (host : Host) (manifest : LaneManifest)
    (h : validateManifest host manifest.fields = .ok ()) :
    Layered manifest.fields ↔ LayersRight manifest.fields := by
  have haccepted := validateManifest_eq_ok.mp h
  have hacyclic := acyclic_declared_manifest haccepted
  have hnodup := laneIds_nodup manifest
  obtain ⟨layers, hok, hperm, hlayers⟩ :=
    computeLayers_spec hnodup (listedDependsOn_nodup haccepted) hacyclic
  have hiff := ordered_iff_listsFew hacyclic hlayers hnodup hperm
  have hprereqs := fun x hx => @prereqsOf_declared_manifest manifest host haccepted x hx
  constructor
  · rintro ⟨layers', hok', hall, hbefore⟩
    obtain rfl : layers = layers' := Except.ok.inj (hok.symm.trans hok')
    have hordered : Ordered (prereqsOf (declaredDependsOn (laneIds manifest.fields)
        (listedDependsOn manifest.fields))) layers := by
      intro front next back heq x hx y hy
      rw [hprereqs x (mem_declared hy).1] at hy
      exact hbefore front next back heq x hx y (mem_filter.mp hy).1
    have hfront := mem_front_iff_of_ordered hacyclic hlayers hordered
    refine ⟨fun hempty => ?_, hiff.mp hordered, fun x hx y hy _ => ?_⟩
    · exact (mem_laneIds.mp (hperm.mem_iff.mp (hall.mem_iff.mpr hempty))).2 rfl
    · obtain ⟨next, hnext, hmem⟩ := mem_flatten.mp (hall.mem_iff.mpr hx)
      obtain ⟨front, back, heq⟩ := append_of_mem hnext
      have hin := hbefore front next back heq x hmem y hy
      have hlane : ∀ z ∈ layers.flatten, z ∈ laneIds manifest.fields := fun z hz => hperm.mem_iff.mp hz
      have hsplit : layers.flatten = front.flatten ++ (next ++ back.flatten) := by
        rw [heq, flatten_append, flatten_cons]
      have hlow := (hfront front (next :: back) heq y
        (hlane y (hsplit ▸ mem_append_left _ hin))).mp hin
      have hnot : x ∉ front.flatten := by
        have hflat := hperm.nodup_iff.mpr hnodup
        rw [hsplit] at hflat
        exact fun hx => (nodup_append.mp hflat).2.2 x hx x (mem_append_left _ hmem) rfl
      have hhigh := mt (hfront front (next :: back) heq x (hlane x (hsplit ▸
        mem_append_right _ (mem_append_left _ hmem)))).mpr hnot
      omega
  · rintro ⟨hnamed, hfew, hblank⟩
    have hsame : (laneIds manifest.fields).Perm (laneIdsOf manifest.fields) := by
      refine (laneIds_perm manifest.fields).trans ?_
      rw [filter_eq_self.mpr]
      exact fun x hx => decide_eq_true fun heq => hnamed (heq ▸ hx)
    refine ⟨layers, hok, hperm.trans hsame, fun front next back heq x hx y hy => ?_⟩
    have hfront := mem_front_iff_of_listsFew hacyclic hlayers hfew
    have hxin : x ∈ laneIds manifest.fields := hperm.mem_iff.mp (by rw [heq]; simp [hx])
    by_cases hstrip : Text.strip y = ""
    · have hlow := hblank x (hsame.mem_iff.mp hxin) y hy hstrip
      have hlt := (hfront (front ++ [next]) back (by rw [heq]; simp) x hxin).mp
        (by rw [flatten_append, flatten_singleton]; exact mem_append_right _ hx)
      rw [length_append, length_singleton] at hlt
      refine (hfront front (next :: back) heq y ?_).mpr (by omega)
      exact hsame.mem_iff.mpr (mem_laneIdsOf_of_successors haccepted hy)
    · refine hiff.mpr hfew front next back heq x hx y ?_
      rw [hprereqs x hxin]
      exact mem_filter.mpr ⟨hy, decide_eq_true hstrip⟩

/-! ## A lane that comes too early -/

/-- The lane `x` lists the lane `a` twice, and waits for `b`, which waits for `c`. -/
def earlyManifest : LaneManifest where
  fields :=
    [("task_ref", .str "T-1"), ("merge_order", .arr []),
      ("lanes", .obj [("a", sampleLane "a" []), ("b", sampleLane "b" []), ("c", sampleLane "c" []),
        ("x", sampleLane "x" [])]),
      ("downstream", .obj []),
      ("depends_on", .obj [("b", .arr [.str "c"]), ("x", .arr [.str "a", .str "a", .str "b"])])]
  distinct := by decide +kernel

theorem earlyManifest_accepted : validateManifest sampleHost earlyManifest.fields = .ok () := by
  decide +kernel

theorem manifestLayers_layered_iff_early :
    Layered earlyManifest.fields ↔ LayersRight earlyManifest.fields :=
  manifestLayers_layered_iff sampleHost earlyManifest earlyManifest_accepted

theorem earlyManifest_layers :
    manifestLayers earlyManifest.fields = .ok [["a", "c"], ["b", "x"]] := by decide +kernel

/-- An accepted manifest whose layers have a lane beside its prerequisite. -/
theorem manifestLayers_early : ¬ ∀ (host : Host) (manifest : LaneManifest),
    validateManifest host manifest.fields = .ok () → Layered manifest.fields := by
  intro h
  obtain ⟨layers, hok, -, hbefore⟩ := h sampleHost earlyManifest earlyManifest_accepted
  obtain rfl : [["a", "c"], ["b", "x"]] = layers :=
    Except.ok.inj (earlyManifest_layers.symm.trans hok)
  have hprereq : "b" ∈ successors (adjacencyOf earlyManifest.fields "depends_on") "x" := by
    decide +kernel
  have hin := hbefore [["a", "c"]] ["b", "x"] [] rfl "x" (by decide) "b" hprereq
  exact absurd hin (by decide)

end Workbay.Schedule

import Workbay.Graph.Chain
import Workbay.Graph.Countdown
import Workbay.Wave.Proofs.ValidateProofs

/-!
# The orders of a wave

Kahn's algorithm takes the lanes whose dependencies are all taken. On a valid wave it takes every lane,
and on some lanes of it those whose dependencies, direct or not, are among them.
-/

namespace Workbay.Wave

open Relation Workbay.Graph List

variable {spec : WaveSpec}

/-- A lane is put among the ready ones, in order. -/
def insertReady (laneId : LaneId) (ready : List LaneId) : List LaneId :=
  ready.orderedInsert (· ≤ ·) laneId

theorem insertReady_perm (laneId : LaneId) (ready : List LaneId) :
    (insertReady laneId ready).Perm (laneId :: ready) :=
  perm_orderedInsert _ _ _

theorem kahn_fold : ∀ (cs ready : List LaneId) (indegree : Dict LaneId Int),
    cs.foldl (fun (state : List LaneId × Dict LaneId Int) child =>
      let degree := state.2.getD child 0 - 1
      (if degree = 0 then state.1.orderedInsert (· ≤ ·) child else state.1,
        state.2.set child degree)) (ready, indegree) =
      ((cs.foldl (countDown insertReady) (indegree, ready)).2,
        (cs.foldl (countDown insertReady) (indegree, ready)).1) := by
  intro cs
  induction cs with
  | nil => exact fun _ _ => rfl
  | cons c cs ih =>
    intro ready indegree
    rw [foldl_cons, foldl_cons, ih]
    rfl

theorem kahn_spec {children : LaneId → List LaneId} {need : LaneId → Int} {vertices : List LaneId}
    (hclosed : ∀ x ∈ vertices, ∀ y ∈ children x, y ∈ vertices) :
    ∀ (fuel : Nat) (ready : List LaneId) (indegree : Dict LaneId Int) (order : List LaneId),
      Countdown children need vertices indegree ready order → Arrived children need order →
      vertices.length ≤ fuel + order.length →
      ∃ indegree', Countdown children need vertices indegree' []
          (kahn children fuel ready indegree order) ∧
        Arrived children need (kahn children fuel ready indegree order) := by
  intro fuel
  induction fuel with
  | zero =>
    intro ready indegree order h harrived hfuel
    have hlen := h.length_le
    obtain rfl : ready = [] := length_eq_zero_iff.mp (by omega)
    exact ⟨indegree, h, harrived⟩
  | succ fuel ih =>
    intro ready indegree order h harrived hfuel
    cases ready with
    | nil => exact ⟨indegree, h, harrived⟩
    | cons node ready =>
      have hnode : node ∈ vertices := h.subset node (by simp)
      have hneed : need node ≤ (arrivals children order node : Int) :=
        (h.mem_iff hnode).mp (by simp)
      have hready : Countdown children need vertices indegree ([node] ++ ready) order := h
      have htake := hready.take insertReady_perm hclosed
      rw [flatMap_singleton] at htake
      have hkahn : kahn children (fuel + 1) (node :: ready) indegree order =
          kahn children fuel ((children node).foldl (countDown insertReady) (indegree, ready)).2
            ((children node).foldl (countDown insertReady) (indegree, ready)).1
            (order ++ [node]) := by
        rw [kahn, kahn_fold (children node) ready indegree]
      rw [hkahn]
      refine ih _ _ _ htake (harrived.concat hneed) ?_
      rw [length_append, length_singleton]
      omega

/-- The lanes among some that depend on a lane. -/
def childrenIn (lanes : List (LaneId × LaneSpec)) (laneId : LaneId) : List LaneId :=
  (lanes.filter fun l => decide (laneId ∈ l.2.dependsOn)).map Prod.fst

theorem LaneSpec.dependsOn_nodup (lane : LaneSpec) : lane.dependsOn.Nodup :=
  lane.dependsOn_sorted.imp fun h => ne_of_lt h

section

variable {lanes : List (LaneId × LaneSpec)} (hnodup : (lanes.map Prod.fst).Nodup)

include hnodup in
theorem count_childrenIn {l : LaneId × LaneSpec} (hl : l ∈ lanes) (y : LaneId) :
    (childrenIn lanes y).count l.1 = if y ∈ l.2.dependsOn then 1 else 0 := by
  have hsub : ((lanes.filter fun l => decide (y ∈ l.2.dependsOn)).map Prod.fst).Nodup :=
    hnodup.sublist (filter_sublist.map Prod.fst)
  unfold childrenIn
  split_ifs with hy
  · exact count_eq_one_of_mem hsub
      (mem_map_of_mem (mem_filter.mpr ⟨hl, decide_eq_true hy⟩))
  · refine count_eq_zero.mpr fun hmem => hy ?_
    obtain ⟨l', hl', heq⟩ := mem_map.mp hmem
    obtain ⟨hmem', hdep⟩ := mem_filter.mp hl'
    obtain rfl : l' = l := inj_on_of_nodup_map hnodup hmem' hl heq
    exact of_decide_eq_true hdep

include hnodup in
theorem le_arrivals_iff {l : LaneId × LaneSpec} (hl : l ∈ lanes) {order : List LaneId}
    (horder : order.Nodup) :
    (l.2.dependsOn.length : Int) ≤ (arrivals (childrenIn lanes) order l.1 : Int) ↔
      ∀ dependency ∈ l.2.dependsOn, dependency ∈ order := by
  have harrivals : arrivals (childrenIn lanes) order l.1 =
      (order.filter fun y => decide (y ∈ l.2.dependsOn)).length := by
    rw [arrivals_eq_sum]
    clear horder
    induction order with
    | nil => rfl
    | cons y order ih =>
      rw [map_cons, sum_cons, ih, count_childrenIn hnodup hl, filter_cons]
      by_cases hy : y ∈ l.2.dependsOn
      · rw [if_pos hy, if_pos (decide_eq_true hy), length_cons, Nat.add_comm]
      · rw [if_neg hy, if_neg (by simpa using hy), Nat.zero_add]
  have hfilter : (order.filter fun y => decide (y ∈ l.2.dependsOn)).Subperm l.2.dependsOn :=
    List.Nodup.subperm (horder.filter _) fun y hy =>
      of_decide_eq_true (mem_filter.mp hy).2
  rw [harrivals, Int.ofNat_le]
  constructor
  · intro hle dependency hdep
    have hperm := hfilter.perm_of_length_le hle
    exact (mem_filter.mp (hperm.mem_iff.mpr hdep)).1
  · intro hall
    refine (List.Nodup.subperm l.2.dependsOn_nodup fun y hy => ?_).length_le
    exact mem_filter.mpr ⟨hall y hy, decide_eq_true hy⟩

include hnodup in
theorem kahn_lanes {fuel : Nat} (hfuel : lanes.length ≤ fuel) :
    let indegree : Dict LaneId Int := lanes.map fun l => (l.1, (l.2.dependsOn.length : Int))
    let ready := (indegree.filter fun d => d.2 = 0).map Prod.fst
    let order := kahn (childrenIn lanes) fuel (ready.insertionSort (· ≤ ·)) indegree []
    order.Nodup ∧
      (∀ x, x ∈ order ↔ ∃ lane, (x, lane) ∈ lanes ∧ ∀ d ∈ lane.dependsOn, d ∈ order) ∧
      ∀ front x back, order = front ++ x :: back → ∃ lane, (x, lane) ∈ lanes ∧
        ∀ d ∈ lane.dependsOn, d ∈ front := by
  intro indegree ready order
  have hkeys : indegree.map Prod.fst = lanes.map Prod.fst := by
    rw [List.map_map]
    rfl
  have hget : ∀ l ∈ lanes, indegree.getD l.1 0 = (l.2.dependsOn.length : Int) := by
    intro l hl
    rw [Dict.getD, Dict.get?_of_mem (hkeys ▸ hnodup)
      (List.mem_map.mpr ⟨l, hl, rfl⟩ : (l.1, (l.2.dependsOn.length : Int)) ∈ indegree)]
    rfl
  have hvertex : ∀ x ∈ lanes.map Prod.fst, ∃ l ∈ lanes, l.1 = x ∧
      indegree.getD x 0 = (l.2.dependsOn.length : Int) := by
    intro x hx
    obtain ⟨l, hl, rfl⟩ := List.mem_map.mp hx
    exact ⟨l, hl, rfl, hget l hl⟩
  have hclosed : ∀ x ∈ lanes.map Prod.fst, ∀ y ∈ childrenIn lanes x, y ∈ lanes.map Prod.fst := by
    intro x _ y hy
    obtain ⟨l, hl, rfl⟩ := List.mem_map.mp hy
    exact List.mem_map_of_mem (List.mem_filter.mp hl).1
  have hready : ∀ x, x ∈ ready.insertionSort (· ≤ ·) ↔
      x ∈ lanes.map Prod.fst ∧ indegree.getD x 0 = 0 := by
    intro x
    rw [List.mem_insertionSort]
    constructor
    · intro hx
      obtain ⟨d, hd, rfl⟩ := List.mem_map.mp hx
      obtain ⟨hd, hzero⟩ := List.mem_filter.mp hd
      obtain ⟨l, hl, rfl⟩ := List.mem_map.mp hd
      exact ⟨List.mem_map_of_mem hl, (hget l hl).trans (of_decide_eq_true hzero)⟩
    · rintro ⟨hx, hzero⟩
      obtain ⟨l, hl, rfl, hl'⟩ := hvertex x hx
      rw [hl'] at hzero
      exact List.mem_map.mpr ⟨(l.1, (l.2.dependsOn.length : Int)),
        List.mem_filter.mpr ⟨List.mem_map.mpr ⟨l, hl, rfl⟩, decide_eq_true hzero⟩, rfl⟩
  have hreadyNodup : (ready.insertionSort (· ≤ ·)).Nodup := by
    rw [(List.perm_insertionSort _ _).nodup_iff]
    exact (hkeys ▸ hnodup).sublist (List.filter_sublist.map Prod.fst)
  have hstart : Countdown (childrenIn lanes) (fun x => indegree.getD x 0)
      (lanes.map Prod.fst) indegree (ready.insertionSort (· ≤ ·)) [] := by
    refine Countdown.start (fun x hx => ?_) hreadyNodup hready fun x _ => rfl
    obtain ⟨l, -, -, hl⟩ := hvertex x hx
    rw [hl]
    exact Int.natCast_nonneg _
  obtain ⟨indegree', hrun, harrived⟩ := kahn_spec hclosed fuel _ _ _ hstart (Arrived.nil _ _)
    (by rw [List.length_map]; simpa using hfuel)
  have horder : order.Nodup := by simpa using hrun.nodup
  have hmem : ∀ x ∈ order, x ∈ lanes.map Prod.fst := fun x hx => hrun.subset x (by simpa using hx)
  refine ⟨horder, fun x => ⟨fun hx => ?_, ?_⟩, fun front x back heq => ?_⟩
  · obtain ⟨l, hl, rfl, hl'⟩ := hvertex x (hmem x hx)
    have hle := (hrun.mem_iff (hmem l.1 hx)).mp (by simpa using hx)
    rw [hl'] at hle
    exact ⟨l.2, hl, (le_arrivals_iff hnodup hl horder).mp hle⟩
  · rintro ⟨lane, hlane, hdeps⟩
    have hle := (le_arrivals_iff hnodup hlane horder).mpr hdeps
    have hin := (hrun.mem_iff (List.mem_map_of_mem (f := Prod.fst) hlane)).mpr
      (by dsimp only; rw [hget (x, lane) hlane]; exact hle)
    simpa using hin
  · have hx : x ∈ order := by rw [heq]; simp
    obtain ⟨l, hl, rfl, hl'⟩ := hvertex x (hmem x hx)
    have hle : indegree.getD l.1 0 ≤ (arrivals (childrenIn lanes) front l.1 : Int) :=
      harrived front l.1 back heq
    rw [hl'] at hle
    have hfront : front.Nodup := horder.sublist (heq ▸ List.sublist_append_left _ _)
    exact ⟨l.2, hl, (le_arrivals_iff hnodup hl hfront).mp hle⟩

end

theorem mem_forward {x y : LaneId} : y ∈ forward spec x ↔ x ∈ spec.dependsOn y := by
  unfold forward
  rw [mem_map, mem_dependsOn]
  constructor
  · rintro ⟨⟨id, lane⟩, hl, rfl⟩
    obtain ⟨hmem, hdep⟩ := mem_filter.mp hl
    exact ⟨lane, hmem, of_decide_eq_true hdep⟩
  · rintro ⟨lane, hmem, hdep⟩
    exact ⟨(y, lane), mem_filter.mpr ⟨hmem, decide_eq_true hdep⟩, rfl⟩

theorem mem_laneIds_of_dependsOn {x y : LaneId} (h : y ∈ spec.dependsOn x) : x ∈ spec.laneIds := by
  obtain ⟨lane, hlane, -⟩ := mem_dependsOn.mp h
  exact mem_map_of_mem (f := Prod.fst) hlane

theorem topologicalOrder_spec (h : validate spec = []) : ∃ order,
    topologicalOrder spec = some order ∧ order.Perm spec.laneIds ∧
      AfterSuccessors spec.dependsOn order := by
  obtain ⟨-, hknown, hacyclic⟩ := (validate_eq_nil_iff spec).mp h
  obtain ⟨hnodup, hmem, hbefore⟩ := kahn_lanes spec.laneIds_nodup (Nat.le_refl spec.lanes.length)
  have hforward : childrenIn spec.lanes = forward spec := rfl
  rw [hforward] at hnodup hmem hbefore
  unfold topologicalOrder
  rw [if_neg (not_not.mpr h)]
  dsimp only
  generalize kahn (forward spec) spec.lanes.length _ _ [] = order at hnodup hmem hbefore ⊢
  have hall : ∀ x ∈ spec.laneIds, x ∈ order := by
    refine hacyclic.induction (fun x _ y hy => (hknown x y hy).2) fun x hx hdeps => ?_
    obtain ⟨⟨id, lane⟩, hl, rfl⟩ := mem_map.mp hx
    refine (hmem id).mpr ⟨lane, hl, fun d hd => hdeps d ?_⟩
    exact mem_dependsOn.mpr ⟨lane, hl, hd⟩
  have hsub : ∀ x ∈ order, x ∈ spec.laneIds := by
    intro x hx
    obtain ⟨lane, hl, -⟩ := (hmem x).mp hx
    exact mem_map_of_mem (f := Prod.fst) hl
  have hperm : order.Perm spec.laneIds :=
    (perm_ext_iff_of_nodup hnodup spec.laneIds_nodup).mpr fun x => ⟨hsub x, hall x⟩
  have hlen : order.length = spec.lanes.length := hperm.length_eq.trans (length_map _)
  refine ⟨order, if_pos hlen, hperm, fun front x back heq y hy => ?_⟩
  obtain ⟨lane, hl, hdeps⟩ := hbefore front x back heq
  rw [WaveSpec.dependsOn_of_mem (l := (x, lane)) hl] at hy
  exact hdeps y hy

theorem levels_spec (h : validate spec = []) :
    (levels spec).map Prod.fst = spec.laneIds ∧ ∀ x ∈ spec.laneIds, ∃ n,
      Dict.get? (levels spec) x = some n ∧ LongestFrom (Step spec.dependsOn) x n := by
  obtain ⟨order, horder, hperm, hafter⟩ := topologicalOrder_spec h
  have hnodup : order.Nodup := hperm.nodup_iff.mpr spec.laneIds_nodup
  unfold levels
  rw [horder]
  dsimp only
  set table := tabulate (fun result laneId => if spec.dependsOn laneId = [] then 0
    else 1 + ((spec.dependsOn laneId).map fun dependency =>
      result.getD dependency 0).foldl max 0) order with htable
  have hkeys : table.map Prod.fst = order := map_fst_tabulate hnodup
  have hsort := perm_insertionSort (fun a b : LaneId × Nat => a.1 ≤ b.1) table
  have hsortKeys : ((table.insertionSort fun a b => a.1 ≤ b.1).map Prod.fst).Perm spec.laneIds :=
    (hsort.map Prod.fst).trans (hkeys ▸ hperm)
  constructor
  · have hsorted : ((table.insertionSort fun a b => a.1 ≤ b.1).map Prod.fst).Pairwise (· ≤ ·) := by
      rw [pairwise_map]
      exact pairwise_insertionSort (fun a b : LaneId × Nat => a.1 ≤ b.1) table
    exact hsortKeys.eq_of_pairwise (fun a b _ _ hab hba => le_antisymm hab hba) hsorted
      (spec.lanes_sorted.imp fun h => le_of_lt h)
  · intro x hx
    have hget : Dict.get? (table.insertionSort fun a b => a.1 ≤ b.1) x = table.get? x :=
      Dict.get?_perm hsort (hsortKeys.nodup_iff.mpr spec.laneIds_nodup) x
    suffices hsome : ∃ n, table.get? x = some n ∧ LongestFrom (Step spec.dependsOn) x n by
      obtain ⟨n, hn, hlongest⟩ := hsome
      exact ⟨n, hget.trans hn, hlongest⟩
    refine tabulate_forall hafter hnodup (fun result laneId _ hdeps => ?_) x (hperm.mem_iff.mpr hx)
    have hlongest : ∀ y ∈ spec.dependsOn laneId,
        LongestFrom (Step spec.dependsOn) y (result.getD y 0) := by
      intro y hy
      obtain ⟨n, hn, hlongest⟩ := hdeps y hy
      rw [Dict.getD, hn]
      exact hlongest
    obtain ⟨-, hall, hin⟩ := foldl_max_spec
      ((spec.dependsOn laneId).map fun dependency => result.getD dependency 0) 0
    by_cases hnil : spec.dependsOn laneId = []
    · rw [if_pos hnil]
      refine longestFrom_of_succ hlongest (fun y hy => ?_) (.inl rfl)
      rw [Step, hnil] at hy
      cases hy
    · rw [if_neg hnil]
      refine longestFrom_of_succ hlongest (fun y hy => ?_) (.inr ?_)
      · have hle := hall _ (mem_map_of_mem (f := fun d => result.getD d 0) hy)
        omega
      · obtain ⟨y, hy⟩ := exists_mem_of_ne_nil _ hnil
        rcases hin with hzero | hin
        · have hle := hall _ (mem_map_of_mem (f := fun d => result.getD d 0) hy)
          exact ⟨y, hy, by omega⟩
        · obtain ⟨z, hz, hval⟩ := mem_map.mp hin
          exact ⟨z, hz, by rw [← hval, Nat.add_comm]⟩

/-- A canonical path has no backslash, and no empty, `.` or `..` segment. -/
def CanonicalPath (path : String) : Prop :=
  '\\' ∉ path.toList ∧ ∀ segment ∈ path.toList.splitOn '/',
    segment ≠ [] ∧ segment ≠ ['.'] ∧ segment ≠ ['.', '.']

theorem nonCanonical_eq_false_iff (path : String) : nonCanonical path = false ↔ CanonicalPath path := by
  unfold nonCanonical CanonicalPath
  simp only [Bool.or_eq_false_iff, decide_eq_false_iff_not, any_eq_false, Bool.or_eq_true,
    beq_iff_eq, not_or, and_assoc]

/-- Validation finds exactly the waves with canonical paths and known dependencies without a cycle. A
wave that it accepts has an order with all lanes once, each after its dependencies, and every lane has
the level of its longest chain of dependencies. -/
theorem validate_exact (spec : WaveSpec) :
    (validate spec = [] ↔
      (∀ l ∈ spec.lanes, ∀ path ∈ l.2.paths, CanonicalPath path) ∧
        (∀ laneId, ∀ dependency ∈ spec.dependsOn laneId,
          dependency ≠ laneId ∧ dependency ∈ spec.laneIds) ∧ Acyclic spec.dependsOn) ∧
    (validate spec = [] →
      (∃ order, topologicalOrder spec = some order ∧ order.Perm spec.laneIds ∧
        ∀ front x back, order = front ++ x :: back → ∀ y ∈ spec.dependsOn x, y ∈ front) ∧
      (levels spec).map Prod.fst = spec.laneIds ∧ ∀ x ∈ spec.laneIds, ∃ n,
        Dict.get? (levels spec) x = some n ∧ LongestFrom (Step spec.dependsOn) x n) := by
  refine ⟨?_, fun h => ⟨topologicalOrder_spec h, levels_spec h⟩⟩
  rw [validate_eq_nil_iff]
  simp only [nonCanonical_eq_false_iff, KnownDependencies]

theorem noDependencies_sorted : ([] : List LaneId).Pairwise (· < ·) := List.Pairwise.nil

/-- A lane that depends on another one, with overlapping paths. -/
def pairSpec : WaveSpec where
  wave := "w"
  lanes := [("a", ⟨[], ["src/a"], 1, noDependencies_sorted, by decide, not_mem_nil, by decide⟩),
    ("b", ⟨["a"], ["src/a/b"], 2, by decide, by decide, by decide, by decide⟩)]
  lanes_sorted := by decide
  lanes_ne := by decide

theorem pairSpec_valid : validate pairSpec = [] := by decide +kernel

end Workbay.Wave

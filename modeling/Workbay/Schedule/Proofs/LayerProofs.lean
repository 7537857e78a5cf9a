import Workbay.Graph.Chain
import Workbay.Graph.Countdown
import Workbay.Schedule.ReadySet

/-!
# Layers

A lane comes into a layer when it waits for nothing more. It waits for its prerequisites without
repetitions, but each one arrives as often as the lane lists it, so that the lane can come too early.
-/

namespace Workbay.Schedule

open Relation Workbay.Graph List

section

variable {laneIds : List String} {dependsOn : DependsOn}

theorem prereqsOf_cons (entry : String × List String) (dependsOn : DependsOn) (x : String) :
    prereqsOf (entry :: dependsOn) x = if entry.1 = x then entry.2 else prereqsOf dependsOn x := by
  unfold prereqsOf Dict.getD
  rw [Dict.get?_cons]
  split_ifs <;> rfl

theorem prereqsOf_eq_nil (h : x ∉ dependsOn.map Prod.fst) : prereqsOf dependsOn x = [] := by
  rw [prereqsOf, Dict.getD, Dict.get?_eq_none_iff.mpr h]
  rfl

theorem count_schedulingForward (hkeys : (dependsOn.map Prod.fst).Nodup) (x y : String) :
    (schedulingForward laneIds dependsOn y).count x =
      if x ∈ laneIds ∧ y ≠ x then (prereqsOf dependsOn x).count y else 0 := by
  induction dependsOn with
  | nil => simp [schedulingForward, prereqsOf, Dict.getD]
  | cons entry dependsOn ih =>
    obtain ⟨lane, prereqs⟩ := entry
    obtain ⟨hlane, hkeys⟩ := nodup_cons.mp hkeys
    have hsplit : schedulingForward laneIds ((lane, prereqs) :: dependsOn) y =
        (if lane ∈ laneIds then
          (prereqs.filter fun prereq => prereq = y ∧ prereq ≠ lane).map fun _ => lane
        else []) ++ schedulingForward laneIds dependsOn y := rfl
    have hcount : ∀ l : List String, (l.map fun _ => lane).count x = if lane = x then l.length else 0 := by
      intro l
      rw [map_const', count_replicate]
      simp only [beq_iff_eq]
    rw [hsplit, count_append, ih hkeys, prereqsOf_cons]
    by_cases hx : lane = x
    · subst hx
      have hnil : prereqsOf dependsOn lane = [] := prereqsOf_eq_nil hlane
      rw [hnil, if_pos rfl, count_nil, ite_self, Nat.add_zero]
      by_cases hin : lane ∈ laneIds
      · rw [if_pos hin, hcount, if_pos rfl]
        by_cases hy : y = lane
        · rw [if_neg fun h => h.2 hy, length_eq_zero_iff, filter_eq_nil_iff]
          intro prereq _
          simp only [decide_eq_true_eq, not_and, not_not]
          exact fun heq => heq.trans hy
        · rw [if_pos ⟨hin, hy⟩, count_eq_length_filter]
          refine congrArg List.length (filter_congr fun prereq _ => ?_)
          by_cases hp : prereq = y
          · subst hp
            simp [hy]
          · simp [hp]
      · rw [if_neg hin, if_neg fun h => hin h.1]
        rfl
    · rw [if_neg hx]
      split_ifs with hin
      · rw [hcount, if_neg hx, Nat.zero_add]
      · rw [hcount, if_neg hx]
      · simp
      · simp

theorem mem_schedulingForward (hkeys : (dependsOn.map Prod.fst).Nodup) {x y : String} :
    x ∈ schedulingForward laneIds dependsOn y ↔
      x ∈ laneIds ∧ y ≠ x ∧ y ∈ prereqsOf dependsOn x := by
  rw [← count_pos_iff, count_schedulingForward hkeys]
  split_ifs with h
  · rw [count_pos_iff]
    exact ⟨fun hy => ⟨h.1, h.2, hy⟩, fun hy => hy.2.2⟩
  · exact ⟨fun hpos => absurd hpos (Nat.lt_irrefl 0), fun hy => absurd ⟨hy.1, hy.2.1⟩ h⟩

theorem nodup_declaredDependsOn (hkeys : (dependsOn.map Prod.fst).Nodup) :
    ((declaredDependsOn laneIds dependsOn).map Prod.fst).Nodup := by
  unfold declaredDependsOn
  rw [List.map_map]
  exact hkeys.sublist (List.filter_sublist.map Prod.fst)

theorem prereqsOf_declaredDependsOn (x : String) :
    prereqsOf (declaredDependsOn laneIds dependsOn) x =
      if x ∈ laneIds then (prereqsOf dependsOn x).filter (· ∈ laneIds) else [] := by
  unfold declaredDependsOn
  induction dependsOn with
  | nil => simp [prereqsOf, Dict.getD]
  | cons entry dependsOn ih =>
    obtain ⟨lane, prereqs⟩ := entry
    rw [filter_cons, prereqsOf_cons]
    by_cases hlane : lane ∈ laneIds
    · rw [if_pos (decide_eq_true hlane), map_cons, prereqsOf_cons, ih]
      by_cases hx : lane = x
      · subst hx
        rw [if_pos rfl, if_pos hlane, if_pos rfl]
      · rw [if_neg hx, if_neg hx]
    · rw [if_neg (by simpa using hlane), ih]
      by_cases hx : lane = x
      · subst hx
        rw [if_neg hlane, if_neg hlane]
      · rw [if_neg hx]

end

theorem lower_eq_countDown : lower = countDown fun child ready => ready ++ [child] := rfl

/-- Some layers after the lanes of `order`: every layer has the lanes that wait for nothing more than the
layers before it, and no lane is left that does. -/
structure LayersAfter (forward : String → List String) (need : String → Int) (vertices order : List String)
    (layers : List (List String)) : Prop where
  nodup : (order ++ layers.flatten).Nodup
  subset : ∀ x ∈ order ++ layers.flatten, x ∈ vertices
  complete : ∀ x ∈ vertices, need x ≤ (arrivals forward (order ++ layers.flatten) x : Int) →
    x ∈ order ++ layers.flatten
  layer : ∀ front next back, layers = front ++ next :: back → ∀ x ∈ vertices,
    (x ∈ order ++ (front ++ [next]).flatten ↔
      need x ≤ (arrivals forward (order ++ front.flatten) x : Int))

section

variable {forward : String → List String} {need : String → Int} {vertices order layer : List String}
  {indegree : Dict String Int} {layers : List (List String)}

theorem LayersAfter.nil (h : Countdown forward need vertices indegree [] order) :
    LayersAfter forward need vertices order [] := by
  refine ⟨h.nodup, h.subset, fun x hx hneed => (h.mem_iff hx).mpr ?_, fun front next back heq => ?_⟩
  · have hnil : order ++ ([] : List (List String)).flatten = order := append_nil order
    rw [hnil] at hneed
    exact hneed
  · cases front <;> cases heq

theorem LayersAfter.cons (h : Countdown forward need vertices indegree layer order)
    (hlayers : LayersAfter forward need vertices (order ++ layer) layers) :
    LayersAfter forward need vertices order (layer :: layers) := by
  obtain ⟨hnodup, hsubset, hcomplete, hlayer⟩ := hlayers
  have hcons : order ++ (layer :: layers).flatten = order ++ layer ++ layers.flatten := by
    rw [flatten_cons, append_assoc]
  refine ⟨hcons ▸ hnodup, hcons ▸ hsubset, fun x hx hneed => ?_, fun front next back heq x hx => ?_⟩
  · rw [hcons] at hneed ⊢
    exact hcomplete x hx hneed
  · cases front with
    | nil =>
      obtain ⟨rfl, -⟩ := List.cons.inj heq
      have hnil : order ++ ([] : List (List String)).flatten = order := append_nil order
      rw [nil_append, flatten_singleton, hnil]
      exact h.mem_iff hx
    | cons first front =>
      rw [cons_append] at heq
      obtain ⟨rfl, hrest⟩ := List.cons.inj heq
      rw [cons_append, flatten_cons, flatten_cons, ← append_assoc,
        ← append_assoc]
      exact hlayer front next back hrest x hx

theorem layersFrom_spec (hclosed : ∀ x ∈ vertices, ∀ y ∈ forward x, y ∈ vertices) :
    ∀ (fuel : Nat) (indegree : Dict String Int) (layer order : List String),
      Countdown forward need vertices indegree layer order →
      vertices.length ≤ fuel + order.length →
      LayersAfter forward need vertices order (layersFrom forward fuel indegree layer).1 := by
  have hinsert : ∀ (x : String) (xs : List String), (xs ++ [x]).Perm (x :: xs) :=
    fun x xs => perm_append_singleton x xs
  intro fuel
  induction fuel with
  | zero =>
    intro indegree layer order h hfuel
    have hlen := h.length_le
    obtain rfl : layer = [] := length_eq_zero_iff.mp (by omega)
    exact LayersAfter.nil h
  | succ fuel ih =>
    intro indegree layer order h hfuel
    cases layer with
    | nil => exact LayersAfter.nil h
    | cons lane rest =>
      have hbatch : Countdown forward need vertices indegree ((lane :: rest) ++ []) order := by
        rw [append_nil]
        exact h
      have htake := hbatch.take hinsert hclosed
      rw [← lower_eq_countDown] at htake
      have hnext := htake.nodup.sublist (sublist_append_right _ _)
      have hperm := perm_insertionSort (· ≤ ·)
        ((((lane :: rest).flatMap forward).foldl lower (indegree, [])).2.dedup)
      rw [List.Nodup.dedup hnext] at hperm
      have hsorted := htake.perm hperm
      refine LayersAfter.cons h (ih _ _ _ ?_ ?_)
      · rw [List.Nodup.dedup hnext]
        exact hsorted
      · rw [length_append, length_cons]
        omega

end

theorem chainFrom_spec (next : String → List String) : ∀ (fuel : Nat) (x : String),
    (∃ p, (x :: p).IsChain (Step next) ∧ p.length = chainFrom next fuel x) ∧
      ∀ p, (x :: p).IsChain (Step next) → p.length ≤ fuel → p.length ≤ chainFrom next fuel x := by
  intro fuel
  induction fuel with
  | zero => exact fun x => ⟨⟨[], isChain_singleton x, rfl⟩, fun p _ hlen => hlen⟩
  | succ fuel ih =>
    intro x
    have hfold : chainFrom next (fuel + 1) x =
        ((next x).map fun child => 1 + chainFrom next fuel child).foldl max 0 := by
      rw [foldl_map]
      rfl
    obtain ⟨-, hall, hin⟩ := foldl_max_spec ((next x).map fun child => 1 + chainFrom next fuel child) 0
    rw [hfold]
    constructor
    · rcases hin with hzero | hin
      · exact ⟨[], isChain_singleton x, hzero.symm⟩
      · obtain ⟨y, hy, hvalue⟩ := mem_map.mp hin
        obtain ⟨⟨p, hp, hlen⟩, -⟩ := ih y
        refine ⟨y :: p, isChain_cons_cons.mpr ⟨hy, hp⟩, ?_⟩
        rw [← hvalue, length_cons, hlen, Nat.add_comm]
    · intro p hp hlen
      cases p with
      | nil => exact Nat.zero_le _
      | cons y p =>
        obtain ⟨hxy, hp⟩ := isChain_cons_cons.mp hp
        rw [length_cons] at hlen ⊢
        have hle := (ih y).2 p hp (by omega)
        have hmem := hall _ (mem_map_of_mem (f := fun child => 1 + chainFrom next fuel child) hxy)
        omega

theorem longestFrom_chainFrom {next : String → List String} {vertices : List String}
    (hacyclic : Acyclic next) (hclosed : ∀ x, ∀ y ∈ next x, y ∈ vertices) {fuel : Nat}
    (hfuel : vertices.length ≤ fuel) (x : String) :
    LongestFrom (Step next) x (chainFrom next fuel x) := by
  obtain ⟨hex, hall⟩ := chainFrom_spec next fuel x
  refine ⟨hex, fun p hp => hall p hp (Nat.le_trans ?_ hfuel)⟩
  refine length_le_of_isChain hacyclic hp.tail fun y hy => ?_
  obtain ⟨z, -, hzy⟩ := TransGen.tail'_iff.mp (transGen_of_isChain hp y hy)
  exact hclosed z y hzy

/-! ## The layers of a graph without cycles -/

/-- The longest chain of declared prerequisites of a lane. -/
def depth (laneIds : List String) (dependsOn : DependsOn) (x : String) : Nat :=
  chainFrom (prereqsOf (declaredDependsOn laneIds dependsOn)) laneIds.length x

/-- Every lane comes in a later layer than its prerequisites. -/
def Ordered (prereqs : String → List String) (layers : List (List String)) : Prop :=
  ∀ front next back, layers = front ++ next :: back → ∀ x ∈ next, ∀ y ∈ prereqs x, y ∈ front.flatten

section

variable {laneIds : List String} {dependsOn : DependsOn}

theorem mem_declared {x y : String} (h : y ∈ prereqsOf (declaredDependsOn laneIds dependsOn) x) :
    x ∈ laneIds ∧ y ∈ laneIds := by
  rw [prereqsOf_declaredDependsOn] at h
  split_ifs at h with hx
  · exact ⟨hx, of_decide_eq_true (mem_filter.mp h).2⟩
  · cases h

section

variable (hacyclic : Acyclic (prereqsOf (declaredDependsOn laneIds dependsOn)))

include hacyclic

theorem longestFrom_depth (x : String) :
    LongestFrom (Step (prereqsOf (declaredDependsOn laneIds dependsOn))) x (depth laneIds dependsOn x) :=
  longestFrom_chainFrom hacyclic (fun _ _ hy => (mem_declared hy).2) (Nat.le_refl _) x

theorem depth_lt {x y : String} (h : y ∈ prereqsOf (declaredDependsOn laneIds dependsOn) x) :
    depth laneIds dependsOn y < depth laneIds dependsOn x :=
  (longestFrom_depth hacyclic x).lt (longestFrom_depth hacyclic y) h

theorem exists_deepest {x : String} (h : 0 < depth laneIds dependsOn x) :
    ∃ y ∈ prereqsOf (declaredDependsOn laneIds dependsOn) x,
      depth laneIds dependsOn x = depth laneIds dependsOn y + 1 := by
  obtain ⟨⟨p, hp, hlen⟩, -⟩ := longestFrom_depth hacyclic x
  cases p with
  | nil =>
    rw [length_nil] at hlen
    omega
  | cons y p =>
    obtain ⟨hxy, hp⟩ := isChain_cons_cons.mp hp
    have hle := (longestFrom_depth hacyclic y).2 p hp
    have hlt := depth_lt hacyclic hxy
    rw [length_cons] at hlen
    exact ⟨y, hxy, by omega⟩

end

/-- All lanes are in one layer each, and a lane is in no later layer than the one after which it waits for
nothing more. -/
theorem computeLayers_spec (hnodup : laneIds.Nodup) (hkeys : (dependsOn.map Prod.fst).Nodup)
    (hacyclic : Acyclic (prereqsOf (declaredDependsOn laneIds dependsOn))) :
    ∃ layers, computeLayers laneIds dependsOn = .ok layers ∧ layers.flatten.Perm laneIds ∧
      ∀ front next back, layers = front ++ next :: back → ∀ x ∈ laneIds,
        (x ∈ (front ++ [next]).flatten ↔
          (prereqsOf (declaredDependsOn laneIds dependsOn) x).dedup.length ≤
            ((prereqsOf (declaredDependsOn laneIds dependsOn) x).filter
              fun y => y ∈ front.flatten).length) := by
  set declared := declaredDependsOn laneIds dependsOn with hdeclared
  have hkeys' : (declared.map Prod.fst).Nodup := nodup_declaredDependsOn hkeys
  have harrivals : ∀ (order : List String) (x : String), order.Nodup → x ∈ laneIds →
      arrivals (schedulingForward laneIds declared) order x =
        ((prereqsOf declared x).filter fun y => y ∈ order).length := by
    intro order x horder hx
    refine arrivals_eq_length horder fun y _ => ?_
    rw [count_schedulingForward hkeys']
    split_ifs with h
    · rfl
    · -- a lane is no prerequisite of itself
      refine (List.count_eq_zero.mpr fun hy => h ⟨hx, ?_⟩).symm
      rintro rfl
      exact hacyclic y (TransGen.single hy)
  set need : String → Int := fun x => ((prereqsOf declared x).dedup.length : Nat) with hneed
  set indegree : Dict String Int := laneIds.map fun laneId => (laneId, need laneId) with hindegree
  have hget : ∀ x ∈ laneIds, indegree.getD x 0 = need x := by
    intro x hx
    rw [Dict.getD, hindegree, Dict.get?_map_key, if_pos hx]
    rfl
  have hready : ∀ x, x ∈ ((indegree.filter fun entry => entry.2 = 0).map Prod.fst).insertionSort
      (· ≤ ·) ↔ x ∈ laneIds ∧ need x = 0 := by
    intro x
    rw [List.mem_insertionSort, hindegree, List.mem_map]
    constructor
    · rintro ⟨e, he, rfl⟩
      obtain ⟨hmem, hzero⟩ := List.mem_filter.mp he
      obtain ⟨y, hy, rfl⟩ := List.mem_map.mp hmem
      exact ⟨hy, of_decide_eq_true hzero⟩
    · rintro ⟨hx, hzero⟩
      exact ⟨(x, need x), List.mem_filter.mpr ⟨List.mem_map_of_mem hx, decide_eq_true hzero⟩, rfl⟩
  have hreadyNodup : (((indegree.filter fun entry => entry.2 = 0).map Prod.fst).insertionSort
      (· ≤ ·)).Nodup := by
    rw [(List.perm_insertionSort _ _).nodup_iff]
    have hmap : indegree.map Prod.fst = laneIds := by
      rw [hindegree, List.map_map]
      exact List.map_id laneIds
    exact (hmap ▸ hnodup).sublist (List.filter_sublist.map Prod.fst)
  have hstart : Countdown (schedulingForward laneIds declared) need laneIds indegree
      (((indegree.filter fun entry => entry.2 = 0).map Prod.fst).insertionSort (· ≤ ·)) [] :=
    Countdown.start (fun x _ => Int.natCast_nonneg _) hreadyNodup hready hget
  have hspec := layersFrom_spec (fun x _ y hy => ((mem_schedulingForward hkeys').mp hy).1)
    laneIds.length _ _ _ hstart (Nat.le_add_right _ _)
  set run := layersFrom (schedulingForward laneIds declared) laneIds.length indegree
    (((indegree.filter fun entry => entry.2 = 0).map Prod.fst).insertionSort (· ≤ ·)) with hrun
  have hflat : run.1.flatten.Nodup := hspec.nodup
  have hall : ∀ x ∈ laneIds, x ∈ run.1.flatten := by
    refine hacyclic.induction (fun x _ y hy => (mem_declared hy).2) fun x hx ih => ?_
    refine hspec.complete x hx ?_
    rw [List.nil_append, harrivals _ x hflat hx, List.filter_eq_self.mpr fun y hy =>
      decide_eq_true (ih y hy)]
    exact Int.ofNat_le.mpr (List.dedup_sublist _).length_le
  have hperm : run.1.flatten.Perm laneIds :=
    (List.perm_ext_iff_of_nodup hflat hnodup).mpr fun x => ⟨hspec.subset x, hall x⟩
  refine ⟨run.1, ?_, hperm, fun front next back heq x hx => ?_⟩
  · unfold computeLayers
    exact if_pos hperm.length_eq
  · have hfront : front.flatten.Nodup := by
      rw [heq, List.flatten_append] at hflat
      exact hflat.sublist (List.sublist_append_left _ _)
    have hiff := hspec.layer front next back heq x hx
    rw [List.nil_append, List.nil_append, harrivals _ x hfront hx] at hiff
    rw [hiff]
    exact Int.ofNat_le

/-- No lane lists those of its prerequisites that are not right below it as often as it has prerequisites. -/
def ListsFew (laneIds : List String) (dependsOn : DependsOn) : Prop :=
  ∀ x ∈ laneIds, prereqsOf (declaredDependsOn laneIds dependsOn) x ≠ [] →
    ((prereqsOf (declaredDependsOn laneIds dependsOn) x).filter fun y =>
        depth laneIds dependsOn y + 1 < depth laneIds dependsOn x).length <
      (prereqsOf (declaredDependsOn laneIds dependsOn) x).dedup.length

theorem Ordered.mem_flatten {prereqs : String → List String} {layers front back : List (List String)}
    {next : List String} (h : Ordered prereqs layers) (heq : layers = front ++ next :: back) {x : String}
    (hx : x ∈ (front ++ [next]).flatten) : ∀ y ∈ prereqs x, y ∈ front.flatten := by
  rw [List.flatten_append, List.flatten_singleton, List.mem_append] at hx
  intro y hy
  rcases hx with hx | hx
  · obtain ⟨layer, hlayer, hmem⟩ := List.mem_flatten.mp hx
    obtain ⟨before, after, rfl⟩ := List.append_of_mem hlayer
    have hbefore := h before layer (after ++ next :: back)
      (by rw [heq, List.append_assoc, List.cons_append]) x hmem y hy
    rw [List.flatten_append]
    exact List.mem_append_left _ hbefore
  · exact h front next back heq x hx y hy

section

variable (hacyclic : Acyclic (prereqsOf (declaredDependsOn laneIds dependsOn)))
  {layers : List (List String)}
  (hlayers : ∀ front next back, layers = front ++ next :: back → ∀ x ∈ laneIds,
    (x ∈ (front ++ [next]).flatten ↔
      (prereqsOf (declaredDependsOn laneIds dependsOn) x).dedup.length ≤
        ((prereqsOf (declaredDependsOn laneIds dependsOn) x).filter
          fun y => y ∈ front.flatten).length))

include hacyclic hlayers in
theorem mem_front_iff (hearly : ∀ front next back, layers = front ++ next :: back →
      (∀ x ∈ laneIds, (x ∈ front.flatten ↔ depth laneIds dependsOn x < front.length)) →
      ∀ x ∈ laneIds, front.length < depth laneIds dependsOn x → x ∉ (front ++ [next]).flatten) :
    ∀ front back, layers = front ++ back → ∀ x ∈ laneIds,
      (x ∈ front.flatten ↔ depth laneIds dependsOn x < front.length) := by
  intro front
  induction front using List.reverseRecOn with
  | nil => simp
  | append_singleton front next ih =>
    intro back heq x hx
    rw [append_assoc, singleton_append] at heq
    have hfront := ih (next :: back) heq
    rw [length_append, length_singleton]
    by_cases hdepth : depth laneIds dependsOn x ≤ front.length
    · refine iff_of_true ((hlayers front next back heq x hx).mpr ?_) (by omega)
      rw [filter_eq_self.mpr]
      · exact (dedup_sublist _).length_le
      · intro y hy
        have hlt := depth_lt hacyclic hy
        exact decide_eq_true ((hfront y (mem_declared hy).2).mpr (by omega))
    · exact iff_of_false (hearly front next back heq hfront x hx (by omega)) (by omega)

include hacyclic hlayers in
theorem mem_front_iff_of_listsFew (hfew : ListsFew laneIds dependsOn) :
    ∀ front back, layers = front ++ back → ∀ x ∈ laneIds,
      (x ∈ front.flatten ↔ depth laneIds dependsOn x < front.length) := by
  refine mem_front_iff hacyclic hlayers fun front next back heq hfront x hx hdepth hin => ?_
  obtain ⟨z, hz, -⟩ := exists_deepest hacyclic (Nat.lt_of_le_of_lt (Nat.zero_le _) hdepth)
  have hle := (hlayers front next back heq x hx).mp hin
  have hlt := hfew x hx (ne_nil_of_mem hz)
  -- what is in the front is not right below the lane
  have hsub : ((prereqsOf (declaredDependsOn laneIds dependsOn) x).filter fun y =>
      y ∈ front.flatten).length ≤ ((prereqsOf (declaredDependsOn laneIds dependsOn) x).filter fun y =>
        depth laneIds dependsOn y + 1 < depth laneIds dependsOn x).length := by
    rw [← countP_eq_length_filter, ← countP_eq_length_filter]
    refine countP_mono_left fun y hy hin => decide_eq_true ?_
    have hlow := (hfront y (mem_declared hy).2).mp (of_decide_eq_true hin)
    omega
  omega

include hacyclic hlayers in
theorem mem_front_iff_of_ordered
    (hordered : Ordered (prereqsOf (declaredDependsOn laneIds dependsOn)) layers) :
    ∀ front back, layers = front ++ back → ∀ x ∈ laneIds,
      (x ∈ front.flatten ↔ depth laneIds dependsOn x < front.length) := by
  refine mem_front_iff hacyclic hlayers fun front next back heq hfront x hx hdepth hin => ?_
  obtain ⟨y, hy, hdeepest⟩ := exists_deepest hacyclic (Nat.lt_of_le_of_lt (Nat.zero_le _) hdepth)
  have hlow := (hfront y (mem_declared hy).2).mp (hordered.mem_flatten heq hin y hy)
  omega

include hacyclic hlayers in
theorem ordered_iff_listsFew (hnodup : laneIds.Nodup) (hperm : layers.flatten.Perm laneIds) :
    Ordered (prereqsOf (declaredDependsOn laneIds dependsOn)) layers ↔ ListsFew laneIds dependsOn := by
  constructor
  · intro hordered x hx hne
    have hfront := mem_front_iff_of_ordered hacyclic hlayers hordered
    obtain ⟨z, hz⟩ := exists_mem_of_ne_nil _ hne
    have hpos := depth_lt hacyclic hz
    obtain ⟨layer, hlayer, hmem⟩ := mem_flatten.mp (hperm.mem_iff.mpr hx)
    obtain ⟨front, back, heq⟩ := append_of_mem hlayer
    have hnot : x ∉ front.flatten := by
      have hflat := hperm.nodup_iff.mpr hnodup
      rw [heq, flatten_append, flatten_cons] at hflat
      exact fun hin =>
        (nodup_append.mp hflat).2.2 x hin x (mem_append_left _ hmem) rfl
    -- the layer of the lane is the one of its depth, and the one before does not have it
    have hdepth : depth laneIds dependsOn x = front.length := by
      have hlt := (hfront (front ++ [layer]) back (by rw [heq]; simp) x hx).mp
        (by rw [flatten_append, flatten_singleton]; exact mem_append_right _ hmem)
      have hge := mt (hfront front (layer :: back) heq x hx).mpr hnot
      rw [length_append, length_singleton] at hlt
      omega
    rcases eq_nil_or_concat front with rfl | ⟨before, last, rfl⟩
    · rw [length_nil] at hdepth
      omega
    · rw [concat_eq_append, length_append, length_singleton] at hdepth
      rw [concat_eq_append, append_assoc, singleton_append] at heq
      rw [concat_eq_append] at hnot
      have hlt := mt (hlayers before last (layer :: back) heq x hx).mpr hnot
      have hsame : ((prereqsOf (declaredDependsOn laneIds dependsOn) x).filter fun y =>
          y ∈ before.flatten) = (prereqsOf (declaredDependsOn laneIds dependsOn) x).filter fun y =>
            depth laneIds dependsOn y + 1 < depth laneIds dependsOn x := by
        refine filter_congr fun y hy => decide_eq_decide.mpr ?_
        rw [hfront before (last :: layer :: back) heq y (mem_declared hy).2]
        omega
      rw [← hsame]
      omega
  · intro hfew front next back heq x hx y hy
    have hfront := mem_front_iff_of_listsFew hacyclic hlayers hfew
    have hx' : x ∈ laneIds := (mem_declared hy).1
    have hlt := (hfront (front ++ [next]) back (by rw [heq]; simp) x hx').mp
      (by rw [flatten_append, flatten_singleton]; exact mem_append_right _ hx)
    rw [length_append, length_singleton] at hlt
    have hlow := depth_lt hacyclic hy
    exact (hfront front (next :: back) heq y (mem_declared hy).2).mpr (by omega)

end

end

end Workbay.Schedule

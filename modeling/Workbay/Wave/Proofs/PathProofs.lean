import Mathlib.Data.List.Infix
import Workbay.Wave.Proofs.OrderProofs

/-!
# The critical path and the integration order

From the sinks upwards every lane is given the weight of the heaviest path from it on, and the next lane
of that path; the critical path follows the next lanes from the heaviest source.
-/

namespace Workbay.Wave

open Relation Workbay.Graph List Dict

variable {spec : WaveSpec}

theorem integrationOrder_spec (h : validate spec = []) (done : List LaneId) :
    (integrationOrder spec done).Nodup ∧
      (∀ x, x ∈ integrationOrder spec done ↔
        x ∈ spec.laneIds ∧ ∀ y, ReflTransGen (Step spec.dependsOn) x y → y ∈ done) ∧
      AfterSuccessors spec.dependsOn (integrationOrder spec done) := by
  obtain ⟨-, hknown, hacyclic⟩ := (validate_eq_nil_iff spec).mp h
  set lanes := spec.lanes.filter fun l => decide (l.1 ∈ done) with hlanes
  have hsub : ∀ l ∈ lanes, l ∈ spec.lanes ∧ l.1 ∈ done := by
    intro l hl
    obtain ⟨hmem, hdone⟩ := mem_filter.mp hl
    exact ⟨hmem, of_decide_eq_true hdone⟩
  have hnodup : (lanes.map Prod.fst).Nodup :=
    spec.laneIds_nodup.sublist (filter_sublist.map Prod.fst)
  obtain ⟨horder, hmem, hbefore⟩ := kahn_lanes hnodup (length_filter_le _ spec.lanes)
  unfold integrationOrder
  rw [if_neg (not_not.mpr h)]
  dsimp only
  rw [← hlanes]
  change List.Nodup (kahn (childrenIn lanes) _ _ _ _) ∧ (∀ x, x ∈ kahn (childrenIn lanes) _ _ _ _ ↔ _) ∧
    AfterSuccessors _ (kahn (childrenIn lanes) _ _ _ _)
  generalize kahn (childrenIn lanes) spec.lanes.length _ _ [] = order at horder hmem hbefore ⊢
  have hdeps : ∀ x ∈ order, x ∈ spec.laneIds ∧ x ∈ done ∧ ∀ d ∈ spec.dependsOn x, d ∈ order := by
    intro x hx
    obtain ⟨lane, hl, hdeps⟩ := (hmem x).mp hx
    obtain ⟨hlane, hdone⟩ := hsub _ hl
    rw [WaveSpec.dependsOn_of_mem (l := (x, lane)) hlane]
    exact ⟨mem_map_of_mem (f := Prod.fst) hlane, hdone, hdeps⟩
  refine ⟨horder, fun x => ⟨fun hx => ⟨(hdeps x hx).1, fun y hy => ?_⟩, ?_⟩,
    fun front x back heq y hy => ?_⟩
  · have hin : y ∈ order := by
      induction hy with
      | refl => exact hx
      | tail _ hstep ih => exact (hdeps _ ih).2.2 _ hstep
    exact (hdeps y hin).2.1
  · rintro ⟨hx, hall⟩
    revert hall
    refine hacyclic.induction (P := fun x => (∀ y, ReflTransGen (Step spec.dependsOn) x y → y ∈ done) →
      x ∈ order) (fun x _ y hy => (hknown x y hy).2) (fun x hx ih hall => ?_) x hx
    obtain ⟨⟨id, lane⟩, hl, rfl⟩ := mem_map.mp hx
    refine (hmem id).mpr ⟨lane, mem_filter.mpr ⟨hl, ?_⟩, fun d hd => ?_⟩
    · exact decide_eq_true (hall id ReflTransGen.refl)
    · have hstep : Step spec.dependsOn id d := mem_dependsOn.mpr ⟨lane, hl, hd⟩
      exact ih d hstep fun y hy => hall y (ReflTransGen.head hstep hy)
  · obtain ⟨lane, hl, hd⟩ := hbefore front x back heq
    rw [WaveSpec.dependsOn_of_mem (l := (x, lane)) (hsub _ hl).1] at hy
    exact hd y hy

theorem heaviest_spec (weightFrom : Dict LaneId Nat) (lanes : List LaneId) :
    (heaviest weightFrom lanes = none ↔ lanes = []) ∧
      ∀ best, heaviest weightFrom lanes = some best → best ∈ lanes ∧
        ∀ y ∈ lanes, weightFrom.getD y 0 ≤ weightFrom.getD best 0 := by
  cases lanes with
  | nil => exact ⟨iff_of_true rfl rfl, fun best hbest => (by cases hbest)⟩
  | cons first rest =>
    have hfold : ∀ (ls : List LaneId) (b : LaneId),
        let best := ls.foldl (fun best laneId =>
          if weightFrom.getD best 0 < weightFrom.getD laneId 0 ∨
              (weightFrom.getD laneId 0 = weightFrom.getD best 0 ∧ laneId < best) then laneId
          else best) b
        best ∈ b :: ls ∧ ∀ y ∈ b :: ls, weightFrom.getD y 0 ≤ weightFrom.getD best 0 := by
      intro ls
      induction ls with
      | nil => simp
      | cons l ls ih =>
        intro b
        rw [foldl_cons]
        split_ifs with hbetter
        · obtain ⟨hin, hall⟩ := ih l
          refine ⟨mem_cons_of_mem b hin, fun y hy => ?_⟩
          rcases mem_cons.mp hy with rfl | hy
          · have hl := hall l mem_cons_self
            omega
          · exact hall y hy
        · obtain ⟨hin, hall⟩ := ih b
          have hb := hall b mem_cons_self
          refine ⟨?_, fun y hy => ?_⟩
          · rcases mem_cons.mp hin with heq | hin
            · rw [heq]
              exact mem_cons_self
            · exact mem_cons_of_mem _ (mem_cons_of_mem _ hin)
          · simp only [mem_cons] at hy
            rcases hy with rfl | rfl | hy
            · exact hb
            · have hle : weightFrom.getD y 0 ≤ weightFrom.getD b 0 := by
                by_contra hlt
                exact hbetter (.inl (by omega))
              exact hle.trans hb
            · exact hall y (mem_cons_of_mem b hy)
    refine ⟨by simp [heaviest], fun best hbest => ?_⟩
    obtain rfl := Option.some.inj hbest
    exact hfold rest first

/-- Each lane depends on the one before, and nothing depends on the last one. -/
structure ToSink (spec : WaveSpec) (path : List LaneId) : Prop where
  chain : path.IsChain fun x y => x ∈ spec.dependsOn y
  sink : ∀ x ∈ path.getLast?, ∀ y, x ∉ spec.dependsOn y

/-- The total weight of a path. -/
def totalWeight (spec : WaveSpec) (path : List LaneId) : Nat := (path.map spec.weight).sum

theorem forward_eq_nil_iff {x : LaneId} : forward spec x = [] ↔ ∀ y, x ∉ spec.dependsOn y := by
  rw [eq_nil_iff_forall_not_mem]
  exact forall_congr' fun y => not_congr mem_forward

theorem ToSink.singleton {x : LaneId} (h : forward spec x = []) : ToSink spec [x] := by
  refine ⟨isChain_singleton x, fun y hy => ?_⟩
  obtain rfl : x = y := by simpa using hy
  exact forward_eq_nil_iff.mp h

theorem ToSink.cons_cons {x y : LaneId} {path : List LaneId} :
    ToSink spec (x :: y :: path) ↔ y ∈ forward spec x ∧ ToSink spec (y :: path) := by
  rw [mem_forward]
  constructor
  · rintro ⟨hchain, hsink⟩
    obtain ⟨hxy, hchain⟩ := isChain_cons_cons.mp hchain
    exact ⟨hxy, hchain, fun z hz => hsink z (by rw [getLast?_cons_cons]; exact hz)⟩
  · rintro ⟨hxy, hchain, hsink⟩
    refine ⟨isChain_cons_cons.mpr ⟨hxy, hchain⟩, fun z hz => hsink z ?_⟩
    rw [getLast?_cons_cons] at hz
    exact hz

/-- The heaviest path from a lane on weighs `n`. -/
def Bounds (spec : WaveSpec) (x : LaneId) (n : Nat) : Prop :=
  ∀ path, ToSink spec (x :: path) → totalWeight spec (x :: path) ≤ n

theorem bounds_of_children {x : LaneId} {n m : Nat} (hn : spec.weight x + m ≤ n)
    (hchildren : ∀ y ∈ forward spec x, Bounds spec y m) : Bounds spec x n := by
  intro path hpath
  cases path with
  | nil =>
    have htotal : totalWeight spec [x] = spec.weight x := by simp [totalWeight]
    omega
  | cons y path =>
    obtain ⟨hy, hpath⟩ := ToSink.cons_cons.mp hpath
    have hle := hchildren y hy path hpath
    have htotal : totalWeight spec (x :: y :: path) =
        spec.weight x + totalWeight spec (y :: path) := by simp [totalWeight]
    omega

theorem followPath_eq_cons (nextLane : Dict LaneId LaneId) (fuel : Nat) (x : LaneId) :
    ∃ path, followPath nextLane fuel x = x :: path := by
  cases fuel with
  | zero => exact ⟨[], rfl⟩
  | succ fuel =>
    rw [followPath]
    cases nextLane.get? x with
    | none => exact ⟨[], rfl⟩
    | some y => exact ⟨_, rfl⟩

theorem followPath_set_of_notMem {nextLane : Dict LaneId LaneId} {z best : LaneId} :
    ∀ (fuel : Nat) (x : LaneId), z ∉ followPath nextLane fuel x →
      followPath (nextLane.set z best) fuel x = followPath nextLane fuel x := by
  intro fuel
  induction fuel with
  | zero => exact fun _ _ => rfl
  | succ fuel ih =>
    intro x hz
    obtain ⟨path, hpath⟩ := followPath_eq_cons nextLane (fuel + 1) x
    have hne : x ≠ z := by
      rintro rfl
      rw [hpath] at hz
      exact hz mem_cons_self
    rw [followPath] at hz
    rw [followPath, followPath, get?_set_of_ne _ _ hne]
    cases hx : nextLane.get? x with
    | none => rfl
    | some y =>
      simp only [hx, mem_cons, not_or] at hz
      exact congrArg _ (ih y hz.2)

/-- What the tables say of the lanes that were looked at. -/
structure PathTables (spec : WaveSpec) (seen : List LaneId)
    (tables : Dict LaneId Nat × Dict LaneId LaneId) : Prop where
  next_mem : ∀ x y, tables.2.get? x = some y → x ∈ seen
  follow_mem : ∀ x ∈ seen, ∀ fuel, ∀ y ∈ followPath tables.2 fuel x, y ∈ seen
  follow : ∀ x ∈ seen, ∀ fuel, seen.length ≤ fuel + 1 → ToSink spec (followPath tables.2 fuel x) ∧
    totalWeight spec (followPath tables.2 fuel x) = tables.1.getD x 0
  bounds : ∀ x ∈ seen, Bounds spec x (tables.1.getD x 0)

/-- One lane whose children were all looked at. -/
def pathStep (spec : WaveSpec) (tables : Dict LaneId Nat × Dict LaneId LaneId) (laneId : LaneId) :
    Dict LaneId Nat × Dict LaneId LaneId :=
  match heaviest tables.1 (forward spec laneId) with
  | none => (tables.1.set laneId (spec.weight laneId), tables.2)
  | some best =>
    (tables.1.set laneId (spec.weight laneId + tables.1.getD best 0),
      tables.2.set laneId best)

theorem PathTables.concat {seen : List LaneId} {tables : Dict LaneId Nat × Dict LaneId LaneId}
    {z : LaneId} (h : PathTables spec seen tables) (hz : z ∉ seen)
    (hchildren : ∀ y ∈ forward spec z, y ∈ seen) :
    PathTables spec (seen ++ [z]) (pathStep spec tables z) := by
  obtain ⟨hnone, hsome⟩ := heaviest_spec tables.1 (forward spec z)
  have hne : ∀ x ∈ seen, x ≠ z := fun x hx heq => hz (heq ▸ hx)
  have hlen : (seen ++ [z]).length = seen.length + 1 := by simp
  unfold pathStep
  cases hbest : heaviest tables.1 (forward spec z) with
  | none =>
    have hnil := hnone.mp hbest
    have hnext : tables.2.get? z = none := by
      cases hget : tables.2.get? z with
      | none => rfl
      | some y => exact absurd (h.next_mem z y hget) hz
    have hfollow : ∀ fuel, followPath tables.2 fuel z = [z] := by
      intro fuel
      cases fuel with
      | zero => rfl
      | succ fuel => rw [followPath, hnext]
    refine ⟨fun x y hxy => mem_append_left _ (h.next_mem x y hxy), fun x hx fuel y hy => ?_,
      fun x hx fuel hfuel => ?_, fun x hx => ?_⟩
    · rcases mem_append.mp hx with hx | hx
      · exact mem_append_left _ (h.follow_mem x hx fuel y hy)
      · obtain rfl := mem_singleton.mp hx
        rw [hfollow] at hy
        exact mem_append_right _ hy
    · rcases mem_append.mp hx with hx | hx
      · rw [getD_set_of_ne _ _ _ (hne x hx)]
        exact h.follow x hx fuel (by omega)
      · obtain rfl := mem_singleton.mp hx
        rw [hfollow, getD_set_self]
        exact ⟨ToSink.singleton hnil, by simp [totalWeight]⟩
    · rcases mem_append.mp hx with hx | hx
      · rw [getD_set_of_ne _ _ _ (hne x hx)]
        exact h.bounds x hx
      · obtain rfl := mem_singleton.mp hx
        rw [getD_set_self]
        refine bounds_of_children (m := 0) (Nat.le_refl _) fun y hy => ?_
        rw [hnil] at hy
        cases hy
  | some best =>
    obtain ⟨hbestMem, hmax⟩ := hsome best hbest
    have hbestSeen := hchildren best hbestMem
    have hkeep : ∀ x ∈ seen, ∀ fuel, followPath (tables.2.set z best) fuel x =
        followPath tables.2 fuel x := fun x hx fuel =>
      followPath_set_of_notMem fuel x fun hin => hz (h.follow_mem x hx fuel z hin)
    have hfollow : ∀ fuel, followPath (tables.2.set z best) (fuel + 1) z =
        z :: followPath tables.2 fuel best := by
      intro fuel
      rw [followPath, get?_set_self]
      exact congrArg _ (hkeep best hbestSeen fuel)
    refine ⟨fun x y hxy => ?_, fun x hx fuel y hy => ?_, fun x hx fuel hfuel => ?_, fun x hx => ?_⟩
    · by_cases hxz : x = z
      · rw [hxz]
        exact mem_append_right _ (mem_singleton_self z)
      · rw [get?_set_of_ne _ _ hxz] at hxy
        exact mem_append_left _ (h.next_mem x y hxy)
    · rcases mem_append.mp hx with hx | hx
      · rw [hkeep x hx] at hy
        exact mem_append_left _ (h.follow_mem x hx fuel y hy)
      · obtain rfl := mem_singleton.mp hx
        cases fuel with
        | zero => exact mem_append_right _ hy
        | succ fuel =>
          rw [hfollow] at hy
          rcases mem_cons.mp hy with rfl | hy
          · exact mem_append_right _ (mem_singleton_self _)
          · exact mem_append_left _ (h.follow_mem best hbestSeen fuel y hy)
    · rcases mem_append.mp hx with hx | hx
      · rw [hkeep x hx, getD_set_of_ne _ _ _ (hne x hx)]
        exact h.follow x hx fuel (by omega)
      · obtain rfl := mem_singleton.mp hx
        have hpos := length_pos_of_mem hbestSeen
        cases fuel with
        | zero => omega
        | succ fuel =>
          obtain ⟨hsink, hweight⟩ := h.follow best hbestSeen fuel (by omega)
          obtain ⟨path, hpath⟩ := followPath_eq_cons tables.2 fuel best
          rw [hfollow, getD_set_self]
          constructor
          · rw [hpath] at hsink ⊢
            exact ToSink.cons_cons.mpr ⟨hbestMem, hsink⟩
          · rw [← hweight]
            simp [totalWeight]
    · rcases mem_append.mp hx with hx | hx
      · rw [getD_set_of_ne _ _ _ (hne x hx)]
        exact h.bounds x hx
      · obtain rfl := mem_singleton.mp hx
        rw [getD_set_self]
        refine bounds_of_children (Nat.le_refl _) fun y hy path hpath => ?_
        exact (h.bounds y (hchildren y hy) path hpath).trans (hmax y hy)

theorem pathTables_fold {seen : List LaneId} (hnodup : seen.Nodup)
    (hafter : AfterSuccessors (forward spec) seen) :
    PathTables spec seen (seen.foldl (pathStep spec) ([], [])) := by
  induction seen using List.reverseRecOn with
  | nil => constructor <;> simp
  | append_singleton seen z ih =>
    obtain ⟨hseen, -, hdisjoint⟩ := nodup_append.mp hnodup
    rw [foldl_append]
    exact (ih hseen hafter.init).concat
      (fun hz => hdisjoint z hz z (mem_singleton_self z) rfl) (hafter seen z [] rfl)

/-- A path from a lane without dependencies to one that nothing depends on; only a wave without lanes has
the empty path. -/
structure SourceToSink (spec : WaveSpec) (path : List LaneId) : Prop extends ToSink spec path where
  source : ∀ x ∈ path.head?, spec.dependsOn x = []
  lanes : ∀ x ∈ path, x ∈ spec.laneIds
  nonempty : path = [] → spec.laneIds = []

theorem criticalPath_spec (h : validate spec = []) :
    SourceToSink spec (criticalPath spec) ∧
      ∀ path, SourceToSink spec path → totalWeight spec path ≤ totalWeight spec (criticalPath spec) := by
  obtain ⟨order, horder, hperm, hafter⟩ := topologicalOrder_spec h
  have hnodup : order.Nodup := hperm.nodup_iff.mpr spec.laneIds_nodup
  have hreverse : AfterSuccessors (forward spec) order.reverse :=
    hafter.reverse hnodup fun x y hy =>
      ⟨hperm.mem_iff.mpr (mem_laneIds_of_dependsOn (mem_forward.mp hy)), mem_forward.mp hy⟩
  have htables := pathTables_fold (nodup_reverse.mpr hnodup) hreverse
  have hfold : order.reverse.foldl (pathStep spec) ([], []) = pathWeights spec order := rfl
  rw [hfold] at htables
  have hroot : ∀ x, x ∈ (spec.lanes.filter fun l => decide (l.2.dependsOn = [])).map Prod.fst ↔
      x ∈ spec.laneIds ∧ spec.dependsOn x = [] := by
    intro x
    constructor
    · intro hx
      obtain ⟨l, hl, rfl⟩ := mem_map.mp hx
      obtain ⟨hmem, hnil⟩ := mem_filter.mp hl
      exact ⟨mem_map_of_mem hmem,
        (WaveSpec.dependsOn_of_mem hmem).trans (of_decide_eq_true hnil)⟩
    · rintro ⟨hx, hnil⟩
      obtain ⟨l, hl, rfl⟩ := mem_map.mp hx
      rw [WaveSpec.dependsOn_of_mem hl] at hnil
      exact mem_map_of_mem (mem_filter.mpr ⟨hl, decide_eq_true hnil⟩)
  obtain ⟨hnone, hsome⟩ := heaviest_spec (pathWeights spec order).1
    ((spec.lanes.filter fun l : LaneId × LaneSpec => decide (l.2.dependsOn = [])).map Prod.fst)
  have hseen : ∀ x, x ∈ order.reverse ↔ x ∈ spec.laneIds := fun x => by
    rw [mem_reverse, hperm.mem_iff]
  unfold criticalPath
  rw [horder]
  dsimp only
  cases hheaviest : heaviest (pathWeights spec order).1
    ((spec.lanes.filter fun l => decide (l.2.dependsOn = [])).map Prod.fst) with
  | none =>
    -- the first lane of the order has no dependencies
    have hempty : spec.laneIds = [] := by
      cases order with
      | nil => exact nil_perm.mp hperm
      | cons first rest =>
        have hfirst : spec.dependsOn first = [] := by
          refine eq_nil_iff_forall_not_mem.mpr fun y hy => ?_
          have hin := hafter [] first rest rfl y hy
          cases hin
        have hin := (hroot first).mpr ⟨hperm.mem_iff.mp mem_cons_self, hfirst⟩
        rw [hnone.mp hheaviest] at hin
        cases hin
    refine ⟨⟨⟨isChain_nil, by simp⟩, by simp, by simp, fun _ => hempty⟩, fun path hpath => ?_⟩
    have hnil : path = [] := by
      refine eq_nil_iff_forall_not_mem.mpr fun x hx => ?_
      have hin := hpath.lanes x hx
      rw [hempty] at hin
      cases hin
    rw [hnil]
  | some current =>
    obtain ⟨hcurrent, hmax⟩ := hsome current hheaviest
    obtain ⟨hlane, hsource⟩ := (hroot current).mp hcurrent
    have hmem := (hseen current).mpr hlane
    obtain ⟨hsink, hweight⟩ := htables.follow current hmem order.length
      (by rw [length_reverse]; omega)
    obtain ⟨rest, hrest⟩ := followPath_eq_cons (pathWeights spec order).2 order.length current
    dsimp only
    refine ⟨⟨hsink, fun x hx => ?_, fun x hx => ?_, fun hnil => ?_⟩, fun path hpath => ?_⟩
    · rw [hrest] at hx
      obtain rfl := Option.some.inj hx
      exact hsource
    · exact (hseen x).mp (htables.follow_mem current hmem _ x hx)
    · rw [hrest] at hnil
      cases hnil
    · cases path with
      | nil =>
        rw [hpath.nonempty rfl] at hlane
        cases hlane
      | cons first path =>
        have hfirst := hpath.lanes first mem_cons_self
        have hle := htables.bounds first ((hseen first).mpr hfirst) path hpath.toToSink
        rw [hweight]
        exact hle.trans (hmax first ((hroot first).mpr ⟨hfirst, hpath.source first rfl⟩))

/-- On a valid wave the critical path is a heaviest path from a source to a sink, and the integration order
of some lanes has once, and after their dependencies, exactly those whose ancestors are all among them. -/
theorem criticalPath_integrationOrder (spec : WaveSpec) (h : validate spec = []) :
    (SourceToSink spec (criticalPath spec) ∧
      ∀ path, SourceToSink spec path → totalWeight spec path ≤ totalWeight spec (criticalPath spec)) ∧
    ∀ done, (integrationOrder spec done).Nodup ∧
      (∀ x, x ∈ integrationOrder spec done ↔
        x ∈ spec.laneIds ∧ ∀ y, ReflTransGen (Step spec.dependsOn) x y → y ∈ done) ∧
      ∀ front x back, integrationOrder spec done = front ++ x :: back →
        ∀ y ∈ spec.dependsOn x, y ∈ front :=
  ⟨criticalPath_spec h, integrationOrder_spec h⟩

theorem criticalPath_integrationOrder_pair :
    validate pairSpec = [] ∧ SourceToSink pairSpec (criticalPath pairSpec) ∧
      (integrationOrder pairSpec ["b"]).Nodup :=
  have h := criticalPath_integrationOrder pairSpec pairSpec_valid
  ⟨pairSpec_valid, h.1.1, (h.2 ["b"]).1⟩

end Workbay.Wave

import Mathlib.Data.List.Perm.Subperm
import Workbay.Graph.Proofs.VisitProofs
import Workbay.Wave.Scheduler

/-!
# Validation

The search for cycles paints the lanes as a search with three colours does, until it finds the first
cycle. A wave is therefore valid exactly if its paths are canonical and its lanes depend on each other
without a cycle.
-/

namespace Workbay.Wave

open Relation Workbay.Graph List

namespace WaveSpec

variable {spec : WaveSpec}

theorem laneIds_nodup (spec : WaveSpec) : spec.laneIds.Nodup :=
  spec.lanes_sorted.imp fun h => ne_of_lt h

theorem dependsOn_of_mem {l : LaneId × LaneSpec} (h : l ∈ spec.lanes) :
    spec.dependsOn l.1 = l.2.dependsOn := by
  unfold dependsOn lane?
  rw [Dict.get?_of_mem spec.laneIds_nodup h]

end WaveSpec

variable {spec : WaveSpec}

/-- The number of a colour. -/
def colourCode : Colour → Nat
  | .white => 0
  | .grey => 1
  | .black => 2

/-- The search stands where painting does. -/
structure CycleSearch.Paints (s : CycleSearch) (colours : Dict LaneId Colour)
    (frames : List (LaneId × List LaneId)) : Prop where
  stack : s.stack = frames
  color : ∀ x, s.color.getD x 0 = colourCode (colourOf colours x)

theorem CycleSearch.turn_cycles (spec : WaveSpec) {s : CycleSearch} (h : s.cycles ≠ []) :
    (s.turn spec).cycles ≠ [] := by
  unfold CycleSearch.turn
  split
  · exact h
  · exact h
  · dsimp only
    split
    · exact h
    · split_ifs
      · exact h
      · exact cons_ne_nil _ _
    · exact h

theorem CycleSearch.turns_cycles (spec : WaveSpec) {s : CycleSearch} (h : s.cycles ≠ []) (n : Nat) :
    ((CycleSearch.turn spec)^[n] s).cycles ≠ [] := by
  induction n generalizing s with
  | zero => exact h
  | succ n ih => exact ih (CycleSearch.turn_cycles spec h)

theorem getD_color_set {color : Dict LaneId Nat} {colours : Dict LaneId Colour} {x : LaneId}
    {c : Colour} (h : ∀ y, color.getD y 0 = colourCode (colourOf colours y)) (y : LaneId) :
    Dict.getD (color.set x (colourCode c)) y 0 =
      colourCode (colourOf (colours.set x c) y) := by
  rw [colourOf_set]
  by_cases hy : y = x
  · subst hy
    rw [Dict.getD_set_self, if_pos rfl]
  · rw [Dict.getD_set_of_ne _ _ _ hy, if_neg hy, h]

/-- As long as painting finds no edge back, the search finds no cycle; when painting does, so does the
search. -/
theorem CycleSearch.turns_paint :
    ∀ (fuel : Nat) (s : CycleSearch) (colours : Dict LaneId Colour)
      (frames : List (LaneId × List LaneId)), s.Paints colours frames → s.cycles = [] →
      Painting (adjacency spec) colours frames →
      (∀ colours', paint (adjacency spec) fuel colours frames = .ok colours' →
        ((CycleSearch.turn spec)^[fuel] s).cycles = [] ∧
          ∃ frames', ((CycleSearch.turn spec)^[fuel] s).Paints colours' frames' ∧
            Painting (adjacency spec) colours' frames') ∧
      ∀ edge, paint (adjacency spec) fuel colours frames = .error edge →
        ((CycleSearch.turn spec)^[fuel] s).cycles ≠ [] := by
  intro fuel
  induction fuel with
  | zero =>
    intro s colours frames hs hcycles h
    refine ⟨fun colours' hok => ?_, fun edge herror => ?_⟩
    · cases hok
      exact ⟨hcycles, frames, hs, h⟩
    · cases herror
  | succ fuel ih =>
    intro s colours frames hs hcycles h
    rw [Function.iterate_succ_apply]
    cases frames with
    | nil =>
      have hturn : s.turn spec = s := by rw [CycleSearch.turn, hs.stack]
      have hpaint : paint (adjacency spec) (fuel + 1) colours [] = .ok colours := rfl
      have hpaint' : paint (adjacency spec) fuel colours [] = .ok colours := by
        cases fuel <;> rfl
      rw [hturn, hpaint, ← hpaint']
      exact ih s colours [] hs hcycles h
    | cons frame frames =>
      obtain ⟨node, children⟩ := frame
      cases children with
      | nil =>
        refine ih (s.turn spec) _ frames ⟨?_, fun x => ?_⟩ ?_ h.finish
        · rw [CycleSearch.turn, hs.stack]
        · rw [CycleSearch.turn, hs.stack]
          exact getD_color_set (c := .black) hs.color x
        · rw [CycleSearch.turn, hs.stack]
          exact hcycles
      | cons child children =>
        have hcolor := hs.color child
        cases hc : colourOf colours child with
        | white =>
          rw [hc] at hcolor
          have hturn : s.turn spec =
              ({ s with stack := (node, children) :: frames } : CycleSearch).enter spec child := by
            rw [CycleSearch.turn, hs.stack]
            dsimp only
            rw [hcolor]
            rfl
          have hpaint : paint (adjacency spec) (fuel + 1) colours
              ((node, child :: children) :: frames) = paint (adjacency spec) fuel
                (colours.set child .grey)
                ((child, adjacency spec child) :: (node, children) :: frames) := by
            rw [paint, hc]
          rw [hpaint, hturn]
          exact ih _ _ _ ⟨rfl, getD_color_set (c := .grey) hs.color⟩ hcycles (h.push hc)
        | grey =>
          rw [hc] at hcolor
          have hturn : (s.turn spec).cycles ≠ [] := by
            rw [CycleSearch.turn, hs.stack]
            dsimp only
            rw [hcolor]
            simp only [colourCode]
            split_ifs with hmem
            · exact ne_nil_of_mem hmem
            · exact cons_ne_nil _ _
          have hpaint : paint (adjacency spec) (fuel + 1) colours
              ((node, child :: children) :: frames) = .error (node, child) := by
            rw [paint, hc]
          rw [hpaint]
          refine ⟨fun colours' hok => (by cases hok), fun edge _ => ?_⟩
          exact CycleSearch.turns_cycles spec hturn fuel
        | black =>
          rw [hc] at hcolor
          have hturn : s.turn spec = { s with stack := (node, children) :: frames } := by
            rw [CycleSearch.turn, hs.stack]
            dsimp only
            rw [hcolor]
            rfl
          have hpaint : paint (adjacency spec) (fuel + 1) colours
              ((node, child :: children) :: frames) =
                paint (adjacency spec) fuel colours ((node, children) :: frames) := by
            rw [paint, hc]
          rw [hpaint, hturn]
          exact ih _ _ _ ⟨rfl, hs.color⟩ hcycles (h.pass hc)

theorem mem_laneIds_of_adjacency {x y : LaneId} (h : Step (adjacency spec) x y) :
    y ∈ spec.laneIds := by
  obtain ⟨l, hl, rfl⟩ := mem_map.mp h
  exact mem_map_of_mem (mem_filter.mp hl).1

theorem mem_adjacency {x y : LaneId} :
    y ∈ adjacency spec x ↔ ∃ lane, (y, lane) ∈ spec.lanes ∧ x ∈ lane.dependsOn ∧ x ≠ y := by
  unfold adjacency
  rw [mem_map]
  constructor
  · rintro ⟨⟨id, lane⟩, hl, rfl⟩
    obtain ⟨hmem, hdep⟩ := mem_filter.mp hl
    obtain ⟨hdep, hne⟩ := of_decide_eq_true hdep
    exact ⟨lane, hmem, hdep, hne⟩
  · rintro ⟨lane, hmem, hdep, hne⟩
    exact ⟨(y, lane), mem_filter.mpr ⟨hmem, decide_eq_true ⟨hdep, hne⟩⟩, rfl⟩

theorem length_filter_mem_le {xs ys : List LaneId} (hnodup : xs.Nodup) {p : LaneId → Bool}
    (hp : ∀ x, p x = true → x ∈ ys) : (xs.filter p).length ≤ ys.length :=
  (List.Nodup.subperm (hnodup.filter p) fun x hx => hp x (mem_filter.mp hx).2).length_le

theorem sum_children_le {xs : List LaneId} (hnodup : xs.Nodup) (lanes : List (LaneId × LaneSpec)) :
    (xs.map fun x => ((lanes.filter fun l =>
      decide (x ∈ l.2.dependsOn ∧ x ≠ l.1)).map Prod.fst).length).sum ≤
        (lanes.map fun l => l.2.dependsOn.length).sum := by
  induction lanes with
  | nil => simp
  | cons l lanes ih =>
    have hsplit : (xs.map fun x => (((l :: lanes).filter fun l =>
        decide (x ∈ l.2.dependsOn ∧ x ≠ l.1)).map Prod.fst).length).sum =
        (xs.filter fun x => decide (x ∈ l.2.dependsOn ∧ x ≠ l.1)).length +
          (xs.map fun x => ((lanes.filter fun l =>
            decide (x ∈ l.2.dependsOn ∧ x ≠ l.1)).map Prod.fst).length).sum := by
      clear ih hnodup
      induction xs with
      | nil => rfl
      | cons x xs ih =>
        rw [map_cons, sum_cons, ih, map_cons, sum_cons, filter_cons,
          filter_cons]
        split_ifs
        · simp only [map_cons, length_cons]
          omega
        · omega
    have hle : (xs.filter fun x => decide (x ∈ l.2.dependsOn ∧ x ≠ l.1)).length ≤
        l.2.dependsOn.length :=
      length_filter_mem_le hnodup fun x hx => (of_decide_eq_true hx).1
    rw [hsplit, map_cons, sum_cons]
    omega

theorem degreeSum_adjacency_le (spec : WaveSpec) :
    spec.laneIds.length + degreeSum (adjacency spec) spec.laneIds ≤
      spec.lanes.length + spec.edgeCount := by
  have hlen : spec.laneIds.length = spec.lanes.length := length_map _
  have hsum : degreeSum (adjacency spec) spec.laneIds ≤ spec.edgeCount :=
    sum_children_le spec.laneIds_nodup spec.lanes
  omega

theorem CycleSearch.roots_paint :
    ∀ (roots : List LaneId) (s : CycleSearch) (colours : Dict LaneId Colour),
      (∀ x ∈ roots, x ∈ spec.laneIds) → s.Paints colours [] → s.cycles = [] →
      Painting (adjacency spec) colours [] →
      ((roots.foldl (CycleSearch.root spec) s).cycles = [] ↔
        ∃ colours', paintAll (adjacency spec) (spec.lanes.length + spec.edgeCount) colours roots =
          .ok colours') := by
  intro roots
  induction roots with
  | nil => exact fun s colours _ _ hcycles _ => ⟨fun _ => ⟨colours, rfl⟩, fun _ => hcycles⟩
  | cons root roots ih =>
    intro s colours hroots hs hcycles h
    have hrest : ∀ x ∈ roots, x ∈ spec.laneIds := fun x hx => hroots x (mem_cons_of_mem _ hx)
    rw [foldl_cons, paintAll]
    by_cases hwhite : colourOf colours root = .white
    · have hcolor : s.color.getD root 0 = 0 := by
        rw [hs.color root, hwhite]
        rfl
      have hroot : s.root spec root =
          (CycleSearch.turn spec)^[spec.lanes.length + spec.edgeCount] (s.enter spec root) := by
        rw [CycleSearch.root, if_neg (not_not.mpr hcolor)]
      have henter : (s.enter spec root).Paints (colours.set root .grey)
          [(root, adjacency spec root)] := by
        refine ⟨?_, getD_color_set (c := .grey) hs.color⟩
        rw [CycleSearch.enter, hs.stack]
      obtain ⟨hok, herror⟩ := CycleSearch.turns_paint (spec.lanes.length + spec.edgeCount)
        (s.enter spec root) _ _ henter hcycles (h.start hwhite)
      have hleft : toPaint (adjacency spec) spec.laneIds (colours.set root .grey)
          [(root, adjacency spec root)] ≤ spec.lanes.length + spec.edgeCount := by
        refine Nat.le_trans (toPaint_push (hroots root mem_cons_self) hwhite)
          (Nat.le_trans ?_ (degreeSum_adjacency_le spec))
        exact sum_filter_le (fun u => decide (colourOf colours u = .white)) spec.laneIds
      rw [if_pos hwhite, hroot]
      rcases paint_spec (fun _ _ => mem_laneIds_of_adjacency) _ _ _ (h.start hwhite) hleft with
        ⟨colours', hrun, h', -⟩ | ⟨edge, x, hrun, -⟩
      · obtain ⟨hcycles', frames, hpaints, hpainting⟩ := hok colours' hrun
        -- painting is done, so that nothing is grey
        have hframes : frames = [] := by
          cases frames with
          | nil => rfl
          | cons frame frames =>
            have hgrey := (hpainting.grey frame.1).mpr mem_cons_self
            simpa using (h'.grey frame.1).mp hgrey
        subst hframes
        rw [hrun]
        exact ih _ colours' hrest hpaints hcycles' h'
      · rw [hrun]
        refine ⟨fun hnone => ?_, fun hsome => ?_⟩
        · have hne : ∀ (rs : List LaneId) (t : CycleSearch), t.cycles ≠ [] →
              (rs.foldl (CycleSearch.root spec) t).cycles ≠ [] := by
            intro rs
            induction rs with
            | nil => exact fun _ ht => ht
            | cons r rs ihr =>
              intro t ht
              refine ihr _ ?_
              unfold CycleSearch.root
              split_ifs
              · exact ht
              · exact CycleSearch.turns_cycles (s := t.enter spec r) spec ht _
          exact absurd hnone (hne roots _ (herror edge hrun))
        · obtain ⟨colours', hsome⟩ := hsome
          cases hsome
    · have hcolor : s.color.getD root 0 ≠ 0 := by
        rw [hs.color root]
        cases hc : colourOf colours root with
        | white => exact absurd hc hwhite
        | grey => exact Nat.one_ne_zero
        | black => exact Nat.succ_ne_zero 1
      rw [if_neg hwhite, CycleSearch.root, if_pos hcolor]
      exact ih s colours hrest hs hcycles h

theorem cycleProblems_eq_nil_iff (spec : WaveSpec) :
    cycleProblems spec = [] ↔ Acyclic (adjacency spec) := by
  have hempty : Painting (adjacency spec) ([] : Dict LaneId Colour) [] :=
    ⟨by simp [colourOf, Dict.getD], by simp, by simp, by simp, by simp,
      by simp [colourOf, Dict.getD], by simp [colourOf, Dict.getD]⟩
  have hcycle : ∀ x, TransGen (Step (adjacency spec)) x x → x ∈ spec.laneIds := by
    intro x h
    obtain ⟨y, -, hstep⟩ := TransGen.tail'_iff.mp h
    exact mem_laneIds_of_adjacency hstep
  rw [← paintAll_ok_iff (fun _ _ => mem_laneIds_of_adjacency) (fun _ hx => hx) hcycle
    (degreeSum_adjacency_le spec), ← CycleSearch.roots_paint spec.laneIds ⟨[], [], [], []⟩ []
      (fun _ hx => hx) ⟨rfl, fun x => rfl⟩ rfl hempty]
  unfold cycleProblems
  rw [map_eq_nil_iff]
  constructor
  · intro h
    have hperm := perm_insertionSort (· ≤ ·)
      (spec.laneIds.foldl (CycleSearch.root spec) ⟨[], [], [], []⟩).cycles
    rw [h] at hperm
    exact nil_perm.mp hperm
  · intro h
    rw [h]
    rfl

theorem mem_dependsOn {x y : LaneId} :
    y ∈ spec.dependsOn x ↔ ∃ lane, (x, lane) ∈ spec.lanes ∧ y ∈ lane.dependsOn := by
  constructor
  · intro h
    unfold WaveSpec.dependsOn at h
    split at h
    · next lane hlane => exact ⟨lane, Dict.mem_of_get? hlane, h⟩
    · cases h
  · rintro ⟨lane, hlane, hy⟩
    rw [WaveSpec.dependsOn_of_mem hlane]
    exact hy

/-- No lane depends on itself or on a lane that is not there. -/
def KnownDependencies (spec : WaveSpec) : Prop :=
  ∀ laneId, ∀ dependency ∈ spec.dependsOn laneId,
    dependency ≠ laneId ∧ dependency ∈ spec.laneIds

theorem KnownDependencies.step_iff (h : KnownDependencies spec) (x y : LaneId) :
    Step (adjacency spec) x y ↔ Step spec.dependsOn y x := by
  unfold Step
  rw [mem_adjacency, mem_dependsOn]
  constructor
  · rintro ⟨lane, hlane, hx, -⟩
    exact ⟨lane, hlane, hx⟩
  · rintro ⟨lane, hlane, hx⟩
    exact ⟨lane, hlane, hx, (h y x (mem_dependsOn.mpr ⟨lane, hlane, hx⟩)).1⟩

theorem KnownDependencies.acyclic_iff (h : KnownDependencies spec) :
    Acyclic (adjacency spec) ↔ Acyclic spec.dependsOn := by
  have hswap : ∀ x y, TransGen (Step (adjacency spec)) x y ↔ TransGen (Step spec.dependsOn) y x := by
    intro x y
    rw [← transGen_swap]
    constructor
    · exact fun hxy => hxy.lift id fun a b hab => (h.step_iff b a).mp hab
    · exact fun hxy => hxy.lift id fun a b hab => (h.step_iff b a).mpr hab
  exact forall_congr' fun x => not_congr (hswap x x)

theorem nonCanonicalOwnedPaths_eq_nil_iff :
    nonCanonicalOwnedPaths spec = [] ↔
      ∀ l ∈ spec.lanes, ∀ path ∈ l.2.paths, nonCanonical path = false := by
  simp [nonCanonicalOwnedPaths, flatMap_eq_nil_iff, filter_eq_nil_iff]

/-- A wave is valid exactly if its paths are canonical and its lanes depend on other lanes of the wave,
without a cycle. -/
theorem validate_eq_nil_iff (spec : WaveSpec) : validate spec = [] ↔
    (∀ l ∈ spec.lanes, ∀ path ∈ l.2.paths, nonCanonical path = false) ∧ KnownDependencies spec ∧
      Acyclic spec.dependsOn := by
  have hknown : (spec.lanes.flatMap fun l => l.2.dependsOn.filterMap fun dependency =>
      if dependency = l.1 then some (Problem.selfDependency l.1)
      else if dependency ∉ spec.laneIds then some (.danglingDependency l.1 dependency)
      else none) = [] ↔ KnownDependencies spec := by
    rw [flatMap_eq_nil_iff]
    constructor
    · intro h laneId dependency hdep
      obtain ⟨lane, hlane, hdep⟩ := mem_dependsOn.mp hdep
      have hnone := filterMap_eq_nil_iff.mp (h (laneId, lane) hlane) dependency hdep
      split_ifs at hnone with hself hmem
      exact ⟨hself, hmem⟩
    · rintro h ⟨laneId, lane⟩ hlane
      refine filterMap_eq_nil_iff.mpr fun dependency hdep => ?_
      obtain ⟨hself, hmem⟩ := h laneId dependency (mem_dependsOn.mpr ⟨lane, hlane, hdep⟩)
      rw [if_neg hself, if_neg (not_not.mpr hmem)]
  unfold validate
  dsimp only
  rw [append_eq_nil_iff, append_eq_nil_iff, hknown, nonCanonicalOwnedPaths_eq_nil_iff,
    cycleProblems_eq_nil_iff]
  constructor
  · rintro ⟨⟨hdeps, hpaths⟩, hacyclic⟩
    exact ⟨hpaths, hdeps, hdeps.acyclic_iff.mp hacyclic⟩
  · rintro ⟨hpaths, hdeps, hacyclic⟩
    exact ⟨⟨hdeps, hpaths⟩, hdeps.acyclic_iff.mpr hacyclic⟩

end Workbay.Wave

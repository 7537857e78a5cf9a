import Workbay.Graph.Proofs.VisitProofs
import Workbay.Manifest.Contraction

/-!
# Proofs: a contracted map of lists bypasses the removed lanes
-/

namespace Workbay.Manifest

open Relation Workbay.Graph List Dict

section

variable {adjacency : Dict String (List String)} {removed : List String} {source : String}

/-- What the search behind a removed target expands. -/
def removedSuccessors (adjacency : Dict String (List String)) (removed : List String)
    (node : String) : List String :=
  if node ∈ removed then successors adjacency node else []

variable {node : String} {original : List Edge} {kept : Kept}

theorem mem_behind {target : String} : node ∈ behind adjacency removed source target ↔
      (node ∉ removed ∧ node ≠ source) ∧
        ReflTransGen (Step (removedSuccessors adjacency removed)) target node := by
  have hdomain : ∀ x, removedSuccessors adjacency removed x ≠ [] →
      x ∈ adjacency.map Prod.fst := by
    intro x hx
    unfold removedSuccessors at hx
    split at hx
    · by_contra hnot
      exact hx (by rw [successors, Dict.getD, get?_eq_none_iff.mpr hnot]; rfl)
    · exact absurd rfl hx
  unfold behind
  rw [mem_filter, decide_eq_true_eq, and_comm]
  refine and_congr_right fun _ => ?_
  rw [show (fun node => if node ∈ removed then successors adjacency node else []) =
    removedSuccessors adjacency removed from rfl, mem_visit hdomain]
  simp

/-- A path through removed lanes is an edge, or an edge to a removed target and a search behind
it. -/
theorem through_iff : Through (Step (successors adjacency)) (· ∈ removed) source node ↔
      ∃ target ∈ successors adjacency source, target = node ∨
        target ∈ removed ∧ ReflTransGen (Step (removedSuccessors adjacency removed)) target node := by
  constructor
  · intro h
    induction h with
    | single hstep => exact ⟨_, hstep, .inl rfl⟩
    | @tail t y _ ht hstep ih =>
      have hexpand : Step (removedSuccessors adjacency removed) t y := by
        unfold Step removedSuccessors
        rw [if_pos ht]
        exact hstep
      obtain ⟨target, htarget, rfl | ⟨hremoved, hpath⟩⟩ := ih
      · exact ⟨target, htarget, .inr ⟨ht, ReflTransGen.single hexpand⟩⟩
      · exact ⟨target, htarget, .inr ⟨hremoved, hpath.tail hexpand⟩⟩
  · rintro ⟨target, htarget, rfl | ⟨hremoved, hpath⟩⟩
    · exact .single htarget
    · induction hpath with
      | refl => exact .single htarget
      | @tail t y _ hstep ih =>
        unfold Step removedSuccessors at hstep
        split at hstep
        · next ht => exact ih.tail ht hstep
        · cases hstep

/-- The new targets are those without an original edge. -/
def Kept.Sound (original : List Edge) (source : String) (kept : Kept) : Prop :=
  ∀ node, node ∈ kept.added ↔ node ∈ kept.targets ∧ (source, node) ∉ original

theorem Kept.mem_find {found : String} :
    node ∈ (kept.find original source found).targets ↔ node ∈ kept.targets ∨ node = found := by
  unfold Kept.find
  split
  · next hin =>
    refine ⟨.inl, ?_⟩
    rintro (h | rfl)
    · exact h
    · exact hin
  · simp

theorem Kept.Sound.find (h : kept.Sound original source) (found : String) :
    (kept.find original source found).Sound original source := by
  intro node
  unfold Kept.find
  by_cases hin : found ∈ kept.targets
  · rw [if_pos hin]
    exact h node
  · rw [if_neg hin]
    by_cases horiginal : (source, found) ∈ original
    · simp only [if_pos horiginal, mem_append, mem_singleton, h node]
      constructor
      · rintro ⟨htargets, hnot⟩
        exact ⟨.inl htargets, hnot⟩
      · rintro ⟨htargets | rfl, hnot⟩
        · exact ⟨htargets, hnot⟩
        · exact absurd horiginal hnot
    · simp only [if_neg horiginal, mem_append, mem_singleton, h node]
      constructor
      · rintro (⟨htargets, hnot⟩ | rfl)
        · exact ⟨.inl htargets, hnot⟩
        · exact ⟨.inr rfl, horiginal⟩
      · rintro ⟨htargets | rfl, hnot⟩
        · exact .inl ⟨htargets, hnot⟩
        · exact .inr rfl

theorem Kept.foldl_find (found : List String) :
    ∀ kept : Kept, (∀ node, node ∈ (found.foldl (Kept.find original source) kept).targets ↔
        node ∈ kept.targets ∨ node ∈ found) ∧
      (kept.Sound original source →
        (found.foldl (Kept.find original source) kept).Sound original source) := by
  induction found with
  | nil => exact fun kept => ⟨by simp, id⟩
  | cons first found ih =>
    intro kept
    obtain ⟨hmem, hsound⟩ := ih (kept.find original source first)
    refine ⟨fun node => ?_, fun h => hsound (h.find first)⟩
    rw [foldl_cons, hmem, Kept.mem_find, mem_cons, or_assoc]

/-- What one target adds. -/
def FoundBy (adjacency : Dict String (List String)) (removed : List String)
    (source target node : String) : Prop :=
  (node ∉ removed ∧ node ≠ source) ∧ (target = node ∨ target ∈ removed ∧
    ReflTransGen (Step (removedSuccessors adjacency removed)) target node)

theorem Kept.mem_target {target : String} :
    node ∈ (kept.target adjacency removed source target).targets ↔
      node ∈ kept.targets ∨ FoundBy adjacency removed source target node := by
  unfold Kept.target FoundBy
  by_cases hin : target ∈ removed
  · rw [if_neg (not_not.mpr hin), (Kept.foldl_find _ _).1, mem_behind]
    refine or_congr_right (and_congr_right fun hnode => ?_)
    refine ⟨fun h => .inr ⟨hin, h⟩, ?_⟩
    rintro (rfl | ⟨-, h⟩)
    · exact absurd hin hnode.1
    · exact h
  · rw [if_pos hin]
    by_cases hkeep : target ≠ source ∧ target ∉ kept.targets
    · rw [if_pos hkeep]
      simp only [mem_append, mem_singleton]
      refine or_congr_right ⟨?_, ?_⟩
      · rintro rfl
        exact ⟨⟨hin, hkeep.1⟩, .inl rfl⟩
      · rintro ⟨-, rfl | ⟨hremoved, -⟩⟩
        · rfl
        · exact absurd hremoved hin
    · rw [if_neg hkeep]
      refine ⟨.inl, ?_⟩
      rintro (h | ⟨⟨-, hne⟩, rfl | ⟨hremoved, -⟩⟩)
      · exact h
      · exact not_not.mp fun hnot => hkeep ⟨hne, hnot⟩
      · exact absurd hremoved hin

theorem Kept.Sound.target {kept : Kept} (h : kept.Sound (edges adjacency) source)
    {target : String} (horiginal : (source, target) ∈ edges adjacency) :
    (kept.target adjacency removed source target).Sound (edges adjacency) source := by
  unfold Kept.target
  split
  · split
    · intro node
      simp only [mem_append, mem_singleton, h node]
      constructor
      · rintro ⟨htargets, hnot⟩
        exact ⟨.inl htargets, hnot⟩
      · rintro ⟨htargets | rfl, hnot⟩
        · exact ⟨htargets, hnot⟩
        · exact absurd horiginal hnot
    · exact h
  · exact (Kept.foldl_find _ _).2 h

theorem mem_keptOf {targets : List String} :
    node ∈ (keptOf adjacency removed source targets).targets ↔
      ∃ target ∈ targets, FoundBy adjacency removed source target node := by
  have hfold : ∀ kept : Kept,
      node ∈ (targets.foldl (Kept.target adjacency removed source) kept).targets ↔
        node ∈ kept.targets ∨ ∃ target ∈ targets, FoundBy adjacency removed source target node := by
    induction targets with
    | nil => simp
    | cons first targets ih =>
      intro kept
      rw [foldl_cons, ih, Kept.mem_target, or_assoc]
      simp
  unfold keptOf
  rw [hfold]
  simp

theorem sound_keptOf {targets : List String}
    (horiginal : ∀ target ∈ targets, (source, target) ∈ edges adjacency) :
    (keptOf adjacency removed source targets).Sound (edges adjacency) source := by
  have hfold : ∀ kept : Kept, kept.Sound (edges adjacency) source →
      (targets.foldl (Kept.target adjacency removed source) kept).Sound (edges adjacency)
        source := by
    induction targets with
    | nil => exact fun kept h => h
    | cons first targets ih =>
      intro kept h
      exact ih (fun target ht => horiginal target (mem_cons_of_mem _ ht)) _
        (h.target (horiginal first mem_cons_self))
  exact hfold {} fun node => by simp

end

section

variable {adjacency : Dict String (List String)} {removed : List String}

variable {x y : String}

/-- The steps of the contracted graph bypass the removed lanes. -/
theorem step_contracted_iff :
    Step (successors (contractAdjacency adjacency removed).contracted) x y ↔
      Bypass (Step (successors adjacency)) (· ∈ removed) x y := by
  unfold Step successors contractAdjacency Bypass
  simp only
  rw [Dict.getD, get?_map_entries _ fun source targets =>
    (keptOf adjacency removed source targets).targets]
  by_cases hx : x ∈ removed
  · rw [get?_filter_key_of_not _ (fun source => decide (source ∉ removed)) (by simpa using hx)]
    simp [hx]
  · rw [get?_filter_key _ (fun source => decide (source ∉ removed)) (by simpa using hx)]
    have hthrough := @through_iff adjacency removed x y
    unfold Step successors at hthrough
    rw [hthrough, Dict.getD]
    cases adjacency.get? x with
    | none => simp
    | some targets =>
      simp only [Option.map_some, Option.getD_some, mem_keptOf, FoundBy]
      constructor
      · rintro ⟨target, htarget, ⟨hy, hne⟩, hfound⟩
        exact ⟨hx, hy, hne.symm, target, htarget, hfound⟩
      · rintro ⟨-, hy, hne, target, htarget, hfound⟩
        exact ⟨target, htarget, ⟨hy, hne.symm⟩, hfound⟩

theorem mem_edges_iff (hkeys : (adjacency.map Prod.fst).Nodup) :
    (x, y) ∈ edges adjacency ↔ Step (successors adjacency) x y := by
  unfold edges Step successors Dict.getD
  rw [mem_flatMap]
  constructor
  · rintro ⟨⟨source, targets⟩, hentry, hedge⟩
    obtain ⟨target, htarget, heq⟩ := mem_map.mp hedge
    obtain ⟨rfl, rfl⟩ := Prod.mk.inj heq
    rw [get?_of_mem hkeys hentry]
    exact htarget
  · intro hstep
    cases hget : adjacency.get? x with
    | none => simp [hget] at hstep
    | some targets =>
      rw [hget] at hstep
      exact ⟨(x, targets), mem_of_get? hget, mem_map.mpr ⟨y, hstep, rfl⟩⟩

theorem mem_sortedEdges {found : List Edge} {edge : Edge} :
    edge ∈ sortedEdges found ↔ edge ∈ found := by
  unfold sortedEdges
  rw [(perm_insertionSort _ _).mem_iff, mem_dedup]

theorem mem_dropped_iff (hkeys : (adjacency.map Prod.fst).Nodup) :
    (x, y) ∈ (contractAdjacency adjacency removed).dropped ↔
      Step (successors adjacency) x y ∧ (x ∈ removed ∨ y ∈ removed) := by
  unfold contractAdjacency
  rw [mem_sortedEdges, mem_filter, mem_edges_iff hkeys, decide_eq_true_eq]

/-- The dropped edges are those that are gone, but for an edge from a surviving lane to itself. -/
theorem dropped_exact (hkeys : (adjacency.map Prod.fst).Nodup) (hloop : x = y → x ∈ removed) :
    (x, y) ∈ (contractAdjacency adjacency removed).dropped ↔
      Step (successors adjacency) x y ∧
        ¬ Step (successors (contractAdjacency adjacency removed).contracted) x y := by
  rw [mem_dropped_iff hkeys, step_contracted_iff]
  refine and_congr_right fun hstep => ⟨?_, fun hnot => ?_⟩
  · rintro (hx | hy) hbypass
    · exact hbypass.1 hx
    · exact hbypass.2.1 hy
  · by_contra hsurvive
    obtain ⟨hx, hy⟩ := not_or.mp hsurvive
    exact hnot ⟨hx, hy, fun heq => hx (hloop heq), .single hstep⟩

/-- The added edges are those that are new. -/
theorem added_exact (hkeys : (adjacency.map Prod.fst).Nodup) :
    (x, y) ∈ (contractAdjacency adjacency removed).added ↔
      Step (successors (contractAdjacency adjacency removed).contracted) x y ∧
        ¬ Step (successors adjacency) x y := by
  have hsurvivor : ∀ targets, adjacency.get? x = some targets →
      (y ∈ (keptOf adjacency removed x targets).added ↔
        y ∈ (keptOf adjacency removed x targets).targets ∧ ¬ Step (successors adjacency) x y) := by
    intro targets hget
    rw [← mem_edges_iff hkeys]
    refine sound_keptOf (fun target htarget => ?_) y
    refine (mem_edges_iff hkeys).mpr ?_
    rw [Step, successors, Dict.getD, hget]
    exact htarget
  have hstep : ∀ targets, adjacency.get? x = some targets → x ∉ removed →
      (Step (successors (contractAdjacency adjacency removed).contracted) x y ↔
        y ∈ (keptOf adjacency removed x targets).targets) := by
    intro targets hget hx
    unfold Step successors contractAdjacency
    rw [Dict.getD, get?_map_entries _ fun source targets =>
        (keptOf adjacency removed source targets).targets,
      get?_filter_key _ (fun source => decide (source ∉ removed)) (by simpa using hx), hget]
    rfl
  have hmem : (x, y) ∈ (contractAdjacency adjacency removed).added ↔
      ∃ targets, adjacency.get? x = some targets ∧ x ∉ removed ∧
        y ∈ (keptOf adjacency removed x targets).added := by
    unfold contractAdjacency
    rw [mem_sortedEdges, mem_flatMap]
    constructor
    · rintro ⟨⟨source, targets⟩, hentry, hedge⟩
      obtain ⟨hin, hx⟩ := mem_filter.mp hentry
      obtain ⟨target, htarget, heq⟩ := mem_map.mp hedge
      obtain ⟨rfl, rfl⟩ := Prod.mk.inj heq
      exact ⟨targets, get?_of_mem hkeys hin, by simpa using hx, htarget⟩
    · rintro ⟨targets, hget, hx, hadded⟩
      exact ⟨(x, targets), mem_filter.mpr ⟨mem_of_get? hget, by simpa using hx⟩,
        mem_map.mpr ⟨y, hadded, rfl⟩⟩
  rw [hmem]
  constructor
  · rintro ⟨targets, hget, hx, hadded⟩
    obtain ⟨htargets, hnot⟩ := (hsurvivor targets hget).mp hadded
    exact ⟨(hstep targets hget hx).mpr htargets, hnot⟩
  · rintro ⟨hnew, hnot⟩
    obtain ⟨hx, -, -, -⟩ := step_contracted_iff.mp hnew
    cases hget : adjacency.get? x with
    | none =>
      exfalso
      unfold Step successors contractAdjacency at hnew
      rw [Dict.getD, get?_map_entries _ fun source targets =>
          (keptOf adjacency removed source targets).targets,
        get?_filter_key _ (fun source => decide (source ∉ removed)) (by simpa using hx),
        hget] at hnew
      cases hnew
    | some targets =>
      exact ⟨targets, rfl, hx,
        (hsurvivor targets hget).mpr ⟨(hstep targets hget hx).mp hnew, hnot⟩⟩

end

end Workbay.Manifest

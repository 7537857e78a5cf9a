import Workbay.Graph.Proofs.VisitProofs
import Workbay.Manifest.Validate

/-!
# Proofs: what an accepted manifest is

For every check of the manifest the condition under which it passes.
-/

namespace Workbay.Manifest

open Relation Workbay.Graph List

variable {dependsOn : Dict String (List String)} {laneIds : List String} {data : Fields}

theorem dependsOnReaches_iff {start target : String} :
    dependsOnReaches dependsOn start target = true ↔
      ReflTransGen (Step (successors dependsOn)) start target := by
  have hdomain : ∀ x, successors dependsOn x ≠ [] → x ∈ dependsOn.map Prod.fst := by
    intro x hx
    by_contra hnot
    have hnone := Dict.get?_eq_none_iff.mpr hnot
    exact hx (by rw [successors, Dict.getD, hnone]; rfl)
  unfold dependsOnReaches
  simp only [Bool.or_eq_true, decide_eq_true_eq, any_eq_true]
  constructor
  · rintro (rfl | ⟨current, hcurrent, hstep⟩)
    · exact ReflTransGen.refl
    · obtain ⟨s, hs, hpath⟩ := (mem_visit hdomain).mp hcurrent
      obtain rfl := mem_singleton.mp hs
      exact hpath.tail hstep
  · intro hpath
    rcases ReflTransGen.cases_tail hpath with heq | ⟨current, hcurrent, hstep⟩
    · exact .inl heq.symm
    · exact .inr ⟨current, (mem_visit hdomain).mpr ⟨start, by simp, hcurrent⟩, hstep⟩

variable {left right : String} {colours : Dict String Int} {pairs : List (String × String)}

theorem comparable_iff : comparable dependsOn left right = true ↔
      ReflTransGen (Step (successors dependsOn)) left right ∨
        ReflTransGen (Step (successors dependsOn)) right left := by
  unfold comparable
  rw [Bool.or_eq_true, dependsOnReaches_iff, dependsOnReaches_iff]

@[simp] theorem texts_map_str (ss : List String) : texts (.arr (ss.map .str)) = ss := by
  induction ss with
  | nil => rfl
  | cons s ss ih => exact congrArg (s :: ·) ih

theorem isStrArray_iff {value : Json} :
    isStrArray value = true ↔ value = .arr ((texts value).map .str) := by
  constructor
  · intro h
    cases value with
    | arr xs =>
      have hall : ∀ x ∈ xs, x.str?.isSome = true := all_eq_true.mp h
      refine congrArg Json.arr ?_
      show xs = (xs.filterMap Json.str?).map .str
      induction xs with
      | nil => rfl
      | cons x xs ih =>
        have hx := hall x mem_cons_self
        have hxs : ∀ y ∈ xs, y.str?.isSome = true :=
          fun y hy => hall y (mem_cons_of_mem _ hy)
        have hrest := ih (all_eq_true.mpr hxs) hxs
        cases x with
        | str s => exact congrArg (Json.str s :: ·) hrest
        | _ => cases hx
    | _ => cases h
  · intro h
    rw [h]
    simp [isStrArray, Json.str?]

theorem readPrereq_eq_ok {laneId : String} (value : Json) (prereq : String) :
    readPrereq laneIds laneId value = .ok prereq ↔
      namesLane laneIds (some value) = true ∧ prereq = value.str?.getD "" := by
  cases value with
  | str s =>
    by_cases hin : s ∈ laneIds
    · simp [readPrereq, namesLane, Json.str?, hin, eq_comm]
    · simp [readPrereq, namesLane, Json.str?, hin]
  | _ => simp [readPrereq, namesLane, Json.str?]

theorem map_str_of_namesLane {values : List Json}
    (h : ∀ value ∈ values, namesLane laneIds (some value) = true) :
    values.map (fun value => value.str?.getD "") = values.filterMap Json.str? := by
  induction values with
  | nil => rfl
  | cons value values ih =>
    have hvalue := h value mem_cons_self
    have hrest := ih fun v hv => h v (mem_cons_of_mem _ hv)
    cases value with
    | str s => exact congrArg (s :: ·) hrest
    | _ => simp [namesLane, Json.str?] at hvalue

/-- An entry of `depends_on` is about lanes. -/
def IsPrereqEntry (laneIds : List String) (entry : String × Json) : Prop :=
  entry.1 ∈ laneIds ∧ ∃ values, entry.2 = .arr values ∧
    ∀ value ∈ values, namesLane laneIds (some value) = true

theorem readPrereqs_eq_ok (entry : String × Json) (result : String × List String) :
    readPrereqs laneIds entry = .ok result ↔
      IsPrereqEntry laneIds entry ∧ result = (entry.1, texts entry.2) := by
  obtain ⟨laneId, value⟩ := entry
  unfold readPrereqs IsPrereqEntry
  simp only
  by_cases hin : laneId ∈ laneIds
  · rw [if_pos hin]
    cases value with
    | arr values =>
      have hread := fun clean =>
        @readAll_eq_ok _ _ _ _ _ _ (@readPrereq_eq_ok laneIds laneId) values clean
      show (readAll (readPrereq laneIds laneId) values).map (fun clean => (laneId, clean)) =
        .ok result ↔ _
      constructor
      · intro h
        cases hall : readAll (readPrereq laneIds laneId) values with
        | error refusal =>
          rw [hall] at h
          cases h
        | ok clean =>
          obtain ⟨hnames, hclean⟩ := (hread clean).mp hall
          rw [hall] at h
          refine ⟨⟨hin, values, rfl, hnames⟩, ?_⟩
          rw [← Except.ok.inj h, hclean, map_str_of_namesLane hnames]
          rfl
      · rintro ⟨⟨-, values', hvalues, hnames⟩, rfl⟩
        obtain rfl := Json.arr.inj hvalues
        rw [(hread _).mpr ⟨hnames, rfl⟩, map_str_of_namesLane hnames]
        rfl
    | _ => simp
  · rw [if_neg hin]
    simp [hin]

/-- A value that is there and is not null has a shape. -/
def HasShape (shape : Json → Bool) (value : Option Json) : Prop :=
  ∀ v, value = some v → v ≠ .null → shape v = true

theorem checkShape_eq_ok {shape : Json → Bool} {refusal : Refusal} {value : Option Json} :
    checkShape shape refusal value = .ok () ↔ HasShape shape value := by
  unfold HasShape
  match value with
  | none => simp [checkShape]
  | some .null => simp [checkShape]
  | some (.bool _) | some (.int _) | some (.float ..) | some (.str _) | some (.arr _)
  | some (.obj _) => simp [checkShape]

theorem successors_subset {entries : Fields} (h : ∀ entry ∈ entries, IsPrereqEntry laneIds entry)
    {x y : String} (hstep : Step (successors (readAdjacency entries)) x y) : y ∈ laneIds := by
  unfold Step successors Dict.getD at hstep
  cases hget : Dict.get? (readAdjacency entries) x with
  | none => simp [hget] at hstep
  | some targets =>
    rw [hget] at hstep
    obtain ⟨entry, hentry, heq⟩ := mem_map.mp (Dict.mem_of_get? hget)
    obtain ⟨-, values, hvalues, hnames⟩ := h entry hentry
    have htargets : texts entry.2 = targets := (Prod.mk.inj heq).2
    rw [Option.getD_some, ← htargets, hvalues] at hstep
    obtain ⟨value, hvalue, hy⟩ := mem_filterMap.mp hstep
    have hname := hnames value hvalue
    unfold namesLane at hname
    rw [Option.bind_some, hy] at hname
    simpa using hname

theorem mem_keys_of_successors {adjacency : Dict String (List String)} {x : String}
    (hx : successors adjacency x ≠ []) : x ∈ adjacency.map Prod.fst := by
  by_contra hnot
  have hnone := Dict.get?_eq_none_iff.mpr hnot
  exact hx (by rw [successors, Dict.getD, hnone]; rfl)

theorem acyclic_successors_nil : Acyclic (successors []) := by
  intro x hcycle
  obtain ⟨y, hy, -⟩ := TransGen.head'_iff.mp hcycle
  exact absurd hy (by simp [Step, successors, Dict.getD])

/-- `depends_on` is read as it stands when every entry is about lanes and nothing is cyclic. -/
theorem validateDependsOn_obj_eq_ok {entries : Fields} {normalized : Dict String (List String)} :
    validateDependsOn (some (.obj entries)) laneIds = .ok normalized ↔
      (∀ entry ∈ entries, IsPrereqEntry laneIds entry) ∧
        Acyclic (successors (readAdjacency entries)) ∧ normalized = readAdjacency entries := by
  have hread := fun ys => @readAll_eq_ok _ _ _ _ _ _ (@readPrereqs_eq_ok laneIds) entries ys
  have hedge := fun hentries : ∀ entry ∈ entries, IsPrereqEntry laneIds entry =>
    @backEdge?_eq_none_iff _ _ (successors (readAdjacency entries)) laneIds
      ((readAdjacency entries).map Prod.fst)
      (fun x y hstep => successors_subset hentries hstep)
      (fun x hx => by
        obtain ⟨entry, hentry, rfl⟩ := mem_map.mp hx
        obtain ⟨entry', hentry', rfl⟩ := mem_map.mp hentry
        exact (hentries entry' hentry').1)
      (fun x hx => mem_keys_of_successors hx)
  constructor
  · intro h
    rw [validateDependsOn] at h
    cases hall : readAll (readPrereqs laneIds) entries with
    | error refusal =>
      rw [hall] at h
      cases h
    | ok found =>
      obtain ⟨hentries, hfound⟩ := (hread found).mp hall
      have hfound : found = readAdjacency entries := hfound
      rw [hall, hfound] at h
      cases hback : backEdge? laneIds (successors (readAdjacency entries))
          ((readAdjacency entries).map Prod.fst) with
      | none =>
        simp only [Bind.bind, Except.bind, hback] at h
        exact ⟨hentries, (hedge hentries).mp hback, (Except.ok.inj h).symm⟩
      | some edge =>
        simp only [Bind.bind, Except.bind, hback] at h
        cases h
  · rintro ⟨hentries, hacyclic, rfl⟩
    have hall : readAll (readPrereqs laneIds) entries = .ok (readAdjacency entries) :=
      (hread _).mpr ⟨hentries, rfl⟩
    rw [validateDependsOn, hall]
    simp only [Bind.bind, Except.bind, (hedge hentries).mpr hacyclic]
    rfl

theorem validateDependsOn_eq_ok {normalized : Dict String (List String)} :
    validateDependsOn (data.get? "depends_on") laneIds = .ok normalized ↔
      HasShape (fun value => value.obj?.isSome) (data.get? "depends_on") ∧
      (∀ entry ∈ members data "depends_on", IsPrereqEntry laneIds entry) ∧
      Acyclic (successors (adjacencyOf data "depends_on")) ∧
      normalized = adjacencyOf data "depends_on" := by
  unfold adjacencyOf members
  match data.get? "depends_on" with
  | none | some .null =>
    constructor
    · intro h
      refine ⟨?_, by simp [Json.obj?], acyclic_successors_nil, (Except.ok.inj h).symm⟩
      intro v hv hne
      cases hv <;> exact absurd rfl hne
    · rintro ⟨-, -, -, rfl⟩
      rfl
  | some (.obj entries) =>
    rw [validateDependsOn_obj_eq_ok]
    exact ⟨fun h => ⟨fun v hv _ => by rw [← Option.some.inj hv]; rfl, h⟩, fun h => h.2⟩
  | some (.bool _) | some (.int _) | some (.float ..) | some (.str _) | some (.arr _) =>
    constructor
    · intro h
      cases h
    · rintro ⟨hshape, -⟩
      have hobj := hshape _ rfl (by simp)
      cases hobj

theorem unordered_comm (a b : String) : unordered a b = unordered b a := by
  unfold unordered
  by_cases hab : a ≤ b
  · by_cases hba : b ≤ a
    · rw [if_pos hab, if_pos hba, le_antisymm hab hba]
    · rw [if_pos hab, if_neg hba]
  · have hba : b ≤ a := (le_total a b).resolve_left hab
    rw [if_neg hab, if_pos hba]

/-- The pair that a conflict edge stands for. -/
def pairOf : Json → String × String
  | .arr [.str a, .str b] => unordered a b
  | _ => ("", "")

/-- A conflict edge joins two lanes. -/
def IsConflictEdge (laneIds : List String) (value : Json) : Prop :=
  ∃ a b, value = .arr [.str a, .str b] ∧ a ≠ "" ∧ b ≠ "" ∧ a ≠ b ∧ a ∈ laneIds ∧ b ∈ laneIds

theorem readConflictEdge_eq_ok (entry : Json × Nat) (pair : String × String) :
    readConflictEdge laneIds entry = .ok pair ↔
      IsConflictEdge laneIds entry.1 ∧ pair = pairOf entry.1 := by
  obtain ⟨value, index⟩ := entry
  unfold readConflictEdge IsConflictEdge
  simp only
  split
  · next a b =>
    simp only [Json.arr.injEq, List.cons.injEq, Json.str.injEq, and_true]
    by_cases hempty : a = "" ∨ b = ""
    · rw [if_pos hempty]
      simp only [reduceCtorEq, false_iff, not_and]
      rintro ⟨a', b', ⟨rfl, rfl⟩, ha, hb, -⟩
      exact absurd hempty (not_or.mpr ⟨ha, hb⟩)
    · obtain ⟨ha, hb⟩ := not_or.mp hempty
      rw [if_neg hempty]
      by_cases hab : a = b
      · rw [if_pos hab]
        simp only [reduceCtorEq, false_iff, not_and]
        rintro ⟨a', b', ⟨rfl, rfl⟩, -, -, hne, -⟩
        exact absurd hab hne
      · rw [if_neg hab]
        by_cases hin : a ∉ laneIds ∨ b ∉ laneIds
        · rw [if_pos hin]
          simp only [reduceCtorEq, false_iff, not_and]
          rintro ⟨a', b', ⟨rfl, rfl⟩, -, -, -, hina, hinb⟩
          exact absurd hin (not_or.mpr ⟨not_not.mpr hina, not_not.mpr hinb⟩)
        · obtain ⟨hina, hinb⟩ := not_or.mp hin
          rw [if_neg hin]
          constructor
          · intro h
            exact ⟨⟨a, b, ⟨rfl, rfl⟩, ha, hb, hab, not_not.mp hina, not_not.mp hinb⟩,
              (Except.ok.inj h).symm⟩
          · rintro ⟨-, rfl⟩
            rfl
  · next x y hnot =>
    simp only [reduceCtorEq, false_iff, not_and]
    rintro ⟨a, b, heq, -⟩
    obtain ⟨hx, hy, -⟩ : x = .str a ∧ y = .str b ∧ True := by simpa using heq
    exact (hnot a b hx hy).elim
  · next hnot =>
    simp only [reduceCtorEq, false_iff, not_and]
    rintro ⟨a, b, heq, -⟩
    exact (hnot _ _ heq).elim

/-- A colour is a number of a lane. -/
def IsColourEntry (laneIds : List String) (entry : String × Json) : Prop :=
  entry.1 ∈ laneIds ∧ entry.2.int?.isSome = true

/-- The colours that an object gives. -/
def coloursOf (entries : Fields) : Dict String Int :=
  entries.map fun entry => (entry.1, entry.2.int?.getD 0)

theorem readColour_eq_ok (entry : String × Json) (result : String × Int) :
    readColour laneIds entry = .ok result ↔
      IsColourEntry laneIds entry ∧ result = (entry.1, entry.2.int?.getD 0) := by
  obtain ⟨laneId, value⟩ := entry
  unfold readColour IsColourEntry
  by_cases hin : laneId ∈ laneIds
  · cases value <;> simp [hin, Json.int?, eq_comm]
  · simp [hin]

/-- Two lanes have colours that differ. -/
def Bicoloured (colours : Dict String Int) (left right : String) : Prop :=
  ∃ l r, colours.get? left = some l ∧ colours.get? right = some r ∧ l ≠ r

theorem checkBicoloured_eq_ok {pair : String × String} :
    checkBicoloured colours pair = .ok () ↔ Bicoloured colours pair.1 pair.2 := by
  unfold checkBicoloured Bicoloured
  cases hl : colours.get? pair.1 with
  | none => simp
  | some l =>
    cases hr : colours.get? pair.2 with
    | none => simp
    | some r => simp

/-- The conflict pairs of a manifest. -/
def conflictPairs (data : Fields) : List (String × String) :=
  (elements data "conflict_edges").map pairOf

/-- The colours of a manifest. -/
def colourClasses (data : Fields) : Dict String Int := coloursOf (members data "colour_classes")

theorem validateConflictKeys_eq_ok {result : List (String × String) × Dict String Int} :
    validateConflictKeys data laneIds = .ok result ↔
      HasShape (fun value => value.arr?.isSome) (data.get? "conflict_edges") ∧
      HasShape (fun value => value.obj?.isSome) (data.get? "colour_classes") ∧
      (∀ value ∈ elements data "conflict_edges", IsConflictEdge laneIds value) ∧
      (∀ entry ∈ members data "colour_classes", IsColourEntry laneIds entry) ∧
      (∀ pair ∈ conflictPairs data, Bicoloured (colourClasses data) pair.1 pair.2) ∧
      result = (conflictPairs data, colourClasses data) := by
  have hpairs := fun ys => @readAll_eq_ok _ _ _ _ _ _ (@readConflictEdge_eq_ok laneIds)
    (elements data "conflict_edges").zipIdx ys
  have hcolours := fun ys => @readAll_eq_ok _ _ _ _ _ _ (@readColour_eq_ok laneIds)
    (members data "colour_classes") ys
  have hzip : (elements data "conflict_edges").zipIdx.map (fun entry => pairOf entry.1) =
      conflictPairs data := by
    have hmap := congrArg (List.map pairOf) (List.zipIdx_map_fst 0 (elements data "conflict_edges"))
    rw [List.map_map] at hmap
    exact hmap
  unfold validateConflictKeys
  rw [check_then_eq_ok, checkShape_eq_ok, check_then_eq_ok, checkShape_eq_ok]
  refine and_congr_right fun _ => and_congr_right fun _ => ?_
  rw [← forall_mem_zipIdx_iff (p := IsConflictEdge laneIds)]
  constructor
  · intro h
    cases hp : readAll (readConflictEdge laneIds) (elements data "conflict_edges").zipIdx with
    | error refusal => simp [hp, Bind.bind, Except.bind] at h
    | ok pairs =>
      cases hc : readAll (readColour laneIds) (members data "colour_classes") with
      | error refusal => simp [hp, hc, Bind.bind, Except.bind] at h
      | ok colours =>
        obtain ⟨hedges, hpairs⟩ := (hpairs pairs).mp hp
        obtain ⟨hentries, hcolours⟩ := (hcolours colours).mp hc
        rw [hzip] at hpairs
        have hcolours : colours = colourClasses data := hcolours
        subst hpairs hcolours
        rw [hp, hc] at h
        obtain ⟨hcheck, hresult⟩ := check_then_eq_ok.mp
          (show (checkAll (checkBicoloured (colourClasses data)) (conflictPairs data) >>=
            fun _ => Except.ok (conflictPairs data, colourClasses data)) = .ok result from h)
        have hall := checkAll_eq_ok.mp hcheck
        exact ⟨hedges, hentries, fun pair hpair => checkBicoloured_eq_ok.mp (hall pair hpair),
          (Except.ok.inj hresult).symm⟩
  · rintro ⟨hedges, hentries, hall, rfl⟩
    have hp := (hpairs (conflictPairs data)).mpr ⟨hedges, hzip.symm⟩
    have hc : readAll (readColour laneIds) (members data "colour_classes") =
        .ok (colourClasses data) := (hcolours _).mpr ⟨hentries, rfl⟩
    rw [hp, hc]
    show (checkAll (checkBicoloured (colourClasses data)) (conflictPairs data) >>=
      fun _ => Except.ok (conflictPairs data, colourClasses data)) = _
    exact check_then_eq_ok.mpr
      ⟨checkAll_eq_ok.mpr fun pair hpair => checkBicoloured_eq_ok.mpr (hall pair hpair), rfl⟩

/-! ## Owned paths and state keys -/

theorem forall_mem_pairsOf {α : Type} {p : α × α → Prop} {xs : List α} :
    (∀ pair ∈ pairsOf xs, p pair) ↔ xs.Pairwise fun a b => p (a, b) := by
  induction xs with
  | nil => simp [pairsOf]
  | cons x xs ih =>
    rw [pairsOf, pairwise_cons, ← ih]
    simp only [mem_append, mem_map]
    constructor
    · intro h
      exact ⟨fun y hy => h (x, y) (.inl ⟨y, hy, rfl⟩), fun pair hpair => h pair (.inr hpair)⟩
    · rintro ⟨hx, hrest⟩ pair (⟨y, hy, rfl⟩ | hpair)
      · exact hx y hy
      · exact hrest pair hpair

theorem forall_mem_pairsOf_sortedEntries {α : Type} {p : (String × α) × (String × α) → Prop}
    (hp : ∀ a b, p (a, b) → p (b, a)) {entries : Dict String α} :
    (∀ pair ∈ pairsOf (sortedEntries entries), p pair) ↔
      entries.Pairwise fun a b => p (a, b) := by
  rw [forall_mem_pairsOf]
  exact (perm_insertionSort (fun a b : String × α => a.1 ≤ b.1) entries).pairwise_iff
    fun {a b} h => hp a b h

theorem ownedPathRootsOverlap_comm (left right : String) :
    ownedPathRootsOverlap left right = ownedPathRootsOverlap right left := by
  unfold ownedPathRootsOverlap
  have hempty : (left = "" ∨ right = "") = (right = "" ∨ left = "") := propext or_comm
  rw [Bool.or_comm (isReviewScratchPath left), Bool.or_comm (startsWith left (right ++ "/"))]
  simp only [hempty]
  by_cases hlr : left = right
  · rw [hlr]
  · rw [if_neg hlr, if_neg (Ne.symm hlr)]

theorem comparable_comm (dependsOn : Dict String (List String)) (left right : String) :
    comparable dependsOn left right = comparable dependsOn right left :=
  Bool.or_comm _ _

theorem bicoloured_iff : bicoloured pairs colours left right = true ↔
      unordered left right ∈ pairs ∧ Bicoloured colours left right := by
  unfold bicoloured Bicoloured
  rw [Bool.and_eq_true, decide_eq_true_eq]
  refine and_congr_right fun _ => ?_
  cases hl : colours.get? left with
  | none => simp
  | some l =>
    cases hr : colours.get? right with
    | none => simp
    | some r => simp

theorem Bicoloured.symm (h : Bicoloured colours left right) : Bicoloured colours right left := by
  obtain ⟨l, r, hl, hr, hne⟩ := h
  exact ⟨r, l, hr, hl, hne.symm⟩

/-- Two lanes own roots that do not overlap, or are ordered, or are coloured apart. -/
def Apart (dependsOn : Dict String (List String)) (pairs : List (String × String))
    (colours : Dict String Int) (left right : String × List String) : Prop :=
  ∀ leftRoot ∈ left.2, ∀ rightRoot ∈ right.2,
    ownedPathRootsOverlap leftRoot rightRoot = true →
      comparable dependsOn left.1 right.1 = true ∨
        unordered left.1 right.1 ∈ pairs ∧ Bicoloured colours left.1 right.1

theorem Apart.symm {left right : String × List String}
    (h : Apart dependsOn pairs colours left right) : Apart dependsOn pairs colours right left := by
  intro rightRoot hright leftRoot hleft hoverlap
  rw [ownedPathRootsOverlap_comm] at hoverlap
  rcases h leftRoot hleft rightRoot hright hoverlap with hcomparable | ⟨hpair, hcolours⟩
  · rw [comparable_comm] at hcomparable
    exact .inl hcomparable
  · rw [unordered_comm] at hpair
    exact .inr ⟨hpair, hcolours.symm⟩

theorem checkCollision_eq_ok {left right : String × List String} :
    checkCollision dependsOn pairs colours (left, right) = .ok () ↔
      Apart dependsOn pairs colours left right := by
  obtain ⟨left, leftRoots⟩ := left
  obtain ⟨right, rightRoots⟩ := right
  unfold checkCollision Apart
  simp only [checkAll_eq_ok, require_eq_ok, bicoloured_iff]
  refine forall₂_congr fun leftRoot _ => forall₂_congr fun rightRoot _ => ?_
  cases ownedPathRootsOverlap leftRoot rightRoot <;> simp

theorem validateOwnedPathCollisionFreedom_eq_ok {host : Host} {lanes : Fields} :
    validateOwnedPathCollisionFreedom host lanes dependsOn pairs colours = .ok () ↔
      (∀ entry ∈ lanes, checkSome (checkLanded host entry.1) (member? entry.2 "landed") = .ok ()) ∧
      (laneRoots lanes).Pairwise (Apart dependsOn pairs colours) := by
  unfold validateOwnedPathCollisionFreedom
  rw [check_then_eq_ok, checkAll_eq_ok, checkAll_eq_ok]
  refine and_congr_right fun _ => ?_
  rw [forall_mem_pairsOf_sortedEntries fun a b h => by
    rw [checkCollision_eq_ok] at h ⊢
    exact h.symm]
  simp only [checkCollision_eq_ok]

/-- Two lanes share no state key that one of them writes, or are ordered. -/
def StateApart (dependsOn : Dict String (List String)) (left right : String × Json) : Prop :=
  conflictKeys left.2 right.2 = [] ∨ comparable dependsOn left.1 right.1 = true

theorem mem_conflictKeys {left right : Json} {key : String} :
    key ∈ conflictKeys left right ↔
      key ∈ stateKeys left "state_writes" ∧
          (key ∈ stateKeys right "state_writes" ∨ key ∈ stateKeys right "state_reads") ∨
        key ∈ stateKeys right "state_writes" ∧ key ∈ stateKeys left "state_reads" := by
  unfold conflictKeys
  simp

theorem conflictKeys_eq_nil_symm {left right : Json} (h : conflictKeys left right = []) :
    conflictKeys right left = [] := by
  rw [eq_nil_iff_forall_not_mem] at h ⊢
  intro key hkey
  refine h key (mem_conflictKeys.mpr ?_)
  rcases mem_conflictKeys.mp hkey with ⟨hw, hw' | hr⟩ | ⟨hw, hr⟩
  · exact .inl ⟨hw', .inl hw⟩
  · exact .inr ⟨hw, hr⟩
  · exact .inl ⟨hw, .inr hr⟩

theorem validateStateKeyConflictFreedom_eq_ok {lanes : Fields} :
    validateStateKeyConflictFreedom lanes dependsOn = .ok () ↔
      lanes.Pairwise (StateApart dependsOn) := by
  have hcheck : ∀ left right : String × Json,
      checkStateConflict dependsOn (left, right) = .ok () ↔ StateApart dependsOn left right := by
    rintro ⟨left, leftLane⟩ ⟨right, rightLane⟩
    unfold checkStateConflict StateApart
    simp
  unfold validateStateKeyConflictFreedom
  rw [checkAll_eq_ok, forall_mem_pairsOf_sortedEntries fun a b h => by
    rw [hcheck] at h ⊢
    rcases h with hkeys | hcomparable
    · exact .inl (conflictKeys_eq_nil_symm hkeys)
    · rw [comparable_comm] at hcomparable
      exact .inr hcomparable]
  simp only [hcheck]

/-- The lanes of a manifest. -/
def laneIdsOf (data : Fields) : List String := (members data "lanes").map Prod.fst

/-- A routing entry leads to a lane, if it is an object. -/
def IsRoute (laneIds : List String) (route : Json) : Prop :=
  route.obj?.isSome = true → namesLane laneIds (member? route "lane") = true

theorem checkRoute_eq_ok {entry : Json × Nat} :
    checkRoute laneIds entry = .ok () ↔ IsRoute laneIds entry.1 := by
  obtain ⟨route, index⟩ := entry
  cases route <;> simp [checkRoute, IsRoute, Json.obj?, member?, Json.get?]

/-- A routing hint leads to a lane and has a matcher. -/
def IsHint (laneIds : List String) (hint : Json) : Prop :=
  hint.obj?.isSome = true ∧ namesLane laneIds (member? hint "lane") = true ∧
    (∀ field ∈ matcherFields, HasShape isNonEmptyStr (member? hint field)) ∧
    ∃ field ∈ matcherFields, (member? hint field).getD .null ≠ .null

theorem checkHint_eq_ok {entry : Json × Nat} :
    checkHint laneIds entry = .ok () ↔ IsHint laneIds entry.1 := by
  obtain ⟨hint, index⟩ := entry
  cases hint <;> simp [checkHint, IsHint, Json.obj?, member?, Json.get?, checkShape_eq_ok]

/-- A manifest that passes every check. -/
structure Accepted (host : Host) (data : Fields) : Prop where
  shapes : checkShapes data = .ok ()
  mergeOrder : unknownLanes (laneIdsOf data) (elements data "merge_order") = []
  lanes : ∀ entry ∈ members data "lanes", checkLane host entry.1 entry.2 = .ok ()
  downstream : ∀ entry ∈ members data "downstream",
    checkDownstream (laneIdsOf data) entry = .ok ()
  dependsOnShape : HasShape (fun value => value.obj?.isSome) (data.get? "depends_on")
  dependsOn : ∀ entry ∈ members data "depends_on", IsPrereqEntry (laneIdsOf data) entry
  acyclic : Acyclic (successors (adjacencyOf data "depends_on"))
  conflictShape : HasShape (fun value => value.arr?.isSome) (data.get? "conflict_edges")
  colourShape : HasShape (fun value => value.obj?.isSome) (data.get? "colour_classes")
  conflictEdges : ∀ value ∈ elements data "conflict_edges", IsConflictEdge (laneIdsOf data) value
  colours : ∀ entry ∈ members data "colour_classes", IsColourEntry (laneIdsOf data) entry
  bicoloured : ∀ pair ∈ conflictPairs data, Bicoloured (colourClasses data) pair.1 pair.2
  landed : ∀ entry ∈ members data "lanes",
    checkSome (checkLanded host entry.1) (member? entry.2 "landed") = .ok ()
  apart : (laneRoots (members data "lanes")).Pairwise
    (Apart (adjacencyOf data "depends_on") (conflictPairs data) (colourClasses data))
  stateApart : (members data "lanes").Pairwise (StateApart (adjacencyOf data "depends_on"))
  headings : ∀ entry ∈ members data "heading_to_lane",
    checkHeading (laneIdsOf data) entry = .ok ()
  routes : ∀ route ∈ elements data "routing", IsRoute (laneIdsOf data) route
  hints : ∀ hint ∈ elements data "plan_routing_hints", IsHint (laneIdsOf data) hint

theorem checkReferences_eq_ok : checkReferences data laneIds = .ok () ↔
      (∀ entry ∈ members data "heading_to_lane", checkHeading laneIds entry = .ok ()) ∧
      (∀ route ∈ elements data "routing", IsRoute laneIds route) ∧
      ∀ hint ∈ elements data "plan_routing_hints", IsHint laneIds hint := by
  unfold checkReferences
  simp only [check_then_eq_ok, checkAll_eq_ok, checkRoute_eq_ok, checkHint_eq_ok]
  rw [forall_mem_zipIdx_iff (p := IsRoute laneIds), forall_mem_zipIdx_iff (p := IsHint laneIds)]

/-- `validate_manifest` accepts exactly the manifests that pass every check. -/
theorem validateManifest_eq_ok {host : Host} :
    validateManifest host data = .ok () ↔ Accepted host data := by
  unfold validateManifest
  simp only [check_then_eq_ok, require_eq_ok, checkAll_eq_ok]
  constructor
  · rintro ⟨hshapes, hmerge, hlanes, hdown, h⟩
    cases hdep : validateDependsOn (data.get? "depends_on") (laneIdsOf data) with
    | error refusal =>
      rw [show (members data "lanes").map Prod.fst = laneIdsOf data from rfl, hdep] at h
      cases h
    | ok dependsOn =>
      rw [show (members data "lanes").map Prod.fst = laneIdsOf data from rfl, hdep] at h
      obtain ⟨hdepShape, hentries, hacyclic, rfl⟩ := validateDependsOn_eq_ok.mp hdep
      cases hconf : validateConflictKeys data (laneIdsOf data) with
      | error refusal =>
        rw [hconf] at h
        cases h
      | ok result =>
        obtain ⟨hedgeShape, hcolourShape, hedges, hcolours, hbi, rfl⟩ :=
          validateConflictKeys_eq_ok.mp hconf
        rw [hconf] at h
        have hrest : validateOwnedPathCollisionFreedom host (members data "lanes")
              (adjacencyOf data "depends_on") (conflictPairs data) (colourClasses data) = .ok () ∧
            validateStateKeyConflictFreedom (members data "lanes")
              (adjacencyOf data "depends_on") = .ok () ∧
            checkReferences data (laneIdsOf data) = .ok () := by
          have hthen := check_then_eq_ok.mp h
          exact ⟨hthen.1, check_then_eq_ok.mp hthen.2⟩
        obtain ⟨hcollision, hstate, hreferences⟩ := hrest
        obtain ⟨hlanded, hapart⟩ := validateOwnedPathCollisionFreedom_eq_ok.mp hcollision
        obtain ⟨hheadings, hroutes, hhints⟩ := checkReferences_eq_ok.mp hreferences
        exact ⟨hshapes, hmerge, hlanes, hdown, hdepShape, hentries, hacyclic, hedgeShape,
          hcolourShape, hedges, hcolours, hbi, hlanded, hapart,
          validateStateKeyConflictFreedom_eq_ok.mp hstate, hheadings, hroutes, hhints⟩
  · intro h
    refine ⟨h.shapes, h.mergeOrder, h.lanes, h.downstream, ?_⟩
    have hdep := validateDependsOn_eq_ok.mpr
      ⟨h.dependsOnShape, h.dependsOn, h.acyclic, rfl⟩
    have hconf := validateConflictKeys_eq_ok.mpr
      ⟨h.conflictShape, h.colourShape, h.conflictEdges, h.colours, h.bicoloured, rfl⟩
    rw [show (members data "lanes").map Prod.fst = laneIdsOf data from rfl, hdep]
    show (validateConflictKeys data (laneIdsOf data) >>= _) = _
    rw [hconf]
    have hcollision := validateOwnedPathCollisionFreedom_eq_ok.mpr ⟨h.landed, h.apart⟩
    have hstate := validateStateKeyConflictFreedom_eq_ok.mpr h.stateApart
    have hreferences := checkReferences_eq_ok.mpr ⟨h.headings, h.routes, h.hints⟩
    exact check_then_eq_ok.mpr ⟨hcollision, check_then_eq_ok.mpr ⟨hstate, hreferences⟩⟩

end Workbay.Manifest

import Mathlib.Data.List.Perm.Subperm
import Workbay.Ancestry.Proofs.ContainmentProofs
import Workbay.Ancestry.ReapOrder
import Workbay.Graph.Proofs.PeelProofs

/-!
# Containers are reaped before what they contain

The analysis leaves no cycle of strict containment, so that the waves reach every name, each after
all its strict containers.
-/

namespace Workbay.Ancestry

open Relation Workbay.Graph List

theorem foldl_emit (emitted : List String) (remaining : Dict String (List String))
    (pairs : List (String × String)) :
    (∀ x, containersOf (pairs.foldl (emit emitted) (remaining, [])).1 x =
      (containersOf remaining x).filter fun y => (y, x) ∉ pairs) ∧
    (∀ x, x ∈ (pairs.foldl (emit emitted) (remaining, [])).2 ↔ x ∉ emitted ∧
      (∃ y, (y, x) ∈ pairs) ∧
        containersOf (pairs.foldl (emit emitted) (remaining, [])).1 x = []) ∧
    (pairs.foldl (emit emitted) (remaining, [])).2.Nodup := by
  induction pairs using List.reverseRecOn with
  | nil => simp
  | append_singleton pairs pair ih =>
    obtain ⟨hleft, hready, hnodup⟩ := ih
    rw [foldl_append, foldl_cons, foldl_nil]
    generalize pairs.foldl (emit emitted) (remaining, []) = state at hleft hready hnodup ⊢
    have hget : ∀ x, containersOf (emit emitted state pair).1 x =
        if x = pair.2 then (containersOf state.1 pair.2).filter (· ≠ pair.1)
        else containersOf state.1 x := by
      intro x
      rw [emit, containersOf]
      by_cases hx : x = pair.2
      · rw [if_pos hx, hx, Dict.getD_set_self]
      · rw [if_neg hx, Dict.getD_set_of_ne _ _ _ hx]
        rfl
    have hnew : (emit emitted state pair).2 =
        if (containersOf state.1 pair.2).filter (· ≠ pair.1) = [] ∧ pair.2 ∉ emitted ∧
          pair.2 ∉ state.2 then state.2 ++ [pair.2] else state.2 := rfl
    refine ⟨fun x => ?_, fun x => ?_, ?_⟩
    · rw [hget]
      by_cases hx : x = pair.2
      · rw [if_pos hx, hleft, hx, filter_filter]
        refine filter_congr fun y _ => ?_
        by_cases hy : y = pair.1
        · simp [hy]
        · have hne : (y, pair.2) ≠ pair := fun h => hy (congrArg Prod.fst h)
          simp [hy, hne]
      · rw [if_neg hx, hleft]
        refine filter_congr fun y _ => ?_
        have hne : (y, x) ≠ pair := fun h => hx (congrArg Prod.snd h)
        simp [hne]
    · rw [hnew, hget]
      by_cases hx : x = pair.2
      · rw [if_pos hx]
        subst hx
        have hpair : ∃ y, (y, pair.2) ∈ pairs ++ [pair] := ⟨pair.1, by simp⟩
        have hold : pair.2 ∈ state.2 → pair.2 ∉ emitted ∧
            (containersOf state.1 pair.2).filter (· ≠ pair.1) = [] := by
          intro hin
          obtain ⟨hemitted, -, hnone⟩ := (hready pair.2).mp hin
          rw [hnone]
          exact ⟨hemitted, rfl⟩
        split
        · rename_i hcond
          exact ⟨fun _ => ⟨hcond.2.1, hpair, hcond.1⟩, fun _ => by simp⟩
        · rename_i hcond
          constructor
          · intro hin
            exact ⟨(hold hin).1, hpair, (hold hin).2⟩
          · rintro ⟨hemitted, -, hnone⟩
            by_contra hnot
            exact hcond ⟨hnone, hemitted, hnot⟩
      · rw [if_neg hx]
        have hpairs : (∃ y, (y, x) ∈ pairs ++ [pair]) ↔ ∃ y, (y, x) ∈ pairs := by
          refine exists_congr fun y => ?_
          have hne : (y, x) ≠ pair := fun h => hx (congrArg Prod.snd h)
          simp [hne]
        rw [hpairs, ← hready]
        split <;> simp [hx]
    · rw [hnew]
      split
      · rename_i hcond
        exact nodup_append.mpr ⟨hnodup, nodup_singleton _, fun a ha b hb => by
          rw [mem_singleton.mp hb]
          rintro rfl
          exact hcond.2.2 ha⟩
      · exact hnodup

variable {graph : ContainmentGraph} {remaining : Dict String (List String)}
  {order ready : List String}

/-- What holds before every wave: `order` has been emitted. -/
structure Waves (graph : ContainmentGraph) (remaining : Dict String (List String))
    (order ready : List String) : Prop where
  nodup : (order ++ ready).Nodup
  subset : ∀ x ∈ order ++ ready, x ∈ graph.nodes
  remaining_eq : ∀ x ∈ graph.nodes, containersOf remaining x = (graph.strict x).filter (· ∉ order)
  reached : ∀ x ∈ graph.nodes, x ∈ order ++ ready ↔ ∀ y ∈ graph.strict x, y ∈ order
  before : ∀ x ∈ order, ∀ y ∈ graph.strict x, order.idxOf y < order.idxOf x

theorem mem_losses {wave : List String} {x y : String} : (y, x) ∈ graph.losses wave ↔
    y ∈ wave ∧ x ∈ graph.nodes ∧ y ∈ graph.strict x := by
  simp only [ContainmentGraph.losses, ContainmentGraph.incoming, mem_flatMap, mem_map,
    mem_filter, decide_eq_true_eq]
  constructor
  · rintro ⟨node, hnode, predecessor, hpredecessor, heq⟩
    obtain ⟨rfl, rfl⟩ := Prod.mk.inj heq
    exact ⟨hnode, hpredecessor⟩
  · rintro ⟨hy, hx⟩
    exact ⟨y, hy, x, hx, rfl⟩

/-- A wave is emitted. -/
theorem Waves.step (h : Waves graph remaining order ready) :
    Waves graph ((graph.losses ready).foldl (emit (order ++ ready)) (remaining, [])).1
      (order ++ ready)
      (((graph.losses ready).foldl (emit (order ++ ready)) (remaining, [])).2.insertionSort
        (· ≤ ·)) := by
  obtain ⟨hleft, hnew, hnodup⟩ := foldl_emit (order ++ ready) remaining (graph.losses ready)
  generalize (graph.losses ready).foldl (emit (order ++ ready)) (remaining, []) = state
    at hleft hnew hnodup ⊢
  have hremaining : ∀ x ∈ graph.nodes,
      containersOf state.1 x = (graph.strict x).filter (· ∉ order ++ ready) := by
    intro x hx
    rw [hleft, h.remaining_eq x hx, filter_filter]
    refine filter_congr fun y hy => ?_
    by_cases hready : y ∈ ready <;> simp [mem_losses, hready, hx, hy]
  have hnodes : ∀ x ∈ state.2, x ∈ graph.nodes := by
    intro x hx
    obtain ⟨-, ⟨y, hy⟩, -⟩ := (hnew x).mp hx
    exact (mem_losses.mp hy).2.1
  refine ⟨?_, fun x hx => ?_, hremaining, fun x hx => ?_, fun x hx y hy => ?_⟩
  · refine nodup_append.mpr ⟨h.nodup,
      (perm_insertionSort _ state.2).nodup_iff.mpr hnodup, fun a ha b hb => ?_⟩
    rintro rfl
    exact ((hnew a).mp ((mem_insertionSort _).mp hb)).1 ha
  · rcases mem_append.mp hx with hx | hx
    · exact h.subset x hx
    · exact hnodes x ((mem_insertionSort _).mp hx)
  · rw [mem_append, mem_insertionSort, hnew, hremaining x hx, filter_eq_nil_iff]
    constructor
    · rintro (hin | ⟨-, -, hall⟩) y hy
      · exact mem_append_left _ ((h.reached x hx).mp hin y hy)
      · exact Decidable.not_not.mp fun hnot => hall y hy (decide_eq_true hnot)
    · intro hall
      by_cases hin : x ∈ order ++ ready
      · exact .inl hin
      · refine .inr ⟨hin, ?_, fun y hy hnot => of_decide_eq_true hnot (hall y hy)⟩
        -- some strict container is in this wave, or the name would have been ready before
        by_contra hnone
        refine hin ((h.reached x hx).mpr fun y hy => ?_)
        rcases mem_append.mp (hall y hy) with hyo | hyr
        · exact hyo
        · exact absurd ⟨y, mem_losses.mpr ⟨hyr, hx, hy⟩⟩ hnone
  · have hy' : y ∈ order := (h.reached x (h.subset x hx)).mp hx y hy
    by_cases hxo : x ∈ order
    · rw [idxOf_append_of_mem hy', idxOf_append_of_mem hxo]
      exact h.before x hxo y hy
    · exact idxOf_append_lt hy' hxo

theorem Waves.length_le (h : Waves graph remaining order ready) :
    (order ++ ready).length ≤ graph.nodes.length :=
  (List.Nodup.subperm h.nodup h.subset).length_le

/-- The waves end when nothing is ready. -/
theorem Waves.run (fuel : Nat) (h : Waves graph remaining order ready)
    (hfuel : graph.nodes.length ≤ order.length + fuel) :
    ∃ remaining', Waves graph remaining' (reapWaves graph fuel remaining order ready) [] := by
  induction fuel generalizing remaining order ready with
  | zero =>
    have hlength := h.length_le
    rw [length_append] at hlength
    obtain rfl : ready = [] := length_eq_zero_iff.mp (by omega)
    exact ⟨remaining, h⟩
  | succ fuel ih =>
    rw [reapWaves]
    by_cases hready : ready = []
    · rw [if_pos hready]
      exact ⟨remaining, hready ▸ h⟩
    · rw [if_neg hready]
      have hpos := length_pos_iff.mpr hready
      exact ih h.step (by rw [length_append]; omega)

theorem Waves.perm (h : Waves graph remaining order [])
    (hstrict : ∀ x ∈ graph.nodes, ∀ y ∈ graph.strict x, y ∈ graph.nodes)
    (hnodup : graph.nodes.Nodup)
    (hacyclic : ∀ x, ¬ TransGen (fun x y => y ∈ graph.strict x) x x) :
    order.Perm graph.nodes := by
  have hsub := h.nodup
  rw [append_nil] at hsub
  refine (perm_ext_iff_of_nodup hsub hnodup).mpr fun x => ⟨fun hx => h.subset x (by simpa), ?_⟩
  intro hx
  by_contra hnot
  have hall : ∀ a ∈ graph.nodes.filter (· ∉ order), ∃ b ∈ graph.nodes.filter (· ∉ order),
      (decide (b ∈ graph.strict a)) = true := by
    intro a ha
    obtain ⟨ha, hna⟩ := mem_filter.mp ha
    have hmore : ¬ ∀ y ∈ graph.strict a, y ∈ order := by
      intro hall
      have := (h.reached a ha).mpr hall
      rw [append_nil] at this
      simp [this] at hna
    push Not at hmore
    obtain ⟨b, hb, hnb⟩ := hmore
    exact ⟨b, mem_filter.mpr ⟨hstrict a ha b hb, by simpa using hnb⟩, by simpa using hb⟩
  obtain ⟨z, -, hcycle⟩ : WaitsForCycle (fun a b => decide (b ∈ graph.strict a)) _ x :=
    waitsForCycle_of_all hall (mem_filter.mpr ⟨hx, by simpa using hnot⟩)
  exact hacyclic z (hcycle.lift id fun a b hab => of_decide_eq_true hab.1)

section

variable {order : SetOrder} {containedBy : Dict String (List String)}

/-- One name contains another one in a map. -/
def Contains (containedBy : Dict String (List String)) (container name : String) : Prop :=
  container ∈ containersOf (normalize containedBy) name

/-- A container that is not contained in turn. -/
def StrictlyContains (containedBy : Dict String (List String)) (container name : String) : Prop :=
  Contains containedBy container name ∧ ¬ Contains containedBy name container

/-- Two names in one strongly connected component of a map. -/
def SameComponent (containedBy : Dict String (List String)) (x y : String) : Prop :=
  ReflTransGen (fun x y => Contains containedBy y x) x y ∧
    ReflTransGen (fun x y => Contains containedBy y x) y x

/-- A component whose members contain each other and have the same containers outside. -/
structure IsTie (containedBy : Dict String (List String)) (component : String → Prop) : Prop where
  together : ∀ x y, component x → component y → x ≠ y → Contains containedBy y x
  outside : ∀ x y z, component x → component y → ¬ component z → Contains containedBy z x →
    Contains containedBy z y

theorem contains_nodes {x y : String} (h : Contains containedBy y x) :
    x ∈ nodeNames containedBy ∧ y ∈ nodeNames containedBy ∧ y ≠ x := by
  unfold Contains containersOf normalize at h
  rw [Dict.getD, Dict.get?_map_key] at h
  by_cases hx : x ∈ nodeNames containedBy
  · rw [if_pos hx, Option.getD_some, mem_dedup, mem_filter] at h
    obtain ⟨hin, hy⟩ := h
    simp only [decide_eq_true_eq] at hy
    refine ⟨hx, ?_, hy.2⟩
    cases hraw : Dict.get? (containedBy.filter fun e => decide (e.1 ≠ "")) x with
    | none =>
      rw [Dict.getD, hraw] at hin
      cases hin
    | some vals =>
      rw [Dict.getD, hraw, Option.getD_some] at hin
      obtain ⟨hentry, hkey⟩ := mem_filter.mp (Dict.mem_of_get? hraw)
      refine mem_dedup.mpr (mem_flatMap.mpr ⟨(x, vals), hentry, ?_⟩)
      simp only [decide_eq_true_eq] at hkey
      simp only [if_neg hkey]
      exact mem_cons_of_mem _ (mem_filter.mpr ⟨hin, by simpa using hy⟩)
  · rw [if_neg hx] at h
    cases h

theorem connected_iff {x y : String} :
    Connected (((normalize containedBy).map Prod.fst).insertionSort (· ≤ ·))
      (fun vertex => order.iter (containersOf (normalize containedBy) vertex)) x y ↔
      SameComponent containedBy x y := by
  have hedge : Edge (((normalize containedBy).map Prod.fst).insertionSort (· ≤ ·))
      (fun vertex => order.iter (containersOf (normalize containedBy) vertex)) =
      fun x y => Contains containedBy y x := by
    funext x y
    refine propext ⟨fun h => (order.perm _).mem_iff.mp h.1, fun h => ⟨(order.perm _).mem_iff.mpr h, ?_⟩⟩
    rw [mem_insertionSort]
    simpa [normalize] using (contains_nodes h).2.1
  unfold Connected Reach
  rw [hedge]
  rfl

theorem isSameCommitTie_iff_isTie {component : List String} :
    isSameCommitTie component (normalize containedBy) = true ↔
      IsTie containedBy (· ∈ component) := by
  rw [isSameCommitTie_iff]
  constructor
  · rintro (hone | ⟨htogether, houtside⟩)
    · have hsame : ∀ x y, x ∈ component → y ∈ component → x = y := by
        intro x y hx hy
        match hdedup : component.dedup with
        | [] => exact absurd (mem_dedup.mpr hx) (by simp [hdedup])
        | [z] =>
          have hx' := mem_dedup.mpr hx
          have hy' := mem_dedup.mpr hy
          rw [hdedup, mem_singleton] at hx' hy'
          rw [hx', hy']
        | _ :: _ :: _ =>
          rw [hdedup] at hone
          simp at hone
      exact ⟨fun x y hx hy hne => absurd (hsame x y hx hy) hne,
        fun x y z hx hy _ hz => hsame x y hx hy ▸ hz⟩
    · exact ⟨fun x y hx hy hne => (htogether x hx y hy).resolve_left hne,
        fun x y z hx hy hz hin => houtside x hx y hy z hin hz⟩
  · intro h
    refine .inr ⟨fun x hx y hy => ?_, fun x hx y hy z hin hz => h.outside x y z hx hy hz hin⟩
    by_cases hxy : x = y
    · exact .inl hxy
    · exact .inr (h.together x y hx hy hxy)

theorem classes_get {containers : Dict String (List String)} :
    ∀ (components : List (List String)) (start classOf : Dict String (List String)),
      classes containers components start = .ok classOf → ∀ x,
        (∃ c ∈ components, x ∈ c ∧ classOf.get? x = some c) ∨
          (∀ c ∈ components, x ∉ c) ∧ classOf.get? x = start.get? x := by
  have hfold : ∀ (c members : List String) (d : Dict String (List String)) (x : String),
      Dict.get? (members.foldl (fun d member => d.set member c) d) x =
        if x ∈ members then some c else d.get? x := by
    intro c members
    induction members with
    | nil => intro d x; simp
    | cons member members ih =>
      intro d x
      rw [foldl_cons, ih, Dict.get?_set]
      by_cases hx : x = member <;> by_cases hin : x ∈ members <;> simp [hx, hin]
  intro components
  induction components with
  | nil =>
    intro start classOf h x
    rw [classes] at h
    exact .inr ⟨by simp, by rw [Except.ok.inj h]⟩
  | cons c components ih =>
    intro start classOf h x
    rw [classes] at h
    split at h
    · rcases ih _ _ h x with ⟨c', hc', hx⟩ | ⟨hnone, hget⟩
      · exact .inl ⟨c', mem_cons_of_mem _ hc', hx⟩
      · rw [hfold] at hget
        by_cases hin : x ∈ c
        · rw [if_pos hin] at hget
          exact .inl ⟨c, mem_cons_self, hin, hget⟩
        · rw [if_neg hin] at hget
          exact .inr ⟨by simpa [hin] using hnone, hget⟩
    · cases h

/-- The analysis ends; it refuses exactly a map with a component that is no tie, and on the graph
the strict containers are those that are not contained in turn. -/
theorem analyze_cases (order : SetOrder) (containedBy : Dict String (List String)) :
    ((∀ x ∈ nodeNames containedBy, IsTie containedBy (SameComponent containedBy x)) ∧
      ∃ graph, analyze order containedBy = .ok graph ∧ graph.nodes = nodeNames containedBy ∧
        ∀ x y, y ∈ graph.strict x ↔ StrictlyContains containedBy y x) ∨
    ((∃ x ∈ nodeNames containedBy, ¬ IsTie containedBy (SameComponent containedBy x)) ∧
      ∃ members, analyze order containedBy = .error (.cycle members)) := by
  obtain ⟨components, hfound, hclasses, hall⟩ :=
    stronglyConnected_spec (((normalize containedBy).map Prod.fst).insertionSort (· ≤ ·))
      fun vertex => order.iter (containersOf (normalize containedBy) vertex)
  have hnames : (normalize containedBy).map Prod.fst = nodeNames containedBy := by
    rw [normalize, List.map_map]
    exact (List.map_congr_left fun _ _ => rfl).trans (List.map_id _)
  have hclass : ∀ c ∈ components, ∀ x ∈ c, (· ∈ c) = SameComponent containedBy x := by
    intro c hc x hx
    funext y
    exact propext ((((hclasses c hc).2 x hx).2 y).trans connected_iff)
  have hcover : ∀ x ∈ nodeNames containedBy, ∃ c ∈ components, x ∈ c := by
    intro x hx
    exact hall x ((List.mem_insertionSort _).mpr (hnames ▸ hx))
  rcases classes_spec components [] with ⟨⟨classOf, hok⟩, htie⟩ | ⟨⟨members, herror⟩, c, hc, hnot⟩
  · have hties : ∀ x ∈ nodeNames containedBy,
        IsTie containedBy (SameComponent containedBy x) := by
      intro x hx
      obtain ⟨c, hc, hxc⟩ := hcover x hx
      exact hclass c hc x hxc ▸ isSameCommitTie_iff_isTie.mp (htie c hc)
    refine .inl ⟨hties, _, by simp only [analyze, stronglyConnectedNames, hfound, hok]; rfl, hnames,
      fun x y => ?_⟩
    have hstrict : y ∈ Dict.getD ((normalize containedBy).map fun e =>
        (e.1, e.2.filter fun name => name ∉ classOf.getD e.1 [])) x [] ↔
        Contains containedBy y x ∧ y ∉ classOf.getD x [] := by
      rw [Dict.getD, Dict.get?_map_entries (normalize containedBy) (fun node conts =>
        conts.filter fun name => name ∉ classOf.getD node []) x, Contains, containersOf,
        show Dict.getD (normalize containedBy) x [] =
          (Dict.get? (normalize containedBy) x).getD [] from rfl]
      cases Dict.get? (normalize containedBy) x with
      | none => simp
      | some conts => simp
    refine hstrict.trans ?_
    rw [StrictlyContains]
    refine and_congr_right fun hcontains => not_congr ?_
    obtain ⟨hx, hy, hne⟩ := contains_nodes hcontains
    rcases classes_get components [] classOf hok x with ⟨c, hc, hxc, hget⟩ | ⟨hnone, -⟩
    · rw [Dict.getD, hget, Option.getD_some, show y ∈ c ↔ SameComponent containedBy x y from
        iff_of_eq (congrFun (hclass c hc x hxc) y)]
      constructor
      · exact fun hsame => (hties x hx).together y x hsame ⟨.refl, .refl⟩ hne
      · exact fun hback => ⟨.single hcontains, .single hback⟩
    · obtain ⟨c, hc, hxc⟩ := hcover x hx
      exact absurd hxc (hnone c hc)
  · obtain ⟨⟨x, hx⟩, hmem⟩ := hclasses c hc
    refine .inr ⟨⟨x, ?_, fun htie => hnot (isSameCommitTie_iff_isTie.mpr ?_)⟩, members, ?_⟩
    · rw [← hnames, ← List.mem_insertionSort (· ≤ ·)]
      exact (hmem x hx).1
    · rw [hclass c hc x hx]
      exact htie
    · simp only [analyze, stronglyConnectedNames, hfound, herror]

theorem strict_acyclic
    (hties : ∀ x ∈ nodeNames containedBy, IsTie containedBy (SameComponent containedBy x)) (x : String) :
    ¬ TransGen (fun x y => StrictlyContains containedBy y x) x x := by
  intro hcycle
  obtain ⟨y, hstep, hrest⟩ := TransGen.head'_iff.mp hcycle
  obtain ⟨hx, -, hne⟩ := contains_nodes hstep.1
  have hback : ReflTransGen (fun x y => Contains containedBy y x) y x :=
    hrest.lift id fun _ _ h => h.1
  exact hstep.2 ((hties x hx).together y x ⟨.single hstep.1, hback⟩ ⟨.refl, .refl⟩ hne)

theorem reapOrder_ok {graph : ContainmentGraph} (h : analyze order containedBy = .ok graph)
    (hties : ∀ x ∈ nodeNames containedBy, IsTie containedBy (SameComponent containedBy x))
    (hnodes : graph.nodes = nodeNames containedBy)
    (hstrict : ∀ x y, y ∈ graph.strict x ↔ StrictlyContains containedBy y x) :
    ∃ out, reapOrder order containedBy = .ok out ∧ out.Perm (nodeNames containedBy) ∧
      ∀ x ∈ out, ∀ y, StrictlyContains containedBy y x → out.idxOf y < out.idxOf x := by
  have hnodup : graph.nodes.Nodup := hnodes ▸ nodup_dedup _
  have hstart : Waves graph graph.strictContainers [] graph.maximal := by
    refine ⟨?_, fun x hx => ?_, fun x _ => by simp [ContainmentGraph.strict], fun x hx => ?_, by simp⟩
    · exact (perm_insertionSort _ _).nodup_iff.mpr (hnodup.filter _)
    · exact mem_of_mem_filter ((mem_insertionSort _).mp hx)
    · rw [nil_append, ContainmentGraph.maximal, mem_insertionSort, mem_filter,
        decide_eq_true_eq, eq_nil_iff_forall_not_mem]
      simp [hx]
  obtain ⟨remaining, hend⟩ := hstart.run graph.nodes.length (Nat.le_add_left _ _)
  have hperm := hend.perm (fun x hx y hy => by
    rw [hnodes]
    exact (contains_nodes ((hstrict x y).mp hy).1).2.1) hnodup fun x hcycle =>
      strict_acyclic hties x (hcycle.lift id fun a b hab => (hstrict a b).mp hab)
  refine ⟨_, ?_, hnodes ▸ hperm, fun x hx y hy => hend.before x hx y ((hstrict x y).mpr hy)⟩
  simp only [reapOrder, h]
  rw [if_neg (not_not.mpr hperm.length_eq)]

/-- The reap order and the maximal elements are refused exactly where a component is no tie. Else the
order has every branch after those that strictly contain it, and the maximal ones are those that no
branch strictly contains. -/
theorem reapOrder_maximalElements (order : SetOrder) (containedBy : Dict String (List String)) :
    ((∃ members, reapOrder order containedBy = .error (.cycle members)) ↔
      ∃ x ∈ nodeNames containedBy, ¬ IsTie containedBy (SameComponent containedBy x)) ∧
    ((∃ members, maximalElements order containedBy = .error (.cycle members)) ↔
      ∃ x ∈ nodeNames containedBy, ¬ IsTie containedBy (SameComponent containedBy x)) ∧
    ((∀ x ∈ nodeNames containedBy, IsTie containedBy (SameComponent containedBy x)) →
      (∃ out, reapOrder order containedBy = .ok out ∧ out.Perm (nodeNames containedBy) ∧
        ∀ x ∈ out, ∀ y, StrictlyContains containedBy y x → out.idxOf y < out.idxOf x) ∧
      ∃ out, maximalElements order containedBy = .ok out ∧ ∀ x, x ∈ out ↔
        x ∈ nodeNames containedBy ∧ ∀ y, ¬ StrictlyContains containedBy y x) := by
  rcases analyze_cases order containedBy with
    ⟨hties, graph, hgraph, hnodes, hstrict⟩ | ⟨hnot, members, herror⟩
  · have hno : ¬ ∃ x ∈ nodeNames containedBy,
        ¬ IsTie containedBy (SameComponent containedBy x) := by
      rintro ⟨x, hx, hnot⟩
      exact hnot (hties x hx)
    have hreap := reapOrder_ok hgraph hties hnodes hstrict
    have hmaximal : maximalElements order containedBy = .ok graph.maximal := by
      rw [maximalElements, hgraph]
      rfl
    refine ⟨⟨?_, fun h => absurd h hno⟩, ⟨?_, fun h => absurd h hno⟩,
      fun _ => ⟨hreap, graph.maximal, hmaximal, fun x => ?_⟩⟩
    · rintro ⟨members, herror⟩
      obtain ⟨out, hout, -⟩ := hreap
      rw [hout] at herror
      cases herror
    · rintro ⟨members, herror⟩
      rw [hmaximal] at herror
      cases herror
    · rw [ContainmentGraph.maximal, mem_insertionSort, mem_filter, decide_eq_true_eq,
        eq_nil_iff_forall_not_mem, hnodes]
      exact and_congr_right fun _ => forall_congr' fun y => not_congr (hstrict x y)
  · refine ⟨⟨fun _ => hnot, fun _ => ⟨members, ?_⟩⟩, ⟨fun _ => hnot, fun _ => ⟨members, ?_⟩⟩,
      fun hties => ?_⟩
    · simp only [reapOrder, herror]
    · rw [maximalElements, herror]
      rfl
    · obtain ⟨x, hx, hnone⟩ := hnot
      exact absurd (hties x hx) hnone

/-- Two names of one commit are both maximal, though each contains the other. -/
theorem tie_is_maximal :
    maximalElements plainOrder [("a", ["b"]), ("b", ["a"])] = .ok ["a", "b"] ∧
      Contains [("a", ["b"]), ("b", ["a"])] "b" "a" :=
  ⟨by decide +kernel, by
    unfold Contains
    decide +kernel⟩

end

end Workbay.Ancestry

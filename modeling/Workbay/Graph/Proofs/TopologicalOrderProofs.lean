import Mathlib.Data.Fintype.Card
import Mathlib.Data.Fintype.EquivFin
import Mathlib.Data.Fintype.Sets
import Mathlib.Order.WellFounded
import Workbay.Graph.TopologicalOrder
import Workbay.Graph.Visit

/-!
# Proofs: the topological order
-/

namespace Workbay.Graph

open Relation List

variable {α : Type} [LinearOrder α]

theorem release_fold : ∀ (children : List α) (indegree : Dict α Int) (ready : List α),
    (∀ x ∈ children, (children.count x : Int) ≤ indegree.getD x 0) →
    (∀ x, Dict.getD (children.foldl release (indegree, ready)).1 x 0 =
        indegree.getD x 0 - (children.count x : Int)) ∧
      (∀ x, x ∈ (children.foldl release (indegree, ready)).2 ↔
        x ∈ ready ∨ x ∈ children ∧ indegree.getD x 0 = (children.count x : Int)) ∧
      (ready.Nodup → (∀ x ∈ children, x ∉ ready) →
        (children.foldl release (indegree, ready)).2.Nodup) := by
  intro children
  induction children with
  | nil => simp
  | cons child children ih =>
    intro indegree ready hcount
    have hchild := hcount child mem_cons_self
    rw [count_cons_self] at hchild
    have hgetD : ∀ x, Dict.getD (release (indegree, ready) child).1 x 0 =
        if x = child then indegree.getD child 0 - 1 else indegree.getD x 0 := by
      intro x
      unfold release
      by_cases hx : x = child
      · subst hx
        rw [if_pos rfl, Dict.getD_set_self]
      · rw [if_neg hx, Dict.getD_set_of_ne _ _ _ hx]
    have hmem : ∀ x, x ∈ (release (indegree, ready) child).2 ↔
        x ∈ ready ∨ x = child ∧ indegree.getD child 0 = 1 := by
      intro x
      unfold release
      by_cases hzero : indegree.getD child 0 - 1 = 0
      · simp only [if_pos hzero, mem_insertionSort, mem_append, mem_singleton]
        have hone : indegree.getD child 0 = 1 := by omega
        simp [hone]
      · simp only [if_neg hzero]
        have hone : ¬ indegree.getD child 0 = 1 := by omega
        simp [hone]
    have hrest : ∀ x ∈ children,
        (children.count x : Int) ≤ Dict.getD (release (indegree, ready) child).1 x 0 := by
      intro x hx
      rw [hgetD]
      by_cases hxc : x = child
      · subst hxc
        rw [if_pos rfl]
        push_cast at hchild
        omega
      · rw [if_neg hxc]
        have hle := hcount x (mem_cons_of_mem _ hx)
        rwa [count_cons_of_ne (Ne.symm hxc)] at hle
    obtain ⟨hval, hin, hnodup⟩ := ih (release (indegree, ready) child).1
      (release (indegree, ready) child).2 hrest
    rw [foldl_cons]
    refine ⟨fun x => ?_, fun x => ?_, fun hready hfresh => ?_⟩
    · rw [hval, hgetD]
      by_cases hxc : x = child
      · subst hxc
        rw [if_pos rfl, count_cons_self]
        push_cast
        omega
      · rw [if_neg hxc, count_cons_of_ne (Ne.symm hxc)]
    · rw [hin, hmem, hgetD]
      by_cases hxc : x = child
      · subst hxc
        rw [if_pos rfl, count_cons_self]
        push_cast at hchild ⊢
        simp only [mem_cons, true_or, true_and]
        constructor
        · rintro ((hr | hone) | ⟨-, heq⟩)
          · exact .inl hr
          · have hzero : children.count x = 0 := by omega
            right
            omega
          · right
            omega
        · rintro (hr | heq)
          · exact .inl (.inl hr)
          · by_cases hxin : x ∈ children
            · exact .inr ⟨hxin, by omega⟩
            · have hzero : children.count x = 0 := count_eq_zero.mpr hxin
              exact .inl (.inr (by omega))
      · rw [if_neg hxc, count_cons_of_ne (Ne.symm hxc), mem_cons]
        simp [hxc]
    · refine hnodup ?_ fun x hx hxr => ?_
      · unfold release
        by_cases hzero : indegree.getD child 0 - 1 = 0
        · simp only [if_pos hzero]
          have happend : (ready ++ [child]).Nodup := by
            rw [nodup_append]
            refine ⟨hready, nodup_singleton child, fun a ha b hb => ?_⟩
            obtain rfl := mem_singleton.mp hb
            rintro rfl
            exact hfresh a mem_cons_self ha
          exact (perm_insertionSort _ _).nodup_iff.mpr happend
        · simp only [if_neg hzero]
          exact hready
      · rcases (hmem x).mp hxr with hr | ⟨rfl, hone⟩
        · exact hfresh x (mem_cons_of_mem _ hx) hr
        · have hpos : 0 < children.count x := count_pos_iff.mpr hx
          omega

section

variable {vertices : List α} {prereqs : Dict α (List α)}

theorem count_dependentsOf (hkeys : (prereqs.map Prod.fst).Nodup) {x y : α} (hy : y ∈ vertices) :
    (dependentsOf vertices prereqs x).count y = (prereqs.getD y []).count x := by
  unfold dependentsOf
  rw [(perm_insertionSort _ _).count_eq]
  induction prereqs with
  | nil => simp [Dict.getD]
  | cons entry rest ih =>
    obtain ⟨consumer, xs⟩ := entry
    rw [map_cons, nodup_cons] at hkeys
    rw [flatMap_cons, count_append, ih hkeys.2]
    have hmap : ∀ c : α, ((xs.filter (· = x)).map fun _ => c).count y =
        if c = y then xs.count x else 0 := by
      intro c
      rw [map_const', count_replicate]
      by_cases hc : c = y
      · simp only [hc, BEq.rfl, if_true]
        rw [← countP_eq_length_filter]
        rfl
      · simp [hc]
    by_cases hcy : consumer = y
    · subst hcy
      have hnone : Dict.getD rest consumer ([] : List α) = [] := by
        rw [Dict.getD, Dict.get?_eq_none_iff.mpr hkeys.1]
        rfl
      rw [hnone, count_nil, Nat.add_zero]
      simp only [if_pos hy, hmap, if_true, Dict.getD, Dict.get?_cons, Option.getD_some]
    · have hskip : Dict.getD ((consumer, xs) :: rest) y ([] : List α) = Dict.getD rest y [] := by
        rw [Dict.getD, Dict.get?_cons, if_neg hcy]
        rfl
      rw [hskip]
      by_cases hc : consumer ∈ vertices
      · simp only [if_pos hc, hmap, if_neg hcy, Nat.zero_add]
      · simp only [if_neg hc, count_nil, Nat.zero_add]

/-- What the loop keeps. -/
structure Kahn (vertices : List α) (prereqs : Dict α (List α)) (waiting : Dict α Int)
    (front order : List α) : Prop where
  nodup : (order ++ front).Nodup
  subset : ∀ x ∈ order ++ front, x ∈ vertices
  indegree : ∀ x ∈ vertices, waiting.getD x 0 =
    ((prereqsOf vertices prereqs x).countP (· ∉ order) : Nat)
  ready : ∀ x ∈ vertices, x ∈ order ++ front ↔ waiting.getD x 0 = 0
  /-- The prerequisites of a vertex stand before it. -/
  before : ∀ left x right, order = left ++ x :: right →
    ∀ y ∈ prereqsOf vertices prereqs x, y ∈ left

theorem Kahn.step (hkeys : (prereqs.map Prod.fst).Nodup) {indegree : Dict α Int} {node : α}
    {ready order : List α} (h : Kahn vertices prereqs indegree (node :: ready) order) :
    Kahn vertices prereqs
      ((dependentsOf vertices prereqs node).foldl release (indegree, ready)).1
      ((dependentsOf vertices prereqs node).foldl release (indegree, ready)).2
      (order ++ [node]) := by
  have hnode : node ∈ vertices := h.subset node (by simp)
  have hdependents : ∀ x ∈ dependentsOf vertices prereqs node, x ∈ vertices := by
    intro x hx
    unfold dependentsOf at hx
    rw [mem_insertionSort, mem_flatMap] at hx
    obtain ⟨⟨consumer, xs⟩, -, hx⟩ := hx
    simp only at hx
    split at hx
    · next hc =>
      obtain ⟨_, -, rfl⟩ := mem_map.mp hx
      exact hc
    · cases hx
  have hnodeOrder : node ∉ order := by
    have hnodup := h.nodup
    rw [nodup_append] at hnodup
    exact fun hin => hnodup.2.2 node hin node mem_cons_self rfl
  -- the node is among what a dependent waits for as often as it is listed
  have hsplit : ∀ x ∈ vertices, ((prereqsOf vertices prereqs x).countP (· ∉ order) : Int) =
      ((prereqsOf vertices prereqs x).countP (· ∉ order ++ [node]) : Nat) +
        ((dependentsOf vertices prereqs node).count x : Nat) := by
    intro x hx
    rw [count_dependentsOf hkeys hx]
    have hcount : (prereqs.getD x []).count node =
        (prereqsOf vertices prereqs x).count node := by
      unfold prereqsOf
      rw [count_filter (by simpa using hnode)]
    rw [hcount]
    norm_cast
    generalize prereqsOf vertices prereqs x = xs
    induction xs with
    | nil => rfl
    | cons y xs ih =>
      rw [countP_cons, countP_cons, count_cons, ih]
      by_cases hy : y = node
      · subst hy
        simp [hnodeOrder]
        omega
      · by_cases hyo : y ∈ order
        · simp [hy, hyo]
        · simp [hy, hyo]
          omega
  have hle : ∀ x ∈ dependentsOf vertices prereqs node,
      ((dependentsOf vertices prereqs node).count x : Int) ≤ indegree.getD x 0 := by
    intro x hx
    have hxv := hdependents x hx
    rw [h.indegree x hxv, hsplit x hxv]
    omega
  obtain ⟨hval, hin, hnodup⟩ := release_fold _ indegree ready hle
  have hzero : ∀ x ∈ order ++ node :: ready, x ∉ dependentsOf vertices prereqs node := by
    intro x hx hxd
    have hxv := h.subset x hx
    have hind := (h.ready x hxv).mp hx
    have hpos : 0 < (dependentsOf vertices prereqs node).count x := count_pos_iff.mpr hxd
    have hbound := hle x hxd
    omega
  have hmemIff : ∀ x ∈ vertices,
      x ∈ (order ++ [node]) ++
          ((dependentsOf vertices prereqs node).foldl release (indegree, ready)).2 ↔
        Dict.getD ((dependentsOf vertices prereqs node).foldl release (indegree, ready)).1 x 0 = 0 := by
    intro x hx
    rw [mem_append, hin, hval]
    constructor
    · rintro (hxo | hxr | ⟨-, heq⟩)
      · have hmem : x ∈ order ++ node :: ready := by
          rcases mem_append.mp hxo with ho | hn
          · exact mem_append_left _ ho
          · rw [mem_singleton.mp hn]
            exact mem_append_right _ mem_cons_self
        rw [(h.ready x hx).mp hmem, count_eq_zero.mpr (hzero x hmem)]
        rfl
      · have hmem : x ∈ order ++ node :: ready :=
          mem_append_right _ (mem_cons_of_mem _ hxr)
        rw [(h.ready x hx).mp hmem, count_eq_zero.mpr (hzero x hmem)]
        rfl
      · omega
    · intro heq
      by_cases hxd : x ∈ dependentsOf vertices prereqs node
      · exact .inr (.inr ⟨hxd, by omega⟩)
      · rw [count_eq_zero.mpr hxd] at heq
        have hmem := (h.ready x hx).mpr (by simpa using heq)
        rcases mem_append.mp hmem with ho | hr
        · exact .inl (mem_append_left _ ho)
        · rcases mem_cons.mp hr with rfl | hr
          · exact .inl (mem_append_right _ mem_cons_self)
          · exact .inr (.inl hr)
  refine ⟨?_, fun x hx => ?_, fun x hx => ?_, hmemIff, fun front x back hsplitOrder y hy => ?_⟩
  · have hold := h.nodup
    rw [append_cons, nodup_append] at hold
    rw [nodup_append]
    refine ⟨hold.1, hnodup hold.2.1 fun x hx hxr => ?_, fun a ha b hb => ?_⟩
    · exact hzero x (mem_append_right _ (mem_cons_of_mem _ hxr)) hx
    · rintro rfl
      rcases (hin a).mp hb with hr | ⟨hd, -⟩
      · exact hold.2.2 a ha a hr rfl
      · refine hzero a ?_ hd
        rcases mem_append.mp ha with ho | hn
        · exact mem_append_left _ ho
        · rw [mem_singleton.mp hn]
          exact mem_append_right _ mem_cons_self
  · rcases mem_append.mp hx with ho | hr
    · rcases mem_append.mp ho with ho | hn
      · exact h.subset x (mem_append_left _ ho)
      · rw [mem_singleton.mp hn]
        exact hnode
    · rcases (hin x).mp hr with hr | ⟨hd, -⟩
      · exact h.subset x (mem_append_right _ (mem_cons_of_mem _ hr))
      · exact hdependents x hd
  · rw [hval, h.indegree x hx, hsplit x hx]
    omega
  · rcases eq_nil_or_concat back with rfl | ⟨init, last, rfl⟩
    · obtain ⟨rfl, hlast⟩ := append_inj' hsplitOrder rfl
      obtain rfl : node = x := (List.cons.inj hlast).1
      -- the node is ready: all it waits for stands in the order
      have hind := (h.ready node hnode).mp (mem_append_right _ mem_cons_self)
      rw [h.indegree node hnode] at hind
      have hcount : (prereqsOf vertices prereqs node).countP (· ∉ order) = 0 := by
        exact_mod_cast hind
      simpa using countP_eq_zero.mp hcount y hy
    · rw [concat_eq_append] at hsplitOrder
      have heq : order ++ [node] = (front ++ x :: init) ++ [last] := by
        rw [hsplitOrder]
        simp
      obtain ⟨rfl, -⟩ := append_inj' heq rfl
      exact h.before front x init rfl y hy

/-- The loop ends with an order in which nothing is ready any more. -/
theorem Kahn.run (hkeys : (prereqs.map Prod.fst).Nodup) :
    ∀ (fuel : Nat) (indegree : Dict α Int) (ready order : List α),
      Kahn vertices prereqs indegree ready order → vertices.length ≤ fuel + order.length →
      ∃ indegree', Kahn vertices prereqs indegree' []
        (kahn (dependentsOf vertices prereqs) fuel indegree ready order) := by
  intro fuel
  induction fuel with
  | zero =>
    intro indegree ready order h hfuel
    have hlen : (order ++ ready).length ≤ vertices.length :=
      (List.Nodup.subperm h.nodup h.subset).length_le
    obtain rfl : ready = [] := by
      rw [length_append] at hlen
      exact length_eq_zero_iff.mp (by omega)
    exact ⟨indegree, h⟩
  | succ fuel ih =>
    intro indegree ready order h hfuel
    cases ready with
    | nil => exact ⟨indegree, h⟩
    | cons node ready =>
      rw [kahn]
      refine ih _ _ _ (h.step hkeys) ?_
      rw [length_append, length_singleton]
      omega

theorem Kahn.complete {indegree : Dict α Int} {order : List α}
    (h : Kahn vertices prereqs indegree [] order)
    (hacyclic : Acyclic (prereqsOf vertices prereqs)) : ∀ x ∈ vertices, x ∈ order := by
  by_contra hnot
  push Not at hnot
  obtain ⟨x, hx, hxo⟩ := hnot
  -- the vertices that are left, ordered by what they wait for, have no least element
  let left := {y // y ∈ vertices ∧ y ∉ order}
  have : Finite {y // y ∈ vertices} := Finite.of_fintype _
  have : Finite left :=
    Finite.of_injective (fun y : left => (⟨y.1, y.2.1⟩ : {y // y ∈ vertices}))
      fun a b hab => Subtype.ext (congrArg (fun z : {y // y ∈ vertices} => z.1) hab)
  let waits : left → left → Prop := fun a b =>
    TransGen (Step (prereqsOf vertices prereqs)) b.1 a.1
  have : IsTrans left waits := ⟨fun a b c hab hbc => hbc.trans hab⟩
  have : Std.Irrefl waits := ⟨fun a haa => hacyclic a.1 haa⟩
  have hwf : WellFounded waits := Finite.wellFounded_of_trans_of_irrefl waits
  obtain ⟨least, -, hmin⟩ := hwf.has_min Set.univ ⟨⟨x, hx, hxo⟩, trivial⟩
  have hind : indegree.getD least.1 0 ≠ 0 := fun hzero =>
    least.2.2 (by simpa using (h.ready least.1 least.2.1).mpr hzero)
  rw [h.indegree least.1 least.2.1] at hind
  have hcount : 0 < (prereqsOf vertices prereqs least.1).countP (· ∉ order) := by
    refine Nat.pos_of_ne_zero fun hzero => hind ?_
    rw [hzero]
    rfl
  obtain ⟨y, hy, hyo⟩ := countP_pos_iff.mp hcount
  have hyv : y ∈ vertices := by simpa using (mem_filter.mp hy).2
  exact hmin ⟨y, hyv, by simpa using hyo⟩ trivial (TransGen.single hy)

theorem topologicalOrder_spec (hkeys : (prereqs.map Prod.fst).Nodup) (hvertices : vertices.Nodup)
    (hacyclic : Acyclic (prereqsOf vertices prereqs)) :
    (topologicalOrder vertices prereqs).Perm vertices ∧
      ∀ front x back, topologicalOrder vertices prereqs = front ++ x :: back →
        ∀ y ∈ prereqsOf vertices prereqs x, y ∈ front := by
  have hdegree : ∀ x, indegreeOf vertices prereqs x =
      ((prereqsOf vertices prereqs x).length : Int) := by
    intro x
    unfold indegreeOf prereqsOf
    rw [countP_eq_length_filter]
  have hget : ∀ x ∈ vertices,
      Dict.getD (vertices.map fun x => (x, indegreeOf vertices prereqs x)) x 0 =
        indegreeOf vertices prereqs x := by
    intro x hx
    rw [Dict.getD, Dict.get?_map_key, if_pos hx]
    rfl
  have hinit : Kahn vertices prereqs
      (vertices.map fun x => (x, indegreeOf vertices prereqs x))
      ((vertices.filter fun x => indegreeOf vertices prereqs x = 0).insertionSort (· ≤ ·)) [] := by
    refine ⟨?_, fun x hx => ?_, fun x hx => ?_, fun x hx => ?_, fun front x back h => ?_⟩
    · rw [nil_append, (perm_insertionSort _ _).nodup_iff]
      exact hvertices.filter _
    · rw [nil_append, mem_insertionSort] at hx
      exact (mem_filter.mp hx).1
    · rw [hget x hx, hdegree]
      simp
    · rw [nil_append, mem_insertionSort, mem_filter, hget x hx]
      simp [hx]
    · simp at h
  obtain ⟨indegree, hrun⟩ := Kahn.run hkeys vertices.length _ _ _ hinit (by simp)
  have hperm : (kahn (dependentsOf vertices prereqs) vertices.length
      (vertices.map fun x => (x, indegreeOf vertices prereqs x))
      ((vertices.filter fun x => indegreeOf vertices prereqs x = 0).insertionSort (· ≤ ·))
      []).Perm vertices := by
    refine (perm_ext_iff_of_nodup (by simpa using hrun.nodup) hvertices).mpr fun x => ?_
    exact ⟨fun hx => hrun.subset x (by simpa using hx), hrun.complete hacyclic x⟩
  have hsame : topologicalOrder vertices prereqs = kahn (dependentsOf vertices prereqs)
      vertices.length (vertices.map fun x => (x, indegreeOf vertices prereqs x))
      ((vertices.filter fun x => indegreeOf vertices prereqs x = 0).insertionSort (· ≤ ·)) [] := by
    unfold topologicalOrder
    exact if_pos hperm.length_eq
  rw [hsame]
  exact ⟨hperm, hrun.before⟩

end

end Workbay.Graph

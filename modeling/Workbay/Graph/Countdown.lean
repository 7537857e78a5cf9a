import Mathlib.Algebra.GroupWithZero.Nat
import Mathlib.Data.List.Count
import Mathlib.Data.List.Nodup
import Mathlib.Data.List.Perm.Basic
import Mathlib.Data.List.Perm.Subperm
import Workbay.Data.Dict

/-!
# Counting down

Every vertex waits for a number of arrivals, and each vertex that is taken arrives at its children, at
some of them more than once. A vertex is ready as soon as enough has arrived. The ready vertices can be
taken one at a time or all at once, and can be kept in any order.
-/

namespace Workbay.Graph

open List

variable {α : Type} [DecidableEq α]

/-- One arrival: the child is ready if it was the last one that it waited for. -/
def countDown (insert : α → List α → List α) (state : Dict α Int × List α) (child : α) :
    Dict α Int × List α :=
  (state.1.set child (state.1.getD child 0 - 1),
    if state.1.getD child 0 - 1 = 0 then insert child state.2 else state.2)

section

variable {insert : α → List α → List α}

theorem getD_countDown (state : Dict α Int × List α) (child x : α) :
    Dict.getD (countDown insert state child).1 x 0 =
      if x = child then state.1.getD child 0 - 1 else state.1.getD x 0 := by
  unfold countDown
  by_cases hx : x = child
  · subst hx
    rw [if_pos rfl, Dict.getD_set_self]
  · rw [if_neg hx, Dict.getD_set_of_ne _ _ _ hx]

theorem mem_countDown (hinsert : ∀ x xs, (insert x xs).Perm (x :: xs))
    (state : Dict α Int × List α) (child x : α) :
    x ∈ (countDown insert state child).2 ↔
      x ∈ state.2 ∨ x = child ∧ state.1.getD child 0 = 1 := by
  unfold countDown
  by_cases hzero : state.1.getD child 0 - 1 = 0
  · have hone : state.1.getD child 0 = 1 := by omega
    rw [if_pos hzero, (hinsert child state.2).mem_iff, mem_cons]
    constructor
    · rintro (hx | hx)
      · exact .inr ⟨hx, hone⟩
      · exact .inl hx
    · rintro (hx | ⟨hx, -⟩)
      · exact .inr hx
      · exact .inl hx
  · have hone : state.1.getD child 0 ≠ 1 := by omega
    simp only [if_neg hzero, hone, and_false, or_false]

/-- Some arrivals: who gets ready waited for no more than these. -/
theorem countDown_fold (hinsert : ∀ x xs, (insert x xs).Perm (x :: xs)) :
    ∀ (children : List α) (waiting : Dict α Int) (ready : List α),
      (∀ x, Dict.getD (children.foldl (countDown insert) (waiting, ready)).1 x 0 =
        waiting.getD x 0 - (children.count x : Int)) ∧
      (∀ x, x ∈ (children.foldl (countDown insert) (waiting, ready)).2 ↔
        x ∈ ready ∨ 0 < waiting.getD x 0 ∧
          waiting.getD x 0 ≤ (children.count x : Int)) ∧
      ((∀ x ∈ ready, waiting.getD x 0 ≤ 0) → ready.Nodup →
        (children.foldl (countDown insert) (waiting, ready)).2.Nodup) := by
  intro children
  induction children with
  | nil =>
    intro waiting ready
    refine ⟨fun x => by simp, fun x => ?_, fun _ hnodup => hnodup⟩
    rw [foldl_nil, count_nil]
    constructor
    · exact .inl
    · rintro (hx | ⟨hpos, hle⟩)
      · exact hx
      · simp at hle
        omega
  | cons child children ih =>
    intro waiting ready
    obtain ⟨hget, hmem, hnodup⟩ := ih (countDown insert (waiting, ready) child).1
      (countDown insert (waiting, ready) child).2
    have hcount : ∀ x, ((child :: children).count x : Int) =
        (children.count x : Int) + if x = child then 1 else 0 := by
      intro x
      rw [count_cons]
      by_cases hx : child = x
      · simp [hx]
      · simp [hx, Ne.symm hx]
    refine ⟨fun x => ?_, fun x => ?_, fun hready hready' => hnodup (fun x hx => ?_) ?_⟩
    · rw [foldl_cons, hget, getD_countDown, hcount]
      by_cases hx : x = child
      · rw [if_pos hx, if_pos hx, hx]
        dsimp only
        omega
      · rw [if_neg hx, if_neg hx]
        dsimp only
        omega
    · rw [foldl_cons, hmem, mem_countDown hinsert, getD_countDown, hcount]
      by_cases hx : x = child
      · rw [if_pos hx, if_pos hx, hx]
        simp only [true_and, or_assoc]
        refine or_congr_right ?_
        omega
      · rw [if_neg hx, if_neg hx]
        simp only [hx, false_and, or_false, Int.add_zero]
    · rw [getD_countDown]
      rcases (mem_countDown hinsert _ _ _).mp hx with hx | ⟨rfl, hone⟩
      · have hle := hready x hx
        by_cases hxc : x = child
        · rw [if_pos hxc, ← hxc]
          exact Int.le_of_lt (Int.sub_one_lt_of_le hle)
        · rw [if_neg hxc]
          exact hle
      · rw [if_pos rfl]
        exact Int.le_of_eq (by omega)
    · unfold countDown
      by_cases hzero : waiting.getD child 0 - 1 = 0
      · simp only [if_pos hzero]
        refine (hinsert child ready).nodup_iff.mpr (nodup_cons.mpr ⟨fun hin => ?_, hready'⟩)
        have hle := hready child hin
        omega
      · simp only [if_neg hzero]
        exact hready'

end

/-- What has arrived at a vertex once some vertices are taken. -/
def arrivals (children : α → List α) (order : List α) (x : α) : Nat :=
  (order.flatMap children).count x

theorem arrivals_append (children : α → List α) (order more : List α) (x : α) :
    arrivals children (order ++ more) x = arrivals children order x + arrivals children more x := by
  unfold arrivals
  rw [flatMap_append, count_append]

theorem arrivals_eq_sum (children : α → List α) (order : List α) (x : α) :
    arrivals children order x = (order.map fun y => (children y).count x).sum := by
  unfold arrivals
  rw [count_flatMap]
  rfl

theorem length_filter_mem_cons {y : α} {order : List α} (hy : y ∉ order) (listed : List α) :
    (listed.filter fun z => z ∈ y :: order).length =
      listed.count y + (listed.filter fun z => z ∈ order).length := by
  induction listed with
  | nil => rfl
  | cons z listed ih =>
    rw [count_cons, filter_cons, filter_cons]
    by_cases hz : z = y
    · have hcons : decide (z ∈ y :: order) = true := decide_eq_true (hz ▸ mem_cons_self)
      have hnot : ¬ decide (z ∈ order) = true := fun h => hy (hz ▸ of_decide_eq_true h)
      rw [if_pos hcons, if_neg hnot, if_pos (beq_iff_eq.mpr hz), length_cons, ih]
      omega
    · have hcons : decide (z ∈ y :: order) = decide (z ∈ order) := by simp [hz]
      have hne : ¬ (z == y) = true := fun h => hz (beq_iff_eq.mp h)
      rw [hcons, if_neg hne]
      by_cases hin : decide (z ∈ order) = true
      · rw [if_pos hin, length_cons, ih, if_pos hin, length_cons]
        omega
      · rw [if_neg hin, ih, if_neg hin]
        omega

theorem arrivals_eq_length {children : α → List α} {order : List α} (horder : order.Nodup) {x : α}
    {listed : List α} (hcount : ∀ y ∈ order, (children y).count x = listed.count y) :
    arrivals children order x = (listed.filter fun y => y ∈ order).length := by
  rw [arrivals_eq_sum]
  induction order with
  | nil => simp
  | cons y order ih =>
    obtain ⟨hy, horder⟩ := nodup_cons.mp horder
    rw [map_cons, sum_cons, hcount y mem_cons_self,
      ih horder fun z hz => hcount z (mem_cons_of_mem _ hz), length_filter_mem_cons hy]

/-- What holds while vertices are taken: `order` are the taken ones. -/
structure Countdown (children : α → List α) (need : α → Int) (vertices : List α)
    (waiting : Dict α Int) (ready order : List α) : Prop where
  nodup : (order ++ ready).Nodup
  subset : ∀ x ∈ order ++ ready, x ∈ vertices
  waiting_eq : ∀ x ∈ vertices, waiting.getD x 0 = need x - (arrivals children order x : Int)
  reached : ∀ x ∈ vertices, x ∈ order ++ ready ↔ waiting.getD x 0 ≤ 0

section

variable {children : α → List α} {need : α → Int} {vertices : List α} {waiting : Dict α Int}
  {ready order : List α}

theorem Countdown.mem_iff (h : Countdown children need vertices waiting ready order) {x : α}
    (hx : x ∈ vertices) :
    x ∈ order ++ ready ↔ need x ≤ (arrivals children order x : Int) := by
  rw [h.reached x hx, h.waiting_eq x hx]
  omega

theorem Countdown.perm (h : Countdown children need vertices waiting ready order)
    {ready' : List α} (hperm : ready'.Perm ready) :
    Countdown children need vertices waiting ready' order := by
  have happend : (order ++ ready').Perm (order ++ ready) := hperm.append_left order
  exact ⟨happend.nodup_iff.mpr h.nodup, fun x hx => h.subset x (happend.mem_iff.mp hx),
    h.waiting_eq, fun x hx => happend.mem_iff.trans (h.reached x hx)⟩

/-- Some ready vertices are taken. -/
theorem Countdown.take {insert : α → List α → List α}
    (hinsert : ∀ x xs, (insert x xs).Perm (x :: xs))
    (hclosed : ∀ x ∈ vertices, ∀ y ∈ children x, y ∈ vertices) {batch rest : List α}
    (h : Countdown children need vertices waiting (batch ++ rest) order) :
    Countdown children need vertices
      ((batch.flatMap children).foldl (countDown insert) (waiting, rest)).1
      ((batch.flatMap children).foldl (countDown insert) (waiting, rest)).2 (order ++ batch) := by
  obtain ⟨hget, hmem, hnodup⟩ := countDown_fold hinsert (batch.flatMap children) waiting rest
  have hold := h.nodup
  rw [← append_assoc] at hold
  obtain ⟨hbatch, hrest, hdisjoint⟩ := nodup_append.mp hold
  have hle : ∀ x ∈ order ++ (batch ++ rest), waiting.getD x 0 ≤ 0 := fun x hx =>
    (h.reached x (h.subset x hx)).mp hx
  have hchildren : ∀ x, 0 < ((batch.flatMap children).count x : Int) → x ∈ vertices := by
    intro x hx
    have hin : x ∈ batch.flatMap children := count_pos_iff.mp (by omega)
    obtain ⟨y, hy, hxy⟩ := mem_flatMap.mp hin
    exact hclosed y (h.subset y (by simp [hy])) x hxy
  refine ⟨nodup_append.mpr ⟨hbatch, hnodup (fun x hx => hle x (by simp [hx])) hrest,
    fun x hx y hy => ?_⟩, fun x hx => ?_, fun x hx => ?_, fun x hx => ?_⟩
  · rintro rfl
    rcases (hmem x).mp hy with hy | ⟨hpos, -⟩
    · exact hdisjoint x hx x hy rfl
    · have hnot := hle x (by
        rw [← append_assoc]
        exact mem_append_left _ hx)
      omega
  · rcases mem_append.mp hx with hx | hx
    · exact h.subset x (by rw [← append_assoc]; exact mem_append_left _ hx)
    · rcases (hmem x).mp hx with hx | ⟨hpos, hcount⟩
      · exact h.subset x (by simp [hx])
      · exact hchildren x (by omega)
  · rw [hget, h.waiting_eq x hx, arrivals_append]
    unfold arrivals
    omega
  · rw [mem_append, hmem, hget]
    have hreached := h.reached x hx
    rw [← append_assoc, mem_append] at hreached
    constructor
    · rintro (hin | hin | ⟨-, hcount⟩)
      · have := hreached.mp (.inl hin)
        omega
      · have := hreached.mp (.inr hin)
        omega
      · omega
    · intro hzero
      by_cases hpos : 0 < waiting.getD x 0
      · exact .inr (.inr ⟨hpos, by omega⟩)
      · rcases hreached.mpr (by omega) with hin | hin
        · exact .inl hin
        · exact .inr (.inl hin)

/-- Before anything is taken, the vertices that wait for nothing are ready. -/
theorem Countdown.start (hneed : ∀ x ∈ vertices, 0 ≤ need x) (hnodup : ready.Nodup)
    (hready : ∀ x, x ∈ ready ↔ x ∈ vertices ∧ need x = 0)
    (hwaiting : ∀ x ∈ vertices, waiting.getD x 0 = need x) :
    Countdown children need vertices waiting ready [] := by
  refine ⟨hnodup, fun x hx => ((hready x).mp hx).1, fun x hx => ?_, fun x hx => ?_⟩
  · rw [hwaiting x hx]
    simp [arrivals]
  · rw [nil_append, hready, hwaiting x hx]
    have := hneed x hx
    constructor
    · rintro ⟨-, hzero⟩
      omega
    · intro hle
      exact ⟨hx, by omega⟩

theorem Countdown.length_le (h : Countdown children need vertices waiting ready order) :
    order.length + ready.length ≤ vertices.length := by
  rw [← length_append]
  exact (List.Nodup.subperm h.nodup h.subset).length_le

end

/-! ## Taken one at a time -/

/-- Whoever is taken has what it waited for from those before it. -/
def Arrived (children : α → List α) (need : α → Int) (order : List α) : Prop :=
  ∀ front x back, order = front ++ x :: back → need x ≤ (arrivals children front x : Int)

theorem Arrived.nil (children : α → List α) (need : α → Int) : Arrived children need [] := by
  intro front x back h
  simp at h

theorem Arrived.concat {children : α → List α} {need : α → Int} {order : List α} {y : α}
    (h : Arrived children need order) (hy : need y ≤ (arrivals children order y : Int)) :
    Arrived children need (order ++ [y]) := by
  intro front x back heq
  rcases eq_nil_or_concat back with rfl | ⟨init, last, rfl⟩
  · obtain ⟨rfl, hlast⟩ := append_inj' heq rfl
    obtain rfl := (cons.inj hlast).1
    exact hy
  · rw [concat_eq_append, ← cons_append, ← append_assoc] at heq
    obtain ⟨rfl, -⟩ := append_inj' heq rfl
    exact h front x init rfl

end Workbay.Graph

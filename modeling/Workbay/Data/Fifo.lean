import Mathlib.Data.List.Dedup
import Mathlib.Data.List.Perm.Subperm

/-!
# Bounded queues without repetition

A queue keeps the newest of its elements up to a bound. What is in it already is not put in again,
and keeps its place.
-/

namespace Workbay.Fifo

open List

variable {α : Type} [DecidableEq α]

/-- The newest elements, up to a bound. -/
def bound (cap : Nat) (q : List α) : List α := q.drop (q.length - cap)

/-- Put an element in, unless it is there. -/
def push (cap : Nat) (q : List α) (x : α) : List α := bound cap (if x ∈ q then q else q ++ [x])

/-- An element is in the queue, and what is behind it is among `xs`. -/
def Behind (q : List α) (x : α) (xs : List α) : Prop :=
  ∃ before behind, q = before ++ x :: behind ∧ ∀ y ∈ behind, y ∈ xs

/-- The elements of a list other than `x`, each once. -/
def others (x : α) (xs : List α) : List α := (xs.filter (· ≠ x)).dedup

variable {cap : Nat} {q xs : List α} {x y : α}

theorem bound_of_le (h : q.length ≤ cap) : bound cap q = q := by
  rw [bound, Nat.sub_eq_zero_of_le h, drop_zero]

theorem length_bound_le (cap : Nat) (q : List α) : (bound cap q).length ≤ cap := by
  rw [bound, length_drop]
  omega

theorem length_push_le (cap : Nat) (q : List α) (x : α) : (push cap q x).length ≤ cap :=
  length_bound_le cap _

theorem nodup_push (h : q.Nodup) (x : α) : (push cap q x).Nodup := by
  rw [push, bound]
  refine List.Nodup.sublist (drop_sublist _ _) ?_
  split
  · exact h
  · rename_i hx
    exact nodup_append.mpr ⟨h, nodup_singleton _, fun a ha b hb heq => by
      rw [mem_singleton.mp hb] at heq
      exact hx (heq ▸ ha)⟩

theorem push_of_mem (hlen : q.length ≤ cap) (hx : x ∈ q) : push cap q x = q := by
  rw [push, if_pos hx, bound_of_le hlen]

theorem push_nil (hcap : 0 < cap) (x : α) : push cap [] x = [x] := by
  rw [push, if_neg not_mem_nil, nil_append, bound_of_le hcap]

theorem mem_push (h : x ∈ push cap q y) : x ∈ q ∨ x = y ∧ y ∉ q := by
  rw [push, bound] at h
  have hmem := mem_of_mem_drop h
  by_cases hy : y ∈ q
  · rw [if_pos hy] at hmem
    exact .inl hmem
  · rw [if_neg hy] at hmem
    rcases mem_append.mp hmem with hq | hnew
    · exact .inl hq
    · exact .inr ⟨mem_singleton.mp hnew, hy⟩

theorem mem_push_self (hcap : 0 < cap) (hlen : q.length ≤ cap) (x : α) : x ∈ push cap q x := by
  by_cases hx : x ∈ q
  · rw [push_of_mem hlen hx]
    exact hx
  · rw [push, if_neg hx, bound, drop_append_of_le_length]
    · exact mem_append_right _ (mem_singleton_self _)
    · rw [length_append, length_singleton]
      omega

theorem push_full (hlen : (x :: q).length = cap) (hy : y ∉ x :: q) :
    push cap (x :: q) y = q ++ [y] := by
  have hone : (x :: q ++ [y]).length - cap = 1 := by
    rw [length_append, length_singleton]
    omega
  rw [push, if_neg hy, bound, hone]
  rfl

theorem Behind.mem (h : Behind q x xs) : x ∈ q := by
  obtain ⟨before, behind, rfl, -⟩ := h
  exact mem_append_right _ mem_cons_self

theorem Behind.mono {ys : List α} (h : Behind q x xs) (hsub : ∀ y ∈ xs, y ∈ ys) :
    Behind q x ys := by
  obtain ⟨before, behind, hq, hbehind⟩ := h
  exact ⟨before, behind, hq, fun y hy => hsub y (hbehind y hy)⟩

theorem Behind.filter {p : α → Bool} (h : Behind q x xs) (hx : p x = true) :
    Behind (q.filter p) x xs := by
  obtain ⟨before, behind, rfl, hbehind⟩ := h
  refine ⟨before.filter p, behind.filter p, ?_, fun y hy => hbehind y (mem_filter.mp hy).1⟩
  rw [filter_append, filter_cons_of_pos hx]

/-- Some elements of a list without repetition that are not `x` are no more than its others. -/
theorem length_le_others {ys : List α} (hnodup : ys.Nodup) (hx : x ∉ ys)
    (hsub : ∀ y ∈ ys, y ∈ xs) : ys.length ≤ (others x xs).length := by
  refine (subperm_of_subset hnodup fun y hy => ?_).length_le
  rw [others, mem_dedup, mem_filter, decide_eq_true_eq]
  exact ⟨hsub y hy, fun heq => hx (heq ▸ hy)⟩

theorem length_others_append_le (x : α) (xs ys : List α) :
    (others x xs).length ≤ (others x (xs ++ ys)).length := by
  refine length_le_others (nodup_dedup _) ?_ fun y hy => ?_
  · intro hx
    have hne := (mem_filter.mp (mem_dedup.mp hx)).2
    exact of_decide_eq_true hne rfl
  · exact mem_append_left _ (mem_filter.mp (mem_dedup.mp hy)).1

/-- An element stays as long as fewer others than the bound have been put in behind it. -/
theorem Behind.push (h : Behind q x xs) (hnodup : q.Nodup) (hlen : q.length ≤ cap) (y : α)
    (hfew : (others x (xs ++ [y])).length < cap) : Behind (push cap q y) x (xs ++ [y]) := by
  have hmono : Behind q x (xs ++ [y]) := h.mono fun z hz => mem_append_left _ hz
  by_cases hy : y ∈ q
  · rw [push_of_mem hlen hy]
    exact hmono
  rw [Fifo.push, if_neg hy, bound]
  obtain ⟨before, behind, rfl, hbehind⟩ := h
  -- the elements behind `x` and `y` are different, and so they are few
  have hall : ∀ z ∈ behind ++ [y], z ∈ xs ++ [y] := by
    intro z hz
    rcases mem_append.mp hz with hz | hz
    · exact mem_append_left _ (hbehind z hz)
    · exact mem_append_right _ hz
  have hsplit := nodup_append.mp hnodup
  have hcons := nodup_cons.mp hsplit.2.1
  have hnew : (behind ++ [y]).Nodup := by
    refine nodup_append.mpr ⟨hcons.2, nodup_singleton _, fun a ha b hb heq => ?_⟩
    rw [mem_singleton.mp hb] at heq
    exact hy (heq ▸ mem_append_right _ (mem_cons_of_mem _ ha))
  have hx : x ∉ behind ++ [y] := by
    intro hx
    rcases mem_append.mp hx with hx | hx
    · exact hcons.1 hx
    · rw [mem_singleton.mp hx] at hy
      exact hy (mem_append_right _ mem_cons_self)
  have hle := length_le_others hnew hx hall
  refine ⟨before.drop ((before ++ x :: behind ++ [y]).length - cap), behind ++ [y], ?_, hall⟩
  rw [append_assoc, cons_append, drop_append_of_le_length]
  simp only [length_append, length_cons, length_nil] at hle hlen ⊢
  omega

theorem behind_push (hcap : 0 < cap) (hx : x ∉ q) : Behind (push cap q x) x [] := by
  rw [push, if_neg hx, bound]
  refine ⟨q.drop ((q ++ [x]).length - cap), [], ?_, fun y hy => absurd hy not_mem_nil⟩
  rw [drop_append_of_le_length]
  rw [length_append, length_singleton]
  omega

/-- Different elements that find room are put in one behind the other. -/
theorem foldl_push (hnodup : (q ++ xs).Nodup) (hlen : (q ++ xs).length ≤ cap) :
    xs.foldl (push cap) q = q ++ xs := by
  induction xs generalizing q with
  | nil => rw [foldl_nil, append_nil]
  | cons x xs ih =>
    have hx : x ∉ q := fun hx =>
      (nodup_append.mp hnodup).2.2 x hx x mem_cons_self rfl
    have hpush : push cap q x = q ++ [x] := by
      rw [push, if_neg hx, bound_of_le]
      rw [length_append] at hlen ⊢
      rw [length_cons] at hlen
      rw [length_singleton]
      omega
    have happend : q ++ x :: xs = q ++ [x] ++ xs := by simp
    rw [foldl_cons, hpush, happend]
    exact ih (happend ▸ hnodup) (happend ▸ hlen)

end Workbay.Fifo

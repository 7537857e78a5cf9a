import Mathlib.Data.List.Chain
import Mathlib.Data.List.Induction
import Mathlib.Data.List.Perm.Subperm
import Workbay.Graph.Visit

/-!
# Chains

The longest chain from a vertex, for any relation. In a graph without cycles a chain has every vertex
once, and the longest one is found from those of the successors.
-/

namespace Workbay.Graph

open Relation List

variable {α : Type} {R : α → α → Prop}

/-- The longest chain from a vertex has `n` edges. -/
def LongestFrom (R : α → α → Prop) (x : α) (n : Nat) : Prop :=
  (∃ p, (x :: p).IsChain R ∧ p.length = n) ∧ ∀ p, (x :: p).IsChain R → p.length ≤ n

variable {x : α} {n : Nat} {p : List α}

theorem LongestFrom.lt {y : α} {m : Nat} (h : LongestFrom R x m) (h' : LongestFrom R y n)
    (hxy : R x y) : n < m := by
  obtain ⟨⟨p, hp, rfl⟩, -⟩ := h'
  exact h.2 (y :: p) (isChain_cons_cons.mpr ⟨hxy, hp⟩)

/-- The longest chain of a vertex from those of its successors. -/
theorem longestFrom_of_succ {f : α → Nat} (hsucc : ∀ y, R x y → LongestFrom R y (f y))
    (hle : ∀ y, R x y → f y + 1 ≤ n) (hex : n = 0 ∨ ∃ y, R x y ∧ n = f y + 1) :
    LongestFrom R x n := by
  constructor
  · rcases hex with rfl | ⟨y, hxy, rfl⟩
    · exact ⟨[], isChain_singleton x, rfl⟩
    · obtain ⟨⟨p, hp, hlen⟩, -⟩ := hsucc y hxy
      exact ⟨y :: p, isChain_cons_cons.mpr ⟨hxy, hp⟩, by rw [length_cons, hlen]⟩
  · intro p hp
    cases p with
    | nil => exact Nat.zero_le n
    | cons y p =>
      obtain ⟨hxy, hp⟩ := isChain_cons_cons.mp hp
      have hlen := (hsucc y hxy).2 p hp
      have hn := hle y hxy
      rw [length_cons]
      omega

theorem transGen_of_isChain (h : (x :: p).IsChain R) : ∀ y ∈ p, TransGen R x y := by
  induction p generalizing x with
  | nil => exact fun _ hy => (by cases hy)
  | cons z p ih =>
    obtain ⟨hxz, hp⟩ := isChain_cons_cons.mp h
    intro y hy
    rcases mem_cons.mp hy with rfl | hy
    · exact TransGen.single hxz
    · exact TransGen.head hxz (ih hp y hy)

theorem nodup_of_isChain (hacyclic : ∀ x, ¬ TransGen R x x) (h : p.IsChain R) : p.Nodup := by
  induction p with
  | nil => exact nodup_nil
  | cons x p ih =>
    refine nodup_cons.mpr ⟨fun hx => hacyclic x (transGen_of_isChain h x hx), ih ?_⟩
    exact h.tail

theorem length_le_of_isChain (hacyclic : ∀ x, ¬ TransGen R x x) {vertices : List α}
    (h : p.IsChain R) (hsub : ∀ x ∈ p, x ∈ vertices) : p.length ≤ vertices.length :=
  (List.Nodup.subperm (nodup_of_isChain hacyclic h) hsub).length_le

/-- What a vertex has when all its successors have it, every vertex has, if there is no cycle. -/
theorem Acyclic.induction {next : α → List α} {vertices : List α} (hacyclic : Acyclic next)
    (hclosed : ∀ x ∈ vertices, ∀ y ∈ next x, y ∈ vertices) {P : α → Prop}
    (hstep : ∀ x ∈ vertices, (∀ y ∈ next x, P y) → P x) : ∀ x ∈ vertices, P x := by
  by_contra hnot
  -- a vertex that has it not starts chains of any length
  have hchains : ∀ (n : Nat), ∀ x ∈ vertices, ¬ P x →
      ∃ p, (x :: p).IsChain (Step next) ∧ p.length = n ∧ ∀ y ∈ x :: p, y ∈ vertices := by
    intro n
    induction n with
    | zero =>
      intro x hx _
      exact ⟨[], isChain_singleton x, rfl, by simpa using hx⟩
    | succ n ih =>
      intro x hx hxP
      obtain ⟨y, hy, hyP⟩ : ∃ y ∈ next x, ¬ P y := by
        by_contra hall
        push Not at hall
        exact hxP (hstep x hx hall)
      obtain ⟨p, hp, hlen, hsub⟩ := ih y (hclosed x hx y hy) hyP
      refine ⟨y :: p, isChain_cons_cons.mpr ⟨hy, hp⟩, by rw [length_cons, hlen],
        fun z hz => ?_⟩
      rcases mem_cons.mp hz with rfl | hz
      · exact hx
      · exact hsub z hz
  push Not at hnot
  obtain ⟨x, hx, hxP⟩ := hnot
  obtain ⟨p, hp, hlen, hsub⟩ := hchains vertices.length x hx hxP
  have hle := length_le_of_isChain hacyclic hp hsub
  rw [length_cons] at hle
  omega

/-- What both ends of every step have, all of a chain has that has a vertex with it. -/
theorem forall_of_isChain {Q : α → Prop} (hstep : ∀ a b, R a b → Q a ∧ Q b) (h : p.IsChain R)
    (hx : x ∈ p) (hQ : Q x) : ∀ y ∈ p, Q y := by
  induction p generalizing x with
  | nil => cases hx
  | cons a p ih =>
    cases p with
    | nil =>
      obtain rfl := mem_singleton.mp hx
      intro y hy
      obtain rfl := mem_singleton.mp hy
      exact hQ
    | cons b p =>
      obtain ⟨hab, hp⟩ := isChain_cons_cons.mp h
      obtain ⟨ha, hb⟩ := hstep a b hab
      intro y hy
      rcases mem_cons.mp hy with rfl | hy
      · exact ha
      · exact ih hp mem_cons_self hb y hy

/-- The longest chain through a vertex goes on from it as far as can be, and comes to it from as far. -/
theorem longest_through {m : Nat} (hdown : LongestFrom R x m)
    (hup : LongestFrom (fun a b => R b a) x n) :
    (∃ p : List α, p.IsChain R ∧ x ∈ p ∧ p.length = n + m + 1) ∧
      ∀ p : List α, p.IsChain R → x ∈ p → p.length ≤ n + m + 1 := by
  have hreverse : ∀ q : List α, (q.reverse ++ [x]).IsChain R ↔ (x :: q).IsChain fun a b => R b a := by
    intro q
    rw [← reverse_cons, isChain_reverse]
  constructor
  · obtain ⟨⟨p, hp, rfl⟩, -⟩ := hdown
    obtain ⟨⟨q, hq, rfl⟩, -⟩ := hup
    refine ⟨q.reverse ++ x :: p, isChain_split.mpr ⟨(hreverse q).mpr hq, hp⟩,
      mem_append_right _ mem_cons_self, ?_⟩
    rw [length_append, length_reverse, length_cons]
    omega
  · intro p hp hx
    obtain ⟨before, after, rfl⟩ := append_of_mem hx
    obtain ⟨hbefore, hafter⟩ := isChain_split.mp hp
    have hle := hdown.2 after hafter
    have hle' := hup.2 before.reverse ((hreverse before.reverse).mp (by simpa using hbefore))
    rw [length_reverse] at hle'
    rw [length_append, length_cons]
    omega

/-! ## The longest of some lengths -/

theorem foldl_max_spec (l : List Nat) (a : Nat) :
    a ≤ l.foldl max a ∧ (∀ n ∈ l, n ≤ l.foldl max a) ∧ (l.foldl max a = a ∨ l.foldl max a ∈ l) := by
  induction l generalizing a with
  | nil => exact ⟨Nat.le_refl a, fun _ hn => (by cases hn), .inl rfl⟩
  | cons b l ih =>
    obtain ⟨hle, hall, hin⟩ := ih (max a b)
    rw [foldl_cons]
    refine ⟨(Nat.le_max_left a b).trans hle, fun n hn => ?_, ?_⟩
    · rcases mem_cons.mp hn with rfl | hn
      · exact (Nat.le_max_right a n).trans hle
      · exact hall n hn
    · rcases hin with heq | hin
      · rcases Nat.le_total b a with hba | hab
        · exact .inl (heq.trans (Nat.max_eq_left hba))
        · exact .inr (by rw [heq, Nat.max_eq_right hab]; exact mem_cons_self)
      · exact .inr (mem_cons_of_mem b hin)

theorem longestFrom_foldl_max {next : α → List α} {f : α → Nat}
    (hsucc : ∀ y ∈ next x, LongestFrom (Step next) y (f y)) :
    LongestFrom (Step next) x (((next x).map fun y => f y + 1).foldl max 0) := by
  obtain ⟨-, hall, hin⟩ := foldl_max_spec ((next x).map fun y => f y + 1) 0
  refine longestFrom_of_succ hsucc (fun y hy => hall _ (mem_map_of_mem hy)) ?_
  rcases hin with heq | hin
  · exact .inl heq
  · obtain ⟨y, hy, heq⟩ := mem_map.mp hin
    exact .inr ⟨y, hy, heq.symm⟩

/-! ## Values found in an order -/

/-- Every vertex comes after its successors. -/
def AfterSuccessors (next : α → List α) (order : List α) : Prop :=
  ∀ front x back, order = front ++ x :: back → ∀ y ∈ next x, y ∈ front

theorem AfterSuccessors.init {next : α → List α} {order : List α} {z : α}
    (h : AfterSuccessors next (order ++ [z])) : AfterSuccessors next order := by
  intro front x back heq y hy
  exact h front x (back ++ [z]) (by rw [heq, append_assoc, cons_append]) y hy

/-- In the order turned round every vertex comes after its predecessors. -/
theorem AfterSuccessors.reverse {next prev : α → List α} {order : List α}
    (h : AfterSuccessors next order) (hnodup : order.Nodup)
    (hprev : ∀ x, ∀ y ∈ prev x, y ∈ order ∧ x ∈ next y) : AfterSuccessors prev order.reverse := by
  intro front x back heq y hy
  have horder : order = back.reverse ++ x :: front.reverse := by
    rw [← reverse_reverse order, heq, reverse_append, reverse_cons,
      append_assoc, singleton_append]
  obtain ⟨hmem, hnext⟩ := hprev x y hy
  -- a predecessor that stood before would have its successor before it
  have hbefore : ∀ front' back', order = front' ++ y :: back' → x ∈ front' :=
    fun front' back' heq' => h front' y back' heq' x hnext
  have hdisjoint := hnodup
  rw [horder] at hmem hdisjoint
  obtain ⟨-, htail, hdisjoint⟩ := nodup_append.mp hdisjoint
  rcases mem_append.mp hmem with hin | hin
  · obtain ⟨front', back', hsplit⟩ := append_of_mem hin
    have hx := hbefore front' (back' ++ x :: front.reverse)
      (by rw [horder, hsplit, append_assoc, cons_append])
    exact absurd rfl (hdisjoint x (hsplit ▸ mem_append_left _ hx) x mem_cons_self)
  · rcases mem_cons.mp hin with rfl | hin
    · obtain hx := hbefore _ _ horder
      exact absurd rfl (hdisjoint y hx y mem_cons_self)
    · exact mem_reverse.mp hin

section

variable [DecidableEq α] {β : Type} {value : Dict α β → α → β}

/-- Every vertex gets a value that is found from the values before it. -/
def tabulate (value : Dict α β → α → β) (order : List α) : Dict α β :=
  order.foldl (fun table x => table.set x (value table x)) []

theorem tabulate_concat (value : Dict α β → α → β) (order : List α) (x : α) :
    tabulate value (order ++ [x]) =
      Dict.set (tabulate value order) x (value (tabulate value order) x) := by
  unfold tabulate
  rw [foldl_append]
  rfl

theorem map_fst_tabulate {order : List α} (hnodup : order.Nodup) :
    (tabulate value order).map Prod.fst = order := by
  induction order using reverseRecOn with
  | nil => rfl
  | append_singleton order x ih =>
    obtain ⟨horder, -, hdisjoint⟩ := nodup_append.mp hnodup
    have hkeys := ih horder
    have hnone : Dict.get? (tabulate value order) x = none := by
      rw [Dict.get?_eq_none_iff, hkeys]
      exact fun hx => hdisjoint x hx x (mem_singleton_self x) rfl
    rw [tabulate_concat, Dict.set_of_get?_eq_none hnone, map_append, hkeys]
    rfl

/-- What holds of the value of a vertex when it holds of those of its successors, holds of all values. -/
theorem tabulate_forall {next : α → List α} {order : List α} {P : α → β → Prop}
    (hafter : AfterSuccessors next order) (hnodup : order.Nodup)
    (hvalue : ∀ table, ∀ x ∈ order, (∀ y ∈ next x, ∃ b, table.get? y = some b ∧ P y b) →
      P x (value table x)) :
    ∀ x ∈ order, ∃ b, Dict.get? (tabulate value order) x = some b ∧ P x b := by
  induction order using reverseRecOn with
  | nil => exact fun _ hx => (by cases hx)
  | append_singleton order z ih =>
    obtain ⟨horder, -, hdisjoint⟩ := nodup_append.mp hnodup
    have hbefore := ih hafter.init horder fun table x hx =>
      hvalue table x (mem_append_left _ hx)
    intro x hx
    rw [tabulate_concat]
    rcases mem_append.mp hx with hx | hx
    · have hne : x ≠ z := fun heq => hdisjoint x hx z (mem_singleton_self z) heq
      rw [Dict.get?_set_of_ne _ _ hne]
      exact hbefore x hx
    · obtain rfl := mem_singleton.mp hx
      exact ⟨_, Dict.get?_set_self _ _ _, hvalue _ x (mem_append_right _ hx)
        fun y hy => hbefore y (hafter order x [] rfl y hy)⟩

end

end Workbay.Graph

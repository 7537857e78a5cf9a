import Mathlib.Logic.Relation
import Mathlib.Data.Set.Basic

/-!
# Bypassing vertices

A relation without the vertices of a set, where every path through the set is replaced by a step.
Between the vertices that stay nothing changes but the steps from a vertex to itself, and bypassing
two sets one after the other is bypassing them together.
-/

namespace Workbay.Graph

open Relation

variable {α : Type} {R : α → α → Prop} {D : α → Prop}

/-- A path whose vertices between its ends are in `D`. -/
inductive Through (R : α → α → Prop) (D : α → Prop) (x : α) : α → Prop where
  | single {y : α} (h : R x y) : Through R D x y
  | tail {t y : α} (h : Through R D x t) (ht : D t) (hstep : R t y) : Through R D x y

/-- A step between two different vertices that stay, through vertices that do not. -/
def Bypass (R : α → α → Prop) (D : α → Prop) (x y : α) : Prop :=
  ¬ D x ∧ ¬ D y ∧ x ≠ y ∧ Through R D x y

variable {x y : α}

theorem Through.transGen (h : Through R D x y) : TransGen R x y := by
  induction h with
  | single h => exact TransGen.single h
  | tail _ _ hstep ih => exact ih.tail hstep

/-- A path through `D` can be continued by one that starts in `D`. -/
theorem Through.trans {t : α} (h : Through R D x t) (ht : D t) (h' : Through R D t y) :
    Through R D x y := by
  induction h' with
  | single hstep => exact h.tail ht hstep
  | tail _ hu hstep ih => exact ih.tail hu hstep

theorem Through.mono {E : α → Prop} (hDE : ∀ t, D t → E t) (h : Through R D x y) :
    Through R E x y := by
  induction h with
  | single h => exact .single h
  | tail _ ht hstep ih => exact ih.tail (hDE _ ht) hstep

theorem Bypass.transGen (h : Bypass R D x y) : TransGen R x y := h.2.2.2.transGen

theorem reflTransGen_of_bypass (h : ReflTransGen (Bypass R D) x y) : ReflTransGen R x y := by
  induction h with
  | refl => exact ReflTransGen.refl
  | tail _ hstep ih => exact ih.trans hstep.transGen.to_reflTransGen

/-- A path from a vertex that stays has left the set, or is inside it since a vertex that stays. -/
theorem exists_bypass_of_reflTransGen (hx : ¬ D x) (h : ReflTransGen R x y) :
    ∃ z, ¬ D z ∧ ReflTransGen (Bypass R D) x z ∧ (z = y ∨ D y ∧ Through R D z y) := by
  induction h with
  | refl => exact ⟨x, hx, ReflTransGen.refl, .inl rfl⟩
  | @tail y w _ hstep ih =>
    obtain ⟨z, hz, hpath, hlast⟩ := ih
    have hthrough : Through R D z w := by
      rcases hlast with rfl | ⟨hy, hlast⟩
      · exact .single hstep
      · exact hlast.tail hy hstep
    by_cases hw : D w
    · exact ⟨z, hz, hpath, .inr ⟨hw, hthrough⟩⟩
    · by_cases hzw : z = w
      · exact ⟨z, hz, hpath, .inl hzw⟩
      · exact ⟨w, hw, hpath.tail ⟨hz, hw, hzw, hthrough⟩, .inl rfl⟩

theorem reflTransGen_bypass_iff (hx : ¬ D x) (hy : ¬ D y) :
    ReflTransGen (Bypass R D) x y ↔ ReflTransGen R x y := by
  refine ⟨reflTransGen_of_bypass, fun h => ?_⟩
  obtain ⟨z, -, hpath, hlast⟩ := exists_bypass_of_reflTransGen hx h
  rcases hlast with rfl | ⟨hin, -⟩
  · exact hpath
  · exact absurd hin hy

/-- A path through both sets is a path through the second one, where the first one is bypassed. -/
theorem exists_through_bypass {A B : α → Prop} (hx : ¬ A x) (h : Through R (fun t => A t ∨ B t) x y) :
    ∃ z, ¬ A z ∧ (z = x ∨ B z ∧ Through (Bypass R A) B x z) ∧ (z = y ∨ Through R A z y) := by
  induction h with
  | single h => exact ⟨x, hx, .inl rfl, .inr (.single h)⟩
  | @tail t y _ ht hstep ih =>
    obtain ⟨z, hz, hfirst, hlast⟩ := ih
    by_cases hA : A t
    · refine ⟨z, hz, hfirst, .inr ?_⟩
      rcases hlast with rfl | hlast
      · exact absurd hA hz
      · exact hlast.tail hA hstep
    · -- the path is outside the first set at `t`, which is in the second one
      have hB : B t := ht.resolve_left hA
      refine ⟨t, hA, ?_, .inr (.single hstep)⟩
      by_cases hzt : z = t
      · subst hzt
        exact hfirst
      · have hbypass : Bypass R A z t := ⟨hz, hA, hzt, hlast.resolve_left hzt⟩
        rcases hfirst with rfl | ⟨hzB, hfirst⟩
        · exact .inr ⟨hB, .single hbypass⟩
        · exact .inr ⟨hB, hfirst.tail hzB hbypass⟩

/-- Bypassing one set and then another one is bypassing both. -/
theorem bypass_bypass_iff {A B : α → Prop} :
    Bypass (Bypass R A) B x y ↔ Bypass R (fun t => A t ∨ B t) x y := by
  constructor
  · rintro ⟨hxB, hyB, hne, hpath⟩
    have houtside : ∀ z, Through (Bypass R A) B x z →
        ¬ A x ∧ ¬ A z ∧ Through R (fun t => A t ∨ B t) x z := by
      intro z hz
      induction hz with
      | single h => exact ⟨h.1, h.2.1, h.2.2.2.mono fun _ => .inl⟩
      | tail _ ht hstep ih =>
        obtain ⟨hxA, -, hthrough⟩ := ih
        exact ⟨hxA, hstep.2.1, hthrough.trans (.inr ht) (hstep.2.2.2.mono fun _ => .inl)⟩
    obtain ⟨hxA, hyA, hthrough⟩ := houtside y hpath
    exact ⟨not_or.mpr ⟨hxA, hxB⟩, not_or.mpr ⟨hyA, hyB⟩, hne, hthrough⟩
  · rintro ⟨hx, hy, hne, hpath⟩
    obtain ⟨hxA, hxB⟩ := not_or.mp hx
    obtain ⟨hyA, hyB⟩ := not_or.mp hy
    obtain ⟨z, hz, hfirst, hlast⟩ := exists_through_bypass hxA hpath
    refine ⟨hxB, hyB, hne, ?_⟩
    rcases hfirst with rfl | ⟨hzB, hfirst⟩
    · exact .single ⟨hz, hyA, hne, hlast.resolve_left hne⟩
    · have hzy : z ≠ y := fun heq => hyB (heq ▸ hzB)
      exact hfirst.tail hzB ⟨hz, hyA, hzy, hlast.resolve_left hzy⟩

end Workbay.Graph

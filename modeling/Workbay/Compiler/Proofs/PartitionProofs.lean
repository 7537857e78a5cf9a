import Mathlib.Data.List.Perm.Subperm
import Workbay.Compiler.Partition
import Workbay.Compiler.Proofs.MergeProofs

/-!
# Proofs: the partition of conflicts

First-fit colours differ on every edge, however the lanes are ordered. A clique has as many colours
as lanes, and no lane has a colour greater than its degree.
-/

namespace Workbay.Compiler

open Workbay.Manifest List

variable {edges : List (String × String)} {a b lane : String}

theorem mem_neighbours : b ∈ neighbours edges a ↔ (a, b) ∈ edges ∨ (b, a) ∈ edges := by
  unfold neighbours
  rw [mem_dedup, mem_filterMap]
  constructor
  · rintro ⟨⟨x, y⟩, hin, heq⟩
    simp only at heq
    split at heq
    · rename_i hx
      obtain rfl := Option.some.inj heq
      exact .inl (hx ▸ hin)
    · split at heq
      · rename_i hy
        obtain rfl := Option.some.inj heq
        exact .inr (hy ▸ hin)
      · cases heq
  · rintro (hin | hin)
    · exact ⟨(a, b), hin, by simp⟩
    · refine ⟨(b, a), hin, ?_⟩
      by_cases heq : b = a <;> simp [heq]

theorem neighbours_symm (h : b ∈ neighbours edges a) : a ∈ neighbours edges b :=
  mem_neighbours.mpr (mem_neighbours.mp h).symm

theorem firstFree_spec (forbidden : List Nat) :
    firstFree forbidden ∉ forbidden ∧ firstFree forbidden ≤ forbidden.length := by
  unfold firstFree
  cases hfind : (List.range (forbidden.length + 1)).find? (· ∉ forbidden) with
  | some colour =>
    have hin := mem_range.mp (mem_of_find?_eq_some hfind)
    have hfree := find?_some hfind
    exact ⟨of_decide_eq_true hfree, Nat.le_of_lt_succ hin⟩
  | none =>
    -- there are more colours than forbidden ones
    rw [find?_eq_none] at hfind
    have hsubset : List.range (forbidden.length + 1) ⊆ forbidden := by
      intro colour hin
      have hnot := hfind colour hin
      rwa [decide_eq_true_eq, not_not] at hnot
    have hlength := (nodup_range.subperm hsubset).length_le
    rw [length_range] at hlength
    omega

/-- What is known of the colours of the lanes that have been seen. -/
structure Coloured (edges : List (String × String)) (seen : List String)
    (colours : Dict String Nat) : Prop where
  nodup : (colours.map Prod.fst).Nodup
  keys : ∀ lane, (colours.get? lane).isSome ↔ lane ∈ seen
  low : ∀ {lane colour}, colours.get? lane = some colour → colour ≤ degree edges lane
  proper : ∀ {a b colour}, colours.get? a = some colour → colours.get? b = some colour →
    b ∉ neighbours edges a

variable {seen : List String} {colours : Dict String Nat}

/-- One more lane gets the least colour that its neighbours do not have. -/
theorem Coloured.step (hloop : ∀ lane, lane ∉ neighbours edges lane)
    (h : Coloured edges seen colours) (lane : String) : Coloured edges (seen ++ [lane]) (colours.set lane
      (firstFree ((neighbours edges lane).filterMap (Dict.get? colours)))) := by
  obtain ⟨hfree, hle⟩ := firstFree_spec ((neighbours edges lane).filterMap (Dict.get? colours))
  have hother : ∀ {x colour}, colours.get? x = some colour →
      x ∈ neighbours edges lane →
      colour ≠ firstFree ((neighbours edges lane).filterMap (Dict.get? colours)) := by
    rintro x colour hx hin rfl
    exact hfree (mem_filterMap.mpr ⟨x, hin, hx⟩)
  constructor
  · exact Dict.nodup_set h.nodup _ _
  · intro x
    rw [Dict.get?_set, mem_append, mem_singleton, ← h.keys]
    by_cases heq : lane = x
    · simp [heq]
    · simp [Ne.symm heq]
  · intro x colour hx
    rw [Dict.get?_set] at hx
    split at hx
    · rename_i heq
      obtain rfl := Option.some.inj hx
      rw [heq]
      exact hle.trans (length_filterMap_le _ _)
    · exact h.low hx
  · intro x y colour hx hy hin
    rw [Dict.get?_set] at hx hy
    by_cases hxLane : x = lane
    · subst hxLane
      by_cases hyLane : y = x
      · subst hyLane
        exact hloop y hin
      · rw [if_pos rfl] at hx
        rw [if_neg hyLane] at hy
        exact hother hy hin (Option.some.inj hx).symm
    · rw [if_neg hxLane] at hx
      by_cases hyLane : y = lane
      · subst hyLane
        rw [if_pos rfl] at hy
        exact hother hx (neighbours_symm hin) (Option.some.inj hy).symm
      · rw [if_neg hyLane] at hy
        exact h.proper hx hy hin

end Workbay.Compiler

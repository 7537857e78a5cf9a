import Mathlib.Data.List.Basic

/-!
# Lists that grow at the end

A property that relates each element of a list to the elements before it is not touched by what is
appended later: it holds of a longer list exactly if it held of the shorter one and holds of the new
element.
-/

namespace Workbay

open List

variable {α : Type}

/-- Each element of a list is related to the list of the elements before it. -/
def EachAfter (P : List α → α → Prop) (xs : List α) : Prop :=
  ∀ before x after, xs = before ++ x :: after → P before x

namespace EachAfter

variable {P : List α → α → Prop} {xs : List α}

theorem nil : EachAfter P [] := by
  intro before x after heq
  simp at heq

theorem append_iff {x : α} : EachAfter P (xs ++ [x]) ↔ EachAfter P xs ∧ P xs x := by
  constructor
  · intro h
    refine ⟨fun before y after heq => h before y (after ++ [x]) ?_, h xs x [] rfl⟩
    rw [heq, append_assoc, cons_append]
  · rintro ⟨h, hx⟩ before y after heq
    rcases append_eq_append_iff.mp heq with ⟨mid, hbefore, hmid⟩ | ⟨mid, hxs, hmid⟩
    · cases mid with
      | nil =>
        obtain ⟨rfl, rfl⟩ := cons.inj hmid
        rwa [hbefore, append_nil]
      | cons z zs => simp at hmid
    · cases mid with
      | nil =>
        obtain ⟨rfl, rfl⟩ := cons.inj hmid
        rw [append_nil] at hxs
        rwa [← hxs]
      | cons z zs =>
        obtain ⟨rfl, rfl⟩ := cons.inj hmid
        exact h before y zs hxs

theorem filter {p : α → Bool} (h : EachAfter P xs) {before after : List α} {x : α}
    (heq : xs.filter p = before ++ x :: after) :
    ∃ earlier, P earlier x ∧ earlier.filter p = before := by
  obtain ⟨first, second, rfl, hfirst, hsecond⟩ := filter_eq_append_iff.mp heq
  obtain ⟨skipped, rest, rfl, hskipped, -, -⟩ := filter_eq_cons_iff.mp hsecond
  refine ⟨first ++ skipped, h (first ++ skipped) x rest (by rw [append_assoc]), ?_⟩
  have hnone : skipped.filter p = [] := filter_eq_nil_iff.mpr hskipped
  rw [filter_append, hfirst, hnone, append_nil]

end EachAfter

end Workbay

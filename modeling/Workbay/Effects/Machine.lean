import Mathlib.Data.List.Basic

/-!
# Machines

A machine takes one input at a time: every input changes the state and is answered. This is a
component whose every call is one atomic transaction, seen from its callers.
-/

namespace Workbay.Effects

/-- What one input does to the state, and the answer to it. -/
structure Machine (σ ι ω : Type) where
  step : σ → ι → σ × ω

namespace Machine

variable {σ ι ω : Type} (M : Machine σ ι ω)

/-- The state after one input. -/
def next (s : σ) (i : ι) : σ := (M.step s i).1

/-- The answer to one input. -/
def answer (s : σ) (i : ι) : ω := (M.step s i).2

/-- The state after a list of inputs. -/
def run (s : σ) (is : List ι) : σ := is.foldl M.next s

/-- Every input of a list is of a kind `P` in the state that it meets. -/
def Along (M : Machine σ ι ω) (P : σ → ι → Prop) : σ → List ι → Prop
  | _, [] => True
  | s, i :: is => P s i ∧ M.Along P (M.next s i) is

/-- Some list of inputs leads from `s₀` to `s`. -/
def Reachable (s₀ s : σ) : Prop := ∃ is, M.run s₀ is = s

variable {M}

@[simp] theorem run_nil (s : σ) : M.run s [] = s := rfl

@[simp] theorem run_cons (s : σ) (i : ι) (is : List ι) :
    M.run s (i :: is) = M.run (M.next s i) is := rfl

theorem run_append (s : σ) (is js : List ι) : M.run s (is ++ js) = M.run (M.run s is) js := by
  unfold run
  exact List.foldl_append

variable {s : σ} {P : σ → ι → Prop} {is : List ι}

theorem run_invariant {P : σ → Prop} (hstep : ∀ s i, P s → P (M.next s i)) (hs : P s) (is : List ι) :
    P (M.run s is) := by
  induction is generalizing s with
  | nil => exact hs
  | cons i is ih => exact ih (hstep s i hs)

theorem along_append {js : List ι} :
    M.Along P s (is ++ js) ↔ M.Along P s is ∧ M.Along P (M.run s is) js := by
  induction is generalizing s with
  | nil => simp [Along]
  | cons i is ih => rw [List.cons_append, Along, Along, run_cons, ih, and_assoc]

/-- A run is along inputs of a kind if each of them is of that kind where it is taken. -/
theorem along_iff :
    M.Along P s is ↔ ∀ before i after, is = before ++ i :: after → P (M.run s before) i := by
  constructor
  · intro h before i after heq
    rw [heq, along_append] at h
    exact h.2.1
  · intro h
    induction is generalizing s with
    | nil => trivial
    | cons i is ih =>
      refine ⟨h [] i is rfl, ih fun before j after heq => ?_⟩
      have hj := h (i :: before) j after (by rw [heq, List.cons_append])
      rwa [run_cons] at hj

theorem Along.invariant {Q : σ → Prop} (hstep : ∀ s i, Q s → P s i → Q (M.next s i))
    (h : M.Along P s is) (hs : Q s) : Q (M.run s is) := by
  induction is generalizing s with
  | nil => exact hs
  | cons i is ih => exact ih h.2 (hstep s i hs h.1)

/-- An invariant of the initial state holds in every reachable one. -/
theorem Reachable.invariant {P : σ → Prop} {s₀ : σ} (h : M.Reachable s₀ s) (h₀ : P s₀)
    (hstep : ∀ s i, P s → P (M.next s i)) : P s := by
  obtain ⟨is, rfl⟩ := h
  exact run_invariant hstep h₀ is

/-- A reflexive and transitive relation that relates the states around every input relates the
states around every run; the steps may use an invariant. -/
theorem run_related {P : σ → Prop} {R : σ → σ → Prop} (hrefl : ∀ s, R s s)
    (htrans : ∀ s t u, R s t → R t u → R s u) (hP : ∀ s i, P s → P (M.next s i))
    (hstep : ∀ s i, P s → R s (M.next s i)) (hs : P s) (is : List ι) : R s (M.run s is) := by
  induction is generalizing s with
  | nil => exact hrefl s
  | cons i is ih =>
    rw [run_cons]
    have hfirst : R s (M.next s i) := hstep s i hs
    have hrest : R (M.next s i) (M.run (M.next s i) is) := ih (hP s i hs)
    exact htrans _ _ _ hfirst hrest

end Machine

end Workbay.Effects

import Mathlib.Data.List.Basic
import Mathlib.Data.Nat.Basic

/-!
# Loops

A loop over a list whose body may go on, leave the loop or raise. The state is kept in each case,
also when the body raises.
-/

namespace Workbay.Effects

/-- How a turn of a loop ends. -/
inductive Turn (σ ε : Type) where
  | next (s : σ)
  | leave (s : σ)
  | raised (s : σ) (e : ε)

namespace Turn

variable {α σ ε : Type}

/-- The state that a turn leaves. -/
def state : Turn σ ε → σ
  | next s => s
  | leave s => s
  | raised s _ => s

@[simp] theorem state_next (s : σ) : (next s : Turn σ ε).state = s := rfl

@[simp] theorem state_leave (s : σ) : (leave s : Turn σ ε).state = s := rfl

@[simp] theorem state_raised (s : σ) (e : ε) : (raised s e).state = s := rfl

/-- A turn does not raise. -/
def IsCalm (t : Turn σ ε) : Prop := ∀ s e, t ≠ raised s e

theorem isCalm_next (s : σ) : (next s : Turn σ ε).IsCalm := fun _ _ h => by cases h

theorem isCalm_leave (s : σ) : (leave s : Turn σ ε).IsCalm := fun _ _ h => by cases h

/-- What comes after a loop that does not raise. -/
def andThen (t : Turn σ ε) (f : σ → Turn σ ε) : Turn σ ε :=
  match t with
  | next s => f s
  | leave s => f s
  | raised s e => raised s e

theorem IsCalm.andThen_eq {t : Turn σ ε} (h : t.IsCalm) (f : σ → Turn σ ε) :
    t.andThen f = f t.state := by
  cases t with
  | next s | leave s => rfl
  | raised s e => exact absurd rfl (h s e)

theorem andThen_induct {P : σ → Prop} {t : Turn σ ε} {f : σ → Turn σ ε} (ht : P t.state)
    (hf : ∀ s, P s → P (f s).state) : P (t.andThen f).state := by
  cases t with
  | next s | leave s => exact hf s ht
  | raised s e => exact ht

end Turn

variable {α σ ε : Type}

/-- A loop. -/
def loop (body : α → σ → Turn σ ε) : List α → σ → Turn σ ε
  | [], s => .next s
  | a :: rest, s =>
    match body a s with
    | .next s' => loop body rest s'
    | .leave s' => .leave s'
    | .raised s' e => .raised s' e

/-- What every turn keeps, the loop keeps. -/
theorem loop_induct {body : α → σ → Turn σ ε} {P : σ → Prop} {as : List α} {s : σ}
    (hbody : ∀ a ∈ as, ∀ s, P s → P (body a s).state) (hs : P s) : P (loop body as s).state := by
  induction as generalizing s with
  | nil => exact hs
  | cons a as ih =>
    have hfirst := hbody a List.mem_cons_self s hs
    rw [loop]
    cases hturn : body a s with
    | next s' =>
      rw [hturn] at hfirst
      exact ih (fun b hb => hbody b (List.mem_cons_of_mem _ hb)) hfirst
    | leave s' | raised s' e =>
      rw [hturn] at hfirst
      exact hfirst

/-- Turns that do not raise where an invariant holds make a loop that does not raise. -/
theorem loop_calm {body : α → σ → Turn σ ε} {P : σ → Prop} {as : List α} {s : σ}
    (hbody : ∀ a ∈ as, ∀ s, P s → (body a s).IsCalm ∧ P (body a s).state) (hs : P s) :
    (loop body as s).IsCalm := by
  induction as generalizing s with
  | nil => exact Turn.isCalm_next s
  | cons a as ih =>
    obtain ⟨hcalm, hfirst⟩ := hbody a List.mem_cons_self s hs
    rw [loop]
    cases hturn : body a s with
    | next s' =>
      rw [hturn] at hfirst
      exact ih (fun b hb => hbody b (List.mem_cons_of_mem _ hb)) hfirst
    | leave s' => exact Turn.isCalm_leave s'
    | raised s' e => exact absurd hturn (hcalm s' e)

end Workbay.Effects

/-!
## While loops

A loop that runs while a test holds, given a number of turns in which it has to end. It settles on a
result if the number does not matter from some number on.
-/

namespace Workbay.Effects

variable {σ α β : Type}

/-- A loop that runs while the test holds, if it has ended after so many turns. -/
def whileLoop (test : σ → Bool) (body : σ → σ) : Nat → σ → Option σ
  | 0, s => if test s then none else some s
  | fuel + 1, s => if test s then whileLoop test body fuel (body s) else some s

/-- With enough fuel, the result is `a`. -/
def Settles (run : Nat → Option α) (a : α) : Prop := ∃ n, ∀ fuel, n ≤ fuel → run fuel = some a

variable {run : Nat → Option α} {a : α}

theorem Settles.unique {b : α} (ha : Settles run a) (hb : Settles run b) : a = b := by
  obtain ⟨n, hn⟩ := ha
  obtain ⟨m, hm⟩ := hb
  have h := (hn (max n m) (le_max_left n m)).symm.trans (hm (max n m) (le_max_right n m))
  exact Option.some.inj h

theorem Settles.pure (a : α) : Settles (fun _ => some a) a := ⟨0, fun _ _ => rfl⟩

theorem Settles.bind {next : Nat → α → Option β} {b : β} (ha : Settles run a)
    (hb : Settles (fun fuel => next fuel a) b) :
    Settles (fun fuel => (run fuel).bind (next fuel)) b := by
  obtain ⟨n, hn⟩ := ha
  obtain ⟨m, hm⟩ := hb
  refine ⟨max n m, fun fuel hfuel => ?_⟩
  show (run fuel).bind (next fuel) = some b
  rw [hn fuel (le_trans (le_max_left n m) hfuel), Option.bind_some]
  exact hm fuel (le_trans (le_max_right n m) hfuel)

theorem Settles.map (f : α → β) (ha : Settles run a) :
    Settles (fun fuel => (run fuel).map f) (f a) := by
  obtain ⟨n, hn⟩ := ha
  refine ⟨n, fun fuel hfuel => ?_⟩
  show (run fuel).map f = some (f a)
  rw [hn fuel hfuel, Option.map_some]

section

variable (test : σ → Bool) (body : σ → σ)

/-- A loop whose turns lower a measure ends. -/
theorem whileLoop_settles (μ : σ → Nat) (hlt : ∀ s, test s = true → μ (body s) < μ s) (s : σ) :
    ∃ s', Settles (fun fuel => whileLoop test body fuel s) s' := by
  induction hμ : μ s using Nat.strong_induction_on generalizing s with
  | _ n ih =>
    by_cases htest : test s = true
    · obtain ⟨s', m, hm⟩ := ih (μ (body s)) (hμ ▸ hlt s htest) (body s) rfl
      refine ⟨s', m + 1, fun fuel hfuel => ?_⟩
      obtain ⟨k, rfl⟩ := Nat.exists_eq_add_of_le' hfuel
      show whileLoop test body (k + m + 1) s = some s'
      rw [whileLoop, if_pos htest]
      exact hm (k + m) (Nat.le_add_left m k)
    · refine ⟨s, 0, fun fuel _ => ?_⟩
      show whileLoop test body fuel s = some s
      cases fuel with
      | zero => rw [whileLoop, if_neg htest]
      | succ fuel => rw [whileLoop, if_neg htest]

theorem whileLoop_stays {s : σ} (h : test s = false) :
    Settles (fun fuel => whileLoop test body fuel s) s := by
  refine ⟨0, fun fuel _ => ?_⟩
  show whileLoop test body fuel s = some s
  cases fuel <;> simp [whileLoop, h]

/-- What every turn keeps holds where the loop ends, and the test fails there. -/
theorem whileLoop_induct (P : σ → Prop) (hbody : ∀ s, P s → test s = true → P (body s)) {fuel : Nat}
    {s s' : σ} (hs : P s) (h : whileLoop test body fuel s = some s') :
    P s' ∧ test s' = false := by
  induction fuel generalizing s with
  | zero =>
    rw [whileLoop] at h
    by_cases htest : test s = true
    · rw [if_pos htest] at h
      cases h
    · rw [if_neg htest] at h
      cases h
      exact ⟨hs, by simpa using htest⟩
  | succ fuel ih =>
    rw [whileLoop] at h
    by_cases htest : test s = true
    · rw [if_pos htest] at h
      exact ih (hbody s hs htest) h
    · rw [if_neg htest] at h
      cases h
      exact ⟨hs, by simpa using htest⟩

theorem Settles.ended {run : Nat → Option α} {a : α} (h : Settles run a) :
    ∃ fuel, run fuel = some a := by
  obtain ⟨n, hn⟩ := h
  exact ⟨n, hn n (le_refl n)⟩

end

end Workbay.Effects

import Mathlib.Data.List.Forall2

/-!
# Checks

A check passes or refuses. Checks run one after the other, and the first one that refuses decides.
-/

namespace Workbay

open List

variable {ε α : Type}

/-- Refuse unless a condition holds. -/
def require (condition : Prop) [Decidable condition] (refusal : ε) : Except ε Unit :=
  if condition then .ok () else .error refusal

/-- Check every element, in order. -/
def checkAll (f : α → Except ε Unit) : List α → Except ε Unit
  | [] => .ok ()
  | x :: xs => f x >>= fun _ => checkAll f xs

/-- Read every element, in order. -/
def readAll {β : Type} (f : α → Except ε β) : List α → Except ε (List β)
  | [] => .ok []
  | x :: xs =>
    match f x, readAll f xs with
    | .ok y, .ok ys => .ok (y :: ys)
    | .ok _, .error refusal => .error refusal
    | .error refusal, _ => .error refusal

variable (f : α → Except ε Unit)

/-- Check a value only if it is there. -/
def checkSome : Option α → Except ε Unit
  | none => .ok ()
  | some x => f x

attribute [grind] require checkAll readAll checkSome

@[simp] theorem require_eq_ok {condition : Prop} [Decidable condition] {refusal : ε} {u : Unit} :
    require condition refusal = .ok u ↔ condition := by
  unfold require
  split <;> simp_all

@[simp] theorem check_then_eq_ok {β : Type} {check : Except ε Unit} {f : Unit → Except ε β} {b : β} :
    (check >>= f) = .ok b ↔ check = .ok () ∧ f () = .ok b := by
  cases check with
  | error e => simp [Bind.bind, Except.bind]
  | ok u => simp [Bind.bind, Except.bind]

theorem bind_eq_ok {β : Type} {x : Except ε α} {f : α → Except ε β} {b : β} :
    (x >>= f) = .ok b ↔ ∃ a, x = .ok a ∧ f a = .ok b := by
  cases x with
  | error e => simp [Bind.bind, Except.bind]
  | ok a => simp [Bind.bind, Except.bind]

@[simp] theorem checkAll_eq_ok {f : α → Except ε Unit} {xs : List α} {u : Unit} :
    checkAll f xs = .ok u ↔ ∀ x ∈ xs, f x = .ok () := by
  induction xs with
  | nil => simp [checkAll]
  | cons x xs ih =>
    rw [checkAll, check_then_eq_ok, ih]
    simp

/-- What is read when every element that can be read gives its image. -/
theorem readAll_eq_ok {β : Type} {f : α → Except ε β} {p : α → Prop} {g : α → β}
    (hf : ∀ x y, f x = .ok y ↔ p x ∧ y = g x) {xs : List α} {ys : List β} :
    readAll f xs = .ok ys ↔ (∀ x ∈ xs, p x) ∧ ys = xs.map g := by
  induction xs generalizing ys with
  | nil => simp [readAll, eq_comm]
  | cons x xs ih =>
    rw [readAll]
    cases hx : f x with
    | error refusal =>
      have hnot : ¬ p x := fun hp => by
        have hok := (hf x (g x)).mpr ⟨hp, rfl⟩
        rw [hx] at hok
        cases hok
      simp [hnot]
    | ok y =>
      obtain ⟨hp, rfl⟩ := (hf x y).mp hx
      cases hxs : readAll f xs with
      | error refusal =>
        have hnot : ¬ ∀ x ∈ xs, p x := fun hall => by
          have hok := ih.mpr ⟨hall, rfl⟩
          rw [hxs] at hok
          cases hok
        simp only [reduceCtorEq, mem_cons, forall_eq_or_imp, false_iff, not_and]
        exact fun h _ => hnot h.2
      | ok rest =>
        obtain ⟨hall, rfl⟩ := ih.mp hxs
        simp only [Except.ok.injEq, mem_cons, forall_eq_or_imp, map_cons]
        exact ⟨fun h => ⟨⟨hp, hall⟩, h.symm⟩, fun h => h.2.symm⟩

/-- What is read are the images of the elements, in order. -/
theorem readAll_eq_ok_iff {β : Type} {f : α → Except ε β} {xs : List α} {ys : List β} :
    readAll f xs = .ok ys ↔ List.Forall₂ (fun x y => f x = .ok y) xs ys := by
  induction xs generalizing ys with
  | nil => cases ys <;> simp [readAll]
  | cons x xs ih =>
    rw [readAll]
    cases hx : f x with
    | error refusal => cases ys <;> simp [hx]
    | ok y =>
      cases hxs : readAll f xs with
      | error refusal =>
        cases ys with
        | nil => simp
        | cons y' ys => simp [← ih, hxs]
      | ok rest => cases ys <;> simp [hx, hxs, ← ih]

theorem exists_of_readAll {β : Type} {f : α → Except ε β} {xs : List α} {ys : List β}
    (h : readAll f xs = .ok ys) {x : α} (hx : x ∈ xs) : ∃ y ∈ ys, f x = .ok y := by
  have hpairs := readAll_eq_ok_iff.mp h
  clear h
  induction hpairs with
  | nil => cases hx
  | cons hxy _ ih =>
    rcases mem_cons.mp hx with rfl | hx
    · exact ⟨_, mem_cons_self, hxy⟩
    · obtain ⟨y, hy, hread⟩ := ih hx
      exact ⟨y, mem_cons_of_mem _ hy, hread⟩

theorem exists_of_mem_readAll {β : Type} {f : α → Except ε β} {xs : List α} {ys : List β}
    (h : readAll f xs = .ok ys) {y : β} (hy : y ∈ ys) : ∃ x ∈ xs, f x = .ok y := by
  have hpairs := readAll_eq_ok_iff.mp h
  clear h
  induction hpairs with
  | nil => cases hy
  | cons hxy _ ih =>
    rcases mem_cons.mp hy with rfl | hy
    · exact ⟨_, mem_cons_self, hxy⟩
    · obtain ⟨x, hx, hread⟩ := ih hy
      exact ⟨x, mem_cons_of_mem _ hx, hread⟩

theorem map_eq_of_readAll {β γ : Type} {f : α → Except ε β} {g : α → γ} {g' : β → γ}
    (hf : ∀ x y, f x = .ok y → g' y = g x) {xs : List α} {ys : List β}
    (h : readAll f xs = .ok ys) : ys.map g' = xs.map g := by
  have hpairs := readAll_eq_ok_iff.mp h
  clear h
  induction hpairs with
  | nil => rfl
  | cons hxy _ ih => rw [map_cons, map_cons, hf _ _ hxy, ih]

/-- What every step of a run keeps holds after the run. -/
theorem foldlM_induct {σ : Type} {f : σ → α → Except ε σ} {xs : List α} (p : List α → σ → Prop)
    (hstep : ∀ done x rest s s', xs = done ++ x :: rest → p done s → f s x = .ok s' →
      p (done ++ [x]) s')
    {s s' : σ} (hs : p [] s) (h : xs.foldlM f s = .ok s') : p xs s' := by
  have hrun : ∀ rest done s, xs = done ++ rest → p done s → rest.foldlM f s = .ok s' →
      p xs s' := by
    intro rest
    induction rest with
    | nil =>
      intro done s hxs hs h
      obtain rfl := Except.ok.inj h
      rwa [hxs, append_nil]
    | cons x rest ih =>
      intro done s hxs hs h
      rw [foldlM_cons] at h
      cases hx : f s x with
      | error refusal =>
        rw [hx] at h
        cases h
      | ok next =>
        rw [hx] at h
        exact ih (done ++ [x]) next (by rw [hxs, append_assoc, singleton_append])
          (hstep done x rest s next hxs hs hx) h
  exact hrun xs [] s rfl hs h

theorem forall_mem_zipIdx_iff {p : α → Prop} {xs : List α} :
    (∀ entry ∈ xs.zipIdx, p entry.1) ↔ ∀ x ∈ xs, p x := by
  have hmap : (∀ x ∈ xs.zipIdx.map Prod.fst, p x) ↔ ∀ entry ∈ xs.zipIdx, p entry.1 :=
    forall_mem_map
  rw [← hmap, zipIdx_map_fst]

@[simp] theorem checkSome_none : checkSome f none = .ok () := rfl

@[simp] theorem checkSome_some (x : α) : checkSome f (some x) = f x := rfl

end Workbay

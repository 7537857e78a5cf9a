import Workbay.Effects.System

/-!
# Rely and guarantee reasoning for programs

`Safe` says of a program what a Hoare triple says of a sequential one, in the presence of others:
whatever the others do between two operations (the *rely*), every operation of the program keeps
the invariant and stays within what the program promises (the *guarantee*), and the outcome
satisfies the postcondition. The rules compose such statements along `bind` and `attempt`, and
`Sound` puts the processes of a system together.
-/

namespace Workbay.Effects

variable {ι R E : Type} {A : E → Type} {ε α β W C D : Type}

/-- What a program may count on and what it promises. -/
structure Conduct (E : Type) (A : E → Type) (W : Type) where
  /-- Holds whenever an operation starts or has ended. -/
  inv : W → Prop
  /-- What the others may do between two operations. -/
  rely : W → W → Prop
  /-- What an operation, with its answer, may do. -/
  guar : (e : E) → A e → W → W → Prop
  rely_refl : ∀ w, rely w w
  rely_trans : ∀ {w₁ w₂ w₃}, rely w₁ w₂ → rely w₂ w₃ → rely w₁ w₃

/-- The program `p` behaves from the world `w` on. -/
def Safe (act : Action E A W C) (K : Conduct E A W) (post : Except ε α → W → Prop) :
    Prog E A ε α → W → Prop
  | .ret a, w => ∀ w', K.rely w w' → K.inv w' → post (.ok a) w'
  | .raise x, w => ∀ w', K.rely w w' → K.inv w' → post (.error x) w'
  | .call e next, w => ∀ w', K.rely w w' → K.inv w' → ∀ c a w'', act e c w' = some (a, w'') →
      K.inv w'' ∧ K.guar e a w' w'' ∧ Safe act K post (next a) w''

namespace Safe

variable {act : Action E A W C} {K : Conduct E A W}

variable {post : Except ε α → W → Prop} {p : Prog E A ε α} {w : W}

theorem stable {w' : W} (h : Safe act K post p w) (hr : K.rely w w') : Safe act K post p w' := by
  cases p with
  | ret a => exact fun w'' hr' hi => h w'' (K.rely_trans hr hr') hi
  | raise x => exact fun w'' hr' hi => h w'' (K.rely_trans hr hr') hi
  | call e next => exact fun w'' hr' hi => h w'' (K.rely_trans hr hr') hi

theorem weaken {post' : Except ε α → W → Prop} (hp : ∀ r w, K.inv w → post r w → post' r w) :
    ∀ {w : W}, Safe act K post p w → Safe act K post' p w := by
  induction p with
  | ret a => exact fun h w' hr hi => hp _ _ hi (h w' hr hi)
  | raise x => exact fun h w' hr hi => hp _ _ hi (h w' hr hi)
  | call e next ih =>
    intro w h w' hr hi c a w'' ha
    obtain ⟨hi', hg, hs⟩ := h w' hr hi c a w'' ha
    exact ⟨hi', hg, ih a hs⟩

theorem ret {a : α} (h : ∀ w', K.rely w w' → K.inv w' → post (.ok a) w') :
    Safe act K post (.ret a : Prog E A ε α) w := h

theorem raise {x : ε} (h : ∀ w', K.rely w w' → K.inv w' → post (.error x) w') :
    Safe act K post (.raise x : Prog E A ε α) w := h

theorem call {e : E} {next : A e → Prog E A ε α}
    (h : ∀ w', K.rely w w' → K.inv w' → ∀ c a w'', act e c w' = some (a, w'') →
      K.inv w'' ∧ K.guar e a w' w'' ∧ Safe act K post (next a) w'') :
    Safe act K post (.call e next) w := h

theorem attempt {mid : Except ε α → W → Prop} {post : Except ε β → W → Prop}
    {f : Except ε α → Prog E A ε β} (hf : ∀ r w, K.inv w → mid r w → Safe act K post (f r) w) :
    ∀ {w : W}, K.inv w → Safe act K mid p w → Safe act K post (p.attempt f) w := by
  induction p with
  | ret a => exact fun hi h => hf _ _ hi (h _ (K.rely_refl _) hi)
  | raise x => exact fun hi h => hf _ _ hi (h _ (K.rely_refl _) hi)
  | call e next ih =>
    intro w _ h w' hr hi' c a w'' ha
    obtain ⟨hi'', hg, hs⟩ := h w' hr hi' c a w'' ha
    exact ⟨hi'', hg, ih a hi'' hs⟩

theorem bind {mid : Except ε α → W → Prop} {post : Except ε β → W → Prop} {f : α → Prog E A ε β}
    (hf : ∀ a w, K.inv w → mid (.ok a) w → Safe act K post (f a) w)
    (hx : ∀ x w, K.inv w → mid (.error x) w → post (.error x) w) :
    ∀ {w : W}, K.inv w → Safe act K mid p w → Safe act K post (p >>= f) w := by
  induction p with
  | ret a => exact fun hi h => hf _ _ hi (h _ (K.rely_refl _) hi)
  | raise x => exact fun _ h w' hr hi' => hx _ _ hi' (h w' hr hi')
  | call e next ih =>
    intro w _ h w' hr hi' c a w'' ha
    obtain ⟨hi'', hg, hs⟩ := h w' hr hi' c a w'' ha
    exact ⟨hi'', hg, ih a hi'' hs⟩

/-- A fact that the others and the program's own operations preserve may be added to the
invariant. -/
theorem strengthen {L : Conduct E A W} {J : W → Prop} (hinv : ∀ w, L.inv w ↔ K.inv w ∧ J w)
    (hrely : ∀ {w w'}, L.rely w w' → K.rely w w')
    (hguar : ∀ {e a w w'}, K.inv w → K.guar e a w w' → L.guar e a w w')
    (hJ : ∀ {e a w w'}, K.guar e a w w' → J w → J w') :
    ∀ {w : W}, Safe act K post p w → Safe act L post p w := by
  induction p with
  | ret a => exact fun h w' hr hi => h w' (hrely hr) ((hinv w').mp hi).1
  | raise x => exact fun h w' hr hi => h w' (hrely hr) ((hinv w').mp hi).1
  | call e next ih =>
    intro w h w' hr hi c a w'' ha
    obtain ⟨hi', hf⟩ := (hinv w').mp hi
    obtain ⟨hi'', hg, hs⟩ := h w' (hrely hr) hi' c a w'' ha
    exact ⟨(hinv w'').mpr ⟨hi'', hJ hg hf⟩, hguar hi' hg, ih a hs⟩

theorem of_runs {w' : W} {r : Except ε α} (hr : Runs act p w r w') (hi : K.inv w)
    (h : Safe act K post p w) : K.inv w' ∧ post r w' := by
  induction hr with
  | ret a w => exact ⟨hi, h _ (K.rely_refl _) hi⟩
  | raise x w => exact ⟨hi, h _ (K.rely_refl _) hi⟩
  | call c ha _ ih =>
    obtain ⟨hi', _, hs⟩ := h _ (K.rely_refl _) hi c _ _ ha
    exact ih hi' hs

end Safe

namespace Runs

variable {act : Action E A W C}

variable {p : Prog E A ε α} {w w' : W}

variable {f : α → Prog E A ε β} {r : Except ε β}

theorem bind {w'' : W} {a : α} (hp : Runs act p w (.ok a) w') (hf : Runs act (f a) w' r w'') :
    Runs act (p >>= f) w r w'' := by
  generalize hr : (Except.ok a : Except ε α) = o at hp
  induction hp with
  | ret b w => cases hr; exact hf
  | raise x w => cases hr
  | call c ha _ ih => exact .call c ha (ih hf hr)

theorem bind_raise {x : ε} (hp : Runs act p w (.error x) w') :
    Runs act (p >>= f) w (.error x) w' := by
  generalize hr : (Except.error x : Except ε α) = o at hp
  induction hp with
  | ret b w => cases hr
  | raise y w => cases hr; exact .raise x w
  | call c ha _ ih => exact .call c ha (ih hr)

theorem attempt {f : Except ε α → Prog E A ε β} {w'' : W} {o : Except ε α} (hp : Runs act p w o w')
    (hf : Runs act (f o) w' r w'') : Runs act (p.attempt f) w r w'' := by
  induction hp with
  | ret b w => exact hf
  | raise x w => exact hf
  | call c ha _ ih => exact .call c ha (ih hf)

theorem of_call {e : E} {next : A e → Prog E A ε α} {r : Except ε α}
    (h : Runs act (.call e next) w r w') :
    ∃ c a w₁, act e c w = some (a, w₁) ∧ Runs act (next a) w₁ r w' := by
  cases h with
  | call c ha hr => exact ⟨c, _, _, ha, hr⟩

theorem of_bind (h : Runs act (p >>= f) w r w') :
    (∃ a w₁, Runs act p w (.ok a) w₁ ∧ Runs act (f a) w₁ r w') ∨
      ∃ x, r = .error x ∧ Runs act p w (.error x) w' := by
  induction p generalizing w with
  | ret a => exact .inl ⟨a, w, .ret a w, h⟩
  | raise x =>
    cases h
    exact .inr ⟨x, rfl, .raise x w'⟩
  | call e next ih =>
    obtain ⟨c, a, w₁, ha, hr⟩ := h.of_call
    rcases ih _ hr with ⟨a, w₁, hp, hf⟩ | ⟨x, rfl, hp⟩
    · exact .inl ⟨a, w₁, .call c ha hp, hf⟩
    · exact .inr ⟨x, rfl, .call c ha hp⟩

theorem ok_bind {b : β} (h : Runs act (p >>= f) w (.ok b) w') :
    ∃ a w₁, Runs act p w (.ok a) w₁ ∧ Runs act (f a) w₁ (.ok b) w' := by
  rcases h.of_bind with h | ⟨x, hx, -⟩
  · exact h
  · cases hx

theorem keeps {P : E → Prop} {post : Except ε α → Prop} {J : W → Prop} {r : Except ε α}
    (hr : Runs act p w r w') (h : p.Ensures P post)
    (hstep : ∀ {e c w a w'}, P e → act e c w = some (a, w') → J w → J w') (hJ : J w) :
    J w' ∧ post r := by
  induction hr with
  | ret a w => exact ⟨hJ, h⟩
  | raise x w => exact ⟨hJ, h⟩
  | call c ha _ ih => exact ih (h.2 _) (hstep h.1 ha hJ)

/-- The run in which every operation meets the same choice. -/
def follow (act : Action E A W C) (c : C) : Prog E A ε α → W → Option (Except ε α × W)
  | .ret a, w => some (.ok a, w)
  | .raise x, w => some (.error x, w)
  | .call e next, w => (act e c w).bind fun (a, w) => follow act c (next a) w

theorem of_follow {c : C} {r : Except ε α} (h : follow act c p w = some (r, w')) :
    Runs act p w r w' := by
  induction p generalizing w with
  | ret a | raise x =>
    obtain ⟨rfl, rfl⟩ := Prod.mk.inj (Option.some.inj h)
    constructor
  | call e next ih =>
    obtain ⟨⟨a, w₁⟩, ha, hr⟩ := Option.bind_eq_some_iff.mp h
    exact .call c ha (ih a hr)

end Runs

namespace System

variable [DecidableEq ι] {S : System ι R E A ε α W C D}

theorem exec_append (s : Config ι E A ε α W) (ls ls' : List (Label ι R C D)) :
    S.exec s (ls ++ ls') = (S.exec s ls).bind fun s' => S.exec s' ls' := by
  induction ls generalizing s with
  | nil => rfl
  | cons l ls ih =>
    simp only [List.cons_append, exec]
    cases S.next s l with
    | none => rfl
    | some s' => exact ih s'

theorem Steps.refl (s : Config ι E A ε α W) : S.Steps s s := ⟨[], rfl⟩

theorem Steps.trans {s₁ s₂ s₃ : Config ι E A ε α W} (h : S.Steps s₁ s₂) (h' : S.Steps s₂ s₃) :
    S.Steps s₁ s₃ := by
  obtain ⟨ls, h⟩ := h
  obtain ⟨ls', h'⟩ := h'
  exact ⟨ls ++ ls', by rw [exec_append, h]; exact h'⟩

variable {s s' : Config ι E A ε α W} {l : Label ι R C D}

theorem Steps.single (h : S.next s l = some s') : S.Steps s s' := ⟨[l], by simp [exec, h]⟩

/-- A process that runs alone takes the system along. -/
theorem Steps.of_runs {i : ι} {p : Prog E A ε α} {w w' : W} {r : Except ε α}
    (hr : Runs (S.act i) p w r w') (procs : ι → Option (Prog E A ε α)) (hp : procs i = some p) :
    S.Steps ⟨w, procs⟩ ⟨w', Function.update procs i (some (Prog.ofExcept r))⟩ := by
  induction hr generalizing procs with
  | ret a w =>
    have hself : Function.update procs i (some (.ret a)) = procs := by
      rw [← hp, Function.update_eq_self]
    exact ⟨[], by simp [exec, Prog.ofExcept, hself]⟩
  | raise x w =>
    have hself : Function.update procs i (some (.raise x)) = procs := by
      rw [← hp, Function.update_eq_self]
    exact ⟨[], by simp [exec, Prog.ofExcept, hself]⟩
  | @call e next w w₁ w₂ a r c ha _ ih =>
    have hn : S.next ⟨w, procs⟩ (.tick i c) =
        some ⟨w₁, Function.update procs i (some (next a))⟩ := by simp [System.next, hp, ha]
    have hs := ih (Function.update procs i (some (next a))) (by simp)
    rw [Function.update_idem] at hs
    exact (Steps.single hn).trans hs

/-- What every step preserves, every run preserves. -/
theorem Steps.preserves {P : Config ι E A ε α W → Prop}
    (hstep : ∀ s l s', P s → S.next s l = some s' → P s') (h : S.Steps s s') (hP : P s) : P s' := by
  obtain ⟨ls, h⟩ := h
  induction ls generalizing s with
  | nil =>
    have hs : s = s' := by simpa [exec] using h
    exact hs ▸ hP
  | cons l ls ih =>
    simp only [exec] at h
    cases hn : S.next s l with
    | none => rw [hn] at h; simp at h
    | some s₁ => rw [hn] at h; exact ih (hstep s l s₁ hP hn) h

/-- What every step of a kind preserves, every run along such steps preserves. -/
theorem Along.invariant {P : Config ι E A ε α W → Prop}
    {Q : Config ι E A ε α W → Label ι R C D → Prop}
    (hstep : ∀ s l s', P s → Q s l → S.next s l = some s' → P s') {ls : List (Label ι R C D)}
    (h : S.Along Q s ls) (hexec : S.exec s ls = some s') (hP : P s) : P s' := by
  induction ls generalizing s with
  | nil =>
    obtain rfl : s = s' := by simpa [exec] using hexec
    exact hP
  | cons l ls ih =>
    simp only [exec] at hexec
    cases hn : S.next s l with
    | none => rw [hn] at hexec; simp at hexec
    | some s₁ => rw [hn] at hexec; exact ih (h.2 s₁ hn) hexec (hstep s l s₁ hP h.1 hn)

theorem along_of_take {Q : Config ι E A ε α W → Label ι R C D → Prop} {ls : List (Label ι R C D)}
    (h : ∀ n s' l, S.exec s (ls.take n) = some s' → ls[n]? = some l → Q s' l) : S.Along Q s ls := by
  induction ls generalizing s with
  | nil => trivial
  | cons l ls ih =>
    refine ⟨h 0 s l rfl rfl, fun s' hn => ih fun n s'' l' hexec hl => ?_⟩
    refine h (n + 1) s'' l' ?_ (by simpa using hl)
    rw [List.take_succ_cons, exec, hn]
    exact hexec

theorem Reachable.steps {init : W → Prop} (h : S.Reachable init s) (h' : S.Steps s s') :
    S.Reachable init s' := by
  obtain ⟨w, hw, hs⟩ := h
  exact ⟨w, hw, hs.trans h'⟩

theorem next_cases (h : S.next s l = some s') :
    (∃ i r, l = .start i r ∧ s.procs i = none ∧ s'.world = S.enter i r s.world ∧
      s'.procs = Function.update s.procs i (some (S.body i r))) ∨
    (∃ i c e k a, l = .tick i c ∧ s.procs i = some (.call e k) ∧
      S.act i e c s.world = some (a, s'.world) ∧
      s'.procs = Function.update s.procs i (some (k a))) ∨
    (∃ i p, l = .halt i ∧ s.procs i = some p ∧ s'.world = s.world ∧
      s'.procs = Function.update s.procs i none) ∨
    (∃ d, l = .env d ∧ S.env d s.world = some s'.world ∧ s'.procs = s.procs) := by
  cases l with
  | start i r =>
    simp only [next] at h
    cases hp : s.procs i with
    | some p => rw [hp] at h; simp at h
    | none =>
      rw [hp] at h
      simp only [Option.some.injEq] at h
      exact .inl ⟨i, r, rfl, hp, by rw [← h], by rw [← h]⟩
  | tick i c =>
    simp only [next] at h
    cases hp : s.procs i with
    | none => rw [hp] at h; simp at h
    | some p =>
      rw [hp] at h
      cases p with
      | ret a => simp at h
      | raise x => simp at h
      | call e k =>
        simp only at h
        cases ha : S.act i e c s.world with
        | none => rw [ha] at h; simp at h
        | some aw =>
          rw [ha] at h
          simp only [Option.some.injEq] at h
          refine .inr (.inl ⟨i, c, e, k, aw.1, rfl, hp, ?_, by rw [← h]⟩)
          rw [ha, ← h]
  | halt i =>
    simp only [next] at h
    cases hp : s.procs i with
    | none => rw [hp] at h; simp at h
    | some p =>
      rw [hp] at h
      simp only [Option.some.injEq] at h
      exact .inr (.inr (.inl ⟨i, p, rfl, hp, by rw [← h], by rw [← h]⟩))
  | env d =>
    simp only [next] at h
    cases he : S.env d s.world with
    | none => rw [he] at h; simp at h
    | some w =>
      rw [he] at h
      simp only [Option.some.injEq] at h
      exact .inr (.inr (.inr ⟨d, rfl, by rw [he, ← h], by rw [← h]⟩))

theorem next_restrict {good : W → Bool} (h : S.next s l = some s') (hg : good s'.world = true) :
    (S.restrict good).next s l = some s' := by
  cases l with
  | start i r => exact h
  | halt i => exact h
  | tick i c =>
    simp only [next, restrict] at h ⊢
    cases hp : s.procs i with
    | none => simp [hp] at h
    | some p =>
      cases p with
      | ret a => simp [hp] at h
      | raise x => simp [hp] at h
      | call e k =>
        simp only [hp] at h ⊢
        cases ha : S.act i e c s.world with
        | none => simp [ha] at h
        | some aw =>
          simp only [ha, Option.some.injEq] at h
          have hgood : good aw.2 = true := by rw [← h] at hg; exact hg
          simp only [Option.filter_some, hgood, if_true, h]
  | env d =>
    simp only [next, restrict] at h ⊢
    cases he : S.env d s.world with
    | none => simp [he] at h
    | some w =>
      simp only [he, Option.some.injEq] at h
      have hgood : good w = true := by rw [← h] at hg; exact hg
      simp only [Option.filter_some, hgood, if_true, h]

/-- If no step leads back among the good worlds, a run that ends in a good world is a run of the
restricted system. -/
theorem Steps.restrict (good : W → Bool)
    (hback : ∀ s l s', S.next s l = some s' → good s'.world = true → good s.world = true)
    (h : S.Steps s s') (hg : good s'.world = true) :
    (S.restrict good).Steps s s' ∧ good s.world = true := by
  obtain ⟨ls, h⟩ := h
  induction ls generalizing s with
  | nil =>
    obtain rfl : s = s' := by simpa [exec] using h
    exact ⟨Steps.refl s, hg⟩
  | cons l ls ih =>
    simp only [exec] at h
    cases hn : S.next s l with
    | none => rw [hn] at h; simp at h
    | some s₁ =>
      rw [hn] at h
      obtain ⟨hrest, hg₁⟩ := ih h
      exact ⟨(Steps.single (next_restrict hn hg₁)).trans hrest, hback s l s₁ hn hg₁⟩

end System

/-- The conducts of all processes of a system fit together: they share one invariant, what one
process guarantees is within what every other one relies on, and so is what the environment and
the start of a process do. -/
structure Sound [DecidableEq ι] (S : System ι R E A ε α W C D) (K : ι → Conduct E A W)
    (inv : W → Prop) (post : ι → Except ε α → W → Prop) : Prop where
  inv_eq : ∀ i, (K i).inv = inv
  enter : ∀ i r w, inv w → inv (S.enter i r w) ∧
    Safe (S.act i) (K i) (post i) (S.body i r) (S.enter i r w) ∧
    ∀ j, j ≠ i → (K j).rely w (S.enter i r w)
  compat : ∀ i j e c a w w', j ≠ i → inv w → inv w' → S.act i e c w = some (a, w') →
    (K i).guar e a w w' → (K j).rely w w'
  env : ∀ d w w', inv w → S.env d w = some w' → inv w' ∧ ∀ j, (K j).rely w w'

namespace Sound

variable [DecidableEq ι] {S : System ι R E A ε α W C D} {K : ι → Conduct E A W} {inv : W → Prop}
  {post : ι → Except ε α → W → Prop}

/-- The invariant holds and the rest of every running program is safe. -/
def Holds (S : System ι R E A ε α W C D) (K : ι → Conduct E A W) (inv : W → Prop)
    (post : ι → Except ε α → W → Prop) (s : Config ι E A ε α W) : Prop :=
  inv s.world ∧ ∀ i p, s.procs i = some p → Safe (S.act i) (K i) (post i) p s.world

variable {s s' : Config ι E A ε α W}

section

variable (hS : Sound S K inv post)

include hS

/-- One operation of a running process, seen from a configuration where `Holds`. -/
theorem tick (hs : Holds S K inv post s) {i : ι} {e : E} {k : A e → Prog E A ε α} {c : C} {a : A e}
    {w : W} (hp : s.procs i = some (.call e k)) (ha : S.act i e c s.world = some (a, w)) :
    inv w ∧ (K i).guar e a s.world w ∧ Safe (S.act i) (K i) (post i) (k a) w := by
  have hsafe := hs.2 i _ hp
  have hinv : (K i).inv s.world := by rw [hS.inv_eq i]; exact hs.1
  have h := hsafe s.world ((K i).rely_refl _) hinv c a w ha
  rw [hS.inv_eq i] at h
  exact h

theorem guar_of_tick (hs : Holds S K inv post s) {i : ι} {c : C}
    (h : S.next s (.tick i c) = some s') :
    ∃ e k a, s.procs i = some (.call e k) ∧ (K i).guar e a s.world s'.world := by
  rcases System.next_cases h with ⟨_, _, hl, _⟩ | ⟨j, _, e, k, a, hl, hp, ha, -⟩ | ⟨_, _, hl, _⟩ |
    ⟨_, hl, _⟩
  · simp at hl
  · obtain ⟨rfl, rfl⟩ := Label.tick.inj hl
    exact ⟨e, k, a, hp, (hS.tick hs hp ha).2.1⟩
  · simp at hl
  · simp at hl

theorem step {l : Label ι R C D} (hs : Holds S K inv post s) (h : S.next s l = some s') :
    Holds S K inv post s' := by
  rcases System.next_cases h with ⟨i, r, rfl, _, hw, hpr⟩ | ⟨i, c, e, k, a, rfl, hp, ha, hpr⟩ |
    ⟨i, p, rfl, _, hw, hpr⟩ | ⟨d, rfl, hd, hpr⟩
  · obtain ⟨hi, hb, hr⟩ := hS.enter i r s.world hs.1
    refine ⟨hw ▸ hi, fun j q hq => ?_⟩
    rw [hpr] at hq
    rw [hw]
    by_cases hj : j = i
    · subst hj
      have hq' : S.body j r = q := by simpa using hq
      exact hq' ▸ hb
    · rw [Function.update_of_ne hj] at hq
      exact (hs.2 j q hq).stable (hr j hj)
  · obtain ⟨hi, hg, hb⟩ := hS.tick hs hp ha
    refine ⟨hi, fun j q hq => ?_⟩
    rw [hpr] at hq
    by_cases hj : j = i
    · subst hj
      have hq' : k a = q := by simpa using hq
      exact hq' ▸ hb
    · rw [Function.update_of_ne hj] at hq
      exact (hs.2 j q hq).stable (hS.compat i j e c a _ _ hj hs.1 hi ha hg)
  · refine ⟨hw ▸ hs.1, fun j q hq => ?_⟩
    rw [hpr] at hq
    rw [hw]
    by_cases hj : j = i
    · subst hj; simp at hq
    · rw [Function.update_of_ne hj] at hq
      exact hs.2 j q hq
  · obtain ⟨hi, hr⟩ := hS.env d s.world s'.world hs.1 hd
    refine ⟨hi, fun j q hq => ?_⟩
    rw [hpr] at hq
    exact (hs.2 j q hq).stable (hr j)

theorem steps (hs : Holds S K inv post s) (h : S.Steps s s') : Holds S K inv post s' :=
  h.preserves (fun _ _ _ hP hn => hS.step hP hn) hs

theorem reachable {init : W → Prop} (hinit : ∀ w, init w → inv w) (h : S.Reachable init s) :
    Holds S K inv post s := by
  obtain ⟨w, hw, hs⟩ := h
  refine hS.steps ⟨hinit w hw, fun i p hp => ?_⟩ hs
  simp [System.boot] at hp

/-- A property of the world that the environment, the start of a process and every guaranteed
operation preserve holds in every world a run reaches. -/
theorem invariant {J : W → Prop} (henter : ∀ i r w, inv w → J w → J (S.enter i r w))
    (htick : ∀ i e c a w w', inv w → inv w' → J w → S.act i e c w = some (a, w') →
      (K i).guar e a w w' → J w') (henv : ∀ d w w', inv w → J w → S.env d w = some w' → J w')
    (hs : Holds S K inv post s) (h : S.Steps s s') (hJ : J s.world) : J s'.world := by
  have hstep : ∀ s l s', Holds S K inv post s ∧ J s.world → S.next s l = some s' →
      Holds S K inv post s' ∧ J s'.world := by
    rintro s l s' ⟨hs, hJ⟩ hn
    refine ⟨hS.step hs hn, ?_⟩
    rcases System.next_cases hn with ⟨i, r, rfl, _, hw, _⟩ | ⟨i, c, e, k, a, rfl, hp, ha, _⟩ |
      ⟨i, p, rfl, _, hw, _⟩ | ⟨d, rfl, hd, _⟩
    · rw [hw]; exact henter i r _ hs.1 hJ
    · obtain ⟨hi, hg, -⟩ := hS.tick hs hp ha
      exact htick i e c a _ _ hs.1 hi hJ ha hg
    · rw [hw]; exact hJ
    · exact henv d _ _ hs.1 hJ hd
  exact (h.preserves hstep ⟨hs, hJ⟩).2

end

end Sound

end Workbay.Effects

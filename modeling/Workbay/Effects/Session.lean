import Workbay.Effects.Machine

/-!
# Sessions

A connection to a store takes transactions with savepoints. What is done inside a transaction changes
its working contents; a rollback, of the transaction or to a savepoint, forgets them.
-/

namespace Workbay.Effects

open List

/-- What is committed, and inside a transaction its contents and those at its savepoints, the innermost
first. -/
structure Session (δ : Type) where
  committed : δ
  working : Option (δ × List δ)

/-- What is done on a connection; a call needs a transaction. -/
inductive Command (κ : Type) where
  | begin
  | savepoint
  | rollbackTo
  | release
  | commit
  | rollback
  | call (c : κ)

/-- What a command answers: that there is no transaction or savepoint for it, or the answer of a call. -/
inductive Reply (ω : Type) where
  | done
  | refused
  | answered (answer : ω)

variable {δ κ ω : Type}

/-- One command. -/
def Session.step (exec : δ → κ → δ × ω) (s : Session δ) : Command κ → Session δ × Reply ω
  | .begin =>
    match s.working with
    | none => ({ s with working := some (s.committed, []) }, .done)
    | some _ => (s, .refused)
  | .savepoint =>
    match s.working with
    | some (d, saved) => ({ s with working := some (d, d :: saved) }, .done)
    | none => (s, .refused)
  | .rollbackTo =>
    match s.working with
    | some (_, d :: saved) => ({ s with working := some (d, d :: saved) }, .done)
    | _ => (s, .refused)
  | .release =>
    match s.working with
    | some (d, _ :: saved) => ({ s with working := some (d, saved) }, .done)
    | _ => (s, .refused)
  | .commit =>
    match s.working with
    | some (d, _) => ({ committed := d, working := none }, .done)
    | none => (s, .refused)
  | .rollback =>
    match s.working with
    | some _ => ({ s with working := none }, .done)
    | none => (s, .refused)
  | .call c =>
    match s.working with
    | some (d, saved) => ({ s with working := some ((exec d c).1, saved) }, .answered (exec d c).2)
    | none => (s, .refused)

/-- A connection as a machine. -/
def sessionMachine (exec : δ → κ → δ × ω) : Machine (Session δ) (Command κ) (Reply ω) :=
  ⟨Session.step exec⟩

/-- A connection that has done nothing yet. -/
def Session.start (d : δ) : Session δ := ⟨d, none⟩

/-- All contents that a session still knows. -/
def Session.contents (s : Session δ) : List δ :=
  s.committed :: match s.working with
    | some (d, saved) => d :: saved
    | none => []

variable {exec : δ → κ → δ × ω} {s : Session δ}

/-- What a command makes of the contents: the committed ones stay, or are all that is known; and all
contents are old ones, or what a call makes of old ones. -/
theorem Session.contents_step (exec : δ → κ → δ × ω) (s : Session δ) (i : Command κ) :
    ((s.step exec i).1.committed = s.committed ∨
        (s.step exec i).1.contents = [(s.step exec i).1.committed]) ∧
      ∀ d ∈ (s.step exec i).1.contents, d ∈ s.contents ∨
        ∃ c, ∃ d' ∈ s.contents, i = .call c ∧ d = (exec d' c).1 := by
  obtain ⟨committed, working⟩ := s
  cases i with
  | begin =>
    cases working with
    | none =>
      refine ⟨.inl rfl, fun d hd => .inl ?_⟩
      simp only [Session.step, Session.contents, mem_cons, not_mem_nil, or_false] at hd ⊢
      rcases hd with rfl | rfl <;> rfl
    | some w => exact ⟨.inl rfl, fun d hd => .inl hd⟩
  | savepoint =>
    cases working with
    | none => exact ⟨.inl rfl, fun d hd => .inl hd⟩
    | some w =>
      obtain ⟨d₀, saved⟩ := w
      refine ⟨.inl rfl, fun d hd => .inl ?_⟩
      simp only [Session.step, Session.contents, mem_cons] at hd ⊢
      rcases hd with rfl | rfl | rfl | hd
      · exact .inl rfl
      · exact .inr (.inl rfl)
      · exact .inr (.inl rfl)
      · exact .inr (.inr hd)
  | rollbackTo =>
    cases working with
    | none => exact ⟨.inl rfl, fun d hd => .inl hd⟩
    | some w =>
      obtain ⟨d₀, saved⟩ := w
      cases saved with
      | nil => exact ⟨.inl rfl, fun d hd => .inl hd⟩
      | cons d₁ saved =>
        refine ⟨.inl rfl, fun d hd => .inl ?_⟩
        simp only [Session.step, Session.contents, mem_cons] at hd ⊢
        rcases hd with rfl | rfl | rfl | hd
        · exact .inl rfl
        · exact .inr (.inr (.inl rfl))
        · exact .inr (.inr (.inl rfl))
        · exact .inr (.inr (.inr hd))
  | release =>
    cases working with
    | none => exact ⟨.inl rfl, fun d hd => .inl hd⟩
    | some w =>
      obtain ⟨d₀, saved⟩ := w
      cases saved with
      | nil => exact ⟨.inl rfl, fun d hd => .inl hd⟩
      | cons d₁ saved =>
        refine ⟨.inl rfl, fun d hd => .inl ?_⟩
        simp only [Session.step, Session.contents, mem_cons] at hd ⊢
        rcases hd with rfl | rfl | hd
        · exact .inl rfl
        · exact .inr (.inl rfl)
        · exact .inr (.inr (.inr hd))
  | commit =>
    cases working with
    | none => exact ⟨.inl rfl, fun d hd => .inl hd⟩
    | some w =>
      obtain ⟨d₀, saved⟩ := w
      refine ⟨.inr rfl, fun d hd => .inl ?_⟩
      simp only [Session.step, Session.contents, mem_cons, not_mem_nil, or_false] at hd ⊢
      exact .inr (.inl hd)
  | rollback =>
    cases working with
    | none => exact ⟨.inl rfl, fun d hd => .inl hd⟩
    | some w =>
      refine ⟨.inl rfl, fun d hd => .inl ?_⟩
      simp only [Session.step, Session.contents, mem_cons, not_mem_nil, or_false] at hd ⊢
      exact .inl hd
  | call c =>
    cases working with
    | none => exact ⟨.inl rfl, fun d hd => .inl hd⟩
    | some w =>
      obtain ⟨d₀, saved⟩ := w
      refine ⟨.inl rfl, fun d hd => ?_⟩
      simp only [Session.step, Session.contents, mem_cons] at hd ⊢
      rcases hd with rfl | rfl | hd
      · exact .inl (.inl rfl)
      · exact .inr ⟨c, d₀, .inr (.inl rfl), rfl, rfl⟩
      · exact .inl (.inr (.inr hd))

theorem Session.run_invariant {P : δ → Prop} (hexec : ∀ d c, P d → P (exec d c).1)
    (hs : ∀ d ∈ s.contents, P d) (is : List (Command κ)) :
    ∀ d ∈ ((sessionMachine exec).run s is).contents, P d := by
  refine Machine.run_invariant (M := sessionMachine exec) (P := fun s => ∀ d ∈ s.contents, P d)
    (fun s i hs d hd => ?_) hs is
  rcases (Session.contents_step exec s i).2 d hd with hd | ⟨c, d', hd', -, rfl⟩
  · exact hs d hd
  · exact hexec d' c (hs d' hd')

/-- Where every call takes contents to related ones, all contents of a run are related to what was
committed before it, and to what is committed after it. -/
theorem Session.run_related {P : δ → Prop} {R : δ → δ → Prop} (hrefl : ∀ d, R d d)
    (htrans : ∀ a b c, R a b → R b c → R a c) (hinv : ∀ d c, P d → P (exec d c).1)
    (hexec : ∀ d c, P d → R d (exec d c).1) (hs : ∀ d ∈ s.contents, P d ∧ R s.committed d)
    (is : List (Command κ)) :
    (∀ d ∈ ((sessionMachine exec).run s is).contents, R s.committed d) ∧
      ∀ d ∈ ((sessionMachine exec).run s is).contents,
        P d ∧ R ((sessionMachine exec).run s is).committed d := by
  have hcall : ∀ {base d : δ} (c : κ), P d ∧ R base d → P (exec d c).1 ∧ R base (exec d c).1 :=
    fun c hd => ⟨hinv _ c hd.1, htrans _ _ _ hd.2 (hexec _ c hd.1)⟩
  constructor
  · intro d hd
    exact (Session.run_invariant (P := fun d => P d ∧ R s.committed d)
      (fun d c hd => hcall c hd) hs is d hd).2
  · refine Machine.run_invariant (M := sessionMachine exec)
      (P := fun s => ∀ d ∈ s.contents, P d ∧ R s.committed d) (fun s i hs d hd => ?_) hs is
    obtain ⟨hcommitted, hcontents⟩ := Session.contents_step exec s i
    have hold : P d ∧ R s.committed d := by
      rcases hcontents d hd with hd | ⟨c, d', hd', -, rfl⟩
      · exact hs d hd
      · exact hcall c (hs d' hd')
    refine ⟨hold.1, ?_⟩
    rcases hcommitted with heq | heq
    · exact heq.symm ▸ hold.2
    · have hmem : d = (s.step exec i).1.committed := mem_singleton.1 (heq ▸ hd)
      exact hmem ▸ hrefl d

end Workbay.Effects

import Workbay.Leases.Proofs.LeaseProofs

/-!
# Proofs: lifecycle leases exclude

The programs of the threads keep the accounting, whatever the threads of all processes do between
two of their operations.
-/

namespace Workbay.Leases

open Effects

variable {i : Thread}

/-- The request of a thread has not changed the accounting. -/
def Untouched (i : Thread) (w : LeaseWorld) : Prop := w.changed i = false

/-- A thread polls with a descriptor, and has not changed the accounting. -/
def Polls (i : Thread) (fd : Nat) (resource : String) (lock : Lock) (w : LeaseWorld) : Prop :=
  SidecarAt w (i.pid, fd) { resource, lock, pending := some i } ∧ Untouched i w

/-- What only depends on what nobody else touches. -/
def Own (i : Thread) (P : LeaseWorld → Prop) : Prop :=
  ∀ {w w'}, w'.changed i = w.changed i →
    (∀ fd d, SidecarAt w (i.pid, fd) d → d.pending = some i → SidecarAt w' (i.pid, fd) d) →
    P w → P w'

theorem own_untouched : Own i (Untouched i) := by
  intro w w' hchanged _ h
  exact hchanged.trans h

theorem own_polls (fd : Nat) (resource : String) (lock : Lock) :
    Own i (Polls i fd resource lock) := by
  intro w w' hchanged hkeep h
  exact ⟨hkeep fd _ h.1 rfl, hchanged.trans h.2⟩

/-- What holds while the process of a thread is there. -/
def There (i : Thread) (P : LeaseWorld → Prop) (w : LeaseWorld) : Prop := i.pid ∉ w.gone → P w

variable {α : Type} {post : Except LeaseError α → LeaseWorld → Prop}

variable {P : LeaseWorld → Prop} {e : LeaseOp} {w w' : LeaseWorld} {Q : α → LeaseWorld → Prop}
  {fd : Nat} {resource : String} {c : LeaseChoice}

/-- The rule for one operation: it starts with what the thread knows. -/
theorem safe_call (hown : Own i P) {next : e.Answer → LeaseM α} (hP : There i P w)
    (h : ∀ w', LeaseInv w' → P w' → ∀ c a w'', LeaseOp.effect i e c w' = some (a, w'') →
      LeaseInv w'' ∧ Guar i w' w'' ∧ Safe (LeaseOp.act i) (leaseConduct i) post (next a) w'') :
    Safe (LeaseOp.act i) (leaseConduct i) post (.call e next) w := by
  refine Safe.call fun w' hrely hinv c a w'' hact => ?_
  unfold LeaseOp.act at hact
  split at hact
  · cases hact
  · rename_i hthere
    obtain ⟨hold, hchanged, hkeep⟩ := hrely hthere
    exact h w' hinv (hown hchanged hkeep (hP hold)) c a w'' hact

theorem safe_look (hown : Own i P) {next : e.Answer → LeaseM α} (hP : There i P w)
    (hlook : ∀ c a w' w'', LeaseOp.effect i e c w' = some (a, w'') → w'' = w')
    (h : ∀ a w', LeaseInv w' → There i P w' →
      Safe (LeaseOp.act i) (leaseConduct i) post (next a) w') :
    Safe (LeaseOp.act i) (leaseConduct i) post (.call e next) w := by
  refine safe_call hown hP fun w' hinv hP' c a w'' heffect => ?_
  obtain rfl := hlook c a w' w'' heffect
  exact ⟨hinv, guar_refl i _, h a _ hinv fun _ => hP'⟩

theorem rely_there (hown : Own i P) (hP : There i P w) (hrely : Rely i w w') : There i P w' := by
  intro hthere
  obtain ⟨hold, hchanged, hkeep⟩ := hrely hthere
  exact hown hchanged hkeep (hP hold)

/-- A refused request has not changed the accounting. -/
def Refused (i : Thread) (Q : α → LeaseWorld → Prop) : Except LeaseError α → LeaseWorld → Prop
  | .error _, w => There i (Untouched i) w
  | .ok a, w => Q a w

theorem safe_raise {e : LeaseError} (h : There i (Untouched i) w) :
    Safe (LeaseOp.act i) (leaseConduct i) (Refused i Q) (.raise e) w :=
  Safe.raise fun _ hrely _ => rely_there own_untouched h hrely

theorem safe_ret (hown : Own i P) {a : α} (h : There i P w) (hQ : ∀ w', There i P w' → Q a w') :
    Safe (LeaseOp.act i) (leaseConduct i) (Refused i Q) (.ret a) w :=
  Safe.ret fun w' hrely _ => hQ w' (rely_there hown h hrely)

theorem checkDeadline_looks (c : LeaseChoice) (a : Bool) (w w' : LeaseWorld)
    (h : LeaseOp.effect i .checkDeadline c w = some (a, w')) : w' = w := by
  cases c with
  | plain | expired => exact (Prod.mk.inj (Option.some.inj h)).2.symm
  | fail | fresh n => cases h

theorem sidecarIsHeld_looks (fd : Nat) (c : LeaseChoice) (a : Except LeaseError Bool)
    (w w' : LeaseWorld) (h : LeaseOp.effect i (.sidecarIsHeld fd) c w = some (a, w')) :
    w' = w := by
  cases c with
  | plain | fail => exact (Prod.mk.inj (Option.some.inj h)).2.symm
  | expired | fresh n => cases h

section

variable (hinv : LeaseInv w)

include hinv

theorem closePending_spec {lock : Lock} (hpolls : Polls i fd resource lock w) {a : Unit}
    (h : LeaseOp.effect i (.closePending fd) c w = some (a, w')) :
    LeaseInv w' ∧ Guar i w w' ∧ Untouched i w' := by
  obtain ⟨hside, huntouched⟩ := hpolls
  cases c with
  | expired | fail | fresh n => cases h
  | plain =>
    have hget : w.sidecars.get? (i.pid, fd) = some { resource, lock, pending := some i } := hside
    simp only [LeaseOp.effect, hget, Option.isSome_some, if_true] at h
    obtain rfl := (Prod.mk.inj (Option.some.inj h)).2
    have hfree : Unleased w i.pid fd := hinv.1.unleased hside (by simp)
    refine ⟨⟨hinv.1.closeSidecar hfree, hinv.2⟩, guar_closeSidecar w i fd fun d' hd' => ?_,
      huntouched⟩
    obtain rfl := Option.some.inj (hside.symm.trans hd')
    rfl

theorem openSidecar_spec (huntouched : Untouched i w) {a : Except LeaseError Nat}
    (h : LeaseOp.effect i (.openSidecar resource) c w = some (a, w')) :
    LeaseInv w' ∧ Guar i w w' ∧ Untouched i w' ∧
      ∀ fd, a = .ok fd → Polls i fd resource .unlocked w' := by
  cases c with
  | plain => cases h
  | expired | fail =>
    obtain ⟨rfl, rfl⟩ := Prod.mk.inj (Option.some.inj h)
    exact ⟨hinv, guar_refl i _, huntouched, fun fd hfd => by cases hfd⟩
  | fresh n =>
    simp only [LeaseOp.effect] at h
    split at h
    · rename_i hunused
      obtain ⟨rfl, rfl⟩ := Prod.mk.inj (Option.some.inj h)
      have hfree : Unleased w i.pid n := by
        intro id l hl hroot heq
        obtain ⟨fd, hfd, hside⟩ := hinv.1.root hl hroot
        obtain ⟨hpid, hfd'⟩ := Prod.mk.inj heq
        obtain rfl := Option.some.inj (hfd.symm.trans hfd')
        rw [hpid] at hside
        cases hunused.symm.trans hside
      refine ⟨⟨hinv.1.setSidecar hfree fun _ _ _ => ⟨fun hx => ?_, fun _ => rfl⟩, hinv.2⟩,
        guar_setSidecar w i n _ fun d' hd' => ?_, huntouched, fun fd hfd => ?_⟩
      · cases hx
      · cases hunused.symm.trans hd'
      · obtain rfl := Except.ok.inj hfd
        exact ⟨sidecarAt_setSidecar.mpr (.inl ⟨rfl, rfl⟩), huntouched⟩
    · cases h

theorem flock_spec {exclusive : Bool} (hpolls : Polls i fd resource .unlocked w) {a : Poll}
    (h : LeaseOp.effect i (.flock fd exclusive) c w = some (a, w')) : LeaseInv w' ∧ Guar i w w' ∧
      (a = .taken → Polls i fd resource (.ofExclusive exclusive) w') ∧
      (a ≠ .taken → Polls i fd resource .unlocked w') := by
  obtain ⟨hside, huntouched⟩ := hpolls
  have hget : w.sidecars.get? (i.pid, fd) =
      some { resource, lock := .unlocked, pending := some i } := hside
  have hsame : a ≠ .taken → w' = w → LeaseInv w' ∧ Guar i w w' ∧
      (a = .taken → Polls i fd resource (.ofExclusive exclusive) w') ∧
      (a ≠ .taken → Polls i fd resource .unlocked w') := by
    rintro hne rfl
    exact ⟨hinv, guar_refl i _, fun heq => absurd heq hne, fun _ => ⟨hside, huntouched⟩⟩
  cases c with
  | expired | fresh n => cases h
  | fail =>
    obtain ⟨rfl, rfl⟩ := Prod.mk.inj (Option.some.inj h)
    exact hsame (by decide) rfl
  | plain =>
    simp only [LeaseOp.effect, hget] at h
    split at h
    · rename_i hfree
      obtain ⟨rfl, rfl⟩ := Prod.mk.inj (Option.some.inj h)
      refine ⟨⟨hinv.1.setSidecar (hinv.1.unleased hside (by simp))
          (fun hk hd hresource => isFree_compatible hfree hk hd hresource), hinv.2⟩,
        guar_setSidecar w i fd _ fun d' hd' => ?_, fun _ => ?_, fun hne => absurd rfl hne⟩
      · obtain rfl := Option.some.inj (hside.symm.trans hd')
        rfl
      · exact ⟨sidecarAt_setSidecar.mpr (.inl ⟨rfl, rfl⟩), huntouched⟩
    · obtain ⟨rfl, rfl⟩ := Prod.mk.inj (Option.some.inj h)
      exact hsame (by decide) rfl

theorem enterRegistry_spec {exclusive : Bool} {a : Entry}
    (h : LeaseOp.effect i (.enterRegistry resource exclusive) c w = some (a, w')) :
    LeaseInv w' ∧ Guar i w w' ∧ ((∃ id, a = .borrowed id) ∨ w' = w) := by
  cases c with
  | plain | fail => cases h
  | expired =>
    obtain ⟨rfl, rfl⟩ := Prod.mk.inj (Option.some.inj h)
    exact ⟨hinv, guar_refl i _, .inr rfl⟩
  | fresh id =>
    simp only [LeaseOp.effect] at h
    split at h
    · rename_i hfresh
      split at h
      · rename_i root hroot
        obtain ⟨rfl, rfl⟩ := Prod.mk.inj (Option.some.inj h)
        exact ⟨hinv.borrow hfresh hroot, guar_borrow, .inl ⟨id, rfl⟩⟩
      · split at h
        · obtain ⟨rfl, rfl⟩ := Prod.mk.inj (Option.some.inj h)
          exact ⟨hinv, guar_refl i _, .inr rfl⟩
        · obtain ⟨rfl, rfl⟩ := Prod.mk.inj (Option.some.inj h)
          exact ⟨hinv, guar_refl i _, .inr rfl⟩
    · cases h

theorem publish_spec {exclusive : Bool} (hpolls : Polls i fd resource (.ofExclusive exclusive) w)
    {a : Option Nat} (h : LeaseOp.effect i (.publish resource exclusive fd) c w = some (a, w')) :
    LeaseInv w' ∧ Guar i w w' ∧
      (a = none → Polls i fd resource (.ofExclusive exclusive) w') := by
  obtain ⟨hside, huntouched⟩ := hpolls
  have hget : w.sidecars.get? (i.pid, fd) =
      some { resource, lock := .ofExclusive exclusive, pending := some i } := hside
  cases c with
  | plain | fail => cases h
  | expired =>
    obtain ⟨rfl, rfl⟩ := Prod.mk.inj (Option.some.inj h)
    exact ⟨hinv, guar_refl i _, fun _ => ⟨hside, huntouched⟩⟩
  | fresh id =>
    simp only [LeaseOp.effect, hget] at h
    split at h
    · rename_i hfresh
      obtain ⟨rfl, rfl⟩ := Prod.mk.inj (Option.some.inj h)
      refine ⟨hinv.publish hfresh hside (by simp) rfl rfl, ?_, fun hnone => by cases hnone⟩
      refine guar_noteChange w _ i rfl rfl fun j hj fd' d hd hpending => ?_
      refine sidecarAt_setSidecar.mpr (.inr ⟨fun heq => ?_, hd⟩)
      rw [heq] at hd
      obtain rfl := Option.some.inj (hd.symm.trans hside)
      exact hj (Option.some.inj hpending).symm
    · cases h

theorem release_spec {id : Nat} {a : Except LeaseError Unit}
    (h : LeaseOp.effect i (.release id) c w = some (a, w')) :
    LeaseInv w' ∧ Guar i w w' ∧ (a = .ok () ∨ w' = w) := by
  cases c with
  | expired | fail | fresh n => cases h
  | plain =>
    simp only [LeaseOp.effect] at h
    split at h
    · cases h
    · rename_i l hl
      split at h
      · cases h
      · rename_i hpid
        split at h
        · obtain ⟨rfl, rfl⟩ := Prod.mk.inj (Option.some.inj h)
          exact ⟨hinv, guar_refl i _, .inl rfl⟩
        · rename_i hopen
          split at h
          · obtain ⟨rfl, rfl⟩ := Prod.mk.inj (Option.some.inj h)
            exact ⟨hinv, guar_refl i _, .inr rfl⟩
          · rename_i hrefusal
            obtain ⟨rfl, rfl⟩ := Prod.mk.inj (Option.some.inj h)
            obtain ⟨hinv', hguar⟩ := hinv.release hl (not_ne_iff.mp hpid)
              (Bool.eq_false_iff.mpr hopen) hrefusal
            exact ⟨hinv', hguar, .inl rfl⟩

theorem bindConnection_spec {id : Nat} {connection : Connection} {a : Except LeaseError Unit}
    (h : LeaseOp.effect i (.bindConnection id connection) c w = some (a, w')) :
    LeaseInv w' ∧ Guar i w w' ∧ (a = .ok () ∨ w' = w) := by
  cases c with
  | expired | fail | fresh n => cases h
  | plain =>
    simp only [LeaseOp.effect] at h
    split at h
    · cases h
    · rename_i l hl
      split at h
      · cases h
      · split at h
        · obtain ⟨rfl, rfl⟩ := Prod.mk.inj (Option.some.inj h)
          exact ⟨hinv, guar_refl i _, .inr rfl⟩
        · split at h
          · obtain ⟨rfl, rfl⟩ := Prod.mk.inj (Option.some.inj h)
            exact ⟨hinv, guar_refl i _, .inl rfl⟩
          · split at h
            · obtain ⟨rfl, rfl⟩ := Prod.mk.inj (Option.some.inj h)
              exact ⟨hinv, guar_refl i _, .inr rfl⟩
            · obtain ⟨rfl, rfl⟩ := Prod.mk.inj (Option.some.inj h)
              exact ⟨hinv.bind i hl connection, guar_noteChange w _ i rfl rfl
                fun _ _ _ _ hd _ => hd, .inl rfl⟩

end

theorem giveUp_safe {lock : Lock} (e : LeaseError) (h : There i (Polls i fd resource lock) w) :
    Safe (LeaseOp.act i) (leaseConduct i) (Refused i Q) (giveUp fd e) w := by
  refine safe_call (own_polls fd resource lock) h fun w' hinv hpolls c a w'' heffect => ?_
  obtain ⟨hinv', hguar, huntouched⟩ := closePending_spec hinv hpolls heffect
  exact ⟨hinv', hguar, safe_raise fun _ => huntouched⟩

/-- What the polls on a descriptor give. -/
def PollResult (i : Thread) (fd : Nat) (resource : String) (exclusive : Bool) :
    Option Nat → LeaseWorld → Prop
  | some fd', w => fd' = fd ∧ There i (Polls i fd resource (.ofExclusive exclusive)) w
  | none, w => There i (Untouched i) w

theorem pollLock_safe {exclusive : Bool} :
    ∀ (polls : Nat) {w : LeaseWorld}, There i (Polls i fd resource .unlocked) w →
      Safe (LeaseOp.act i) (leaseConduct i) (Refused i (PollResult i fd resource exclusive))
        (pollLock fd exclusive polls) w := by
  intro polls
  induction polls with
  | zero => exact fun h => giveUp_safe _ h
  | succ polls ih =>
    intro w h
    have hopen : Own i (Polls i fd resource .unlocked) := own_polls fd resource .unlocked
    have htaken : Own i (Polls i fd resource (.ofExclusive exclusive)) :=
      own_polls fd resource (.ofExclusive exclusive)
    refine safe_look hopen h checkDeadline_looks fun a₁ w₁ _ h₁ => ?_
    cases a₁ with
    | false => exact giveUp_safe _ h₁
    | true =>
      refine safe_call hopen h₁ fun w₂ hinv₂ hpolls₂ c₂ a₂ w₃ heffect => ?_
      obtain ⟨hinv₃, hguar, hlocked, hunlocked⟩ := flock_spec hinv₂ hpolls₂ heffect
      refine ⟨hinv₃, hguar, ?_⟩
      cases a₂ with
      | failed => exact giveUp_safe _ fun _ => hunlocked (by decide)
      | busy => exact ih fun _ => hunlocked (by decide)
      | taken =>
        refine safe_look htaken (fun _ => hlocked rfl) checkDeadline_looks fun a₄ w₄ _ h₄ => ?_
        cases a₄ with
        | false => exact giveUp_safe _ h₄
        | true =>
          refine safe_look htaken h₄ (sidecarIsHeld_looks fd) fun a₅ w₅ _ h₅ => ?_
          cases a₅ with
          | error e => exact giveUp_safe _ h₅
          | ok held =>
            cases held with
            | false =>
              refine safe_call htaken h₅ fun w₆ hinv₆ hpolls₆ c₆ a₆ w₇ heffect₆ => ?_
              obtain ⟨hinv₇, hguar₇, huntouched⟩ := closePending_spec hinv₆ hpolls₆ heffect₆
              exact ⟨hinv₇, hguar₇, safe_ret own_untouched (fun _ => huntouched) fun _ h => h⟩
            | true =>
              refine safe_look htaken h₅ checkDeadline_looks fun a₆ w₆ _ h₆ => ?_
              cases a₆ with
              | false => exact giveUp_safe _ h₆
              | true => exact safe_ret htaken h₆ fun _ h => ⟨rfl, h⟩

theorem acquireDescriptor_safe {exclusive : Bool} (polls : Nat) :
    ∀ (tries : Nat) {w : LeaseWorld}, LeaseInv w → There i (Untouched i) w →
      Safe (LeaseOp.act i) (leaseConduct i)
        (Refused i fun fd => There i (Polls i fd resource (.ofExclusive exclusive)))
        (acquireDescriptor resource exclusive polls tries) w := by
  intro tries
  induction tries with
  | zero => exact fun _ h => safe_raise h
  | succ tries ih =>
    intro w _ h
    refine safe_look own_untouched h checkDeadline_looks fun a₁ w₁ _ h₁ => ?_
    cases a₁ with
    | false => exact safe_raise h₁
    | true =>
      refine safe_call own_untouched h₁ fun w₂ hinv₂ huntouched₂ c₂ a₂ w₃ heffect => ?_
      obtain ⟨hinv₃, hguar, huntouched₃, hpolls⟩ := openSidecar_spec hinv₂ huntouched₂ heffect
      refine ⟨hinv₃, hguar, ?_⟩
      cases a₂ with
      | error e => exact safe_raise fun _ => huntouched₃
      | ok fd =>
        have hpoll : Safe (LeaseOp.act i) (leaseConduct i)
            (Refused i (PollResult i fd resource exclusive)) (pollLock fd exclusive polls) w₃ :=
          pollLock_safe polls fun _ => hpolls fd rfl
        refine Safe.bind ?_ (fun x w₄ _ h₄ => ?_) hinv₃ hpoll
        swap
        · exact h₄
        intro result w₄ hinv₄ hresult
        cases result with
        | none => exact ih hinv₄ hresult
        | some fd' =>
          obtain ⟨rfl, hlocked⟩ := hresult
          exact safe_ret (own_polls _ _ _) hlocked fun _ h => h

/-- Nothing is said about a value that is returned. -/
def anyValue : α → LeaseWorld → Prop := fun _ _ => True

theorem safe_ret_any (a : α) (w : LeaseWorld) :
    Safe (LeaseOp.act i) (leaseConduct i) (Refused i anyValue) (.ret a) w :=
  Safe.ret fun _ _ _ => trivial

/-- `LifecycleLease.__init__` keeps the accounting. -/
theorem acquire_safe (resource : String) (exclusive : Bool) (polls tries : Nat)
    (h : There i (Untouched i) w) : Safe (LeaseOp.act i) (leaseConduct i) (Refused i anyValue)
      (acquire resource exclusive polls tries) w := by
  refine safe_look own_untouched h checkDeadline_looks fun a₁ w₁ _ h₁ => ?_
  cases a₁ with
  | false => exact safe_raise h₁
  | true =>
    refine safe_call own_untouched h₁ fun w₂ hinv₂ huntouched₂ c₂ a₂ w₃ heffect => ?_
    obtain ⟨hinv₃, hguar, hentry⟩ := enterRegistry_spec hinv₂ heffect
    refine ⟨hinv₃, hguar, ?_⟩
    have hsame : (∀ id, a₂ ≠ .borrowed id) → There i (Untouched i) w₃ := by
      intro hnone _
      rcases hentry with ⟨id, hid⟩ | rfl
      · exact absurd hid (hnone id)
      · exact huntouched₂
    cases a₂ with
    | borrowed id => exact safe_ret_any _ _
    | expired => exact safe_raise (hsame fun id hid => by cases hid)
    | cannotUpgrade => exact safe_raise (hsame fun id hid => by cases hid)
    | proceed =>
      have hstart : There i (Untouched i) w₃ := hsame fun id hid => by cases hid
      have hdescriptor : Safe (LeaseOp.act i) (leaseConduct i)
          (Refused i fun fd => There i (Polls i fd resource (.ofExclusive exclusive)))
          (acquireDescriptor resource exclusive polls tries) w₃ :=
        acquireDescriptor_safe polls tries hinv₃ hstart
      refine Safe.bind ?_ (fun x w₄ _ h₄ => ?_) hinv₃ hdescriptor
      swap
      · exact h₄
      intro fd w₄ hinv₄ hlocked
      refine safe_call (own_polls fd resource (.ofExclusive exclusive)) hlocked ?_
      intro w₅ hinv₅ hpolls₅ c₅ a₅ w₆ heffect₅
      obtain ⟨hinv₆, hguar₆, hkept⟩ := publish_spec hinv₅ hpolls₅ heffect₅
      refine ⟨hinv₆, hguar₆, ?_⟩
      cases a₅ with
      | some id => exact safe_ret_any _ _
      | none => exact giveUp_safe _ fun _ => hkept rfl

theorem single_safe {next : e.Answer → LeaseM (Option Nat)} (h : There i (Untouched i) w)
    (hspec : ∀ w' w'' c a, LeaseInv w' → LeaseOp.effect i e c w' = some (a, w'') →
      LeaseInv w'' ∧ Guar i w' w'' ∧
        ((∃ value, next a = .ret value) ∨ (∃ x, next a = .raise x) ∧ w'' = w')) :
    Safe (LeaseOp.act i) (leaseConduct i) (Refused i anyValue) (.call e next) w := by
  refine safe_call own_untouched h fun w₁ hinv₁ huntouched c a w₂ heffect => ?_
  obtain ⟨hinv₂, hguar, ⟨value, hret⟩ | ⟨⟨x, hraise⟩, rfl⟩⟩ := hspec w₁ w₂ c a hinv₁ heffect
  · rw [hret]
    exact ⟨hinv₂, hguar, safe_ret_any _ _⟩
  · rw [hraise]
    exact ⟨hinv₂, hguar, safe_raise fun _ => huntouched⟩

/-- Every request keeps the accounting. -/
theorem body_safe (r : LeaseRequest) (h : There i (Untouched i) w) :
    Safe (LeaseOp.act i) (leaseConduct i) (Refused i anyValue) r.body w := by
  cases r with
  | acquire resource exclusive polls tries => exact acquire_safe resource exclusive polls tries h
  | release id =>
    refine single_safe h fun w' w'' c a hinv heffect => ?_
    obtain ⟨hinv', hguar, hdone⟩ := release_spec hinv heffect
    refine ⟨hinv', hguar, ?_⟩
    cases a with
    | ok u => exact .inl ⟨none, rfl⟩
    | error e =>
      rcases hdone with hok | hsame
      · cases hok
      · exact .inr ⟨⟨e, rfl⟩, hsame⟩
  | bindConnection id connection =>
    refine single_safe h fun w' w'' c a hinv heffect => ?_
    obtain ⟨hinv', hguar, hdone⟩ := bindConnection_spec hinv heffect
    refine ⟨hinv', hguar, ?_⟩
    cases a with
    | ok u => exact .inl ⟨none, rfl⟩
    | error e =>
      rcases hdone with hok | hsame
      · cases hok
      · exact .inr ⟨⟨e, rfl⟩, hsame⟩

theorem leaseInv_empty : LeaseInv {} := by
  refine ⟨⟨List.nodup_nil, ?_, ?_, ?_, ?_⟩, ?_⟩
  · intro id l hl
    cases hl
  · intro id l id' l' hl
    cases hl
  · intro id l p hl
    cases hl
  · intro k k' d d' hd
    cases hd
  · intro id l hl
    cases hl

/-- The threads fit together. -/
theorem leaseSystem_sound :
    Sound leaseSystem leaseConduct LeaseInv fun i => Refused i anyValue where
  inv_eq _ := rfl
  enter i r w hinv := by
    refine ⟨⟨⟨hinv.1.keys, hinv.1.root, hinv.1.distinct, hinv.1.nested, hinv.1.compatible⟩,
      hinv.2⟩, body_safe r fun _ => Function.update_self _ _ _, fun j hj hthere => ?_⟩
    exact ⟨hthere, Function.update_of_ne hj _ _, fun _ _ hd _ => hd⟩
  compat i j e c a w w' hj _ _ _ hguar := by
    intro hthere
    exact ⟨hguar.1 ▸ hthere, hguar.2.2 j hj⟩
  env d w w' hinv henv := by
    obtain rfl := Option.some.inj henv
    exact ⟨hinv.event d, fun j => rely_event j d w⟩

/-- What the leases of all processes keep to. -/
structure Exclusive (w : LeaseWorld) : Prop where
  /-- Beside a live exclusive root there are only its own nested leases. -/
  alone : ∀ {id r id' l}, LeaseAt w id r → r.IsRoot → r.exclusive = true → LeaseAt w id' l →
    l.live = true → l.resource = r.resource → id' ≠ id → l.parent = some id
  /-- A live nested lease belongs to the thread of its root, which is live. -/
  owners : ∀ {id l p}, LeaseAt w id l → l.IsNestedIn p →
    ∃ r, LeaseAt w p r ∧ r.IsRoot ∧ r.owner = l.owner
  /-- A live root counts itself and its live nested leases. -/
  references : ∀ {id r}, LeaseAt w id r → r.IsRoot → r.references = 1 + borrowers w id
  /-- The lock is there while the root or a nested lease is live. -/
  locked : ∀ {id l}, LeaseAt w id l → l.live = true → ∃ r fd, LeaseAt w (l.parent.getD id) r ∧
    r.fd = some fd ∧ SidecarAt w (r.owner.pid, fd) r.sidecar

theorem LeaseInv.exclusive (h : LeaseInv w) : Exclusive w := by
  -- Two roots of one resource are one if one of them is exclusive.
  have hroots : ∀ {id r id' r'}, LeaseAt w id r → r.IsRoot → r.exclusive = true →
      LeaseAt w id' r' → r'.IsRoot → r'.resource = r.resource → id' = id := by
    intro id r id' r' hr hroot hexclusive hr' hroot' hresource
    obtain ⟨fd, hfd, hside⟩ := h.1.root hr hroot
    obtain ⟨fd', hfd', hside'⟩ := h.1.root hr' hroot'
    by_cases hkey : (r.owner.pid, fd) = (r'.owner.pid, fd')
    · obtain ⟨hpid, rfl⟩ := Prod.mk.inj hkey
      exact h.1.distinct hr' hroot' hr hroot hpid.symm (hfd'.trans hfd.symm)
    · have hlock : r.sidecar.lock = .exclusive := by
        unfold Lease.sidecar Lock.ofExclusive
        rw [hexclusive]
        rfl
      have hunlocked := h.1.compatible hside hside' hkey hresource.symm hlock
      unfold Lease.sidecar Lock.ofExclusive at hunlocked
      simp only at hunlocked
      split at hunlocked
      · cases hunlocked
      · cases hunlocked
  refine ⟨?_, ?_, fun hr hroot => h.2 _ _ hr hroot, ?_⟩
  · intro id r id' l hr hroot hexclusive hl hlive hresource hne
    cases hparent : l.parent with
    | none => exact absurd (hroots hr hroot hexclusive hl ⟨hlive, hparent⟩ hresource) hne
    | some p =>
      obtain ⟨r', hr', hroot', -, hresource', -⟩ := h.1.nested hl ⟨hlive, hparent⟩
      rw [hroots hr hroot hexclusive hr' hroot' (hresource'.trans hresource)]
  · intro id l p hl hnested
    obtain ⟨r, hr, hroot, -, -, howner⟩ := h.1.nested hl hnested
    exact ⟨r, hr, hroot, howner⟩
  · intro id l hl hlive
    cases hparent : l.parent with
    | none =>
      obtain ⟨fd, hfd, hside⟩ := h.1.root hl ⟨hlive, hparent⟩
      exact ⟨l, fd, hl, hfd, hside⟩
    | some p =>
      obtain ⟨r, hr, hroot, -⟩ := h.1.nested hl ⟨hlive, hparent⟩
      obtain ⟨fd, hfd, hside⟩ := h.1.root hr hroot
      exact ⟨r, fd, hr, hfd, hside⟩

/-- In every configuration that threads of any processes reach: the leases exclude, a request that
is refused has not changed the accounting, and every change of it is noted with the thread whose
request makes it, unless a process dies. -/
theorem leases_exclude {s : Config Thread LeaseOp LeaseOp.Answer LeaseError (Option Nat) LeaseWorld}
    (hreach : leaseSystem.Reachable (· = {}) s) :
    Exclusive s.world ∧
    (∀ i e, s.procs i = some (.raise e) → i.pid ∉ s.world.gone → s.world.changed i = false) ∧
    ∀ label s', leaseSystem.next s label = some s' → s'.world.leases ≠ s.world.leases →
      (∃ i c, label = .tick i c ∧ s'.world.changed i = true) ∨
        ∃ pid, label = .env (.crash pid) := by
  have hinit : ∀ w : LeaseWorld, w = {} → LeaseInv w := by
    rintro w rfl
    exact leaseInv_empty
  have hholds := leaseSystem_sound.reachable hinit hreach
  refine ⟨hholds.1.exclusive, fun i e hp => ?_, fun label s' hnext hchange => ?_⟩
  · have hsafe := hholds.2 i _ hp
    exact hsafe s.world ((leaseConduct i).rely_refl _) hholds.1
  · rcases System.next_cases hnext with ⟨i, r, rfl, -, hw, -⟩ | ⟨i, c, e, k, a, rfl, hp, ha, -⟩ |
      ⟨i, p, rfl, -, hw, -⟩ | ⟨d, rfl, hd, -⟩
    · rw [hw] at hchange
      exact absurd rfl hchange
    · obtain ⟨-, hguar, -⟩ := leaseSystem_sound.tick hholds hp ha
      rcases hguar.2.1 with hsame | hnoted
      · exact absurd hsame hchange
      · exact .inl ⟨i, c, rfl, hnoted⟩
    · rw [hw] at hchange
      exact absurd rfl hchange
    · cases d with
      | crash pid => exact .inr ⟨pid, rfl⟩
      | closeConnection id =>
        have hsame : s'.world = (LeaseEvent.closeConnection id).effect s.world :=
          (Option.some.inj hd).symm
        rw [hsame] at hchange
        exact absurd rfl hchange

/-- A thread takes an exclusive lease and nests one, and another process polls in vain. -/
def sampleRun : List (Label Thread LeaseRequest LeaseChoice LeaseEvent) :=
  [.start ⟨1, 1⟩ (.acquire "r" true 1 1), .tick ⟨1, 1⟩ .plain, .tick ⟨1, 1⟩ (.fresh 0),
    .tick ⟨1, 1⟩ .plain, .tick ⟨1, 1⟩ (.fresh 3), .tick ⟨1, 1⟩ .plain, .tick ⟨1, 1⟩ .plain,
    .tick ⟨1, 1⟩ .plain, .tick ⟨1, 1⟩ .plain, .tick ⟨1, 1⟩ .plain, .tick ⟨1, 1⟩ (.fresh 0),
    .halt ⟨1, 1⟩, .start ⟨1, 1⟩ (.acquire "r" false 1 1), .tick ⟨1, 1⟩ .plain,
    .tick ⟨1, 1⟩ (.fresh 1), .start ⟨2, 1⟩ (.acquire "r" false 1 1), .tick ⟨2, 1⟩ .plain,
    .tick ⟨2, 1⟩ (.fresh 2), .tick ⟨2, 1⟩ .plain, .tick ⟨2, 1⟩ (.fresh 3),
    .tick ⟨2, 1⟩ .plain, .tick ⟨2, 1⟩ .plain, .tick ⟨2, 1⟩ .plain]

theorem leases_exclude_sample : ∃ s,
    leaseSystem.exec (System.boot {}) sampleRun = some s ∧
    (s.world.leases.get? 0).map (·.references) = some 2 ∧
    s.world.leases.get? 2 = none ∧ Exclusive s.world := by
  have hrun : (leaseSystem.exec (System.boot {}) sampleRun).map (fun s =>
      ((s.world.leases.get? 0).map (·.references), s.world.leases.get? 2)) =
      some (some 2, none) := by decide +kernel
  obtain ⟨s, hs, hleases⟩ := Option.map_eq_some_iff.mp hrun
  obtain ⟨hroot, hnone⟩ := Prod.mk.inj hleases
  exact ⟨s, hs, hroot, hnone, (leases_exclude ⟨{}, rfl, sampleRun, hs⟩).1⟩

end Workbay.Leases

import Workbay.Gate.Proofs.GateProofs

/-!
# Proofs: the programs of the gate keep the invariant
-/

namespace Workbay.Gate

open Effects ClaimRequest List

variable {ι : Type} [DecidableEq ι] {inode : String → String} {stateDir : String}
  {graph : ConflictGraph} {owner : String → String} {i : ι}

/-- A process has a file that is locked for a lane, is not registered yet and has cleared some
neighbours. -/
def Claiming (i : ι) (fd : Nat) (lane : String) (done : List String) (w : GateWorld ι) : Prop :=
  ∃ o, OpenAt w i fd o ∧ o.Claims lane ∧ Unregistered w i fd ∧ ∀ n ∈ done, n ∈ o.cleared

/-- A process has a file that nobody has locked through it, and that is not registered. -/
def Opened (i : ι) (fd : Nat) (path : String) (inode : String → String) (w : GateWorld ι) : Prop :=
  OpenAt w i fd { file := inode path } ∧ Unregistered w i fd

/-- What depends only on what a process owns. -/
def Own (i : ι) (P : GateWorld ι → Prop) : Prop := ∀ {w w'}, SameOwn i w w' → P w → P w'

theorem own_unregistered (fd : Nat) : Own i fun w => Unregistered w i fd := by
  intro w w' hsame h key
  rw [hsame.2]
  exact h key

theorem own_claiming (fd : Nat) (lane : String) (done : List String) :
    Own i (Claiming i fd lane done) := by
  rintro w w' hsame ⟨o, hopen, hclaims, hfree, hdone⟩
  exact ⟨o, (hsame.1 fd).trans hopen, hclaims, own_unregistered fd hsame hfree, hdone⟩

theorem own_opened (fd : Nat) (path : String) : Own i (Opened i fd path inode) := by
  rintro w w' hsame ⟨hopen, hfree⟩
  exact ⟨(hsame.1 fd).trans hopen, own_unregistered fd hsame hfree⟩

theorem own_and {P Q : GateWorld ι → Prop} (hP : Own i P) (hQ : Own i Q) :
    Own i fun w => P w ∧ Q w :=
  fun hsame h => ⟨hP hsame h.1, hQ hsame h.2⟩

/-- The outcome of a program, while its process is alive. -/
def Alive (i : ι) (P : GateWorld ι → Prop) (w : GateWorld ι) : Prop := w.alive i = true → P w

variable {α : Type} {post : Except GateError α → GateWorld ι → Prop}

/-- The rule for one operation: it starts with what the process knows. -/
theorem safe_call {P : GateWorld ι → Prop} (hown : Own i P) {e : GateOp}
    {next : e.Answer → GateM α} {w : GateWorld ι} (hP : Alive i P w)
    (h : ∀ w', GateInv inode stateDir graph owner w' → P w' → ∀ c a w'',
      GateOp.effect inode i e c w' = some (a, w'') →
      GateInv inode stateDir graph owner w'' ∧ Guar i w' w'' ∧
        Safe (GateOp.act inode i) (gateConduct inode stateDir graph owner i) post (next a) w'') :
    Safe (GateOp.act inode i) (gateConduct inode stateDir graph owner i) post (.call e next) w := by
  refine Safe.call fun w' hrely hinv c a w'' hact => ?_
  unfold GateOp.act at hact
  split at hact
  · rename_i halive
    obtain ⟨hold, hsame⟩ := hrely halive
    exact h w' hinv (hown hsame (hP hold)) c a w'' hact
  · cases hact

theorem safe_ret {P : GateWorld ι → Prop} (hown : Own i P) {a : α} {w : GateWorld ι}
    (hP : Alive i P w) (h : ∀ w', Alive i P w' → post (.ok a) w') :
    Safe (GateOp.act inode i) (gateConduct inode stateDir graph owner i) post (.ret a) w := by
  refine Safe.ret fun w' hrely _ => h w' fun halive => ?_
  obtain ⟨hold, hsame⟩ := hrely halive
  exact hown hsame (hP hold)

section

variable {w w' : GateWorld ι}

variable {c : GateChoice} {fd nfd : Nat}

theorem openFile_spec (h : GateInv inode stateDir graph owner w) {path : String}
    {answer : Option Nat} (heffect : GateOp.effect inode i (.openFile path) c w = some (answer, w')) :
    GateInv inode stateDir graph owner w' ∧ Guar i w w' ∧
      ∀ fd, answer = some fd → Opened i fd path inode w' ∧
        ∀ fd' lane done, Claiming i fd' lane done w → Claiming i fd' lane done w' := by
  cases c with
  | plain | active => cases heffect
  | fail =>
    obtain ⟨rfl, rfl⟩ := Prod.mk.inj (Option.some.inj heffect)
    exact ⟨h, guar_refl i w, fun fd hfd => by cases hfd⟩
  | fd n =>
    simp only [GateOp.effect] at heffect
    split at heffect
    · rename_i hunused
      obtain ⟨rfl, rfl⟩ := Prod.mk.inj (Option.some.inj heffect)
      have hfree : Unregistered w i n := by
        intro key hget
        obtain ⟨o, hopen, -⟩ := h.registered hget
        cases hunused.symm.trans hopen
      have hnone : ∀ lane, ¬ OpenFile.Claims { file := inode path } lane := by
        rintro lane ⟨hlock, -⟩
        cases hlock
      refine ⟨h.setFile hfree (fun lane hclaims => absurd hclaims (hnone lane))
        (fun hclaims => absurd hclaims (hnone _)) (fun hclaims => absurd hclaims (hnone _)),
        guar_setFile w i n _, ?_⟩
      rintro fd hfd
      obtain rfl := Option.some.inj hfd
      refine ⟨⟨openAt_setFile.mpr (.inl ⟨rfl, rfl⟩), hfree⟩, ?_⟩
      rintro fd' lane done ⟨o, hopen, hclaims, hfree', hdone⟩
      refine ⟨o, openAt_setFile.mpr (.inr ⟨?_, hopen⟩), hclaims, hfree', hdone⟩
      intro heq
      obtain rfl := (Prod.mk.inj heq).2
      cases hunused.symm.trans hopen
    · cases heffect

theorem blocks_false {o : OpenFile} : blocks false o = false ↔ o.lock ≠ .exclusive := by
  cases o with
  | mk file lock lane cleared => cases lock <;> simp [blocks]

theorem not_blocks {key : ι × Nat} {exclusive : Bool} {o : OpenFile}
    (h : isFree w key exclusive o = true) {j : ι} {o' : OpenFile} (hopen : OpenAt w j fd o')
    (hne : (j, fd) ≠ key) (hfile : o'.file = o.file) : blocks exclusive o' = false := by
  have hentry := all_eq_true.mp h _ (Dict.mem_of_get? hopen)
  simpa [hne, hfile] using hentry

variable {lane : String} {answer : Unit}

section

variable (h : GateInv inode stateDir graph owner w)

include h

theorem lockExclusive_spec (hopened : Opened i fd (claimPath stateDir (owner lane) lane) inode w)
    {answer : Bool}
    (heffect : GateOp.effect inode i (.lockExclusive fd lane) c w = some (answer, w')) :
    GateInv inode stateDir graph owner w' ∧ Guar i w w' ∧
      (answer = true → Claiming i fd lane [] w') ∧ (answer = false → Unregistered w' i fd) := by
  obtain ⟨hopen, hfree⟩ := hopened
  have hrefused : w' = w ∧ answer = false → GateInv inode stateDir graph owner w' ∧ Guar i w w' ∧
      (answer = true → Claiming i fd lane [] w') ∧ (answer = false → Unregistered w' i fd) := by
    rintro ⟨rfl, rfl⟩
    exact ⟨h, guar_refl i w', fun hno => absurd hno Bool.false_ne_true, fun _ => hfree⟩
  cases c with
  | fd n | active => cases heffect
  | fail =>
    obtain ⟨rfl, rfl⟩ := Prod.mk.inj (Option.some.inj heffect)
    exact hrefused ⟨rfl, rfl⟩
  | plain =>
    simp only [GateOp.effect, show w.files.get? (i, fd) = some _ from hopen] at heffect
    split at heffect
    · obtain ⟨rfl, rfl⟩ := Prod.mk.inj (Option.some.inj heffect)
      refine ⟨h.setFile hfree (fun lane' hclaims => ?_) (fun _ _ _ _ hb => absurd hb (by simp))
        (by simp), guar_setFile w i fd _, fun _ => ?_,
        fun hno => absurd hno.symm Bool.false_ne_true⟩
      · obtain rfl := Option.some.inj hclaims.2
        rfl
      · exact ⟨_, openAt_setFile.mpr (.inl ⟨rfl, rfl⟩), ⟨rfl, rfl⟩, hfree, by simp⟩
    · obtain ⟨rfl, rfl⟩ := Prod.mk.inj (Option.some.inj heffect)
      exact hrefused ⟨rfl, rfl⟩

theorem lockShared_spec {n : String} {done : List String} (hclaiming : Claiming i fd lane done w)
    (hopened : Opened i nfd (claimPath stateDir (owner n) n) inode w) {answer : Bool}
    (heffect : GateOp.effect inode i (.lockShared nfd fd n) c w = some (answer, w')) :
    GateInv inode stateDir graph owner w' ∧ Guar i w w' ∧ Unregistered w' i nfd ∧ nfd ≠ fd ∧
      Claiming i fd lane (if answer then n :: done else done) w' := by
  obtain ⟨claim, hclaim, hclaims, hfree, hdone⟩ := hclaiming
  obtain ⟨hopen, hfreeN⟩ := hopened
  have hne : nfd ≠ fd := by
    rintro rfl
    obtain rfl := Option.some.inj (hopen.symm.trans hclaim)
    cases hclaims.1
  have hrefused : w' = w ∧ answer = false → GateInv inode stateDir graph owner w' ∧ Guar i w w' ∧
      Unregistered w' i nfd ∧ nfd ≠ fd ∧
      Claiming i fd lane (if answer then n :: done else done) w' := by
    rintro ⟨rfl, rfl⟩
    exact ⟨h, guar_refl i w', hfreeN, hne, claim, hclaim, hclaims, hfree, hdone⟩
  cases c with
  | fd m | active => cases heffect
  | fail =>
    obtain ⟨rfl, rfl⟩ := Prod.mk.inj (Option.some.inj heffect)
    exact hrefused ⟨rfl, rfl⟩
  | plain =>
    simp only [GateOp.effect, show w.files.get? (i, nfd) = some _ from hopen,
      show w.files.get? (i, fd) = some claim from hclaim] at heffect
    split at heffect
    · rename_i hlockFree
      obtain ⟨rfl, rfl⟩ := Prod.mk.inj (Option.some.inj heffect)
      -- nobody who claims the neighbour has its file locked
      have hnobody : ∀ {j fd' o'}, OpenAt w j fd' o' → o'.Claims n → False := by
        intro j fd' o' hopen' hclaims'
        have hfile := h.file hopen' hclaims'
        have hother : (j, fd') ≠ (i, nfd) := by
          intro heq
          obtain ⟨rfl, rfl⟩ := Prod.mk.inj heq
          obtain rfl := Option.some.inj (hopen.symm.trans hopen')
          cases hclaims'.1
        exact blocks_false.mp (not_blocks hlockFree hopen' hother hfile) hclaims'.1
      have hmarked : GateInv inode stateDir graph owner
          (w.setFile i fd { claim with cleared := n :: claim.cleared }) := by
        have hfile : ∀ lane', claim.Claims lane' →
            claim.file = inode (claimPath stateDir (owner lane') lane') :=
          fun lane' hclaims' => h.file hclaim hclaims'
        refine h.setFile hfree hfile ?_ ?_
        · intro a j fd' o' b hclaimsA hother hopen' hclaims' hb
          rcases mem_cons.mp hb with rfl | hb
          · exact absurd hclaims' fun hclaims' => hnobody hopen' hclaims'
          · exact h.ordered hclaim hclaimsA hopen' hclaims' hb
        · intro a hclaimsA ha
          rcases mem_cons.mp ha with rfl | ha
          · exact hnobody hclaim hclaimsA
          · exact h.ordered hclaim hclaimsA hclaim hclaimsA ha ha
      have hshared : ∀ lane', ¬ OpenFile.Claims { file := inode (claimPath stateDir (owner n) n)
                                                  lock := .shared } lane' := by
        rintro lane' ⟨hlock, -⟩
        cases hlock
      refine ⟨hmarked.setFile hfreeN (fun lane' hclaims' => absurd hclaims' (hshared lane'))
        (fun hclaims' => absurd hclaims' (hshared _)) (fun hclaims' => absurd hclaims' (hshared _)),
        (guar_setFile w i fd _).trans (guar_setFile _ i nfd _), hfreeN, hne, ?_⟩
      refine ⟨_, openAt_setFile.mpr (.inr ⟨?_, openAt_setFile.mpr (.inl ⟨rfl, rfl⟩)⟩), hclaims,
        hfree, ?_⟩
      · exact fun heq => hne (Prod.mk.inj heq).2.symm
      · intro m hm
        rcases mem_cons.mp hm with rfl | hm
        · exact mem_cons_self
        · exact mem_cons_of_mem _ (hdone m hm)
    · obtain ⟨rfl, rfl⟩ := Prod.mk.inj (Option.some.inj heffect)
      exact hrefused ⟨rfl, rfl⟩

theorem unlock_spec {done : List String} (hfree : Unregistered w i nfd) (hne : nfd ≠ fd)
    (hclaiming : Claiming i fd lane done w)
    (heffect : GateOp.effect inode i (.unlock nfd) c w = some (answer, w')) :
    GateInv inode stateDir graph owner w' ∧ Guar i w w' ∧ Unregistered w' i nfd ∧
      Claiming i fd lane done w' := by
  cases c with
  | fd m | active => cases heffect
  | fail =>
    obtain ⟨-, rfl⟩ := Prod.mk.inj (Option.some.inj heffect)
    exact ⟨h, guar_refl i w, hfree, hclaiming⟩
  | plain =>
    simp only [GateOp.effect] at heffect
    split at heffect
    · obtain ⟨-, rfl⟩ := Prod.mk.inj (Option.some.inj heffect)
      rename_i o hopen
      have hnone : ∀ lane', ¬ OpenFile.Claims { o with lock := .unlocked } lane' := by
        rintro lane' ⟨hlock, -⟩
        cases hlock
      refine ⟨h.setFile hfree (fun lane' hclaims => absurd hclaims (hnone lane'))
        (fun hclaims => absurd hclaims (hnone _)) (fun hclaims => absurd hclaims (hnone _)),
        guar_setFile w i nfd _, hfree, ?_⟩
      obtain ⟨claim, hclaim, hclaims, hfree', hdone⟩ := hclaiming
      exact ⟨claim, openAt_setFile.mpr (.inr ⟨fun heq => hne (Prod.mk.inj heq).2.symm, hclaim⟩),
        hclaims, hfree', hdone⟩
    · obtain ⟨-, rfl⟩ := Prod.mk.inj (Option.some.inj heffect)
      exact ⟨h, guar_refl i w, hfree, hclaiming⟩

theorem close_spec (hfree : Unregistered w i nfd)
    (heffect : GateOp.effect inode i (.close nfd) c w = some (answer, w')) :
    GateInv inode stateDir graph owner w' ∧ Guar i w w' ∧
      ∀ fd lane done, nfd ≠ fd → Claiming i fd lane done w → Claiming i fd lane done w' := by
  cases c with
  | fd m | active | fail => cases heffect
  | plain =>
    obtain ⟨-, rfl⟩ := Prod.mk.inj (Option.some.inj heffect)
    refine ⟨h.close hfree, guar_close w i nfd, ?_⟩
    rintro fd lane done hne ⟨claim, hclaim, hclaims, hfree', hdone⟩
    refine ⟨claim, ?_, hclaims, hfree', hdone⟩
    exact (Dict.get?_pop_of_ne _ fun heq => hne (Prod.mk.inj heq).2.symm).trans hclaim

theorem popValue_spec (heffect : GateOp.effect inode i (.popValue fd) c w = some (answer, w')) :
    GateInv inode stateDir graph owner w' ∧ Guar i w w' ∧ Unregistered w' i fd := by
  cases c with
  | fd m | active | fail => cases heffect
  | plain =>
    obtain ⟨-, rfl⟩ := Prod.mk.inj (Option.some.inj heffect)
    exact ⟨h.popValue i fd, guar_setRegistry w i _, unregistered_popValue h i fd⟩

end

end

/-- Nothing is said of the outcome of a call. -/
def anyOutcome (_ : Except GateError α) (_ : GateWorld ι) : Prop := True

theorem own_true : Own i fun _ => True := fun _ h => h

theorem releaseClaim_safe {f : Unit → GateM α} (fd : Nat) (w : GateWorld ι)
    (hf : ∀ w', Safe (GateOp.act inode i) (gateConduct inode stateDir graph owner i) post (f ()) w') :
    Safe (GateOp.act inode i) (gateConduct inode stateDir graph owner i) post
      (releaseClaim fd >>= f) w := by
  show Safe _ _ _ (.call (.popValue fd) fun _ => .call (.close fd) fun a => f a) w
  refine safe_call own_true (fun _ => trivial) fun w' hinv _ c a w'' heffect => ?_
  obtain ⟨hinv', hguar, hfree⟩ := popValue_spec hinv heffect
  refine ⟨hinv', hguar, safe_call (own_unregistered fd) (fun _ => hfree) ?_⟩
  intro w₁ hinv₁ hfree₁ c₁ a₁ w₂ heffect₁
  obtain ⟨hinv₂, hguar₂, -⟩ := close_spec hinv₁ hfree₁ heffect₁
  exact ⟨hinv₂, hguar₂, hf w₂⟩

/-- What is known after the neighbours have been probed. -/
def Probed (i : ι) (fd : Nat) (lane : String) (done : List String) :
    Except GateError Bool → GateWorld ι → Prop
  | .ok true, w => Alive i (Claiming i fd lane done) w
  | _, _ => True

variable {r : ClaimRequest}

theorem probeNeighbours_safe {fd : Nat} {ns : List String} (hns : ∀ n ∈ ns, r.ownerOf n = owner n) :
    ∀ {done : List String} {w : GateWorld ι}, Alive i (Claiming i fd r.laneId done) w →
      Safe (GateOp.act inode i) (gateConduct inode stateDir graph owner i)
        (fun outcome w' => ∀ cleared, (∀ n ∈ cleared, n ∈ done ∨ n ∈ ns) →
          Probed i fd r.laneId cleared outcome w') (probeNeighbours stateDir r fd ns) w := by
  induction ns with
  | nil =>
    intro done w hclaiming
    refine safe_ret (own_claiming fd r.laneId done) hclaiming fun w' halive cleared hcleared => ?_
    intro hlive
    obtain ⟨o, hopen, hclaims, hfree, hdone⟩ := halive hlive
    exact ⟨o, hopen, hclaims, hfree, fun n hn => hdone n ((hcleared n hn).resolve_right (by simp))⟩
  | cons n ns ih =>
    intro done w hclaiming
    refine safe_call (own_claiming fd r.laneId done) hclaiming fun w₁ hinv₁ hclaiming₁ c₁ a₁ w₂ h₁ => ?_
    obtain ⟨hinv₂, hguar₂, hopened⟩ := openFile_spec hinv₁ h₁
    refine ⟨hinv₂, hguar₂, ?_⟩
    cases a₁ with
    | none => exact Safe.raise fun _ _ _ _ _ => trivial
    | some nfd =>
      obtain ⟨hopened₂, hkeep⟩ := hopened nfd rfl
      rw [hns n mem_cons_self] at hopened₂
      refine safe_call (own_and (own_claiming fd r.laneId done) (own_opened nfd _))
        (fun _ => ⟨hkeep fd _ _ hclaiming₁, hopened₂⟩) fun w₃ hinv₃ hknown c₃ a₃ w₄ h₃ => ?_
      obtain ⟨hinv₄, hguar₄, hfree₄, hne, hclaiming₄⟩ := lockShared_spec hinv₃ hknown.1 hknown.2 h₃
      refine ⟨hinv₄, hguar₄, ?_⟩
      cases a₃ with
      | false =>
        refine safe_call (own_unregistered nfd) (fun _ => hfree₄) fun w₅ hinv₅ hfree₅ c₅ a₅ w₆ h₅ => ?_
        obtain ⟨hinv₆, hguar₆, -⟩ := close_spec hinv₅ hfree₅ h₅
        exact ⟨hinv₆, hguar₆, Safe.ret fun _ _ _ _ _ => trivial⟩
      | true =>
        refine safe_call (own_and (own_unregistered nfd) (own_claiming fd r.laneId (n :: done)))
          (fun _ => ⟨hfree₄, hclaiming₄⟩) fun w₅ hinv₅ hknown₅ c₅ a₅ w₆ h₅ => ?_
        obtain ⟨hinv₆, hguar₆, hfree₆, hclaiming₆⟩ :=
          unlock_spec hinv₅ hknown₅.1 hne hknown₅.2 h₅
        refine ⟨hinv₆, hguar₆, ?_⟩
        refine safe_call (own_and (own_unregistered nfd) (own_claiming fd r.laneId (n :: done)))
          (fun _ => ⟨hfree₆, hclaiming₆⟩) fun w₇ hinv₇ hknown₇ c₇ a₇ w₈ h₇ => ?_
        obtain ⟨hinv₈, hguar₈, hkeep₈⟩ := close_spec hinv₇ hknown₇.1 h₇
        refine ⟨hinv₈, hguar₈, ?_⟩
        refine (ih (fun m hm => hns m (mem_cons_of_mem _ hm))
          (fun _ => hkeep₈ fd _ _ hne hknown₇.2)).weaken fun outcome w' _ hpost cleared hcleared => ?_
        refine hpost cleared fun m hm => ?_
        rcases hcleared m hm with hm | hm
        · exact .inl (mem_cons_of_mem _ hm)
        · rcases mem_cons.mp hm with rfl | hm
          · exact .inl mem_cons_self
          · exact .inr hm

theorem probeActive_safe {P : GateWorld ι → Prop} (hown : Own i P) {ns : List String} :
    ∀ {w : GateWorld ι}, Alive i P w →
      Safe (GateOp.act inode i) (gateConduct inode stateDir graph owner i)
        (fun _ w' => Alive i P w') (probeActive ns) w := by
  induction ns with
  | nil => exact fun hP => safe_ret hown hP fun _ h => h
  | cons n ns ih =>
    intro w hP
    refine safe_call hown hP fun w₁ hinv hP₁ c a w₂ heffect => ?_
    have hsame : w₂ = w₁ := by
      cases c with
      | fd m => cases heffect
      | plain | active | fail => exact (Prod.mk.inj (Option.some.inj heffect)).2.symm
    subst hsame
    refine ⟨hinv, guar_refl i _, ?_⟩
    cases a with
    | true => exact safe_ret hown (fun _ => hP₁) fun _ h => h
    | false => exact ih fun _ => hP₁

/-- `try_claim` once the own lock is taken. -/
theorem probeAndAdmit_safe (hr : (GateRequest.claim r).Consistent graph owner) {fd : Nat}
    {w : GateWorld ι} (hinv : GateInv inode stateDir graph owner w)
    (hclaiming : Alive i (Claiming i fd r.laneId []) w) :
    Safe (GateOp.act inode i) (gateConduct inode stateDir graph owner i) anyOutcome
      (probeAndAdmit stateDir r fd) w := by
  obtain ⟨howner, hcovers, hconsistent⟩ := hr
  have hgiveUp : ∀ w', Safe (GateOp.act inode i) (gateConduct inode stateDir graph owner i)
      anyOutcome (giveUp fd) w' :=
    fun w' => releaseClaim_safe fd w' fun _ => Safe.ret fun _ _ _ => trivial
  have hprobed : ∀ n ∈ r.neighbourSet, r.ownerOf n = owner n := by
    intro n hn
    unfold ClaimRequest.neighbourSet at hn
    rw [mem_insertionSort (· ≤ ·), mem_dedup, mem_filter] at hn
    exact hconsistent n hn.1
  have hall : ∀ n ∈ graph.neighbours r.laneId, n ∈ r.neighbourSet := by
    intro n hn
    unfold ClaimRequest.neighbourSet
    rw [mem_insertionSort (· ≤ ·), mem_dedup, mem_filter]
    exact ⟨hcovers n hn, decide_eq_true (graph.named hn)⟩
  refine Safe.bind ?_ (fun _ _ _ _ => trivial) hinv (probeNeighbours_safe hprobed hclaiming)
  intro clear w₁ hinv₁ hpost
  cases clear with
  | false => exact hgiveUp w₁
  | true =>
    have hcleared : Alive i (Claiming i fd r.laneId r.neighbourSet) w₁ :=
      hpost r.neighbourSet fun n hn => .inr hn
    refine Safe.bind ?_ (fun _ _ _ _ => trivial) hinv₁
      (probeActive_safe (own_claiming fd r.laneId r.neighbourSet) hcleared)
    intro idle w₂ hinv₂ hcleared₂
    cases idle with
    | false => exact hgiveUp w₂
    | true =>
      refine safe_call (own_claiming fd r.laneId r.neighbourSet) hcleared₂ ?_
      rintro w₃ hinv₃ ⟨o, hopen, hclaims, -, hdone⟩ c a w₄ heffect
      cases c with
      | fd m | active | fail => cases heffect
      | plain =>
        obtain ⟨-, rfl⟩ := Prod.mk.inj (Option.some.inj heffect)
        rw [howner]
        exact ⟨hinv₃.register hopen hclaims fun n hn => hdone n (hall n hn),
          guar_setRegistry w₃ i _, Safe.ret fun _ _ _ => trivial⟩

/-- `try_claim` keeps the invariant. -/
theorem tryClaim_safe (hr : (GateRequest.claim r).Consistent graph owner) (w : GateWorld ι) :
    Safe (GateOp.act inode i) (gateConduct inode stateDir graph owner i) anyOutcome
      (tryClaim stateDir r) w := by
  refine safe_call own_true (fun _ => trivial) fun w₁ hinv₁ _ c₁ a₁ w₂ h₁ => ?_
  have hsame : w₂ = w₁ := by
    cases c₁ with
    | fd m | active | fail => cases h₁
    | plain => exact (Prod.mk.inj (Option.some.inj h₁)).2.symm
  subst hsame
  refine ⟨hinv₁, guar_refl i _, ?_⟩
  cases a₁ with
  | some held => exact Safe.ret fun _ _ _ => trivial
  | none =>
    refine safe_call own_true (fun _ => trivial) fun w₃ hinv₃ _ c₃ a₃ w₄ h₃ => ?_
    obtain ⟨hinv₄, hguar₄, hopened⟩ := openFile_spec hinv₃ h₃
    refine ⟨hinv₄, hguar₄, ?_⟩
    cases a₃ with
    | none => exact Safe.raise fun _ _ _ => trivial
    | some fd =>
      have hown := (hopened fd rfl).1
      rw [hr.1] at hown
      refine safe_call (own_opened fd _) (fun _ => hown) fun w₅ hinv₅ hopened₅ c₅ a₅ w₆ h₅ => ?_
      obtain ⟨hinv₆, hguar₆, htaken, hrefused⟩ := lockExclusive_spec hinv₅ hopened₅ h₅
      refine ⟨hinv₆, hguar₆, ?_⟩
      cases a₅ with
      | true => exact probeAndAdmit_safe hr hinv₆ fun _ => htaken rfl
      | false =>
        refine safe_call (own_unregistered fd) (fun _ => hrefused rfl) ?_
        intro w₇ hinv₇ hfree₇ c₇ a₇ w₈ h₇
        obtain ⟨hinv₈, hguar₈, -⟩ := close_spec hinv₇ hfree₇ h₇
        exact ⟨hinv₈, hguar₈, Safe.ret fun _ _ _ => trivial⟩

/-- The processes fit together. -/
theorem gateSystem_sound (inode : String → String) (stateDir : String) (graph : ConflictGraph)
    (owner : String → String) :
    Sound (gateSystem (ι := ι) inode stateDir graph owner)
      (gateConduct inode stateDir graph owner) (GateInv inode stateDir graph owner)
      fun _ => anyOutcome where
  inv_eq _ := rfl
  enter i r w hinv := by
    have halive : GateInv inode stateDir graph owner
        { w with alive := Function.update w.alive i true } :=
      ⟨hinv.keys, hinv.registered, hinv.file, hinv.ordered⟩
    refine ⟨halive, ?_, fun j hj hlive => ?_⟩
    · obtain ⟨request, hconsistent⟩ := r
      cases request with
      | claim r => exact tryClaim_safe hconsistent _
      | release lane fd =>
        exact releaseClaim_safe fd _ fun _ => Safe.ret fun _ _ _ => trivial
    · exact ⟨(Function.update_of_ne hj _ _).symm.trans hlive, fun _ => rfl, rfl⟩
  compat i j e c a w w' hj _ _ _ hguar := by
    intro hlive
    exact ⟨hguar.1 ▸ hlive, hguar.2 j hj⟩
  env i w w' hinv henv := by
    obtain rfl := Option.some.inj henv
    exact ⟨hinv.crash i, fun j => rely_crash w i j⟩

theorem gateInv_empty : GateInv inode stateDir graph owner ({} : GateWorld ι) where
  keys _ := nodup_nil
  registered hget := by cases hget
  file hopen := by cases hopen
  ordered hopen := by cases hopen

/-- Of two lanes that are neighbours at most one is claimed, whatever the processes do. -/
theorem claims_exclusive (inode : String → String) (stateDir : String) (graph : ConflictGraph)
    (owner : String → String)
    {s : Config ι GateOp GateOp.Answer GateError (Option Nat) (GateWorld ι)}
    (hreach : (gateSystem inode stateDir graph owner).Reachable (· = {}) s) {i j : ι}
    {a b : String} (ha : s.world.HoldsClaim i a) (hb : s.world.HoldsClaim j b) :
    b ∉ graph.neighbours a := by
  intro hadjacent
  have hinv := ((gateSystem_sound inode stateDir graph owner).reachable
    (fun w hw => hw ▸ gateInv_empty) hreach).1
  obtain ⟨taskA, fdA, hgetA⟩ := ha
  obtain ⟨taskB, fdB, hgetB⟩ := hb
  obtain ⟨oA, hopenA, hclaimsA, -, hclearedA⟩ := hinv.registered hgetA
  obtain ⟨oB, hopenB, hclaimsB, -, hclearedB⟩ := hinv.registered hgetB
  exact hinv.ordered hopenA hclaimsA hopenB hclaimsB (hclearedA b hadjacent)
    (hclearedB a (graph.symm hadjacent))

/-- A graph in which `a` and `b` are neighbours and `c` has none. -/
def sampleGraph : ConflictGraph :=
  loadConflictGraph [("conflict_edges", .arr [.arr [.str "a", .str "b"]])]

/-- A request for a lane, with its neighbours in the sample. -/
def sampleClaim (laneId : String) :
    { r : GateRequest // r.Consistent sampleGraph fun _ => "t" } where
  val := .claim ⟨"t", laneId, sampleGraph.neighbours laneId, none⟩
  property := ⟨rfl, fun _ h => h, fun _ _ => rfl⟩

/-- One process claims `a`, another one `c`. -/
def sampleRun : List (Label Bool { r : GateRequest // r.Consistent sampleGraph fun _ => "t" }
    GateChoice Bool) :=
  [.start true (sampleClaim "a"), .start false (sampleClaim "c"), .tick true .plain,
    .tick true (.fd 3), .tick false .plain, .tick true .plain, .tick false (.fd 3),
    .tick true (.fd 4), .tick true .plain, .tick false .plain, .tick false .plain,
    .tick true .plain, .tick true .plain, .tick true .plain, .tick true .plain]

theorem claims_exclusive_sample : ∃ s,
    (gateSystem id "state" sampleGraph fun _ => "t").exec (System.boot {}) sampleRun = some s ∧
    s.world.HoldsClaim true "a" ∧ s.world.HoldsClaim false "c" ∧
    "c" ∉ sampleGraph.neighbours "a" := by
  have hrun : ((gateSystem id "state" sampleGraph fun _ => "t").exec (System.boot {})
      sampleRun).map (fun s => (Dict.get? (s.world.registry true) ("t", "a"),
        Dict.get? (s.world.registry false) ("t", "c"))) = some (some 3, some 3) := by
    decide +kernel
  obtain ⟨s, hs, hheld⟩ := Option.map_eq_some_iff.mp hrun
  obtain ⟨ha, hc⟩ := Prod.mk.inj hheld
  exact ⟨s, hs, ⟨"t", 3, ha⟩, ⟨"t", 3, hc⟩,
    claims_exclusive id "state" sampleGraph (fun _ => "t") ⟨{}, rfl, sampleRun, hs⟩
      ⟨"t", 3, ha⟩ ⟨"t", 3, hc⟩⟩

end Workbay.Gate

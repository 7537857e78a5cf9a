import Workbay.Effects.Proofs.SafeProofs
import Workbay.Gate.ConflictGate

/-!
# Proofs: adjacent lanes are never claimed at the same time

Of two claims at most one has cleared the other: a file is cleared only while nobody has it
locked exclusively, and a claim that is locked afterwards has to clear the first one, which it
finds locked.
-/

namespace Workbay.Gate

open Effects ClaimRequest Dict List

variable {ι : Type} [DecidableEq ι] {inode : String → String} {stateDir : String}
  {graph : ConflictGraph} {owner : String → String}

/-- An open file of a process. -/
def OpenAt (w : GateWorld ι) (i : ι) (fd : Nat) (o : OpenFile) : Prop :=
  w.files.get? (i, fd) = some o

/-- A file that is locked for a claim of a lane. -/
def OpenFile.Claims (o : OpenFile) (lane : String) : Prop :=
  o.lock = .exclusive ∧ o.lane = some lane

/-- What holds whenever an operation starts or has ended. -/
structure GateInv (inode : String → String) (stateDir : String) (graph : ConflictGraph)
    (owner : String → String) (w : GateWorld ι) : Prop where
  keys : ∀ i, ((w.registry i).map Prod.fst).Nodup
  /-- A registered claim is locked, and has cleared every neighbour. -/
  registered : ∀ {i key fd}, Dict.get? (w.registry i) key = some fd → ∃ o, OpenAt w i fd o ∧
    o.Claims key.2 ∧ key.1 = owner key.2 ∧ ∀ n ∈ graph.neighbours key.2, n ∈ o.cleared
  /-- A claim locks the file of its lane. -/
  file : ∀ {i fd o lane}, OpenAt w i fd o → o.Claims lane →
    o.file = inode (claimPath stateDir (owner lane) lane)
  /-- Two claims have not both cleared one another. -/
  ordered : ∀ {i fd o a j fd' o' b}, OpenAt w i fd o → o.Claims a → OpenAt w j fd' o' →
    o'.Claims b → b ∈ o.cleared → a ∉ o'.cleared

/-- What a process owns is the same in another world. -/
def SameOwn (i : ι) (w w' : GateWorld ι) : Prop :=
  (∀ fd, w'.files.get? (i, fd) = w.files.get? (i, fd)) ∧ w'.registry i = w.registry i

/-- What a process counts on: while it is alive nobody touches what it owns. -/
def Rely (i : ι) (w w' : GateWorld ι) : Prop :=
  w'.alive i = true → w.alive i = true ∧ SameOwn i w w'

/-- What a process promises: it touches only what it owns. -/
def Guar (i : ι) (w w' : GateWorld ι) : Prop :=
  w'.alive = w.alive ∧ ∀ j, j ≠ i → SameOwn j w w'

/-- The conduct of a process. -/
def gateConduct (inode : String → String) (stateDir : String) (graph : ConflictGraph)
    (owner : String → String) (i : ι) : Conduct GateOp GateOp.Answer (GateWorld ι) where
  inv := GateInv inode stateDir graph owner
  rely := Rely i
  guar _ _ := Guar i
  rely_refl _ := fun halive => ⟨halive, fun _ => rfl, rfl⟩
  rely_trans h h' := fun halive =>
    have hsecond := h' halive
    have hfirst := h hsecond.1
    ⟨hfirst.1, fun fd => (hsecond.2.1 fd).trans (hfirst.2.1 fd), hsecond.2.2.trans hfirst.2.2⟩

/-! ## One file is set, closed, or the registry is changed -/

variable {w : GateWorld ι} {i : ι} {fd : Nat} {o : OpenFile}

theorem openAt_setFile {j : ι} {fd' : Nat} {o' : OpenFile} : OpenAt (w.setFile i fd o) j fd' o' ↔
      ((j, fd') = (i, fd) ∧ o' = o) ∨ ((j, fd') ≠ (i, fd) ∧ OpenAt w j fd' o') := by
  unfold OpenAt GateWorld.setFile
  rw [get?_set]
  by_cases hkey : (j, fd') = (i, fd)
  · simp [hkey, eq_comm]
  · simp [hkey]

theorem guar_setFile (w : GateWorld ι) (i : ι) (fd : Nat) (o : OpenFile) :
    Guar i w (w.setFile i fd o) := by
  refine ⟨rfl, fun j hj => ⟨fun fd' => ?_, rfl⟩⟩
  exact get?_set_of_ne _ _ fun heq => hj (congrArg Prod.fst heq)

theorem Guar.trans {w' w'' : GateWorld ι} (h : Guar i w w') (h' : Guar i w' w'') :
    Guar i w w'' := by
  refine ⟨h'.1.trans h.1, fun j hj => ?_⟩
  obtain ⟨hfiles, hregistry⟩ := h.2 j hj
  obtain ⟨hfiles', hregistry'⟩ := h'.2 j hj
  exact ⟨fun fd => (hfiles' fd).trans (hfiles fd), hregistry'.trans hregistry⟩

theorem guar_refl (i : ι) (w : GateWorld ι) : Guar i w w := ⟨rfl, fun _ _ => ⟨fun _ => rfl, rfl⟩⟩

theorem guar_setRegistry (w : GateWorld ι) (i : ι) (entries : Dict (String × String) Nat) :
    Guar i w (w.setRegistry i entries) := by
  refine ⟨rfl, fun j hj => ⟨fun _ => rfl, ?_⟩⟩
  exact Function.update_of_ne hj _ _

/-- A descriptor that no claim of the process is registered with. -/
def Unregistered (w : GateWorld ι) (i : ι) (fd : Nat) : Prop :=
  ∀ key, Dict.get? (w.registry i) key ≠ some fd

/-- A file that is not registered may be set to one that claims nothing, or that has cleared
nothing yet. -/
theorem GateInv.setFile (h : GateInv inode stateDir graph owner w) (hfree : Unregistered w i fd)
    (hfile : ∀ lane, o.Claims lane → o.file = inode (claimPath stateDir (owner lane) lane))
    (hordered : ∀ {a j fd' o' b}, o.Claims a → (j, fd') ≠ (i, fd) → OpenAt w j fd' o' →
      o'.Claims b → b ∈ o.cleared → a ∉ o'.cleared) (hself : ∀ {a}, o.Claims a → a ∉ o.cleared) :
    GateInv inode stateDir graph owner (w.setFile i fd o) := by
  constructor
  · exact h.keys
  · intro j key fd' hget
    obtain ⟨o', hopen, hrest⟩ := h.registered hget
    refine ⟨o', openAt_setFile.mpr (.inr ⟨?_, hopen⟩), hrest⟩
    rintro heq
    obtain ⟨rfl, rfl⟩ := Prod.mk.inj heq
    exact hfree key hget
  · intro j fd' o' lane hopen hclaims
    rcases openAt_setFile.mp hopen with ⟨-, rfl⟩ | ⟨-, hold⟩
    · exact hfile lane hclaims
    · exact h.file hold hclaims
  · intro j fd₁ o₁ a k fd₂ o₂ b hopen₁ hclaims₁ hopen₂ hclaims₂ hb ha
    rcases openAt_setFile.mp hopen₁ with ⟨-, rfl⟩ | ⟨hne₁, hold₁⟩ <;>
      rcases openAt_setFile.mp hopen₂ with ⟨-, rfl⟩ | ⟨hne₂, hold₂⟩
    · exact hself hclaims₁ ha
    · exact hordered hclaims₁ hne₂ hold₂ hclaims₂ hb ha
    · exact hordered hclaims₂ hne₁ hold₁ hclaims₁ ha hb
    · exact h.ordered hold₁ hclaims₁ hold₂ hclaims₂ hb ha

theorem openAt_pop {j : ι} {fd' : Nat}
    (h : OpenAt { w with files := Dict.pop w.files (i, fd) } j fd' o) : OpenAt w j fd' o := by
  unfold OpenAt at h ⊢
  simp only at h
  by_cases hkey : (j, fd') = (i, fd)
  · rw [hkey, get?_pop_self] at h
    cases h
  · rwa [get?_pop_of_ne _ hkey] at h

/-- A file that is not registered may be closed. -/
theorem GateInv.close (h : GateInv inode stateDir graph owner w) (hfree : Unregistered w i fd) :
    GateInv inode stateDir graph owner { w with files := Dict.pop w.files (i, fd) } := by
  constructor
  · exact h.keys
  · intro j key fd' hget
    obtain ⟨o', hopen, hrest⟩ := h.registered hget
    refine ⟨o', ?_, hrest⟩
    have hne : (j, fd') ≠ (i, fd) := by
      intro heq
      obtain ⟨rfl, rfl⟩ := Prod.mk.inj heq
      exact hfree key hget
    exact (get?_pop_of_ne _ hne).trans hopen
  · exact fun hopen hclaims => h.file (openAt_pop hopen) hclaims
  · exact fun hopen hclaims hopen' hclaims' =>
      h.ordered (openAt_pop hopen) hclaims (openAt_pop hopen') hclaims'

theorem guar_close (w : GateWorld ι) (i : ι) (fd : Nat) :
    Guar i w { w with files := Dict.pop w.files (i, fd) } := by
  refine ⟨rfl, fun j hj => ⟨fun fd' => ?_, rfl⟩⟩
  exact get?_pop_of_ne _ fun heq => hj (congrArg Prod.fst heq)

theorem GateInv.descriptor (h : GateInv inode stateDir graph owner w) {key key' : String × String}
    (hget : Dict.get? (w.registry i) key = some fd)
    (hget' : Dict.get? (w.registry i) key' = some fd) : key = key' := by
  obtain ⟨o, hopen, hclaims, howner, -⟩ := h.registered hget
  obtain ⟨o', hopen', hclaims', howner', -⟩ := h.registered hget'
  obtain rfl := Option.some.inj (hopen.symm.trans hopen')
  have hlane : key.2 = key'.2 := Option.some.inj (hclaims.2.symm.trans hclaims'.2)
  exact Prod.ext (howner.trans ((congrArg owner hlane).trans howner'.symm)) hlane

theorem get?_eraseP {κ α : Type} [DecidableEq κ] {d : Dict κ α} {p : κ × α → Bool}
    (hd : (d.map Prod.fst).Nodup) {k : κ} {v : α} (h : Dict.get? (d.eraseP p) k = some v) :
    d.get? k = some v :=
  get?_of_mem hd (mem_of_mem_eraseP (mem_of_get? h))

theorem unregistered_popValue (h : GateInv inode stateDir graph owner w) (i : ι) (fd : Nat) :
    Unregistered (w.setRegistry i ((w.registry i).eraseP fun entry => entry.2 = fd)) i fd := by
  intro key hget
  unfold GateWorld.setRegistry at hget
  simp only [Function.update_self] at hget
  have hold := get?_eraseP (h.keys i) hget
  -- the first entry with the descriptor is the only one
  have hmem := mem_of_get? hget
  obtain ⟨entry, before, after, hnone, hentry, hsplit, herase⟩ :=
    exists_of_eraseP (p := fun entry : (String × String) × Nat => entry.2 = fd)
      (mem_of_get? hold) (by simp)
  have hentryGet : Dict.get? (w.registry i) entry.1 = some fd := by
    refine get?_of_mem (h.keys i) ?_
    rw [hsplit]
    have hvalue : entry.2 = fd := of_decide_eq_true hentry
    rw [← hvalue]
    simp
  have hkey := h.descriptor hold hentryGet
  have hnodup := h.keys i
  rw [hsplit, map_append, map_cons] at hnodup
  rw [herase] at hmem
  have hin : entry.1 ∈ before.map Prod.fst ++ after.map Prod.fst := by
    rw [← map_append]
    exact mem_map.mpr ⟨_, hmem, hkey⟩
  have hnot := (nodup_middle.mp hnodup)
  exact (nodup_cons.mp hnot).1 hin

theorem GateInv.popValue (h : GateInv inode stateDir graph owner w) (i : ι) (fd : Nat) :
    GateInv inode stateDir graph owner
      (w.setRegistry i ((w.registry i).eraseP fun entry => entry.2 = fd)) := by
  constructor
  · intro j
    by_cases hj : j = i
    · subst hj
      unfold GateWorld.setRegistry
      simp only [Function.update_self]
      exact (h.keys j).sublist (eraseP_sublist.map Prod.fst)
    · unfold GateWorld.setRegistry
      simp only [Function.update_of_ne hj]
      exact h.keys j
  · intro j key fd' hget
    refine h.registered (i := j) ?_
    by_cases hj : j = i
    · subst hj
      unfold GateWorld.setRegistry at hget
      simp only [Function.update_self] at hget
      exact get?_eraseP (h.keys j) hget
    · unfold GateWorld.setRegistry at hget
      simp only [Function.update_of_ne hj] at hget
      exact hget
  · exact h.file
  · exact h.ordered

theorem GateInv.register (h : GateInv inode stateDir graph owner w) {lane : String}
    (hopen : OpenAt w i fd o) (hclaims : o.Claims lane)
    (hcleared : ∀ n ∈ graph.neighbours lane, n ∈ o.cleared) : GateInv inode stateDir graph owner
      (w.setRegistry i (Dict.set (w.registry i) (owner lane, lane) fd)) := by
  constructor
  · intro j
    by_cases hj : j = i
    · subst hj
      unfold GateWorld.setRegistry
      simp only [Function.update_self]
      exact nodup_set (h.keys j) _ _
    · unfold GateWorld.setRegistry
      simp only [Function.update_of_ne hj]
      exact h.keys j
  · intro j key fd' hget
    unfold GateWorld.setRegistry at hget
    by_cases hj : j = i
    · subst hj
      simp only [Function.update_self] at hget
      rw [get?_set] at hget
      split at hget
      · rename_i hkey
        obtain rfl := Option.some.inj hget
        subst hkey
        exact ⟨o, hopen, hclaims, rfl, hcleared⟩
      · exact h.registered hget
    · simp only [Function.update_of_ne hj] at hget
      exact h.registered hget
  · exact h.file
  · exact h.ordered

theorem GateInv.crash (h : GateInv inode stateDir graph owner w) (i : ι) :
    GateInv inode stateDir graph owner (w.crash i) := by
  have hfiles : ∀ {j fd o}, OpenAt (w.crash i) j fd o → OpenAt w j fd o := by
    intro j fd o hopen
    unfold OpenAt GateWorld.crash at *
    simp only at hopen
    by_cases hj : j = i
    · rw [get?_filter_key_of_not w.files (fun key => key.1 ≠ i) (by simp [hj])] at hopen
      cases hopen
    · rwa [get?_filter_key w.files (fun key => key.1 ≠ i) (by simp [hj])] at hopen
  constructor
  · intro j
    unfold GateWorld.crash
    by_cases hj : j = i
    · subst hj
      simp
    · simp only [Function.update_of_ne hj]
      exact h.keys j
  · intro j key fd hget
    unfold GateWorld.crash at hget
    by_cases hj : j = i
    · subst hj
      simp at hget
    · simp only [Function.update_of_ne hj] at hget
      obtain ⟨o, hopen, hrest⟩ := h.registered hget
      refine ⟨o, ?_, hrest⟩
      unfold OpenAt GateWorld.crash
      simp only
      rw [get?_filter_key w.files (fun key => key.1 ≠ i) (by simp [hj])]
      exact hopen
  · exact fun hopen hclaims => h.file (hfiles hopen) hclaims
  · exact fun hopen hclaims hopen' hclaims' => h.ordered (hfiles hopen) hclaims (hfiles hopen') hclaims'

theorem rely_crash (w : GateWorld ι) (i j : ι) : Rely j w (w.crash i) := by
  intro halive
  unfold GateWorld.crash at halive
  by_cases hj : j = i
  · subst hj
    simp at halive
  · simp only [Function.update_of_ne hj] at halive
    refine ⟨halive, fun fd => ?_, Function.update_of_ne hj _ _⟩
    exact get?_filter_key w.files (fun key => key.1 ≠ i) (by simp [hj])

end Workbay.Gate

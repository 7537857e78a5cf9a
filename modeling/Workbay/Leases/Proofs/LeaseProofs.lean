import Workbay.Effects.Proofs.SafeProofs
import Workbay.Leases.Lifecycle

/-!
# Proofs: the accounting of leases

A live root has the lock of its sidecar, and a live nested lease has a live root of its own thread.
Two locks of a resource are compatible, so an exclusive root stands alone. Each operation changes
one sidecar, or one lease and its root.
-/

namespace Workbay.Leases

open Effects List Dict

/-- A lease of the world. -/
def LeaseAt (w : LeaseWorld) (id : Nat) (l : Lease) : Prop := w.leases.get? id = some l

/-- An open sidecar of a process. -/
def SidecarAt (w : LeaseWorld) (key : Nat × Nat) (d : Sidecar) : Prop :=
  w.sidecars.get? key = some d

/-- A live lease that has a lock of its own. -/
def Lease.IsRoot (l : Lease) : Prop := l.live = true ∧ l.parent = none

/-- A live lease that is nested in another one. -/
def Lease.IsNestedIn (l : Lease) (root : Nat) : Prop := l.live = true ∧ l.parent = some root

instance (l : Lease) (root : Nat) : Decidable (l.IsNestedIn root) :=
  inferInstanceAs (Decidable (l.live = true ∧ l.parent = some root))

/-- The number of live leases that are nested in a root. -/
def borrowers (w : LeaseWorld) (root : Nat) : Nat :=
  (w.leases.map Prod.snd).countP fun l => decide (l.IsNestedIn root)

/-- The sidecar of a root: it is locked for the lease, and nobody polls with it. -/
def Lease.sidecar (l : Lease) : Sidecar :=
  { resource := l.resource, lock := .ofExclusive l.exclusive }

/-- Where the live leases have their locks. -/
structure Placed (w : LeaseWorld) : Prop where
  keys : (w.leases.map Prod.fst).Nodup
  /-- A live root has the lock. -/
  root : ∀ {id l}, LeaseAt w id l → l.IsRoot →
    ∃ fd, l.fd = some fd ∧ SidecarAt w (l.owner.pid, fd) l.sidecar
  /-- Two live roots have two descriptors. -/
  distinct : ∀ {id l id' l'}, LeaseAt w id l → l.IsRoot → LeaseAt w id' l' → l'.IsRoot →
    l.owner.pid = l'.owner.pid → l.fd = l'.fd → id = id'
  /-- A live nested lease has a live exclusive root of its resource and its thread. -/
  nested : ∀ {id l p}, LeaseAt w id l → l.IsNestedIn p → ∃ r, LeaseAt w p r ∧ r.IsRoot ∧
    r.exclusive = true ∧ r.resource = l.resource ∧ r.owner = l.owner
  /-- An exclusive lock of a resource is the only one. -/
  compatible : ∀ {k k' d d'}, SidecarAt w k d → SidecarAt w k' d' → k ≠ k' →
    d.resource = d'.resource → d.lock = .exclusive → d'.lock = .unlocked

/-- A live root counts itself and its live nested leases. -/
def Counted (w : LeaseWorld) : Prop :=
  ∀ id l, LeaseAt w id l → l.IsRoot → l.references = 1 + borrowers w id

/-- What holds whenever an operation starts or has ended. -/
def LeaseInv (w : LeaseWorld) : Prop := Placed w ∧ Counted w

/-- What a thread counts on: while its process is there, nobody touches the sidecars that it polls
with. -/
def Rely (i : Thread) (w w' : LeaseWorld) : Prop :=
  i.pid ∉ w'.gone → i.pid ∉ w.gone ∧ w'.changed i = w.changed i ∧
    ∀ fd d, SidecarAt w (i.pid, fd) d → d.pending = some i → SidecarAt w' (i.pid, fd) d

/-- What a thread promises: it touches no sidecar that another thread polls with, and it notes when
it changes the accounting. -/
def Guar (i : Thread) (w w' : LeaseWorld) : Prop :=
  w'.gone = w.gone ∧ (w'.leases = w.leases ∨ w'.changed i = true) ∧
    ∀ j, j ≠ i → w'.changed j = w.changed j ∧
      ∀ fd d, SidecarAt w (j.pid, fd) d → d.pending = some j → SidecarAt w' (j.pid, fd) d

/-- The conduct of a thread. -/
def leaseConduct (i : Thread) : Conduct LeaseOp LeaseOp.Answer LeaseWorld where
  inv := LeaseInv
  rely := Rely i
  guar _ _ := Guar i
  rely_refl _ := fun hthere => ⟨hthere, rfl, fun _ _ hd _ => hd⟩
  rely_trans h h' := fun hthere =>
    have hsecond := h' hthere
    have hfirst := h hsecond.1
    ⟨hfirst.1, hsecond.2.1.trans hfirst.2.1, fun fd d hd hpending =>
      hsecond.2.2 fd d (hfirst.2.2 fd d hd hpending) hpending⟩

theorem guar_refl (i : Thread) (w : LeaseWorld) : Guar i w w :=
  ⟨rfl, .inl rfl, fun _ _ => ⟨rfl, fun _ _ hd _ => hd⟩⟩

variable {w : LeaseWorld} {i : Thread} {fd : Nat} {d : Sidecar}

variable {key : Nat × Nat} {root : Nat}

theorem sidecarAt_setSidecar {d' : Sidecar} : SidecarAt (w.setSidecar i fd d) key d' ↔
      (key = (i.pid, fd) ∧ d' = d) ∨ (key ≠ (i.pid, fd) ∧ SidecarAt w key d') := by
  unfold SidecarAt LeaseWorld.setSidecar
  rw [get?_set]
  by_cases hkey : key = (i.pid, fd)
  · simp [hkey, eq_comm]
  · simp [hkey]

theorem sidecarAt_closeSidecar :
    SidecarAt (w.closeSidecar i fd) key d ↔ key ≠ (i.pid, fd) ∧ SidecarAt w key d := by
  unfold SidecarAt LeaseWorld.closeSidecar
  by_cases hkey : key = (i.pid, fd)
  · subst hkey
    simp [get?_pop_self]
  · simp [get?_pop_of_ne _ hkey, hkey]

/-- A descriptor that no root has. -/
def Unleased (w : LeaseWorld) (pid fd : Nat) : Prop :=
  ∀ {id l}, LeaseAt w id l → l.IsRoot → (l.owner.pid, l.fd) ≠ (pid, some fd)

theorem Placed.unleased (h : Placed w) {pid : Nat} (hd : SidecarAt w (pid, fd) d)
    (hpending : d.pending ≠ none) : Unleased w pid fd := by
  intro id l hl hroot heq
  obtain ⟨fd', hfd, hside⟩ := h.root hl hroot
  obtain ⟨hpid, hfd'⟩ := Prod.mk.inj heq
  rw [hfd] at hfd'
  obtain rfl := Option.some.inj hfd'
  rw [hpid] at hside
  obtain rfl := Option.some.inj (hd.symm.trans hside)
  exact hpending rfl

theorem Placed.setSidecar (h : Placed w) (hfree : Unleased w i.pid fd)
    (hcompat : ∀ {k d'}, k ≠ (i.pid, fd) → SidecarAt w k d' → d'.resource = d.resource →
      (d.lock = .exclusive → d'.lock = .unlocked) ∧ (d'.lock = .exclusive → d.lock = .unlocked)) :
    Placed (w.setSidecar i fd d) where
  keys := h.keys
  distinct := h.distinct
  nested := h.nested
  root {id l} hl hroot := by
    obtain ⟨fd', hfd, hside⟩ := h.root hl hroot
    refine ⟨fd', hfd, sidecarAt_setSidecar.mpr (.inr ⟨fun heq => ?_, hside⟩)⟩
    obtain ⟨hpid, rfl⟩ := Prod.mk.inj heq
    exact hfree hl hroot (by rw [hpid, hfd])
  compatible {k k' d₁ d₂} h₁ h₂ hne hresource hlock := by
    rcases sidecarAt_setSidecar.mp h₁ with ⟨hk, rfl⟩ | ⟨hk, hold⟩
    · rcases sidecarAt_setSidecar.mp h₂ with ⟨hk', -⟩ | ⟨hk', hold'⟩
      · exact absurd (hk.trans hk'.symm) hne
      · exact (hcompat hk' hold' hresource.symm).1 hlock
    · rcases sidecarAt_setSidecar.mp h₂ with ⟨-, rfl⟩ | ⟨-, hold'⟩
      · exact (hcompat hk hold hresource).2 hlock
      · exact h.compatible hold hold' hne hresource hlock

theorem Placed.closeSidecar (h : Placed w) (hfree : Unleased w i.pid fd) :
    Placed (w.closeSidecar i fd) where
  keys := h.keys
  distinct := h.distinct
  nested := h.nested
  root {id l} hl hroot := by
    obtain ⟨fd', hfd, hside⟩ := h.root hl hroot
    refine ⟨fd', hfd, sidecarAt_closeSidecar.mpr ⟨fun heq => ?_, hside⟩⟩
    obtain ⟨hpid, rfl⟩ := Prod.mk.inj heq
    exact hfree hl hroot (by rw [hpid, hfd])
  compatible h₁ h₂ hne hresource hlock :=
    h.compatible (sidecarAt_closeSidecar.mp h₁).2 (sidecarAt_closeSidecar.mp h₂).2 hne hresource
      hlock

theorem guar_setSidecar (w : LeaseWorld) (i : Thread) (fd : Nat) (d : Sidecar)
    (hown : ∀ d', SidecarAt w (i.pid, fd) d' → d'.pending = some i) :
    Guar i w (w.setSidecar i fd d) := by
  refine ⟨rfl, .inl rfl, fun j hj => ⟨rfl, fun fd' d' hd hpending => ?_⟩⟩
  refine sidecarAt_setSidecar.mpr (.inr ⟨fun heq => ?_, hd⟩)
  rw [heq] at hd
  exact hj (Option.some.inj (hpending.symm.trans (hown d' hd)))

theorem guar_closeSidecar (w : LeaseWorld) (i : Thread) (fd : Nat)
    (hown : ∀ d', SidecarAt w (i.pid, fd) d' → d'.pending = some i) :
    Guar i w (w.closeSidecar i fd) := by
  refine ⟨rfl, .inl rfl, fun j hj => ⟨rfl, fun fd' d' hd hpending => ?_⟩⟩
  refine sidecarAt_closeSidecar.mpr ⟨fun heq => ?_, hd⟩
  rw [heq] at hd
  exact hj (Option.some.inj (hpending.symm.trans (hown d' hd)))

theorem isFree_compatible {exclusive : Bool} {resource : String}
    (h : w.isFree key exclusive resource = true) {k : Nat × Nat} (hne : k ≠ key)
    (hd : SidecarAt w k d) (hresource : d.resource = resource) :
    (Lock.ofExclusive exclusive = .exclusive → d.lock = .unlocked) ∧
      (d.lock = .exclusive → Lock.ofExclusive exclusive = .unlocked) := by
  have hentry := all_eq_true.mp h _ (mem_of_get? hd)
  simp only [hne, hresource, decide_false, ne_eq, not_true, Bool.false_or, Bool.or_eq_true,
    decide_eq_true_eq, Bool.and_eq_true, Bool.not_eq_true'] at hentry
  rcases hentry with hunlocked | ⟨hshared, hlock⟩
  · exact ⟨fun _ => hunlocked, fun hx => by rw [hunlocked] at hx; cases hx⟩
  · refine ⟨fun hx => ?_, fun hx => ?_⟩
    · rw [hshared] at hx
      cases hx
    · rw [hlock] at hx
      cases hx

theorem leaseAt_setLease {id id' : Nat} {l l' : Lease} : LeaseAt (w.setLease id l) id' l' ↔
      (id' = id ∧ l' = l) ∨ (id' ≠ id ∧ LeaseAt w id' l') := by
  unfold LeaseAt LeaseWorld.setLease
  rw [get?_set]
  by_cases hid : id' = id
  · simp [hid, eq_comm]
  · simp [hid]

theorem borrowers_setLease {id : Nat} {l : Lease}
    (hsome : ∀ old, LeaseAt w id old → (l.IsNestedIn root ↔ old.IsNestedIn root))
    (hnone : w.leases.get? id = none → ¬ l.IsNestedIn root) :
    borrowers (w.setLease id l) root = borrowers w root := by
  unfold borrowers LeaseWorld.setLease
  refine countP_set_of_same (fun old hold => ?_) fun hget => ?_
  · exact decide_eq_decide.mpr (hsome old hold)
  · exact decide_eq_false (hnone hget)

theorem borrowers_setLease_new {id : Nat} {l : Lease} (hget : w.leases.get? id = none)
    (hl : l.IsNestedIn root) : borrowers (w.setLease id l) root = borrowers w root + 1 := by
  unfold borrowers LeaseWorld.setLease
  rw [set_of_get?_eq_none hget, map_append, countP_append]
  simp [hl]

theorem borrowers_setLease_closed {id : Nat} {l old : Lease} (hold : LeaseAt w id old)
    (hnested : old.IsNestedIn root) (hl : ¬ l.IsNestedIn root) :
    borrowers (w.setLease id l) root + 1 = borrowers w root := by
  have hcount := countP_set hold l fun l => decide (l.IsNestedIn root)
  simp only [hnested, hl, decide_true, decide_false, if_true] at hcount
  exact hcount

theorem Placed.borrowers_eq_zero (h : Placed w) {id : Nat}
    (hnone : ∀ r, LeaseAt w id r → ¬ r.IsRoot) : borrowers w id = 0 := by
  unfold borrowers
  rw [countP_eq_zero]
  intro l hl hnested
  obtain ⟨k, hk⟩ := (mem_values h.keys).mp hl
  obtain ⟨r, hr, hroot, -⟩ := h.nested hk (of_decide_eq_true hnested)
  exact hnone r hr hroot

/-- Two leases differ at most in their references and connections. -/
def Lease.SamePlace (l old : Lease) : Prop :=
  l.owner = old.owner ∧ l.resource = old.resource ∧ l.exclusive = old.exclusive ∧
    l.parent = old.parent ∧ l.closed = old.closed ∧ l.fd = old.fd

namespace Lease.SamePlace

variable {l old : Lease}

theorem live (h : l.SamePlace old) : l.live = old.live := by
  unfold Lease.live
  rw [h.2.2.2.2.1]

theorem isRoot (h : l.SamePlace old) : l.IsRoot ↔ old.IsRoot := by
  unfold Lease.IsRoot
  rw [h.live, h.2.2.2.1]

theorem isNestedIn (h : l.SamePlace old) (root : Nat) :
    l.IsNestedIn root ↔ old.IsNestedIn root := by
  unfold Lease.IsNestedIn
  rw [h.live, h.2.2.2.1]

theorem sidecar (h : l.SamePlace old) : l.sidecar = old.sidecar := by
  unfold Lease.sidecar
  rw [h.2.1, h.2.2.1]

end Lease.SamePlace

variable {w : LeaseWorld} {fd pid : Nat} {i : Thread} {resource : String} {r : Lease}

theorem leaseAt_update {id : Nat} {l old : Lease} (hold : LeaseAt w id old)
    (hsame : l.SamePlace old) {k : Nat} {l' : Lease} (h : LeaseAt (w.setLease id l) k l') :
    ∃ l₀, LeaseAt w k l₀ ∧ l'.SamePlace l₀ := by
  rcases leaseAt_setLease.mp h with ⟨rfl, rfl⟩ | ⟨-, h⟩
  · exact ⟨old, hold, hsame⟩
  · exact ⟨l', h, rfl, rfl, rfl, rfl, rfl, rfl⟩

theorem Placed.update (h : Placed w) {id : Nat} {l old : Lease} (hold : LeaseAt w id old)
    (hsame : l.SamePlace old) : Placed (w.setLease id l) where
  keys := nodup_set h.keys id l
  compatible := h.compatible
  root {k l'} hl hroot := by
    obtain ⟨l₀, hl₀, hsame₀⟩ := leaseAt_update hold hsame hl
    obtain ⟨fd, hfd, hside⟩ := h.root hl₀ (hsame₀.isRoot.mp hroot)
    refine ⟨fd, by rw [hsame₀.2.2.2.2.2, hfd], ?_⟩
    rw [hsame₀.sidecar, hsame₀.1]
    exact hside
  distinct {k l' k' l''} hl hroot hl' hroot' hpid hfd := by
    obtain ⟨l₀, hl₀, hsame₀⟩ := leaseAt_update hold hsame hl
    obtain ⟨l₁, hl₁, hsame₁⟩ := leaseAt_update hold hsame hl'
    rw [hsame₀.1, hsame₁.1] at hpid
    rw [hsame₀.2.2.2.2.2, hsame₁.2.2.2.2.2] at hfd
    exact h.distinct hl₀ (hsame₀.isRoot.mp hroot) hl₁ (hsame₁.isRoot.mp hroot') hpid hfd
  nested {k l' p} hl hnested := by
    obtain ⟨l₀, hl₀, hsame₀⟩ := leaseAt_update hold hsame hl
    obtain ⟨r, hr, hroot, hexclusive, hresource, howner⟩ :=
      h.nested hl₀ ((hsame₀.isNestedIn p).mp hnested)
    by_cases hp : p = id
    · subst hp
      obtain rfl : r = old := Option.some.inj (hr.symm.trans hold)
      exact ⟨l, leaseAt_setLease.mpr (.inl ⟨rfl, rfl⟩), hsame.isRoot.mpr hroot,
        hsame.2.2.1.trans hexclusive, hsame.2.1.trans (hresource.trans hsame₀.2.1.symm),
        hsame.1.trans (howner.trans hsame₀.1.symm)⟩
    · exact ⟨r, leaseAt_setLease.mpr (.inr ⟨hp, hr⟩), hroot, hexclusive,
        hresource.trans hsame₀.2.1.symm, howner.trans hsame₀.1.symm⟩

theorem borrowers_update {id : Nat} {l old : Lease} (hold : LeaseAt w id old)
    (hsame : l.SamePlace old) (root : Nat) :
    borrowers (w.setLease id l) root = borrowers w root := by
  refine borrowers_setLease (fun old' hold' => ?_) fun hnone => ?_
  · obtain rfl : old = old' := Option.some.inj (hold.symm.trans hold')
    exact hsame.isNestedIn root
  · cases hnone.symm.trans hold

theorem Placed.add (h : Placed w) {id : Nat} {l : Lease} (hfresh : w.leases.get? id = none)
    (hroot : l.IsRoot → ∃ fd, l.fd = some fd ∧ SidecarAt w (l.owner.pid, fd) l.sidecar ∧
      Unleased w l.owner.pid fd)
    (hnested : ∀ p, l.IsNestedIn p → ∃ r, LeaseAt w p r ∧ r.IsRoot ∧
      r.exclusive = true ∧ r.resource = l.resource ∧ r.owner = l.owner) :
    Placed (w.setLease id l) where
  keys := nodup_set h.keys id l
  compatible := h.compatible
  root {k l'} hl hroot' := by
    rcases leaseAt_setLease.mp hl with ⟨rfl, rfl⟩ | ⟨-, hl⟩
    · obtain ⟨fd, hfd, hside, -⟩ := hroot hroot'
      exact ⟨fd, hfd, hside⟩
    · exact h.root hl hroot'
  distinct {k l' k' l''} hl hroot₁ hl' hroot₂ hpid hfd := by
    rcases leaseAt_setLease.mp hl with ⟨rfl, rfl⟩ | ⟨-, hold⟩
    · rcases leaseAt_setLease.mp hl' with ⟨rfl, rfl⟩ | ⟨-, hl'⟩
      · rfl
      · obtain ⟨fd, hsome, -, hfree⟩ := hroot hroot₁
        exact absurd (by rw [← hpid, ← hfd, hsome]) (hfree hl' hroot₂)
    · rcases leaseAt_setLease.mp hl' with ⟨rfl, rfl⟩ | ⟨-, hl'⟩
      · obtain ⟨fd, hsome, -, hfree⟩ := hroot hroot₂
        exact absurd (by rw [hpid, hfd, hsome]) (hfree hold hroot₁)
      · exact h.distinct hold hroot₁ hl' hroot₂ hpid hfd
  nested {k l' p} hl hnested' := by
    have hkeep : ∀ {r}, LeaseAt w p r → LeaseAt (w.setLease id l) p r := by
      intro r hr
      refine leaseAt_setLease.mpr (.inr ⟨fun hp => ?_, hr⟩)
      rw [hp] at hr
      cases hfresh.symm.trans hr
    rcases leaseAt_setLease.mp hl with ⟨rfl, rfl⟩ | ⟨-, hl⟩
    · obtain ⟨r, hr, hrest⟩ := hnested p hnested'
      exact ⟨r, hkeep hr, hrest⟩
    · obtain ⟨r, hr, hrest⟩ := h.nested hl hnested'
      exact ⟨r, hkeep hr, hrest⟩

theorem Placed.close (h : Placed w) {id : Nat} {l old : Lease} (hold : LeaseAt w id old)
    (hnone : old.IsRoot → borrowers w id = 0) (hclosed : l.live = false) :
    Placed (w.setLease id l) where
  keys := nodup_set h.keys id l
  compatible := h.compatible
  root {k l'} hl hroot := by
    rcases leaseAt_setLease.mp hl with ⟨-, rfl⟩ | ⟨-, hl⟩
    · cases hclosed.symm.trans hroot.1
    · exact h.root hl hroot
  distinct {k l' k' l''} hl hroot hl' hroot' hpid hfd := by
    rcases leaseAt_setLease.mp hl with ⟨-, rfl⟩ | ⟨-, hl⟩
    · cases hclosed.symm.trans hroot.1
    · rcases leaseAt_setLease.mp hl' with ⟨-, rfl⟩ | ⟨-, hl'⟩
      · cases hclosed.symm.trans hroot'.1
      · exact h.distinct hl hroot hl' hroot' hpid hfd
  nested {k l' p} hl hnested := by
    rcases leaseAt_setLease.mp hl with ⟨-, rfl⟩ | ⟨-, hl₀⟩
    · cases hclosed.symm.trans hnested.1
    · obtain ⟨r, hr, hroot, hrest⟩ := h.nested hl₀ hnested
      refine ⟨r, leaseAt_setLease.mpr (.inr ⟨fun hp => ?_, hr⟩), hroot, hrest⟩
      subst hp
      obtain rfl : r = old := Option.some.inj (hr.symm.trans hold)
      have hzero := hnone hroot
      unfold borrowers at hzero
      rw [countP_eq_zero] at hzero
      exact hzero l' ((mem_values h.keys).mpr ⟨k, hl₀⟩) (decide_eq_true hnested)

theorem Placed.unleased_of_closed (h : Placed w) {id : Nat} {l old : Lease}
    (hold : LeaseAt w id old) (hroot : old.IsRoot) (hfd : old.fd = some fd)
    (hclosed : l.live = false) : Unleased (w.setLease id l) old.owner.pid fd := by
  intro k l' hl hroot' heq
  rcases leaseAt_setLease.mp hl with ⟨-, rfl⟩ | ⟨hne, hl⟩
  · cases hclosed.symm.trans hroot'.1
  · obtain ⟨hpid, hfd'⟩ := Prod.mk.inj heq
    exact hne (h.distinct hl hroot' hold hroot hpid (hfd'.trans hfd.symm))

/-! ## What the operations do to leases -/

theorem LeaseInv.noteChange (h : LeaseInv w) (i : Thread) : LeaseInv (w.noteChange i) :=
  ⟨⟨h.1.keys, h.1.root, h.1.distinct, h.1.nested, h.1.compatible⟩, h.2⟩

theorem guar_noteChange (w w' : LeaseWorld) (i : Thread) (hgone : w'.gone = w.gone)
    (hchanged : w'.changed = w.changed)
    (hsidecars : ∀ j, j ≠ i → ∀ fd d, SidecarAt w (j.pid, fd) d → d.pending = some j →
      SidecarAt w' (j.pid, fd) d) : Guar i w (w'.noteChange i) := by
  refine ⟨hgone, .inr ?_, fun j hj => ⟨?_, hsidecars j hj⟩⟩
  · exact Function.update_self _ _ _
  · show Function.update w'.changed i true j = w.changed j
    rw [Function.update_of_ne hj, hchanged]

variable {root : Nat × Lease} {exclusive : Bool}

theorem ownedRoot_spec (h : Placed w) (hroot : w.ownedRoot i resource = some root) :
    LeaseAt w root.1 root.2 ∧ root.2.IsRoot ∧ root.2.exclusive = true ∧
      root.2.resource = resource ∧ root.2.owner = i := by
  have hmem := mem_of_find?_eq_some hroot
  have hfound := find?_some hroot
  obtain ⟨hlease, howned⟩ := mem_filter.mp hmem
  simp only [Bool.and_eq_true, decide_eq_true_eq, Option.isNone_iff_eq_none] at hfound howned
  exact ⟨get?_of_mem h.keys hlease, ⟨howned.1.1, hfound.2⟩, hfound.1, howned.2, howned.1.2⟩

/-- A nested lease. -/
theorem LeaseInv.borrow (h : LeaseInv w) {id : Nat} (hfresh : w.leases.get? id = none)
    (hroot : w.ownedRoot i resource = some root) :
    LeaseInv (w.borrow i id resource exclusive root) := by
  obtain ⟨hlease, hisRoot, hexclusive, hresource, howner⟩ := ownedRoot_spec h.1 hroot
  set counted : Lease := { root.2 with references := root.2.references + 1 } with hcounted
  have hsame : counted.SamePlace root.2 := ⟨rfl, rfl, rfl, rfl, rfl, rfl⟩
  have hne : id ≠ root.1 := by
    rintro rfl
    cases hfresh.symm.trans hlease
  have hcountedAt : LeaseAt (w.setLease root.1 counted) root.1 counted :=
    leaseAt_setLease.mpr (.inl ⟨rfl, rfl⟩)
  have hfresh' : Dict.get? (w.setLease root.1 counted).leases id = none :=
    (get?_set_of_ne _ _ hne).trans hfresh
  set new : Lease := { owner := i, resource, exclusive, parent := some root.1 } with hnew
  have hnestedNew : new.IsNestedIn root.1 := ⟨rfl, rfl⟩
  have hplaced : Placed ((w.setLease root.1 counted).setLease id new) := by
    refine (h.1.update hlease hsame).add hfresh' (fun hr => ?_) fun p hp => ?_
    · cases hr.2
    · obtain rfl : root.1 = p := Option.some.inj hp.2
      exact ⟨counted, hcountedAt, hsame.isRoot.mpr hisRoot, hexclusive, hresource, howner⟩
  refine LeaseInv.noteChange ⟨hplaced, fun k l hl hlroot => ?_⟩ i
  rcases leaseAt_setLease.mp hl with ⟨-, rfl⟩ | ⟨hk, hl⟩
  · cases hlroot.2
  · rcases leaseAt_setLease.mp hl with ⟨rfl, rfl⟩ | ⟨hkroot, hl⟩
    · rw [borrowers_setLease_new hfresh' hnestedNew, borrowers_update hlease hsame]
      have href := h.2 root.1 root.2 hlease hisRoot
      show root.2.references + 1 = _
      rw [href]
      push_cast
      omega
    · rw [borrowers_setLease, borrowers_update hlease hsame]
      · exact h.2 k l hl hlroot
      · intro old hold
        cases hfresh'.symm.trans hold
      · rintro - ⟨-, hp⟩
        exact hkroot (Option.some.inj hp).symm

theorem guar_borrow {id : Nat} : Guar i w (w.borrow i id resource exclusive root) :=
  guar_noteChange w _ i rfl rfl fun _ _ _ _ hd _ => hd

/-- A new root. -/
theorem LeaseInv.publish (h : LeaseInv w) {id : Nat} {d : Sidecar}
    (hfresh : w.leases.get? id = none) (hd : SidecarAt w (i.pid, fd) d)
    (hpending : d.pending ≠ none) (hresource : d.resource = resource)
    (hlock : d.lock = .ofExclusive exclusive) :
    LeaseInv (((w.setSidecar i fd { d with pending := none }).setLease id
      { owner := i, resource, exclusive, fd := some fd }).noteChange i) := by
  have hfree : Unleased w i.pid fd := h.1.unleased hd hpending
  have hplaced : Placed (w.setSidecar i fd { d with pending := none }) := by
    refine h.1.setSidecar hfree fun hk hd' hresource' => ⟨fun hx => ?_, fun hx => ?_⟩
    · exact h.1.compatible hd hd' hk.symm hresource'.symm hx
    · have hunlocked : d.lock = .unlocked := h.1.compatible hd' hd hk hresource' hx
      exact hunlocked
  have hsidecar : SidecarAt (w.setSidecar i fd { d with pending := none }) (i.pid, fd)
      { resource := resource, lock := .ofExclusive exclusive } := by
    refine sidecarAt_setSidecar.mpr (.inl ⟨rfl, ?_⟩)
    rw [← hresource, ← hlock]
  have hnoNested : ∀ p, ¬ Lease.IsNestedIn
      { owner := i, resource, exclusive, fd := some fd } p := by
    rintro p ⟨-, hp⟩
    cases hp
  refine LeaseInv.noteChange ⟨hplaced.add hfresh (fun _ => ?_) fun p hp => ?_, ?_⟩ i
  · exact ⟨fd, rfl, hsidecar, fun hl hr => hfree hl hr⟩
  · exact absurd hp (hnoNested p)
  · intro k l hl hroot
    have hsame : ∀ root, borrowers ((w.setSidecar i fd { d with pending := none }).setLease id
        { owner := i, resource, exclusive, fd := some fd }) root = borrowers w root := by
      intro root
      refine borrowers_setLease (fun old hold => ?_) fun _ => hnoNested root
      cases hfresh.symm.trans hold
    rw [hsame]
    rcases leaseAt_setLease.mp hl with ⟨rfl, rfl⟩ | ⟨-, hl⟩
    · rw [h.1.borrowers_eq_zero fun r hr => by cases hfresh.symm.trans hr]
      rfl
    · exact h.2 k l hl hroot

/-- A release that is not refused is one of a root without nested leases, or one of a nested lease
by its thread; nothing live is bound. -/
theorem releaseRefusal_eq_none {l : Lease} (h : w.releaseRefusal i l = none) :
    (l.parent ≠ none → l.owner = i) ∧ (l.parent = none → l.references ≤ 1) := by
  unfold LeaseWorld.releaseRefusal at h
  split at h
  · cases h
  · rename_i howner
    split at h
    · cases h
    · split at h
      · cases h
      · rename_i href
        simp only [Bool.and_eq_true, Bool.or_eq_true, Option.isSome_iff_ne_none, decide_eq_true_eq,
          Option.isNone_iff_eq_none, not_and] at howner href
        refine ⟨fun hparent => ?_, fun hparent => ?_⟩
        · exact not_ne_iff.mp (howner (.inl (.inr hparent)))
        · exact Int.not_lt.mp (href hparent)

theorem dropReference_last (i : Thread) {id : Nat} (hr : LeaseAt w id r) (href : r.references = 1)
    (hfd : r.fd = some fd) : w.dropReference i id =
      (w.setLease id { r with references := 0, fd := none }).closeSidecar i fd := by
  have hzero : r.references - 1 = 0 := by omega
  have hget : w.leases.get? id = some r := hr
  unfold LeaseWorld.dropReference
  rw [hget]
  simp only [hzero, if_true, hfd]

theorem dropReference_more (i : Thread) {id : Nat} (hr : LeaseAt w id r) (href : r.references ≠ 1) :
    w.dropReference i id = w.setLease id { r with references := r.references - 1 } := by
  have hnonzero : r.references - 1 ≠ 0 := by omega
  have hget : w.leases.get? id = some r := hr
  unfold LeaseWorld.dropReference
  rw [hget]
  simp only [hnonzero, if_false]

theorem releaseLease_root (i : Thread) {id : Nat} {l : Lease} (hparent : l.parent = none)
    (hfd : l.fd = some fd) (href : l.references = 1) : w.releaseLease i id l = ((w.setLease id
      { l with closed := true, connection := none, references := 0, fd := none }).closeSidecar i
        fd).noteChange i := by
  have hroot : l.parent.getD id = id := by
    rw [hparent]
    rfl
  have hclosed : LeaseAt (w.setLease id { l with closed := true, connection := none }) id
      { l with closed := true, connection := none } := leaseAt_setLease.mpr (.inl ⟨rfl, rfl⟩)
  unfold LeaseWorld.releaseLease
  rw [hroot, dropReference_last i hclosed href hfd]
  unfold LeaseWorld.setLease
  rw [Dict.set_set]

theorem releaseLease_nested (i : Thread) {id p : Nat} {l : Lease} (hparent : l.parent = some p)
    (hne : p ≠ id) (hr : LeaseAt w p r) (href : r.references ≠ 1) :
    w.releaseLease i id l = ((w.setLease id
      { l with closed := true, connection := none }).setLease p
        { r with references := r.references - 1 }).noteChange i := by
  have hroot : l.parent.getD id = p := by
    rw [hparent]
    rfl
  unfold LeaseWorld.releaseLease
  rw [hroot, dropReference_more i (leaseAt_setLease.mpr (.inr ⟨hne, hr⟩)) href]

/-- A lease is released. -/
theorem LeaseInv.release (h : LeaseInv w) {id : Nat} {l : Lease} (hl : LeaseAt w id l)
    (hpid : l.owner.pid = i.pid) (hopen : l.closed = false) (hrefusal : w.releaseRefusal i l = none) :
    LeaseInv (w.releaseLease i id l) ∧ Guar i w (w.releaseLease i id l) := by
  obtain ⟨howner, hlast⟩ := releaseRefusal_eq_none hrefusal
  have hlive : l.live = true := by
    unfold Lease.live
    rw [hopen]
    rfl
  cases hparent : l.parent with
  | none =>
    have hroot : l.IsRoot := ⟨hlive, hparent⟩
    have hreferences := h.2 id l hl hroot
    have hle := hlast hparent
    have hzero : borrowers w id = 0 := by omega
    obtain ⟨fd, hfd, hside⟩ := h.1.root hl hroot
    rw [releaseLease_root i hparent hfd (by omega)]
    set closed : Lease := { l with
      closed := true, connection := none, references := 0, fd := none } with hclosedDef
    have hclosed : closed.live = false := rfl
    have hplaced := h.1.close hl (fun _ => hzero) hclosed
    have hfree : Unleased (w.setLease id closed) i.pid fd := by
      rw [← hpid]
      exact h.1.unleased_of_closed hl hroot hfd hclosed
    constructor
    · refine LeaseInv.noteChange ⟨hplaced.closeSidecar hfree, fun k l' hl' hroot' => ?_⟩ i
      rcases leaseAt_setLease.mp hl' with ⟨-, rfl⟩ | ⟨-, hl'⟩
      · cases hclosed.symm.trans hroot'.1
      · have hsame : borrowers ((w.setLease id closed).closeSidecar i fd) k = borrowers w k := by
          refine borrowers_setLease (fun old hold => ?_) fun hnone => ?_
          · obtain rfl : l = old := Option.some.inj (hl.symm.trans hold)
            refine ⟨fun hn => ?_, fun hn => ?_⟩
            · cases hclosed.symm.trans hn.1
            · cases hparent.symm.trans hn.2
          · cases hnone.symm.trans hl
        rw [hsame]
        exact h.2 k l' hl' hroot'
    · refine guar_noteChange w _ i rfl rfl fun j hj fd' d hd hpending => ?_
      refine sidecarAt_closeSidecar.mpr ⟨fun heq => ?_, hd⟩
      rw [heq, ← hpid] at hd
      obtain rfl := Option.some.inj (hd.symm.trans hside)
      cases hpending
  | some p =>
    have hnested : l.IsNestedIn p := ⟨hlive, hparent⟩
    obtain ⟨r, hr, hroot, -⟩ := h.1.nested hl hnested
    have hne : p ≠ id := by
      rintro rfl
      obtain rfl : l = r := Option.some.inj (hl.symm.trans hr)
      cases hparent.symm.trans hroot.2
    set closed : Lease := { l with closed := true, connection := none } with hclosedDef
    have hclosed : closed.live = false := rfl
    have hcount := borrowers_setLease_closed (l := closed) hl hnested
      fun hn => by cases hclosed.symm.trans hn.1
    have hreferences := h.2 p r hr hroot
    rw [releaseLease_nested i hparent hne hr (by omega)]
    set counted : Lease := { r with references := r.references - 1 } with hcountedDef
    have hsame : counted.SamePlace r := ⟨rfl, rfl, rfl, rfl, rfl, rfl⟩
    have hr' : LeaseAt (w.setLease id closed) p r := leaseAt_setLease.mpr (.inr ⟨hne, hr⟩)
    have hplaced : Placed (w.setLease id closed) :=
      h.1.close hl (fun hx => by cases hparent.symm.trans hx.2) hclosed
    constructor
    · refine LeaseInv.noteChange ⟨hplaced.update hr' hsame, fun k l' hl' hroot' => ?_⟩ i
      rw [borrowers_update hr' hsame]
      rcases leaseAt_setLease.mp hl' with ⟨rfl, rfl⟩ | ⟨hk, hl'⟩
      · show r.references - 1 = _
        omega
      · rcases leaseAt_setLease.mp hl' with ⟨-, rfl⟩ | ⟨-, hl'⟩
        · cases hclosed.symm.trans hroot'.1
        · rw [borrowers_setLease]
          · exact h.2 k l' hl' hroot'
          · intro old hold
            obtain rfl : l = old := Option.some.inj (hl.symm.trans hold)
            refine ⟨fun hn => ?_, fun hn => ?_⟩
            · cases hclosed.symm.trans hn.1
            · exact absurd (Option.some.inj (hn.2.symm.trans hparent)) hk
          · intro hnone
            cases hnone.symm.trans hl
    · exact guar_noteChange w _ i rfl rfl fun _ _ _ _ hd _ => hd

theorem LeaseInv.bind (h : LeaseInv w) (i : Thread) {id : Nat} {l : Lease} (hl : LeaseAt w id l)
    (connection : Connection) :
    LeaseInv ((w.setLease id { l with connection := some connection }).noteChange i) := by
  have hsame : Lease.SamePlace { l with connection := some connection } l :=
    ⟨rfl, rfl, rfl, rfl, rfl, rfl⟩
  refine LeaseInv.noteChange ⟨h.1.update hl hsame, fun k l' hl' hroot => ?_⟩ i
  rw [borrowers_update hl hsame]
  rcases leaseAt_setLease.mp hl' with ⟨rfl, rfl⟩ | ⟨-, hl'⟩
  · exact h.2 k l hl (hsame.isRoot.mp hroot)
  · exact h.2 k l' hl' hroot

theorem leaseAt_crash (hkeys : (w.leases.map Prod.fst).Nodup) {id : Nat} {l : Lease} :
    LeaseAt ((LeaseEvent.crash pid).effect w) id l ↔ LeaseAt w id l ∧ l.owner.pid ≠ pid := by
  have hkeys' : ((w.leases.filter fun e => e.2.owner.pid ≠ pid).map Prod.fst).Nodup :=
    hkeys.sublist (filter_sublist.map Prod.fst)
  constructor
  · intro h
    obtain ⟨hmem, hne⟩ := mem_filter.mp (mem_of_get? h)
    exact ⟨get?_of_mem hkeys hmem, of_decide_eq_true hne⟩
  · rintro ⟨h, hne⟩
    exact get?_of_mem hkeys' (mem_filter.mpr ⟨mem_of_get? h, decide_eq_true hne⟩)

theorem sidecarAt_crash {key : Nat × Nat} {d : Sidecar} :
    SidecarAt ((LeaseEvent.crash pid).effect w) key d ↔ SidecarAt w key d ∧ key.1 ≠ pid := by
  unfold SidecarAt LeaseEvent.effect
  by_cases hkey : key.1 = pid
  · rw [get?_filter_key_of_not w.sidecars (fun k => decide (k.1 ≠ pid)) (by simp [hkey])]
    simp [hkey]
  · rw [get?_filter_key w.sidecars (fun k => decide (k.1 ≠ pid)) (by simp [hkey])]
    simp [hkey]

theorem borrowers_crash (h : Placed w) {id : Nat} (hr : LeaseAt w id r) (hpid : r.owner.pid ≠ pid) :
    borrowers ((LeaseEvent.crash pid).effect w) id = borrowers w id := by
  unfold borrowers LeaseEvent.effect
  rw [countP_map, countP_map, countP_filter]
  refine countP_congr fun e he => ?_
  simp only [Function.comp_apply, Bool.and_eq_true, decide_eq_true_eq, and_iff_left_iff_imp]
  intro hnested
  obtain ⟨r', hr', -, -, -, howner⟩ := h.nested (get?_of_mem h.keys he) hnested
  obtain rfl : r = r' := Option.some.inj (hr.symm.trans hr')
  rw [← howner]
  exact hpid

theorem LeaseInv.event (h : LeaseInv w) (d : LeaseEvent) : LeaseInv (d.effect w) := by
  cases d with
  | closeConnection id =>
    exact ⟨⟨h.1.keys, h.1.root, h.1.distinct, h.1.nested, h.1.compatible⟩, h.2⟩
  | crash pid =>
    have hkeys := h.1.keys
    refine ⟨⟨?_, ?_, ?_, ?_, ?_⟩, ?_⟩
    · exact hkeys.sublist (filter_sublist.map Prod.fst)
    · intro id l hl hroot
      obtain ⟨hl, hpid⟩ := (leaseAt_crash hkeys).mp hl
      obtain ⟨fd, hfd, hside⟩ := h.1.root hl hroot
      exact ⟨fd, hfd, sidecarAt_crash.mpr ⟨hside, hpid⟩⟩
    · intro id l id' l' hl hroot hl' hroot' hpid hfd
      exact h.1.distinct ((leaseAt_crash hkeys).mp hl).1 hroot ((leaseAt_crash hkeys).mp hl').1
        hroot' hpid hfd
    · intro id l p hl hnested
      obtain ⟨hl, hpid⟩ := (leaseAt_crash hkeys).mp hl
      obtain ⟨r, hr, hroot, hexclusive, hresource, howner⟩ := h.1.nested hl hnested
      exact ⟨r, (leaseAt_crash hkeys).mpr ⟨hr, by rw [howner]; exact hpid⟩, hroot, hexclusive,
        hresource, howner⟩
    · intro k k' d d' hd hd' hne hresource hlock
      exact h.1.compatible (sidecarAt_crash.mp hd).1 (sidecarAt_crash.mp hd').1 hne hresource hlock
    · intro id l hl hroot
      obtain ⟨hl, hpid⟩ := (leaseAt_crash hkeys).mp hl
      rw [borrowers_crash h.1 hl hpid]
      exact h.2 id l hl hroot

theorem rely_event (i : Thread) (d : LeaseEvent) (w : LeaseWorld) : Rely i w (d.effect w) := by
  intro hthere
  cases d with
  | closeConnection id => exact ⟨hthere, rfl, fun _ _ hd _ => hd⟩
  | crash pid =>
    have hne : i.pid ≠ pid := fun heq => hthere (by rw [heq]; exact mem_cons_self)
    exact ⟨fun hgone => hthere (mem_cons_of_mem _ hgone), rfl, fun _ _ hd _ =>
      sidecarAt_crash.mpr ⟨hd, hne⟩⟩

end Workbay.Leases

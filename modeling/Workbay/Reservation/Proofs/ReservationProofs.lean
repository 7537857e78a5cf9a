import Workbay.Reservation.Proofs.ActionProofs

/-!
# Proofs: exclusive reservations are exclusive and receipts are final
-/

namespace Workbay.Reservation

open List

variable {lib : Library} {d : Disk} {i : Input}

/-! ## The files between operations -/

/-- The state that the files hold. -/
def Disk.store (d : Disk) : Store := d.state.getD {}

/-- What the files are like, whenever an operation has ended or was interrupted. -/
structure Inv (lib : Library) (d : Disk) : Prop where
  sound : Sound lib d.store
  exclusive : Exclusive d.store
  receipts : Receipts lib d d.store

theorem inv_empty : Inv lib {} := by
  refine ⟨sound_empty, exclusive_empty, fun h => ?_, fun h => ?_⟩
  · cases h
  · cases h

theorem Inv.read (h : Inv lib d) : d.read lib = some d.store := by
  unfold Disk.read
  cases hstate : d.state with
  | none => simp [Disk.store, hstate]
  | some s =>
    have haccepted := h.sound.isAccepted
    simp only [Disk.store, hstate, Option.getD_some] at haccepted ⊢
    rw [if_pos haccepted]

/-- The numbers of the reservation that is made or renewed can be read back. -/
def Input.Representable (lib : Library) (d : Disk) (i : Input) : Prop :=
  match i.call with
  | .reserve q => ∀ t hold now, q.terms lib = .ok t → i.env.config.maxHoldS = some hold →
      gauge? i.env.clock = some now → NewRepresentable lib t hold now
  | .renew id _ ttlS => ∀ s r ttl now, d.read lib = some s → s.find id = .ok r →
      readNumber "ttl_s" ttlS = .ok ttl → gauge? i.env.clock = some now →
      RenewRepresentable r now ttl
  | _ => True

/-- `uuid4` makes an identifier that is not in use. -/
def Input.Fresh (lib : Library) (d : Disk) (i : Input) : Prop :=
  ∀ q s, i.call = .reserve q → d.read lib = some s →
    i.env.uuid.1 ∉ s.reservations.map Prod.fst

/-- An input whose identifier is fresh and whose numbers can be read back. -/
structure Input.Proper (lib : Library) (d : Disk) (i : Input) : Prop where
  fresh : i.Fresh lib d
  representable : i.Representable lib d

variable {now : Number} {writes : List Write}

theorem gauge?_eq_some {v : Value} (h : gauge? v = some now) :
    isNumber false now = true ∧ v = .num now := by
  unfold gauge? at h
  split at h
  · split at h
    · rename_i hnumber
      obtain rfl := Option.some.inj h
      exact ⟨hnumber, rfl⟩
    · cases h
  · cases h

/-- The receipts that the sweep writes. -/
def sweepWrites (d : Disk) (now : Number) : List Write :=
  d.store.reservations.flatMap fun entry => sweptWrites d d.store now entry.2

/-- Every action changes the swept state in one of the ways of `Change`. -/
theorem action_changes (h : Inv lib d) (hnow : gauge? (i.call.time i.env) = some now)
    (hproper : i.Proper lib d) {s' : Store} {answer : Answer}
    (haction : i.call.action lib i.env d (sweptStore d d.store now) now = .ok (s', writes, answer)) :
    Changes lib (sweptStore d d.store now) s' writes := by
  have hnumber := (gauge?_eq_some hnow).1
  have hs := sound_sweptStore h.sound h.receipts hnumber
  have hkeys : (sweptStore d d.store now).reservations.map Prod.fst =
      d.store.reservations.map Prod.fst := by
    unfold sweptStore
    rw [map_map]
    rfl
  have hrepresentable := hproper.representable
  unfold Input.Representable at hrepresentable
  unfold Call.action at haction
  cases hcall : i.call with
  | reserve q =>
    rw [hcall] at haction hnow hrepresentable
    refine reserve_changes hs hnumber ?_ (fun t hold ht hhold => ?_) haction
    · rw [hkeys]
      exact hproper.fresh q d.store hcall h.read
    · exact hrepresentable t hold now ht hhold hnow
  | renew id owner ttlS =>
    rw [hcall] at haction hnow hrepresentable
    refine renew_changes hs hnumber (fun r ttl hfind hlive httl => ?_) haction
    -- a record that is live after the sweep is the one that was read
    obtain ⟨hat, hid⟩ := find_at hs hfind
    obtain ⟨old, hold, heq⟩ := at_sweptStore.mp hat
    have hsame : r = old := by
      rw [← heq]
      exact swept_of_isLive h.sound h.receipts hold (heq ▸ hlive)
    refine hrepresentable d.store r ttl now h.read ?_ httl hnow
    subst hsame
    rw [hid, Store.find, show d.store.reservations.get? r.id = some r from hold]
  | release id owner =>
    rw [hcall] at haction
    exact release_changes hs hnumber haction
  | grant id now' running gauges =>
    rw [hcall] at haction
    exact grant_changes hs hnumber haction
  | status =>
    rw [hcall] at haction
    exact status_changes haction
  | recordDeferral id =>
    rw [hcall] at haction
    exact recordDeferral_changes hs haction
  | lookup id owner =>
    rw [hcall] at haction
    exact lookup_changes hs haction

/-- What an operation writes after the sweep. -/
inductive Finished (lib : Library) (s : Store) : List Write → Prop where
  | unwritten : Finished lib s []
  | written {s' : Store} {writes : List Write} (hchange : Change lib s s' writes) :
      Finished lib s (writes ++ [.state s'.sorted])

theorem operation_writes (h : Inv lib d) (hproper : i.Proper lib d) :
    (operation lib i.env i.call d).1 = [] ∨
      ∃ now, isNumber false now = true ∧ ∃ writes, Finished lib (sweptStore d d.store now) writes ∧
        (operation lib i.env i.call d).1 = sweepWrites d now ++ writes := by
  unfold operation
  split
  · exact .inl rfl
  rw [h.read]
  simp only
  split
  · exact .inl rfl
  rename_i now hnow
  have hnumber := (gauge?_eq_some hnow).1
  have hs := sound_sweptStore h.sound h.receipts hnumber
  refine .inr ⟨now, hnumber, _, ?_, by
    unfold operate
    rw [sweepAll_eq h.sound h.receipts]
    rfl⟩
  show Finished lib _ (finish (i.call.action lib i.env d (sweptStore d d.store now) now)).1
  cases haction : i.call.action lib i.env d (sweptStore d d.store now) now with
  | error e =>
    cases e <;> exact .unwritten
  | ok acted =>
    obtain ⟨s', writes, answer⟩ := acted
    have hchanges := action_changes h hnow hproper haction
    unfold finish
    simp only
    split
    · rename_i hdump
      rcases hchanges with ⟨-, hnot⟩ | hchange
      · rw [hdump] at hnot
        cases hnot
      · exact .written hchange
    · rename_i hdump
      rcases hchanges with ⟨rfl, -⟩ | hchange
      · exact .unwritten
      · exact absurd (hchange.sound hs).isDumpable hdump

theorem state_applyAll {s : Store} (h : ∀ w ∈ writes, EndsSome lib s w) :
    (d.applyAll writes).state = d.state := by
  induction writes generalizing d with
  | nil => rfl
  | cons w writes ih =>
    obtain ⟨r, saved, rfl, -⟩ := h w mem_cons_self
    exact ih fun w hw => h w (mem_cons_of_mem _ hw)

theorem Inv.receiptsOnly (h : Inv lib d) (hwrites : ∀ w ∈ writes, EndsSome lib d.store w) :
    Inv lib (d.applyAll writes) := by
  have hstore : (d.applyAll writes).store = d.store := by
    unfold Disk.store
    rw [state_applyAll hwrites]
  constructor
  · rw [hstore]
    exact h.sound
  · rw [hstore]
    exact h.exclusive
  · rw [hstore]
    exact h.receipts.applyAll hwrites

theorem Inv.written (h : Inv lib d) (hnow : isNumber false now = true) {s' : Store}
    (hchange : Change lib (sweptStore d d.store now) s' writes) :
    Inv lib (d.applyAll (sweepWrites d now ++ (writes ++ [.state s'.sorted]))) := by
  have hs := sound_sweptStore h.sound h.receipts hnow
  have hs' := hchange.sound hs
  have hx' := hchange.exclusive hs (exclusive_sweptStore h.sound h.receipts h.exclusive)
  have hreceipts := (hchange.receipts (receipts_sweptDisk h.sound h.receipts hnow)
    (settled_sweptDisk h.sound h.receipts)).1
  rw [applyAll_append, applyAll_append, applyAll_cons, applyAll_nil]
  constructor
  · exact hs'.sorted
  · exact hx'.sorted hs'.keys
  · constructor
    · intro id saved hsaved
      obtain ⟨r, hat, hends⟩ := hreceipts.ends hsaved
      exact ⟨r, (at_sorted hs'.keys).mpr hat, hends⟩
    · exact fun hat hended => hreceipts.ended ((at_sorted hs'.keys).mp hat) hended

theorem written_eq_take (i : Input) (writes : List Write) :
    ∃ n, i.written writes = writes.take n := by
  unfold Input.written
  cases i.interrupted with
  | none => exact ⟨writes.length, (take_length).symm⟩
  | some n => exact ⟨n, rfl⟩

/-- Every operation keeps the invariant, wherever it is interrupted. -/
theorem inv_next (h : Inv lib d) (hproper : i.Proper lib d) : Inv lib ((machine lib).next d i) := by
  show Inv lib (d.applyAll (i.written (operation lib i.env i.call d).1))
  obtain ⟨n, hn⟩ := written_eq_take i (operation lib i.env i.call d).1
  rw [hn]
  rcases operation_writes h hproper with hnil | ⟨now, hnow, writes, hfinished, heq⟩
  · rw [hnil, take_nil]
    exact h
  rw [heq]
  have hsweep : ∀ w ∈ sweepWrites d now, EndsSome lib d.store w :=
    fun w hw => mem_sweepWrites h.sound hnow hw
  cases hfinished with
  | unwritten =>
    rw [append_nil]
    exact h.receiptsOnly fun w hw => hsweep w (mem_of_mem_take hw)
  | written hchange =>
    rename_i s' writes
    by_cases hall : n ≤ (sweepWrites d now ++ writes).length
    · -- the state has not been written
      rw [← append_assoc, take_append_of_le_length hall]
      refine h.receiptsOnly fun w hw => ?_
      rcases mem_append.mp (mem_of_mem_take hw) with hw | hw
      · exact hsweep w hw
      · exact EndsSome.of_swept h.sound h.receipts (hchange.ends
          (sound_sweptStore h.sound h.receipts hnow)
          (receipts_sweptDisk h.sound h.receipts hnow) w hw)
    · rw [take_of_length_le (by
        rw [length_append] at hall
        simp only [length_append, length_singleton]
        omega)]
      exact h.written hnow hchange

theorem inv_run {is : List Input} (h : (machine lib).Along (Input.Proper lib) {} is) :
    Inv lib ((machine lib).run {} is) :=
  h.invariant (fun _ _ hinv hproper => inv_next hinv hproper) inv_empty

/-- The state file, if there is one, is accepted, and its reservations are exclusive. -/
structure Safe (lib : Library) (d : Disk) : Prop where
  accepted : ∀ s, d.state = some s → s.isAccepted lib = true
  /-- At most one exclusive reservation is live. -/
  one : ∀ s, d.state = some s → ∀ r ∈ s.records, ∀ x ∈ s.records,
    isExclusiveLive r = true → isExclusiveLive x = true → r = x
  /-- Beside a granted exclusive one no reservation is granted. -/
  alone : ∀ s, d.state = some s → ∀ r ∈ s.records, ∀ x ∈ s.records,
    isExclusiveLive r = true → r.state = .granted → x.state = .granted → r = x
  bounded : ∀ s, d.state = some s → ∀ r ∈ s.records,
    ∃ limit, Number.add? r.createdAt r.maxHoldS = some limit ∧ r.expiresAt ≤ limit

theorem Inv.safe (h : Inv lib d) : Safe lib d := by
  have hstore : ∀ s, d.state = some s → d.store = s := by
    intro s hs
    rw [Disk.store, hs]
    rfl
  have hat : ∀ s, d.state = some s → ∀ r ∈ s.records, d.store.At r.id r := by
    rintro s hs r hr
    obtain rfl := hstore s hs
    exact h.sound.mem_records.mp hr
  have hsame : ∀ {r x : Record}, d.store.At r.id r → d.store.At x.id x → r.id = x.id → r = x := by
    intro r x hr hx heq
    rw [heq] at hr
    exact Option.some.inj (hr.symm.trans hx)
  constructor
  · intro s hs
    obtain rfl := hstore s hs
    exact h.sound.isAccepted
  · intro s hs r hr x hx hrLive hxLive
    exact hsame (hat s hs r hr) (hat s hs x hx)
      (h.exclusive.one (hat s hs r hr) (hat s hs x hx) hrLive hxLive)
  · intro s hs r hr x hx hrLive hgranted hxGranted
    have hrAt := hat s hs r hr
    have hxAt := hat s hs x hx
    refine hsame hrAt hxAt ?_
    by_contra hne
    have hxLive : x.state.isLive = true := by
      rw [hxGranted]
      rfl
    have hlt := h.exclusive.alone hrAt hxAt hrLive hgranted hxLive hne
    have hpending := h.exclusive.after hrAt hxAt hrLive hxLive hlt
    rw [hxGranted] at hpending
    cases hpending
  · intro s hs r hr
    exact (h.sound.record (hat s hs r hr)).bounded

/-- In every run whose reservations have numbers that can be read back, exclusive reservations are
exclusive. -/
theorem reservations_exclusive {lib : Library} {is : List Input}
    (h : (machine lib).Along (Input.Proper lib) {} is) : Safe lib ((machine lib).run {} is) :=
  (inv_run h).safe

/-- A library without notices, whose sums are exact. -/
def sampleLibrary : Library where
  timestamp _ := none
  sum ns := some (ns.foldl (fun a b => (Number.add? a b).getD .inf) (.int 0))

def sampleId : HexId := ⟨"0123456789abcdef0123456789abcdef", by decide⟩

def otherId : HexId := ⟨"fedcba9876543210fedcba9876543210", by decide⟩

/-- An environment with a clock of integers. -/
def sampleEnv (now : Int) (uuid : HexId) : Env where
  clock := .num (.int now)
  config := .fields (.num (.int 100)) .none
  uuid := uuid

/-- A request for the whole host. -/
def sampleRequest (maxDrainS : Int) : Request where
  owner := .str "team"
  purpose := .str "benchmark"
  cpu := .num (.int 1)
  memoryBytes := .num (.int 1)
  exclusive := .bool true
  ttlS := .num (.int 10)
  maxDrainS := .num (.int maxDrainS)

/-- The reservation is made, granted and released, but the state is not written at last. -/
def sampleRun : List Input :=
  [{ env := sampleEnv 5 sampleId, call := .reserve (sampleRequest 5) },
    { env := sampleEnv 6 sampleId, call := .grant (.str sampleId.1) .none [] ⟨.none, .none⟩ },
    { env := sampleEnv 7 sampleId, call := .release (.str sampleId.1) (.str "team")
      interrupted := some 1 }]

def sampleTerms : Terms where
  owner := "team"
  purpose := "benchmark"
  cpu := .int 1
  memoryBytes := 1
  exclusive := true
  ttlS := .int 10
  maxDrainS := .int 5
  objective := none
  startAt := none

theorem sampleRun_proper : (machine sampleLibrary).Along (Input.Proper sampleLibrary) {} sampleRun := by
  have hterms : ((sampleRequest 5).terms sampleLibrary).toOption = some sampleTerms := by
    decide +kernel
  have hnow' : gauge? (.num (.int 5)) = some (.int 5) := by decide +kernel
  have hother : ∀ {d : Disk} {i : Input}, (∀ q, i.call ≠ .reserve q) → i.Fresh sampleLibrary d :=
    fun hcall q _ heq => absurd heq (hcall q)
  refine ⟨⟨fun q s _ hread => ?_, ?_⟩, ⟨hother fun q h => (nomatch h), trivial⟩,
    ⟨hother fun q h => (nomatch h), trivial⟩, trivial⟩
  · obtain rfl := Option.some.inj hread
    exact not_mem_nil
  · intro t hold now ht hhold hnow expiresAt drainDeadline hexpires hdrain
    rw [ht] at hterms
    obtain rfl := Option.some.inj hterms
    obtain rfl : 100 = hold := Option.some.inj hhold
    obtain rfl := Option.some.inj (hnow'.symm.trans hnow)
    obtain rfl := Except.ok.inj hexpires
    obtain rfl := Except.ok.inj hdrain
    exact .inr (by decide +kernel)

theorem reservations_exclusive_sample :
    Safe sampleLibrary ((machine sampleLibrary).run {} sampleRun) :=
  reservations_exclusive sampleRun_proper

/-- A clock and a drain time that are integers and fit a float each, but not together. -/
def overflowInput : Input where
  env := sampleEnv (10 ^ 308) otherId
  call := .reserve (sampleRequest (10 ^ 308))

/-- A deadline that is too large for a float is written, and the state is never read again. -/
theorem overflow_not_accepted :
    ¬ Safe sampleLibrary ((machine sampleLibrary).run {} [overflowInput]) := by
  intro h
  cases hstate : ((machine sampleLibrary).run {} [overflowInput]).state with
  | none =>
    have hsome : ((machine sampleLibrary).run {} [overflowInput]).state.isSome = true := by
      decide +kernel
    rw [hstate] at hsome
    cases hsome
  | some s =>
    have haccepted := h.accepted s hstate
    have hnot : ((machine sampleLibrary).run {} [overflowInput]).state.any
        (Store.isAccepted sampleLibrary) = false := by decide +kernel
    rw [hstate] at hnot
    rw [Option.any_some, haccepted] at hnot
    cases hnot

end Workbay.Reservation

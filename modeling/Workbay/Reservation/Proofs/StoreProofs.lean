import Workbay.Reservation.Operations

/-!
# Proofs: what the operations keep of the state file
-/

namespace Workbay.Reservation

open List Dict

variable {lib : Library} {s s' : Store}

/-- A record that `_read` accepts and that expires in its hold. -/
structure RecordOk (lib : Library) (r : Record) : Prop where
  valid : validRecord lib r = true
  bounded : ∃ limit, Number.add? r.createdAt r.maxHoldS = some limit ∧ r.expiresAt ≤ limit

variable {n : Number} {r r' old : Record}

theorem isNumber_isFinite {positive : Bool} (h : isNumber positive n = true) :
    n.isFinite = true := (Bool.and_eq_true_iff.mp h).1

theorem isNumber_nonneg {positive : Bool} (h : isNumber positive n = true) : .int 0 ≤ n := by
  have hsign := (Bool.and_eq_true_iff.mp h).2
  cases positive with
  | true => exact (of_decide_eq_true hsign).le
  | false => exact of_decide_eq_true hsign

theorem isNumber_iff_of_nonneg (h : .int 0 ≤ n) : isNumber false n = true ↔ n.isFinite = true := by
  simp [isNumber, h]

/-- What `_valid_record` asks of a record. -/
theorem validRecord_iff : validRecord lib r = true ↔
    isHexId r.id = true ∧ Text.strip r.owner ≠ "" ∧ Text.strip r.purpose ≠ "" ∧
      isNumber true r.cpu = true ∧ 0 < r.memoryBytes ∧
      (isNumber true r.ttlS = true ∧ isNumber true r.maxDrainS = true ∧
        isNumber true r.maxHoldS = true) ∧
      (isNumber false r.createdAt = true ∧ isNumber false r.renewedAt = true ∧
        isNumber false r.expiresAt = true ∧ isNumber false r.drainDeadline = true) ∧
      0 < r.seq ∧ (∀ n ∈ r.grantedAt, isNumber false n = true) ∧
      (∀ n ∈ r.endedAt, isNumber false n = true) ∧ isStart lib r.startAt = true := by
  simp [validRecord, and_assoc, Option.all_eq_true]

theorem RecordOk.dumpable (h : RecordOk lib r) (hn : n ∈ r.numbers) : n ≠ .inf := by
  obtain ⟨-, -, -, hcpu, -, ⟨httl, hdrain, hhold⟩, ⟨hcreated, hrenewed, hexpires, hdeadline⟩, -,
    hgranted, hended, -⟩ := validRecord_iff.mp h.valid
  have hfinite : n.isFinite = true := by
    simp only [Record.numbers, cons_append, nil_append, mem_cons, mem_append,
      Option.mem_toList] at hn
    rcases hn with rfl | rfl | rfl | rfl | rfl | rfl | rfl | rfl | hn | hn
    · exact isNumber_isFinite hcpu
    · exact isNumber_isFinite httl
    · exact isNumber_isFinite hdrain
    · exact isNumber_isFinite hhold
    · exact isNumber_isFinite hcreated
    · exact isNumber_isFinite hrenewed
    · exact isNumber_isFinite hexpires
    · exact isNumber_isFinite hdeadline
    · exact isNumber_isFinite (hgranted n hn)
    · exact isNumber_isFinite (hended n hn)
  exact (Number.isFinite_iff.mp hfinite).1

/-- A record of the same reservation at a later time: it has kept its state, or has ended. -/
structure Later (r r' : Record) : Prop where
  id : r'.id = r.id
  seq : r'.seq = r.seq
  exclusive : r'.exclusive = r.exclusive
  state : r'.state.isLive = true → r'.state = r.state

theorem Later.refl (r : Record) : Later r r := ⟨rfl, rfl, rfl, fun _ => rfl⟩

theorem Later.trans {r'' : Record} (h : Later r r') (h' : Later r' r'') : Later r r'' := by
  refine ⟨h'.id.trans h.id, h'.seq.trans h.seq, h'.exclusive.trans h.exclusive, fun hlive => ?_⟩
  have hstate := h'.state hlive
  rw [hstate] at hlive ⊢
  exact h.state hlive

theorem Later.isLive (h : Later r r') (hlive : r'.state.isLive = true) :
    r.state.isLive = true := h.state hlive ▸ hlive

theorem Later.isExclusiveLive (h : Later r r') (hlive : Reservation.isExclusiveLive r' = true) :
    Reservation.isExclusiveLive r = true := by
  unfold Reservation.isExclusiveLive at hlive ⊢
  rw [Bool.and_eq_true] at hlive ⊢
  exact ⟨h.exclusive ▸ hlive.1, h.isLive hlive.2⟩

/-- A record of the state, by its identifier. -/
def Store.At (s : Store) (id : String) (r : Record) : Prop := s.reservations.get? id = some r

/-- A state that `_read` accepts, with every reservation under one key. -/
structure Sound (lib : Library) (s : Store) : Prop where
  version : s.schemaVersion = 1
  keys : (s.reservations.map Prod.fst).Nodup
  record : ∀ {id r}, s.At id r → RecordOk lib r
  id : ∀ {id r}, s.At id r → r.id = id
  seq : ∀ {id r}, s.At id r → r.seq ≤ s.seq
  seqs : ∀ {id r id' r'}, s.At id r → s.At id' r' → r.seq = r'.seq → id = id'
  deferrals : ∀ entry ∈ s.deferrals, entry.1 ∈ s.reservations.map Prod.fst

/-- At most one exclusive record is live, what comes after it waits, and once it is granted no
live record came before it. -/
structure Exclusive (s : Store) : Prop where
  one : ∀ {id r id' x}, s.At id r → s.At id' x → isExclusiveLive r = true →
    isExclusiveLive x = true → id = id'
  after : ∀ {id r id' x}, s.At id r → s.At id' x → isExclusiveLive r = true →
    x.state.isLive = true → r.seq < x.seq → x.state = .pending
  alone : ∀ {id r id' x}, s.At id r → s.At id' x → isExclusiveLive r = true →
    r.state = .granted → x.state.isLive = true → id ≠ id' → r.seq < x.seq

theorem sound_empty : Sound lib {} := by
  have hnone : ∀ {id r}, ¬ Store.At {} id r := by
    intro id r h
    cases h
  exact ⟨rfl, nodup_nil, fun h => absurd h hnone, fun h => absurd h hnone,
    fun h => absurd h hnone, fun h => absurd h hnone, fun _ h => absurd h not_mem_nil⟩

theorem exclusive_empty : Exclusive {} := by
  have hnone : ∀ {id r}, ¬ Store.At {} id r := by
    intro id r h
    cases h
  exact ⟨fun h => absurd h hnone, fun h => absurd h hnone, fun h => absurd h hnone⟩

theorem Sound.mem_records (h : Sound lib s) : r ∈ s.records ↔ s.At r.id r := by
  unfold Store.records Store.At
  constructor
  · intro hin
    obtain ⟨⟨id, r'⟩, hentry, rfl⟩ := mem_map.mp hin
    have hat := get?_of_mem h.keys hentry
    rw [h.id hat]
    exact hat
  · exact fun hat => mem_map.mpr ⟨_, mem_of_get? hat, rfl⟩

theorem Sound.isDumpable (h : Sound lib s) : s.isDumpable = true := by
  unfold Store.isDumpable
  rw [all_eq_true]
  intro r hin
  rw [all_eq_true]
  exact fun n hn => decide_eq_true ((h.record (h.mem_records.mp hin)).dumpable hn)

/-- A sound state is accepted when it is read. -/
theorem Sound.isAccepted (h : Sound lib s) : s.isAccepted lib = true := by
  have hat : ∀ entry ∈ s.reservations, s.At entry.1 entry.2 :=
    fun entry hentry => get?_of_mem h.keys hentry
  have hkeeps : s.reservations.all (s.keeps lib) = true := by
    rw [all_eq_true]
    intro entry hentry
    unfold Store.keeps
    rw [(h.record (hat entry hentry)).valid]
    simp [h.id (hat entry hentry), h.seq (hat entry hentry)]
  have hseqs : (s.records.map Record.seq).Nodup := by
    unfold Store.records
    rw [map_map]
    refine List.Nodup.map_on ?_ (List.Nodup.of_map Prod.fst h.keys)
    intro entry hentry entry' hentry' heq
    have hid := h.seqs (hat entry hentry) (hat entry' hentry') heq
    have hrecord := hat entry hentry
    rw [hid] at hrecord
    exact Prod.ext hid (Option.some.inj (hrecord.symm.trans (hat entry' hentry')))
  unfold Store.isAccepted
  rw [hkeeps, h.version]
  simp only [decide_true, Bool.true_and, Bool.and_eq_true, decide_eq_true_eq, all_eq_true]
  exact ⟨hseqs, h.deferrals⟩

theorem at_sorted (hkeys : (s.reservations.map Prod.fst).Nodup) {id : String} :
    s.sorted.At id r ↔ s.At id r := by
  unfold Store.At Store.sorted
  rw [← get?_perm (perm_insertionSort _ s.reservations).symm hkeys]

theorem Sound.sorted (h : Sound lib s) : Sound lib s.sorted := by
  have hperm : (s.sorted.reservations.map Prod.fst).Perm (s.reservations.map Prod.fst) :=
    (perm_insertionSort _ s.reservations).map Prod.fst
  constructor
  · exact h.version
  · exact hperm.nodup_iff.mpr h.keys
  · exact fun hat => h.record ((at_sorted h.keys).mp hat)
  · exact fun hat => h.id ((at_sorted h.keys).mp hat)
  · exact fun hat => h.seq ((at_sorted h.keys).mp hat)
  · exact fun hat hat' => h.seqs ((at_sorted h.keys).mp hat) ((at_sorted h.keys).mp hat')
  · intro entry hentry
    rw [hperm.mem_iff]
    exact h.deferrals entry ((mem_insertionSort _).mp hentry)

theorem Exclusive.later (h : Exclusive s)
    (hlater : ∀ {id r'}, s'.At id r' → ∃ r, s.At id r ∧ Later r r') : Exclusive s' := by
  constructor
  · intro id r id' x hr hx hrLive hxLive
    obtain ⟨r₀, hr₀, hlaterR⟩ := hlater hr
    obtain ⟨x₀, hx₀, hlaterX⟩ := hlater hx
    exact h.one hr₀ hx₀ (hlaterR.isExclusiveLive hrLive) (hlaterX.isExclusiveLive hxLive)
  · intro id r id' x hr hx hrLive hxLive hseq
    obtain ⟨r₀, hr₀, hlaterR⟩ := hlater hr
    obtain ⟨x₀, hx₀, hlaterX⟩ := hlater hx
    rw [hlaterR.seq, hlaterX.seq] at hseq
    rw [hlaterX.state hxLive]
    exact h.after hr₀ hx₀ (hlaterR.isExclusiveLive hrLive) (hlaterX.isLive hxLive) hseq
  · intro id r id' x hr hx hrLive hgranted hxLive hne
    obtain ⟨r₀, hr₀, hlaterR⟩ := hlater hr
    obtain ⟨x₀, hx₀, hlaterX⟩ := hlater hx
    have hstate := hlaterR.state (by rw [hgranted]; rfl)
    rw [hlaterR.seq, hlaterX.seq]
    exact h.alone hr₀ hx₀ (hlaterR.isExclusiveLive hrLive) (hstate ▸ hgranted)
      (hlaterX.isLive hxLive) hne

theorem Exclusive.sorted (h : Exclusive s) (hkeys : (s.reservations.map Prod.fst).Nodup) :
    Exclusive s.sorted :=
  h.later fun hat => ⟨_, (at_sorted hkeys).mp hat, Later.refl _⟩

theorem at_put {id : String} {x : Record} :
    (s.put r).At id x ↔ (id = r.id ∧ x = r) ∨ (id ≠ r.id ∧ s.At id x) := by
  unfold Store.At Store.put
  rw [get?_set]
  by_cases hid : r.id = id
  · subst hid
    simp [eq_comm]
  · simp [Ne.symm hid]

theorem keys_put (hat : s.At r.id old) :
    (s.put r).reservations.map Prod.fst = s.reservations.map Prod.fst :=
  map_fst_set hat r

/-- A record is replaced by one of the same reservation. -/
theorem Sound.put (h : Sound lib s) (hat : s.At r.id old) (hseq : r.seq = old.seq)
    (hok : RecordOk lib r) : Sound lib (s.put r) := by
  have holdId := h.id hat
  have hkeys := keys_put (s := s) hat
  constructor
  · exact h.version
  · rw [hkeys]
    exact h.keys
  · intro id x hin
    rcases at_put.mp hin with ⟨-, rfl⟩ | ⟨-, hx⟩
    · exact hok
    · exact h.record hx
  · intro id x hin
    rcases at_put.mp hin with ⟨rfl, rfl⟩ | ⟨-, hx⟩
    · rfl
    · exact h.id hx
  · intro id x hin
    rcases at_put.mp hin with ⟨-, rfl⟩ | ⟨-, hx⟩
    · rw [hseq]
      exact h.seq hat
    · exact h.seq hx
  · intro id x id' x' hin hin' heq
    rcases at_put.mp hin with ⟨rfl, rfl⟩ | ⟨hne, hx⟩ <;>
      rcases at_put.mp hin' with ⟨rfl, rfl⟩ | ⟨hne', hx'⟩
    · rfl
    · rw [hseq] at heq
      exact h.seqs hat hx' heq
    · rw [hseq] at heq
      exact h.seqs hx hat heq
    · exact h.seqs hx hx' heq
  · intro entry hentry
    rw [hkeys]
    exact h.deferrals entry hentry

theorem at_insert {id : String} {x : Record} :
    (s.insert r).At id x ↔ (id = r.id ∧ x = r) ∨ (id ≠ r.id ∧ s.At id x) := at_put

theorem Sound.insert (h : Sound lib s) (hfresh : r.id ∉ s.reservations.map Prod.fst)
    (hseq : r.seq = s.seq + 1) (hok : RecordOk lib r) : Sound lib (s.insert r) := by
  have hreservations : (s.insert r).reservations = s.reservations ++ [(r.id, r)] :=
    set_of_get?_eq_none (get?_eq_none_iff.mpr hfresh) r
  constructor
  · exact h.version
  · exact nodup_set h.keys r.id r
  · intro id x hin
    rcases at_insert.mp hin with ⟨-, rfl⟩ | ⟨-, hx⟩
    · exact hok
    · exact h.record hx
  · intro id x hin
    rcases at_insert.mp hin with ⟨rfl, rfl⟩ | ⟨-, hx⟩
    · rfl
    · exact h.id hx
  · intro id x hin
    rcases at_insert.mp hin with ⟨-, rfl⟩ | ⟨-, hx⟩
    · exact hseq.le
    · have hle := h.seq hx
      show x.seq ≤ s.seq + 1
      omega
  · intro id x id' x' hin hin' heq
    rcases at_insert.mp hin with ⟨rfl, rfl⟩ | ⟨hne, hx⟩ <;>
      rcases at_insert.mp hin' with ⟨rfl, rfl⟩ | ⟨hne', hx'⟩
    · rfl
    · have hle := h.seq hx'
      omega
    · have hle := h.seq hx
      omega
    · exact h.seqs hx hx' heq
  · intro entry hentry
    rw [hreservations, map_append]
    exact mem_append_left _ (h.deferrals entry hentry)

theorem Exclusive.insert (h : Exclusive s) (hs : Sound lib s) (hseq : r.seq = s.seq + 1)
    (hstate : r.state = .pending)
    (hfree : r.exclusive = true → ∀ {id x}, s.At id x → isExclusiveLive x = false) :
    Exclusive (s.insert r) := by
  have hlt : ∀ {id x}, s.At id x → x.seq < r.seq := by
    intro id x hx
    have hle := hs.seq hx
    omega
  have hother : ∀ {id x}, s.At id x → isExclusiveLive r = true → isExclusiveLive x = true →
      False := by
    intro id x hx hr hlive
    rw [hfree (Bool.and_eq_true_iff.mp hr).1 hx] at hlive
    cases hlive
  constructor
  · intro id a id' b hinA hinB hlive hlive'
    rcases at_insert.mp hinA with ⟨rfl, rfl⟩ | ⟨-, ha⟩ <;>
      rcases at_insert.mp hinB with ⟨rfl, rfl⟩ | ⟨-, hb⟩
    · rfl
    · exact absurd hlive' fun hlive' => hother hb hlive hlive'
    · exact absurd hlive fun hlive => hother ha hlive' hlive
    · exact h.one ha hb hlive hlive'
  · intro id a id' b hinA hinB hlive hlive' hseq'
    rcases at_insert.mp hinB with ⟨rfl, rfl⟩ | ⟨-, hb⟩
    · exact hstate
    rcases at_insert.mp hinA with ⟨rfl, rfl⟩ | ⟨-, ha⟩
    · have hlt' := hlt hb
      omega
    · exact h.after ha hb hlive hlive' hseq'
  · intro id a id' b hinA hinB hlive hgranted hlive' hne
    rcases at_insert.mp hinA with ⟨rfl, rfl⟩ | ⟨-, ha⟩
    · rw [hstate] at hgranted
      cases hgranted
    rcases at_insert.mp hinB with ⟨rfl, rfl⟩ | ⟨-, hb⟩
    · exact hlt ha
    · exact h.alone ha hb hlive hgranted hlive' hne

/-- A pending record is granted when no exclusive record came before it, and an exclusive one only
when no live record did. -/
theorem Exclusive.grant (h : Exclusive s) (hs : Sound lib s) (hat : s.At r.id old)
    (hseq : r.seq = old.seq) (hexclusive : r.exclusive = old.exclusive)
    (hpending : old.state = .pending) (hgranted : r.state = .granted)
    (hearlier : ∀ {id x}, s.At id x → x.state.isLive = true → x.seq < old.seq →
      x.exclusive = false ∧ old.exclusive = false) : Exclusive (s.put r) := by
  have hold : isExclusiveLive r = true → isExclusiveLive old = true := by
    intro hlive
    rw [isExclusiveLive, Bool.and_eq_true] at hlive
    rw [isExclusiveLive, ← hexclusive, hlive.1, hpending]
    rfl
  have hlive : old.state.isLive = true := by
    rw [hpending]
    rfl
  constructor
  · intro id a id' b hinA hinB hliveA hliveB
    rcases at_put.mp hinA with ⟨rfl, rfl⟩ | ⟨-, ha⟩ <;>
      rcases at_put.mp hinB with ⟨rfl, rfl⟩ | ⟨-, hb⟩
    · rfl
    · exact h.one hat hb (hold hliveA) hliveB
    · exact h.one ha hat hliveA (hold hliveB)
    · exact h.one ha hb hliveA hliveB
  · intro id a id' b hinA hinB hliveA hliveB hlt
    rcases at_put.mp hinB with ⟨rfl, rfl⟩ | ⟨-, hb⟩
    · rcases at_put.mp hinA with ⟨rfl, rfl⟩ | ⟨-, ha⟩
      · omega
      · rw [hseq] at hlt
        rw [isExclusiveLive, Bool.and_eq_true] at hliveA
        have hnone := (hearlier ha hliveA.2 hlt).1
        rw [hnone] at hliveA
        cases hliveA.1
    · rcases at_put.mp hinA with ⟨rfl, rfl⟩ | ⟨-, ha⟩
      · rw [hseq] at hlt
        exact h.after hat hb (hold hliveA) hliveB hlt
      · exact h.after ha hb hliveA hliveB hlt
  · intro id a id' b hinA hinB hliveA hgrantedA hliveB hne
    rcases at_put.mp hinA with ⟨rfl, rfl⟩ | ⟨-, ha⟩
    · rcases at_put.mp hinB with ⟨rfl, rfl⟩ | ⟨-, hb⟩
      · exact absurd rfl hne
      · have hexclusiveOld : old.exclusive = true := (Bool.and_eq_true_iff.mp (hold hliveA)).1
        by_contra hnot
        have hdiff : b.seq ≠ old.seq := fun heq => hne (hs.seqs hat hb heq.symm)
        have hlt : b.seq < old.seq := by omega
        have hnone := (hearlier hb hliveB hlt).2
        rw [hnone] at hexclusiveOld
        cases hexclusiveOld
    · rcases at_put.mp hinB with ⟨rfl, rfl⟩ | ⟨-, hb⟩
      · rw [hseq]
        exact h.alone ha hat hliveA hgrantedA hlive hne
      · exact h.alone ha hb hliveA hgrantedA hliveB hne

end Workbay.Reservation

import Workbay.Reservation.Proofs.SweepProofs
import Workbay.Data.Check

/-!
# Proofs: what an action does to the state in memory
-/

namespace Workbay.Reservation

variable {lib : Library} {s s' : Store} {d : Disk} {now : Number} {writes : List Write}

/-- The changes of the state that an action makes, with what it writes. -/
inductive Change (lib : Library) (s : Store) : Store → List Write → Prop where
  | same : Change lib s s []
  /-- The receipt of a record that has ended is written again. -/
  | again {r : Record} (hat : s.At r.id r) (hended : r.state.isLive = false) :
      Change lib s s [.receipt (s.receiptOf r)]
  | renew {old r : Record} (hat : s.At r.id old) (hlive : old.state.isLive = true)
      (hok : RecordOk lib r) (hlater : Later old r) (hstate : r.state = old.state) :
      Change lib s (s.put r) []
  | release {old r : Record} (hat : s.At r.id old) (hlive : old.state.isLive = true)
      (hok : RecordOk lib r) (hlater : Later old r) (hended : r.state.isLive = false)
      (hendedAt : r.endedAt.isSome = true) :
      Change lib s (s.put r) [.receipt ((s.put r).receiptOf r)]
  | grant {old r : Record} (hat : s.At r.id old) (hpending : old.state = .pending)
      (hok : RecordOk lib r) (hseq : r.seq = old.seq) (hexclusive : r.exclusive = old.exclusive)
      (hgranted : r.state = .granted)
      (hearlier : ∀ {id x}, s.At id x → x.state.isLive = true → x.seq < old.seq →
        x.exclusive = false ∧ old.exclusive = false) : Change lib s (s.put r) []
  | reserve {r : Record} (hfresh : r.id ∉ s.reservations.map Prod.fst) (hok : RecordOk lib r)
      (hseq : r.seq = s.seq + 1) (hpending : r.state = .pending)
      (hfree : r.exclusive = true → ∀ {id x}, s.At id x → isExclusiveLive x = false) :
      Change lib s (s.insert r) []
  | defer {id : String} {r : Record} (hat : s.At id r) (count : Nat) :
      Change lib s { s with deferrals := s.deferrals.set id count } []

theorem Change.sound (h : Change lib s s' writes) (hs : Sound lib s) : Sound lib s' := by
  cases h with
  | same => exact hs
  | again hat hended => exact hs
  | renew hat hlive hok hlater hstate => exact hs.put hat hlater.seq hok
  | release hat hlive hok hlater hended hendedAt => exact hs.put hat hlater.seq hok
  | grant hat hpending hok hseq hexclusive hgranted hearlier => exact hs.put hat hseq hok
  | reserve hfresh hok hseq hpending hfree => exact hs.insert hfresh hseq hok
  | defer hat count =>
    refine ⟨hs.version, hs.keys, hs.record, hs.id, hs.seq, hs.seqs, fun entry hentry => ?_⟩
    rcases Dict.mem_set hentry with rfl | hold
    · exact Dict.get?_isSome_iff.mp (by
        rw [show s.reservations.get? _ = some _ from hat]
        rfl)
    · exact hs.deferrals entry hold

theorem later_put {old r : Record} (hat : s.At r.id old)
    (hlater : Later old r) {id : String} {r' : Record} (h : (s.put r).At id r') :
    ∃ x, s.At id x ∧ Later x r' := by
  rcases at_put.mp h with ⟨rfl, rfl⟩ | ⟨-, hold⟩
  · exact ⟨old, hat, hlater⟩
  · exact ⟨r', hold, Later.refl r'⟩

theorem Change.exclusive (h : Change lib s s' writes) (hs : Sound lib s) (hx : Exclusive s) :
    Exclusive s' := by
  cases h with
  | same => exact hx
  | again hat hended => exact hx
  | renew hat hlive hok hlater hstate => exact hx.later fun h => later_put hat hlater h
  | release hat hlive hok hlater hended hendedAt =>
    exact hx.later fun h => later_put hat hlater h
  | grant hat hpending hok hseq hexclusive hgranted hearlier =>
    exact hx.grant hs hat hseq hexclusive hpending hgranted hearlier
  | reserve hfresh hok hseq hpending hfree => exact hx.insert hs hseq hpending hfree
  | defer hat count => exact hx.later fun h => ⟨_, h, Later.refl _⟩

theorem Change.keeps (h : Change lib s s' writes) {id : String} {x : Record} (hx : s.At id x)
    (hended : x.state.isLive = false) : s'.At id x := by
  have hput : ∀ {old r : Record}, s.At r.id old → old.state.isLive = true → (s.put r).At id x := by
    intro old r hat hlive
    refine at_put.mpr (.inr ⟨?_, hx⟩)
    rintro rfl
    obtain rfl := Option.some.inj (hx.symm.trans hat)
    rw [hended] at hlive
    cases hlive
  cases h with
  | same => exact hx
  | again hat hended => exact hx
  | renew hat hlive hok hlater hstate => exact hput hat hlive
  | release hat hlive hok hlater hended hendedAt => exact hput hat hlive
  | grant hat hpending hok hseq hexclusive hgranted hearlier =>
    exact hput hat (by rw [hpending]; rfl)
  | reserve hfresh hok hseq hpending hfree =>
    refine at_insert.mpr (.inr ⟨?_, hx⟩)
    rintro rfl
    exact hfresh (Dict.get?_isSome_iff.mp (by
      rw [show s.reservations.get? _ = some x from hx]
      rfl))
  | defer hat count => exact hx

theorem Change.ends (h : Change lib s s' writes) (hs : Sound lib s) (hreceipts : Receipts lib d s) :
    ∀ w ∈ writes, EndsSome lib s w := by
  intro w hw
  cases h with
  | same | renew | grant | reserve | defer => cases hw
  | again hat hended =>
    obtain rfl := List.mem_singleton.mp hw
    exact ⟨_, _, rfl, hat, Ends.receiptOf (hs.record hat) hended (hreceipts.ended hat hended).2⟩
  | release hat hlive hok hlater hended hendedAt =>
    rename_i old r
    obtain rfl := List.mem_singleton.mp hw
    have hends := Ends.receiptOf (s := s.put r) hok hended hendedAt
    exact ⟨_, _, rfl, hat, hends.ok, hlater.trans hends.later, hends.ended, hends.endedAt,
      hends.deferrals⟩

theorem Change.receipts (h : Change lib s s' writes)
    (hreceipts : Receipts lib d s) (hsettled : Settled d s) :
    Receipts lib (d.applyAll writes) s' ∧ Settled (d.applyAll writes) s' := by
  -- a live record that is replaced by a live one has no receipt
  have hput : ∀ {old r : Record}, s.At r.id old → old.state.isLive = true →
      r.state.isLive = true → Receipts lib d (s.put r) ∧ Settled d (s.put r) := by
    intro old r hat hlive hlive'
    refine ⟨⟨fun {id saved} hsaved => ?_, fun {id x} hx hended => ?_⟩, fun {id x} hx hxLive => ?_⟩
    · obtain ⟨x, hx, hends⟩ := hreceipts.ends hsaved
      refine ⟨x, at_put.mpr (.inr ⟨?_, hx⟩), hends⟩
      rintro rfl
      rw [hsettled hat hlive] at hsaved
      cases hsaved
    · rcases at_put.mp hx with ⟨rfl, rfl⟩ | ⟨-, hold⟩
      · rw [hlive'] at hended
        cases hended
      · exact hreceipts.ended hold hended
    · rcases at_put.mp hx with ⟨rfl, rfl⟩ | ⟨-, hold⟩
      · exact hsettled hat hlive
      · exact hsettled hold hxLive
  cases h with
  | same => exact ⟨hreceipts, hsettled⟩
  | again hat hended =>
    rename_i r
    have hlookup : ∀ id, (d.applyAll [.receipt (s.receiptOf r)]).receipt id = d.receipt id := by
      intro id
      rw [applyAll_cons, applyAll_nil, receipt_apply_receipt]
      split
      · rename_i hid
        obtain ⟨saved, hsaved⟩ := Option.isSome_iff_exists.mp (hreceipts.ended hat hended).1
        rw [← hid, show (s.receiptOf r).id = r.id from rfl, hsaved, Option.getD_some]
      · rfl
    refine ⟨⟨fun hsaved => hreceipts.ends (hlookup _ ▸ hsaved), fun hx hended => ?_⟩,
      fun hx hlive => (hlookup _).trans (hsettled hx hlive)⟩
    rw [hlookup]
    exact hreceipts.ended hx hended
  | renew hat hlive hok hlater hstate => exact hput hat hlive (by rw [hstate]; exact hlive)
  | release hat hlive hok hlater hended hendedAt =>
    rename_i old r
    have hlookup : ∀ id, (d.applyAll [.receipt ((s.put r).receiptOf r)]).receipt id =
        if r.id = id then some ((s.put r).receiptOf r) else d.receipt id := by
      intro id
      rw [applyAll_cons, applyAll_nil, receipt_apply_receipt, show ((s.put r).receiptOf r).id = r.id from rfl]
      split
      · rename_i hid
        rw [← hid, hsettled hat hlive, Option.getD_none]
      · rfl
    refine ⟨⟨fun {id saved} hsaved => ?_, fun {id x} hx hxEnded => ?_⟩,
      fun {id x} hx hxLive => ?_⟩
    · rw [hlookup] at hsaved
      split at hsaved
      · rename_i hid
        obtain rfl := Option.some.inj hsaved
        exact ⟨r, at_put.mpr (.inl ⟨hid.symm, rfl⟩), Ends.receiptOf hok hended hendedAt⟩
      · rename_i hid
        obtain ⟨x, hx, hends⟩ := hreceipts.ends hsaved
        exact ⟨x, at_put.mpr (.inr ⟨Ne.symm hid, hx⟩), hends⟩
    · rw [hlookup]
      rcases at_put.mp hx with ⟨rfl, rfl⟩ | ⟨hid, hold⟩
      · rw [if_pos rfl]
        exact ⟨rfl, hendedAt⟩
      · rw [if_neg (Ne.symm hid)]
        exact hreceipts.ended hold hxEnded
    · rw [hlookup]
      rcases at_put.mp hx with ⟨rfl, rfl⟩ | ⟨hid, hold⟩
      · rw [hended] at hxLive
        cases hxLive
      · rw [if_neg (Ne.symm hid)]
        exact hsettled hold hxLive
  | grant hat hpending hok hseq hexclusive hgranted hearlier =>
    exact hput hat (by rw [hpending]; rfl) (by rw [hgranted]; rfl)
  | reserve hfresh hok hseq hpending hfree =>
    rename_i r
    have hnone : d.receipt r.id = none := by
      by_contra hsome
      obtain ⟨saved, hsaved⟩ := Option.ne_none_iff_exists'.mp hsome
      obtain ⟨x, hx, -⟩ := hreceipts.ends hsaved
      exact hfresh (Dict.get?_isSome_iff.mp (by
        rw [show s.reservations.get? _ = some x from hx]
        rfl))
    refine ⟨⟨fun {id saved} hsaved => ?_, fun {id x} hx hended => ?_⟩, fun {id x} hx hlive => ?_⟩
    · obtain ⟨x, hx, hends⟩ := hreceipts.ends hsaved
      refine ⟨x, at_insert.mpr (.inr ⟨?_, hx⟩), hends⟩
      rintro rfl
      cases hnone.symm.trans hsaved
    · rcases at_insert.mp hx with ⟨rfl, rfl⟩ | ⟨-, hold⟩
      · rw [hpending] at hended
        cases hended
      · exact hreceipts.ended hold hended
    · rcases at_insert.mp hx with ⟨rfl, rfl⟩ | ⟨-, hold⟩
      · exact hnone
      · exact hsettled hold hlive
  | defer hat count => exact ⟨⟨hreceipts.ends, hreceipts.ended⟩, hsettled⟩

end Workbay.Reservation

/-!
## Proofs: the changes that each operation makes
-/

namespace Workbay.Reservation

open List

variable {lib : Library} {env : Env} {s s' : Store} {d : Disk} {now : Number}
  {writes : List Write} {answer : Answer}

/-! ## Numbers that can be read back -/

/-- Numbers that are not all written, or are all read back. -/
def Representable (ns : List Number) : Prop := .inf ∈ ns ∨ ∀ n ∈ ns, n.isTooLarge = false

/-- The numbers of a new record can be read back. -/
def NewRepresentable (lib : Library) (t : Terms) (hold : Int) (now : Number) : Prop :=
  ∀ expiresAt drainDeadline, newExpiresAt now t.ttlS hold = .ok expiresAt →
    newDrainDeadline now t.maxDrainS (t.startAt.bind (startEpoch lib)) = .ok drainDeadline →
    Representable [.int hold, expiresAt, drainDeadline]

/-- The number of a renewed record can be read back. -/
def RenewRepresentable (r : Record) (now ttlS : Number) : Prop :=
  ∀ expiresAt, renewedExpiresAt r now ttlS = .ok expiresAt → Representable [expiresAt]

theorem isNumber_of_representable {ns : List Number} (h : Representable ns) (hinf : .inf ∉ ns)
    {n : Number} (hn : n ∈ ns) : n.isFinite = true :=
  Number.isFinite_iff.mpr ⟨fun heq => hinf (heq ▸ hn), (h.resolve_left hinf) n hn⟩

theorem add_eq_ok {a b c : Number} : add a b = .ok c ↔ Number.add? a b = some c := by
  unfold add
  cases Number.add? a b <;> simp

theorem map_eq_ok {α β : Type} {f : α → β} {x : Except Exn α} {b : β} :
    x.map f = .ok b ↔ ∃ a, x = .ok a ∧ f a = b := by
  cases x <;> simp [Except.map]

/-- What is known of terms that were accepted. -/
structure Terms.Ok (lib : Library) (t : Terms) : Prop where
  owner : Text.strip t.owner ≠ ""
  purpose : Text.strip t.purpose ≠ ""
  cpu : isNumber true t.cpu = true
  ttlS : isNumber true t.ttlS = true
  maxDrainS : isNumber true t.maxDrainS = true
  memoryBytes : 0 < t.memoryBytes
  startAt : isStart lib t.startAt = true

theorem readText_eq_ok {field text : String} {v : Value} (h : readText field v = .ok text) :
    Text.strip text ≠ "" := by
  unfold readText at h
  split at h
  · split at h
    · cases h
    · rename_i hne
      obtain rfl := Except.ok.inj h
      exact hne
  · cases h

theorem readNumber_eq_ok {field : String} {n : Number} {v : Value}
    (h : readNumber field v = .ok n) : isNumber true n = true := by
  unfold readNumber at h
  split at h
  · split at h
    · rename_i hnumber
      obtain rfl := Except.ok.inj h
      exact hnumber
    · cases h
  · cases h

theorem Request.terms_ok {q : Request} {t : Terms} (h : q.terms lib = .ok t) : t.Ok lib := by
  unfold Request.terms at h
  obtain ⟨owner, howner, h⟩ := bind_eq_ok.mp h
  obtain ⟨purpose, hpurpose, h⟩ := bind_eq_ok.mp h
  obtain ⟨cpu, hcpu, h⟩ := bind_eq_ok.mp h
  obtain ⟨ttlS, httl, h⟩ := bind_eq_ok.mp h
  obtain ⟨maxDrainS, hdrain, h⟩ := bind_eq_ok.mp h
  obtain ⟨memoryBytes, hmemory, h⟩ := bind_eq_ok.mp h
  obtain ⟨exclusive, -, h⟩ := bind_eq_ok.mp h
  obtain ⟨objective, -, h⟩ := bind_eq_ok.mp h
  obtain ⟨startAt, hstart, h⟩ := bind_eq_ok.mp h
  obtain rfl := Except.ok.inj h
  refine ⟨readText_eq_ok howner, readText_eq_ok hpurpose, readNumber_eq_ok hcpu,
    readNumber_eq_ok httl, readNumber_eq_ok hdrain, ?_, ?_⟩
  · unfold readMemory at hmemory
    split at hmemory
    · split at hmemory
      · rename_i hpos
        obtain rfl := Except.ok.inj hmemory
        exact hpos
      · cases hmemory
    · cases hmemory
  · unfold readStart at hstart
    split at hstart
    · obtain rfl := Except.ok.inj hstart
      rfl
    · split at hstart
      · rename_i hok
        obtain rfl := Except.ok.inj hstart
        exact hok
      · cases hstart
    · cases hstart

theorem maxHoldS_pos {config : ConfigFile} {hold : Int} (h : config.maxHoldS = some hold) :
    0 < hold := by
  unfold ConfigFile.maxHoldS at h
  split at h
  · split at h
    · obtain rfl := Option.some.inj h
      assumption
    · cases h
  · cases h

variable {r : Record} {id owner : Value}

/-- What `reserve` makes of accepted terms. -/
theorem newRecord_ok {t : Terms} {id : String} {seq : Nat} {hold : Int} (ht : t.Ok lib)
    (hid : isHexId id = true) (hseq : 0 < seq) (hhold : 0 < hold) (hnow : isNumber false now = true)
    (hfit : NewRepresentable lib t hold now) (h : newRecord lib id seq t now hold = .ok r)
    (hdump : ∀ n ∈ r.numbers, n ≠ .inf) :
    RecordOk lib r ∧ r.id = id ∧ r.seq = seq ∧ r.state = .pending ∧
      r.exclusive = t.exclusive := by
  unfold newRecord at h
  obtain ⟨expiresAt, hexpires, h⟩ := bind_eq_ok.mp h
  obtain ⟨drainDeadline, hdrain, h⟩ := bind_eq_ok.mp h
  have hrepresentable := hfit _ _ hexpires hdrain
  unfold newExpiresAt at hexpires
  obtain ⟨byTtl, hbyTtl, hexpires⟩ := bind_eq_ok.mp hexpires
  obtain ⟨byHold, hbyHold, hexpires⟩ := bind_eq_ok.mp hexpires
  rw [add_eq_ok] at hbyTtl hbyHold
  have hmin : Number.min byTtl byHold = expiresAt := Except.ok.inj hexpires
  obtain rfl := Except.ok.inj h
  have hnonneg := isNumber_nonneg hnow
  have hholdNonneg : .int 0 ≤ Number.int hold := Number.int_nonneg.mpr hhold.le
  have hexpiresNonneg : .int 0 ≤ expiresAt := by
    rw [← hmin]
    exact Number.le_min (Number.add?_nonneg hnonneg (isNumber_nonneg ht.ttlS) hbyTtl)
      (Number.add?_nonneg hnonneg hholdNonneg hbyHold)
  have hdrainNonneg : .int 0 ≤ drainDeadline := by
    unfold newDrainDeadline at hdrain
    split at hdrain <;> rw [add_eq_ok] at hdrain
    · exact Number.add?_nonneg hnonneg (isNumber_nonneg ht.maxDrainS) hdrain
    · exact Number.add?_nonneg (hnonneg.trans (Number.le_max_left _ _))
        (isNumber_nonneg ht.maxDrainS) hdrain
  have hinf : .inf ∉ [Number.int hold, expiresAt, drainDeadline] := by
    intro hin
    simp only [mem_cons, not_mem_nil, or_false, reduceCtorEq, false_or] at hin
    rcases hin with heq | heq
    · exact hdump expiresAt (by simp [Record.numbers]) heq.symm
    · exact hdump drainDeadline (by simp [Record.numbers]) heq.symm
  have hfinite : ∀ n ∈ [Number.int hold, expiresAt, drainDeadline], n.isFinite = true :=
    fun n hn => isNumber_of_representable hrepresentable hinf hn
  refine ⟨⟨?_, byHold, hbyHold, hmin ▸ Number.min_le_right _ _⟩, rfl, rfl, rfl, rfl⟩
  rw [validRecord_iff]
  refine ⟨hid, ht.owner, ht.purpose, ht.cpu, ht.memoryBytes, ⟨ht.ttlS, ht.maxDrainS, ?_⟩,
    ⟨hnow, hnow, ?_, ?_⟩, hseq, fun n hn => absurd hn (by simp), fun n hn => absurd hn (by simp),
    ht.startAt⟩
  · have hlt : Number.int 0 < Number.int hold := by
      rw [Number.lt_iff]
      simpa [Number.value] using hhold
    simp [isNumber, hfinite (.int hold) (by simp), hlt]
  · exact (isNumber_iff_of_nonneg hexpiresNonneg).mpr (hfinite _ (by simp))
  · exact (isNumber_iff_of_nonneg hdrainNonneg).mpr (hfinite _ (by simp))

/-- Either nothing can be written, or the state changes as an action may change it. -/
def Changes (lib : Library) (s s' : Store) (writes : List Write) : Prop :=
  (writes = [] ∧ s'.isDumpable = false) ∨ Change lib s s' writes

theorem changes_refuse {reason : String} (h : refuse s reason = .ok (s', writes, answer)) :
    Changes lib s s' writes := by
  obtain ⟨rfl, rfl, -⟩ := Prod.mk.inj (Except.ok.inj h) |>.imp_right Prod.mk.inj
  exact .inr .same

theorem conflicting_none {exclusive : Bool} (hs : Sound lib s)
    (h : conflicting exclusive s = none) (hexclusive : exclusive = true) {id : String} {x : Record}
    (hx : s.At id x) : isExclusiveLive x = false := by
  unfold conflicting Store.bySeq at h
  have hin : x ∈ s.records.insertionSort fun a b => a.seq ≤ b.seq := by
    rw [mem_insertionSort, hs.mem_records, hs.id hx]
    exact hx
  have hnone := find?_eq_none.mp h x hin
  simpa [hexclusive] using hnone

theorem reserve_changes {q : Request} (hs : Sound lib s) (hnow : isNumber false now = true)
    (hfresh : env.uuid.1 ∉ s.reservations.map Prod.fst)
    (hfit : ∀ t hold, q.terms lib = .ok t → env.config.maxHoldS = some hold →
      NewRepresentable lib t hold now)
    (h : reserve lib env q s now = .ok (s', writes, answer)) : Changes lib s s' writes := by
  unfold reserve at h
  split at h
  · exact changes_refuse h
  rename_i t ht
  split at h
  · exact changes_refuse h
  rename_i hold hhold
  unfold reserveTerms at h
  obtain ⟨beyond, -, h⟩ := bind_eq_ok.mp h
  split at h
  · exact changes_refuse h
  split at h
  · obtain ⟨rfl, rfl, -⟩ := Prod.mk.inj (Except.ok.inj h) |>.imp_right Prod.mk.inj
    exact .inr .same
  rename_i hconflict
  obtain ⟨r, hr, heq⟩ := map_eq_ok.mp h
  obtain ⟨rfl, rfl, -⟩ := Prod.mk.inj heq |>.imp_right Prod.mk.inj
  by_cases hdump : (s.insert r).isDumpable = false
  · exact .inl ⟨rfl, hdump⟩
  have hnumbers : ∀ n ∈ r.numbers, n ≠ .inf := by
    intro n hn
    have hall := all_eq_true.mp (Bool.eq_true_of_not_eq_false hdump) r
      (mem_map.mpr ⟨(r.id, r), Dict.mem_of_get? (Dict.get?_set_self _ _ _), rfl⟩)
    exact of_decide_eq_true (all_eq_true.mp hall n hn)
  obtain ⟨hok, hid, hseq, hstate, hexclusive⟩ := newRecord_ok (Request.terms_ok ht) env.uuid.2
    s.seq.succ_pos (maxHoldS_pos hhold) hnow (hfit t hold ht hhold) hr hnumbers
  refine .inr (.reserve (hid ▸ hfresh) hok hseq hstate fun hr id x hx => ?_)
  exact conflicting_none hs hconflict (hexclusive ▸ hr) hx

/-! ## `renew`, `release` and `lookup` -/

theorem find_at (hs : Sound lib s) (h : s.find id = .ok r) : s.At r.id r ∧ id = .str r.id := by
  unfold Store.find at h
  split at h
  · split at h
    · rename_i hget
      obtain rfl := Except.ok.inj h
      have hid := hs.id hget
      rw [hid]
      exact ⟨hget, rfl⟩
    · cases h
  · cases h

theorem owned_find (h : s.owned id owner = .ok r) : s.find id = .ok r ∧ owner = .str r.owner := by
  unfold Store.owned at h
  split at h
  · cases h
  · rename_i r' hfind
    split at h
    · rename_i howner
      obtain rfl := Except.ok.inj h
      exact ⟨hfind, howner⟩
    · cases h

theorem renew_changes {ttlS : Value} (hs : Sound lib s) (hnow : isNumber false now = true)
    (hfit : ∀ r ttl, s.find id = .ok r → r.state.isLive = true →
      readNumber "ttl_s" ttlS = .ok ttl → RenewRepresentable r now ttl)
    (h : renew id owner ttlS s now = .ok (s', writes, answer)) : Changes lib s s' writes := by
  unfold renew at h
  split at h
  · exact changes_refuse h
  rename_i r howned
  obtain ⟨hfind, -⟩ := owned_find howned
  obtain ⟨hat, -⟩ := find_at hs hfind
  split at h
  · exact changes_refuse h
  rename_i hlive
  rw [Bool.not_eq_false] at hlive
  split at h
  · exact changes_refuse h
  rename_i ttl httl
  obtain ⟨expiresAt, hexpires, heq⟩ := map_eq_ok.mp h
  obtain ⟨rfl, rfl, -⟩ := Prod.mk.inj heq |>.imp_right Prod.mk.inj
  by_cases hdump : (s.put { r with ttlS := ttl, renewedAt := now, expiresAt }).isDumpable = false
  · exact .inl ⟨rfl, hdump⟩
  have hinf : expiresAt ≠ .inf := by
    have hall := all_eq_true.mp (Bool.eq_true_of_not_eq_false hdump)
      { r with ttlS := ttl, renewedAt := now, expiresAt }
      (mem_map.mpr ⟨(r.id, _), Dict.mem_of_get? (Dict.get?_set_self _ _ _), rfl⟩)
    exact of_decide_eq_true (all_eq_true.mp hall expiresAt (by simp [Record.numbers]))
  have hrepresentable := hfit r ttl hfind hlive httl expiresAt hexpires
  have hfinite : expiresAt.isFinite = true :=
    isNumber_of_representable hrepresentable (by simpa using hinf.symm) mem_cons_self
  have httlNumber := readNumber_eq_ok httl
  have hvalid := validRecord_iff.mp (hs.record hat).valid
  unfold renewedExpiresAt at hexpires
  obtain ⟨byTtl, hbyTtl, hexpires⟩ := bind_eq_ok.mp hexpires
  obtain ⟨limit, hlimit, hexpires⟩ := bind_eq_ok.mp hexpires
  rw [add_eq_ok] at hbyTtl hlimit
  have hmin : Number.min byTtl limit = expiresAt := Except.ok.inj hexpires
  have hnonneg : .int 0 ≤ expiresAt := by
    rw [← hmin]
    exact Number.le_min
      (Number.add?_nonneg (isNumber_nonneg hnow) (isNumber_nonneg httlNumber) hbyTtl)
      (Number.add?_nonneg (isNumber_nonneg hvalid.2.2.2.2.2.2.1.1)
        (isNumber_nonneg hvalid.2.2.2.2.2.1.2.2) hlimit)
  refine .inr (.renew hat hlive ⟨?_, limit, hlimit, hmin ▸ Number.min_le_right _ _⟩
    ⟨rfl, rfl, rfl, fun _ => rfl⟩ rfl)
  rw [validRecord_iff]
  exact ⟨hvalid.1, hvalid.2.1, hvalid.2.2.1, hvalid.2.2.2.1, hvalid.2.2.2.2.1,
    ⟨httlNumber, hvalid.2.2.2.2.2.1.2⟩, ⟨hvalid.2.2.2.2.2.2.1.1, hnow,
      (isNumber_iff_of_nonneg hnonneg).mpr hfinite, hvalid.2.2.2.2.2.2.1.2.2.2⟩,
    hvalid.2.2.2.2.2.2.2⟩

theorem release_changes (hs : Sound lib s) (hnow : isNumber false now = true)
    (h : release d id owner s now = .ok (s', writes, answer)) : Changes lib s s' writes := by
  unfold release at h
  split at h
  · exact changes_refuse h
  rename_i r howned
  obtain ⟨hat, -⟩ := find_at hs (owned_find howned).1
  split at h
  · rename_i hreleased
    obtain ⟨rfl, heq⟩ := Prod.mk.inj (Except.ok.inj h)
    obtain ⟨rfl, -⟩ := Prod.mk.inj heq
    exact .inr (.again hat (by rw [hreleased]; rfl))
  split at h
  · exact changes_refuse h
  rename_i hlive
  rw [Bool.not_eq_false] at hlive
  obtain ⟨rfl, heq⟩ := Prod.mk.inj (Except.ok.inj h)
  obtain ⟨rfl, -⟩ := Prod.mk.inj heq
  have hvalid := validRecord_iff.mp (hs.record hat).valid
  refine .inr (.release hat hlive ⟨?_, (hs.record hat).bounded⟩
    ⟨rfl, rfl, rfl, fun hlive => absurd hlive Bool.false_ne_true⟩ rfl rfl)
  rw [validRecord_iff]
  refine ⟨hvalid.1, hvalid.2.1, hvalid.2.2.1, hvalid.2.2.2.1, hvalid.2.2.2.2.1,
    hvalid.2.2.2.2.2.1, hvalid.2.2.2.2.2.2.1, hvalid.2.2.2.2.2.2.2.1, hvalid.2.2.2.2.2.2.2.2.1,
    fun n hn => ?_, hvalid.2.2.2.2.2.2.2.2.2.2⟩
  obtain rfl := Option.some.inj hn
  exact hnow

theorem lookup_changes (hs : Sound lib s) (h : lookup d id owner s = .ok (s', writes, answer)) :
    Changes lib s s' writes := by
  unfold lookup at h
  split at h
  · exact changes_refuse h
  rename_i r howned
  obtain ⟨hat, -⟩ := find_at hs (owned_find howned).1
  obtain ⟨rfl, heq⟩ := Prod.mk.inj (Except.ok.inj h)
  split at heq
  · obtain ⟨rfl, -⟩ := Prod.mk.inj heq
    exact .inr .same
  · rename_i hended
    obtain ⟨rfl, -⟩ := Prod.mk.inj heq
    exact .inr (.again hat (Bool.eq_false_iff.mpr hended))

theorem notGranted_none {running : List (Option Caps)} {gauges : Caps} {windowEnd : Option Number}
    (hs : Sound lib s) (h : notGranted lib running gauges s r now windowEnd = .ok none)
    {id : String} {x : Record} (hx : s.At id x) (hlive : x.state.isLive = true)
    (hseq : x.seq < r.seq) : x.exclusive = false ∧ r.exclusive = false := by
  have hearlier : x ∈ earlier s r := by
    refine mem_filter.mpr ⟨?_, by simp [hlive, hseq]⟩
    rw [hs.mem_records, hs.id hx]
    exact hx
  unfold notGranted at h
  split at h
  · cases h
  split at h
  · cases h
  split at h
  · cases h
  rename_i hdraining
  simp only [Bool.or_eq_true, any_eq_true, Bool.and_eq_true, Bool.not_eq_true', not_or,
    not_exists, not_and, Bool.not_eq_true, isEmpty_eq_false_iff] at hdraining
  refine ⟨hdraining.1 x hearlier, ?_⟩
  by_contra hexclusive
  have hempty := hdraining.2 (Bool.eq_true_of_not_eq_false hexclusive)
  exact hempty (ne_nil_of_mem hearlier)

theorem grant_changes {running : List (Option Caps)} {gauges : Caps} (hs : Sound lib s)
    (hnow : isNumber false now = true)
    (h : grant lib env id running gauges s now = .ok (s', writes, answer)) :
    Changes lib s s' writes := by
  unfold grant at h
  split at h
  · exact changes_refuse h
  rename_i r hfind
  obtain ⟨hat, -⟩ := find_at hs hfind
  split at h
  · obtain ⟨rfl, rfl, -⟩ := Prod.mk.inj (Except.ok.inj h) |>.imp_right Prod.mk.inj
    exact .inr .same
  split at h
  · exact changes_refuse h
  rename_i hpending
  rw [not_not] at hpending
  obtain ⟨windowEnd, -, h⟩ := bind_eq_ok.mp h
  obtain ⟨refusal, hrefusal, h⟩ := bind_eq_ok.mp h
  split at h
  · obtain ⟨rfl, rfl, -⟩ := Prod.mk.inj (Except.ok.inj h) |>.imp_right Prod.mk.inj
    exact .inr .same
  obtain ⟨rfl, rfl, -⟩ := Prod.mk.inj (Except.ok.inj h) |>.imp_right Prod.mk.inj
  have hvalid := validRecord_iff.mp (hs.record hat).valid
  refine .inr (.grant hat hpending ⟨?_, (hs.record hat).bounded⟩ rfl rfl rfl
    fun hx hlive hseq => notGranted_none hs hrefusal hx hlive hseq)
  rw [validRecord_iff]
  refine ⟨hvalid.1, hvalid.2.1, hvalid.2.2.1, hvalid.2.2.2.1, hvalid.2.2.2.2.1,
    hvalid.2.2.2.2.2.1, hvalid.2.2.2.2.2.2.1, hvalid.2.2.2.2.2.2.2.1, fun n hn => ?_,
    hvalid.2.2.2.2.2.2.2.2.2⟩
  obtain rfl := Option.some.inj hn
  exact hnow

/-! ## `status` and `record_deferral` -/

theorem status_changes (h : status env s = .ok (s', writes, answer)) :
    Changes lib s s' writes := by
  obtain ⟨windowEnd, -, heq⟩ := map_eq_ok.mp h
  obtain ⟨rfl, rfl, -⟩ := Prod.mk.inj heq |>.imp_right Prod.mk.inj
  exact .inr .same

theorem recordDeferral_changes (hs : Sound lib s)
    (h : recordDeferral id s = .ok (s', writes, answer)) : Changes lib s s' writes := by
  unfold recordDeferral at h
  split at h
  · exact changes_refuse h
  rename_i r hfind
  obtain ⟨hat, -⟩ := find_at hs hfind
  split at h
  · exact changes_refuse h
  obtain ⟨rfl, rfl, -⟩ := Prod.mk.inj (Except.ok.inj h) |>.imp_right Prod.mk.inj
  exact .inr (.defer hat _)

end Workbay.Reservation

import Workbay.Reservation.Proofs.StoreProofs

/-!
# Proofs: receipts are reconciled by the sweep
-/

namespace Workbay.Reservation

open List

variable {lib : Library} {s : Store} {d : Disk} {now : Number}

@[simp] theorem applyAll_nil : d.applyAll [] = d := rfl

@[simp] theorem applyAll_cons (w : Write) (ws : List Write) :
    d.applyAll (w :: ws) = (d.apply w).applyAll ws := rfl

theorem applyAll_append (ws vs : List Write) :
    d.applyAll (ws ++ vs) = (d.applyAll ws).applyAll vs := foldl_append

/-- A receipt that ends a record. -/
structure Ends (lib : Library) (r saved : Record) : Prop where
  ok : RecordOk lib saved
  later : Later r saved
  ended : saved.state.isLive = false
  endedAt : saved.endedAt.isSome = true
  deferrals : saved.deferrals.isSome = true

/-- Every receipt ends a record of the state, and a record that has ended has a receipt. -/
structure Receipts (lib : Library) (d : Disk) (s : Store) : Prop where
  ends : ∀ {id saved}, d.receipt id = some saved → ∃ r, s.At id r ∧ Ends lib r saved
  ended : ∀ {id r}, s.At id r → r.state.isLive = false →
    (d.receipt id).isSome = true ∧ r.endedAt.isSome = true

/-- No live record has a receipt: the state has caught up with the receipts. -/
def Settled (d : Disk) (s : Store) : Prop :=
  ∀ {id r}, s.At id r → r.state.isLive = true → d.receipt id = none

variable {r saved : Record}

theorem Ends.update (h : Ends lib r saved) : r.update saved = saved := by
  obtain ⟨endedAt, hended⟩ := Option.isSome_iff_exists.mp h.endedAt
  obtain ⟨deferrals, hdeferrals⟩ := Option.isSome_iff_exists.mp h.deferrals
  unfold Record.update
  cases saved
  simp only at hended hdeferrals
  subst hended hdeferrals
  rfl

theorem receipt_apply_receipt (w : Record) (id : String) :
    (d.apply (.receipt w)).receipt id =
      if w.id = id then some ((d.receipt id).getD w) else d.receipt id := by
  unfold Disk.apply Disk.receipt
  simp only
  rw [Dict.get?_setDefault]
  by_cases hid : w.id = id
  · subst hid
    cases d.receipts.get? w.id <;> rfl
  · simp only [hid, Ne.symm hid, if_false]

theorem Receipts.apply (h : Receipts lib d s) {w : Record} (hat : s.At w.id r)
    (hends : Ends lib r w) : Receipts lib (d.apply (.receipt w)) s := by
  constructor
  · intro id saved hsaved
    rw [receipt_apply_receipt] at hsaved
    split at hsaved
    · rename_i hid
      subst hid
      cases hreceipt : d.receipt w.id with
      | none =>
        rw [hreceipt] at hsaved
        obtain rfl := Option.some.inj hsaved
        exact ⟨r, hat, hends⟩
      | some old =>
        rw [hreceipt] at hsaved
        obtain rfl := Option.some.inj hsaved
        exact h.ends hreceipt
    · exact h.ends hsaved
  · intro id x hx hended
    obtain ⟨hsome, hendedAt⟩ := h.ended hx hended
    rw [receipt_apply_receipt]
    split
    · exact ⟨rfl, hendedAt⟩
    · exact ⟨hsome, hendedAt⟩

/-- What ends a record of the state may be written in any part. -/
def EndsSome (lib : Library) (s : Store) (w : Write) : Prop :=
  ∃ r saved, w = .receipt saved ∧ s.At saved.id r ∧ Ends lib r saved

theorem Receipts.applyAll {writes : List Write} (h : Receipts lib d s)
    (hwrites : ∀ w ∈ writes, EndsSome lib s w) : Receipts lib (d.applyAll writes) s := by
  induction writes generalizing d with
  | nil => exact h
  | cons w writes ih =>
    obtain ⟨r, saved, rfl, hat, hends⟩ := hwrites w mem_cons_self
    exact ih (h.apply hat hends) fun w hw => hwrites w (mem_cons_of_mem _ hw)

theorem receipt_applyAll {writes : List Write} {id : String} (h : d.receipt id = some saved) :
    (d.applyAll writes).receipt id = some saved := by
  induction writes generalizing d with
  | nil => exact h
  | cons w writes ih =>
    refine ih ?_
    cases w with
    | receipt w =>
      rw [receipt_apply_receipt, h]
      split <;> rfl
    | state s => exact h

theorem receipt_applyAll_eq {writes : List Write}
    (h : ∀ w, .receipt w ∈ writes → w.id = saved.id → w = saved) :
    (d.applyAll writes).receipt saved.id =
      if .receipt saved ∈ writes then some ((d.receipt saved.id).getD saved)
      else d.receipt saved.id := by
  induction writes generalizing d with
  | nil => rfl
  | cons w writes ih =>
    have hrest := fun d => ih (d := d) fun w hw => h w (mem_cons_of_mem _ hw)
    show ((d.apply w).applyAll writes).receipt saved.id = _
    cases w with
    | state s =>
      rw [hrest]
      simp [Disk.apply, Disk.receipt]
    | receipt w =>
      by_cases hid : w.id = saved.id
      · obtain rfl := h w mem_cons_self hid
        rw [if_pos mem_cons_self]
        refine receipt_applyAll ?_
        rw [receipt_apply_receipt, if_pos rfl]
      · have hne : saved ≠ w := fun heq => hid (heq ▸ rfl)
        rw [hrest, receipt_apply_receipt, if_neg hid]
        simp [hne]

/-- A record that has ended now. -/
def endedNow (now : Number) (r : Record) : Record :=
  { r with state := endedState now r, endedAt := some now }

/-- The record after the sweep. -/
def swept (d : Disk) (now : Number) (r : Record) : Record :=
  match d.receipt r.id with
  | some saved => saved
  | none =>
    if r.state.isLive = false ∨ (endedState now r).isLive then r else endedNow now r

/-- The receipts that the sweep writes for a record. -/
def sweptWrites (d : Disk) (s : Store) (now : Number) (r : Record) : List Write :=
  match d.receipt r.id with
  | some _ => []
  | none =>
    if r.state.isLive = false ∨ (endedState now r).isLive then []
    else [.receipt (s.receiptOf (endedNow now r))]

theorem RecordOk.endedNow (h : RecordOk lib r) (hnow : isNumber false now = true) :
    RecordOk lib (endedNow now r) := by
  refine ⟨?_, h.bounded⟩
  have hvalid := validRecord_iff.mp h.valid
  rw [validRecord_iff]
  refine ⟨hvalid.1, hvalid.2.1, hvalid.2.2.1, hvalid.2.2.2.1, hvalid.2.2.2.2.1, hvalid.2.2.2.2.2.1,
    hvalid.2.2.2.2.2.2.1, hvalid.2.2.2.2.2.2.2.1, hvalid.2.2.2.2.2.2.2.2.1, ?_,
    hvalid.2.2.2.2.2.2.2.2.2.2⟩
  intro n hn
  obtain rfl := Option.some.inj hn
  exact hnow

theorem Ends.receiptOf (hok : RecordOk lib r) (hended : r.state.isLive = false)
    (hendedAt : r.endedAt.isSome = true) : Ends lib r (s.receiptOf r) :=
  ⟨⟨hok.valid, hok.bounded⟩, ⟨rfl, rfl, rfl, fun _ => rfl⟩, hended, hendedAt, rfl⟩

theorem Later.endedNow (hended : (endedState now r).isLive = false) : Later r (endedNow now r) :=
  ⟨rfl, rfl, rfl, fun hlive => absurd hlive (by
    show ¬ (endedState now r).isLive = true
    rw [hended]
    exact Bool.false_ne_true)⟩

theorem sweptWrites_ends (hs : Sound lib s) (hnow : isNumber false now = true) {id : String}
    (hat : s.At id r) : ∀ w ∈ sweptWrites d s now r, EndsSome lib s w := by
  intro w hw
  unfold sweptWrites at hw
  split at hw
  · cases hw
  split at hw
  · cases hw
  · rename_i hcond
    push Not at hcond
    obtain rfl := mem_singleton.mp hw
    have hended : (endedState now r).isLive = false := Bool.eq_false_iff.mpr hcond.2
    have hends := Ends.receiptOf (s := s) ((hs.record hat).endedNow hnow) hended rfl
    refine ⟨r, _, rfl, ?_, ⟨hends.ok, (Later.endedNow hended).trans hends.later, hends.ended,
      hends.endedAt, hends.deferrals⟩⟩
    show s.At r.id r
    rw [hs.id hat]
    exact hat

section

variable (hs : Sound lib s) (hreceipts : Receipts lib d s) (hnow : isNumber false now = true)

include hs hreceipts

theorem sweepRecord_eq {id : String} {r : Record} (hat : s.At id r) :
    sweepRecord lib d s now r = some (swept d now r, sweptWrites d s now r) := by
  have hid := hs.id hat
  unfold sweepRecord swept sweptWrites
  cases hreceipt : d.receipt r.id with
  | none =>
    simp only
    split <;> rfl
  | some saved =>
    obtain ⟨r', hat', hends⟩ := hreceipts.ends hreceipt
    rw [hid] at hat'
    obtain rfl := Option.some.inj (hat.symm.trans hat')
    have hsavedId := hends.later.id
    simp only
    rw [if_neg (by simp [hends.ok.valid, hsavedId, hends.ended]), hends.update]

theorem sweepAll_eq : sweepAll lib d s now s.reservations =
    (s.reservations.flatMap fun entry => sweptWrites d s now entry.2,
      some (s.reservations.map fun entry => (entry.1, swept d now entry.2))) := by
  have hall : ∀ entries : Dict String Record, (∀ entry ∈ entries, s.At entry.1 entry.2) →
      sweepAll lib d s now entries = (entries.flatMap fun entry => sweptWrites d s now entry.2,
        some (entries.map fun entry => (entry.1, swept d now entry.2))) := by
    intro entries hentries
    induction entries with
    | nil => rfl
    | cons entry entries ih =>
      have hrest := ih fun entry hentry => hentries entry (mem_cons_of_mem _ hentry)
      simp only [sweepAll, sweepRecord_eq hs hreceipts (hentries entry mem_cons_self), hrest,
        flatMap_cons, map_cons, Option.map_some]
  exact hall s.reservations fun entry hentry => Dict.get?_of_mem hs.keys hentry

theorem swept_ends {id : String} {r saved : Record} (hat : s.At id r)
    (hreceipt : d.receipt id = some saved) : swept d now r = saved ∧ Ends lib r saved := by
  obtain ⟨r', hat', hends⟩ := hreceipts.ends hreceipt
  obtain rfl := Option.some.inj (hat.symm.trans hat')
  refine ⟨?_, hends⟩
  unfold swept
  rw [hs.id hat, hreceipt]

theorem later_swept {id : String} {r : Record} (hat : s.At id r) : Later r (swept d now r) := by
  cases hreceipt : d.receipt id with
  | some saved =>
    obtain ⟨heq, hends⟩ := @swept_ends _ _ _ now hs hreceipts _ _ _ hat hreceipt
    rw [heq]
    exact hends.later
  | none =>
    unfold swept
    rw [hs.id hat, hreceipt]
    simp only
    split
    · exact Later.refl r
    · rename_i hcond
      push Not at hcond
      exact Later.endedNow (Bool.eq_false_iff.mpr hcond.2)

include hnow

theorem recordOk_swept {id : String} {r : Record} (hat : s.At id r) :
    RecordOk lib (swept d now r) := by
  cases hreceipt : d.receipt id with
  | some saved =>
    obtain ⟨heq, hends⟩ := @swept_ends _ _ _ now hs hreceipts _ _ _ hat hreceipt
    rw [heq]
    exact hends.ok
  | none =>
    unfold swept
    rw [hs.id hat, hreceipt]
    simp only
    split
    · exact hs.record hat
    · exact (hs.record hat).endedNow hnow

end

/-- The state in memory after the sweep. -/
def sweptStore (d : Disk) (s : Store) (now : Number) : Store :=
  { s with reservations := s.reservations.map fun entry => (entry.1, swept d now entry.2) }

/-- The files after the sweep. -/
def sweptDisk (d : Disk) (s : Store) (now : Number) : Disk :=
  d.applyAll (s.reservations.flatMap fun entry => sweptWrites d s now entry.2)

theorem at_sweptStore {id : String} {r' : Record} :
    (sweptStore d s now).At id r' ↔ ∃ r, s.At id r ∧ swept d now r = r' := by
  unfold Store.At sweptStore
  rw [Dict.get?_map_entries s.reservations (fun _ r => swept d now r) id, Option.map_eq_some_iff]

theorem mem_sweepWrites (hs : Sound lib s) (hnow : isNumber false now = true) {w : Write}
    (hw : w ∈ s.reservations.flatMap fun entry => sweptWrites d s now entry.2) :
    EndsSome lib s w := by
  obtain ⟨entry, hentry, hin⟩ := mem_flatMap.mp hw
  exact sweptWrites_ends hs hnow (Dict.get?_of_mem hs.keys hentry) w hin

section

variable (hs : Sound lib s) (hreceipts : Receipts lib d s) (hnow : isNumber false now = true)

include hs hreceipts

theorem exclusive_sweptStore (h : Exclusive s) : Exclusive (sweptStore d s now) := by
  refine h.later fun hat => ?_
  obtain ⟨r, hr, rfl⟩ := at_sweptStore.mp hat
  exact ⟨r, hr, later_swept hs hreceipts hr⟩

theorem at_sweptStore_receipt {id : String} {saved : Record} (h : d.receipt id = some saved) :
    (sweptStore d s now).At id saved := by
  obtain ⟨r, hat, -⟩ := hreceipts.ends h
  exact at_sweptStore.mpr ⟨r, hat, (swept_ends hs hreceipts hat h).1⟩

theorem receipt_sweptDisk {id : String} {r : Record} (hat : s.At id r) :
    (sweptDisk d s now).receipt id =
      if (swept d now r).state.isLive then none
      else some ((d.receipt id).getD (s.receiptOf (endedNow now r))) := by
  have hrid : r.id = id := hs.id hat
  have hid : (s.receiptOf (endedNow now r)).id = id := hrid
  cases hreceipt : d.receipt id with
  | some saved =>
    obtain ⟨heq, hends⟩ := @swept_ends _ _ _ now hs hreceipts _ _ _ hat hreceipt
    rw [heq, hends.ended]
    exact receipt_applyAll hreceipt
  | none =>
    -- only the record itself writes under its identifier
    have hown : ∀ w, .receipt w ∈ (s.reservations.flatMap fun entry =>
        sweptWrites d s now entry.2) → w.id = (s.receiptOf (endedNow now r)).id →
        .receipt w ∈ sweptWrites d s now r ∧ w = s.receiptOf (endedNow now r) := by
      intro w hw heq
      obtain ⟨entry, hentry, hin⟩ := mem_flatMap.mp hw
      have hat' : s.At entry.1 entry.2 := Dict.get?_of_mem hs.keys hentry
      have hw' : w = s.receiptOf (endedNow now entry.2) := by
        unfold sweptWrites at hin
        split at hin
        · cases hin
        split at hin
        · cases hin
        · exact Write.receipt.inj (mem_singleton.mp hin)
      have hsame : entry.1 = id := by
        rw [← hs.id hat', ← hid, ← heq, hw']
        rfl
      rw [hsame] at hat'
      obtain rfl := Option.some.inj (hat.symm.trans hat')
      exact ⟨hin, hw'⟩
    have hwritten := receipt_applyAll_eq (d := d) fun w hw heq => (hown w hw heq).2
    rw [hid, hreceipt, Option.getD_none] at hwritten
    unfold sweptDisk
    rw [hwritten, Option.getD_none]
    have hmem : (.receipt (s.receiptOf (endedNow now r)) ∈ s.reservations.flatMap fun entry =>
        sweptWrites d s now entry.2) ↔
        .receipt (s.receiptOf (endedNow now r)) ∈ sweptWrites d s now r :=
      ⟨fun hin => (hown _ hin rfl).1, fun hin =>
        mem_flatMap.mpr ⟨(id, r), Dict.mem_of_get? hat, hin⟩⟩
    simp only [hmem]
    have hlive : r.state.isLive = true := by
      by_contra hnot
      have hsome := (hreceipts.ended hat (Bool.eq_false_iff.mpr hnot)).1
      rw [hreceipt] at hsome
      cases hsome
    unfold swept sweptWrites
    rw [hs.id hat, hreceipt]
    simp only [hlive, Bool.true_eq_false, false_or]
    cases hended : (endedState now r).isLive with
    | true => simp [hlive]
    | false => simp [endedNow, hended]

theorem settled_sweptDisk : Settled (sweptDisk d s now) (sweptStore d s now) := by
  intro id r' hat hlive
  obtain ⟨r, hr, rfl⟩ := at_sweptStore.mp hat
  rw [receipt_sweptDisk hs hreceipts hr, if_pos hlive]

theorem swept_of_isLive {id : String} {r : Record} (hat : s.At id r)
    (hlive : (swept d now r).state.isLive = true) : swept d now r = r := by
  cases hreceipt : d.receipt id with
  | some saved =>
    obtain ⟨heq, hends⟩ := @swept_ends _ _ _ now hs hreceipts _ _ _ hat hreceipt
    rw [heq, hends.ended] at hlive
    cases hlive
  | none =>
    unfold swept at hlive ⊢
    rw [hs.id hat, hreceipt] at hlive ⊢
    simp only at hlive ⊢
    split at hlive
    · rename_i hcond
      rw [if_pos hcond]
    · rename_i hcond
      push Not at hcond
      exact absurd hlive hcond.2

theorem EndsSome.of_swept {w : Write} (h : EndsSome lib (sweptStore d s now) w) :
    EndsSome lib s w := by
  obtain ⟨r', saved, rfl, hat, hends⟩ := h
  obtain ⟨r, hr, rfl⟩ := at_sweptStore.mp hat
  exact ⟨r, saved, rfl, hr, hends.ok, (later_swept hs hreceipts hr).trans hends.later, hends.ended,
    hends.endedAt, hends.deferrals⟩

include hnow

theorem sound_sweptStore : Sound lib (sweptStore d s now) := by
  have hkeys : (sweptStore d s now).reservations.map Prod.fst = s.reservations.map Prod.fst := by
    unfold sweptStore
    rw [map_map]
    rfl
  constructor
  · exact hs.version
  · rw [hkeys]
    exact hs.keys
  · intro id r' hat
    obtain ⟨r, hr, rfl⟩ := at_sweptStore.mp hat
    exact recordOk_swept hs hreceipts hnow hr
  · intro id r' hat
    obtain ⟨r, hr, rfl⟩ := at_sweptStore.mp hat
    rw [(later_swept hs hreceipts hr).id, hs.id hr]
  · intro id r' hat
    obtain ⟨r, hr, rfl⟩ := at_sweptStore.mp hat
    rw [(later_swept hs hreceipts hr).seq]
    exact hs.seq hr
  · intro id r' id' x' hat hat' heq
    obtain ⟨r, hr, rfl⟩ := at_sweptStore.mp hat
    obtain ⟨x, hx, rfl⟩ := at_sweptStore.mp hat'
    rw [(later_swept hs hreceipts hr).seq, (later_swept hs hreceipts hx).seq] at heq
    exact hs.seqs hr hx heq
  · rw [hkeys]
    exact hs.deferrals

theorem receipts_sweptDisk : Receipts lib (sweptDisk d s now) (sweptStore d s now) := by
  have hpart : Receipts lib (sweptDisk d s now) s :=
    hreceipts.applyAll fun w hw => mem_sweepWrites hs hnow hw
  constructor
  · intro id saved hsaved
    obtain ⟨r, hat, hends⟩ := hpart.ends hsaved
    refine ⟨swept d now r, at_sweptStore.mpr ⟨r, hat, rfl⟩, hends.ok, ?_, hends.ended,
      hends.endedAt, hends.deferrals⟩
    have hlater := @later_swept _ _ _ now hs hreceipts _ _ hat
    exact ⟨hends.later.id.trans hlater.id.symm, hends.later.seq.trans hlater.seq.symm,
      hends.later.exclusive.trans hlater.exclusive.symm, fun hlive => absurd hlive (by
        rw [hends.ended]
        exact Bool.false_ne_true)⟩
  · intro id r' hat hended
    obtain ⟨r, hr, rfl⟩ := at_sweptStore.mp hat
    have hendedAt : (swept d now r).endedAt.isSome = true := by
      cases hreceipt : d.receipt id with
      | some saved =>
        obtain ⟨heq, hends⟩ := @swept_ends _ _ _ now hs hreceipts _ _ _ hr hreceipt
        rw [heq]
        exact hends.endedAt
      | none =>
        unfold swept at hended ⊢
        rw [hs.id hr, hreceipt] at hended ⊢
        simp only at hended ⊢
        split at hended
        · rename_i hcond
          rw [if_pos hcond]
          exact (hreceipts.ended hr hended).2
        · rename_i hcond
          rw [if_neg hcond]
          rfl
    rw [receipt_sweptDisk hs hreceipts hr, hended]
    exact ⟨rfl, hendedAt⟩

end

end Workbay.Reservation

import Workbay.Reservation.Proofs.ReservationProofs

/-!
# Proofs: a terminal receipt is final
-/

namespace Workbay.Reservation

variable {lib : Library} {d : Disk} {env : Env} {id : String} {saved : Record}

/-- What holds of the terminal receipt of a reservation. -/
structure Final (lib : Library) (d : Disk) (id : String) (saved : Record) : Prop where
  receipt : d.receipt id = some saved
  ended : saved.state.isLive = false
  readable : (d.read lib).isSome = true
  /-- Every operation acts on the terminal record, whatever the time is. -/
  observed : ∀ s now, d.read lib = some s → isNumber false now = true →
    ∃ writes swept, sweepAll lib d s now s.reservations = (writes, some swept) ∧
      swept.get? id = some saved
  /-- Every state that is written has the terminal record. -/
  written : ∀ i : Input, i.Proper lib d → ∀ s, .state s ∈ (operation lib i.env i.call d).1 →
    s.reservations.get? id = some saved
  /-- A release returns the receipt, or says how the reservation has ended. -/
  release : ∀ env, env.lockRefusal = none → (gauge? env.clock).isSome = true →
    (operation lib env (.release (.str id) (.str saved.owner)) d).2 =
      if saved.state = .released then .record saved else .refusal ("not_live:" ++ saved.state.text)
  /-- A poll of the owner returns the receipt. -/
  lookup : ∀ env, env.lockRefusal = none → (gauge? env.clock).isSome = true →
    (operation lib env (.lookup (.str id) (.str saved.owner)) d).2 = .record saved

theorem owned_of_at {s : Store} {r : Record} (hat : s.At id r) :
    s.owned (.str id) (.str r.owner) = .ok r := by
  unfold Store.owned Store.find
  simp only
  rw [show s.reservations.get? id = some r from hat]
  simp

theorem operation_answer (h : Inv lib d) (call : Call) {now : Number}
    (hlock : env.lockRefusal = none) (hnow : gauge? (call.time env) = some now) :
    operation lib env call d =
      (sweepWrites d now ++ (finish (call.action lib env d (sweptStore d d.store now) now)).1,
        (finish (call.action lib env d (sweptStore d d.store now) now)).2) := by
  unfold operation
  rw [hlock, h.read]
  simp only
  rw [hnow]
  simp only
  unfold operate
  rw [sweepAll_eq h.sound h.receipts]
  rfl

theorem finish_ok {s : Store} {writes : List Write} {answer : Answer} (hs : Sound lib s) :
    finish (.ok (s, writes, answer)) = (writes ++ [.state s.sorted], answer) := by
  unfold finish
  simp only
  rw [if_pos hs.isDumpable]

section

variable (h : Inv lib d) (hreceipt : d.receipt id = some saved)

include h hreceipt

theorem saved_id : saved.id = id := by
  obtain ⟨r, hat, hends⟩ := h.receipts.ends hreceipt
  exact hends.later.id.trans (h.sound.id hat)

theorem saved_ended : saved.state.isLive = false := by
  obtain ⟨r, -, hends⟩ := h.receipts.ends hreceipt
  exact hends.ended

theorem final_observed {now : Number} : ∃ writes swept,
    sweepAll lib d d.store now d.store.reservations = (writes, some swept) ∧
      swept.get? id = some saved :=
  ⟨_, _, sweepAll_eq h.sound h.receipts, at_sweptStore_receipt h.sound h.receipts hreceipt⟩

theorem final_written {i : Input} (hproper : i.Proper lib d) {s : Store}
    (hwritten : .state s ∈ (operation lib i.env i.call d).1) :
    s.reservations.get? id = some saved := by
  rcases operation_writes h hproper with hnil | ⟨now, hnow, writes, hfinished, heq⟩
  · rw [hnil] at hwritten
    cases hwritten
  have hnot : ∀ {ws : List Write} {s₀ : Store}, (∀ w ∈ ws, EndsSome lib s₀ w) →
      .state s ∉ ws := by
    intro ws s₀ hws hin
    obtain ⟨r, saved, hreceipt, -⟩ := hws _ hin
    cases hreceipt
  have hsweep : .state s ∉ sweepWrites d now :=
    hnot fun w hw => mem_sweepWrites h.sound hnow hw
  rw [heq, List.mem_append] at hwritten
  have hrest := hwritten.resolve_left hsweep
  have hs := sound_sweptStore h.sound h.receipts hnow
  cases hfinished with
  | unwritten => cases hrest
  | written hchange =>
    rcases List.mem_append.mp hrest with hin | hin
    · exact absurd hin (hnot (hchange.ends hs (receipts_sweptDisk h.sound h.receipts hnow)))
    · obtain rfl := Write.state.inj (List.mem_singleton.mp hin)
      have hkept := hchange.keeps (at_sweptStore_receipt h.sound h.receipts hreceipt)
        (saved_ended h hreceipt)
      exact (at_sorted (hchange.sound hs).keys).mpr hkept

theorem receipt_answer (s : Store) : (receipt d s saved).2 = .record saved := by
  unfold receipt
  rw [saved_id h hreceipt, hreceipt]
  rfl

theorem final_release (hlock : env.lockRefusal = none) {now : Number}
    (hnow : gauge? env.clock = some now) :
    (operation lib env (.release (.str id) (.str saved.owner)) d).2 =
      if saved.state = .released then .record saved
      else .refusal ("not_live:" ++ saved.state.text) := by
  have hs := sound_sweptStore h.sound h.receipts (gauge?_eq_some hnow).1
  have howned := owned_of_at (@at_sweptStore_receipt _ _ _ now h.sound h.receipts _ _ hreceipt)
  rw [operation_answer h (.release _ _) hlock hnow]
  simp only [Call.action, Reservation.release, howned]
  split
  · show (finish (.ok (_, (receipt d _ saved).1, (receipt d _ saved).2))).2 = _
    rw [finish_ok hs, receipt_answer h hreceipt]
  · rw [if_pos (saved_ended h hreceipt)]
    unfold refuse notLive
    rw [finish_ok hs]

theorem final_lookup (hlock : env.lockRefusal = none) {now : Number}
    (hnow : gauge? env.clock = some now) :
    (operation lib env (.lookup (.str id) (.str saved.owner)) d).2 = .record saved := by
  have hs := sound_sweptStore h.sound h.receipts (gauge?_eq_some hnow).1
  have howned := owned_of_at (@at_sweptStore_receipt _ _ _ now h.sound h.receipts _ _ hreceipt)
  rw [operation_answer h (.lookup _ _) hlock hnow]
  simp only [Call.action, Reservation.lookup, howned, saved_ended h hreceipt]
  show (finish (.ok (_, (receipt d _ saved).1, (receipt d _ saved).2))).2 = _
  rw [finish_ok hs, receipt_answer h hreceipt]

theorem Inv.final : Final lib d id saved := by
  refine ⟨hreceipt, saved_ended h hreceipt, by rw [h.read]; rfl, ?_, ?_, ?_, ?_⟩
  · intro s now hread _
    obtain rfl := Option.some.inj (h.read.symm.trans hread)
    exact final_observed h hreceipt
  · exact fun i hproper s hwritten => final_written h hreceipt hproper hwritten
  · intro env hlock hclock
    obtain ⟨now, hnow⟩ := Option.isSome_iff_exists.mp hclock
    exact final_release h hreceipt hlock hnow
  · intro env hlock hclock
    obtain ⟨now, hnow⟩ := Option.isSome_iff_exists.mp hclock
    exact final_lookup h hreceipt hlock hnow

end

theorem receipt_run {is : List Input} (h : d.receipt id = some saved) :
    ((machine lib).run d is).receipt id = some saved :=
  Effects.Machine.run_invariant (M := machine lib) (P := fun d => d.receipt id = some saved)
    (fun _ _ hreceipt => receipt_applyAll hreceipt) h is

/-! ## A release writes the receipt -/

theorem receipt_apply_new {w : Record} (h : d.receipt w.id = none) :
    (d.apply (.receipt w)).receipt w.id = some w := by
  rw [receipt_apply_receipt, if_pos rfl, h, Option.getD_none]

theorem released_receipt (h : Inv lib d) {now : Number} {r : Record} (hat : d.store.At id r)
    (hreleased : (swept d now r).state = .released) :
    d.receipt (swept d now r).id = some (swept d now r) := by
  have hid : (swept d now r).id = id :=
    (later_swept h.sound h.receipts hat).id.trans (h.sound.id hat)
  rw [hid]
  cases hreceipt : d.receipt id with
  | some saved => rw [(@swept_ends _ _ _ now h.sound h.receipts _ _ _ hat hreceipt).1]
  | none =>
    have hlive : r.state.isLive = true := by
      by_contra hnot
      have hsome := (h.receipts.ended hat (Bool.eq_false_iff.mpr hnot)).1
      rw [hreceipt] at hsome
      cases hsome
    have hnot : ∀ {r : Record}, r.state.isLive = true → r.state ≠ .released := by
      intro r hlive heq
      rw [heq] at hlive
      cases hlive
    unfold swept at hreleased
    rw [h.sound.id hat, hreceipt] at hreleased
    simp only at hreleased
    split at hreleased
    · exact absurd hreleased (hnot hlive)
    · simp only [endedNow, endedState] at hreleased
      split at hreleased
      · cases hreleased
      split at hreleased
      · cases hreleased
      · exact absurd hreleased (hnot hlive)

theorem release_receipt (h : Inv lib d) {idValue owner : Value} {r : Record}
    (hanswer : (operation lib env (.release idValue owner) d).2 = .record r) :
    idValue = .str r.id ∧ owner = .str r.owner ∧ r.state = .released ∧
      ((machine lib).next d { env, call := .release idValue owner }).receipt r.id = some r := by
  -- the operation has got to its action
  have hlock : env.lockRefusal = none := by
    by_contra hlock
    obtain ⟨reason, hreason⟩ := Option.ne_none_iff_exists'.mp hlock
    unfold operation at hanswer
    rw [hreason] at hanswer
    cases hanswer
  obtain ⟨now, hnow⟩ : ∃ now, gauge? env.clock = some now := by
    refine Option.ne_none_iff_exists'.mp fun hnone => ?_
    unfold operation at hanswer
    rw [hlock, h.read] at hanswer
    simp only [Call.time, hnone] at hanswer
    cases hanswer
  have hnumber := (gauge?_eq_some hnow).1
  have hs := sound_sweptStore h.sound h.receipts hnumber
  have hoperation := operation_answer h (.release idValue owner) hlock hnow
  show _ ∧ _ ∧ _ ∧ (d.applyAll (operation lib env (.release idValue owner) d).1).receipt r.id = some r
  rw [hoperation] at hanswer ⊢
  simp only [Call.action, Reservation.release] at hanswer ⊢
  cases howned : (sweptStore d d.store now).owned idValue owner with
  | error reason =>
    rw [howned] at hanswer
    simp only [refuse, finish_ok hs] at hanswer
    cases hanswer
  | ok r₀ =>
    obtain ⟨hfind, howner⟩ := owned_find howned
    obtain ⟨hat, hid⟩ := find_at hs hfind
    obtain ⟨r₁, hr₁, hswept⟩ := at_sweptStore.mp hat
    simp only [howned] at hanswer ⊢
    split at hanswer
    · -- it was released before
      rename_i hreleased
      rw [if_pos hreleased]
      have hreceipt := released_receipt h hr₁ (hswept ▸ hreleased)
      rw [hswept] at hreceipt
      change (finish (.ok (_, (receipt d _ r₀).1, (receipt d _ r₀).2))).2 = _ at hanswer
      rw [finish_ok hs, receipt_answer h hreceipt] at hanswer
      obtain rfl := Answer.record.inj hanswer
      exact ⟨hid, howner, hreleased, receipt_applyAll hreceipt⟩
    rename_i hnotReleased
    split at hanswer
    · unfold refuse at hanswer
      rw [finish_ok hs] at hanswer
      cases hanswer
    -- it is released now
    rename_i hlive
    rw [Bool.not_eq_false] at hlive
    have hnone : (sweptDisk d d.store now).receipt r₀.id = none :=
      settled_sweptDisk h.sound h.receipts hat hlive
    have hnone' : d.receipt r₀.id = none := by
      by_contra hsome
      obtain ⟨old, hold⟩ := Option.ne_none_iff_exists'.mp hsome
      rw [show (sweptDisk d d.store now).receipt r₀.id = some old from receipt_applyAll hold]
        at hnone
      cases hnone
    have hrelease : Reservation.release d idValue owner (sweptStore d d.store now) now = .ok
        ((sweptStore d d.store now).put { r₀ with state := .released, endedAt := some now },
          receipt d ((sweptStore d d.store now).put
            { r₀ with state := .released, endedAt := some now })
            { r₀ with state := .released, endedAt := some now }) := by
      unfold Reservation.release
      simp only [howned]
      rw [if_neg hnotReleased, if_neg (by simp [hlive])]
    have hs' := (((release_changes hs hnumber hrelease).resolve_left
      fun hnil => List.cons_ne_nil _ _ hnil.1)).sound hs
    rw [if_neg hnotReleased, if_neg (by simp [hlive])]
    simp only [receipt, hnone', Option.getD_none, finish_ok hs'] at hanswer ⊢
    obtain rfl := Answer.record.inj hanswer
    refine ⟨hid, howner, rfl, ?_⟩
    rw [applyAll_append]
    exact receipt_apply_new hnone

/-- In every run whose reservations have numbers that can be read back, terminal receipts are
final, and a release answers with the receipt that it leaves. -/
theorem receipts_final {lib : Library} {is js : List Input}
    (h : (machine lib).Along (Input.Proper lib) {} (is ++ js)) :
    (∀ id saved, ((machine lib).run {} is).receipt id = some saved →
      Final lib ((machine lib).run {} (is ++ js)) id saved) ∧
    ∀ env idValue owner r,
      (operation lib env (.release idValue owner) ((machine lib).run {} is)).2 = .record r →
      idValue = .str r.id ∧ owner = .str r.owner ∧ r.state = .released ∧
        ((machine lib).next ((machine lib).run {} is)
          { env, call := .release idValue owner }).receipt r.id = some r := by
  refine ⟨fun id saved hreceipt => ?_, fun env idValue owner r hanswer => ?_⟩
  · refine (inv_run h).final ?_
    rw [Effects.Machine.run_append]
    exact receipt_run hreceipt
  · exact release_receipt (inv_run (Effects.Machine.along_append.mp h).1) hanswer

/-- The reservation is released at last, though the state was not written before. -/
theorem receipts_final_sample : ∃ saved,
    ((machine sampleLibrary).run {} sampleRun).receipt sampleId.1 = some saved ∧
      Final sampleLibrary ((machine sampleLibrary).run {} sampleRun) sampleId.1 saved := by
  have hsome : (((machine sampleLibrary).run {} sampleRun).receipt sampleId.1).isSome = true := by
    decide +kernel
  obtain ⟨saved, hsaved⟩ := Option.isSome_iff_exists.mp hsome
  have hproper : (machine sampleLibrary).Along (Input.Proper sampleLibrary) {} (sampleRun ++ []) := by
    rw [List.append_nil]
    exact sampleRun_proper
  have hfinal := (receipts_final hproper).1 sampleId.1 saved hsaved
  rw [List.append_nil] at hfinal
  exact ⟨saved, hsaved, hfinal⟩

/-- After an overflow a release does not return the receipt that is there. -/
theorem overflow_hides_receipt : ∃ saved,
    ((machine sampleLibrary).run {} (sampleRun ++ [overflowInput])).receipt sampleId.1 = some saved ∧
      saved.state = .released ∧ saved.owner = "team" ∧
      (operation sampleLibrary (sampleEnv 9 sampleId) (.release (.str sampleId.1) (.str "team"))
        ((machine sampleLibrary).run {} (sampleRun ++ [overflowInput]))).2 = unreadable := by
  have hchecked : (((machine sampleLibrary).run {} (sampleRun ++ [overflowInput])).receipt
      sampleId.1).any (fun saved => saved.state = .released && saved.owner = "team") = true := by
    decide +kernel
  obtain ⟨saved, hsaved, hchecked⟩ := (Option.any_eq_true _ _).mp hchecked
  rw [Bool.and_eq_true, decide_eq_true_eq, decide_eq_true_eq] at hchecked
  exact ⟨saved, hsaved, hchecked.1, hchecked.2, by decide +kernel⟩

/-! ## The life of a reservation -/

open List Dict

/-- The same reservation at a later time: as long as it lives it has only been granted, and it does
not live again. -/
structure Record.MovesTo (r r' : Record) : Prop where
  id : r'.id = r.id
  seq : r'.seq = r.seq
  exclusive : r'.exclusive = r.exclusive
  state : r'.state.isLive = true → r'.state = r.state ∨ r.state = .pending ∧ r'.state = .granted

theorem Record.MovesTo.trans {r r' r'' : Record} (h : r.MovesTo r') (h' : r'.MovesTo r'') :
    r.MovesTo r'' := by
  refine ⟨h'.id.trans h.id, h'.seq.trans h.seq, h'.exclusive.trans h.exclusive, fun hlive => ?_⟩
  rcases h'.state hlive with hsame | ⟨hpending, hgranted⟩
  · rw [hsame] at hlive ⊢
    exact h.state hlive
  · rcases h.state (by rw [hpending]; rfl) with hsame | ⟨-, hgranted'⟩
    · exact .inr ⟨hsame ▸ hpending, hgranted⟩
    · rw [hpending] at hgranted'
      cases hgranted'

theorem Later.movesTo {r r' : Record} (h : Later r r') : r.MovesTo r' :=
  ⟨h.id, h.seq, h.exclusive, fun hlive => .inl (h.state hlive)⟩

/-- No reservation is lost, and those that are new have numbers that no older one had. -/
structure Onward (s s' : Store) : Prop where
  kept : ∀ {id r}, s.At id r → ∃ r', s'.At id r' ∧ r.MovesTo r'
  seq : s.seq ≤ s'.seq
  fresh : ∀ {id r'}, s'.At id r' → (∃ r, s.At id r) ∨ s.seq < r'.seq

section

variable {lib : Library} {s s' s'' : Store} {d : Disk} {writes : List Write}

theorem Onward.of_later (hkept : ∀ {id r}, s.At id r → ∃ r', s'.At id r' ∧ Later r r')
    (hseq : s'.seq = s.seq) (hold : ∀ {id r'}, s'.At id r' → ∃ r, s.At id r) : Onward s s' := by
  refine ⟨fun hat => ?_, hseq.ge, fun hat => .inl (hold hat)⟩
  obtain ⟨r', hat', hlater⟩ := hkept hat
  exact ⟨r', hat', hlater.movesTo⟩

theorem Onward.refl (s : Store) : Onward s s :=
  .of_later (fun hat => ⟨_, hat, Later.refl _⟩) rfl fun hat => ⟨_, hat⟩

theorem Onward.trans (h : Onward s s') (h' : Onward s' s'') : Onward s s'' := by
  refine ⟨fun hat => ?_, h.seq.trans h'.seq, fun hat => ?_⟩
  · obtain ⟨r', hat', hmoves⟩ := h.kept hat
    obtain ⟨r'', hat'', hmoves'⟩ := h'.kept hat'
    exact ⟨r'', hat'', hmoves.trans hmoves'⟩
  · rcases h'.fresh hat with ⟨r', hat'⟩ | hlt
    · rcases h.fresh hat' with hold | hlt
      · exact .inl hold
      · obtain ⟨r'', hat'', hmoves⟩ := h'.kept hat'
        obtain rfl := Option.some.inj (hat''.symm.trans hat)
        exact .inr (hmoves.seq ▸ hlt)
    · exact .inr (lt_of_le_of_lt h.seq hlt)

theorem Onward.put {old r : Record} (hat : s.At r.id old) (hmoves : old.MovesTo r) :
    Onward s (s.put r) := by
  refine ⟨fun {id x} hx => ?_, le_refl _, fun {id r'} hr' => .inl ?_⟩
  · by_cases hid : r.id = id
    · subst hid
      obtain rfl := Option.some.inj (hx.symm.trans hat)
      exact ⟨r, at_put.mpr (.inl ⟨rfl, rfl⟩), hmoves⟩
    · exact ⟨x, at_put.mpr (.inr ⟨Ne.symm hid, hx⟩), (Later.refl x).movesTo⟩
  · rcases at_put.mp hr' with ⟨rfl, -⟩ | ⟨-, hold⟩
    · exact ⟨old, hat⟩
    · exact ⟨r', hold⟩

theorem Change.onward (h : Change lib s s' writes) (hs : Sound lib s) : Onward s s' := by
  cases h with
  | same | again hat hended => exact .refl s
  | renew hat hlive hok hlater hstate => exact .put hat hlater.movesTo
  | release hat hlive hok hlater hended hendedAt => exact .put hat hlater.movesTo
  | grant hat hpending hok hseq hexclusive hgranted hearlier =>
    exact .put hat ⟨(hs.id hat).symm, hseq, hexclusive, fun _ => .inr ⟨hpending, hgranted⟩⟩
  | reserve hfresh hok hseq hpending hfree =>
    refine ⟨fun {id x} hx => ⟨x, at_insert.mpr (.inr ⟨?_, hx⟩), (Later.refl x).movesTo⟩,
      Nat.le_succ _, fun {id r'} hr' => ?_⟩
    · rintro rfl
      exact hfresh (get?_isSome_iff.mp (by rw [show s.reservations.get? _ = some x from hx]; rfl))
    · rcases at_insert.mp hr' with ⟨-, rfl⟩ | ⟨-, hold⟩
      · exact .inr (by rw [hseq]; exact Nat.lt_succ_self _)
      · exact .inl ⟨r', hold⟩
  | defer hat count => exact .of_later (fun hx => ⟨_, hx, Later.refl _⟩) rfl fun hx => ⟨_, hx⟩

theorem store_next {i : Input} (h : Inv lib d) (hproper : i.Proper lib d) :
    Onward d.store ((machine lib).next d i).store := by
  show Onward d.store (d.applyAll (i.written (operation lib i.env i.call d).1)).store
  obtain ⟨n, hn⟩ := written_eq_take i (operation lib i.env i.call d).1
  have hsame : ∀ ws, (∀ w ∈ ws, EndsSome lib d.store w) → Onward d.store (d.applyAll ws).store := by
    intro ws hws
    rw [show (d.applyAll ws).store = d.store by rw [Disk.store, state_applyAll hws]; rfl]
    exact .refl _
  rw [hn]
  rcases operation_writes h hproper with hnil | ⟨now, hnow, writes, hfinished, heq⟩
  · rw [hnil, take_nil]
    exact .refl _
  have hs := sound_sweptStore h.sound h.receipts hnow
  have hsweep : ∀ w ∈ sweepWrites d now, EndsSome lib d.store w :=
    fun w hw => mem_sweepWrites h.sound hnow hw
  rw [heq]
  cases hfinished with
  | unwritten =>
    rw [append_nil]
    exact hsame _ fun w hw => hsweep w (mem_of_mem_take hw)
  | @written s' writes hchange =>
    by_cases hall : n ≤ (sweepWrites d now ++ writes).length
    · rw [← append_assoc, take_append_of_le_length hall]
      refine hsame _ fun w hw => ?_
      rcases mem_append.mp (mem_of_mem_take hw) with hw | hw
      · exact hsweep w hw
      · exact .of_swept h.sound h.receipts (hchange.ends hs
          (receipts_sweptDisk h.sound h.receipts hnow) w hw)
    · rw [take_of_length_le (by simp only [length_append, length_singleton] at hall ⊢; omega)]
      have hswept : Onward d.store (sweptStore d d.store now) :=
        .of_later (fun hat => ⟨_, at_sweptStore.mpr ⟨_, hat, rfl⟩,
          later_swept h.sound h.receipts hat⟩) rfl
          fun hat => (at_sweptStore.mp hat).imp fun _ hr => hr.1
      have hkeys := (hchange.sound hs).keys
      have hsorted : Onward s' s'.sorted :=
        .of_later (fun hat => ⟨_, (at_sorted hkeys).mpr hat, Later.refl _⟩) rfl
          fun hat => ⟨_, (at_sorted hkeys).mp hat⟩
      have hstore : (d.applyAll (sweepWrites d now ++ (writes ++ [.state s'.sorted]))).store =
          s'.sorted := by
        rw [applyAll_append, applyAll_append]
        rfl
      rw [hstore]
      exact (hswept.trans (hchange.onward hs)).trans hsorted

/-- In every run no reservation is lost or revived, none that was granted is pending again, and no
number is given out twice. -/
theorem reservations_move_onward {is js : List Input}
    (h : (machine lib).Along (Input.Proper lib) {} (is ++ js)) :
    Onward ((machine lib).run {} is).store ((machine lib).run {} (is ++ js)).store := by
  obtain ⟨his, hjs⟩ := Effects.Machine.along_append.mp h
  rw [Effects.Machine.run_append]
  refine (hjs.invariant (Q := fun d => Inv lib d ∧ Onward ((machine lib).run {} is).store d.store)
    (fun d i hd hi => ⟨inv_next hd.1 hi, hd.2.trans (store_next hd.1 hi)⟩) ⟨inv_run his, ?_⟩).2
  exact .refl _

end

theorem reservations_move_onward_sample :
    Onward ((machine sampleLibrary).run {} (sampleRun.take 2)).store
      ((machine sampleLibrary).run {} (sampleRun.take 2 ++ sampleRun.drop 2)).store :=
  reservations_move_onward (by rw [take_append_drop]; exact sampleRun_proper)

end Workbay.Reservation

import Workbay.Completion.Receipt
import Workbay.Completion.Proofs.AttentionProofs
import Workbay.Effects.Proofs.SafeProofs

/-!
# The fence before the removal

An actuator starts behind a committed event in every run. That it starts behind an event without an
outcome, and that what it removed is not recorded as held, takes callers who do not overlap where it
matters, and who recover an operation whose actuator is unaccounted for.
-/

namespace Workbay.Completion

open Effects List

variable {host : AttentionHost} {o : Operation}

/-! ## The event of an operation -/

/-- An authorization is that of the event of the operation. -/
def Authorizes (o : Operation) (events : List EventRow) (a : CompletionAuthorization) : Prop :=
  ∃ e ∈ events, o.names e = true ∧ e.authorization = a

theorem Kept.names {e e' : EventRow} (h : Kept e e') : o.names e' = o.names e := by
  rw [Operation.names, Operation.names, h.receipt, h.operationIntent]

theorem Kept.authorization {e e' : EventRow} (h : Kept e e') :
    e'.authorization = e.authorization := by
  rw [EventRow.authorization, EventRow.authorization, h.eventId, h.receipt,
    h.obligationFingerprint]

variable {events : List EventRow}

theorem EventsStep.eventsKept {s : AttentionStore} (h : EventsStep host s events)
    (hinv : EventsInv s.events) : EventsKept s.events events := by
  intro e he
  obtain ⟨e', he', rfl | hstep⟩ := h.event hinv he
  · exact ⟨e', he', .refl e'⟩
  · exact ⟨e', he', hstep.kept (hinv.outcomes e he)⟩

variable {events' : List EventRow} {a : CompletionAuthorization} {l : ReceiptLabel o}

theorem Authorizes.kept (h : Authorizes o events a) (hkept : EventsKept events events') :
    Authorizes o events' a := by
  obtain ⟨e, he, hnames, hauth⟩ := h
  obtain ⟨e', he', hk⟩ := hkept e he
  exact ⟨e', he', by rw [hk.names]; exact hnames, by rw [hk.authorization]; exact hauth⟩

theorem EventsInv.eq_of_names (h : EventsInv events) {a b : EventRow} (ha : a ∈ events)
    (hb : b ∈ events) (hna : o.names a = true) (hnb : o.names b = true) : a = b := by
  simp only [Operation.names, Bool.and_eq_true, decide_eq_true_eq] at hna hnb
  refine inj_on_of_nodup_map h.keys ha hb ?_
  rw [hna.1, hna.2, hnb.1, hnb.2]

/-- The programs that a caller runs through. -/
inductive Point (o : Operation) (events : List EventRow) : ReceiptM ReceiptOutcome → Prop where
  | ret (r : ReceiptOutcome) : Point o events (.ret r)
  | raise (e : ReceiptError) : Point o events (.raise e)
  | fingerprint (call : UnfinishedCall o) :
      Point o events (.call (.fingerprint call.receipt.taskRef call.receipt.laneId)
        (afterFingerprint call.receipt o.operationIntent call.nextAction call.observer))
  | prepare (call : UnfinishedCall o) (fingerprint : String) :
      Point o events (.call (.prepare call.receipt o.operationIntent fingerprint call.nextAction
        call.observer) (afterPrepare fingerprint call.nextAction))
  | check (a : CompletionAuthorization) (fingerprint next : String) (h : Authorizes o events a) :
      Point o events (.call (.storedOutcome a .actuate) (afterReplay a fingerprint next))
  | start (a : CompletionAuthorization) (next : String) (h : Authorizes o events a) :
      Point o events (actuateWithWarning a next)
  | actuate (a : CompletionAuthorization) (next : String) (h : Authorizes o events a) :
      Point o events (runActuator a next)
  | record (a : CompletionAuthorization) (removed : Bool)
      (k : Except ReceiptError Unit → ReceiptM ReceiptOutcome)
      (hk : ∀ answer, (∃ r, k answer = .ret r) ∨ ∃ e, k answer = .raise e) :
      Point o events (.call (.record a removed) k)
  | recover (a : CompletionAuthorization) (next : String) :
      Point o events (recoverCompletionOperation a next)
  | observe (a : CompletionAuthorization) (next : String) :
      Point o events (.call .observeRemoved (afterObserve a next))

theorem Point.kept {p : ReceiptM ReceiptOutcome} (h : Point o events p)
    (hkept : EventsKept events events') : Point o events' p := by
  cases h with
  | ret r => exact .ret r
  | raise e => exact .raise e
  | fingerprint call => exact .fingerprint call
  | prepare call fingerprint => exact .prepare call fingerprint
  | check a fingerprint next h => exact .check a fingerprint next (h.kept hkept)
  | start a next h => exact .start a next (h.kept hkept)
  | actuate a next h => exact .actuate a next (h.kept hkept)
  | record a removed k hk => exact .record a removed k hk
  | recover a next => exact .recover a next
  | observe a next => exact .observe a next

theorem afterRecord_ends (a : CompletionAuthorization) (removed : Bool) (next : String)
    (answer : Except ReceiptError Unit) :
    (∃ r, afterRecord a removed next answer = .ret r) ∨
      ∃ e, afterRecord a removed next answer = .raise e := by
  match answer with
  | .ok () => exact .inl ⟨_, rfl⟩
  | .error .failed => exact .inr ⟨_, rfl⟩
  | .error .actuator => exact .inr ⟨_, rfl⟩
  | .error (.refusal r) =>
    simp only [afterRecord]
    split
    · exact .inl ⟨_, rfl⟩
    · exact .inr ⟨_, rfl⟩

theorem body_withReceipt (call : UnfinishedCall o) :
    (ReceiptRequest.withReceipt call).body =
      .call (.fingerprint call.receipt.taskRef call.receipt.laneId)
        (afterFingerprint call.receipt o.operationIntent call.nextAction call.observer) := by
  have hunfinished := call.unfinished
  have hcompleted : call.receipt.verdict ∉ ["completed", "superseded"] := by
    intro hmem
    simp only [unfinishedVerdicts, mem_cons, not_mem_nil, or_false] at hunfinished hmem
    rcases hmem with hmem | hmem <;> rw [hmem] at hunfinished <;>
      exact absurd hunfinished (by decide)
  rw [ReceiptRequest.body, withCompletionReceipt, if_neg hcompleted,
    if_neg (not_not_intro hunfinished)]

theorem Point.body (events : List EventRow) (request : ReceiptRequest o) :
    Point o events request.body := by
  cases request with
  | recover a next => exact .recover a next
  | withReceipt call =>
    rw [body_withReceipt]
    exact .fingerprint call

/-- What one operation of a caller does. -/
inductive Move (host : AttentionHost) (o : Operation) (w : ReceiptWorld) :
    ReceiptM ReceiptOutcome → ReceiptWorld → ReceiptM ReceiptOutcome → Prop where
  /-- Nothing: something is read, or refused. -/
  | idle {p p' : ReceiptM ReceiptOutcome} (hp : actuating p = false) (hp' : actuating p' = false)
      (hnext : reconciling p' = false) : Move host o w p w p'
  /-- A warning is prepared. -/
  | prepare {p p' : ReceiptM ReceiptOutcome} (store : AttentionStore) (hp : actuating p = false)
      (hp' : actuating p' = false) (hnext : reconciling p' = false)
      (hstep : EventsStep host w.store store.events)
      (hnew : ∀ e ∈ store.events, e ∈ w.store.events ∨ e.storageOutcome = .prepared) :
      Move host o w p { w with store } p'
  /-- The operation has no outcome, and the actuator is ahead. -/
  | check (a : CompletionAuthorization) (fingerprint next : String)
      (houtcome : ∀ e ∈ w.store.events, o.names e = true → e.storageOutcome = .prepared) :
      Move host o w (.call (.storedOutcome a .actuate) (afterReplay a fingerprint next)) w
        (actuateWithWarning a next)
  /-- The event has no outcome, and the storage is observed next. -/
  | recover (a : CompletionAuthorization) (next : String) :
      Move host o w (recoverCompletionOperation a next) w
        (.call .observeRemoved (afterObserve a next))
  | start (a : CompletionAuthorization) (next : String)
      (h : Authorizes o w.store.events a) :
      Move host o w (actuateWithWarning a next)
        { w with starts := w.starts ++ [w.store.events.find? o.names] } (runActuator a next)
  /-- The actuator removes the storage. -/
  | remove (a : CompletionAuthorization) (next : String) :
      Move host o w (runActuator a next) { w with storageRemoved := true, removedByActuator := true }
        (recordOutcome a true next)
  /-- The actuator does not remove the storage, or raises. -/
  | keep (a : CompletionAuthorization) (next : String)
      (k : Except ReceiptError Unit → ReceiptM ReceiptOutcome) :
      Move host o w (runActuator a next) w (.call (.record a false) k)
  | observe (a : CompletionAuthorization) (next : String) :
      Move host o w (.call .observeRemoved (afterObserve a next)) w
        (recordOutcome a w.storageRemoved next)
  /-- An outcome is recorded. -/
  | record (a : CompletionAuthorization) (removed : Bool)
      (k : Except ReceiptError Unit → ReceiptM ReceiptOutcome) {p' : ReceiptM ReceiptOutcome}
      (row : EventRow) (hp' : actuating p' = false) (hnext : reconciling p' = false)
      (hmem : row ∈ w.store.events) (hid : row.eventId = a.eventId)
      (hstep : EventStep host w.store row
        { row with state := (outcomeOf removed).state, storageOutcome := outcomeOf removed }) :
      Move host o w (.call (.record a removed) k)
        { w with store := { w.store with events := updateEvent w.store.events row.eventId fun _ =>
          { row with state := (outcomeOf removed).state, storageOutcome := outcomeOf removed } } } p'

theorem readOutcome_eq_ok {outcome : StorageOutcome} (h : readOutcome events a = .ok outcome) :
    ∃ row ∈ events, row.authorization = a ∧ row.storageOutcome = outcome := by
  rw [readOutcome] at h
  split at h
  · rename_i row hfind
    split at h
    · rename_i hauth
      exact ⟨row, mem_of_find?_eq_some hfind, hauth, Except.ok.inj h⟩
    · cases h
  · cases h

theorem ends_quiet {p : ReceiptM ReceiptOutcome}
    (h : (∃ r, p = .ret r) ∨ ∃ e, p = .raise e) :
    actuating p = false ∧ reconciling p = false := by
  rcases h with ⟨r, rfl⟩ | ⟨e, rfl⟩
  · exact ⟨rfl, rfl⟩
  · exact ⟨rfl, rfl⟩

theorem Point.ends {p : ReceiptM ReceiptOutcome} (h : (∃ r, p = .ret r) ∨ ∃ e, p = .raise e) :
    Point o events p := by
  rcases h with ⟨r, rfl⟩ | ⟨e, rfl⟩
  · exact .ret r
  · exact .raise e

theorem prepare_authorizes {s s' : AttentionStore} {call : PrepareCall}
    (hassessment : call.receipt.assessmentId = o.assessmentId)
    (hintent : call.operationIntent = o.operationIntent)
    (h : prepareCompletionWarning host s call = .ok (a, s')) : Authorizes o s'.events a := by
  obtain ⟨e, hkey, rfl, hevents⟩ := prepare_cases h
  refine ⟨e, ?_, ?_, rfl⟩
  · rcases hevents with ⟨he, rfl⟩ | ⟨-, -, -, hevents⟩
    · exact he
    · rw [hevents]
      exact mem_append_right _ (mem_singleton_self _)
  · simp only [Operation.names, Bool.and_eq_true, decide_eq_true_eq]
    exact ⟨hkey.1.trans hassessment, hkey.2.trans hintent⟩

theorem prepare_new {s s' : AttentionStore} {call : PrepareCall}
    (h : prepareCompletionWarning host s call = .ok (a, s')) :
    ∀ e ∈ s'.events, e ∈ s.events ∨ e.storageOutcome = .prepared := by
  intro x hx
  obtain ⟨e, -, -, ⟨-, rfl⟩ | ⟨rfl, -, -, hevents⟩⟩ := prepare_cases h
  · exact .inl hx
  · rw [hevents] at hx
    rcases mem_append.mp hx with hx | hx
    · exact .inl hx
    · rw [mem_singleton.mp hx]
      exact .inr rfl

variable {w w' : ReceiptWorld}

theorem Point.tick (hinv : EventsInv w.store.events) {p : ReceiptM ReceiptOutcome}
    (h : Point o w.store.events p) {e : ReceiptOp} {k : e.Answer → ReceiptM ReceiptOutcome}
    (hp : p = .call e k) {c : ReceiptChoice} {answer : e.Answer}
    (ha : ReceiptOp.effect host o e c w = some (answer, w')) :
    Move host o w p w' (k answer) ∧ Point o w'.store.events (k answer) := by
  cases h with
  | ret r => cases hp
  | raise x => cases hp
  | fingerprint call =>
    cases hp
    have hworld : w' = w := by
      cases c <;> simp only [ReceiptOp.effect, Option.some.injEq, Prod.mk.injEq, reduceCtorEq] at ha
      · exact ha.2.symm
      · exact ha.2.symm
    subst hworld
    cases answer with
    | error x => exact ⟨.idle rfl rfl rfl, .ret _⟩
    | ok fingerprint => exact ⟨.idle rfl rfl rfl, .prepare call fingerprint⟩
  | prepare call fingerprint =>
    cases hp
    have hrefused : ∀ p, actuating p = false → w' = w → ∀ x, answer = .error x →
        Move host o w p w' (afterPrepare fingerprint call.nextAction answer) ∧
          Point o w'.store.events (afterPrepare fingerprint call.nextAction answer) := by
      rintro p hp rfl x rfl
      exact ⟨.idle hp rfl rfl, .ret _⟩
    cases c <;> simp only [ReceiptOp.effect, Option.some.injEq, Prod.mk.injEq, reduceCtorEq] at ha
    · exact hrefused _ rfl ha.2.symm _ ha.1.symm
    · rename_i uuid
      cases hcall : prepareCompletionWarning host w.store
        { receipt := call.receipt, operationIntent := o.operationIntent,
          obligationFingerprint := fingerprint, nextAction := call.nextAction,
          observer := call.observer, uuid } with
      | error r =>
        rw [hcall] at ha
        obtain ⟨rfl, rfl⟩ := Prod.mk.inj ha
        exact hrefused _ rfl rfl _ rfl
      | ok result =>
        obtain ⟨a, store⟩ := result
        rw [hcall] at ha
        obtain ⟨rfl, rfl⟩ := Prod.mk.inj ha
        exact ⟨.prepare store rfl rfl rfl (prepare_spec hcall) (prepare_new hcall),
          .check a fingerprint _ (prepare_authorizes call.assessment rfl hcall)⟩
  | check a fingerprint next h =>
    cases hp
    have hworld : w' = w := by
      cases c <;> simp only [ReceiptOp.effect, Option.some.injEq, Prod.mk.injEq, reduceCtorEq] at ha
      · exact ha.2.symm
      · exact ha.2.symm
    subst hworld
    cases answer with
    | error x => exact ⟨.idle rfl rfl rfl, .ret _⟩
    | ok outcome =>
      cases outcome with
      | storageRemoved => exact ⟨.idle rfl rfl rfl, .ret _⟩
      | held => exact ⟨.idle rfl rfl rfl, .ret _⟩
      | prepared =>
        simp only [afterReplay, replayed]
        split
        · exact ⟨.idle rfl rfl rfl, .ret _⟩
        · refine ⟨.check a fingerprint next ?_, .start a next h⟩
          cases c <;>
            simp only [ReceiptOp.effect, Option.some.injEq, Prod.mk.injEq, reduceCtorEq] at ha
          · obtain ⟨row, hrow, hauth, houtcome⟩ := readOutcome_eq_ok ha.1
            obtain ⟨event, hevent, hnames, heventauth⟩ := h
            intro e he he'
            have hid : event.eventId = row.eventId := by
              rw [← hauth] at heventauth
              exact congrArg CompletionAuthorization.eventId heventauth
            rw [hinv.eq_of_names he hevent he' hnames, hinv.eq_of_id hevent hrow hid]
            exact houtcome
          · cases ha.1
  | start a next h =>
    cases hp
    cases c <;> simp only [ReceiptOp.effect, Option.some.injEq, Prod.mk.injEq, reduceCtorEq] at ha
    obtain ⟨-, rfl⟩ := ha
    exact ⟨.start a next h, .actuate a next h⟩
  | actuate a next h =>
    cases hp
    cases c <;> simp only [ReceiptOp.effect, Option.some.injEq, Prod.mk.injEq, reduceCtorEq] at ha
    · obtain ⟨rfl, rfl⟩ := ha
      exact ⟨.keep a next _, .record a false _ fun _ => .inr ⟨_, rfl⟩⟩
    · split at ha
      · cases ha
      · obtain ⟨rfl, rfl⟩ := Prod.mk.inj (Option.some.inj ha)
        exact ⟨.remove a next, .record a true _ (afterRecord_ends a true next)⟩
    · obtain ⟨rfl, rfl⟩ := ha
      exact ⟨.keep a next _, .record a false _ (afterRecord_ends a false next)⟩
  | record a removed k hk =>
    cases hp
    have hquiet := ends_quiet (hk answer)
    cases c <;> simp only [ReceiptOp.effect, Option.some.injEq, Prod.mk.injEq, reduceCtorEq] at ha
    · cases hcall : recordCompletionOutcome host w.store a.eventId (outcomeOf removed) a with
      | error r =>
        rw [hcall] at ha
        obtain ⟨-, rfl⟩ := Prod.mk.inj ha
        exact ⟨.idle rfl hquiet.1 hquiet.2, Point.ends (hk answer)⟩
      | ok result =>
        obtain ⟨e, store⟩ := result
        rw [hcall] at ha
        obtain ⟨-, rfl⟩ := Prod.mk.inj ha
        refine ⟨?_, Point.ends (hk answer)⟩
        rcases outcome_moves hinv hcall with rfl | ⟨row, hmem, hid, hstep, rfl⟩
        · exact .idle rfl hquiet.1 hquiet.2
        · exact .record a removed k row hquiet.1 hquiet.2 hmem hid hstep
    · obtain ⟨-, rfl⟩ := ha
      exact ⟨.idle rfl hquiet.1 hquiet.2, Point.ends (hk answer)⟩
  | recover a next =>
    cases hp
    have hworld : w' = w := by
      cases c <;> simp only [ReceiptOp.effect, Option.some.injEq, Prod.mk.injEq, reduceCtorEq] at ha
      · exact ha.2.symm
      · exact ha.2.symm
    subst hworld
    cases answer with
    | error x => exact ⟨.idle rfl rfl rfl, .raise _⟩
    | ok outcome =>
      cases outcome with
      | storageRemoved => exact ⟨.idle rfl rfl rfl, .ret _⟩
      | held => exact ⟨.idle rfl rfl rfl, .ret _⟩
      | prepared => exact ⟨.recover a next, .observe a next⟩
  | observe a next =>
    cases hp
    cases c <;> simp only [ReceiptOp.effect, Option.some.injEq, Prod.mk.injEq, reduceCtorEq] at ha
    · obtain ⟨rfl, rfl⟩ := ha
      exact ⟨.observe a next, .record a _ _ (afterRecord_ends a _ next)⟩
    · obtain ⟨rfl, rfl⟩ := ha
      exact ⟨.idle rfl rfl rfl, .raise _⟩

theorem Move.eventsStep {p p' : ReceiptM ReceiptOutcome} (h : Move host o w p w' p') :
    EventsStep host w.store w'.store.events := by
  cases h with
  | prepare store hp hp' hnext hstep hnew => exact hstep
  | record a removed k row hp' hnext hmem hid hstep => exact .moved row _ hmem hstep
  | idle | check | recover | start | remove | keep | observe => exact .same

theorem Authorizes.find (h : Authorizes o events a) :
    ∃ e, events.find? o.names = some e ∧ o.names e = true := by
  obtain ⟨e, he, hnames, -⟩ := h
  cases hfind : events.find? o.names with
  | none => exact absurd hnames (by simpa using find?_eq_none.mp hfind e he)
  | some x => exact ⟨x, rfl, find?_some hfind⟩

theorem Move.committed {p p' : ReceiptM ReceiptOutcome} (h : Move host o w p w' p')
    (hcommitted : Committed o w) : Committed o w' := by
  cases h with
  | start a next h =>
    intro start hstart
    rcases mem_append.mp hstart with hstart | hstart
    · exact hcommitted start hstart
    · rw [mem_singleton.mp hstart]
      exact h.find
  | prepare | record | idle | check | recover | remove | keep | observe => exact hcommitted

theorem env_spec (hinv : EventsInv w.store.events) {d : ReceiptEnv}
    (h : d.effect host o w = some w') : EventsStep host w.store w'.store.events ∧
      w'.starts = w.starts ∧ w'.removedByActuator = w.removedByActuator ∧
      (w.storageRemoved = true → w'.storageRemoved = true) := by
  cases d with
  | journal call =>
    rw [ReceiptEnv.effect] at h
    split at h
    · cases h
    · obtain rfl := Option.some.inj h
      exact ⟨attention_step hinv call, rfl, rfl, fun h => h⟩
  | removeStorage =>
    obtain rfl := Option.some.inj h
    exact ⟨.same, rfl, rfl, fun _ => rfl⟩

/-- What holds in every run. -/
structure Base (o : Operation) (s : ReceiptConfig) : Prop where
  events : EventsInv s.world.store.events
  points : ∀ i p, s.procs i = some p → Point o s.world.store.events p
  committed : Committed o s.world

theorem Base.step {s s' : ReceiptConfig} (h : Base o s)
    (hn : (receiptSystem host o).next s l = some s') : Base o s' := by
  rcases System.next_cases hn with ⟨i, r, -, -, hw, hprocs⟩ | ⟨i, c, e, k, a, -, hp, ha, hprocs⟩ |
    ⟨i, p, -, -, hw, hprocs⟩ | ⟨d, -, hd, hprocs⟩
  · have hw : s'.world = s.world := hw
    refine ⟨by rw [hw]; exact h.events, fun j q hq => ?_, by rw [hw]; exact h.committed⟩
    rw [hprocs] at hq
    rw [hw]
    by_cases hj : j = i
    · subst hj
      rw [Function.update_self] at hq
      obtain rfl := Option.some.inj hq
      exact Point.body _ r
    · rw [Function.update_of_ne hj] at hq
      exact h.points j q hq
  · obtain ⟨hmove, hpoint⟩ := (h.points i _ hp).tick h.events rfl ha
    have hkept := hmove.eventsStep.eventsKept h.events
    refine ⟨hmove.eventsStep.inv h.events, fun j q hq => ?_, ?_⟩
    · rw [hprocs] at hq
      by_cases hj : j = i
      · subst hj
        rw [Function.update_self] at hq
        obtain rfl := Option.some.inj hq
        exact hpoint
      · rw [Function.update_of_ne hj] at hq
        exact (h.points j q hq).kept hkept
    · exact hmove.committed h.committed
  · have hw : s'.world = s.world := hw
    refine ⟨by rw [hw]; exact h.events, fun j q hq => ?_, by rw [hw]; exact h.committed⟩
    rw [hprocs] at hq
    rw [hw]
    by_cases hj : j = i
    · subst hj
      rw [Function.update_self] at hq
      cases hq
    · rw [Function.update_of_ne hj] at hq
      exact h.points j q hq
  · obtain ⟨hstep, hstarts, -, -⟩ := env_spec h.events hd
    refine ⟨hstep.inv h.events, fun j q hq => ?_, ?_⟩
    · rw [hprocs] at hq
      exact (h.points j q hq).kept (hstep.eventsKept h.events)
    · rw [Committed, hstarts]
      exact h.committed

/-- A program that is neither at the actuator nor about to record. -/
def Quiet (p : ReceiptM ReceiptOutcome) : Prop := actuating p = false ∧ reconciling p = false

/-- The operation has no outcome. -/
def Open (o : Operation) (events : List EventRow) : Prop :=
  ∀ e ∈ events, o.names e = true → e.storageOutcome = .prepared

/-- The operation is not recorded as held. -/
def NotHeld (o : Operation) (events : List EventRow) : Prop :=
  ∀ e ∈ events, o.names e = true → e.storageOutcome ≠ .held

theorem Open.notHeld (h : Open o events) : NotHeld o events := by
  intro e he hnames
  rw [h e he hnames]
  decide

/-- What holds in orderly runs. -/
structure Ordered (o : Operation) (s : ReceiptConfig) : Prop where
  alone : ∀ i p, s.procs i = some p → actuating p = true →
    Open o s.world.store.events ∧ ∀ j q, j ≠ i → s.procs j = some q → Quiet q
  fresh : ∀ i a next, s.procs i = some (actuateWithWarning a next) → s.world.starts = []
  started : ∀ i a next, s.procs i = some (runActuator a next) →
    s.world.starts ≠ [] ∧ s.world.removedByActuator = false
  unrecorded : ∀ start ∈ s.world.starts, ∀ e, start = some e → e.storageOutcome = .prepared
  kept : ∀ i a k, s.procs i = some (.call (.record a false) k) → s.world.removedByActuator = false
  removed : s.world.removedByActuator = true → s.world.storageRemoved = true ∧ s.world.starts ≠ []
  notHeld : s.world.removedByActuator = true → NotHeld o s.world.store.events

theorem body_quiet (request : ReceiptRequest o) : Quiet request.body := by
  cases request with
  | recover a next => exact ⟨rfl, rfl⟩
  | withReceipt call =>
    rw [body_withReceipt]
    exact ⟨rfl, rfl⟩

/-! ### What the others do to the outcome -/

/-- An event of the operation has the outcome that it had before, or none. -/
def OutcomesFrom (o : Operation) (events events' : List EventRow) : Prop :=
  ∀ e' ∈ events', o.names e' = true → e'.storageOutcome = .prepared ∨
    ∃ e ∈ events, o.names e = true ∧ e.storageOutcome = e'.storageOutcome

theorem OutcomesFrom.refl (events : List EventRow) : OutcomesFrom o events events :=
  fun e he hnames => .inr ⟨e, he, hnames, rfl⟩

theorem OutcomesFrom.open (h : OutcomesFrom o events events') (hopen : Open o events) :
    Open o events' := by
  intro e' he' hnames
  rcases h e' he' hnames with hprepared | ⟨e, he, hn, heq⟩
  · exact hprepared
  · rw [← heq]
    exact hopen e he hn

theorem OutcomesFrom.notHeld (h : OutcomesFrom o events events') (hnot : NotHeld o events) :
    NotHeld o events' := by
  intro e' he' hnames
  rcases h e' he' hnames with hprepared | ⟨e, he, hn, heq⟩
  · rw [hprepared]
    decide
  · rw [← heq]
    exact hnot e he hn

theorem updateEvent_outcomes (events : List EventRow) (eventId : String) {f : EventRow → EventRow}
    (hf : ∀ e, o.names (f e) = o.names e ∧ (f e).storageOutcome = e.storageOutcome) :
    OutcomesFrom o events (updateEvent events eventId f) := by
  intro e' he' hnames
  obtain ⟨e, he, rfl⟩ := mem_map.mp he'
  refine .inr ⟨e, he, ?_⟩
  split at hnames
  · rename_i hid
    rw [if_pos hid]
    exact ⟨(hf e).1 ▸ hnames, (hf e).2.symm⟩
  · rename_i hid
    rw [if_neg hid]
    exact ⟨hnames, rfl⟩

theorem resolve_outcomes {s s' : AttentionStore} {row : EventRow} {state : EventState}
    {resolution : Resolution} {e : CompletionEvent}
    (h : resolve s row state resolution = .ok (e, s')) : OutcomesFrom o s.events s'.events := by
  rw [resolve] at h
  split at h
  · simp only [bind_eq_ok, exists_const, require_eq_ok, pure, Except.pure, Except.ok.injEq,
      Prod.mk.injEq] at h
    obtain ⟨-, -, rfl⟩ := h
    exact .refl _
  · simp only [bind_eq_ok, pure, Except.pure, Except.ok.injEq, Prod.mk.injEq] at h
    obtain ⟨updated, -, -, rfl⟩ := h
    exact updateEvent_outcomes _ _ fun e => ⟨rfl, rfl⟩

theorem journal_outcomes {s : AttentionStore} (hinv : EventsInv s.events) {call : AttentionCall}
    (h : recordsOutcome o s call = false) :
    OutcomesFrom o s.events ((attentionMachine host).next s call).events := by
  cases call with
  | prepare call =>
    simp only [Machine.next, attentionMachine]
    cases hcall : prepareCompletionWarning host s call with
    | error r => exact .refl _
    | ok result =>
      intro e he hnames
      rcases prepare_new hcall e he with hold | hnew
      · exact .inr ⟨e, hold, hnames, rfl⟩
      · exact .inl hnew
  | outcome eventId outcome a =>
    simp only [Machine.next, attentionMachine]
    cases hcall : recordCompletionOutcome host s eventId outcome a with
    | error r => exact .refl _
    | ok result =>
      rcases outcome_moves hinv hcall with heq | ⟨row, hmem, hid, -, heq⟩
      · show OutcomesFrom o s.events result.2.events
        rw [heq]
        exact .refl _
      · show OutcomesFrom o s.events result.2.events
        rw [heq]
        intro e he hnames
        rcases mem_updateEvent he with rfl | ⟨he, -⟩
        · have hnone := any_eq_false.mp h row hmem
          rw [Bool.and_eq_true, decide_eq_true_eq] at hnone
          exact absurd ⟨hnames, hid⟩ hnone
        · exact .inr ⟨e, he, hnames, rfl⟩
  | discharge eventId assessmentId =>
    simp only [Machine.next, attentionMachine]
    cases hcall : dischargeCompletionEvent host s eventId assessmentId with
    | error r => exact .refl _
    | ok result =>
      simp only [dischargeCompletionEvent, bind_eq_ok] at hcall
      obtain ⟨row, hrow, hcall⟩ := hcall
      split at hcall
      · exact resolve_outcomes hcall
      · split at hcall
        · cases hcall
        · simp only [bind_eq_ok, exists_const, require_eq_ok] at hcall
          obtain ⟨-, current, -, -, hcall⟩ := hcall
          exact resolve_outcomes hcall
  | reassign eventId carrier authorityId =>
    simp only [Machine.next, attentionMachine]
    cases hcall : reassign s eventId carrier authorityId with
    | error r => exact .refl _
    | ok result =>
      simp only [reassign, bind_eq_ok, exists_const, require_eq_ok] at hcall
      obtain ⟨-, row, -, -, hcall⟩ := hcall
      exact resolve_outcomes hcall
  | change native tests contracts => exact .refl _

theorem env_outcomes (hinv : EventsInv w.store.events) {d : ReceiptEnv}
    (h : d.effect host o w = some w') : OutcomesFrom o w.store.events w'.store.events := by
  cases d with
  | journal call =>
    rw [ReceiptEnv.effect] at h
    split at h
    · cases h
    · rename_i hrecords
      obtain rfl := Option.some.inj h
      exact journal_outcomes hinv (Bool.eq_false_of_not_eq_true hrecords)
  | removeStorage =>
    obtain rfl := Option.some.inj h
    exact .refl _

theorem Ordered.frame {s s' : ReceiptConfig} (h : Ordered o s)
    (hprocs : ∀ j q, s'.procs j = some q → s.procs j = some q ∨ Quiet q)
    (hstarts : s'.world.starts = s.world.starts)
    (hremoved : s'.world.removedByActuator = s.world.removedByActuator)
    (hstorage : s.world.storageRemoved = true → s'.world.storageRemoved = true)
    (hopen : (∃ i p, s.procs i = some p ∧ actuating p = true ∧ s'.procs i = some p) →
      Open o s.world.store.events → Open o s'.world.store.events)
    (hheld : s.world.removedByActuator = true → NotHeld o s.world.store.events →
      NotHeld o s'.world.store.events) : Ordered o s' := by
  have hloud : ∀ {i q}, s'.procs i = some q → (actuating q = true ∨ reconciling q = true) →
      s.procs i = some q := by
    intro i q hq hloud
    rcases hprocs i q hq with hold | hquiet
    · exact hold
    · rw [hquiet.1, hquiet.2] at hloud
      simp at hloud
  refine ⟨fun i p hp hact => ?_, fun i a next hp => ?_, fun i a next hp => ?_, ?_, fun i a k hp => ?_,
    fun hrem => ?_, fun hrem => ?_⟩
  · have hold := hloud hp (.inl hact)
    obtain ⟨hop, hothers⟩ := h.alone i p hold hact
    refine ⟨hopen ⟨i, p, hold, hact, hp⟩ hop, fun j q hj hq => ?_⟩
    rcases hprocs j q hq with hq | hquiet
    · exact hothers j q hj hq
    · exact hquiet
  · rw [hstarts]
    exact h.fresh i a next (hloud hp (.inl rfl))
  · rw [hstarts, hremoved]
    exact h.started i a next (hloud hp (.inl rfl))
  · rw [hstarts]
    exact h.unrecorded
  · rw [hremoved]
    exact h.kept i a k (hloud hp (.inr rfl))
  · rw [hremoved] at hrem
    rw [hstarts]
    exact ⟨hstorage (h.removed hrem).1, (h.removed hrem).2⟩
  · rw [hremoved] at hrem
    exact hheld hrem (h.notHeld hrem)

variable {s s' : ReceiptConfig} {i : Nat} {p p' : ReceiptM ReceiptOutcome}

theorem Ordered.solo (hprocs : s'.procs = Function.update s.procs i (some p'))
    (hothers : ∀ j q, j ≠ i → s.procs j = some q → Quiet q)
    (hopen : actuating p' = true → Open o s'.world.store.events)
    (hfresh : ∀ a next, p' = actuateWithWarning a next → s'.world.starts = [])
    (hstarted : ∀ a next, p' = runActuator a next →
      s'.world.starts ≠ [] ∧ s'.world.removedByActuator = false)
    (hunrecorded : ∀ start ∈ s'.world.starts, ∀ e, start = some e → e.storageOutcome = .prepared)
    (hkept : ∀ a k, p' = .call (.record a false) k → s'.world.removedByActuator = false)
    (hremoved : s'.world.removedByActuator = true →
      s'.world.storageRemoved = true ∧ s'.world.starts ≠ [])
    (hnotHeld : s'.world.removedByActuator = true → NotHeld o s'.world.store.events) :
    Ordered o s' := by
  have hquiet : ∀ j q, j ≠ i → s'.procs j = some q → Quiet q := by
    intro j q hj hq
    rw [hprocs, Function.update_of_ne hj] at hq
    exact hothers j q hj hq
  have hloud : ∀ {j q}, s'.procs j = some q → (actuating q = true ∨ reconciling q = true) →
      j = i ∧ p' = q := by
    intro j q hq hl
    by_cases hj : j = i
    · rw [hprocs, hj, Function.update_self] at hq
      exact ⟨hj, Option.some.inj hq⟩
    · obtain ⟨h1, h2⟩ := hquiet j q hj hq
      rw [h1, h2] at hl
      simp at hl
  refine ⟨fun j q hq hact => ?_, fun j a next hq => ?_, fun j a next hq => ?_, hunrecorded,
    fun j a k hq => ?_, hremoved, hnotHeld⟩
  · obtain ⟨rfl, rfl⟩ := hloud hq (.inl hact)
    exact ⟨hopen hact, hquiet⟩
  · exact hfresh a next (hloud hq (.inl rfl)).2
  · exact hstarted a next (hloud hq (.inl rfl)).2
  · exact hkept a k (hloud hq (.inr rfl)).2

theorem Ordered.tick (h : Ordered o s) (hp : s.procs i = some p)
    (hmove : Move host o s.world p s'.world p')
    (hprocs : s'.procs = Function.update s.procs i (some p'))
    (horderly : ∀ a purpose k, p = .call (.storedOutcome a purpose) k → MayGoOn o s i purpose) :
    Ordered o s' := by
  have hself : ∀ q, s'.procs i = some q → q = p' := by
    intro q hq
    rw [hprocs, Function.update_self] at hq
    exact (Option.some.inj hq).symm
  have hother : ∀ {j q}, j ≠ i → s'.procs j = some q → s.procs j = some q := by
    intro j q hj hq
    rwa [hprocs, Function.update_of_ne hj] at hq
  have hframe : Quiet p' → ∀ j q, s'.procs j = some q → s.procs j = some q ∨ Quiet q := by
    intro hquiet j q hq
    by_cases hj : j = i
    · subst hj
      rw [hself q hq]
      exact .inr hquiet
    · exact .inl (hother hj hq)
  generalize hw : s'.world = w' at hmove
  cases hmove with
  | idle hpa hp' hnext =>
    exact h.frame (hframe ⟨hp', hnext⟩) (by rw [hw]) (by rw [hw]) (by rw [hw]; exact fun h => h)
      (by rw [hw]; exact fun _ h => h) (by rw [hw]; exact fun _ h => h)
  | prepare store hpa hp' hnext hstep hnew =>
    have hfrom : OutcomesFrom o s.world.store.events store.events := by
      intro e he hnames
      rcases hnew e he with hold | hprepared
      · exact .inr ⟨e, hold, hnames, rfl⟩
      · exact .inl hprepared
    refine h.frame (hframe ⟨hp', hnext⟩) (by rw [hw]) (by rw [hw]) (by rw [hw]; exact fun h => h)
      ?_ ?_
    · rw [hw]
      exact fun _ => hfrom.open
    · rw [hw]
      exact fun _ => hfrom.notHeld
  | record a removed k row hp' hnext hmem hid hstep =>
    refine h.frame (hframe ⟨hp', hnext⟩) (by rw [hw]) (by rw [hw]) (by rw [hw]; exact fun h => h)
      ?_ ?_
    · -- nobody is at the actuator while an outcome is recorded
      rintro ⟨j, q, hq, hact, hq'⟩
      by_cases hj : j = i
      · subst hj
        rw [hself q hq', hp'] at hact
        cases hact
      · have hquiet := (h.alone j q hq hact).2 i _ (Ne.symm hj) hp
        cases hquiet.2
    · rw [hw]
      intro hremoved hnot e he hnames
      rcases mem_updateEvent he with rfl | ⟨he, -⟩
      · cases removed with
        | true => exact fun hheld => by cases hheld
        | false =>
          rw [h.kept i a k hp] at hremoved
          cases hremoved
      · exact hnot e he hnames
  | check a fingerprint next houtcome =>
    obtain ⟨hnone, hmay⟩ := horderly a .actuate _ rfl
    obtain ⟨haccounted, hnorecord⟩ := hmay rfl
    have hstarts : s.world.starts = [] := by
      by_contra hne
      exact haccounted ⟨hne, houtcome⟩
    rw [← hw] at houtcome hstarts
    refine .solo hprocs (fun j q hj hq => ⟨hnone j q hj hq, hnorecord j q hj hq⟩)
      (fun _ => houtcome) (fun _ _ _ => hstarts) ?_ ?_ ?_ ?_ ?_
    · intro b n hq
      cases hq
    · rw [hstarts]
      exact fun start hstart => absurd hstart not_mem_nil
    · intro b k hq
      cases hq
    · rw [hw]
      exact h.removed
    · rw [hw]
      exact h.notHeld
  | recover a next =>
    obtain ⟨hnone, -⟩ := horderly a .recover _ rfl
    have hidle : ∀ {j q}, s'.procs j = some q → actuating q = true → False := by
      intro j q hq hact
      by_cases hj : j = i
      · subst hj
        rw [hself q hq] at hact
        cases hact
      · rw [hnone j q hj (hother hj hq)] at hact
        cases hact
    refine ⟨fun j q hq hact => (hidle hq hact).elim, fun j b n hq => (hidle hq rfl).elim,
      fun j b n hq => (hidle hq rfl).elim, ?_, fun j b k hq => ?_, ?_, ?_⟩
    · rw [hw]
      exact h.unrecorded
    · rw [hw]
      by_cases hj : j = i
      · subst hj
        cases hself _ hq
      · exact h.kept j b k (hother hj hq)
    · rw [hw]
      exact h.removed
    · rw [hw]
      exact h.notHeld
  | start a next hauth =>
    obtain ⟨hopen, hquiet⟩ := h.alone i _ hp rfl
    have hstarts := h.fresh i a next hp
    have hkept : s.world.removedByActuator = false := by
      by_contra hne
      exact (h.removed (by simpa using hne)).2 hstarts
    refine .solo hprocs hquiet ?_ ?_ ?_ ?_ ?_ ?_ ?_
    · rw [hw]
      exact fun _ => hopen
    · intro b n hq
      cases hq
    · rw [hw]
      exact fun _ _ _ => ⟨append_ne_nil_of_right_ne_nil _ (cons_ne_nil _ _), hkept⟩
    · -- this is the first start, and the event of the operation has no outcome
      rw [hw, hstarts]
      intro start hstart e he
      rw [nil_append, mem_singleton] at hstart
      rw [hstart] at he
      exact hopen e (mem_of_find?_eq_some he) (find?_some he)
    · intro b k hq
      cases hq
    · rw [hw]
      intro hremoved
      rw [hkept] at hremoved
      cases hremoved
    · rw [hw]
      exact fun _ => hopen.notHeld
  | remove a next =>
    obtain ⟨hopen, hquiet⟩ := h.alone i _ hp rfl
    refine .solo hprocs hquiet (fun hact => by cases hact) ?_ ?_ ?_ ?_ ?_ ?_
    · intro b n hq
      cases hq
    · intro b n hq
      cases hq
    · rw [hw]
      exact h.unrecorded
    · intro b k hq
      cases hq
    · rw [hw]
      exact fun _ => ⟨rfl, (h.started i a next hp).1⟩
    · rw [hw]
      exact fun _ => hopen.notHeld
  | keep a next k =>
    obtain ⟨-, hquiet⟩ := h.alone i _ hp rfl
    refine .solo hprocs hquiet (fun hact => by cases hact) ?_ ?_ ?_ ?_ ?_ ?_
    · intro b n hq
      cases hq
    · intro b n hq
      cases hq
    · rw [hw]
      exact h.unrecorded
    · rw [hw]
      exact fun _ _ _ => (h.started i a next hp).2
    · rw [hw]
      exact h.removed
    · rw [hw]
      exact h.notHeld
  | observe a next =>
    have hidle : ∀ {j q}, s'.procs j = some q → actuating q = true → False := by
      intro j q hq hact
      by_cases hj : j = i
      · subst hj
        rw [hself q hq] at hact
        cases hact
      · have hquiet := (h.alone j q (hother hj hq) hact).2 i _ (Ne.symm hj) hp
        cases hquiet.2
    refine ⟨fun j q hq hact => (hidle hq hact).elim, fun j b n hq => (hidle hq rfl).elim,
      fun j b n hq => (hidle hq rfl).elim, ?_, fun j b k hq => ?_, ?_, ?_⟩
    · rw [hw]
      exact h.unrecorded
    · rw [hw]
      by_cases hj : j = i
      · -- the storage is there, so no actuator has removed it
        subst hj
        have hstorage : s.world.storageRemoved = false := by
          have heq := hself _ hq
          injection heq with hop
          injection hop with _ hremoved
          exact hremoved.symm
        by_contra hne
        rw [(h.removed (by simpa using hne)).1] at hstorage
        cases hstorage
      · exact h.kept j b k (hother hj hq)
    · rw [hw]
      exact h.removed
    · rw [hw]
      exact h.notHeld

theorem Ordered.step (h : Ordered o s) (hbase : Base o s) (horderly : Orderly o s l)
    (hn : (receiptSystem host o).next s l = some s') : Ordered o s' := by
  rcases System.next_cases hn with ⟨i, r, -, -, hw, hprocs⟩ | ⟨i, c, e, k, a, rfl, hp, ha, hprocs⟩ |
    ⟨i, p, -, -, hw, hprocs⟩ | ⟨d, -, hd, hprocs⟩
  · have hw : s'.world = s.world := hw
    refine h.frame (fun j q hq => ?_) (by rw [hw]) (by rw [hw]) (by rw [hw]; exact fun h => h)
      (by rw [hw]; exact fun _ h => h) (by rw [hw]; exact fun _ h => h)
    rw [hprocs] at hq
    by_cases hj : j = i
    · subst hj
      rw [Function.update_self] at hq
      obtain rfl := Option.some.inj hq
      exact .inr (body_quiet r)
    · rw [Function.update_of_ne hj] at hq
      exact .inl hq
  · obtain ⟨hmove, -⟩ := (hbase.points i _ hp).tick hbase.events rfl ha
    exact h.tick hp hmove hprocs fun b purpose k' hk =>
      horderly i c b purpose k' rfl (hp.trans (congrArg some hk))
  · have hw : s'.world = s.world := hw
    refine h.frame (fun j q hq => ?_) (by rw [hw]) (by rw [hw]) (by rw [hw]; exact fun h => h)
      (by rw [hw]; exact fun _ h => h) (by rw [hw]; exact fun _ h => h)
    rw [hprocs] at hq
    by_cases hj : j = i
    · subst hj
      rw [Function.update_self] at hq
      cases hq
    · rw [Function.update_of_ne hj] at hq
      exact .inl hq
  · obtain ⟨-, hstarts, hremoved, hstorage⟩ := env_spec hbase.events hd
    have hfrom := env_outcomes hbase.events hd
    exact h.frame (fun j q hq => .inl (by rwa [hprocs] at hq)) hstarts hremoved hstorage
      (fun _ => hfrom.open) fun _ => hfrom.notHeld

/-- In every run each start of an actuator is behind the committed event of the operation; in an
orderly one the fence holds. -/
theorem removal_fenced (host : AttentionHost) (o : Operation) (ls : List (ReceiptLabel o))
    (s : ReceiptConfig) (hexec : (receiptSystem host o).exec (System.boot {}) ls = some s) :
    Committed o s.world ∧
      ((receiptSystem host o).Along (Orderly o) (System.boot {}) ls → Fenced o s.world) := by
  have hbase : Base o (System.boot {}) := by
    refine ⟨.nil, fun i p hp => ?_, fun start hstart => absurd hstart not_mem_nil⟩
    cases hp
  have hordered : Ordered o (System.boot {}) := by
    refine ⟨fun i p hp => ?_, fun i a n hp => ?_, fun i a n hp => ?_,
      fun start hstart => absurd hstart not_mem_nil, fun i a k hp => ?_, fun h => ?_,
      fun h => ?_⟩
    · cases hp
    · cases hp
    · cases hp
    · cases hp
    · cases h
    · cases h
  refine ⟨?_, fun halong => ?_⟩
  · have hsteps : (receiptSystem host o).Steps (System.boot {}) s := ⟨ls, hexec⟩
    exact (hsteps.preserves (P := Base o) (fun _ _ _ h hn => h.step hn) hbase).committed
  · have hboth := halong.invariant (P := fun s => Base o s ∧ Ordered o s)
      (fun s l s' h horderly hn => ⟨h.1.step hn, h.2.step h.1 horderly hn⟩) hexec ⟨hbase, hordered⟩
    exact ⟨hboth.2.unrecorded, hboth.2.notHeld⟩

/-- Digests that tell no inputs apart; there is one contract and one obligation. -/
def constantHost : AttentionHost where
  text := fun _ => ""
  digest := fun _ => "contract"
  objectiveDigest := fun objective => objective
  fingerprintDigest := fun _ => "obligations"
  findingsText := fun _ => "[]"
  acceptanceText := fun _ => "[]"

/-- The closing of a lane. -/
def closing : Operation := ⟨"assessment", "close"⟩

/-- The identity of the lane. -/
def closingIdentity : LaneIdentity where
  repository := "repo"
  taskRef := "t"
  laneId := "l"
  laneRowId := 1
  identitySeq := none
  cycleId := some "0"
  branch := "b"
  admissionBase := "base"
  productTip := "tip"
  laneRevision := "r1"
  taskRevision := "1"

/-- The contract of the lane. -/
def closingContract : ContractRow where
  taskRef := "t"
  laneRowId := 1
  laneId := "l"
  identitySeq := none
  revision := 1
  contractHash := "contract"
  idempotencyKey := "contract"
  payload := {
    contract := {
      identity := closingIdentity, revision := 1, contractHash := "contract",
      objectiveHash := "objective", findingIds := some [], acceptanceIds := ["a"],
      requiredCommands := some [], approved := true, exhaustive := true, evidenceIds := ["e"],
      acceptanceVerifiers := [⟨"a", "test", 1, "c", "pass", "text"⟩] }
    assignedFindings := []
    emptyAssignmentDeclared := true
    objective := "objective"
    integrationRef := "main"
    transfers := []
    nonTestReason := none
    testTargetPolicy := [] }

/-- The lane, its task and its contract. -/
def closingTables : ReceiptEnv :=
  .journal (.change
    { lanes := [⟨1, "t", "l", none, "b", "r1", 0⟩], tasks := [⟨"t", 1, "in_progress"⟩] } []
    [closingContract])

/-- The receipt of the closing. -/
def closingReceipt : CompletionReceipt where
  assessmentId := "assessment"
  taskRef := "t"
  laneId := "l"
  laneRowId := 1
  identityRevision := "r1"
  contractRevision := 1
  contractHash := "contract"
  phase := "candidate"
  verdict := "unfinished_partial"
  reasonCodes := []
  unmetFindingIds := []
  unmetAcceptanceIds := ["a"]
  missingEvidence := []
  carrier := none
  policyAction := "stale_close"

/-- A call that closes the lane. -/
def closingCall : ReceiptRequest closing :=
  .withReceipt ⟨closingReceipt, "look", "closer", rfl, by decide⟩

/-- One caller removes the storage. -/
def closingRun : List (ReceiptLabel closing) :=
  [.env closingTables, .start 0 closingCall, .tick 0 .plain, .tick 0 (.fresh "event"),
    .tick 0 .plain, .tick 0 .plain, .tick 0 .remove, .tick 0 .plain]

/-- Nobody but caller 0 runs. -/
theorem alone_step {s s' : ReceiptConfig} (h : ∀ j, j ≠ 0 → s.procs j = none)
    (hl : ∀ i r, l = .start i r → i = 0) (hn : (receiptSystem host o).next s l = some s') :
    ∀ j, j ≠ 0 → s'.procs j = none := by
  intro j hj
  rcases System.next_cases hn with ⟨i, r, hlabel, -, -, hprocs⟩ | ⟨i, c, e, k, a, -, hp, -, hprocs⟩ |
    ⟨i, p, -, hp, -, hprocs⟩ | ⟨d, -, -, hprocs⟩
  · obtain rfl := hl i r hlabel
    rw [hprocs, Function.update_of_ne hj]
    exact h j hj
  · rw [hprocs]
    by_cases hji : j = i
    · rw [← hji, h j hj] at hp
      cases hp
    · rw [Function.update_of_ne hji]
      exact h j hj
  · rw [hprocs]
    by_cases hji : j = i
    · rw [← hji, h j hj] at hp
      cases hp
    · rw [Function.update_of_ne hji]
      exact h j hj
  · rw [hprocs]
    exact h j hj

/-- A caller reads the outcome next. -/
def reading : ReceiptM ReceiptOutcome → Bool
  | .call (.storedOutcome _ _) _ => true
  | _ => false

theorem closingRun_orderly :
    (receiptSystem constantHost closing).Along (Orderly closing) (System.boot {}) closingRun := by
  have hstarts : ∀ l ∈ closingRun, ∀ i r, l = .start i r → i = 0 := by
    intro l hl i r hlabel
    subst hlabel
    simp only [closingRun, List.mem_cons, reduceCtorEq, Label.start.injEq, List.not_mem_nil,
      or_false, false_or] at hl
    exact hl.1
  have hreads : ((List.range 8).all fun n =>
      ((receiptSystem constantHost closing).exec (System.boot {}) (closingRun.take n)).all fun s =>
        !(s.procs 0).any reading || s.world.starts.isEmpty) = true := by decide +kernel
  refine System.along_of_take fun n s l hexec hl i c a purpose k hlabel hp => ?_
  have halone : ∀ j, j ≠ 0 → s.procs j = none := by
    have halong : (receiptSystem constantHost closing).Along
        (fun _ l => ∀ i r, l = .start i r → i = 0) (System.boot {}) (closingRun.take n) :=
      System.along_of_take fun m _ l' _ hl' =>
        hstarts l' (List.mem_of_mem_take (List.mem_of_getElem? hl'))
    exact halong.invariant (fun _ _ _ h hstart hn => alone_step h hstart hn) hexec fun _ _ => rfl
  have hi : i = 0 := by
    by_contra hne
    rw [halone i hne] at hp
    cases hp
  subst hi
  have hn : n < 8 := (List.getElem?_eq_some_iff.mp hl).1
  have hempty := List.all_eq_true.mp hreads n (List.mem_range.mpr hn)
  rw [hexec, Option.all_some, hp] at hempty
  have hstarts : s.world.starts = [] := by simpa [reading] using hempty
  refine ⟨fun j q hj hq => ?_, fun _ => ⟨fun h => h.1 hstarts, fun j q hj hq => ?_⟩⟩
  · rw [halone j hj] at hq
    cases hq
  · rw [halone j hj] at hq
    cases hq

theorem removal_fenced_closing : ∃ s, (receiptSystem constantHost closing).exec (System.boot {})
    closingRun = some s ∧ s.world.removedByActuator = true ∧ Committed closing s.world ∧
      Fenced closing s.world := by
  have hresult : ((receiptSystem constantHost closing).exec (System.boot {}) closingRun).map
      (fun s => s.world.removedByActuator) = some true := by decide +kernel
  cases hexec : (receiptSystem constantHost closing).exec (System.boot {}) closingRun with
  | none =>
    rw [hexec] at hresult
    cases hresult
  | some s =>
    rw [hexec] at hresult
    obtain ⟨hcommitted, hfenced⟩ := removal_fenced constantHost closing closingRun s hexec
    exact ⟨s, rfl, Option.some.inj hresult, hcommitted, hfenced closingRun_orderly⟩

/-- Both callers find no outcome; the first removes the storage, and the second, whose actuator finds
nothing to remove, is the first to record. -/
def overlappingRun : List (ReceiptLabel closing) :=
  [.env closingTables, .start 0 closingCall, .start 1 closingCall,
    .tick 0 .plain, .tick 0 (.fresh "event"), .tick 0 .plain,
    .tick 1 .plain, .tick 1 (.fresh "other"), .tick 1 .plain,
    .tick 0 .plain, .tick 0 .remove,
    .tick 1 .plain, .tick 1 .keep, .tick 1 .plain]

/-- Without a crash, a removed storage is recorded as held. -/
theorem overlap_recorded_held :
    ¬ ∀ (host : AttentionHost) (o : Operation) (ls : List (ReceiptLabel o)) (s : ReceiptConfig),
      (receiptSystem host o).exec (System.boot {}) ls = some s → (∀ i, .halt i ∉ ls) →
      Committed o s.world ∧ Fenced o s.world := by
  intro h
  have hresult : ((receiptSystem constantHost closing).exec (System.boot {}) overlappingRun).map
      (fun s => (s.world.removedByActuator, s.world.store.events.map fun e =>
        (closing.names e, e.storageOutcome))) = some (true, [(true, .held)]) := by
    decide +kernel
  cases hexec : (receiptSystem constantHost closing).exec (System.boot {}) overlappingRun with
  | none =>
    rw [hexec] at hresult
    cases hresult
  | some s =>
    rw [hexec, Option.map_some, Option.some.injEq, Prod.mk.injEq] at hresult
    obtain ⟨hremoved, hevents⟩ := hresult
    have hfenced := (h constantHost closing overlappingRun s hexec (by simp [overlappingRun])).2
    have hevent : (true, StorageOutcome.held) ∈ s.world.store.events.map fun e =>
        (closing.names e, e.storageOutcome) := by
      rw [hevents]
      exact mem_singleton_self _
    obtain ⟨e, he, heq⟩ := mem_map.mp hevent
    obtain ⟨hnames, houtcome⟩ := Prod.mk.inj heq
    exact hfenced.held hremoved e he hnames houtcome

end Workbay.Completion

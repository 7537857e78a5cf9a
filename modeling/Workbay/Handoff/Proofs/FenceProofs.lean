import Workbay.Handoff.Proofs.DecisionProofs

/-!
# Event ids and revisions fence

Whatever calls are made, an event id is stored exactly when a call with it has succeeded, and stays
bound to the row of that call. Only a refresh of that row acts on it again. A task moves from one
revision to the next, and an update that expects a revision meets it.
-/

namespace Workbay.Handoff

open Effects List

variable {rules : TextRules}

/-- The claim names the row that a call has written or matched. -/
def NamesRow (s s' : Store) (claim : ClaimRow) : HandoffCall → Prop
  | .state _ c => claim.targetTable = "handoff_state" ∧ claim.targetId = none ∧
      ∃ row, getHandoffRowForTask s'.tasks c.taskRef = .ok (some row) ∧
        claim.taskRef = some row.taskRef
  | .decision o c => claim.targetTable = "decisions" ∧ ∃ row ∈ s'.decisions, ∃ resolved,
      o.taskRef = .ok resolved ∧ row.hasKey resolved c.decision c.session = true ∧
        claim.targetId = some row.id ∧ claim.taskRef = some resolved
  | .test o _ => claim.targetTable = "verified_tests" ∧ ∃ row resolved, o.taskRef = .ok resolved ∧
      s'.tests = s.tests ++ [row] ∧ claim.targetId = some row.id ∧ claim.taskRef = some resolved

/-- A call refreshes the decision that its event id is bound to. -/
def Refreshes (s : Store) : HandoffCall → Prop
  | .decision o c => RefreshesOwn s o c
  | _ => False

/-- What a call does to the claims, when it does not raise. -/
inductive Outcome (s : Store) (call : HandoffCall) (s' : Store) (e : Envelope) : Prop where
  | kept (h : Kept s call.eventId s' e)
  | claimed (row : String → ClaimRow) (hok : e.ok = true)
      (hfresh : ∀ id, call.eventId = some id → ¬ Stored s.claims id)
      (hid : ∀ id, (row id).eventId = id) (hnames : ∀ id, NamesRow s s' (row id) call)
      (hclaims : s'.claims = withClaim s.claims call.eventId row)
  | refreshed (hok : e.ok = true) (hrefreshes : Refreshes s call) (hclaims : s'.claims = s.claims)

variable {s s' : Store} {e : Envelope}

variable {call : HandoffCall}

theorem outcome (hinv : HandoffInv s) (h : call.effect rules s = .ok (s', e)) :
    Outcome s call s' e := by
  cases call with
  | state o c =>
    rcases setHandoffState_spec hinv h with hkept | hwritten
    · exact .kept hkept
    · obtain ⟨row, hrow, hclaims⟩ := hwritten.claims
      exact .claimed _ hwritten.ok hwritten.fresh (fun _ => rfl) (fun _ => ⟨rfl, rfl, row, hrow, rfl⟩)
        hclaims
  | decision o c =>
    rcases recordDecision_spec hinv h with hkept | hwritten
    · exact .kept hkept
    · cases hwritten with
      | claimed resolved id hstored hfresh hclaims =>
        obtain ⟨row, hrow, rfl, hkey⟩ := hstored.decisions.row
        exact .claimed _ hstored.ok hfresh (fun _ => rfl)
          (fun _ => ⟨rfl, row, hrow, resolved, hstored.resolves, hkey, rfl, rfl⟩) hclaims
      | refreshed resolved id hstored hown hclaims => exact .refreshed hstored.ok hown hclaims
  | test o c =>
    rcases recordTestResult_spec h with hkept | hwritten
    · exact .kept hkept
    · obtain ⟨row, resolved, hresolved, htests, -, -, hclaims⟩ := hwritten.tests
      exact .claimed _ hwritten.ok hwritten.fresh (fun _ => rfl)
        (fun _ => ⟨rfl, row, resolved, hresolved, htests, rfl, rfl⟩) hclaims

theorem Outcome.extends (h : Outcome s call s' e) : s.claims <+: s'.claims := by
  cases h with
  | kept h => exact ⟨[], by rw [append_nil, h.same]⟩
  | claimed row hok hfresh hid hnames hclaims => exact ⟨_, hclaims.symm⟩
  | refreshed hok hrefreshes hclaims => exact ⟨[], by rw [append_nil, hclaims]⟩

theorem nodup_withClaim {claims : List ClaimRow} {id : Option String} {row : String → ClaimRow}
    (h : (claims.map ClaimRow.eventId).Nodup) (hid : ∀ id, (row id).eventId = id)
    (hfresh : ∀ stored, id = some stored → ¬ Stored claims stored) :
    ((withClaim claims id row).map ClaimRow.eventId).Nodup := by
  cases id with
  | none => simpa [withClaim] using h
  | some id =>
    rw [withClaim, map_append]
    refine nodup_append.mpr ⟨h, by simp, fun a ha b hb heq => ?_⟩
    simp only [Option.map_some, Option.toList_some, map_singleton, hid,
      mem_singleton] at hb
    obtain ⟨c, hc, rfl⟩ := mem_map.mp ha
    exact hfresh id rfl ⟨c, hc, heq.trans hb⟩

theorem mem_withClaim {claims : List ClaimRow} {id : Option String} {row : String → ClaimRow}
    {c : ClaimRow} (h : c ∈ withClaim claims id row) : c ∈ claims ∨ ∃ id, c = row id := by
  rcases mem_append.mp h with h | h
  · exact .inl h
  · obtain ⟨id', -, rfl⟩ := Option.map_eq_some_iff.mp (Option.mem_toList.mp h)
    exact .inr ⟨id', rfl⟩

theorem TaskChange.keeps {c : StateCall} {tasks tasks' : List TaskRow}
    {operation : MutationOperation} (h : TaskChange c tasks tasks' operation)
    (hnodup : (tasks.map TaskRow.taskRef).Nodup) : (tasks'.map TaskRow.taskRef).Nodup ∧
      ∀ row ∈ tasks, ∃ row' ∈ tasks', row'.taskRef = row.taskRef ∧ row.revision ≤ row'.revision := by
  cases h with
  | insert row hnone href =>
    refine ⟨?_, fun t ht => ⟨t, mem_append_left _ ht, rfl, Int.le_refl _⟩⟩
    rw [map_append, map_singleton]
    refine nodup_append.mpr ⟨hnodup, nodup_singleton _, fun a ha b hb heq => ?_⟩
    obtain ⟨t, ht, rfl⟩ := mem_map.mp ha
    rw [mem_singleton.mp hb, href] at heq
    exact getHandoffRow_none hnone t ht heq
  | update row _ hrow hexpected hraises =>
    obtain ⟨f, rfl, hf, hraised, hother⟩ := hraises
    refine ⟨?_, fun t ht => ⟨f t, mem_map_of_mem ht, hf t, ?_⟩⟩
    · rw [map_map, show TaskRow.taskRef ∘ f = TaskRow.taskRef from funext hf]
      exact hnodup
    · by_cases heq : t = row
      · subst heq
        omega
      · exact Int.le_of_eq (congrArg TaskRow.revision (hother t ht heq)).symm

theorem DecisionStored.inv {o : Outside} {c : DecisionCall} {resolved : String} {id : Nat}
    (h : DecisionStored s o c s' e resolved id) (hinv : HandoffInv s)
    (hnodup : (s'.claims.map ClaimRow.eventId).Nodup)
    (hclaims : ∀ claim ∈ s'.claims, claim ∈ s.claims ∨
      claim.targetId = some id ∧ claim.taskRef = some resolved) : HandoffInv s' := by
  obtain ⟨-, htasks, -, -, hresources⟩ := h.frame
  refine ⟨by rw [htasks]; exact hinv.tasks, h.decisions.ids hinv.decisions, hnodup,
    fun claim hclaim htable => ?_, by rw [htasks, hresources]; exact hinv.events⟩
  rcases hclaims claim hclaim with hold | ⟨htarget, href⟩
  · obtain ⟨row, hrow, hid, hrowRef⟩ := hinv.bound claim hold htable
    obtain ⟨row', hrow', hsameId, hsameRef⟩ := h.decisions.kept row hrow
    exact ⟨row', hrow', by rw [hid, hsameId], by rw [hrowRef, hsameRef]⟩
  · obtain ⟨row, hrow, hid, hkey⟩ := h.decisions.row
    simp only [DecisionRow.hasKey, Bool.and_eq_true, decide_eq_true_eq] at hkey
    exact ⟨row, hrow, by rw [htarget, hid], by rw [href, hkey.1.1]⟩

/-- Every call that does not raise keeps the invariant. -/
theorem HandoffInv.effect (hinv : HandoffInv s) (h : call.effect rules s = .ok (s', e)) :
    HandoffInv s' := by
  cases call with
  | state o c =>
    rcases setHandoffState_spec hinv h with hkept | hwritten
    · rw [hkept.same]
      exact hinv
    · obtain ⟨-, hdecisions, -, -⟩ := hwritten.frame
      obtain ⟨operation, -, hchange⟩ := hwritten.tasks
      obtain ⟨row, -, hclaims⟩ := hwritten.claims
      obtain ⟨htasks, hrevisions⟩ := hchange.keeps hinv.tasks
      refine ⟨htasks, by rw [hdecisions]; exact hinv.decisions, ?_, fun claim hclaim htable => ?_,
        fun ev hev => ?_⟩
      · rw [hclaims]
        exact nodup_withClaim hinv.claims (fun _ => rfl) hwritten.fresh
      · rw [hclaims] at hclaim
        rcases mem_withClaim hclaim with hold | ⟨id, rfl⟩
        · rw [hdecisions]
          exact hinv.bound claim hold htable
        · exact absurd htable (show ("handoff_state" : String) ≠ "decisions" by decide +kernel)
      · rcases hwritten.events ev hev with hold | hnew
        · obtain ⟨task, htask, href, hle⟩ := hinv.events ev hold
          obtain ⟨task', htask', hsame, hraised⟩ := hrevisions task htask
          exact ⟨task', htask', hsame.trans href, by omega⟩
        · exact hnew
  | decision o c =>
    rcases recordDecision_spec hinv h with hkept | hwritten
    · rw [hkept.same]
      exact hinv
    · cases hwritten with
      | claimed resolved id hstored hfresh hclaims =>
        refine hstored.inv hinv ?_ fun claim hclaim => ?_
        · rw [hclaims]
          exact nodup_withClaim hinv.claims (fun _ => rfl) hfresh
        · rw [hclaims] at hclaim
          rcases mem_withClaim hclaim with hold | ⟨id, rfl⟩
          · exact .inl hold
          · exact .inr ⟨rfl, rfl⟩
      | refreshed resolved id hstored hown hclaims =>
        refine hstored.inv hinv ?_ fun claim hclaim => ?_
        · rw [hclaims]
          exact hinv.claims
        · rw [hclaims] at hclaim
          exact .inl hclaim
  | test o c =>
    rcases recordTestResult_spec h with hkept | hwritten
    · rw [hkept.same]
      exact hinv
    · obtain ⟨-, htasks, hdecisions, hresources⟩ := hwritten.frame
      obtain ⟨row, resolved, -, -, -, -, hclaims⟩ := hwritten.tests
      refine ⟨by rw [htasks]; exact hinv.tasks, by rw [hdecisions]; exact hinv.decisions, ?_,
        fun claim hclaim htable => ?_, by rw [htasks, hresources]; exact hinv.events⟩
      · rw [hclaims]
        exact nodup_withClaim hinv.claims (fun _ => rfl) hwritten.fresh
      · rw [hclaims] at hclaim
        rcases mem_withClaim hclaim with hold | ⟨id, rfl⟩
        · rw [hdecisions]
          exact hinv.bound claim hold htable
        · exact absurd htable (show ("verified_tests" : String) ≠ "decisions" by decide +kernel)

/-- A store whose tables have their keys, and in which no event id and no event of the producer is
stored yet. -/
structure Unfenced (s : Store) : Prop where
  tasks : (s.tasks.map TaskRow.taskRef).Nodup
  decisions : (s.decisions.map DecisionRow.id).Nodup
  claims : s.claims = []
  events : s.resources.events = []

theorem Unfenced.inv (h : Unfenced s) : HandoffInv s where
  tasks := h.tasks
  decisions := h.decisions
  claims := by simp [h.claims]
  bound := by simp [h.claims]
  events := by simp [h.events]

/-- The call succeeds in a state: it is answered, and not refused. -/
def Succeeds (rules : TextRules) (s : Store) (call : HandoffCall) : Prop :=
  ∃ e, (handoffMachine rules).answer s call = .ok e ∧ e.ok = true

theorem next_cases (rules : TextRules) (hinv : HandoffInv s) (call : HandoffCall) :
    ((handoffMachine rules).next s call = s ∧
        ∃ x, (handoffMachine rules).answer s call = .error x) ∨
      ∃ e, (handoffMachine rules).answer s call = .ok e ∧
        call.effect rules s = .ok ((handoffMachine rules).next s call, e) ∧
        Outcome s call ((handoffMachine rules).next s call) e := by
  simp only [Machine.next, Machine.answer, handoffMachine]
  cases heffect : call.effect rules s with
  | error x => exact .inl ⟨rfl, x, rfl⟩
  | ok result => exact .inr ⟨result.2, rfl, rfl, outcome hinv heffect⟩

theorem HandoffInv.next (rules : TextRules) (hinv : HandoffInv s) (call : HandoffCall) :
    HandoffInv ((handoffMachine rules).next s call) := by
  rcases next_cases rules hinv call with ⟨hsame, -⟩ | ⟨e, -, heffect, -⟩
  · rw [hsame]
    exact hinv
  · exact hinv.effect heffect

theorem HandoffInv.run (rules : TextRules) (hinv : HandoffInv s) (calls : List HandoffCall) :
    HandoffInv ((handoffMachine rules).run s calls) :=
  Machine.run_invariant (fun _ call h => h.next rules call) hinv calls

theorem claims_extend (rules : TextRules) (hinv : HandoffInv s) (calls : List HandoffCall) :
    s.claims <+: ((handoffMachine rules).run s calls).claims := by
  induction calls generalizing s with
  | nil => exact prefix_rfl
  | cons call calls ih =>
    rw [Machine.run_cons]
    have hfirst : s.claims <+: ((handoffMachine rules).next s call).claims := by
      rcases next_cases rules hinv call with ⟨hsame, -⟩ | ⟨e, -, -, houtcome⟩
      · exact ⟨[], by rw [append_nil, hsame]⟩
      · exact houtcome.extends
    exact hfirst.trans (ih (hinv.next rules call))

theorem Refreshes.stored {id : String} (h : Refreshes s call) (hid : call.eventId = some id) :
    Stored s.claims id := by
  cases call with
  | state o c => exact h.elim
  | test o c => exact h.elim
  | decision o c =>
    obtain ⟨-, resolved, existing, -, hfetch, -⟩ := h
    obtain ⟨hid', hmem⟩ := fetchProjectionEvent_eq_some hfetch
    rw [show normalizeEventId c.eventId = some id from hid] at hid'
    exact ⟨existing, hmem, (Option.some.inj hid').symm⟩

theorem stored_next (hinv : HandoffInv s) (call : HandoffCall) (id : String) :
    Stored ((handoffMachine rules).next s call).claims id ↔
      Stored s.claims id ∨ call.eventId = some id ∧ Succeeds rules s call := by
  rcases next_cases rules hinv call with ⟨hsame, x, hx⟩ | ⟨e, he, -, houtcome⟩
  · rw [hsame]
    refine ⟨.inl, fun h => h.resolve_right ?_⟩
    rintro ⟨-, e, he, -⟩
    rw [hx] at he
    cases he
  · have hsucceeds : Succeeds rules s call ↔ e.ok = true := by
      refine ⟨fun h => ?_, fun h => ⟨e, he, h⟩⟩
      obtain ⟨e', he', hok⟩ := h
      rw [he] at he'
      rwa [Except.ok.inj he']
    rw [hsucceeds]
    cases houtcome with
    | kept h =>
      rw [h.same]
      refine ⟨.inl, ?_⟩
      rintro (hstored | ⟨hid, hok⟩)
      · exact hstored
      · obtain ⟨stored, hid', hstored⟩ := h.stored hok
        obtain rfl := Option.some.inj (hid.symm.trans hid')
        exact hstored
    | claimed row hok hfresh hid hnames hclaims =>
      rw [hclaims, stored_withClaim hid]
      exact or_congr_right ⟨fun h => ⟨h, hok⟩, fun h => h.1⟩
    | refreshed hok hrefreshes hclaims =>
      rw [hclaims]
      refine ⟨.inl, ?_⟩
      rintro (hstored | ⟨hid, -⟩)
      · exact hstored
      exact hrefreshes.stored hid

/-- What holds of a call in a state of a run. -/
structure Fenced (rules : TextRules) (s : Store) (call : HandoffCall) : Prop where
  /-- A call that is refused or raises leaves every table as it was. -/
  refused : ¬ Succeeds rules s call → (handoffMachine rules).next s call = s
  /-- So does a call whose event id is stored, unless it refreshes the decision of that id. -/
  repeated : ∀ id, call.eventId = some id → Stored s.claims id → ¬ Refreshes s call →
    (handoffMachine rules).next s call = s
  /-- A call that succeeds with a new event id binds it to its row, for good. -/
  bound : ∀ id, call.eventId = some id → ¬ Stored s.claims id → Succeeds rules s call →
    ∃ claim, claim.eventId = id ∧ NamesRow s ((handoffMachine rules).next s call) claim call ∧
      ∀ later, let claims := ((handoffMachine rules).run s (call :: later)).claims
        claim ∈ claims ∧ ∀ c ∈ claims, c.eventId = id → c = claim
  /-- A successful update raises its row by one revision, from the one that it expects. -/
  raises : ∀ o c e, call = .state o c → (handoffMachine rules).answer s call = .ok e →
    e.ok = true → (∃ id, call.eventId = some id ∧ Stored s.claims id) ∨
      ∃ operation, e.operation = some operation ∧
        TaskChange c s.tasks ((handoffMachine rules).next s call).tasks operation
  /-- No other call changes a task. -/
  tasks : (∀ o c, call ≠ .state o c) → ((handoffMachine rules).next s call).tasks = s.tasks

theorem Outcome.repeated {id : String} (h : Outcome s call s' e) (hid : call.eventId = some id)
    (hstored : Stored s.claims id) (hrefreshes : ¬ Refreshes s call) : s' = s := by
  cases h with
  | kept h => exact h.same
  | claimed row hok hfresh hrow hnames hclaims => exact absurd hstored (hfresh id hid)
  | refreshed hok h hclaims => exact absurd h hrefreshes

theorem Outcome.refused (h : Outcome s call s' e) (hok : e.ok ≠ true) : s' = s := by
  cases h with
  | kept h => exact h.same
  | claimed row h hfresh hrow hnames hclaims => exact absurd h hok
  | refreshed h hrefreshes hclaims => exact absurd h hok

theorem Outcome.bound {id : String} (h : Outcome s call s' e) (hid : call.eventId = some id)
    (hfresh : ¬ Stored s.claims id) (hok : e.ok = true) :
    ∃ claim ∈ s'.claims, claim.eventId = id ∧ NamesRow s s' claim call := by
  cases h with
  | kept h =>
    obtain ⟨stored, hid', hstored⟩ := h.stored hok
    obtain rfl := Option.some.inj (hid.symm.trans hid')
    exact absurd hstored hfresh
  | claimed row _ _ hrow hnames hclaims =>
    refine ⟨row id, ?_, hrow id, hnames id⟩
    rw [hclaims, hid, withClaim]
    exact mem_append_right _ (by simp)
  | refreshed _ hrefreshes hclaims => exact absurd (hrefreshes.stored hid) hfresh

theorem HandoffInv.claim_stays (hinv : HandoffInv s) {claim : ClaimRow} (hmem : claim ∈ s.claims)
    (later : List HandoffCall) : claim ∈ ((handoffMachine rules).run s later).claims ∧
      ∀ c ∈ ((handoffMachine rules).run s later).claims, c.eventId = claim.eventId → c = claim := by
  have hstays := (claims_extend rules hinv later).subset hmem
  have hnodup := (hinv.run rules later).claims
  exact ⟨hstays, fun c hc heq => inj_on_of_nodup_map hnodup hc hstays heq⟩

theorem HandoffInv.fenced (hinv : HandoffInv s) (call : HandoffCall) : Fenced rules s call where
  refused hfails := by
    rcases next_cases rules hinv call with ⟨hsame, -⟩ | ⟨e, he, -, houtcome⟩
    · exact hsame
    · exact houtcome.refused fun hok => hfails ⟨e, he, hok⟩
  repeated id hid hstored hrefreshes := by
    rcases next_cases rules hinv call with ⟨hsame, -⟩ | ⟨e, -, -, houtcome⟩
    · exact hsame
    · exact houtcome.repeated hid hstored hrefreshes
  bound id hid hfresh hsucceeds := by
    obtain ⟨e', he', hok⟩ := hsucceeds
    rcases next_cases rules hinv call with ⟨-, x, hx⟩ | ⟨e, he, -, houtcome⟩
    · rw [hx] at he'
      cases he'
    · obtain rfl := Except.ok.inj (he.symm.trans he')
      obtain ⟨claim, hmem, rfl, hnames⟩ := houtcome.bound hid hfresh hok
      exact ⟨claim, rfl, hnames, fun later => (hinv.next rules call).claim_stays hmem later⟩
  raises o c e hcall he hok := by
    subst hcall
    rcases next_cases rules hinv (.state o c) with ⟨-, x, hx⟩ | ⟨e', he', heffect, -⟩
    · rw [hx] at he
      cases he
    · obtain rfl := Except.ok.inj (he'.symm.trans he)
      rcases setHandoffState_spec hinv heffect with hkept | hwritten
      · exact .inl (hkept.stored hok)
      · exact .inr hwritten.tasks
  tasks hother := by
    rcases next_cases rules hinv call with ⟨hsame, -⟩ | ⟨e, -, heffect, -⟩
    · rw [hsame]
    · cases call with
      | state o c => exact absurd rfl (hother o c)
      | decision o c =>
        rcases recordDecision_spec hinv heffect with hkept | hwritten
        · rw [hkept.same]
        · cases hwritten with
          | claimed resolved id hstored hfresh hclaims => exact hstored.frame.2.1
          | refreshed resolved id hstored hown hclaims => exact hstored.frame.2.1
      | test o c =>
        rcases recordTestResult_spec heffect with hkept | hwritten
        · rw [hkept.same]
        · exact hwritten.frame.2.1

/-- An event id is stored exactly when a call with it has succeeded. -/
theorem stored_run {s₀ : Store} (h : Unfenced s₀) (calls : List HandoffCall) (id : String) :
    Stored ((handoffMachine rules).run s₀ calls).claims id ↔
      ∃ before call after, calls = before ++ call :: after ∧ call.eventId = some id ∧
        Succeeds rules ((handoffMachine rules).run s₀ before) call := by
  induction calls using List.reverseRecOn with
  | nil => simp [Stored, h.claims]
  | append_singleton calls last ih =>
    rw [Machine.run_append, Machine.run_cons, Machine.run_nil, stored_next (h.inv.run rules calls), ih]
    constructor
    · rintro (⟨before, call, after, rfl, hid, hsucceeds⟩ | ⟨hid, hsucceeds⟩)
      · exact ⟨before, call, after ++ [last], by simp, hid, hsucceeds⟩
      · exact ⟨calls, last, [], rfl, hid, hsucceeds⟩
    · rintro ⟨before, call, after, heq, hid, hsucceeds⟩
      rcases eq_nil_or_concat after with rfl | ⟨after, x, rfl⟩
      · obtain ⟨rfl, hlast⟩ := append_inj' heq rfl
        obtain rfl : last = call := by simpa using hlast
        exact .inr ⟨hid, hsucceeds⟩
      · refine .inl ⟨before, call, after, ?_, hid, hsucceeds⟩
        have heq' : calls ++ [last] = (before ++ call :: after) ++ [x] := by simpa using heq
        exact (append_inj' heq' rfl).1

/-- After every run of calls, an event id is stored exactly when a call with it has succeeded, and
each call to come is fenced. -/
theorem event_ids_fence (rules : TextRules) {s₀ : Store} (h : Unfenced s₀)
    (calls : List HandoffCall) :
    (∀ id, Stored ((handoffMachine rules).run s₀ calls).claims id ↔
      ∃ before call after, calls = before ++ call :: after ∧ call.eventId = some id ∧
        Succeeds rules ((handoffMachine rules).run s₀ before) call) ∧
      ∀ call, Fenced rules ((handoffMachine rules).run s₀ calls) call :=
  ⟨fun id => stored_run h calls id, fun call => (h.inv.run rules calls).fenced call⟩

/-- Rules that let every text pass. -/
def plainRules : TextRules where
  decisionError _ _ := none
  changedFiles files := .ok files
  decisionOrigin _ := none
  summarizeTestResult result := result

/-- A call that creates a task under the event id `e1`. -/
def createsTask : HandoffCall :=
  .state { context := .ok ⟨none, none, none, none, none, none, none, none⟩, taskRef := .ok "T-1"
           warnings := .ok [], now := "now" }
    { taskRef := "T-1", objective := some "Ship", eventId := some " e1 "
      producer := { binding := none, storeInstalled := true, fresh := "f", committedAt := "now"
                    failure := none } }

theorem event_ids_fence_created :
    Stored ((handoffMachine plainRules).run {} [createsTask]).claims "e1" ∧
      ∀ call, Fenced plainRules ((handoffMachine plainRules).run {} [createsTask]) call := by
  have h := event_ids_fence plainRules (show Unfenced {} from
    ⟨nodup_nil, nodup_nil, rfl, rfl⟩) [createsTask]
  refine ⟨(h.1 "e1").mpr ⟨[], createsTask, [], rfl, by decide +kernel, ?_⟩, h.2⟩
  exact ⟨_, rfl, by decide +kernel⟩

/-! ## No update is lost -/

/-- The call is answered as an update of the task. -/
def updates (rules : TextRules) (s : Store) (taskRef : String) : HandoffCall → Bool
  | .state o c =>
    match (handoffMachine rules).answer s (.state o c), getHandoffRowForTask s.tasks c.taskRef with
    | .ok e, .ok (some row) => decide (e.operation = some .update ∧ row.taskRef = taskRef)
    | _, _ => false
  | _ => false

variable {row : TaskRow}

theorem HandoffInv.counted (rules : TextRules) (hinv : HandoffInv s) (call : HandoffCall)
    (hrow : row ∈ s.tasks) :
    ∃ row' ∈ ((handoffMachine rules).next s call).tasks, row'.taskRef = row.taskRef ∧
      row'.revision = row.revision + (updates rules s row.taskRef call).toNat := by
  have hkeep : updates rules s row.taskRef call = false →
      row ∈ ((handoffMachine rules).next s call).tasks → ∃ row' ∈
      ((handoffMachine rules).next s call).tasks, row'.taskRef = row.taskRef ∧
      row'.revision = row.revision + (updates rules s row.taskRef call).toNat :=
    fun hno hin => ⟨row, hin, rfl, by simp [hno]⟩
  cases call with
  | decision o c | test o c =>
    refine hkeep rfl ?_
    rw [(hinv.fenced _).tasks fun _ _ h => by cases h]
    exact hrow
  | state o c =>
    rcases next_cases rules hinv (.state o c) with ⟨hsame, x, hx⟩ | ⟨e, he, heffect, -⟩
    · refine hkeep (by simp [updates, hx]) ?_
      rw [hsame]
      exact hrow
    · rcases setHandoffState_spec hinv heffect with hkept | hwritten
      · refine hkeep ?_ (by rw [hkept.same]; exact hrow)
        have hop := hkept.operation
        cases hfetch : getHandoffRowForTask s.tasks c.taskRef with
        | error x => simp [updates, he, hfetch]
        | ok found => cases found <;> simp [updates, he, hfetch, hop]
      · obtain ⟨operation, hop, hchange⟩ := hwritten.tasks
        generalize hnext : (handoffMachine rules).next s (.state o c) = s' at hchange hkeep ⊢
        generalize htasks : s'.tasks = tasks' at hchange hkeep ⊢
        cases hchange with
        | insert row' hnone href => exact hkeep (by simp [updates, he, hnone]) (by simp [hrow])
        | update row' _ hfetch hexpected hraises =>
          obtain ⟨f, rfl, hf, hraised, hother⟩ := hraises
          refine ⟨f row, mem_map_of_mem hrow, hf row, ?_⟩
          by_cases heq : row = row'
          · subst heq
            simp [updates, he, hop, hfetch, hraised]
          · have hne : row'.taskRef ≠ row.taskRef := fun href =>
              heq (hinv.task_unique hrow (mem_of_getHandoffRow hfetch) href.symm)
            simp [updates, he, hop, hfetch, hne, hother row hrow heq]

end Workbay.Handoff

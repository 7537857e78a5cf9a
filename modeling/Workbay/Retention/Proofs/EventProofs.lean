import Mathlib.Data.List.Infix
import Mathlib.Tactic.Common
import Workbay.Retention.Events

/-!
# Once and atomically

What a call that records an event does, whatever it answers, and what holds of the store in every run of
a connection.
-/

namespace Workbay.Retention

open Workbay.Effects List

variable {σ : Type} {enc : Encodings}

/-- The state of a resource: the number of its last row. -/
def EventTables.latest (t : EventTables) (key : String) : Option Nat :=
  ((t.rows.filter fun row => row.resourceKey = key).getLast?).map EventRow.id

/-- Rows are numbered in order, an event is stored once, the events of a resource and an operation share
one registration, no two events of an owner have a synthetic tag in common, and the state of every
resource is its last event. -/
structure EventTables.Consistent (t : EventTables) : Prop where
  ids : t.rows.Pairwise fun row row' => row.id < row'.id
  numbered : ∀ row ∈ t.rows, row.id ≤ t.sequence
  once : t.rows.Pairwise fun row row' => row.eventId ≠ row'.eventId
  registrations : ∀ row ∈ t.rows, ∀ row' ∈ t.rows, row.resourceKey = row'.resourceKey →
    row.operationId = row'.operationId → row.registrationJson = row'.registrationJson
  tags : t.rows.Pairwise fun row row' => row.ownerRepository = row'.ownerRepository →
    ∀ tag, row.syntheticTag = some tag → row'.syntheticTag ≠ some tag
  lifecycle : ∀ key, t.lifecycle.get? key = t.latest key

/-- What a call makes of a database, by its answer. -/
structure RecordSpec (enc : Encodings) (event : LifecycleEvent) (registration : Registration)
    (stateChange : Option (σ → σ × Option String)) (db db' : Database σ) (recorded : Recorded) :
    Prop where
  raised : ∀ e, recorded.result = .error e → db' = db ∨ db' = initializeResourceEvents db
  replayed : ∀ id, recorded.result = .ok (id, false) →
    db' = initializeResourceEvents db ∧ recorded.hookRan = false ∧
      ∃ row ∈ db.events.rows, row.id = id ∧ row.eventId = event.eventId ∧
        row.payloadJson = enc.eventJson event ∧
        row.registrationJson = enc.registrationJson registration
  inserted : ∀ id, recorded.result = .ok (id, true) →
    (∀ row ∈ db.events.rows, row.eventId ≠ event.eventId) ∧
      (∀ row ∈ db.events.rows, row.resourceKey = enc.resourceKey event.resource →
        row.operationId = event.operationId →
          row.registrationJson = enc.registrationJson registration) ∧
      (∀ row ∈ db.events.rows, row.ownerRepository = event.resource.owner.repository →
        ∀ tag, event.syntheticTag = some tag → row.syntheticTag ≠ some tag) ∧
      id = db.events.sequence + 1 ∧
      db'.events = { rows := db.events.rows ++ [rowOf enc event registration id]
                     lifecycle := db.events.lifecycle.set (enc.resourceKey event.resource) id
                     sequence := id } ∧
      recorded.hookRan = stateChange.isSome ∧
      db'.others = (stateChange.map fun hook => (hook db.others).1).getD db.others
  hook : recorded.hookRan = true →
    stateChange.isSome ∧ ∀ row ∈ db.events.rows, row.eventId ≠ event.eventId

@[simp] theorem initializeResourceEvents_events (db : Database σ) :
    (initializeResourceEvents db).events = db.events := rfl

@[simp] theorem initializeResourceEvents_others (db : Database σ) :
    (initializeResourceEvents db).others = db.others := rfl

variable {db db' : Database σ}

theorem initializeResourceEvents_of_tables (h : db.tables.isSome) :
    initializeResourceEvents db = db := by
  obtain ⟨tables, others⟩ := db
  cases tables with
  | none => cases h
  | some t => rfl

variable {event : LifecycleEvent} {registration : Registration}
  {stateChange : Option (σ → σ × Option String)} {db : Database σ}

theorem RecordSpec.of_refused {e : Raised} (h : db' = db ∨ db' = initializeResourceEvents db) :
    RecordSpec enc event registration stateChange db db' ⟨.error e, false⟩ where
  raised _ _ := h
  replayed _ he := by cases he
  inserted _ he := by cases he
  hook he := by cases he

theorem recordRow_spec (enc : Encodings) (event : LifecycleEvent) (registration : Registration)
    (stateChange : Option (σ → σ × Option String)) (hdb : db.events.Consistent) :
    RecordSpec enc event registration stateChange db
      (withSavepoint (recordRow enc event registration stateChange) (initializeResourceEvents db)).1
      (withSavepoint (recordRow enc event registration stateChange)
        (initializeResourceEvents db)).2 := by
  have hrefused : ∀ code, recordRow enc event registration stateChange
      (initializeResourceEvents db) = (initializeResourceEvents db, ⟨.error (.hold code), false⟩) →
      RecordSpec enc event registration stateChange db
        (withSavepoint (recordRow enc event registration stateChange)
          (initializeResourceEvents db)).1
        (withSavepoint (recordRow enc event registration stateChange)
          (initializeResourceEvents db)).2 := by
    intro code h
    simp only [withSavepoint, h]
    exact .of_refused (.inr rfl)
  cases hfind : db.events.rows.find? fun row => row.eventId = event.eventId with
  | some prior =>
    have hid : prior.eventId = event.eventId := by simpa using find?_some hfind
    by_cases hpayload : prior.payloadJson = enc.eventJson event
    · by_cases hregistration : prior.registrationJson = enc.registrationJson registration
      · have hrow : recordRow enc event registration stateChange (initializeResourceEvents db) =
            (initializeResourceEvents db, ⟨.ok (prior.id, false), false⟩) := by
          rw [recordRow, initializeResourceEvents_events, hfind]
          simp [hpayload, hregistration]
        simp only [withSavepoint, hrow]
        refine ⟨fun e he => (by cases he), fun id he => ?_, fun id he => (by cases he),
          fun h => (by cases h)⟩
        cases he
        exact ⟨rfl, rfl, prior, mem_of_find?_eq_some hfind, rfl, hid, hpayload, hregistration⟩
      · refine hrefused "registration_changed" ?_
        rw [recordRow, initializeResourceEvents_events, hfind]
        simp [hpayload, hregistration]
    · refine hrefused "event_payload_conflict" ?_
      rw [recordRow, initializeResourceEvents_events, hfind]
      simp [hpayload]
  | none =>
    have hnew : ∀ row ∈ db.events.rows, row.eventId ≠ event.eventId := by
      simpa using hfind
    by_cases hchanged : ((db.events.rows.find? fun row =>
        row.resourceKey = enc.resourceKey event.resource && row.operationId = event.operationId).any
          fun prior => prior.registrationJson ≠ enc.registrationJson registration) = true
    · refine hrefused "registration_changed" ?_
      rw [recordRow, initializeResourceEvents_events, hfind]
      simp only [if_pos hchanged]
    by_cases htag : (event.syntheticTag.any fun tag => db.events.rows.any fun row =>
        row.ownerRepository = event.resource.owner.repository && row.syntheticTag = some tag) = true
    · refine hrefused "synthetic_tag_conflict" ?_
      rw [recordRow, initializeResourceEvents_events, hfind]
      simp only [if_neg hchanged, if_pos htag]
    have hrow : recordRow enc event registration stateChange (initializeResourceEvents db) =
        insertEvent enc event registration stateChange db.events db.others := by
      rw [recordRow, initializeResourceEvents_events, hfind]
      simp only [if_neg hchanged, if_neg htag, initializeResourceEvents_others]
    have hregistration : ∀ row ∈ db.events.rows, row.resourceKey = enc.resourceKey event.resource →
        row.operationId = event.operationId →
          row.registrationJson = enc.registrationJson registration := by
      intro row hrow hkey hoperation
      cases hprior : db.events.rows.find? fun row =>
          row.resourceKey = enc.resourceKey event.resource && row.operationId = event.operationId with
      | none =>
        have hno := find?_eq_none.1 hprior row hrow
        simp [hkey, hoperation] at hno
      | some prior =>
        have hprop : prior.resourceKey = enc.resourceKey event.resource ∧
            prior.operationId = event.operationId := by simpa using find?_some hprior
        have hsame : row.registrationJson = prior.registrationJson :=
          hdb.registrations row hrow prior (mem_of_find?_eq_some hprior)
            (hkey.trans hprop.1.symm) (hoperation.trans hprop.2.symm)
        simpa [hprior, hsame] using hchanged
    have htags : ∀ row ∈ db.events.rows, row.ownerRepository = event.resource.owner.repository →
        ∀ tag, event.syntheticTag = some tag → row.syntheticTag ≠ some tag := by
      intro row hrow howner tag hevent htagged
      refine htag ?_
      rw [hevent, Option.any_some, any_eq_true]
      exact ⟨row, hrow, by simp [howner, htagged]⟩
    cases stateChange with
    | none =>
      simp only [withSavepoint, hrow, insertEvent]
      refine ⟨fun e he => (by cases he), fun id he => (by cases he), fun id he => ?_,
        fun h => (by cases h)⟩
      cases he
      exact ⟨hnew, hregistration, htags, rfl, rfl, rfl, rfl⟩
    | some hook =>
      cases hhook : (hook db.others).2 with
      | some error =>
        simp only [withSavepoint, hrow, insertEvent, hhook]
        exact ⟨fun e he => .inr rfl, fun id he => (by cases he), fun id he => (by cases he),
          fun h => ⟨rfl, hnew⟩⟩
      | none =>
        simp only [withSavepoint, hrow, insertEvent, hhook]
        refine ⟨fun e he => (by cases he), fun id he => (by cases he), fun id he => ?_,
          fun h => ⟨rfl, hnew⟩⟩
        cases he
        exact ⟨hnew, hregistration, htags, rfl, rfl, rfl, rfl⟩

theorem recordResourceEvent_spec (enc : Encodings) (event : LifecycleEvent)
    (registration : Registration) (stateChange : Option (σ → σ × Option String))
    (hdb : db.events.Consistent) : RecordSpec enc event registration stateChange db
      (recordResourceEvent enc event registration stateChange db).1
      (recordResourceEvent enc event registration stateChange db).2 := by
  unfold recordResourceEvent
  split
  · exact .of_refused (.inl rfl)
  split
  · exact .of_refused (.inl rfl)
  split
  · exact .of_refused (.inl rfl)
  · exact recordRow_spec enc event registration stateChange hdb

theorem EventTables.Consistent.insert {t t' : EventTables} {row : EventRow} (h : t.Consistent)
    (hid : row.id = t.sequence + 1) (hnew : ∀ row' ∈ t.rows, row'.eventId ≠ row.eventId)
    (hregistration : ∀ row' ∈ t.rows, row'.resourceKey = row.resourceKey →
      row'.operationId = row.operationId → row'.registrationJson = row.registrationJson)
    (htags : ∀ row' ∈ t.rows, row'.ownerRepository = row.ownerRepository →
      ∀ tag, row.syntheticTag = some tag → row'.syntheticTag ≠ some tag)
    (ht : t' = { rows := t.rows ++ [row], lifecycle := t.lifecycle.set row.resourceKey row.id
                 sequence := row.id }) :
    t'.Consistent := by
  subst ht
  refine ⟨?_, ?_, ?_, ?_, ?_, ?_⟩
  · refine pairwise_append.2 ⟨h.ids, pairwise_singleton _ _, fun row' hrow' last hlast => ?_⟩
    cases mem_singleton.1 hlast
    have hle := h.numbered row' hrow'
    omega
  · intro row' hrow'
    rcases mem_append.1 hrow' with hrow' | hrow'
    · have hle := h.numbered row' hrow'
      show row'.id ≤ row.id
      omega
    · cases mem_singleton.1 hrow'
      exact le_refl _
  · refine pairwise_append.2 ⟨h.once, pairwise_singleton _ _, fun row' hrow' last hlast => ?_⟩
    cases mem_singleton.1 hlast
    exact hnew row' hrow'
  · intro row' hrow' row'' hrow'' hkey hoperation
    rcases mem_append.1 hrow' with hrow' | hrow' <;>
      rcases mem_append.1 hrow'' with hrow'' | hrow''
    · exact h.registrations row' hrow' row'' hrow'' hkey hoperation
    · cases mem_singleton.1 hrow''
      exact hregistration row' hrow' hkey hoperation
    · cases mem_singleton.1 hrow'
      exact (hregistration row'' hrow'' hkey.symm hoperation.symm).symm
    · cases mem_singleton.1 hrow'
      cases mem_singleton.1 hrow''
      rfl
  · refine pairwise_append.2 ⟨h.tags, pairwise_singleton _ _, fun row' hrow' last hlast => ?_⟩
    cases mem_singleton.1 hlast
    intro howner tag hrow htag
    exact htags row' hrow' howner tag htag hrow
  · intro key
    by_cases hkey : row.resourceKey = key
    · subst hkey
      simp [EventTables.latest, Dict.get?_set_self]
    · have hfilter : ((t.rows ++ [row]).filter fun row' => row'.resourceKey = key) =
          t.rows.filter fun row' => row'.resourceKey = key := by
        simp [filter_append, hkey]
      rw [EventTables.latest, hfilter, Dict.get?_set_of_ne _ _ (Ne.symm hkey)]
      exact h.lifecycle key

theorem RecordSpec.rows {recorded : Recorded}
    (h : RecordSpec enc event registration stateChange db db' recorded) :
    db.events.rows <+: db'.events.rows := by
  cases hresult : recorded.result with
  | error e =>
    rcases h.raised e hresult with rfl | rfl
    · exact prefix_rfl
    · exact prefix_rfl
  | ok answer =>
    obtain ⟨id, inserted⟩ := answer
    cases inserted with
    | false => rw [(h.replayed id hresult).1]; exact prefix_rfl
    | true =>
      obtain ⟨-, -, -, -, hevents, -, -⟩ := h.inserted id hresult
      rw [hevents]
      exact prefix_append _ _

theorem RecordSpec.consistent {recorded : Recorded}
    (h : RecordSpec enc event registration stateChange db db' recorded) (hdb : db.events.Consistent) :
    db'.events.Consistent := by
  cases hresult : recorded.result with
  | error e =>
    rcases h.raised e hresult with rfl | rfl
    · exact hdb
    · exact hdb
  | ok answer =>
    obtain ⟨id, inserted⟩ := answer
    cases inserted with
    | false => rw [(h.replayed id hresult).1]; exact hdb
    | true =>
      obtain ⟨hnew, hregistration, htags, hid, hevents, -, -⟩ := h.inserted id hresult
      exact hdb.insert hid hnew hregistration htags hevents

theorem EventTables.consistent_empty : ({} : EventTables).Consistent :=
  ⟨List.Pairwise.nil, fun _ h => (by cases h), List.Pairwise.nil, fun _ h => (by cases h),
    List.Pairwise.nil, fun _ => rfl⟩

theorem runCall_consistent (call : Call σ) (hdb : db.events.Consistent) :
    (runCall enc db call).1.events.Consistent := by
  cases call with
  | record event registration stateChange =>
    exact (recordResourceEvent_spec enc event registration stateChange hdb).consistent hdb
  | setUp => exact hdb
  | write change => exact hdb

theorem runCall_rows (call : Call σ) (hdb : db.events.Consistent) :
    db.events.rows <+: (runCall enc db call).1.events.rows := by
  cases call with
  | record event registration stateChange =>
    exact (recordResourceEvent_spec enc event registration stateChange hdb).rows
  | setUp => exact prefix_rfl
  | write change => exact prefix_rfl

/-- In every run of a connection to a database without the store: all contents are consistent, what is
committed once stays where it is, and every call does what it says on all contents. -/
theorem recordResourceEvent_once (enc : Encodings) (others : σ) (is : List (Command (Call σ))) :
    let s := (eventMachine enc σ).run (.start ⟨none, others⟩) is
    (∀ db ∈ s.contents, db.events.Consistent) ∧
      (∀ js, ∀ db ∈ ((eventMachine enc σ).run s js).contents,
        s.committed.events.rows <+: db.events.rows) ∧
      ∀ db ∈ s.contents, ∀ event registration stateChange,
        RecordSpec enc event registration stateChange db
            (recordResourceEvent enc event registration stateChange db).1
            (recordResourceEvent enc event registration stateChange db).2 ∧
          (db.tables.isSome → ∀ e,
            (recordResourceEvent enc event registration stateChange db).2.result = .error e →
              (recordResourceEvent enc event registration stateChange db).1 = db) := by
  intro s
  have hstart : ∀ db ∈ (Session.start (⟨none, others⟩ : Database σ)).contents,
      db.events.Consistent ∧ (⟨none, others⟩ : Database σ).events.rows <+: db.events.rows := by
    intro db hdb
    cases mem_singleton.1 hdb
    exact ⟨EventTables.consistent_empty, prefix_rfl⟩
  have hinv : ∀ (db : Database σ) (call : Call σ), db.events.Consistent →
      (runCall enc db call).1.events.Consistent := fun _ call => runCall_consistent call
  have hrows : ∀ (db : Database σ) (call : Call σ), db.events.Consistent →
      db.events.rows <+: (runCall enc db call).1.events.rows := fun _ call => runCall_rows call
  have hrun := fun (s : Session (Database σ)) hs js =>
    Session.run_related (s := s) (P := fun db => db.events.Consistent)
      (R := fun db db' => db.events.rows <+: db'.events.rows) (fun _ => prefix_rfl)
      (fun _ _ _ h h' => h.trans h') hinv hrows hs js
  have hs := (hrun _ hstart is).2
  refine ⟨fun db hdb => (hs db hdb).1, fun js db hdb => (hrun s hs js).1 db hdb,
    fun db hdb event registration stateChange => ?_⟩
  have hspec := recordResourceEvent_spec enc event registration stateChange (hs db hdb).1
  refine ⟨hspec, fun htables e he => ?_⟩
  rcases hspec.raised e he with heq | heq
  · exact heq
  · rw [heq, initializeResourceEvents_of_tables htables]

/-- The texts of a store in which nothing is told apart. -/
private def blank : Encodings where
  resourceKey _ := ""
  eventIdentity _ _ _ := ""
  eventJson _ := ""
  eventDigest _ := ""
  registrationJson _ := ""
  registrationDigest _ := ""

private def directory : ResourceIdentity := ⟨⟨"r"⟩, .directory, "d"⟩

private def applied : LifecycleEvent where
  eventId := ""
  operationId := "op"
  phase := .applied
  resource := directory
  source := .docker "s"
  policyVersion := "1"
  evidence := [⟨"e", "d"⟩]
  evidence_ne_nil := cons_ne_nil _ _
  outcome := .allow .retention
  observations := [{}]
  observations_ne_nil := cons_ne_nil _ _
  durableCommittedAt := ⟨0, 0⟩
  transactionRef := "t"

private def registered : Registration where
  resource := directory
  source := .docker "s"
  operation := .retire
  policyVersion := "1"
  evidence := [⟨"e", "d"⟩]
  evidence_ne_nil := cons_ne_nil _ _

/-- A call whose hook fails leaves tables in a database that had none. -/
theorem record_failed_creates_tables :
    ¬ ∀ (db : Database Unit) (stateChange : Option (Unit → Unit × Option String)) (e : Raised),
      (recordResourceEvent blank applied registered stateChange db).2.result = .error e →
        (recordResourceEvent blank applied registered stateChange db).1 = db := by
  intro h
  have hcall := h ⟨none, ()⟩ (some fun _ => ((), some "failed")) (.hook "failed") rfl
  have htables := congrArg (fun db => db.tables.isSome) hcall
  cases htables

end Workbay.Retention

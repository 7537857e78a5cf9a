import Workbay.Data.Dict
import Workbay.Effects.Session
import Workbay.Retention.Contract

/-!
# Resource events

The lifecycle events of resources, recorded inside the transaction of the state change that they report.
An event is stored once; the change itself runs with the first record of it, and both are undone when
one of them fails.
-/

namespace Workbay.Retention

open Workbay.Effects

/-! ## Events -/

/-- The values of `scope`. -/
inductive Scope where
  | execution
  | retention
deriving DecidableEq

/-- `Admission` -/
inductive Admission where
  | allow (scope : Scope)
  | held (scope : Scope) (first : Hold) (rest : List Hold)
deriving DecidableEq

/-- The values of `phase`. -/
inductive Phase where
  | registered
  | planned
  | probed
  | applied
  | failed
  | held
deriving DecidableEq

/-- `LifecycleFacts` -/
structure LifecycleFacts where
  executionTerminal : Proof := {}
  harvested : Proof := {}
  reviewed : Proof := {}
  merged : Proof := {}
  published : Proof := {}
  activated : Proof := {}
  verified : Proof := {}
  custodyAcknowledged : Proof := {}
  retired : Proof := {}
deriving DecidableEq

/-- `ByteAccounting` -/
structure ByteAccounting where
  measuredBytes : Option Nat := none
  estimatedBytes : Option Nat := none
  evidence : List EvidenceRef := []
deriving DecidableEq

/-- `LifecycleEvent`: it has evidence and observations. -/
structure LifecycleEvent where
  eventId : String
  operationId : String
  phase : Phase
  resource : ResourceIdentity
  source : SourceIdentity
  policyVersion : String
  evidence : List EvidenceRef
  evidence_ne_nil : evidence ≠ []
  correlation : Correlation := {}
  outcome : Admission
  facts : LifecycleFacts := {}
  observations : List Proof
  observations_ne_nil : observations ≠ []
  accounting : ByteAccounting := {}
  durableCommittedAt : Timestamp
  transactionRef : String
  syntheticTag : Option String := none

/-- Times are equal as instants. -/
def Timestamp.same (t u : Timestamp) : Bool := t.instant = u.instant

/-- Optional values that are both missing, or the same. -/
def optionSame {α : Type} (same : α → α → Bool) : Option α → Option α → Bool
  | none, none => true
  | some x, some y => same x y
  | _, _ => false

def Proof.same (p q : Proof) : Bool :=
  p.state = q.state && p.evidence = q.evidence && optionSame Timestamp.same p.observedAt q.observedAt &&
    optionSame Timestamp.same p.validUntil q.validUntil

def Correlation.same (c d : Correlation) : Bool :=
  c.workbay = d.workbay && c.orca = d.orca && optionSame Proof.same c.verifiedJoin d.verifiedJoin

/-- The texts that the store keeps for its arguments. -/
structure Encodings where
  resourceKey : ResourceIdentity → String
  eventIdentity : ResourceIdentity → String → Phase → String
  eventJson : LifecycleEvent → String
  eventDigest : LifecycleEvent → String
  registrationJson : Registration → String
  registrationDigest : Registration → String

/-! ## The store -/

/-- A row of `resource_events`. -/
structure EventRow where
  id : Nat
  eventId : String
  resourceKey : String
  ownerRepository : String
  operationId : String
  registrationJson : String
  registrationDigest : String
  payloadJson : String
  payloadDigest : String
  syntheticTag : Option String
  workbay : WorkBayIdentity
  orca : OrcaIdentity
deriving DecidableEq

/-- The tables of the store, with the number that the last row was given. -/
structure EventTables where
  rows : List EventRow := []
  lifecycle : Dict String Nat := []
  sequence : Nat := 0
deriving DecidableEq

/-- The database of the caller: the tables of the store, once they are created, and all other ones. -/
structure Database (σ : Type) where
  tables : Option EventTables
  others : σ
deriving DecidableEq

/-- What is stored; nothing before the tables are created. -/
def Database.events {σ : Type} (db : Database σ) : EventTables := db.tables.getD {}

/-- What a call raises: a refusal with its code, or what the hook raised. -/
inductive Raised where
  | hold (code : String)
  | hook (error : String)
deriving DecidableEq

/-- What a call returns or raises, and whether it ran the hook. -/
structure Recorded where
  result : Except Raised (Nat × Bool)
  hookRan : Bool := false
deriving DecidableEq

variable {σ : Type}

/-- `initialize_resource_events` -/
def initializeResourceEvents (db : Database σ) : Database σ :=
  { db with tables := some db.events }

/-- `_savepoint`: the body of a call is undone when it raises. -/
def withSavepoint (body : Database σ → Database σ × Recorded) (db : Database σ) :
    Database σ × Recorded :=
  match (body db).2.result with
  | .error _ => (db, (body db).2)
  | .ok _ => body db

variable (enc : Encodings)

variable (event : LifecycleEvent)

/-- The row of an event. -/
def rowOf (registration : Registration) (id : Nat) :
    EventRow :=
  { id
    eventId := event.eventId
    resourceKey := enc.resourceKey event.resource
    ownerRepository := event.resource.owner.repository
    operationId := event.operationId
    registrationJson := enc.registrationJson registration
    registrationDigest := enc.registrationDigest registration
    payloadJson := enc.eventJson event
    payloadDigest := enc.eventDigest event
    syntheticTag := event.syntheticTag
    workbay := event.correlation.workbay.getD {}
    orca := event.correlation.orca.getD {} }

/-- The tables with one more row. -/
def EventTables.insert (t : EventTables) (row : EventRow) : EventTables :=
  { t with rows := t.rows ++ [row], sequence := row.id }

/-- The row of the next number, and the hook, and the state of the resource. -/
def insertEvent (registration : Registration)
    (stateChange : Option (σ → σ × Option String)) (t : EventTables) (others : σ) :
    Database σ × Recorded :=
  match stateChange with
  | none =>
    (⟨some { t.insert (rowOf enc event registration (t.sequence + 1)) with
        lifecycle := t.lifecycle.set (enc.resourceKey event.resource) (t.sequence + 1) }, others⟩,
      ⟨.ok (t.sequence + 1, true), false⟩)
  | some hook =>
    match (hook others).2 with
    | some error =>
      (⟨some (t.insert (rowOf enc event registration (t.sequence + 1))), (hook others).1⟩,
        ⟨.error (.hook error), true⟩)
    | none =>
      (⟨some { t.insert (rowOf enc event registration (t.sequence + 1)) with
          lifecycle := t.lifecycle.set (enc.resourceKey event.resource) (t.sequence + 1) },
          (hook others).1⟩,
        ⟨.ok (t.sequence + 1, true), true⟩)

/-- What a call does under its savepoint. -/
def recordRow (registration : Registration)
    (stateChange : Option (σ → σ × Option String)) (db : Database σ) : Database σ × Recorded :=
  match db.events.rows.find? fun row => row.eventId = event.eventId with
  | some prior =>
    if prior.payloadJson ≠ enc.eventJson event then
      (db, ⟨.error (.hold "event_payload_conflict"), false⟩)
    else if prior.registrationJson ≠ enc.registrationJson registration then
      (db, ⟨.error (.hold "registration_changed"), false⟩)
    else (db, ⟨.ok (prior.id, false), false⟩)
  | none =>
    if (db.events.rows.find? fun row => row.resourceKey = enc.resourceKey event.resource &&
        row.operationId = event.operationId).any
          fun prior => prior.registrationJson ≠ enc.registrationJson registration then
      (db, ⟨.error (.hold "registration_changed"), false⟩)
    else if event.syntheticTag.any fun tag => db.events.rows.any fun row =>
        row.ownerRepository = event.resource.owner.repository && row.syntheticTag = some tag then
      (db, ⟨.error (.hold "synthetic_tag_conflict"), false⟩)
    else insertEvent enc event registration stateChange db.events db.others

/-- `record_resource_event`, inside a transaction -/
def recordResourceEvent (registration : Registration)
    (stateChange : Option (σ → σ × Option String)) (db : Database σ) : Database σ × Recorded :=
  if event.eventId ≠ enc.eventIdentity event.resource event.operationId event.phase then
    (db, ⟨.error (.hold "event_identity_mismatch"), false⟩)
  else if event.resource ≠ registration.resource ∨ event.source ≠ registration.source ∨
      event.policyVersion ≠ registration.policyVersion ∨
      event.correlation.same registration.correlation = false then
    (db, ⟨.error (.hold "registration_mismatch"), false⟩)
  else if registration.stream.any fun stream =>
      stream.state = .active && stream.cadenceSeconds = none && stream.deadline = none then
    (db, ⟨.error (.hold "stream_expectation_missing"), false⟩)
  else withSavepoint (recordRow enc event registration stateChange) (initializeResourceEvents db)

/-! ## Callers -/

/-- What the owner of a connection does inside a transaction: it records an event, with a hook for the
state change or without one, or writes its own tables. -/
inductive Call (σ : Type) where
  | record (event : LifecycleEvent) (registration : Registration)
      (stateChange : Option (σ → σ × Option String))
  | setUp
  | write (change : σ → σ)

def runCall (db : Database σ) : Call σ → Database σ × Option Recorded
  | .record event registration stateChange =>
    ((recordResourceEvent enc event registration stateChange db).1,
      some (recordResourceEvent enc event registration stateChange db).2)
  | .setUp => (initializeResourceEvents db, none)
  | .write change => ({ db with others := change db.others }, none)

/-- The machine of a connection. A record outside of a transaction is refused. -/
abbrev eventMachine (σ : Type) :
    Machine (Session (Database σ)) (Command (Call σ)) (Reply (Option Recorded)) :=
  sessionMachine (runCall enc)

end Workbay.Retention

import Workbay.Data.Dict
import Workbay.Effects.System

/-!
# Lifecycle leases

A lease of a resource holds a shared or an exclusive lock on the sidecar file of the resource. An
exclusive lease lends its lock to nested leases of its own thread. The threads of any number of
processes acquire, bind and release leases; what happens under the registry mutex of a process is
one step, and the polls of the lock are steps of their own. Sidecars are never replaced and nobody
forks.
-/

namespace Workbay.Leases

open Effects

/-! ## Leases -/

/-- A thread of a process. -/
structure Thread where
  pid : Nat
  tid : Nat
deriving DecidableEq

/-- A connection that is bound to a lease; only of a SQLite connection it can be seen whether it is
closed. -/
structure Connection where
  id : Nat
  isSqlite : Bool := true
deriving DecidableEq

/-- `LifecycleLease` -/
structure Lease where
  owner : Thread
  resource : String
  exclusive : Bool
  parent : Option Nat := none
  references : Int := 1
  connection : Option Connection := none
  closed : Bool := false
  fd : Option Nat := none
deriving DecidableEq

/-- A lease conveys permission. -/
def Lease.live (l : Lease) : Bool := !l.closed

/-- The lock of an open sidecar. -/
inductive Lock where
  | unlocked
  | shared
  | exclusive
deriving DecidableEq

/-- The lock that a lease asks for. -/
def Lock.ofExclusive (exclusive : Bool) : Lock := if exclusive then .exclusive else .shared

/-- An open sidecar; `pending` is the thread that polls with it, until a lease has it. -/
structure Sidecar where
  resource : String
  lock : Lock := .unlocked
  pending : Option Thread := none
deriving DecidableEq

/-- Why a request is refused. -/
inductive LeaseError where
  | timeout
  | osError
  | cannotUpgrade
  | foreignOwner
  | releasedLease
  | liveBinding
  | escapedBorrower
deriving DecidableEq

/-- The open sidecars and the leases of all processes, which SQLite connections have been closed,
which processes are gone, and which threads have changed the accounting in the request that they
are at. -/
structure LeaseWorld where
  sidecars : Dict (Nat × Nat) Sidecar := []
  leases : Dict Nat Lease := []
  closedConnections : List Nat := []
  gone : List Nat := []
  changed : Thread → Bool := fun _ => false

/-! ## The operations -/

/-- What the first section under the registry mutex finds. -/
inductive Entry where
  | expired
  | borrowed (lease : Nat)
  | cannotUpgrade
  | proceed
deriving DecidableEq

/-- What a poll of the lock finds. -/
inductive Poll where
  | taken
  | busy
  | failed
deriving DecidableEq

/-- The operations of a thread. -/
inductive LeaseOp where
  /-- `_check_deadline` -/
  | checkDeadline
  /-- The first section of `LifecycleLease.__init__` under the registry mutex. -/
  | enterRegistry (resource : String) (exclusive : Bool)
  /-- The section of `_acquire_descriptor` that opens the sidecar and notes it as pending. -/
  | openSidecar (resource : String)
  /-- `flock` with `LOCK_NB` -/
  | flock (fd : Nat) (exclusive : Bool)
  /-- `_sidecar_is_held` -/
  | sidecarIsHeld (fd : Nat)
  /-- `_close_pending_descriptor` -/
  | closePending (fd : Nat)
  /-- The last section of `LifecycleLease.__init__`. -/
  | publish (resource : String) (exclusive : Bool) (fd : Nat)
  | release (lease : Nat)
  | bindConnection (lease : Nat) (connection : Connection)

/-- The answers to the operations. -/
abbrev LeaseOp.Answer : LeaseOp → Type
  | .checkDeadline => Bool
  | .enterRegistry .. => Entry
  | .openSidecar _ => Except LeaseError Nat
  | .flock .. => Poll
  | .sidecarIsHeld _ => Except LeaseError Bool
  | .closePending _ => Unit
  | .publish .. => Option Nat
  | .release _ | .bindConnection .. => Except LeaseError Unit

/-- The programs of a thread. -/
abbrev LeaseM := Prog LeaseOp LeaseOp.Answer LeaseError

/-- The pending descriptor is closed and the exception goes on. -/
def giveUp {α : Type} (fd : Nat) (e : LeaseError) : LeaseM α :=
  .call (.closePending fd) fun _ => .raise e

/-- The polls of `_acquire_descriptor` on one descriptor, of which the deadline leaves time for
`polls`; `none` is a sidecar that is no longer the one at its path. -/
def pollLock (fd : Nat) (exclusive : Bool) : Nat → LeaseM (Option Nat)
  | 0 => giveUp fd .timeout
  | polls + 1 =>
    .call .checkDeadline fun
      | false => giveUp fd .timeout
      | true => .call (.flock fd exclusive) fun
        | .failed => giveUp fd .osError
        | .busy => pollLock fd exclusive polls
        | .taken => .call .checkDeadline fun
          | false => giveUp fd .timeout
          | true => .call (.sidecarIsHeld fd) fun
            | .error e => giveUp fd e
            | .ok false => .call (.closePending fd) fun _ => .ret none
            | .ok true => .call .checkDeadline fun
              | false => giveUp fd .timeout
              | true => .ret (some fd)

/-- `_acquire_descriptor`, with time for so many polls of so many descriptors -/
def acquireDescriptor (resource : String) (exclusive : Bool) (polls : Nat) : Nat → LeaseM Nat
  | 0 => .raise .timeout
  | tries + 1 =>
    .call .checkDeadline fun
      | false => .raise .timeout
      | true => .call (.openSidecar resource) fun
        | .error e => .raise e
        | .ok fd => pollLock fd exclusive polls >>= fun
          | some fd => .ret fd
          | none => acquireDescriptor resource exclusive polls tries

/-- `LifecycleLease.__init__` -/
def acquire (resource : String) (exclusive : Bool) (polls tries : Nat) : LeaseM (Option Nat) :=
  .call .checkDeadline fun
    | false => .raise .timeout
    | true => .call (.enterRegistry resource exclusive) fun
      | .expired => .raise .timeout
      | .borrowed lease => .ret (some lease)
      | .cannotUpgrade => .raise .cannotUpgrade
      | .proceed => acquireDescriptor resource exclusive polls tries >>= fun fd =>
        .call (.publish resource exclusive fd) fun
          | some lease => .ret (some lease)
          | none => giveUp fd .timeout

/-- `release` -/
def release (lease : Nat) : LeaseM (Option Nat) :=
  .call (.release lease) fun
    | .ok () => .ret none
    | .error e => .raise e

/-- `bind_connection` -/
def bindConnection (lease : Nat) (connection : Connection) : LeaseM (Option Nat) :=
  .call (.bindConnection lease connection) fun
    | .ok () => .ret none
    | .error e => .raise e

/-! ## How the operations act -/

/-- What the world alone does not determine: that a deadline has passed or a call of the system
fails, and the number of a new descriptor or lease. -/
inductive LeaseChoice where
  | plain
  | expired
  | fail
  | fresh (n : Nat)
deriving DecidableEq

namespace LeaseWorld

variable (w : LeaseWorld)

/-- The world with a lease. -/
def setLease (id : Nat) (l : Lease) : LeaseWorld :=
  { w with leases := w.leases.set id l }

variable (i : Thread)

/-- The world with an open sidecar. -/
def setSidecar (fd : Nat) (d : Sidecar) : LeaseWorld :=
  { w with sidecars := w.sidecars.set (i.pid, fd) d }

/-- The world without a descriptor; what was locked through it is not locked any more. -/
def closeSidecar (fd : Nat) : LeaseWorld :=
  { w with sidecars := Dict.pop w.sidecars (i.pid, fd) }

/-- A thread has changed the accounting. -/
def noteChange : LeaseWorld :=
  { w with changed := Function.update w.changed i true }

/-- The live leases of a resource that a thread owns. -/
def owned (resource : String) : Dict Nat Lease :=
  w.leases.filter fun e =>
    e.2.live && decide (e.2.owner = i) && decide (e.2.resource = resource)

/-- The exclusive lease among them that has the lock. -/
def ownedRoot (resource : String) : Option (Nat × Lease) :=
  (w.owned i resource).find? fun e => e.2.exclusive && e.2.parent.isNone

/-- A lock of a sidecar is free: no other open sidecar of the resource stands in the way. -/
def isFree (key : Nat × Nat) (exclusive : Bool) (resource : String) : Bool :=
  w.sidecars.all fun e => decide (e.1 = key) || decide (e.2.resource ≠ resource) ||
    decide (e.2.lock = .unlocked) || (!exclusive && decide (e.2.lock = .shared))

/-- `_bound_connection_is_live` -/
def boundConnectionIsLive (l : Lease) : Bool :=
  match l.connection with
  | none => false
  | some c => !(c.isSqlite && decide (c.id ∈ w.closedConnections))

/-- A nested lease of a root. -/
def borrow (id : Nat) (resource : String) (exclusive : Bool)
    (root : Nat × Lease) : LeaseWorld :=
  ((w.setLease root.1 { root.2 with references := root.2.references + 1 }).setLease id
    { owner := i, resource, exclusive, parent := some root.1 }).noteChange i

/-- Why the release of a live lease is refused. -/
def releaseRefusal (l : Lease) : Option LeaseError :=
  if (l.exclusive || l.parent.isSome || l.connection.isSome) && decide (l.owner ≠ i) then
    some .foreignOwner
  else if w.boundConnectionIsLive l then some .liveBinding
  else if l.parent.isNone && decide (1 < l.references) then some .escapedBorrower
  else none

/-- One reference of a root is given up; the last one closes its descriptor. -/
def dropReference (id : Nat) : LeaseWorld :=
  match w.leases.get? id with
  | none => w
  | some root =>
    if root.references - 1 = 0 then
      match root.fd with
      | some fd => (w.setLease id { root with references := 0, fd := none }).closeSidecar i fd
      | none => w.setLease id { root with references := 0 }
    else w.setLease id { root with references := root.references - 1 }

/-- The release of a live lease. -/
def releaseLease (id : Nat) (l : Lease) : LeaseWorld :=
  ((w.setLease id { l with closed := true, connection := none }).dropReference i
    (l.parent.getD id)).noteChange i

/-- Why a connection cannot be bound to a lease, or whether it is bound already. -/
def bindRefusal (w : LeaseWorld) (i : Thread) (l : Lease) : Option LeaseError :=
  if l.owner ≠ i then some .foreignOwner
  else if l.closed then some .releasedLease
  else none

end LeaseWorld

/-- The effect of an operation of a thread whose process is there. -/
def LeaseOp.effect (i : Thread) : Action LeaseOp LeaseOp.Answer LeaseWorld LeaseChoice
  | .checkDeadline, .plain, w => some (true, w)
  | .checkDeadline, .expired, w => some (false, w)
  | .enterRegistry _ _, .expired, w => some (.expired, w)
  | .enterRegistry resource exclusive, .fresh id, w =>
    if w.leases.get? id = none then
      match w.ownedRoot i resource with
      | some root => some (.borrowed id, w.borrow i id resource exclusive root)
      | none =>
        if exclusive && !(w.owned i resource).isEmpty then some (.cannotUpgrade, w)
        else some (.proceed, w)
    else none
  | .openSidecar _, .expired, w => some (.error .timeout, w)
  | .openSidecar _, .fail, w => some (.error .osError, w)
  | .openSidecar resource, .fresh fd, w =>
    if w.sidecars.get? (i.pid, fd) = none then
      some (.ok fd, w.setSidecar i fd { resource, pending := some i })
    else none
  | .flock _ _, .fail, w => some (.failed, w)
  | .flock fd exclusive, .plain, w =>
    match w.sidecars.get? (i.pid, fd) with
    | none => some (.failed, w)
    | some d =>
      if w.isFree (i.pid, fd) exclusive d.resource then
        some (.taken, w.setSidecar i fd { d with lock := .ofExclusive exclusive })
      else some (.busy, w)
  | .sidecarIsHeld _, .plain, w => some (.ok true, w)
  | .sidecarIsHeld _, .fail, w => some (.error .osError, w)
  | .closePending fd, .plain, w =>
    match w.sidecars.get? (i.pid, fd) with
    | none => some ((), w)
    | some d => if d.pending.isSome then some ((), w.closeSidecar i fd) else some ((), w)
  | .publish _ _ _, .expired, w => some (none, w)
  | .publish resource exclusive fd, .fresh id, w =>
    if w.leases.get? id = none then
      match w.sidecars.get? (i.pid, fd) with
      | none => none
      | some d =>
        some (some id, ((w.setSidecar i fd { d with pending := none }).setLease id
          { owner := i, resource, exclusive, fd := some fd }).noteChange i)
    else none
  | .release id, .plain, w =>
    match w.leases.get? id with
    | none => none
    | some l =>
      if l.owner.pid ≠ i.pid then none
      else if l.closed then some (.ok (), w)
      else
        match w.releaseRefusal i l with
        | some e => some (.error e, w)
        | none => some (.ok (), w.releaseLease i id l)
  | .bindConnection id connection, .plain, w =>
    match w.leases.get? id with
    | none => none
    | some l =>
      if l.owner.pid ≠ i.pid then none
      else
        match w.bindRefusal i l with
        | some e => some (.error e, w)
        | none =>
          if l.connection = some connection then some (.ok (), w)
          else if w.boundConnectionIsLive l then some (.error .liveBinding, w)
          else some (.ok (),
            (w.setLease id { l with connection := some connection }).noteChange i)
  | _, _, _ => none

attribute [grind] LeaseOp.effect

/-- How the operations of a thread act. -/
def LeaseOp.act (i : Thread) : Action LeaseOp LeaseOp.Answer LeaseWorld LeaseChoice :=
  fun e c w => if i.pid ∈ w.gone then none else LeaseOp.effect i e c w

/-! ## The system -/

/-- What a thread may be asked for. -/
inductive LeaseRequest where
  | acquire (resource : String) (exclusive : Bool) (polls tries : Nat)
  | release (lease : Nat)
  | bindConnection (lease : Nat) (connection : Connection)

/-- The program of a request. -/
def LeaseRequest.body : LeaseRequest → LeaseM (Option Nat)
  | .acquire resource exclusive polls tries => Leases.acquire resource exclusive polls tries
  | .release lease => Leases.release lease
  | .bindConnection lease connection => Leases.bindConnection lease connection

/-- What happens beside the requests. -/
inductive LeaseEvent where
  /-- A SQLite connection is closed. -/
  | closeConnection (id : Nat)
  /-- A process dies: its descriptors are closed and its leases are gone. -/
  | crash (pid : Nat)
deriving DecidableEq

/-- The effect of an event. -/
def LeaseEvent.effect : LeaseEvent → LeaseWorld → LeaseWorld
  | .closeConnection id, w => { w with closedConnections := id :: w.closedConnections }
  | .crash pid, w =>
    { w with
      sidecars := w.sidecars.filter fun e => e.1.1 ≠ pid
      leases := w.leases.filter fun e => e.2.owner.pid ≠ pid
      gone := pid :: w.gone }

/-- Any number of processes with any number of threads. -/
def leaseSystem : System Thread LeaseRequest LeaseOp LeaseOp.Answer LeaseError (Option Nat)
    LeaseWorld LeaseChoice LeaseEvent where
  act := LeaseOp.act
  body _ r := r.body
  enter i _ w := { w with changed := Function.update w.changed i false }
  env d w := some (d.effect w)

end Workbay.Leases

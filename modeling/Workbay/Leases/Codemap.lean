import Workbay.Data.Fifo
import Workbay.Effects.System
import Mathlib.Data.Rat.Init

/-!
# The lease of a codemap reindex

One process at a time reindexes the code map of a repository. It holds an exclusive lock on a file;
a row of the database has the generation of its lease and the queue of the requested commits. A
request goes to the queue without the lock. A release takes the consumed commits out of the queue,
but only with the generation that the row has; a counter of its own keeps generations from being
used twice.

Everything here is for one repository. A file that is opened has an identity of its own, and the
lock is dropped when the process that holds it dies.
-/

namespace Workbay.Codemap

open Effects

/-! ## The database -/

/-- `_MAX_REQUESTED_SHAS` -/
def maxRequestedShas : Nat := 128

/-- `LEASE_TTL_SECONDS` -/
def leaseTtlSeconds : Rat := 900

/-- A row of `codemap_reindex_lease`; `requestedShas` is `none` when its text cannot be parsed. -/
structure LeaseRow where
  holderPid : Nat
  generation : Nat
  acquiredAt : Rat
  expiresAt : Rat
  targetSha : String
  requestedShas : Option (List String)

/-- What has happened: a lease was granted, a release matched, or a commit was requested and put in
the queue or not. -/
inductive CodemapEvent where
  | granted (pid generation : Nat)
  | released (generation : Int) (consumed : List String)
  | requested (sha : String) (appended : Bool)
deriving DecidableEq

/-- An opened lock file of a process. -/
structure Descriptor where
  pid : Nat
  fd : Nat
deriving DecidableEq

/-- A lease in the hands of a process. -/
structure HeldLease where
  descriptor : Descriptor
  generation : Nat
deriving DecidableEq

/-- The row of the lease, the counter of generations, the lock, the files opened so far, the leases
that are in the hands of processes, the processes that are gone, and what has happened. -/
structure CodemapWorld where
  row : Option LeaseRow := none
  lastGeneration : Option Nat := none
  lock : Option Descriptor := none
  opened : List Descriptor := []
  leases : List HeldLease := []
  gone : List Nat := []
  events : List CodemapEvent := []

variable (w : CodemapWorld)

/-- The queue of the row; without a row there is none. -/
def CodemapWorld.queue : List String :=
  (w.row.bind LeaseRow.requestedShas).getD []

/-- `_next_generation` -/
def nextGeneration : Nat := w.lastGeneration.getD 0 + 1

variable (d : Descriptor)

/-- The transaction of `acquire_reindex_lease`, with `_grant_lease_row`. -/
def grantLeaseRow (now : Rat) : CodemapWorld :=
  { w with
    lastGeneration := some (nextGeneration w)
    row := some {
      holderPid := d.pid, generation := nextGeneration w, acquiredAt := now
      expiresAt := now + leaseTtlSeconds, targetSha := ""
      requestedShas := match w.row with
        | some row => row.requestedShas
        | none => some [] }
    leases := w.leases ++ [⟨d, nextGeneration w⟩]
    events := w.events ++ [.granted d.pid (nextGeneration w)] }

/-- `_placeholder_update_sql` -/
def placeholder (row : LeaseRow) (remaining : List String) : LeaseRow :=
  { row with
    holderPid := 0, generation := 0, acquiredAt := 0, expiresAt := 0, targetSha := ""
    requestedShas := some remaining }

/-- The transaction of `release_reindex_lease`. -/
def releaseRow (generation : Int) (consumed : List String) :
    Bool × CodemapWorld :=
  match w.row with
  | none => (false, w)
  | some row =>
    if (row.generation : Int) ≠ generation then (false, w)
    else
      match row.requestedShas with
      | none => (false, w)
      | some requested =>
        if requested.filter (· ∉ consumed) = [] then
          (true, { w with row := none, events := w.events ++ [.released generation consumed] })
        else
          (true, { w with
            row := some (placeholder row (requested.filter (· ∉ consumed)))
            events := w.events ++ [.released generation consumed] })

/-- The transaction of `request_reindex`. -/
def appendSha (sha : String) : CodemapWorld :=
  match w.row with
  | none =>
    { w with
      row := some {
        holderPid := 0, generation := 0, acquiredAt := 0, expiresAt := 0, targetSha := ""
        requestedShas := some [sha] }
      events := w.events ++ [.requested sha true] }
  | some row =>
    { w with
      row := some { row with
        requestedShas := some (Fifo.push maxRequestedShas (row.requestedShas.getD []) sha) }
      events := w.events ++ [.requested sha (sha ∉ row.requestedShas.getD [])] }

/-! ## The calls -/

/-- What the calls raise. -/
inductive CodemapError where
  | leaseUnavailable
  | sqlite
deriving DecidableEq

/-- The operations of the calls; a transaction is one of them. -/
inductive CodemapOp where
  /-- `_try_acquire_flock` -/
  | tryAcquireFlock
  /-- `_connect` -/
  | connect
  | grant (d : Descriptor) (now : Rat)
  /-- `_unlock_and_close`, of the own file -/
  | unlockOwn (d : Descriptor)
  | releaseRow (generation : Int) (consumed : List String)
  /-- `_unlock_and_close`, of the file of a lease -/
  | unlockLease (fd : Nat)
  | append (sha : String)

/-- The answers to the operations. -/
abbrev CodemapOp.Answer : CodemapOp → Type
  | .tryAcquireFlock => Except CodemapError (Option Descriptor)
  | .connect => Except CodemapError Unit
  | .grant .. => Except CodemapError Nat
  | .unlockOwn _ => Unit
  | .releaseRow .. => Except CodemapError Bool
  | .unlockLease _ => Unit
  | .append _ => Except CodemapError Unit

/-- The programs of a thread. -/
abbrev CodemapM := Prog CodemapOp CodemapOp.Answer CodemapError

/-- What the calls return: a lease, if it is free, whether a release matched, or nothing. -/
inductive CodemapResult where
  | lease (granted : Option HeldLease)
  | released (matched : Bool)
  | requested
deriving DecidableEq

/-- The file is closed and the exception goes on. -/
def giveUp (e : CodemapError) : CodemapM CodemapResult :=
  .call (.unlockOwn d) fun _ => .raise e

/-- The part of `acquire_reindex_lease` behind the transaction. -/
def afterGrant : Except CodemapError Nat → CodemapM CodemapResult
  | .error e => giveUp d e
  | .ok generation => .ret (.lease (some ⟨d, generation⟩))

/-- The part of `acquire_reindex_lease` behind the connection. -/
def afterLockedConnect (now : Rat) :
    Except CodemapError Unit → CodemapM CodemapResult
  | .error e => giveUp d e
  | .ok () => .call (.grant d now) (afterGrant d)

/-- The part of `acquire_reindex_lease` behind the lock. -/
def afterFlock (now : Rat) : Except CodemapError (Option Descriptor) → CodemapM CodemapResult
  | .error e => .raise e
  | .ok none => .ret (.lease none)
  | .ok (some d) => .call .connect (afterLockedConnect d now)

/-- `acquire_reindex_lease` -/
def acquireReindexLease (now : Rat) : CodemapM CodemapResult :=
  .call .tryAcquireFlock (afterFlock now)

/-- The `finally` of `release_reindex_lease`: the file is closed, if there is one. -/
def closing (lockFd : Option Nat) (outcome : Except CodemapError CodemapResult) :
    CodemapM CodemapResult :=
  match lockFd with
  | none => .ofExcept outcome
  | some fd => .call (.unlockLease fd) fun _ => .ofExcept outcome

/-- The body of `release_reindex_lease`. -/
def releaseBody (generation : Int) (consumedShas : Option (List String)) :
    CodemapM CodemapResult :=
  .call .connect fun
    | .error e => .raise e
    | .ok () => .call (.releaseRow generation (consumedShas.getD [])) fun
      | .error e => .raise e
      | .ok matched => .ret (.released matched)

/-- `release_reindex_lease` -/
def releaseReindexLease (generation : Int) (consumedShas : Option (List String))
    (lockFd : Option Nat) : CodemapM CodemapResult :=
  (releaseBody generation consumedShas).attempt (closing lockFd)

/-- `request_reindex` -/
def requestReindex (sha : String) : CodemapM CodemapResult :=
  .call .connect fun
    | .error e => .raise e
    | .ok () => .call (.append sha) fun
      | .error e => .raise e
      | .ok () => .ret .requested

/-! ## How the operations act -/

/-- A thread of a process. -/
structure Worker where
  pid : Nat
  tid : Nat
deriving DecidableEq

/-- What the world alone does not determine: an error, and the number of an opened file. -/
inductive CodemapChoice where
  | plain
  | fail
  | fresh (fd : Nat)
deriving DecidableEq

/-- A file is closed: its lock is dropped, and the lease that it was for is given up. -/
def CodemapWorld.close : CodemapWorld :=
  { w with
    lock := if w.lock = some d then none else w.lock
    leases := w.leases.filter (·.descriptor ≠ d) }

/-- The effect of an operation of a thread whose process is there. -/
def CodemapOp.effect (i : Worker) : Action CodemapOp CodemapOp.Answer CodemapWorld CodemapChoice
  | .tryAcquireFlock, .fail, w => some (.error .leaseUnavailable, w)
  | .tryAcquireFlock, .fresh fd, w =>
    if ⟨i.pid, fd⟩ ∈ w.opened then none
    else
      match w.lock with
      | some _ => some (.ok none, { w with opened := ⟨i.pid, fd⟩ :: w.opened })
      | none =>
        some (.ok (some ⟨i.pid, fd⟩),
          { w with lock := some ⟨i.pid, fd⟩, opened := ⟨i.pid, fd⟩ :: w.opened })
  | .connect, .plain, w => some (.ok (), w)
  | .connect, .fail, w => some (.error .sqlite, w)
  | .grant d now, .plain, w => some (.ok (nextGeneration w), grantLeaseRow w d now)
  | .grant _ _, .fail, w => some (.error .sqlite, w)
  | .unlockOwn d, .plain, w => some ((), w.close d)
  | .releaseRow generation consumed, .plain, w =>
    some (.ok (Codemap.releaseRow w generation consumed).1,
      (Codemap.releaseRow w generation consumed).2)
  | .releaseRow _ _, .fail, w => some (.error .sqlite, w)
  | .unlockLease fd, .plain, w =>
    some ((), if w.leases.any (·.descriptor = ⟨i.pid, fd⟩) then w.close ⟨i.pid, fd⟩ else w)
  | .append sha, .plain, w => some (.ok (), appendSha w sha)
  | .append _, .fail, w => some (.error .sqlite, w)
  | _, _, _ => none

attribute [grind] CodemapOp.effect

/-- A call of one of the three functions. -/
inductive CodemapRequest where
  | acquire (now : Rat)
  | release (generation : Int) (consumedShas : Option (List String)) (lockFd : Option Nat)
  | request (sha : String)

/-- The program of a call. -/
def CodemapRequest.body : CodemapRequest → CodemapM CodemapResult
  | .acquire now => acquireReindexLease now
  | .release generation consumedShas lockFd => releaseReindexLease generation consumedShas lockFd
  | .request sha => requestReindex sha

/-- A process dies: its lock is dropped, and it has no lease any more. -/
def die (pid : Nat) (w : CodemapWorld) : CodemapWorld :=
  { w with
    lock := w.lock.filter (·.pid ≠ pid)
    leases := w.leases.filter (·.descriptor.pid ≠ pid)
    gone := pid :: w.gone }

/-- The threads of any processes; a process may die at any time. -/
def codemapSystem :
    System Worker CodemapRequest CodemapOp CodemapOp.Answer CodemapError CodemapResult CodemapWorld
      CodemapChoice Nat where
  act i e c w := if i.pid ∈ w.gone then none else e.effect i c w
  body _ := CodemapRequest.body
  enter _ _ w := w
  env pid w := some (die pid w)

/-- The threads and the database. -/
abbrev CodemapConfig :=
  Config Worker CodemapOp CodemapOp.Answer CodemapError CodemapResult CodemapWorld

/-- A step of a thread, or the death of a process. -/
abbrev CodemapLabel := Label Worker CodemapRequest CodemapChoice Nat

/-! ## What has happened -/

/-- The generations that were granted, in order. -/
def granted (events : List CodemapEvent) : List Nat :=
  events.filterMap fun
    | .granted _ generation => some generation
    | _ => none

/-- The lease in force: the last one granted, unless a release has matched since. -/
def inForce (events : List CodemapEvent) : Option Nat :=
  events.foldl (fun current event =>
    match event with
    | .granted _ generation => some generation
    | .released _ _ => none
    | .requested _ _ => current) none

/-- The commits that were requested. -/
def requestedShas (events : List CodemapEvent) : List String :=
  events.filterMap fun
    | .requested sha _ => some sha
    | _ => none

/-- A matching release has listed a commit as consumed. -/
def Consumed (sha : String) (events : List CodemapEvent) : Prop :=
  ∃ generation shas, .released generation shas ∈ events ∧ sha ∈ shas

/-- A request has put a commit in the queue, and it was not consumed since. -/
def Pending (sha : String) (events : List CodemapEvent) : Prop :=
  ∃ before after, events = before ++ .requested sha true :: after ∧ ¬ Consumed sha after

end Workbay.Codemap

import Workbay.Effects.Machine
import Workbay.Reservation.Record

/-!
# Host reservations: the operations of the store

An operation runs under the lock of the store: it reads the state, sweeps the records that have
ended, acts and writes the state. What it writes is a list, and an operation that is interrupted
has written a part of it, from the front.
-/

namespace Workbay.Reservation

/-! ## What an operation meets -/

/-- `config.json` -/
inductive ConfigFile where
  | absent
  | unreadable
  /-- It holds a value that is no object. -/
  | noObject
  | fields (maxHoldS laneWindowS : Value)

/-- What an operation meets besides the files of the store. -/
structure Env where
  /-- Why the lock is not taken. -/
  lockRefusal : Option String := .none
  /-- What the clock says. -/
  clock : Value
  config : ConfigFile
  /-- `uuid.uuid4().hex` -/
  uuid : HexId

/-- The answer to an operation. -/
inductive Answer where
  | record (r : Record)
  | refusal (reason : String)
  /-- `reservation_conflict` -/
  | conflict (reservationId : String)
  /-- `lane_window` -/
  | laneWindow (windowEnd : Number)
  | status (reservations : List Record) (seq : Nat) (laneWindowUntil : Option Number)
      (deferrals : Dict String Nat) (terminalCount : Nat)
  | deferred (reservationId : String) (deferrals : Nat)
  /-- An exception that the operation does not catch. -/
  | raised (exception : String)
deriving DecidableEq

/-- `UNREADABLE` -/
def unreadable : Answer := .refusal "store_unreadable"

/-- The exceptions of an action: those that the operation catches, and `OverflowError`. -/
inductive Exn where
  | caught
  | overflowError
deriving DecidableEq

/-- What an action does to the state in memory, what it writes and its answer. -/
abbrev Acted := Except Exn (Store × List Write × Answer)

variable (s : Store)

/-- An action that refuses. -/
def refuse (reason : String) : Acted := .ok (s, [], .refusal reason)

/-- `a + b` -/
def add (a b : Number) : Except Exn Number :=
  match Number.add? a b with
  | some c => .ok c
  | .none => .error .overflowError

/-! ## The sweep -/

/-- What has become of a live record that has ended. -/
def endedState (now : Number) (r : Record) : RecordState :=
  if r.expiresAt ≤ now then .reservationExpired
  else if r.state = .pending ∧ r.drainDeadline ≤ now then .drainTimeout
  else r.state

variable (lib : Library)

/-- The sweep of one record: its receipt is authoritative, and a live record may have ended.
`none` when the receipt is not one of this record. -/
def sweepRecord (d : Disk) (s : Store) (now : Number) (r : Record) :
    Option (Record × List Write) :=
  match d.receipt r.id with
  | some saved =>
    if validRecord lib saved = false ∨ saved.id ≠ r.id ∨ saved.state.isLive then .none
    else some (r.update saved, [])
  | .none =>
    if r.state.isLive = false ∨ (endedState now r).isLive then some (r, [])
    else
      let ended := { r with state := endedState now r, endedAt := some now }
      some (ended, [.receipt (s.receiptOf ended)])

/-- The sweep: what is written, and the records, unless a receipt is not one of its record. -/
def sweepAll (lib : Library) (d : Disk) (s : Store) (now : Number) :
    Dict String Record → List Write × Option (Dict String Record)
  | [] => ([], some [])
  | (id, r) :: rest =>
    match sweepRecord lib d s now r with
    | .none => ([], .none)
    | some (r', writes) =>
      let swept := sweepAll lib d s now rest
      (writes ++ swept.1, swept.2.map ((id, r') :: ·))

/-! ## `reserve` -/

/-- The arguments of `reserve`. -/
structure Request where
  owner : Value
  purpose : Value
  cpu : Value
  memoryBytes : Value
  exclusive : Value
  ttlS : Value
  maxDrainS : Value
  objective : Value := .none
  startAt : Value := .none

/-- The arguments of `reserve` that were accepted. -/
structure Terms where
  owner : String
  purpose : String
  cpu : Number
  memoryBytes : Int
  exclusive : Bool
  ttlS : Number
  maxDrainS : Number
  objective : Option String
  startAt : Option String
deriving DecidableEq

/-- A text that is not blank. -/
def readText (field : String) : Value → Except String String
  | .str s => if Text.strip s = "" then .error field else .ok s
  | _ => .error field

/-- A positive number. -/
def readNumber (field : String) : Value → Except String Number
  | .num n => if isNumber true n then .ok n else .error field
  | _ => .error field

/-- A positive integer. -/
def readMemory : Value → Except String Int
  | .num (.int n) => if 0 < n then .ok n else .error "memory_bytes"
  | _ => .error "memory_bytes"

/-- A flag. -/
def readExclusive : Value → Except String Bool
  | .bool b => .ok b
  | _ => .error "exclusive"

/-- A text, if there is one. -/
def readObjective : Value → Except String (Option String)
  | .none => .ok .none
  | .str s => .ok (some s)
  | _ => .error "objective"

/-- A notice, if there is one. -/
def readStart : Value → Except String (Option String)
  | .none => .ok .none
  | .str s => if isStart lib (some s) then .ok (some s) else .error "start_at"
  | _ => .error "start_at"

/-- The refusals of `reserve` name the first argument that is not accepted. -/
def Request.terms (q : Request) : Except String Terms := do
  let owner ← readText "owner" q.owner
  let purpose ← readText "purpose" q.purpose
  let cpu ← readNumber "cpu" q.cpu
  let ttlS ← readNumber "ttl_s" q.ttlS
  let maxDrainS ← readNumber "max_drain_s" q.maxDrainS
  let memoryBytes ← readMemory q.memoryBytes
  let exclusive ← readExclusive q.exclusive
  let objective ← readObjective q.objective
  let startAt ← readStart lib q.startAt
  return { owner, purpose, cpu, memoryBytes, exclusive, ttlS, maxDrainS, objective, startAt }

/-- `max_hold_s` of the configuration -/
def ConfigFile.maxHoldS : ConfigFile → Option Int
  | .fields (.num (.int n)) _ => if 0 < n then some n else .none
  | _ => .none

/-- The notice begins when the hold has already ended. -/
def startsBeyondHold (now : Number) (hold : Int) : Option Number → Except Exn Bool
  | .none => .ok false
  | some epoch => (add now (.int hold)).map fun limit => decide (limit ≤ epoch)

/-- `expires_at` of a new record -/
def newExpiresAt (now ttlS : Number) (hold : Int) : Except Exn Number := do
  return Number.min (← add now ttlS) (← add now (.int hold))

/-- `drain_deadline` of a new record -/
def newDrainDeadline (now maxDrainS : Number) : Option Number → Except Exn Number
  | .none => add now maxDrainS
  | some epoch => add (Number.max now epoch) maxDrainS

/-- The record that `reserve` makes. -/
def newRecord (id : String) (seq : Nat) (t : Terms) (now : Number) (hold : Int) :
    Except Exn Record := do
  let expiresAt ← newExpiresAt now t.ttlS hold
  let drainDeadline ← newDrainDeadline now t.maxDrainS (t.startAt.bind (startEpoch lib))
  return {
    id, seq, expiresAt, drainDeadline
    owner := t.owner
    purpose := t.purpose
    cpu := t.cpu
    memoryBytes := t.memoryBytes
    exclusive := t.exclusive
    ttlS := t.ttlS
    maxDrainS := t.maxDrainS
    maxHoldS := .int hold
    objective := t.objective
    startAt := t.startAt
    createdAt := now
    renewedAt := now
    state := .pending }

variable (r : Record)

/-- A live exclusive record. -/
def isExclusiveLive : Bool := r.exclusive && r.state.isLive

/-- The record that stands in the way of an exclusive one. -/
def conflicting (exclusive : Bool) (s : Store) : Option Record :=
  (Store.bySeq s.records).find? fun r => exclusive && isExclusiveLive r

/-- The state with a new record. -/
def Store.insert (r : Record) : Store :=
  { s with seq := s.seq + 1, reservations := s.reservations.set r.id r }

/-- `reserve`, of arguments that were accepted -/
def reserveTerms (id : String) (t : Terms) (hold : Int) (s : Store)
    (now : Number) : Acted := do
  if ← startsBeyondHold now hold (t.startAt.bind (startEpoch lib)) then
    refuse s "invalid_request:start_at_beyond_hold"
  else
    match conflicting t.exclusive s with
    | some r => .ok (s, [], .conflict r.id)
    | .none => (newRecord lib id (s.seq + 1) t now hold).map fun r => (s.insert r, [], .record r)

variable (env : Env)

/-- `reserve` -/
def reserve (q : Request) (s : Store) (now : Number) : Acted :=
  match q.terms lib with
  | .error field => refuse s ("invalid_request:" ++ field)
  | .ok t =>
    match env.config.maxHoldS with
    | .none => refuse s "max_hold_unconfigured"
    | some hold => reserveTerms lib env.uuid.1 t hold s now

/-! ## `renew` and `release` -/

/-- A record by its identifier, or why there is none. -/
def Store.find : Value → Except String Record
  | .str id =>
    match s.reservations.get? id with
    | some r => .ok r
    | .none => .error "not_found"
  | _ => .error "invalid_request:id"

/-- `_owned` -/
def Store.owned (id owner : Value) : Except String Record :=
  match s.find id with
  | .error reason => .error reason
  | .ok r => if owner = .str r.owner then .ok r else .error "not_owner"

/-- The state with a record in place of the one with its identifier. -/
def Store.put (r : Record) : Store :=
  { s with reservations := s.reservations.set r.id r }

/-- The refusal of what only a live record allows. -/
def notLive : String := "not_live:" ++ r.state.text

/-- `expires_at` of a renewed record -/
def renewedExpiresAt (now ttlS : Number) : Except Exn Number := do
  return Number.min (← add now ttlS) (← add r.createdAt r.maxHoldS)

/-- `renew` -/
def renew (id owner ttlS : Value) (s : Store) (now : Number) : Acted :=
  match s.owned id owner with
  | .error reason => refuse s reason
  | .ok r =>
    if r.state.isLive = false then refuse s (notLive r)
    else
      match readNumber "ttl_s" ttlS with
      | .error field => refuse s ("invalid_request:" ++ field)
      | .ok ttlS => (renewedExpiresAt r now ttlS).map fun expiresAt =>
          let renewed := { r with ttlS := ttlS, renewedAt := now, expiresAt := expiresAt }
          (s.put renewed, [], .record renewed)

/-- `_receipt`: the receipt is written unless there is one, and read back. -/
def receipt (d : Disk) (s : Store) (r : Record) : List Write × Answer :=
  ([.receipt (s.receiptOf r)], .record ((d.receipt r.id).getD (s.receiptOf r)))

/-- `release` -/
def release (d : Disk) (id owner : Value) (s : Store) (now : Number) : Acted :=
  match s.owned id owner with
  | .error reason => refuse s reason
  | .ok r =>
    if r.state = .released then .ok (s, receipt d s r)
    else if r.state.isLive = false then refuse s (notLive r)
    else
      let released := { r with state := .released, endedAt := some now }
      .ok (s.put released, receipt d (s.put released) released)

/-! ## `grant` -/

/-- `CAPS` of a lane, a record or the gauges. -/
structure Caps where
  cpu : Value
  memoryBytes : Value

/-- The capacity that a record asks for. -/
def Record.caps : Caps := ⟨.num r.cpu, .num (.int r.memoryBytes)⟩

/-- The names of the capacities, with how they are read. -/
def capKeys : List (String × (Caps → Value)) :=
  [("cpu", Caps.cpu), ("memory_bytes", Caps.memoryBytes)]

/-- `_number(value, False)`, with the number -/
def gauge? : Value → Option Number
  | .num n => if isNumber false n then some n else .none
  | _ => .none

variable (items : List (Option Caps))

/-- Some value of a capacity is not known. `none` is an item that is no dictionary. -/
def isUnknown (gauges : Caps) (key : String × (Caps → Value)) : Bool :=
  (gauge? (key.2 gauges)).isNone || items.any fun item => (item.bind fun c => gauge? (key.2 c)).isNone

/-- The items ask for more of a capacity than there is. -/
def isExceeded (gauges : Caps)
    (key : String × (Caps → Value)) : Except Exn Bool :=
  match lib.sum (items.filterMap fun item => item.bind fun c => gauge? (key.2 c)),
      gauge? (key.2 gauges) with
  | some total, some gauge => .ok (decide (gauge < total))
  | .none, _ => .error .overflowError
  | _, .none => .ok false

/-- The first capacity that is exceeded. -/
def firstExceeded (lib : Library) (items : List (Option Caps)) (gauges : Caps) :
    List (String × (Caps → Value)) → Except Exn (Option String)
  | [] => .ok .none
  | key :: keys =>
    match isExceeded lib items gauges key with
    | .error e => .error e
    | .ok true => .ok (some ("capacity:" ++ key.1))
    | .ok false => firstExceeded lib items gauges keys

/-- `_capacity` -/
def capacity (gauges : Caps) :
    Except Exn (Option String) :=
  match capKeys.find? (isUnknown items gauges) with
  | some key => .ok (some ("unknown_gauge:" ++ key.1))
  | .none => firstExceeded lib items gauges capKeys

/-- When a record that has ended did so. -/
def Record.endedOrRenewed : Number := r.endedAt.getD r.renewedAt

/-- The order in which `lane_window_until` takes the last record. -/
def endedBefore (a b : Record) : Bool :=
  decide (a.endedOrRenewed < b.endedOrRenewed) ||
    (decide (a.endedOrRenewed ≤ b.endedOrRenewed) && decide (a.seq < b.seq))

/-- The last of some records; `max` keeps the first among equals. -/
def lastEnded : List Record → Option Record
  | [] => .none
  | r :: rs => some (rs.foldl (fun last r => if endedBefore last r then r else last) r)

/-- `lane_window_until` -/
def laneWindowUntil (laneWindowS : Value) : Except Exn (Option Number) :=
  match laneWindowS with
  | .num (.int duration) =>
    if duration ≤ 0 then .ok .none
    else
      match lastEnded (s.records.filter fun r => r.exclusive && !r.state.isLive) with
      | .none => .ok .none
      | some last =>
        if s.deferrals.getD last.id 0 = 0 then .ok .none
        else (add last.endedOrRenewed (.int duration)).map some
  | _ => .ok .none

/-- `_window_until` -/
def windowUntil (s : Store) : Except Exn (Option Number) :=
  match env.config with
  | .absent => laneWindowUntil s .none
  | .unreadable | .noObject => .error .caught
  | .fields _ laneWindowS => laneWindowUntil s laneWindowS

/-- The live records that were made before a record. -/
def earlier (r : Record) : List Record :=
  s.records.filter fun x => x.state.isLive && decide (x.seq < r.seq)

/-- Why a pending record is not granted yet. -/
def notGranted (running : List (Option Caps)) (gauges : Caps) (s : Store)
    (r : Record) (now : Number) (windowEnd : Option Number) : Except Exn (Option Answer) :=
  match windowEnd.filter fun u => decide (now < u) with
  | some u => .ok (some (.laneWindow u))
  | .none =>
    if ((r.startAt.bind (startEpoch lib)).any fun epoch => decide (now < epoch)) = true then
      .ok (some (.refusal "not_started"))
    else if (earlier s r).any Record.exclusive || (r.exclusive && !(earlier s r).isEmpty) then
      .ok (some (.refusal "draining"))
    else if r.exclusive then
      .ok (if running.isEmpty then .none else some (.refusal "draining"))
    else
      (capacity lib (running ++ (earlier s r ++ [r]).map fun x => some x.caps) gauges).map
        fun reason => reason.map .refusal

/-- Only an exclusive record waits for the lane window. -/
def grantWindow (s : Store) (r : Record) : Except Exn (Option Number) :=
  if r.exclusive then windowUntil env s else .ok .none

/-- `grant` -/
def grant (id : Value) (running : List (Option Caps)) (gauges : Caps)
    (s : Store) (now : Number) : Acted :=
  match s.find id with
  | .error reason => refuse s reason
  | .ok r =>
    if r.state = .granted then .ok (s, [], .record r)
    else if r.state ≠ .pending then refuse s (notLive r)
    else do
      let windowEnd ← grantWindow env s r
      match ← notGranted lib running gauges s r now windowEnd with
      | some answer => .ok (s, [], answer)
      | .none =>
        let granted := { r with state := .granted, grantedAt := some now }
        .ok (s.put granted, [], .record granted)

/-! ## The other actions -/

/-- `status` -/
def status (s : Store) : Acted :=
  (windowUntil env s).map fun windowEnd =>
    (s, [], .status (Store.bySeq (s.records.filter fun r => r.state.isLive)) s.seq windowEnd
      s.deferrals (s.records.countP fun r => !r.state.isLive))

/-- `record_deferral` -/
def recordDeferral (id : Value) (s : Store) : Acted :=
  match s.find id with
  | .error reason => refuse s reason
  | .ok r =>
    if r.state.isLive = false then refuse s (notLive r)
    else
      let count := s.deferrals.getD r.id 0 + 1
      .ok ({ s with deferrals := s.deferrals.set r.id count }, [], .deferred r.id count)

/-- `lookup`, which `_wait` polls -/
def lookup (d : Disk) (id owner : Value) (s : Store) : Acted :=
  match s.owned id owner with
  | .error reason => refuse s reason
  | .ok r => .ok (s, if r.state.isLive then ([], .record r) else receipt d s r)

/-! ## The operations -/

/-- The operations of the store. -/
inductive Call where
  | reserve (q : Request)
  | renew (id owner ttlS : Value)
  | release (id owner : Value)
  | grant (id now : Value) (running : List (Option Caps)) (gauges : Caps)
  | status
  | recordDeferral (id : Value)
  | lookup (id owner : Value)

/-- The action of an operation. -/
def Call.action (d : Disk) (s : Store) (now : Number) : Call → Acted
  | .reserve q => Reservation.reserve lib env q s now
  | .renew id owner ttlS => Reservation.renew id owner ttlS s now
  | .release id owner => Reservation.release d id owner s now
  | .grant id _ running gauges => Reservation.grant lib env id running gauges s now
  | .status => Reservation.status env s
  | .recordDeferral id => Reservation.recordDeferral id s
  | .lookup id owner => Reservation.lookup d id owner s

/-- The time of an operation: only `grant` may be told one. -/
def Call.time : Call → Value
  | .grant _ now _ _ => if now = .none then env.clock else now
  | _ => env.clock

/-- What an operation writes after the sweep, and its answer. The state is written last. -/
def finish : Acted → List Write × Answer
  | .error .overflowError => ([], .raised "OverflowError")
  | .error .caught => ([], unreadable)
  | .ok (s, writes, answer) =>
    if s.isDumpable then (writes ++ [.state s.sorted], answer) else (writes, unreadable)

/-- An operation on a state that was read, at a time that was accepted. -/
def operate (call : Call) (d : Disk) (s : Store) (now : Number) :
    List Write × Answer :=
  match sweepAll lib d s now s.reservations with
  | (writes, .none) => (writes, unreadable)
  | (writes, some reservations) =>
    let done := finish (call.action lib env d { s with reservations } now)
    (writes ++ done.1, done.2)

/-- `_operation`: what is written, in this order, and the answer -/
def operation (lib : Library) (env : Env) (call : Call) (d : Disk) : List Write × Answer :=
  match env.lockRefusal with
  | some reason => ([], .refusal reason)
  | .none =>
    match d.read lib with
    | .none => ([], unreadable)
    | some s =>
      match gauge? (call.time env) with
      | .none => ([], .refusal "invalid_request:now")
      | some now => operate lib env call d s now

/-- An operation that is called, and after how many writes it is interrupted, if it is. -/
structure Input where
  env : Env
  call : Call
  interrupted : Option Nat := .none

/-- How many of the writes are done. -/
def Input.written (i : Input) (writes : List Write) : List Write :=
  match i.interrupted with
  | .none => writes
  | some n => writes.take n

/-- The store as a machine; an operation that is interrupted, by a crash or a file system that
fails, gives no answer. -/
def machine : Effects.Machine Disk Input (Option Answer) where
  step d i :=
    let done := operation lib i.env i.call d
    (d.applyAll (i.written done.1), if i.interrupted.isNone then some done.2 else .none)

end Workbay.Reservation

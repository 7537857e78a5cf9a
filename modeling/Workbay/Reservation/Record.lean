import Workbay.Data.Dict
import Workbay.Data.Number
import Workbay.Data.Text
import Mathlib.Data.List.Sort

/-!
# Host reservations: records and the file that keeps them
-/

namespace Workbay.Reservation

/-- A value that a caller, the clock or the configuration hands over. -/
inductive Value where
  | none
  | bool (b : Bool)
  | num (n : Number)
  | str (s : String)
  | other
deriving DecidableEq

/-- What the library of the interpreter computes. -/
structure Library where
  /-- `datetime.fromisoformat(text.replace("Z", "+00:00")).timestamp()`, of a text with an offset -/
  timestamp : String → Option ℚ
  /-- `sum`, whose rounding depends on the version; `none` is an `OverflowError` -/
  sum : List Number → Option Number

/-! ## Records -/

/-- The states of a reservation. -/
inductive RecordState where
  | pending
  | granted
  | released
  | reservationExpired
  | drainTimeout
deriving DecidableEq

namespace RecordState

/-- `LIVE` -/
def isLive : RecordState → Bool
  | pending | granted => true
  | released | reservationExpired | drainTimeout => false

/-- The text of a state. -/
def text : RecordState → String
  | pending => "pending"
  | granted => "granted"
  | released => "released"
  | reservationExpired => "reservation_expired"
  | drainTimeout => "drain_timeout"

end RecordState

/-- A reservation. `endedAt` is there once it has ended, `deferrals` once it was read from its
receipt. -/
structure Record where
  id : String
  owner : String
  purpose : String
  cpu : Number
  memoryBytes : Int
  exclusive : Bool
  ttlS : Number
  maxDrainS : Number
  maxHoldS : Number
  objective : Option String
  startAt : Option String
  createdAt : Number
  renewedAt : Number
  expiresAt : Number
  drainDeadline : Number
  state : RecordState
  seq : Nat
  grantedAt : Option Number := .none
  endedAt : Option Number := .none
  deferrals : Option Nat := .none
deriving DecidableEq

/-- `_number` -/
def isNumber (positive : Bool) (n : Number) : Bool :=
  n.isFinite && if positive then decide (.int 0 < n) else decide (.int 0 ≤ n)

/-- `_start_epoch` -/
def startEpoch (lib : Library) (text : String) : Option Number :=
  if 'T' ∈ text.toList then (lib.timestamp text).map .float else .none

/-- `_start` -/
def isStart (lib : Library) (startAt : Option String) : Bool :=
  startAt.all fun text => (startEpoch lib text).isSome

/-- `uuid4().hex` -/
def isHexId (id : String) : Bool :=
  id.toList.length = 32 && id.toList.all fun c => decide (c ∈ "0123456789abcdef".toList)

/-- An identifier as `uuid4` makes it. -/
def HexId := { id : String // isHexId id = true }

/-- `_valid_record` -/
def validRecord (lib : Library) (r : Record) : Bool :=
  isHexId r.id && decide (Text.strip r.owner ≠ "") && decide (Text.strip r.purpose ≠ "")
    && isNumber true r.cpu && decide (0 < r.memoryBytes)
    && [r.ttlS, r.maxDrainS, r.maxHoldS].all (isNumber true)
    && [r.createdAt, r.renewedAt, r.expiresAt, r.drainDeadline].all (isNumber false)
    && decide (0 < r.seq) && r.grantedAt.all (isNumber false) && r.endedAt.all (isNumber false)
    && isStart lib r.startAt

/-- `r.update(saved)` -/
def Record.update (r saved : Record) : Record :=
  { saved with endedAt := saved.endedAt <|> r.endedAt, deferrals := saved.deferrals <|> r.deferrals }

/-! ## The state file -/

/-- The content of `state.json`. -/
structure Store where
  schemaVersion : Int := 1
  seq : Nat := 0
  reservations : Dict String Record := []
  deferrals : Dict String Nat := []
deriving DecidableEq

namespace Store

/-- The records of a state. -/
def records (s : Store) : List Record := s.reservations.map Prod.snd

/-- A record is kept under its own identifier and was numbered by the state. -/
def keeps (lib : Library) (s : Store) (entry : String × Record) : Bool :=
  validRecord lib entry.2 && entry.1 = entry.2.id && decide (entry.2.seq ≤ s.seq)

/-- The assertions of `_read`. -/
def isAccepted (lib : Library) (s : Store) : Bool :=
  s.schemaVersion = 1 && s.reservations.all (s.keeps lib)
    && decide (s.records.map Record.seq).Nodup
    && s.deferrals.all fun entry => decide (entry.1 ∈ s.reservations.map Prod.fst)

/-- `sort_keys=True` -/
def sorted (s : Store) : Store :=
  { s with
    reservations := s.reservations.insertionSort fun a b => a.1 ≤ b.1
    deferrals := s.deferrals.insertionSort fun a b => a.1 ≤ b.1 }

/-- The records by their numbers. -/
def bySeq (rs : List Record) : List Record := rs.insertionSort fun a b => a.seq ≤ b.seq

end Store

/-- The numbers of a record that are computed or told by the clock. -/
def Record.numbers (r : Record) : List Number :=
  [r.cpu, r.ttlS, r.maxDrainS, r.maxHoldS, r.createdAt, r.renewedAt, r.expiresAt, r.drainDeadline]
    ++ r.grantedAt.toList ++ r.endedAt.toList

/-- `json.dump(…, allow_nan=False)` writes the state. -/
def Store.isDumpable (s : Store) : Bool :=
  s.records.all fun r => r.numbers.all fun n => decide (n ≠ .inf)

/-! ## The directory -/

/-- The files of the store. -/
structure Disk where
  state : Option Store := .none
  receipts : Dict String Record := []
deriving DecidableEq

/-- What an operation writes: a receipt, which is linked only if there is none yet, or the state,
which is replaced. -/
inductive Write where
  | receipt (r : Record)
  | state (s : Store)
deriving DecidableEq

namespace Disk

/-- The effect of one write. -/
def apply (d : Disk) : Write → Disk
  | .receipt r => { d with receipts := Dict.setDefault d.receipts r.id r }
  | .state s => { d with state := some s }

/-- The effect of some writes. -/
def applyAll (d : Disk) (writes : List Write) : Disk := writes.foldl apply d

/-- `_read` -/
def read (lib : Library) (d : Disk) : Option Store :=
  match d.state with
  | .none => some {}
  | some s => if s.isAccepted lib then some s else .none

/-- The receipt of a record, if it is there. -/
def receipt (d : Disk) (id : String) : Option Record := d.receipts.get? id

end Disk

/-- The receipt that is written for a record. -/
def Store.receiptOf (s : Store) (r : Record) : Record :=
  { r with deferrals := some (s.deferrals.getD r.id 0) }

end Workbay.Reservation

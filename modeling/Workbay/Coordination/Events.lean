import Workbay.Data.Json

/-!
# Coordination events and the holds that wait for them

`event` releases the live holds whose match object fits the fields of the event, `wait` returns the
first event of the log that fits a match object of its own.
-/

namespace Workbay.Coordination

/-- The members of a JSON object. -/
abbrev Fields := Dict String Json

/-! ## Equality of JSON values -/

mutual

/-- `_json_equal` -/
def jsonEqual : Json → Json → Bool
  | .null, .null => true
  | .bool a, .bool b => a == b
  | .int a, .int b => a == b
  | .float neg digits exp, .float neg' digits' exp' =>
    (neg == neg' && digits == digits' && exp == exp') || (digits == 0 && digits' == 0)
  | .str s, .str t => s == t
  | .arr xs, .arr ys => xs.length == ys.length && jsonEqualZip xs ys
  | .obj xs, .obj ys =>
    decide (∀ key, key ∈ xs.map Prod.fst → key ∈ ys.map Prod.fst)
      && decide (∀ key, key ∈ ys.map Prod.fst → key ∈ xs.map Prod.fst) && jsonEqualItems xs ys
  | _, _ => false

/-- `all(_json_equal(a, b) for a, b in zip(left, right))` -/
def jsonEqualZip : List Json → List Json → Bool
  | x :: xs, y :: ys => jsonEqual x y && jsonEqualZip xs ys
  | _, _ => true

/-- `all(_json_equal(value, right[key]) for key, value in left.items())` -/
def jsonEqualItems : Fields → Fields → Bool
  | [], _ => true
  | (key, x) :: xs, ys =>
    ((ys.get? key).all fun y => jsonEqual x y) && jsonEqualItems xs ys

end

/-! ## Holds -/

/-- A record of `holds`. -/
structure HoldRecord where
  resource : String
  owner : String
  token : Int
  expiresAt : ℚ
  untilEvent : Option String
  matching : Option Fields
  released : Bool := false
  releaseReason : Option String := none

/-- `_expire_locked`, of one record -/
def HoldRecord.expire (now : ℚ) (record : HoldRecord) : HoldRecord :=
  if record.released = false ∧ record.expiresAt ≤ now then
    { record with released := true, releaseReason := some "expired" }
  else record

/-- `all(_json_equal(fields.get(key), value) for key, value in match.items())` -/
def fits (matching fields : Fields) : Bool :=
  matching.all fun (key, value) => jsonEqual (fields.getD key .null) value

variable (kind : String)

/-- The hold waits for an event of this kind with these fields. -/
def HoldRecord.awaits (fields : Fields) (now : ℚ) (record : HoldRecord) : Bool :=
  !record.released && decide (now < record.expiresAt) && decide (record.untilEvent = some kind)
    && fits (record.matching.getD []) fields

/-- The hold after the event, unless it goes on. -/
def HoldRecord.settle (fields : Fields) (eventId : String) (now : ℚ)
    (record : HoldRecord) : HoldRecord :=
  if record.awaits kind fields now then
    { record with released := true, releaseReason := some ("until_event:" ++ eventId) }
  else record

/-- `event`, on the holds of the state -/
def event (fields : Fields) (eventId : String) (now : ℚ) (holds : List HoldRecord) :
    List HoldRecord :=
  (holds.map (·.expire now)).map (·.settle kind fields eventId now)

/-! ## The log -/

/-- A line of the log that was read; `fields` is missing where it is no object. -/
structure EventRecord where
  kind : String
  seq : Int
  fields : Option Fields

/-- An event that `wait` returns. -/
def EventRecord.isAwaited (matching : Option Fields) (afterSeq : Int)
    (record : EventRecord) : Bool :=
  match record.fields with
  | none => false
  | some fields => decide (afterSeq < record.seq) && decide (record.kind = kind)
      && matching.all fun matching => fits matching fields

/-- One scan of `wait` -/
def wait (matching : Option Fields) (afterSeq : Int) (log : List EventRecord) :
    Option EventRecord :=
  log.find? (·.isAwaited kind matching afterSeq)

end Workbay.Coordination

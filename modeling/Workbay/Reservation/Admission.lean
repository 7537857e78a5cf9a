import Workbay.Reservation.Operations

/-!
# Host reservations: the admission of a lane

A live reservation stops a lane that comes after it, or takes its part of the capacity.
-/

namespace Workbay.Reservation

/-- A lane that asks to be admitted. A key that is missing is `none`. -/
structure Candidate where
  enqueuedSeq : Value := .none
  enqueuedAt : Value := .none
  expectedRuntimeS : Value := .none
  caps : Caps

/-- What a lane is told. A deferral names the reservation that it waits for, if there is one. -/
inductive Verdict where
  | admitted
  | defer (r : Option Record) (reason : String)
deriving DecidableEq

/-- `_AdmissionReservations`; what is no list of records is `none`. -/
structure View where
  records : Option (List Record)
  laneWindowUntil : Option Number := .none

/-- A live record that has not ended. -/
def isCurrent (now : Number) (r : Record) : Bool :=
  r.state.isLive && decide (now < r.expiresAt) &&
    (decide (r.state ≠ .pending) || decide (now < r.drainDeadline))

/-- The candidate was queued before the record was made. -/
def isEarlier (c : Candidate) (r : Record) : Bool :=
  match c.enqueuedSeq with
  | .none => (gauge? c.enqueuedAt).any fun queued => decide (queued ≤ r.createdAt)
  | seq => (gauge? seq).any fun seq => decide (seq ≤ .int r.seq)

/-- When a record begins, if it says so. An exclusive one also waits for the lane window. -/
def noticeOf (lib : Library) (window : Option Number) (r : Record) : Option Number :=
  match if r.exclusive then window else .none, r.startAt.bind (startEpoch lib) with
  | .none, start => start
  | some ending, some start => some (Number.max start ending)
  | some ending, .none => some ending

/-- What a current record is to a candidate. -/
inductive Standing where
  | counted
  /-- The candidate ends before the record begins. -/
  | fits
  | stops (reason : String)
deriving DecidableEq

/-- What a current record is to a candidate. -/
def standing (lib : Library) (window : Option Number) (now : Number) (c : Candidate) (r : Record) :
    Except Exn Standing :=
  if r.exclusive = true ∧ r.state = .granted then .ok (.stops "exclusive")
  else if r.state = .pending ∧ isEarlier c r = false then
    match (noticeOf lib window r).filter fun epoch => decide (now < epoch) with
    | .none => .ok (.stops "draining")
    | some epoch =>
      match readNumber "expected_runtime_s" c.expectedRuntimeS with
      | .error _ => .ok (.stops "runtime_unmeasured")
      | .ok runtime => (add now runtime).map fun ending =>
          if epoch < ending then .stops "advance_notice" else .fits
  else .ok .counted

/-- The first record that stops the candidate, or the identifiers of those that it fits before. -/
def passAll (stand : Record → Except Exn Standing) :
    List Record → Except Exn (Except (Record × String) (List String))
  | [] => .ok (.ok [])
  | r :: rs =>
    match stand r with
    | .error e => .error e
    | .ok (.stops reason) => .ok (.error (r, reason))
    | .ok .counted => passAll stand rs
    | .ok .fits => (passAll stand rs).map fun rest => rest.map (r.id :: ·)

/-- The requests that are counted: of the running lanes, of some records and of the candidate. -/
def requests (running : Option Caps) (rs : List Record) (c : Candidate) : List (Option Caps) :=
  running :: rs.map (fun r => some r.caps) ++ [some c.caps]

/-- The capacity is looked at only if a record has reserved some of it. -/
def admitBeside (lib : Library) (c : Candidate) (running : Option Caps) (gauges : Caps)
    (reserved : List Record) : Except Exn Verdict :=
  match reserved with
  | [] => .ok .admitted
  | first :: _ => (capacity lib (requests running reserved c) gauges).map fun
      | .none => .admitted
      | some reason => .defer (some first) reason

/-- What follows from a scan of the live records. -/
def verdictOf (lib : Library) (c : Candidate) (running : Option Caps) (gauges : Caps)
    (live : List Record) : Except Exn (Except (Record × String) (List String)) → Except Exn Verdict
  | .error e => .error e
  | .ok (.error (r, reason)) => .ok (.defer (some r) reason)
  | .ok (.ok fits) => admitBeside lib c running gauges
      (live.filter fun r => !r.exclusive && decide (r.id ∉ fits))

/-- `admission_view` -/
def admissionView (lib : Library) (view : View) (now : Value) (c : Candidate)
    (running : Option Caps) (gauges : Caps) : Except Exn Verdict :=
  match view.records.filter fun rs => rs.all (validRecord lib), gauge? now with
  | some rs, some now =>
    let live := Store.bySeq (rs.filter (isCurrent now))
    verdictOf lib c running gauges live (passAll (standing lib view.laneWindowUntil now c) live)
  | _, _ => .ok (.defer .none "store_unreadable")

end Workbay.Reservation

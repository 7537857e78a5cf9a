import Workbay.Breaker.Store
import Mathlib.Data.List.Lex

/-!
# The file of the circuit breaker

What the operations read is JSON that anyone may have written: fields may be missing or of any type.
A row is coerced field by field. Where a field cannot be coerced, the row counts as closed or the
operation raises.
-/

namespace Workbay.Breaker

/-! ## Values -/

/-- What the operations raise. -/
inductive PyError where
  | typeError
  | valueError
  | overflowError
  /-- `datetime.fromtimestamp` has no date for the time: it raises by the size of it. -/
  | outOfRange
deriving DecidableEq

/-- The value of a field. Of a list or an object only its text matters, and whether it is empty. -/
inductive Value where
  | null
  | bool (b : Bool)
  | int (i : Int)
  | float (x : Binary64)
  | str (s : String)
  | collection (text : String) (isEmpty : Bool)
deriving DecidableEq

/-- How texts are read as numbers, and numbers written as texts. -/
structure Library where
  intOfText : String → Option Int
  floatOfText : String → Option Binary64
  textOf : Value → String

namespace Value

/-- `bool(value)` -/
def isTruthy : Value → Bool
  | null => false
  | bool b => b
  | int i => decide (i ≠ 0)
  | float x => x.isTruthy
  | str s => decide (s ≠ "")
  | collection _ isEmpty => !isEmpty

/-- `value or default` -/
def orElse (v default : Value) : Value := if v.isTruthy then v else default

/-- `str(value)` -/
def text (lib : Library) : Value → String
  | str s => s
  | collection text _ => text
  | v => lib.textOf v

/-- The integer part of a number. -/
def truncated (q : ℚ) : Int := if 0 ≤ q then ⌊q⌋ else ⌈q⌉

/-- `int(value)` -/
def toInt (lib : Library) : Value → Except PyError Int
  | null => .error .typeError
  | bool b => .ok (if b then 1 else 0)
  | int i => .ok i
  | float (.finite q) => .ok (truncated q)
  | float (.infinite _) => .error .overflowError
  | float .nan => .error .valueError
  | str s =>
    match lib.intOfText s with
    | some i => .ok i
    | none => .error .valueError
  | collection .. => .error .typeError

/-- `float(value)` -/
def toFloat (lib : Library) : Value → Except PyError Binary64
  | null => .error .typeError
  | bool b => .ok (.finite (if b then 1 else 0))
  | int i =>
    match binary64 i with
    | some q => .ok (.finite q)
    | none => .error .overflowError
  | float x => .ok x
  | str s =>
    match lib.floatOfText s with
    | some x => .ok x
    | none => .error .valueError
  | collection .. => .error .typeError

/-- `f(value) if value is not None else None` -/
def optional {α : Type} (f : Value → Except PyError α) : Value → Except PyError (Option α)
  | null => .ok none
  | v => (f v).map some

end Value

/-! ## Rows -/

/-- A row as it is in the file. -/
abbrev Row := Dict String Value

/-- The rows of the file. -/
abbrev FileData := Dict String Row

/-- `row.get(field)` -/
def field (row : Row) (name : String) : Value := row.getD name .null

/-- `BreakerState`, with the times that the file may hold -/
structure FileState where
  phase : Phase := .closed
  failureCount : Nat := 0
  failureClass : Option FailureClass := none
  openedAt : Option Binary64 := none
  trialInProgress : Bool := false
  trialStartedAt : Option Binary64 := none
  trialOwner : Owner := {}
  checkpointCount : Nat := 0
deriving DecidableEq

/-- The texts of the states. -/
def Phase.text : Phase → String
  | closed => "closed"
  | open_ => "open"
  | halfOpen => "half_open"

/-- The state that a text names. -/
def Phase.ofText? (s : String) : Option Phase :=
  [Phase.closed, Phase.open_, Phase.halfOpen].find? fun phase => phase.text = s

/-- The texts of the classes. -/
def FailureClass.text : FailureClass → String
  | configuration => "configuration"
  | transport => "transport"

/-- `raw in {"configuration", "transport"}`, which a list or an object cannot be asked for -/
def FailureClass.ofValue : Value → Except PyError (Option FailureClass)
  | .collection .. => .error .typeError
  | .str s => .ok ([configuration, transport].find? fun c => c.text = s)
  | _ => .ok none

variable (lib : Library)

/-- The `try` around `checkpoint_count` -/
def checkpointCount (row : Row) : Nat :=
  match ((field row "checkpoint_count").orElse (.int 0)).toInt lib with
  | .ok n => n.toNat
  | .error _ => 0

/-- The numbers of a row, which are coerced together. -/
structure RowNumbers where
  failureCount : Nat
  openedAt : Option Binary64
  trialStartedAt : Option Binary64
  trialOwnerPid : Option Int

/-- The body of the second `try` of `_coerce_state` -/
def rowNumbers (row : Row) : Except PyError RowNumbers := do
  let failureCount ← ((field row "failure_count").orElse (.int 0)).toInt lib
  let openedAt ← (field row "opened_at").optional (·.toFloat lib)
  let trialStartedAt ← (field row "trial_started_at").optional (·.toFloat lib)
  let trialOwnerPid ← (field row "trial_owner_pid").optional (·.toInt lib)
  return { failureCount := failureCount.toNat, openedAt, trialStartedAt, trialOwnerPid }

/-- `_optional_text`, of a field -/
def fieldText (row : Row) (name : String) : Option String :=
  optionalText (some (((field row name).orElse (.str "")).text lib))

/-- `_coerce_state` -/
def coerceState : Option Row → Except PyError FileState
  | none => .ok {}
  | some row =>
    match Phase.ofText? (((field row "state").orElse (.str "closed")).text lib) with
    | none => .ok {}
    | some phase =>
      match rowNumbers lib row with
      | .error .typeError => .ok {}
      | .error .valueError => .ok {}
      | .error e => .error e
      | .ok numbers =>
        match FailureClass.ofValue (field row "failure_class") with
        | .error e => .error e
        | .ok failureClass =>
          .ok {
            phase, failureClass
            failureCount := numbers.failureCount
            openedAt := numbers.openedAt
            trialInProgress := (field row "trial_in_progress").isTruthy
            trialStartedAt := numbers.trialStartedAt
            trialOwner :=
              ⟨numbers.trialOwnerPid, fieldText lib row "trial_owner_pass_id",
                fieldText lib row "trial_owner_session"⟩
            checkpointCount := checkpointCount lib row }

/-- `_read_data`: what is no object is an empty file, and what is no row is left out. -/
def readData (content : Option (Dict String (Option Row))) : FileData :=
  (content.getD []).filterMap fun entry => entry.2.map fun row => (entry.1, row)

/-- The row of a key. -/
def fileRow (data : FileData) (key : String) : Except PyError FileState :=
  coerceState lib (data.get? key)

/-- A field that may be missing. -/
def optionalValue {α : Type} (f : α → Value) : Option α → Value
  | none => .null
  | some a => f a

/-- `asdict` -/
def FileState.row (s : FileState) : Row :=
  [("state", .str s.phase.text),
    ("failure_count", .int s.failureCount),
    ("failure_class", optionalValue (fun c => .str (FailureClass.text c)) s.failureClass),
    ("opened_at", optionalValue .float s.openedAt),
    ("trial_in_progress", .bool s.trialInProgress),
    ("trial_started_at", optionalValue .float s.trialStartedAt),
    ("trial_owner_pid", optionalValue .int s.trialOwner.pid),
    ("trial_owner_pass_id", optionalValue .str s.trialOwner.passId),
    ("trial_owner_session", optionalValue .str s.trialOwner.session),
    ("checkpoint_count", .int s.checkpointCount)]

/-! ## admit -/

/-- `_settings`, with the cooldown that the environment may give -/
structure FileSettings where
  cooldown : Binary64 := .finite 300
  error : Option String := none
deriving DecidableEq

/-- `_remaining_cooldown(..) > 0` -/
def remains (cooldown startedAt now : Binary64) : Bool :=
  (cooldown.sub (now.sub startedAt)).isPositive

/-- `Admission` -/
structure FileAdmission where
  allowed : Bool
  phase : Phase
  reason : Reason
  failureClass : Option FailureClass
  breakerKey : Option String := none
  openedAt : Option Binary64 := none
  trialState : Option FileState := none
  trialArmable : Bool := false
deriving DecidableEq

/-- A row of a configuration that an operator has to reset. -/
def FileState.isLatch (s : FileState) : Bool :=
  decide (s.phase = .open_) && decide (s.failureClass = some .configuration)

/-- `_configuration_keys` -/
def fileConfigurationKeys (data : FileData) (backend : String) : List String :=
  backend :: ((data.map Prod.fst).filter fun key =>
    (backend ++ "::configuration::").toList.isPrefixOf key.toList).insertionSort (· ≤ ·)

/-- The loop of `_first_open_configuration` -/
def findLatch (lib : Library) (data : FileData) :
    List String → Except PyError (Option (String × FileState))
  | [] => .ok none
  | key :: keys =>
    match fileRow lib data key with
    | .error e => .error e
    | .ok s => if s.isLatch then .ok (some (key, s)) else findLatch lib data keys

/-- The keys that `_first_open_configuration` looks at -/
def latchKeys (data : FileData) (backend model : Option String) : List String :=
  if normalized backend = "" then []
  else if normalized model = "" then fileConfigurationKeys data (normalized backend)
  else [configurationKey (normalized backend) (some (normalized model)), normalized backend]

/-- `_first_open_configuration` -/
def firstOpenLatch (data : FileData) (backend model : Option String) :
    Except PyError (Option (String × FileState)) :=
  findLatch lib data (latchKeys data backend model)

/-- Times that `datetime` has: from the year 1 to the year 9999. -/
def inCalendar : Binary64 → Bool
  | .finite q => decide (-62135596800 ≤ q ∧ q < 253402300800)
  | _ => false

/-- `_refusal` -/
def fileRefusal (key : String) (s : FileState) (reason : Reason) :
    Except PyError FileAdmission :=
  if s.openedAt.all inCalendar then
    .ok { allowed := false, phase := s.phase, reason, failureClass := s.failureClass,
          breakerKey := some key, openedAt := s.openedAt }
  else .error .outOfRange

/-- `_half_open_state` -/
def FileState.halfOpen (old : FileState) (startedAt : Binary64) (caller : Owner) : FileState where
  phase := .halfOpen
  failureCount := old.failureCount
  failureClass := some .transport
  openedAt := old.openedAt
  trialInProgress := true
  trialStartedAt := some startedAt
  trialOwner := caller.trial
  checkpointCount := old.checkpointCount

/-- The trial of a caller, in the row of a backend. -/
def fileTrial (backend : String) (old : FileState) (caller : Owner) (now : Binary64)
    (reason : Reason) (data : FileData) : FileAdmission × FileData :=
  ({ allowed := true, phase := .halfOpen, reason, failureClass := some .transport,
     breakerKey := some backend, trialState := some (old.halfOpen now caller) },
    data.set backend (old.halfOpen now caller).row)

/-- `admit` of a backend without a latch -/
def admitRow (cooldown : Binary64) (backend : String) (caller : Owner) (now : Binary64)
    (old : FileState) (data : FileData) : Except PyError (FileAdmission × FileData) :=
  match old.phase with
  | .closed =>
    .ok ({ allowed := true, phase := .closed, reason := .closed,
           failureClass := old.failureClass }, data)
  | .halfOpen =>
    if old.trialStartedAt.any fun startedAt => remains cooldown startedAt now then
      (fileRefusal backend old (.inProgress old.trialOwner)).map fun a => (a, data)
    else .ok (fileTrial backend old caller now .rearmed data)
  | .open_ =>
    if remains cooldown (old.openedAt.getD now) now then
      (fileRefusal backend old .cooling).map fun a => (a, data)
    else .ok (fileTrial backend old caller now .trial data)

/-- `admit` -/
def admitFile (settings : FileSettings) (backend : String)
    (model : Option String) (caller : Owner) (now : Binary64) (data : FileData) :
    Except PyError (FileAdmission × FileData) :=
  match settings.error with
  | some error =>
    .ok ({ allowed := false, phase := .open_, reason := .settings error, failureClass := none,
           breakerKey := some backend }, data)
  | none =>
    match firstOpenLatch lib data (some backend) model with
    | .error e => .error e
    | .ok (some (key, latch)) =>
      (fileRefusal key latch (.configuration key)).map fun a => (a, data)
    | .ok none =>
      match fileRow lib data backend with
      | .error e => .error e
      | .ok old => admitRow settings.cooldown backend caller now old data

/-! ## inspect -/

/-- `inspect` of a backend without a latch -/
def inspectRow (cooldown : Binary64) (now : Binary64) (old : FileState) : FileAdmission :=
  match old.phase with
  | .closed =>
    { allowed := true, phase := .closed, reason := .closed, failureClass := old.failureClass }
  | .halfOpen =>
    match old.trialStartedAt with
    | none =>
      { allowed := false, phase := .halfOpen, reason := .noTimestamp,
        failureClass := old.failureClass, trialArmable := true }
    | some startedAt =>
      if remains cooldown startedAt now then
        { allowed := false, phase := .halfOpen, reason := .inProgress old.trialOwner,
          failureClass := old.failureClass }
      else
        { allowed := false, phase := .halfOpen, reason := .leaseElapsed,
          failureClass := old.failureClass, trialArmable := true }
  | .open_ =>
    if remains cooldown (old.openedAt.getD now) now then
      { allowed := false, phase := .open_, reason := .cooling, failureClass := old.failureClass }
    else
      { allowed := false, phase := .open_, reason := .cooled,
        failureClass := some (old.failureClass.getD .transport), trialArmable := true }

/-- `inspect` -/
def inspectFile (settings : FileSettings) (backend model : Option String)
    (now : Binary64) (data : FileData) : Except PyError FileAdmission :=
  match settings.error with
  | some error =>
    .ok { allowed := false, phase := .open_, reason := .settings error, failureClass := none }
  | none =>
    match firstOpenLatch lib data backend model with
    | .error e => .error e
    | .ok (some (key, _)) =>
      .ok { allowed := false, phase := .open_, reason := .configuration key,
            failureClass := some .configuration }
    | .ok none =>
      if normalized backend = "" then
        .ok { allowed := true, phase := .closed, reason := .closed, failureClass := none }
      else
        (fileRow lib data (normalized backend)).map fun old =>
          inspectRow settings.cooldown now old

/-! ## Calls -/

/-- A call on the file that only asks. -/
inductive Query where
  | admit_ (backend : String) (model : Option String) (caller : Owner)
  | inspect (backend model : Option String)
deriving DecidableEq

/-- What a call answers and what it leaves in the file; a call that raises leaves the file. -/
def Query.run (settings : FileSettings) (now : Binary64) (data : FileData) :
    Query → FileData × Except PyError FileAdmission
  | .admit_ backend model caller =>
    match admitFile lib settings backend model caller now data with
    | .ok (a, data') => (data', .ok a)
    | .error e => (data, .error e)
  | .inspect backend model => (data, inspectFile lib settings backend model now data)

end Workbay.Breaker

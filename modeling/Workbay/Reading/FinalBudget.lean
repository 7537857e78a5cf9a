import Workbay.Compiler.WorkItems

/-!
# The final cap of an envelope

An envelope that is over its budget when it is serialized loses optional parts until it fits, in one
pass before a record of the truncation is attached and in another one after it. The record shares the
list of what was dropped, so that the list grows in the envelope while the second pass goes on.
-/

namespace Workbay.Reading

open Workbay.Compiler (truthy)

/-- The members of an object. -/
abbrev Members := Dict String Json

/-- A change of a member that is an object. -/
def onKey (key : String) (f : Members → Members) (members : Members) : Members :=
  match members.get? key with
  | some (.obj inner) => members.set key (.obj (f inner))
  | _ => members

/-- The members of a member, if it is an object. -/
def inside (members : Members) (key : String) : Option Members :=
  match members.get? key with
  | some (.obj inner) => some inner
  | _ => none

/-- `members.get(key)` -/
def valueOf (members : Members) (key : String) : Json := members.getD key .null

/-! ## What may be dropped -/

/-- `_SESSION_ADDON_DROP_ORDER` -/
def sessionAddOnDropOrder : List String := ["continuation", "slices_completed"]

/-- `_SESSION_ADDON_LAST_RESORT_DROP_ORDER` -/
def lastResortDropOrder : List String :=
  ["touched_files", "open_findings", "read_shape", "compaction_advisory"]

/-- What the first pass keeps of the last resort. -/
def keptInFirstPass : List String := ["open_findings", "touched_files", "context_refresh", "read_budget"]

/-- `_NESTED_STATE_DROP_ORDER` -/
def nestedStateDropOrder : List String :=
  ["decisions_recent", "slices_completed", "tests_recent", "findings_open", "findings_all",
    "blockers_open", "actions_pending", "worker_reports_recent", "lane_messages_open",
    "worktree_lanes", "current_lane", "read_shape", "read_budget", "compaction_advisory"]

/-- The texts of the active row that may be shortened. -/
def bulkyTexts : List String := ["objective", "focus"]

/-- An entry of `dropped_sections`. -/
inductive Dropped where
  | addOn (key : String)
  | stateSection (key : String)
  | activeText (key : String)
  | writeLimits
  | attentionEvents
  | warnings
deriving DecidableEq

def Dropped.text : Dropped → String
  | addOn key => key
  | stateSection key => "state." ++ key
  | activeText key => "state.active." ++ key
  | writeLimits => "state.limits.write"
  | attentionEvents => "completion_attention.events"
  | warnings => "warnings"

/-- An envelope while it is cut down, and what was dropped so far. -/
structure Cap where
  envelope : Members
  dropped : List Dropped := []
  /-- The envelope holds a record that shares `dropped`. -/
  attached : Bool := false

namespace Cap

def onData (f : Members → Members) (s : Cap) : Cap :=
  { s with envelope := onKey "data" f s.envelope }

def onState (f : Members → Members) (s : Cap) : Cap := s.onData (onKey "state" f)

variable (s : Cap)

def data? : Option Members := inside s.envelope "data"

def state? : Option Members := s.data?.bind fun data => inside data "state"

variable (dropped : List Dropped)

/-- The list as JSON. -/
def droppedJson : Json := .arr (dropped.map fun name => .str name.text)

/-- `dropped.append(name)`, unless it is there; the record of the envelope shows it. -/
def note (name : Dropped) (s : Cap) : Cap :=
  if name ∈ s.dropped then s
  else if s.attached then
    { s.onData (onKey "truncation" fun record =>
        record.set "dropped_sections" (droppedJson (s.dropped ++ [name]))) with
      dropped := s.dropped ++ [name] }
  else { s with dropped := s.dropped ++ [name] }

/-- `_drop_key(data, key)`, noted -/
def dropAddOn (key : String) (s : Cap) : Cap :=
  match s.data? with
  | some data =>
    if (data.get? key).isSome then
      (s.onData fun data => Dict.pop data key).note (.addOn key)
    else s
  | none => s

/-- `_drop_key(state, key)`, noted -/
def dropStateSection (key : String) (s : Cap) : Cap :=
  match s.state? with
  | some state =>
    if (state.get? key).isSome then
      (s.onState fun state => Dict.pop state key).note (.stateSection key)
    else s
  | none => s

/-- `value[:length] + "…"` -/
def shorten (length : Nat) (value : String) : String :=
  String.ofList (value.toList.take length) ++ "…"

/-- A long text of the active row. -/
def longText? (length : Nat) (key : String) (s : Cap) : Option String :=
  match s.state?.bind fun state => inside state "active" with
  | some active =>
    match active.get? key with
    | some (.str value) => if length < value.length then some value else none
    | _ => none
  | none => none

/-- A long text of the active row is shortened. -/
def shortenText (length : Nat) (key : String) (s : Cap) : Cap :=
  match s.longText? length key with
  | some value =>
    s.onState (onKey "active" fun active => active.set key (.str (shorten length value)))
  | none => s

/-- A text that the first pass shortens is noted. -/
def shortenNoted (length : Nat) (key : String) (s : Cap) : Cap :=
  match s.longText? length key with
  | some _ => (s.shortenText length key).note (.activeText key)
  | none => s

/-- `del limits["write"]`, noted -/
def dropWriteLimits : Cap :=
  match s.state?.bind fun state => inside state "limits" with
  | some limits =>
    if (limits.get? "write").isSome then
      (s.onState (onKey "limits" fun limits => Dict.pop limits "write")).note .writeLimits
    else s
  | none => s

/-- The events of `completion_attention`, whose cursor then recovers them. -/
def clearEvents : Cap :=
  match s.data?.bind fun data => inside data "completion_attention" with
  | some attention =>
    if truthy (valueOf attention "events") then
      (s.onData (onKey "completion_attention" fun attention =>
        Dict.set (attention.set "events" (.arr [])) "cursor"
          (if truthy (valueOf attention "count") then .str "0" else .null))).note .attentionEvents
    else s
  | none => s

/-- What is kept of a read budget. -/
def readBudgetKeys : List String :=
  ["requested_bytes", "policy", "omitted_sections", "estimated_initial_bytes",
    "estimated_after_bytes"]

/-- `list(value or [])` -/
def listOf : Json → List Json
  | .arr xs => xs
  | .str s => s.toList.map fun c => .str c.toString
  | .obj members => members.map fun entry => .str entry.1
  | _ => []

/-- What the record says besides the list. -/
structure Header where
  budget : Nat
  /-- The size of the envelope at the start -/
  original : Nat
  fetch : Json

/-- The record of a truncation. -/
def record (header : Header) (finalBytes : Option Nat) (dropped : List Dropped) : Members :=
  [("truncated", .bool true), ("reason", .str "final_envelope_exceeds_budget")] ++
  (match finalBytes with
    | some finalBytes =>
      [("requested_bytes", .int header.budget), ("actual_bytes", .int header.original),
        ("final_bytes", .int finalBytes)]
    | none => []) ++
  [("dropped_sections", droppedJson dropped), ("scoped_fetch", header.fetch),
    ("marker", .str "echo_ho_final_budget")]

section

variable (size : Members → Nat)

variable (limit : Nat)

/-- The envelope is over a limit. -/
def exceeds (s : Cap) : Bool := decide (limit < size s.envelope)

/-- A step that is taken where the envelope is over the limit. -/
def ifOver (step : Cap → Cap) (s : Cap) : Cap :=
  if s.exceeds size limit then step s else s

/-- Steps that are taken one by one while the envelope is over the limit. -/
def whileOver (limit : Nat) (step : String → Cap → Cap) : List String → Cap → Cap
  | [], s => s
  | key :: rest, s => if s.exceeds size limit then whileOver limit step rest (step key s) else s

/-- `TRANSPORT_TRUNCATION_RESERVE_BYTES` -/
def reserveBytes : Nat := 1600

/-- `target_before_truncation` -/
def target (budget : Nat) : Nat := max 512 (budget - reserveBytes)

/-- The first pass over the state. -/
def firstStatePass (s : Cap) : Cap :=
  ifOver size limit (fun s =>
    ifOver size limit dropWriteLimits
      (whileOver size limit (shortenNoted 120) bulkyTexts
        (whileOver size limit dropStateSection nestedStateDropOrder s))) s

/-- The first pass. -/
def firstPass (s : Cap) : Cap :=
  ifOver size limit clearEvents
    (firstStatePass size limit
      (whileOver size limit dropAddOn (lastResortDropOrder.filter (· ∉ keptInFirstPass))
        (whileOver size limit dropAddOn sessionAddOnDropOrder s)))

end

end Cap

end Workbay.Reading

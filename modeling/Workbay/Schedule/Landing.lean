import Mathlib.Data.List.Dedup
import Workbay.Data.Json
import Workbay.Data.Text
import Workbay.Git.Repo

/-!
# The landing ready set

One wave of branches to land: each has passed its gate on the current target, and no two of them write
a common path.
-/

namespace Workbay.Schedule

/-- A row of fields. -/
abbrev Row := Dict String Json

/-- `ContentGateRefusal` -/
inductive ContentGateRefusal where
  | red
  | inconclusive
  | missing
  | staleBase
  | staleRevision
deriving DecidableEq

/-- The values of `refusal_kind`. -/
inductive LandingRefusal where
  | gate (refusal : ContentGateRefusal)
  | writeSetInconclusive
  | writeSetOverlap
deriving DecidableEq

def LandingRefusal.text : LandingRefusal → String
  | gate .red => "content_gate_red"
  | gate .inconclusive => "content_gate_inconclusive"
  | gate .missing => "content_gate_missing"
  | gate .staleBase => "content_gate_stale_base"
  | gate .staleRevision => "content_gate_stale_revision"
  | writeSetInconclusive => "write_set_inconclusive"
  | writeSetOverlap => "write_set_overlap"

/-- The keys of `ContentGate` -/
def contentGateKeys : List String :=
  ["status", "gate_cmd", "evidence_ref", "observed_at", "base_sha", "tested_sha"]

/-- The text of a field. -/
def textOf (fields : Row) (key : String) : Option String :=
  match fields.get? key with
  | some (.str s) => some s
  | _ => none

/-- `re.fullmatch(r"[0-9a-f]{40}", sha)`, of a sha that is given -/
def isSha40 (sha : Option String) : Bool := sha.any fun sha => Git.isFullObjectId sha 40

/-- `datetime.fromisoformat`: whether a text is a time, and whether the time has an offset. -/
abbrev IsoFormat := String → Option Bool

/-- A time as the gate writes it, which may end in `Z`. -/
def observedAt (text : String) : String :=
  String.ofList (text.toList.flatMap fun c => if c = 'Z' then "+00:00".toList else [c])

variable (fromIsoFormat : IsoFormat)

/-- `_content_gate_refusal` -/
def contentGateRefusal (gate : Json) (mainSha candidateSha : Option String) :
    Option ContentGateRefusal :=
  match gate with
  | .null => some .missing
  | .obj [] => some .missing
  | .obj fields =>
    if textOf fields "status" = some "red" then some .red
    else if textOf fields "status" = some "missing" then some .missing
    else if textOf fields "status" ≠ some "green" then some .inconclusive
    else if ¬ ∀ key ∈ contentGateKeys, (textOf fields key).any fun s => Text.strip s ≠ "" then
      some .inconclusive
    else if fromIsoFormat (observedAt ((textOf fields "observed_at").getD "")) ≠ some true then
      some .inconclusive
    else if isSha40 mainSha = false ∨ textOf fields "base_sha" ≠ mainSha then some .staleBase
    else if isSha40 candidateSha = false ∨ textOf fields "tested_sha" ≠ candidateSha then
      some .staleRevision
    else none
  | _ => some .inconclusive

/-- The gate of a candidate. -/
def gateOf (candidate : Row) : Json := (candidate.get? "content_gate").getD .null

/-- The paths of a collection of paths that are not empty. -/
def pathsOf : Json → Option (List String)
  | .arr entries => entries.mapM fun entry =>
    match entry with
    | .str path => if path = "" then none else some path
    | _ => none
  | _ => none

/-- What a candidate writes, if that is known. -/
def writeSetOf (writeSets : Row) (candidate : Row) : Option (List String) :=
  match candidate.get? "lane_id" with
  | some (.str laneId) => (writeSets.get? laneId).bind pathsOf
  | none => (writeSets.get? "").bind pathsOf
  | _ => none

/-- The row of a candidate before it is judged. -/
def bareRow (candidate : Row) : Row :=
  Dict.set (Dict.pop (Dict.pop candidate "refusal_kind") "write_set") "content_gate" (gateOf candidate)

/-- The row with a write set. -/
def withWriteSet (row : Row) (paths : List String) : Row :=
  row.set "write_set" (.arr ((paths.dedup.insertionSort (· ≤ ·)).map Json.str))

/-- The row of a candidate that is refused. Only an overlap is found when the write set is there. -/
def refusedRow (writeSets : Row) (candidate : Row) (refusal : LandingRefusal) : Row :=
  let row :=
    if refusal = .writeSetOverlap then
      withWriteSet (bareRow candidate) ((writeSetOf writeSets candidate).getD [])
    else bareRow candidate
  row.set "refusal_kind" (.str refusal.text)

/-- The row of a candidate that is ready. -/
def readyRow (writeSets : Row) (candidate : Row) : Row :=
  withWriteSet (bareRow candidate) ((writeSetOf writeSets candidate).getD [])

/-- Why a candidate is refused, next to the paths that are taken. -/
def landingRefusal (mainSha : Option String) (writeSets : Row)
    (occupied : List String) (candidate : Row) : Option LandingRefusal :=
  match contentGateRefusal fromIsoFormat (gateOf candidate) mainSha
      (textOf candidate "candidate_sha") with
  | some refusal => some (.gate refusal)
  | none =>
    match writeSetOf writeSets candidate with
    | none => some .writeSetInconclusive
    | some paths => if ∃ path ∈ paths, path ∈ occupied then some .writeSetOverlap else none

/-- The rows that are ready and refused, and the paths that are taken. -/
structure LandingState where
  ready : List Row := []
  refused : List Row := []
  occupied : List String := []

/-- One candidate. -/
def landingStep (mainSha : Option String) (writeSets : Row)
    (state : LandingState) (candidate : Row) : LandingState :=
  match landingRefusal fromIsoFormat mainSha writeSets state.occupied candidate with
  | some refusal =>
    { state with refused := state.refused ++ [refusedRow writeSets candidate refusal] }
  | none =>
    { state with
      ready := state.ready ++ [readyRow writeSets candidate]
      occupied := state.occupied ++ (writeSetOf writeSets candidate).getD [] }

/-- `compute_landing_ready_set` -/
def computeLandingReadySet (mainSha : Option String) (writeSets : Row)
    (candidates : List Row) : LandingState :=
  candidates.foldl (landingStep fromIsoFormat mainSha writeSets) {}

end Workbay.Schedule

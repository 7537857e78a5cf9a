import Workbay.Data.Text
import Workbay.Wave.Journal
import Workbay.Wave.Scheduler

/-!
# The status view of a wave

The transport shows the state of every lane of an imported journal. It maps the kind of an event to
a state and knows nothing of what the supervisor has checked.
-/

namespace Workbay.Wave

/-- `_STATE_NAMES`, each with its state -/
def stateNames : Dict String LaneStatus := [
  ("pending", .pending),
  ("running", .running),
  ("collected", .collected),
  ("gated", .gated),
  ("integrated", .integrated),
  ("failed", .failed),
  ("parked", .parked)]

/-- `_KIND_TO_STATE` -/
def kindToState : Dict String String := [
  ("lane_pending", "pending"),
  ("lane_running", "running"),
  ("lane_collected", "collected"),
  ("lane_gated", "gated"),
  ("lane_integrated", "integrated"),
  ("lane_failed", "failed"),
  ("lane_parked", "parked"),
  ("lane.pending", "pending"),
  ("lane.admission_deferred", "pending"),
  ("lane.running", "running"),
  ("lane.submitted", "running"),
  ("lane.collected", "collected"),
  ("lane.gated", "gated"),
  ("lane.integrated", "integrated"),
  ("lane.failed", "failed"),
  ("lane.parked", "parked")]

/-- The kinds of events that name the state of a lane themselves. -/
def stateKinds : List String := ["lane_state", "lane.state", "lane_transition", "lane.transition"]

/-- The state that an event gives its lane, if it gives one. -/
def eventState (e : JournalEvent) : Option LaneStatus :=
  let named := if e.kind ∈ stateKinds then e.fields.get? "state" else none
  let state := match named with
    | none | some .null => (kindToState.get? e.kind).map Json.str
    | some value => some value
  match state with
  | some (.str name) => stateNames.get? name
  | _ => none

/-- The states of the lanes, and the reasons of those that are parked. -/
structure StatusView where
  states : Dict LaneId LaneStatus := []
  parked : Dict LaneId String := []

/-- One event of the journal. -/
def StatusView.fold (view : StatusView) (e : JournalEvent) : StatusView :=
  if e.kind = "lane.gated" ∧ e.fields.get? "ok" ≠ some (.bool true) then view
  else
    let lane := match e.fields.get? "lane_id" with
      | some value => some value
      | none => e.fields.get? "lane"
    match lane with
    | some (.str laneId) =>
      if laneId = "" then view
      else if e.kind = "lane.admission_deferred" then
        { view with states := Dict.setDefault view.states laneId .pending }
      else
        match eventState e with
        | none => view
        | some state =>
          { states := view.states.set laneId state
            parked :=
              if state = .parked then
                let reason := match e.fields.get? "reason" with
                  | some (.str reason) => if reason = "" then "unspecified" else reason
                  | _ => "unspecified"
                view.parked.set laneId reason
              else Dict.pop view.parked laneId }
    | _ => view

/-- `_fold_lane_states`: fold lane state events in journal order, ignoring events for other
purposes. -/
def foldLaneStates (events : List JournalEvent) : StatusView := events.foldl StatusView.fold {}

/-! ## The integrations -/

open Workbay.Git

/-- A letter in lower case; the regular expressions of Python also take two other letters for an `i`. -/
def foldCase (c : Char) : Char := if c = 'İ' ∨ c = 'ı' then 'i' else c.toLower

/-- What follows a word, in either case. -/
def afterWord (word text : List Char) : Option (List Char) :=
  if (text.take word.length).map foldCase = word then some (text.drop word.length) else none

/-- What follows white space. -/
def afterSpace : List Char → Option (List Char)
  | [] => none
  | c :: rest => if Text.isSpace c then some (rest.dropWhile Text.isSpace) else none

/-- A character of the name of a lane, in either case. -/
def isNameChar (c : Char) : Bool :=
  c.isAlphanum || c ∈ ['.', '_', '-', 'İ', 'ı', 'ſ', '\u212a']

/-- The name of a lane and nothing else. -/
def laneName (text : List Char) : Option LaneId :=
  if text ≠ [] ∧ text.all isNameChar then some (String.ofList text) else none

/-- `_INTEGRATION_SUBJECT`: the lane that a subject names. -/
def integrationSubject (subject : List Char) : Option LaneId :=
  ((afterWord "integrate".toList subject <|> afterWord "merge".toList subject).bind afterSpace).bind
    fun rest => ((afterWord "lane".toList rest).bind afterSpace).bind laneName <|> laneName rest

/-- One commit of a wave, with the lane that its subject names. -/
structure IntegrationEntry where
  laneId : Option LaneId
  commit : String
  subject : String
deriving DecidableEq

/-- `_wave_branch`: the first remote branch of the wave, or the local one. -/
def transportBranch (repo : Repo) (wave : String) : Option String :=
  let remote := (repo.refs.map Prod.fst).filter fun ref =>
    decide ("refs/remotes/".toList <+: ref.toList ∧ ("/wave/" ++ wave).toList <:+ ref.toList)
  match remote.insertionSort (· ≤ ·) with
  | ref :: _ => some ref
  | [] =>
    let localRef := "refs/heads/wave/" ++ wave
    if (repo.refTip localRef).isSome then some localRef else none

/-- The commits of a wave, the oldest first. -/
def waveCommits (repo : Repo) (wave : String) : List String :=
  match (transportBranch repo wave).bind repo.refTip with
  | none => []
  | some tip =>
    (repo.graph.revListFirstParent (repo.refTip ("refs/workbay/wave-bases/" ++ wave)) tip).reverse

/-- The entry of one commit. -/
def integrationEntry (repo : Repo) (commit : String) : IntegrationEntry :=
  let subject := Text.strip ((repo.subjectOf commit).getD "")
  { laneId := integrationSubject subject.toList, commit, subject }

/-- `_integration_entries` -/
def integrationEntries (repo : Repo) (wave : String) : List IntegrationEntry :=
  (waveCommits repo wave).map (integrationEntry repo)

end Workbay.Wave

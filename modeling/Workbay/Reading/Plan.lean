import Mathlib.Algebra.BigOperators.Group.List.Basic
import Mathlib.Algebra.Order.Ring.Int
import Workbay.Data.Text
import Workbay.Effects.Loop

/-!
# The shape of a handoff read

The sections of the state that a read asks for, with the row limits of those that have one, and the
add-ons of a session.
-/

namespace Workbay.Reading

/-- A section with a row limit. -/
inductive Section where
  | blockersOpen
  | actionsPending
  | decisionsRecent
  | slicesCompleted
  | testsRecent
  | findingsOpen
deriving DecidableEq

namespace Section

def text : Section → String
  | blockersOpen => "blockers_open"
  | actionsPending => "actions_pending"
  | decisionsRecent => "decisions_recent"
  | slicesCompleted => "slices_completed"
  | testsRecent => "tests_recent"
  | findingsOpen => "findings_open"

/-- `SECTION_LIMIT_ATTR` -/
def limitAttr : Section → String
  | blockersOpen => "top_n_blockers"
  | actionsPending => "top_n_actions"
  | decisionsRecent => "top_n_decisions"
  | slicesCompleted => "top_n_slices"
  | testsRecent => "top_n_tests"
  | findingsOpen => "top_n_findings"

/-- The keys of `SECTION_LIMIT_ATTR` -/
def all : List Section :=
  [blockersOpen, actionsPending, decisionsRecent, slicesCompleted, testsRecent, findingsOpen]

theorem mem_all (s : Section) : s ∈ all := by cases s <;> decide

theorem text_injective {s t : Section} (h : s.text = t.text) : s = t := by
  cases s <;> cases t <;> first | rfl | exact absurd h (by decide)

end Section

/-- `ResolvedStateShape`, without the request that it comes from -/
structure ResolvedStateShape where
  sections : Option String
  detail : String
  topNBlockers : Int
  topNActions : Int
  topNDecisions : Int
  topNSlices : Int
  topNTests : Int
  topNFindings : Int
  appliedProfile : Option String
deriving DecidableEq

namespace ResolvedStateShape

/-- The row limit of a section. -/
def limit (shape : ResolvedStateShape) : Section → Int
  | .blockersOpen => shape.topNBlockers
  | .actionsPending => shape.topNActions
  | .decisionsRecent => shape.topNDecisions
  | .slicesCompleted => shape.topNSlices
  | .testsRecent => shape.topNTests
  | .findingsOpen => shape.topNFindings

variable (shape : ResolvedStateShape)

variable (value : Int)

/-- `replace`, of the limit of a section -/
def setLimit : Section → ResolvedStateShape
  | .blockersOpen => { shape with topNBlockers := value }
  | .actionsPending => { shape with topNActions := value }
  | .decisionsRecent => { shape with topNDecisions := value }
  | .slicesCompleted => { shape with topNSlices := value }
  | .testsRecent => { shape with topNTests := value }
  | .findingsOpen => { shape with topNFindings := value }

theorem limit_setLimit (s t : Section) :
    (shape.setLimit value s).limit t = if s = t then value else shape.limit t := by
  cases s <;> cases t <;> rfl

@[simp] theorem sections_setLimit (s : Section) :
    (shape.setLimit value s).sections = shape.sections := by
  cases s <;> rfl

@[simp] theorem detail_setLimit (s : Section) :
    (shape.setLimit value s).detail = shape.detail := by
  cases s <;> rfl

@[simp] theorem appliedProfile_setLimit (s : Section) :
    (shape.setLimit value s).appliedProfile = shape.appliedProfile := by
  cases s <;> rfl

end ResolvedStateShape

/-- `ResolvedSessionAddOnShape`, without the request that it comes from -/
structure ResolvedSessionAddOnShape where
  openFindingsLimit : Int
  openFindingsDetail : String
  topNTouchedFiles : Int
deriving DecidableEq

/-- `REQUIRED_SECTIONS_BY_PROFILE` -/
def requiredSectionsFor (appliedProfile : Option String) : List Section :=
  if appliedProfile = some "open_items" then [.blockersOpen, .actionsPending, .findingsOpen] else []

/-! ## The sections of a text -/

/-- The names that a text separates by commas. -/
def tokens (sections : String) : List String :=
  ((sections.toList.splitOn ',').map fun token => Text.strip (String.ofList token)).filter (· ≠ "")

/-- `_active_sections`: whether the estimate counts a section -/
def isActive (shape : ResolvedStateShape) (s : Section) : Bool :=
  match shape.sections with
  | none => true
  | some sections =>
    if "identity" ∈ tokens sections then false else decide (s.text ∈ tokens sections)

/-- `_VALID_SECTIONS` -/
def validSections : List String :=
  ["current_lane", "blockers_open", "actions_pending", "decisions_recent", "slices_completed",
    "tests_recent", "findings_open", "worktree_lanes", "worker_reports_recent", "lane_messages_open"]

/-- `_parse_sections`, given `str.lower` -/
def parseSections (lower : String → String) : Option String → Option (List String)
  | none => none
  | some sections =>
    if "identity" ∈ (tokens sections).map lower then some []
    else some (((tokens sections).map lower).filter (· ∈ validSections))

/-- `_want`: whether the state reader fetches a section -/
def wants (lower : String → String) (sections : Option String) (omitted : List String)
    (name : String) : Bool :=
  if name ∈ omitted then false
  else match parseSections lower sections with
    | none => true
    | some requested => decide (name ∈ requested)

end Workbay.Reading

/-!
## The response budget of a read

The size of a read is estimated from its shape before anything is fetched. Where it is over the
budget, the shape is reduced, the state first and the add-ons of the session after it.
-/

namespace Workbay.Reading

open Effects (whileLoop)

/-! ## Estimates -/

/-- `BASE_OVERHEAD_BYTES` -/
def baseOverheadBytes : Int := 1700

/-- `PER_ROW_BYTES_FULL` -/
def perRowBytesFull : Section → Int
  | .decisionsRecent => 2500
  | .findingsOpen => 800
  | .testsRecent => 600
  | .blockersOpen => 350
  | .actionsPending => 350
  | .slicesCompleted => 1500

/-- `PER_ROW_BYTES_SUMMARY` -/
def perRowBytesSummary : Section → Int
  | .decisionsRecent => 350
  | .findingsOpen => 250
  | .testsRecent => 220
  | .blockersOpen => 220
  | .actionsPending => 220
  | .slicesCompleted => 300

def perRowBytes (detail : String) (s : Section) : Int :=
  if detail = "summary" then perRowBytesSummary s else perRowBytesFull s

variable (shape : ResolvedStateShape)

/-- The sections that the estimate counts. -/
def pricedSections (omitted : List Section) : List Section :=
  Section.all.filter fun s => isActive shape s && decide (s ∉ omitted)

/-- `estimate_state_bytes` -/
def estimateStateBytes (omitted : List Section) : Int :=
  baseOverheadBytes + ((pricedSections shape omitted).map fun s =>
    perRowBytes shape.detail s * max 1 (shape.limit s)).sum

/-- `PER_FINDING_BYTES_SUMMARY` or `PER_FINDING_BYTES_FULL` -/
def perFindingBytes (detail : String) : Int := if detail = "summary" then 250 else 800

/-- `PER_TOUCHED_FILE_BYTES` -/
def perTouchedFileBytes : Int := 120

/-- `estimate_session_add_on_bytes` -/
def estimateSessionAddOnBytes (addOn : ResolvedSessionAddOnShape)
    (omitOpenFindings omitTouchedFiles : Bool) : Int :=
  (if !omitOpenFindings && decide (0 < addOn.openFindingsLimit) then
    perFindingBytes addOn.openFindingsDetail * addOn.openFindingsLimit else 0) +
  (if !omitTouchedFiles && decide (0 < addOn.topNTouchedFiles) then
    perTouchedFileBytes * addOn.topNTouchedFiles else 0)

/-! ## Plans -/

/-- What a plan leaves out. -/
inductive Omission where
  | state (s : Section)
  | openFindings
  | touchedFiles
  | continuation
deriving DecidableEq

def Omission.text : Omission → String
  | state s => s.text
  | openFindings => "open_findings"
  | touchedFiles => "touched_files"
  | continuation => "continuation"

/-- An entry of `applied_reductions`. -/
inductive Reduction where
  | detailToSummary
  | omitted (omission : Omission)
  | loweredLimit (s : Section) (current value : Int)
  | findingsDetailToSummary
  | loweredFindingsLimit (current value : Int)
  | loweredTouchedFiles (current value : Int)
deriving DecidableEq

def Reduction.text : Reduction → String
  | detailToSummary => "detail_to_summary"
  | omitted omission => "omitted_section_" ++ omission.text
  | loweredLimit s current value =>
    "lowered_" ++ s.limitAttr ++ "_" ++ toString current ++ "_to_" ++ toString value
  | findingsDetailToSummary => "session_open_findings_detail_to_summary"
  | loweredFindingsLimit current value =>
    "lowered_session_open_findings_limit_" ++ toString current ++ "_to_" ++ toString value
  | loweredTouchedFiles current value =>
    "lowered_session_top_n_touched_files_" ++ toString current ++ "_to_" ++ toString value

/-- `VALID_POLICIES` -/
inductive Policy where
  | warn
  | autoSummary
  | fail
deriving DecidableEq

/-- `retry_with` -/
inductive RetryWith where
  | autoSummary (responseBudgetBytes : Int) (readProfile : Option String)
  | fail
deriving DecidableEq

/-- `BudgetPlan` -/
structure BudgetPlan where
  requestedBytes : Option Int
  policy : Policy
  estimatedInitialBytes : Int
  estimatedAfterBytes : Int
  appliedReductions : List Reduction := []
  omittedSections : List Omission := []
  overBudgetAfter : Bool := false
  retryWith : Option RetryWith := none
  failNow : Bool := false
deriving DecidableEq

/-- `_suggest_retry_after_fail` -/
def suggestRetryAfterFail (budget : Int) : RetryWith :=
  if shape.appliedProfile = none ∨ shape.appliedProfile = some "full_debug" ∨
      shape.appliedProfile = some "review_packet" then
    .autoSummary budget (some "hot_summary")
  else .autoSummary budget none

/-! ## The reduction of the state -/

/-- `REDUCTION_PRIORITY` -/
def reductionPriority : List Section :=
  [.decisionsRecent, .slicesCompleted, .findingsOpen, .testsRecent, .actionsPending, .blockersOpen]

/-- `_OMIT_PRIORITY` -/
def omitPriority : List Section := [.slicesCompleted]

/-- A shape while it is reduced. -/
structure Draft where
  shape : ResolvedStateShape
  omitted : List Section := []
  applied : List Reduction := []
deriving DecidableEq

namespace Draft

def estimate (d : Draft) : Int := estimateStateBytes d.shape d.omitted

/-- Neither required by the profile nor left out already. -/
def mayOmit (d : Draft) (s : Section) : Bool :=
  decide (s ∉ requiredSectionsFor d.shape.appliedProfile) && isActive d.shape s &&
    decide (s ∉ d.omitted)

/-- `omitted.append(section)` -/
def omitSection (d : Draft) (s : Section) : Draft :=
  { d with
    omitted := d.omitted ++ [s]
    applied := d.applied ++ [.omitted (.state s)] }

/-- Not left out, with more than one row. -/
def mayLower (d : Draft) (s : Section) : Bool :=
  isActive d.shape s && decide (s ∉ d.omitted) && decide (1 < d.shape.limit s)

/-- `max(1, current // 2)` rows of a section -/
def lowerLimit (d : Draft) (s : Section) : Draft :=
  { d with
    shape := d.shape.setLimit (max 1 (d.shape.limit s / 2)) s
    applied := d.applied ++
      [.loweredLimit s (d.shape.limit s) (max 1 (d.shape.limit s / 2))] }

/-- Step 1: summaries instead of full rows. -/
def ofShape (shape : ResolvedStateShape) : Draft :=
  if shape.detail = "summary" then { shape := shape }
  else { shape := { shape with detail := "summary" }, applied := [.detailToSummary] }

end Draft

/-- The sections of a list are left out one by one, until the draft fits. -/
def omitSections (budget : Int) : List Section → Draft → Draft
  | [], d => d
  | s :: rest, d =>
    if d.mayOmit s then
      if (d.omitSection s).estimate ≤ budget then d.omitSection s
      else omitSections budget rest (d.omitSection s)
    else omitSections budget rest d

/-- Steps 2 and 4: nothing is left out of a draft that fits. -/
def omitWhileOver (budget : Int) (order : List Section) (d : Draft) : Draft :=
  if budget < d.estimate then omitSections budget order d else d

/-- One turn of the loop of step 3, and whether it has lowered a limit. -/
def lowerRound (budget : Int) : List Section → Draft → Draft × Bool
  | [], d => (d, false)
  | s :: rest, d =>
    if d.mayLower s then
      if (d.lowerLimit s).estimate ≤ budget then (d.lowerLimit s, true)
      else ((lowerRound budget rest (d.lowerLimit s)).1, true)
    else lowerRound budget rest d

/-- Whether the loop of step 3 goes on: the draft does not fit and the last turn has lowered a limit. -/
def goesOn (budget : Int) (turn : Draft × Bool) : Bool :=
  decide (budget < turn.1.estimate) && turn.2

/-- Step 3: the limits are halved in turn, until the draft fits or none is left to lower. -/
def lowerLimits (fuel : Nat) (budget : Int) (d : Draft) : Option Draft :=
  (whileLoop (goesOn budget) (fun turn => lowerRound budget reductionPriority turn.1) fuel
    (d, true)).map Prod.fst

/-- The four steps of `_plan_auto_summary` -/
def reduceState (fuel : Nat) (budget : Int) (shape : ResolvedStateShape) : Option Draft :=
  (lowerLimits fuel budget (omitWhileOver budget omitPriority (Draft.ofShape shape))).map
    (omitWhileOver budget reductionPriority)

/-- The plan of a reduced state. -/
def planOfDraft (budget initialBytes : Int) (d : Draft) : BudgetPlan where
  requestedBytes := some budget
  policy := .autoSummary
  estimatedInitialBytes := initialBytes
  estimatedAfterBytes := d.estimate
  appliedReductions := d.applied
  omittedSections := d.omitted.map .state
  overBudgetAfter := decide (budget < d.estimate)
  retryWith := if budget < d.estimate then some .fail else none

/-- `_plan_auto_summary` -/
def planAutoSummary (fuel : Nat) (shape : ResolvedStateShape) (budget initialBytes : Int) :
    Option (ResolvedStateShape × BudgetPlan) :=
  (reduceState fuel budget shape).map fun d => (d.shape, planOfDraft budget initialBytes d)

/-! ## The add-ons of a session -/

/-- The add-ons while they are trimmed, beside a state of a fixed size. -/
structure Trim where
  stateBytes : Int
  addOn : ResolvedSessionAddOnShape
  omitted : List Omission
  applied : List Reduction
deriving DecidableEq

namespace Trim

/-- `_compound_bytes` -/
def compoundBytes (t : Trim) : Int :=
  t.stateBytes + estimateSessionAddOnBytes t.addOn (decide (Omission.openFindings ∈ t.omitted))
    (decide (Omission.touchedFiles ∈ t.omitted))

/-- The continuation is left out of a session over its budget. -/
def dropContinuation (budget : Int) (t : Trim) : Trim :=
  if budget < t.compoundBytes ∧ Omission.continuation ∉ t.omitted then
    { t with
      omitted := t.omitted ++ [.continuation]
      applied := t.applied ++ [.omitted .continuation] }
  else t

/-- The findings of a session over its budget are summaries. -/
def summarizeFindings (budget : Int) (t : Trim) : Trim :=
  if budget < t.compoundBytes ∧ Omission.openFindings ∉ t.omitted ∧
      t.addOn.openFindingsDetail ≠ "summary" then
    { t with
      addOn := { t.addOn with openFindingsDetail := "summary" }
      applied := t.applied ++ [.findingsDetailToSummary] }
  else t

/-- `max(1, prev // 2)` findings -/
def halveFindings (t : Trim) : Trim :=
  { t with
    addOn := { t.addOn with openFindingsLimit := max 1 (t.addOn.openFindingsLimit / 2) }
    applied := t.applied ++
      [.loweredFindingsLimit t.addOn.openFindingsLimit (max 1 (t.addOn.openFindingsLimit / 2))] }

/-- `max(2, prev // 2)` touched files -/
def halveFiles (t : Trim) : Trim :=
  { t with
    addOn := { t.addOn with topNTouchedFiles := max 2 (t.addOn.topNTouchedFiles / 2) }
    applied := t.applied ++
      [.loweredTouchedFiles t.addOn.topNTouchedFiles (max 2 (t.addOn.topNTouchedFiles / 2))] }

/-- Over the budget, with more than one finding. -/
def findingsToHalve (budget : Int) (t : Trim) : Bool :=
  decide (budget < t.compoundBytes) && decide (1 < t.addOn.openFindingsLimit)

/-- Over the budget, with more than two touched files. -/
def filesToHalve (budget : Int) (t : Trim) : Bool :=
  decide (budget < t.compoundBytes) && decide (2 < t.addOn.topNTouchedFiles)

def lowerFindings (fuel : Nat) (budget : Int) (t : Trim) : Option Trim :=
  whileLoop (findingsToHalve budget) halveFindings fuel t

def lowerFiles (fuel : Nat) (budget : Int) (t : Trim) : Option Trim :=
  whileLoop (filesToHalve budget) halveFiles fuel t

/-- Step 2 of `plan_session_read` -/
def trimAddOns (fuel : Nat) (budget : Int) (t : Trim) : Option Trim :=
  (lowerFindings fuel budget (summarizeFindings budget (dropContinuation budget t))).bind
    (lowerFiles fuel budget)

end Trim

/-- What is left out because its limit is zero. -/
def preOmitted (addOn : ResolvedSessionAddOnShape) : List Omission :=
  (if addOn.openFindingsLimit ≤ 0 then [.openFindings] else []) ++
    (if addOn.topNTouchedFiles ≤ 0 then [.touchedFiles] else [])

/-- The size of a session as it was asked for. -/
def compoundInitial (shape : ResolvedStateShape) (addOn : ResolvedSessionAddOnShape) : Int :=
  estimateStateBytes shape [] + estimateSessionAddOnBytes addOn false false

/-- What `plan_session_read` returns. -/
structure SessionPlan where
  state : ResolvedStateShape
  addOn : ResolvedSessionAddOnShape
  plan : BudgetPlan
deriving DecidableEq

/-- The add-ons beside a state that is reduced. -/
def Trim.ofPlan (addOn : ResolvedSessionAddOnShape) (statePlan : BudgetPlan) : Trim where
  stateBytes := statePlan.estimatedAfterBytes
  addOn := addOn
  omitted := preOmitted addOn ++ statePlan.omittedSections
  applied := statePlan.appliedReductions

/-- The plan of a reduced state and trimmed add-ons. -/
def sessionPlanOf (budget initialBytes : Int) (state : ResolvedStateShape) (t : Trim) :
    SessionPlan where
  state := state
  addOn := t.addOn
  plan :=
    { requestedBytes := some budget
      policy := .autoSummary
      estimatedInitialBytes := initialBytes
      estimatedAfterBytes := t.compoundBytes
      appliedReductions := t.applied
      omittedSections := t.omitted
      overBudgetAfter := decide (budget < t.compoundBytes)
      retryWith := if budget < t.compoundBytes then some .fail else none }

/-- The auto-summary branch of `plan_session_read` -/
def planOverBudget (fuel : Nat) (shape : ResolvedStateShape) (addOn : ResolvedSessionAddOnShape)
    (budget : Int) : Option SessionPlan :=
  (planAutoSummary fuel shape budget (compoundInitial shape addOn)).bind fun (state, statePlan) =>
    (Trim.trimAddOns fuel budget (Trim.ofPlan addOn statePlan)).map
      (sessionPlanOf budget (compoundInitial shape addOn) state)

/-- A plan that changes nothing. -/
def unchangedPlan (shape : ResolvedStateShape) (addOn : ResolvedSessionAddOnShape)
    (budget : Option Int) (policy : Policy) : BudgetPlan where
  requestedBytes := budget
  policy := policy
  estimatedInitialBytes := compoundInitial shape addOn
  estimatedAfterBytes := compoundInitial shape addOn
  omittedSections := preOmitted addOn

/-- `plan_session_read` -/
def planSessionRead (fuel : Nat) (shape : ResolvedStateShape) (addOn : ResolvedSessionAddOnShape)
    (budget : Option Int) (policy : Policy) : Option SessionPlan :=
  match budget with
  | none => some ⟨shape, addOn, unchangedPlan shape addOn none policy⟩
  | some bytes =>
    if compoundInitial shape addOn ≤ bytes then
      some ⟨shape, addOn, unchangedPlan shape addOn (some bytes) policy⟩
    else match policy with
      | .warn =>
        some ⟨shape, addOn, { unchangedPlan shape addOn (some bytes) .warn with
          overBudgetAfter := true
          retryWith := some (.autoSummary bytes none) }⟩
      | .fail =>
        some ⟨shape, addOn, { unchangedPlan shape addOn (some bytes) .fail with
          overBudgetAfter := true
          retryWith := some (suggestRetryAfterFail shape bytes)
          failNow := true }⟩
      | .autoSummary => planOverBudget fuel shape addOn bytes

end Workbay.Reading

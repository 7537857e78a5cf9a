import Workbay.Review.Proofs.RepeatProofs

/-!
# Proofs: the import of legacy sources
-/

namespace Workbay.Review

open Workbay.Effects List

section

variable {L : ReviewCycleLedger} {data data' : LedgerData}

/-- A subject whose imported rows are the whole history, with rounds from 1 on in its order. -/
def LedgerData.HasHistory (data : LedgerData) (s : String) (sources : List Json) : Prop :=
  (imported (data.subjectRows s)).map
      (fun row => (row.round, row.legacySource.map LegacySource.record)) =
    (sources.zipIdx 1).map fun entry => (entry.2, some entry.1)

variable {sources : List Json} {s : String}

variable {records : List LegacyRecord}

/-- The canonical texts of a history; they are the same for histories that differ in the order of
their keys only. -/
def texts (sources : List Json) : List String := sources.map Json.dumps

/-- The canonical texts of the records that a subject was imported from. -/
def LedgerData.historyTexts (data : LedgerData) (s : String) : List String :=
  (imported (data.subjectRows s)).map fun row =>
    ((row.legacySource.map fun source => source.record.dumps).getD "")

/-- The dispatch ids that the records of a history name. -/
def dispatchIds (sources : List Json) : List String :=
  sources.filterMap fun source => (source.get? "dispatch_id").bind Json.str?

theorem LedgerData.HasHistory.texts (h : data.HasHistory s sources) :
    data.historyTexts s = texts sources := by
  have hrecords := congrArg (List.map fun entry : Nat × Option Json =>
    (entry.2.map Json.dumps).getD "") h
  rw [map_map, map_map] at hrecords
  have hleft : data.historyTexts s = (imported (data.subjectRows s)).map
      ((fun entry : Nat × Option Json => (entry.2.map Json.dumps).getD "") ∘
        fun row => (row.round, row.legacySource.map LegacySource.record)) := by
    unfold LedgerData.historyTexts
    apply map_congr_left
    intro row _
    simp [Option.map_map, Function.comp_def]
  have hright : (sources.zipIdx 1).map
      ((fun entry : Nat × Option Json => (entry.2.map Json.dumps).getD "") ∘
        fun entry => (entry.2, some entry.1)) = (sources.zipIdx 1).map (Json.dumps ∘ Prod.fst) := rfl
  rw [hleft, hrecords, hright, ← map_map, zipIdx_map_fst]
  rfl

end

end Workbay.Review

import Workbay.Reading.FinalBudget

/-!
# What a step of the final cap takes out

Every step changes the envelope at a few paths only, and the steps that take something out note it
exactly when it was there.
-/

namespace Workbay.Reading

open Dict

open Workbay.Json (Path Frame Apart at? at?_obj_cons at?_obj_singleton at?_obj_of_get?)
open Workbay.Compiler (truthy)

variable {touched : List Path} {members : Members} {key : String} {f : Members → Members}

theorem get?_of_inside {inner : Members} (h : inside members key = some inner) :
    members.get? key = some (.obj inner) := by
  unfold inside at h
  split at h
  · rename_i hget
    rw [hget, Option.some.inj h]
  · cases h

theorem onKey_of_inside {inner : Members} (h : inside members key = some inner)
    (f : Members → Members) : onKey key f members = members.set key (.obj (f inner)) := by
  rw [onKey, get?_of_inside h]

theorem onKey_of_none (h : inside members key = none) (f : Members → Members) :
    onKey key f members = members := by
  unfold onKey
  split
  · rename_i inner hget
    rw [inside, hget] at h
    cases h
  · rfl

theorem Frame.onKey (touched : List Path) (key : String)
    (h : ∀ inner, inside members key = some inner → Frame touched (.obj inner) (.obj (f inner))) :
    Frame (touched.map (key :: ·)) (.obj members) (.obj (onKey key f members)) := by
  cases hin : inside members key with
  | none => rw [onKey_of_none hin]; exact Json.Frame.refl _ _
  | some inner =>
    rw [onKey_of_inside hin]
    exact Json.Frame.inside (get?_of_inside hin) (h inner hin)

namespace Dropped

/-- The paths that are touched when it is dropped. -/
def paths : Dropped → List Path
  | addOn key => [["data", key]]
  | stateSection key => [["data", "state", key]]
  | activeText key => [["data", "state", "active", key]]
  | writeLimits => [["data", "state", "limits", "write"]]
  | attentionEvents =>
    [["data", "completion_attention", "events"], ["data", "completion_attention", "cursor"]]
  | warnings => [["warnings"]]

/-- All that may be dropped. -/
def all : List Dropped :=
  (sessionAddOnDropOrder ++ lastResortDropOrder).map addOn ++
    nestedStateDropOrder.map stateSection ++ bulkyTexts.map activeText ++
    [writeLimits, attentionEvents, warnings]

/-- It is there to be dropped: a text of the active row if it is long, the events if there are any,
and the other ones if their key is there. -/
def IsThere (v : Json) : Dropped → Prop
  | addOn key => (at? ["data", key] v).isSome
  | stateSection key => (at? ["data", "state", key] v).isSome
  | activeText key => ∃ text : String,
      at? ["data", "state", "active", key] v = some (.str text) ∧ 120 < text.length
  | writeLimits => (at? ["data", "state", "limits", "write"] v).isSome
  | attentionEvents => ∃ events,
      at? ["data", "completion_attention", "events"] v = some events ∧ truthy events = true
  | warnings => (at? ["warnings"] v).isSome

/-- A text that was cut to a length. -/
def CutTo (length : Nat) (v w : Option Json) : Prop :=
  ∃ text : String, v = some (.str text) ∧ length < text.length ∧
    w = some (.str (Cap.shorten length text))

/-- The cursor that recovers the events. -/
def recoveryCursor (count : Option Json) : Json :=
  if truthy (count.getD .null) then .str "0" else .null

/-- It was in `v` and is out of `w`: a text was cut, the events are gone for a cursor that recovers
them, and the other ones are gone. -/
def Lost (v w : Json) : Dropped → Prop
  | addOn key => IsThere v (addOn key) ∧ at? ["data", key] w = none
  | stateSection key => IsThere v (stateSection key) ∧ at? ["data", "state", key] w = none
  | activeText key =>
    IsThere v (activeText key) ∧ ∃ length, length ∈ [40, 120] ∧
      CutTo length (at? ["data", "state", "active", key] v) (at? ["data", "state", "active", key] w)
  | writeLimits => IsThere v writeLimits ∧ at? ["data", "state", "limits", "write"] w = none
  | attentionEvents =>
    IsThere v attentionEvents ∧
      at? ["data", "completion_attention", "events"] w = some (.arr []) ∧
      at? ["data", "completion_attention", "cursor"] w =
        some (recoveryCursor (at? ["data", "completion_attention", "count"] v))
  | warnings => IsThere v warnings ∧ at? ["warnings"] w = none

theorem Lost.isThere {v w : Json} {name : Dropped} (h : Lost v w name) : IsThere v name := by
  cases name <;> exact h.1

theorem Lost.of_eq {v w w' : Json} {name : Dropped} (h : Lost v w name)
    (heq : ∀ p ∈ name.paths, at? p w' = at? p w) : Lost v w' name := by
  cases name with
  | addOn key => exact ⟨h.1, (heq _ (by simp [paths])).trans h.2⟩
  | stateSection key => exact ⟨h.1, (heq _ (by simp [paths])).trans h.2⟩
  | activeText key =>
    obtain ⟨hthere, length, hlength, hcut⟩ := h
    refine ⟨hthere, length, hlength, ?_⟩
    rw [heq _ (by simp [paths])]
    exact hcut
  | writeLimits => exact ⟨h.1, (heq _ (by simp [paths])).trans h.2⟩
  | attentionEvents =>
    exact ⟨h.1, (heq _ (by simp [paths])).trans h.2.1, (heq _ (by simp [paths])).trans h.2.2⟩
  | warnings => exact ⟨h.1, (heq _ (by simp [paths])).trans h.2⟩

theorem apart_paths : ∀ a ∈ all, ∀ b ∈ all, a ≠ b → ∀ p ∈ a.paths, ∀ q ∈ b.paths, Apart p q := by
  decide +kernel

end Dropped

namespace Cap

variable {s s' : Cap}

/-- The envelope as a value. -/
abbrev value (s : Cap) : Json := .obj s.envelope

/-- A step that takes something out and notes it if it is there, and does nothing otherwise. -/
def TakesOut (name : Dropped) (step : Cap → Cap) : Prop :=
  ∀ s : Cap, (¬ name.IsThere s.value ∧ step s = s) ∨
    ∃ envelope, Frame name.paths s.value (.obj envelope) ∧ name.Lost s.value (.obj envelope) ∧
      step s = ({ s with envelope := envelope } : Cap).note name

/-- The attention without its events. -/
def cleared (attention : Members) : Members :=
  Dict.set (attention.set "events" (.arr [])) "cursor"
    (if truthy (valueOf attention "count") then .str "0" else .null)

/-- The path of a text of the active row. -/
def textPath (key : String) : Path := ["data", "state", "active", key]

variable {length : Nat} {u v w : Option Json}

theorem shorten_shorten {length' : Nat} (hle : length ≤ length') (text : String)
    (hlong : length' < text.length) :
    shorten length (shorten length' text) = shorten length text := by
  unfold shorten
  have hlen : length ≤ (text.toList.take length').length := by
    rw [List.length_take, String.length_toList]
    omega
  rw [String.toList_append, String.toList_ofList, List.take_append_of_le_length hlen,
    List.take_take, Nat.min_eq_left hle]

theorem length_shorten {text : String} (hlong : length < text.length) :
    (shorten length text).length = length + 1 := by
  have hle : length ≤ text.toList.length := by
    rw [String.length_toList]
    omega
  rw [shorten, String.length_append, String.length_ofList, List.length_take, Nat.min_eq_left hle]
  rfl

/-- What the record of the truncation touches, and the second pass of the read budget. -/
def metadata : List Path :=
  [["data", "truncation"], ["data", "read_budget"],
    ["data", "read_shape", "session", "omitted_sections"], ["data", "read_shape", "state", "detail"]]

/-- The detail of a full state is marked. -/
def DetailMarked (v w : Option Json) : Prop :=
  w = v ∨ v = some (.str "full") ∧ w = some (.str "truncated")

/-- A list of omitted sections is extended. -/
def OmittedExtended (v w : Option Json) : Prop :=
  w = v ∨ ∃ more, w = some (.arr (listOf (v.getD .null) ++ more))

/-- A read budget is the same, or what is kept of it. -/
def BudgetReduced (v w : Option Json) : Prop :=
  w = v ∨ ∃ budget kept : Members, v = some (.obj budget) ∧ w = some (.obj kept) ∧
    ∀ key, kept.get? key = if key ∈ readBudgetKeys then budget.get? key else none

theorem DetailMarked.trans (h : DetailMarked u v) (h' : DetailMarked v w) : DetailMarked u w := by
  rcases h with rfl | ⟨hu, rfl⟩
  · exact h'
  · rcases h' with rfl | ⟨-, rfl⟩
    · exact .inr ⟨hu, rfl⟩
    · exact .inr ⟨hu, rfl⟩

theorem OmittedExtended.trans (h : OmittedExtended u v) (h' : OmittedExtended v w) :
    OmittedExtended u w := by
  rcases h with rfl | ⟨more, rfl⟩
  · exact h'
  · rcases h' with rfl | ⟨more', rfl⟩
    · exact .inr ⟨more, rfl⟩
    · refine .inr ⟨more ++ more', ?_⟩
      show some (Json.arr ((listOf (u.getD .null) ++ more) ++ more')) = _
      rw [List.append_assoc]

theorem BudgetReduced.trans (h : BudgetReduced u v) (h' : BudgetReduced v w) :
    BudgetReduced u w := by
  rcases h with rfl | ⟨budget, kept, hu, rfl, hkept⟩
  · exact h'
  · rcases h' with rfl | ⟨budget', kept', hv, rfl, hkept'⟩
    · exact .inr ⟨budget, kept, hu, rfl, hkept⟩
    · obtain rfl : kept = budget' := Json.obj.inj (Option.some.inj hv)
      refine .inr ⟨budget, kept', hu, rfl, fun key => ?_⟩
      rw [hkept', hkept]
      split_ifs <;> rfl

variable (dropped : List Dropped)

section

variable (size : Members → Nat) (header : Header) (compact : Bool)

/-- The paths that a record touches. -/
def recordPaths : List Path :=
  [["data", "truncation"], ["data", "read_shape", "session", "omitted_sections"],
    ["data", "read_shape", "state", "detail"]]

end

theorem dropped_note (name : Dropped) (s : Cap) :
    (s.note name).dropped = if name ∈ s.dropped then s.dropped else s.dropped ++ [name] := by
  unfold note
  split_ifs <;> rfl

end Cap

end Workbay.Reading

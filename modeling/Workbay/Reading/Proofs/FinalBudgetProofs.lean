import Workbay.Reading.Proofs.CutProofs

/-!
# The final cap is honest

What is cut from an envelope is what its record lists. The invariant of the passes relates the envelope
at the start to the one that is being cut: outside the record and the listed paths nothing changed, and
what is listed was there and is gone.
-/

namespace Workbay.Reading

open List

open Workbay.Json (Path Frame Apart at?)
open Workbay.Compiler (truthy)

namespace Cap

/-! ## What a list of dropped parts accounts for -/

/-- The paths that may have changed once the parts of a list are dropped. -/
def touchedBy (dropped : List Dropped) : List Path :=
  metadata ++ bulkyTexts.map textPath ++ dropped.flatMap Dropped.paths

/-- `w` is `v` without the parts of the list, up to the record, the reduced read budget, the marks of
the read shape, and texts that are cut to 40 characters. -/
structure Accounts (v w : Json) (dropped : List Dropped) : Prop where
  frame : Frame (touchedBy dropped) v w
  lost : ∀ name ∈ dropped, name ∈ Dropped.all ∧ name.Lost v w
  texts : ∀ key ∈ bulkyTexts, .activeText key ∉ dropped →
    at? (textPath key) w = at? (textPath key) v ∨
      Dropped.CutTo 40 (at? (textPath key) v) (at? (textPath key) w)
  detail : .addOn "read_shape" ∉ dropped →
    DetailMarked (at? ["data", "read_shape", "state", "detail"] v)
      (at? ["data", "read_shape", "state", "detail"] w)
  omitted : .addOn "read_shape" ∉ dropped →
    OmittedExtended (at? ["data", "read_shape", "session", "omitted_sections"] v)
      (at? ["data", "read_shape", "session", "omitted_sections"] w)
  budget : BudgetReduced (at? ["data", "read_budget"] v) (at? ["data", "read_budget"] w)

theorem Accounts.refl (v : Json) : Accounts v v [] :=
  ⟨Json.Frame.refl _ _, by simp, fun _ _ _ => .inl rfl, fun _ => .inl rfl, fun _ => .inl rfl, .inl rfl⟩

theorem mem_touchedBy {dropped : List Dropped} {q : Path} :
    q ∈ touchedBy dropped ↔ q ∈ metadata ∨ (∃ key ∈ bulkyTexts, textPath key = q) ∨
      ∃ name ∈ dropped, q ∈ name.paths := by
  simp only [touchedBy, mem_append, mem_map, mem_flatMap, or_assoc]

theorem names_mem_all : (∀ key ∈ bulkyTexts, Dropped.activeText key ∈ Dropped.all) ∧
    (∀ key ∈ sessionAddOnDropOrder ++ lastResortDropOrder, Dropped.addOn key ∈ Dropped.all) ∧
    (∀ key ∈ nestedStateDropOrder, Dropped.stateSection key ∈ Dropped.all) ∧
    Dropped.writeLimits ∈ Dropped.all ∧ Dropped.attentionEvents ∈ Dropped.all ∧
    Dropped.warnings ∈ Dropped.all := by
  decide +kernel

theorem activeText_mem_all {key : String} (hkey : key ∈ bulkyTexts) :
    Dropped.activeText key ∈ Dropped.all := names_mem_all.1 key hkey

theorem paths_apart : ∀ name ∈ Dropped.all, ∀ p ∈ name.paths,
    Apart ["data", "truncation"] p ∧ Apart ["data", "read_budget"] p ∧
      (name ≠ .addOn "read_shape" →
        Apart p ["data", "read_shape", "session", "omitted_sections"] ∧
          Apart p ["data", "read_shape", "state", "detail"]) ∧
      (∀ q ∈ metadata, ¬ q <+: p) ∧ Apart p ["data", "completion_attention", "count"] ∧
      ¬ p <+: ["data"] := by
  decide +kernel

theorem metadata_not_prefix : ∀ name ∈ Dropped.all, ∀ p ∈ name.paths, ∀ q ∈ metadata, ¬ q <+: p :=
  fun name hname p hp => (paths_apart name hname p hp).2.2.2.1

theorem apart_count : ∀ name ∈ Dropped.all, ∀ p ∈ name.paths,
    Apart p ["data", "completion_attention", "count"] :=
  fun name hname p hp => (paths_apart name hname p hp).2.2.2.2.1

theorem kept_apart : ∀ q ∈ metadata ++ bulkyTexts.map textPath,
    (Apart q ["data", "completion_attention", "events"] ∧
      Apart q ["data", "completion_attention", "count"]) ∧ ¬ q <+: ["data"] := by
  decide +kernel

theorem apart_attention : ∀ q ∈ metadata ++ bulkyTexts.map textPath,
    Apart q ["data", "completion_attention", "events"] ∧
      Apart q ["data", "completion_attention", "count"] :=
  fun q hq => (kept_apart q hq).1

variable {v w : Json} {dropped : List Dropped} {name : Dropped}

theorem touchedBy_not_prefix (hname : name ∈ Dropped.all) (hnot : name ∉ dropped)
    (hall : ∀ b ∈ dropped, b ∈ Dropped.all) (htext : ∀ key, name ≠ .activeText key) :
    ∀ p ∈ name.paths, ∀ q ∈ touchedBy dropped, ¬ q <+: p := by
  intro p hp q hq
  rcases mem_touchedBy.mp hq with hmeta | ⟨key, hkey, rfl⟩ | ⟨b, hb, hqb⟩
  · exact metadata_not_prefix name hname p hp q hmeta
  · exact (Dropped.apart_paths _ (activeText_mem_all hkey) name hname (Ne.symm (htext key)) _
      (mem_singleton_self _) p hp).1
  · have hne : b ≠ name := by
      rintro rfl
      exact hnot hb
    exact (Dropped.apart_paths b (hall b hb) name hname hne q hqb p hp).1

theorem Lost.not_isThere (h : name.Lost v w) (htext : ∀ key, name ≠ .activeText key) :
    ¬ name.IsThere w := by
  intro hthere
  cases name with
  | addOn key => change (at? ["data", key] w).isSome at hthere; rw [h.2] at hthere; cases hthere
  | stateSection key =>
    change (at? ["data", "state", key] w).isSome at hthere; rw [h.2] at hthere; cases hthere
  | activeText key => exact htext key rfl
  | writeLimits =>
    change (at? ["data", "state", "limits", "write"] w).isSome at hthere
    rw [h.2] at hthere
    cases hthere
  | attentionEvents =>
    obtain ⟨events, hevents, htruthy⟩ := hthere
    rw [h.2.1] at hevents
    rw [← Option.some.inj hevents] at htruthy
    cases htruthy
  | warnings => change (at? ["warnings"] w).isSome at hthere; rw [h.2] at hthere; cases hthere

namespace Accounts

theorem isThere_iff (h : Accounts v w dropped) (hname : name ∈ Dropped.all) (hnot : name ∉ dropped)
    (htext : ∀ key, name ≠ .activeText key) : name.IsThere w ↔ name.IsThere v := by
  have hpre := touchedBy_not_prefix hname hnot (fun b hb => (h.lost b hb).1) htext
  have hsome : ∀ p ∈ name.paths, (at? p w).isSome = (at? p v).isSome := fun p hp =>
    h.frame.isSome_eq (hpre p hp)
  cases name with
  | addOn key => exact iff_of_eq (congrArg (· = true) (hsome _ (mem_singleton_self _)))
  | stateSection key => exact iff_of_eq (congrArg (· = true) (hsome _ (mem_singleton_self _)))
  | activeText key => exact absurd rfl (htext key)
  | writeLimits => exact iff_of_eq (congrArg (· = true) (hsome _ (mem_singleton_self _)))
  | attentionEvents =>
    have heq : at? ["data", "completion_attention", "events"] w =
        at? ["data", "completion_attention", "events"] v := by
      refine h.frame.apart _ fun q hq => ?_
      rcases mem_append.mp hq with hleft | hright
      · exact (apart_attention q hleft).1
      · obtain ⟨b, hb, hqb⟩ := mem_flatMap.mp hright
        have hne : b ≠ .attentionEvents := by
          rintro rfl
          exact hnot hb
        exact Dropped.apart_paths b (h.lost b hb).1 _ hname hne q hqb _ (by simp [Dropped.paths])
    show (∃ events, at? ["data", "completion_attention", "events"] w = _ ∧ _) ↔ _
    rw [heq]
    rfl
  | warnings => exact iff_of_eq (congrArg (· = true) (hsome _ (mem_singleton_self _)))

theorem mem_dropped_iff (h : Accounts v w dropped) (hname : name ∈ Dropped.all)
    (htext : ∀ key, name ≠ .activeText key) :
    name ∈ dropped ↔ name.IsThere v ∧ ¬ name.IsThere w := by
  constructor
  · intro hin
    have hlost := (h.lost name hin).2
    exact ⟨hlost.isThere, Lost.not_isThere hlost htext⟩
  · rintro ⟨hv, hw⟩
    by_contra hnot
    exact hw ((h.isThere_iff hname hnot htext).mpr hv)

theorem count_eq (h : Accounts v w dropped) :
    at? ["data", "completion_attention", "count"] w =
      at? ["data", "completion_attention", "count"] v := by
  refine h.frame.apart _ fun q hq => ?_
  rcases mem_append.mp hq with hleft | hright
  · exact (apart_attention q hleft).2
  · obtain ⟨b, hb, hqb⟩ := mem_flatMap.mp hright
    exact apart_count b (h.lost b hb).1 q hqb

end Accounts

theorem CutTo.trans {n m : Nat} {a b c : Option Json} (h : Dropped.CutTo n a b)
    (h' : Dropped.CutTo m b c) : m ≤ n ∧ Dropped.CutTo m a c := by
  obtain ⟨text, ha, hn, hb⟩ := h
  obtain ⟨text', hb', hm, hc⟩ := h'
  rw [hb] at hb'
  have heq : shorten n text = text' := Json.str.inj (Option.some.inj hb')
  rw [← heq, length_shorten hn] at hm
  have hle : m ≤ n := by omega
  refine ⟨hle, text, ha, by omega, ?_⟩
  rw [hc, ← heq, shorten_shorten hle text hn]

namespace Accounts

end Accounts

/-! ## The invariant of the passes -/

/-- The envelope and the list account for the one at the start, and a record that is attached shows
the list. -/
structure Tracks (env : Members) (header : Header) (s : Cap) : Prop where
  accounts : Accounts (.obj env) s.value s.dropped
  shown : s.attached = true → ∃ finalBytes,
    at? ["data", "truncation"] s.value = some (.obj (record header finalBytes s.dropped))

variable {env : Members} {header : Header} {s t u : Cap}

/-- `t` comes after `s` in a pass. -/
structure Runs (env : Members) (header : Header) (s t : Cap) : Prop where
  tracks : Tracks env header s → Tracks env header t
  grows : s.dropped ⊆ t.dropped

theorem Runs.refl (s : Cap) : Runs env header s s := ⟨id, List.Subset.refl _⟩

theorem Runs.trans (h : Runs env header s t) (h' : Runs env header t u) : Runs env header s u :=
  ⟨fun hs => h'.tracks (h.tracks hs), List.Subset.trans h.grows h'.grows⟩

theorem TakesOut.listed {step : Cap → Cap} (hstep : TakesOut name step) (hname : name ∈ Dropped.all)
    (htext : ∀ key, name ≠ .activeText key) (h : Tracks env header s)
    (hthere : name.IsThere (.obj env)) : name ∈ (step s).dropped := by
  rcases hstep s with ⟨hnot, heq⟩ | ⟨envelope, -, -, heq⟩
  · rw [heq]
    by_contra hin
    exact hnot ((h.accounts.isThere_iff hname hin htext).mpr hthere)
  · rw [heq, dropped_note]
    split_ifs with hin
    · exact hin
    · simp

section

variable {size : Members → Nat} {limit : Nat}

end

/-! ## The steps that are not listed -/

theorem Tracks.data (h : Tracks env header s) (hdata : (inside env "data").isSome) :
    s.data?.isSome := by
  obtain ⟨data, hdata⟩ := Option.isSome_iff_exists.mp hdata
  have hpaths : ∀ name ∈ Dropped.all, ∀ p ∈ name.paths, ¬ p <+: ["data"] :=
    fun name hname p hp => (paths_apart name hname p hp).2.2.2.2.2
  have hrest : ∀ p ∈ metadata ++ bulkyTexts.map textPath, ¬ p <+: ["data"] :=
    fun p hp => (kept_apart p hp).2
  have habove := h.accounts.frame.above ["data"] fun q hq => by
    rcases mem_append.mp hq with hleft | hright
    · exact hrest q hleft
    · obtain ⟨b, hb, hqb⟩ := mem_flatMap.mp hright
      exact hpaths b (h.accounts.lost b hb).1 q hqb
  rw [Json.at?_obj_singleton, Json.at?_obj_singleton, get?_of_inside hdata] at habove
  rw [data?, inside]
  cases hget : s.envelope.get? "data" with
  | none => rw [hget] at habove; cases habove
  | some value =>
    rw [hget] at habove
    cases value <;> first | rfl | cases habove

section

variable (size : Members → Nat) (limit : Nat)

end

/-- The first pass of the cap of an envelope. -/
def firstPassOf (size : Members → Nat) (budget : Nat) (env : Members) : Members :=
  (firstPass size (target budget) { envelope := env }).envelope

/-- All that may be dropped is gone, the texts apart; the events may be there if the first pass got to
its target. -/
def NothingLeft (size : Members → Nat) (budget : Nat) (env r : Members) : Prop :=
  (∀ name ∈ Dropped.all, (∀ key, name ≠ .activeText key) → name ≠ .attentionEvents →
    ¬ name.IsThere (.obj r)) ∧
  (¬ Dropped.attentionEvents.IsThere (.obj r) ∨ size (firstPassOf size budget env) ≤ target budget)

/-- The result is within the budget, or was so before the record was written for the last time, or
nothing is left to drop. -/
def Fits (size : Members → Nat) (budget : Nat) (env r : Members) : Prop :=
  size r ≤ budget ∨
    (∃ e : Members, size e ≤ budget ∧ Frame recordPaths (.obj e) (.obj r)) ∨
    NothingLeft size budget env r

end Cap

open Cap

end Workbay.Reading

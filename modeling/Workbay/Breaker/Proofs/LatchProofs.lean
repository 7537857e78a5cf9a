import Workbay.Breaker.Store

/-!
# A configuration latch stands until an operator resets it

A latch is a row that is open for its configuration. What an admission, a look or the end of a
trial does to it, and what the records of outcomes do under other keys, is nothing; a transport
failure and a success of a backend write its row, and overwrite a latch that is there.
-/

namespace Workbay.Text

open List

theorem strip_eq_self_iff {s : String} :
    strip s = s ↔ (∀ c ∈ s.toList.head?, isSpace c = false) ∧
      ∀ c ∈ s.toList.getLast?, isSpace c = false := by
  have hstrip : strip s = s ↔ (s.toList.dropWhile isSpace).rdropWhile isSpace = s.toList := by
    rw [← String.toList_inj, strip, String.toList_ofList]
  rw [hstrip]
  constructor
  · intro h
    have hprefix := List.rdropWhile_prefix isSpace (s.toList.dropWhile isSpace)
    have hlength := hprefix.length_le
    rw [h] at hlength
    have hdrop : s.toList.dropWhile isSpace = s.toList :=
      (dropWhile_suffix isSpace).eq_of_length_le hlength
    rw [hdrop] at h
    constructor
    · intro c hc
      obtain ⟨rest, hrest⟩ := head?_eq_some_iff.mp hc
      rw [hrest, dropWhile_cons] at hdrop
      by_contra hspace
      rw [if_pos (by simpa using hspace)] at hdrop
      have hle := (dropWhile_suffix (l := rest) isSpace).length_le
      rw [hdrop, length_cons] at hle
      omega
    · intro c hc
      have hne : s.toList ≠ [] := by
        intro hnil
        rw [hnil] at hc
        cases hc
      have hlast := rdropWhile_eq_self_iff.mp h hne
      rw [getLast?_eq_some_getLast hne] at hc
      obtain rfl := Option.some.inj hc
      simpa using hlast
  · rintro ⟨hhead, hlast⟩
    have hdrop : s.toList.dropWhile isSpace = s.toList := by
      cases hs : s.toList with
      | nil => rfl
      | cons c rest =>
        rw [hs] at hhead
        rw [dropWhile_cons, if_neg]
        simp [hhead c rfl]
    rw [hdrop, rdropWhile_eq_self_iff]
    intro hne
    simp [hlast _ (getLast?_eq_some_getLast hne)]

theorem strip_append {a b : String} (ha : strip a = a) (hb : strip b = b) (hane : a ≠ "")
    (hbne : b ≠ "") (m : String) : strip (a ++ m ++ b) = a ++ m ++ b := by
  have hane' : a.toList ≠ [] := by simpa using hane
  have hbne' : b.toList ≠ [] := by simpa using hbne
  rw [strip_eq_self_iff] at ha hb ⊢
  simp only [String.toList_append]
  constructor
  · intro c hc
    refine ha.1 c ?_
    rwa [append_assoc, head?_append_of_ne_nil _ hane'] at hc
  · intro c hc
    refine hb.2 c ?_
    rwa [getLast?_append_of_ne_nil _ hbne'] at hc

end Workbay.Text

namespace Workbay.Breaker

open List

variable {data : Data} {backend : String} {model : Option String}

/-- A backend as it is looked up: not blank, without white space around it. -/
def Named (backend : String) : Prop := backend ≠ "" ∧ Text.strip backend = backend

instance : Decidable (Named backend) := inferInstanceAs (Decidable (_ ∧ _))

theorem normalized_some {s : String} (h : Text.strip s = s) : normalized (some s) = s := h

theorem configurationKey_named (hb : Named backend) : Named (configurationKey backend model) := by
  unfold configurationKey
  split
  · exact hb
  · rename_i hmodel
    have hstrip : Text.strip (normalized model) = normalized model := Text.strip_strip _
    refine ⟨?_, Text.strip_append hb.2 hstrip hb.1 hmodel _⟩
    intro hnil
    have hlength := congrArg String.length hnil
    have hsep : "::configuration::".length = 17 := rfl
    rw [String.length_append, String.length_append, hsep, String.length_empty] at hlength
    omega

variable {m : Option String} {settings : Settings} {b : String} {caller : Owner}

variable {key : String} {now : ℚ}

theorem exists_firstOpenConfiguration {b : Option String} (hb : normalized b ≠ "")
    (hkey : key = normalized b ∨
      (normalized m ≠ "" ∧ key = configurationKey (normalized b) (some (normalized m))))
    (h : (row data key).isLatch = true) :
    ∃ found, firstOpenConfiguration data b m = some found := by
  simp only [firstOpenConfiguration, if_neg hb]
  have hfind : ∀ keys : List String, key ∈ keys →
      ∃ found, ((keys.find? fun key => (row data key).isLatch).map fun key =>
        (key, row data key)) = some found := by
    intro keys hin
    obtain ⟨found, hfound⟩ : ∃ found, keys.find? (fun key => (row data key).isLatch) = some found :=
      Option.isSome_iff_exists.mp (find?_isSome.mpr ⟨key, hin, h⟩)
    exact ⟨(found, row data found), by rw [hfound, Option.map_some]⟩
  by_cases hm : normalized m = ""
  · simp only [if_pos hm]
    rcases hkey with heq | ⟨hne, -⟩
    · exact hfind _ (heq ▸ mem_cons_self)
    · exact absurd hm hne
  · simp only [if_neg hm]
    refine hfind _ ?_
    rw [mem_cons, mem_singleton]
    exact hkey.symm.imp And.right id

theorem admitDispatch_of_found {found : String × BreakerState}
    (h : firstOpenConfiguration data (some b) m = some found) :
    (admitDispatch settings b m caller now data).1.allowed = false ∧
      (admitDispatch settings b m caller now data).2 = data := by
  unfold admitDispatch
  cases settings.error with
  | some error => exact ⟨rfl, rfl⟩
  | none => simp [h, refusal]

theorem admitDispatch_refused (hb : Named backend)
    (h : (row data (configurationKey backend model)).isLatch = true)
    (hbackend : Text.strip b = backend)
    (hmodel : normalized model = "" ∨ normalized m = normalized model) :
    (admitDispatch settings b m caller now data).1.allowed = false ∧
      (admitDispatch settings b m caller now data).2 = data := by
  have hnormal : normalized (some b) = backend := hbackend
  obtain ⟨found, hfound⟩ : ∃ found, firstOpenConfiguration data (some b) m = some found := by
    refine exists_firstOpenConfiguration (by rw [hnormal]; exact hb.1) ?_ h
    by_cases hnone : normalized model = ""
    · left
      rw [configurationKey, if_pos hnone, hnormal]
    · right
      have heq := hmodel.resolve_left hnone
      have hstrip : normalized (some (normalized m)) = normalized model :=
        (normalized_some (Text.strip_strip _)).trans heq
      refine ⟨heq ▸ hnone, ?_⟩
      rw [hnormal, configurationKey, configurationKey, hstrip]
  exact admitDispatch_of_found hfound

theorem row_set_of_ne {key' : String} (s : BreakerState) (h : key ≠ key') :
    row (data.set key' s) key = row data key := Dict.getD_set_of_ne _ _ _ h

@[simp] theorem row_set_self (s : BreakerState) :
    row (data.set key s) key = s := Dict.getD_set_self _ _ _ _

theorem row_admitTransport {cooldown : ℚ} (h : key ≠ b) :
    row (admitTransport cooldown b caller now data).2 key = row data key := by
  cases hphase : (row data b).phase with
  | closed => simp only [admitTransport, hphase]
  | halfOpen =>
    simp only [admitTransport, hphase]
    split
    · rfl
    · exact row_set_of_ne _ h
  | open_ =>
    simp only [admitTransport, hphase]
    split
    · rfl
    · exact row_set_of_ne _ h

theorem row_admitDispatch (hkey : Named key) (h : (row data key).isLatch = true) :
    row (admitDispatch settings b m caller now data).2 key = row data key := by
  by_cases hb : b = key
  · have hnormal : normalized (some b) = key := by rw [hb]; exact hkey.2
    obtain ⟨found, hfound⟩ : ∃ found, firstOpenConfiguration data (some b) m = some found :=
      exists_firstOpenConfiguration (by rw [hnormal]; exact hkey.1) (.inl hnormal.symm) h
    rw [(admitDispatch_of_found hfound).2]
  · unfold admitDispatch
    cases settings.error with
    | some error => rfl
    | none =>
      cases firstOpenConfiguration data (some b) m with
      | some found => rfl
      | none => exact row_admitTransport (Ne.symm hb)

theorem row_finishTrial {admission : Admission} {outcome : TrialOutcome}
    (h : (row data key).isLatch = true) :
    row (settle data (finishTrial settings admission outcome now data)).2 key = row data key := by
  unfold finishTrial
  split
  · rename_i trial own _ hown
    simp only
    split
    · rfl
    · rename_i hnot
      by_cases heq : own = key
      · subst heq
        simp only [BreakerState.isLatch, Bool.and_eq_true, decide_eq_true_eq] at h
        simp [h.2] at hnot
      · cases (row data own).finishTrial trial settings outcome now with
        | none => rfl
        | some written =>
          cases written with
          | none => rfl
          | some new => exact row_set_of_ne _ (Ne.symm heq)
  · rfl

theorem row_recordFailure {failure : Failure} (h : key ≠ failureKey b failure m) :
    row (settle data (recordFailure settings b failure m now data)).2 key = row data key := by
  unfold recordFailure
  cases failure with
  | neutral | unknown => rfl
  | checkpoint | transport => exact row_set_of_ne _ h
  | configuration =>
    simp only
    split <;> exact row_set_of_ne _ h

theorem isLatch_recordFailure {failure : Failure} (h : (row data key).isLatch = true)
    (hkey : key = failureKey b failure m) (hfailure : failure ≠ .transport) :
    (row (settle data (recordFailure settings b failure m now data)).2 key).isLatch = true := by
  unfold recordFailure
  rw [← hkey]
  cases failure with
  | neutral | unknown => exact h
  | transport => exact absurd rfl hfailure
  | checkpoint =>
    simp only [BreakerState.isLatch, Bool.and_eq_true, decide_eq_true_eq] at h
    simp [settle, BreakerState.checkpoint, BreakerState.isLatch, h.1, h.2]
  | configuration =>
    simp only
    split <;> simp [settle, BreakerState.opened, BreakerState.isLatch]

/-- Whether a reset removes a key. -/
def Removes (target key : String) : Prop :=
  target = "all" ∨ target = "*" ∨ key = target ∨
    (target ++ "::configuration::").toList.isPrefixOf key.toList = true

theorem row_reset {target : String} (h : ¬ Removes target key) :
    row (reset target data).2 key = row data key := by
  unfold Removes at h
  simp only [not_or] at h
  have hnotin : key ∉ resetKeys target data := by
    unfold resetKeys
    rw [if_neg (by simp [h.1, h.2.1]), mem_insertionSort, mem_filter]
    rintro ⟨-, hin⟩
    rcases Bool.or_eq_true _ _ ▸ hin with heq | hstarts
    · exact h.2.2.1 (of_decide_eq_true heq)
    · exact h.2.2.2 hstarts
  unfold reset
  generalize resetKeys target data = keys at hnotin
  induction keys generalizing data with
  | nil => rfl
  | cons k keys ih =>
    simp only [mem_cons, not_or] at hnotin
    refine (ih hnotin.2).trans ?_
    unfold row Dict.getD
    rw [Dict.get?_pop_of_ne _ hnotin.1]

/-- A call that leaves a latch alone: it records no transport failure and no success under the
key of the latch, nor a failure of another backend, and it does not reset it. -/
def Call.Spares (backend : String) (model : Option String) (c : Call) : Prop :=
  match c.operation with
  | .recordFailure b failure m => failureKey b failure m = configurationKey backend model →
      failure ≠ .transport ∧ b = backend
  | .recordSuccess b => b ≠ configurationKey backend model
  | .reset target => ¬ Removes target (configurationKey backend model)
  | _ => True

/-- A call that records a failure of the backend and the model of a latch. -/
def Call.IsOwn (backend : String) (model : Option String) (c : Call) : Prop :=
  ∃ failure m, c.operation = .recordFailure backend failure m ∧
    failureKey backend failure m = configurationKey backend model

theorem Call.Spares.row {c : Call} (hc : c.Spares backend model) (hb : Named backend)
    (h : (row data (configurationKey backend model)).isLatch = true) :
    (Breaker.row (c.run data).2 (configurationKey backend model)).isLatch = true ∧
      (¬ c.IsOwn backend model → Breaker.row (c.run data).2 (configurationKey backend model) =
        Breaker.row data (configurationKey backend model)) := by
  have hkey : Named (configurationKey backend model) := configurationKey_named hb
  obtain ⟨operation, settings, now⟩ := c
  have hsame : ∀ data' : Data, Breaker.row data' (configurationKey backend model) =
      Breaker.row data (configurationKey backend model) →
      (Breaker.row data' (configurationKey backend model)).isLatch = true ∧
        (¬ Call.IsOwn backend model ⟨operation, settings, now⟩ →
          Breaker.row data' (configurationKey backend model) =
            Breaker.row data (configurationKey backend model)) := by
    intro data' heq
    exact ⟨heq ▸ h, fun _ => heq⟩
  cases operation with
  | admit_ b m caller => exact hsame _ (row_admitDispatch hkey h)
  | inspect b m => exact hsame _ rfl
  | recordFailure b failure m =>
    by_cases hwrites : failureKey b failure m = configurationKey backend model
    · obtain ⟨hfailure, rfl⟩ := hc hwrites
      refine ⟨isLatch_recordFailure h hwrites.symm hfailure, fun hnot => ?_⟩
      exact absurd ⟨failure, m, rfl, hwrites⟩ hnot
    · exact hsame _ (row_recordFailure (Ne.symm hwrites))
  | recordSuccess b => exact hsame _ (row_set_of_ne _ (Ne.symm hc))
  | finishTrial admission outcome => exact hsame _ (row_finishTrial h)
  | reset target => exact hsame _ (row_reset hc)

theorem isLatch_runCalls {calls : List Call} (hb : Named backend)
    (hcalls : ∀ c ∈ calls, c.Spares backend model)
    (h : (row data (configurationKey backend model)).isLatch = true) :
    (row (runCalls calls data) (configurationKey backend model)).isLatch = true := by
  induction calls generalizing data with
  | nil => exact h
  | cons c calls ih =>
    have hstep := (hcalls c mem_cons_self).row hb h
    exact ih (fun c' hc' => hcalls c' (mem_cons_of_mem _ hc')) hstep.1

theorem isLatch_of_recordFailure {c : Call}
    (hc : c.operation = .recordFailure backend .configuration model) :
    (row (c.run data).2 (configurationKey backend model)).isLatch = true := by
  unfold Call.run
  rw [hc]
  simp only [recordFailure, failureKey, if_true]
  split <;> simp [settle, BreakerState.opened, BreakerState.isLatch]

/-- The calls that a latch refuses: of its backend, for its model or for every model. -/
def Call.IsRefusedBy (backend : String) (model : Option String) (c : Call) : Prop :=
  ∃ b m caller, c.operation = .admit_ b m caller ∧ Text.strip b = backend ∧
    (normalized model = "" ∨ normalized m = normalized model)

/-- From the failure that opens a latch on, admissions that it is for are refused, and no call on
another backend or model changes it, as long as every call leaves it alone. -/
theorem latch_stands {opening : Call} {calls : List Call}
    (hopening : opening.operation = .recordFailure backend .configuration model)
    (hb : Named backend) (hcalls : ∀ c ∈ calls, c.Spares backend model) {before after : List Call}
    {c : Call} (hsplit : calls = before ++ c :: after) :
    let found := runCalls before (opening.run data).2
    (c.IsRefusedBy backend model →
      ∃ admission, (c.run found).1 = .admission admission ∧ admission.allowed = false) ∧
    (row (c.run found).2 (configurationKey backend model)).isLatch = true ∧
    (¬ c.IsOwn backend model →
      row (c.run found).2 (configurationKey backend model) =
        row found (configurationKey backend model)) := by
  intro found
  have hlatch : (row found (configurationKey backend model)).isLatch = true :=
    isLatch_runCalls hb
      (fun c' hc' => hcalls c' (by rw [hsplit]; exact mem_append_left _ hc'))
      (isLatch_of_recordFailure hopening)
  have hstep := (hcalls c (by rw [hsplit]; simp)).row hb hlatch
  refine ⟨?_, hstep⟩
  rintro ⟨b, m, caller, hoperation, hbackend, hmodel⟩
  refine ⟨(admitDispatch c.settings b m caller c.now found).1, ?_,
    (admitDispatch_refused hb hlatch hbackend hmodel).1⟩
  unfold Call.run
  rw [hoperation]

/-- A latch without a model, a checkpoint, and an admission. -/
theorem latch_stands_sample :
    (row (runCalls [⟨.recordFailure "codex" .configuration none, {}, 0⟩,
      ⟨.recordFailure "codex" .checkpoint none, {}, 1⟩] []) "codex").isLatch = true ∧
    ∃ admission, (Call.run ⟨.admit_ " codex " (some "m") {}, {}, 1000⟩
      (runCalls [⟨.recordFailure "codex" .checkpoint none, {}, 1⟩]
        (Call.run ⟨.recordFailure "codex" .configuration none, {}, 0⟩ []).2)).1 =
          .admission admission ∧ admission.allowed = false := by
  have hnamed : Named "codex" := by decide
  refine ⟨by decide +kernel, ?_⟩
  refine (@latch_stands [] "codex" none ⟨.recordFailure "codex" .configuration none, {}, 0⟩
    [⟨.recordFailure "codex" .checkpoint none, {}, 1⟩, ⟨.admit_ " codex " (some "m") {}, {}, 1000⟩]
    rfl hnamed ?_ [⟨.recordFailure "codex" .checkpoint none, {}, 1⟩] [] _ rfl).1
    ⟨" codex ", some "m", {}, rfl, by decide, .inl (by decide)⟩
  intro c hc
  simp only [mem_cons, not_mem_nil, or_false] at hc
  rcases hc with rfl | rfl
  · exact fun _ => ⟨by decide, rfl⟩
  · trivial

/-- A success of the backend clears its latch, and the next dispatch is let through. -/
theorem success_clears_latch :
    ∃ admission, (Call.run ⟨.admit_ "codex" none {}, {}, 2⟩
      (runCalls [⟨.recordFailure "codex" .configuration none, {}, 0⟩,
        ⟨.recordSuccess "codex", {}, 1⟩] [])).1 = .admission admission ∧
      admission.allowed = true :=
  ⟨{ allowed := true, phase := .closed, reason := .closed, failureClass := none },
    by decide +kernel, rfl⟩

end Workbay.Breaker

import Workbay.Breaker.Proofs.FileProofs

/-!
# The way out of a refusal

A backend is let through again when the cooldown has passed since every time of its row, whatever
the file holds, unless an admission raises on the file or the row is open since no time at all.
-/

namespace Workbay.Breaker

open List

variable {lib : Library} {settings : FileSettings} {backend : String} {data : FileData}

/-- An admission that is asked for. -/
structure AdmitCall where
  backend : String
  model : Option String
  caller : Owner
  now : ℚ

/-- The admission as a call. -/
def AdmitCall.query (c : AdmitCall) : Query := .admit_ c.backend c.model c.caller

/-- The file after one admission. -/
def AdmitCall.next (lib : Library) (settings : FileSettings) (data : FileData) (c : AdmitCall) :
    FileData :=
  (c.query.run lib settings (.finite c.now) data).1

/-- The file after some admissions. -/
def runAdmits (lib : Library) (settings : FileSettings) (data : FileData)
    (calls : List AdmitCall) : FileData :=
  calls.foldl (AdmitCall.next lib settings) data

/-- One of some admissions is of the backend and lets it through. -/
def AllowedIn (lib : Library) (settings : FileSettings) (backend : String) (data : FileData)
    (calls : List AdmitCall) : Prop :=
  ∃ before c after, calls = before ++ c :: after ∧ c.backend = backend ∧
    Admits lib settings c.backend c.model c.caller (.finite c.now)
      (runAdmits lib settings data before)

/-- The keys that a configuration latch of the backend may have. -/
def LatchKey (backend key : String) : Prop :=
  normalized (some backend) ≠ "" ∧ (key = normalized (some backend) ∨
    (normalized (some backend) ++ "::configuration::").toList <+: key.toList)

/-- The keys whose rows the admissions of the backend read. -/
def OwnKey (backend key : String) : Prop := key = backend ∨ LatchKey backend key

/-- The times of a row. -/
def FileState.times (s : FileState) : List Binary64 :=
  s.openedAt.toList ++ s.trialStartedAt.toList

/-- Whatever is asked between the first admission of the backend and one that comes a cooldown after
it and after the times of the row: one admission of the backend lets it through. -/
def Recovers (lib : Library) (settings : FileSettings) (cooldown : ℚ) (backend : String)
    (data : FileData) : Prop :=
  ∀ (first : AdmitCall) (between : List AdmitCall) (last : AdmitCall),
    first.backend = backend → last.backend = backend → cooldown + first.now ≤ last.now →
    (∀ s, fileRow lib data backend = .ok s → ∀ t, .finite t ∈ s.times →
      cooldown + t ≤ last.now) →
    AllowedIn lib settings backend data (first :: between ++ [last])

/-- The settings are in order, every row that is read can be coerced, and the row of the backend is
not open without a time. -/
structure HasWayOut (lib : Library) (settings : FileSettings) (backend : String)
    (data : FileData) : Prop where
  settings : settings.error = none
  coerced : ∀ key, OwnKey backend key → ∃ s, fileRow lib data key = .ok s
  opened : ∀ s, fileRow lib data backend = .ok s → s.phase = .open_ → s.openedAt ≠ none

theorem remains_finite (cooldown startedAt now : ℚ) :
    remains (.finite cooldown) (.finite startedAt) (.finite now) =
      isCooling cooldown startedAt now := by
  rw [remains, isCooling, Binary64.sub, Binary64.ofRat]
  cases binary64 (now - startedAt) with
  | none =>
    simp only [Binary64.sub, Binary64.isPositive, Bool.not_not]
    exact decide_eq_decide.mpr sub_neg
  | some elapsed =>
    simp only [Binary64.sub, Binary64.ofRat]
    cases hremaining : binary64 (cooldown - elapsed) with
    | none =>
      simp only [Binary64.isPositive]
      rw [← decide_not]
      -- zero is a float, so what is infinite is not zero
      have hne : cooldown - elapsed ≠ 0 := by
        intro hzero
        have hfloat : binary64 0 = some 0 := by decide +kernel
        rw [hzero, hfloat] at hremaining
        cases hremaining
      refine decide_eq_decide.mpr ⟨fun h => ?_, fun h => ?_⟩
      · have hlt := lt_of_le_of_ne (not_lt.mp h) hne.symm
        linarith
      · linarith
    | some remaining => rfl

variable {cooldown : ℚ} {a : FileAdmission} {data' : FileData} {caller : Owner} {old : FileState}

variable {now : ℚ} {key : String}

theorem isCooling_passed {startedAt : ℚ} (hpos : 0 < cooldown)
    (hfloat : binary64 cooldown = some cooldown) (h : cooldown + startedAt ≤ now) :
    isCooling cooldown startedAt now = false := by
  have hle : cooldown ≤ now - startedAt := by linarith
  rw [isCooling]
  cases helapsed : binary64 (now - startedAt) with
  | none => exact decide_eq_false (by linarith)
  | some elapsed =>
    obtain ⟨x, hx, hxle⟩ := binary64_mono hpos.le hle helapsed
    obtain rfl := Option.some.inj (hx.symm.trans hfloat)
    simp only
    cases hremaining : binary64 (x - elapsed) with
    | none => exact decide_eq_false (not_lt.mpr hxle)
    | some remaining =>
      have hround := (binary64_eq_some.mp hremaining).1
      have hneg : rounded (x - elapsed) ≤ 0 := rounded_nonpos (by linarith)
      exact decide_eq_false (by linarith)

/-! ## What the rows of others leave -/

theorem fileRow_set_self (key : String) (row : Row) :
    fileRow lib (data.set key row) key = coerceState lib (some row) := by
  rw [fileRow, Dict.get?_set_self]

theorem fileRow_set_of_ne {key' : String} (row : Row) (h : key' ≠ key) :
    fileRow lib (data.set key row) key' = fileRow lib data key' := by
  rw [fileRow, Dict.get?_set_of_ne _ _ h, fileRow]

theorem toInt_count (lib : Library) (n : Nat) :
    ((Value.int n).orElse (.int 0)).toInt lib = .ok n := by
  rw [Value.orElse]
  split
  · rfl
  · rename_i hzero
    have hn : (n : Int) = 0 := by simpa [Value.isTruthy] using hzero
    rw [hn]
    rfl

theorem optional_value {α : Type} {f : Value → Except PyError α} {g : α → Value} (x : Option α)
    (hf : ∀ a, f (g a) = .ok a) (hg : ∀ a, g a ≠ .null) :
    (optionalValue g x).optional f = .ok x := by
  cases x with
  | none => rfl
  | some a =>
    rw [optionalValue]
    cases hvalue : g a with
    | null => exact absurd hvalue (hg a)
    | bool | int | float | str | collection =>
      rw [Value.optional, ← hvalue, hf a]
      · rfl
      · rw [← hvalue]
        exact hg a

theorem rowNumbers_row (lib : Library) (s : FileState) : rowNumbers lib s.row =
    .ok ⟨s.failureCount, s.openedAt, s.trialStartedAt, s.trialOwner.pid⟩ := by
  have hcount : field s.row "failure_count" = .int s.failureCount := rfl
  have hopened : field s.row "opened_at" = optionalValue .float s.openedAt := rfl
  have hstarted : field s.row "trial_started_at" = optionalValue .float s.trialStartedAt := rfl
  have hpid : field s.row "trial_owner_pid" = optionalValue .int s.trialOwner.pid := rfl
  have htime : ∀ t : Option Binary64,
      (optionalValue Value.float t).optional (·.toFloat lib) = .ok t := fun t =>
    optional_value t (fun _ => rfl) (fun _ => Value.noConfusion)
  have howner : ∀ pid : Option Int, (optionalValue Value.int pid).optional (·.toInt lib) = .ok pid :=
    fun pid => optional_value pid (fun _ => rfl) (fun _ => Value.noConfusion)
  rw [rowNumbers, hcount, hopened, hstarted, hpid, toInt_count, htime, htime, howner]
  rfl

theorem coerceState_halfOpen (lib : Library) (old : FileState) (startedAt : Binary64)
    (caller : Owner) : ∃ s, coerceState lib (some (old.halfOpen startedAt caller).row) = .ok s ∧
      s.isLatch = false := by
  have hphase : Phase.ofText? (((field (old.halfOpen startedAt caller).row "state").orElse
      (.str "closed")).text lib) = some .halfOpen := by
    show Phase.ofText? (((Value.str "half_open").orElse (.str "closed")).text lib) = _
    rfl
  have hclass : FailureClass.ofValue (field (old.halfOpen startedAt caller).row "failure_class") =
      .ok (some .transport) := by
    show FailureClass.ofValue (.str "transport") = _
    rfl
  simp only [coerceState, hphase, rowNumbers_row, hclass]
  exact ⟨_, rfl, rfl⟩

theorem map_refusal_eq_ok {s : FileState} {reason : Reason}
    (h : (fileRefusal key s reason).map (fun a => (a, data)) = .ok (a, data')) :
    data' = data ∧ a.allowed = false := by
  cases hrefused : fileRefusal key s reason with
  | error e =>
    rw [hrefused] at h
    cases h
  | ok b =>
    rw [hrefused] at h
    obtain ⟨rfl, rfl⟩ := Prod.mk.inj (Except.ok.inj h)
    exact ⟨rfl, (fileRefusal_eq_ok hrefused).1⟩

theorem admitRow_eq_ok {cooldown now : Binary64}
    (h : admitRow cooldown backend caller now old data = .ok (a, data')) :
    data' = data ∨ a.allowed = true ∧ data' = data.set backend (old.halfOpen now caller).row := by
  cases hphase : old.phase with
  | closed =>
    simp only [admitRow, hphase, Except.ok.injEq, Prod.mk.injEq] at h
    exact .inl h.2.symm
  | halfOpen =>
    simp only [admitRow, hphase] at h
    split at h
    · exact .inl (map_refusal_eq_ok h).1
    · obtain ⟨rfl, rfl⟩ := Prod.mk.inj (Except.ok.inj h)
      exact .inr ⟨rfl, rfl⟩
  | open_ =>
    simp only [admitRow, hphase] at h
    split at h
    · exact .inl (map_refusal_eq_ok h).1
    · obtain ⟨rfl, rfl⟩ := Prod.mk.inj (Except.ok.inj h)
      exact .inr ⟨rfl, rfl⟩

theorem AdmitCall.next_cases (lib : Library) (settings : FileSettings) (data : FileData)
    (c : AdmitCall) : c.next lib settings data = data ∨
      Admits lib settings c.backend c.model c.caller (.finite c.now) data ∧
      ∃ old : FileState, c.next lib settings data =
        data.set c.backend (old.halfOpen (.finite c.now) c.caller).row := by
  cases hdecided : admitFile lib settings c.backend c.model c.caller (.finite c.now) data with
  | error e =>
    left
    simp only [AdmitCall.next, AdmitCall.query, Query.run, hdecided]
  | ok result =>
    obtain ⟨a, data'⟩ := result
    have hnext : c.next lib settings data = data' := by
      simp only [AdmitCall.next, AdmitCall.query, Query.run, hdecided]
    have hleaves : data' = data ∨ a.allowed = true ∧ ∃ old : FileState,
        data' = data.set c.backend (old.halfOpen (.finite c.now) c.caller).row := by
      rw [admitFile] at hdecided
      split at hdecided
      · exact .inl (Prod.mk.inj (Except.ok.inj hdecided)).2.symm
      · split at hdecided
        · cases hdecided
        · exact .inl (map_refusal_eq_ok hdecided).1
        · split at hdecided
          · cases hdecided
          · rename_i old hrow
            rcases admitRow_eq_ok hdecided with hsame | ⟨hallowed, hset⟩
            · exact .inl hsame
            · exact .inr ⟨hallowed, old, hset⟩
    rcases hleaves with rfl | ⟨hallowed, old, hset⟩
    · exact .inl hnext
    · exact .inr ⟨admits_iff.mpr ⟨a, data', hdecided, hallowed⟩, old, hnext.trans hset⟩

/-- No row that the backend reads is a latch, and every one of them can be coerced. -/
structure Readable (lib : Library) (backend : String) (data : FileData) : Prop where
  coerced : ∀ key, OwnKey backend key → ∃ s, fileRow lib data key = .ok s
  unlatched : ∀ key, LatchKey backend key → ∀ s, fileRow lib data key = .ok s → s.isLatch = false

theorem findLatch_none {keys : List String}
    (h : ∀ key ∈ keys, ∃ s, fileRow lib data key = .ok s ∧ s.isLatch = false) :
    findLatch lib data keys = .ok none := by
  induction keys with
  | nil => rfl
  | cons key keys ih =>
    obtain ⟨s, hs, hlatch⟩ := h key mem_cons_self
    simp only [findLatch, hs, hlatch, Bool.false_eq_true, if_false]
    exact ih fun key hkey => h key (mem_cons_of_mem _ hkey)

theorem toList_prefix_append (s t : String) : s.toList <+: (s ++ t).toList := by
  rw [String.toList_append]
  exact prefix_append _ _

theorem latchKey_of_mem {model : Option String} (h : key ∈ latchKeys data (some backend) model) :
    LatchKey backend key := by
  rw [latchKeys] at h
  split at h
  · cases h
  · rename_i hname
    refine ⟨hname, ?_⟩
    split at h
    · rw [fileConfigurationKeys, mem_cons, mem_insertionSort, mem_filter] at h
      rcases h with rfl | ⟨-, hprefix⟩
      · exact .inl rfl
      · rw [List.isPrefixOf_iff_prefix] at hprefix
        exact .inr hprefix
    · rcases mem_cons.mp h with hkey | h
      · rw [hkey, configurationKey]
        split
        · exact .inl rfl
        · exact .inr (toList_prefix_append _ _)
      · exact .inl (mem_singleton.mp h)

theorem Readable.firstOpenLatch (h : Readable lib backend data) (model : Option String) :
    firstOpenLatch lib data (some backend) model = .ok none := by
  refine findLatch_none fun key hkey => ?_
  have hlatch := latchKey_of_mem hkey
  obtain ⟨s, hs⟩ := h.coerced key (.inr hlatch)
  exact ⟨s, hs, h.unlatched key hlatch s hs⟩

theorem Readable.set (h : Readable lib backend data) (key : String) (old : FileState)
    (startedAt : Binary64) (caller : Owner) :
    Readable lib backend (data.set key (old.halfOpen startedAt caller).row) := by
  obtain ⟨trial, htrial, hunlatched⟩ := coerceState_halfOpen lib old startedAt caller
  refine ⟨fun key' hkey => ?_, fun key' hkey s hs => ?_⟩
  · by_cases hsame : key' = key
    · rw [hsame, fileRow_set_self]
      exact ⟨trial, htrial⟩
    · rw [fileRow_set_of_ne _ hsame]
      exact h.coerced key' hkey
  · by_cases hsame : key' = key
    · rw [hsame, fileRow_set_self, htrial] at hs
      exact Except.ok.inj hs ▸ hunlatched
    · rw [fileRow_set_of_ne _ hsame] at hs
      exact h.unlatched key' hkey s hs

/-- Admissions that do not let the backend through leave its row. -/
theorem run_of_not_allowed (h : Readable lib backend data) {calls : List AdmitCall}
    (hnot : ¬ AllowedIn lib settings backend data calls) :
    Readable lib backend (runAdmits lib settings data calls) ∧
      fileRow lib (runAdmits lib settings data calls) backend = fileRow lib data backend := by
  induction calls generalizing data with
  | nil => exact ⟨h, rfl⟩
  | cons c calls ih =>
    have hrest : ¬ AllowedIn lib settings backend (c.next lib settings data) calls := by
      rintro ⟨before, d, after, rfl, hd, hadmits⟩
      exact hnot ⟨c :: before, d, after, rfl, hd, hadmits⟩
    rcases c.next_cases lib settings data with hsame | ⟨hadmits, old, hset⟩
    · rw [hsame] at hrest
      have hrun : runAdmits lib settings data (c :: calls) = runAdmits lib settings data calls := by
        rw [runAdmits, foldl_cons, hsame, runAdmits]
      rw [hrun]
      exact ih h hrest
    · have hother : backend ≠ c.backend := by
        intro hc
        exact hnot ⟨[], c, calls, rfl, hc.symm, hadmits⟩
      have hrow : fileRow lib (c.next lib settings data) backend = fileRow lib data backend := by
        rw [hset, fileRow_set_of_ne _ hother]
      have hreadable : Readable lib backend (c.next lib settings data) := by
        rw [hset]
        exact h.set _ _ _ _
      rw [← hrow]
      exact ih hreadable hrest

theorem admitRow_passed (hpos : 0 < cooldown) (hfloat : binary64 cooldown = some cooldown)
    (hopened : old.phase = .open_ → old.openedAt ≠ none)
    (hfinite : ∀ t ∈ old.times, ∃ q, t = .finite q)
    (hpassed : ∀ t, .finite t ∈ old.times → cooldown + t ≤ now) :
    ∃ a data', admitRow (.finite cooldown) backend caller (.finite now) old data = .ok (a, data') ∧
      a.allowed = true := by
  have hover : ∀ t ∈ old.times, remains (.finite cooldown) t (.finite now) = false := by
    intro t ht
    obtain ⟨q, rfl⟩ := hfinite t ht
    rw [remains_finite]
    exact isCooling_passed hpos hfloat (hpassed q ht)
  cases hphase : old.phase with
  | closed => exact ⟨_, _, by rw [admitRow, hphase], rfl⟩
  | halfOpen =>
    have hany : (old.trialStartedAt.any fun startedAt =>
        remains (.finite cooldown) startedAt (.finite now)) = false := by
      cases hstarted : old.trialStartedAt with
      | none => rfl
      | some startedAt =>
        refine hover startedAt (mem_append_right _ ?_)
        rw [hstarted]
        exact mem_singleton_self _
    refine ⟨(fileTrial backend old caller (.finite now) .rearmed data).1,
      (fileTrial backend old caller (.finite now) .rearmed data).2, ?_, rfl⟩
    simp only [admitRow, hphase, hany, Bool.false_eq_true, if_false]
  | open_ =>
    obtain ⟨openedAt, hat⟩ := Option.ne_none_iff_exists'.mp (hopened hphase)
    have hmem : openedAt ∈ old.times := by
      refine mem_append_left _ ?_
      rw [hat]
      exact mem_singleton_self _
    have hnot : remains (.finite cooldown) (old.openedAt.getD (.finite now)) (.finite now) =
        false := by
      rw [hat]
      exact hover openedAt hmem
    refine ⟨(fileTrial backend old caller (.finite now) .trial data).1,
      (fileTrial backend old caller (.finite now) .trial data).2, ?_, rfl⟩
    simp only [admitRow, hphase, hnot, Bool.false_eq_true, if_false]

theorem HasWayOut.recovers (h : HasWayOut lib settings backend data)
    (hcooldown : settings.cooldown = .finite cooldown) (hpos : 0 < cooldown)
    (hfloat : binary64 cooldown = some cooldown)
    (hlatch : ∀ key, LatchKey backend key → ∀ s, fileRow lib data key = .ok s → s.isLatch = false)
    (hfinite : ∀ s, fileRow lib data backend = .ok s → ∀ t ∈ s.times, ∃ q, t = .finite q) :
    Recovers lib settings cooldown backend data := by
  intro first between last hfirst hlast _ hpassed
  by_contra hnot
  have hbefore : ¬ AllowedIn lib settings backend data (first :: between) := by
    rintro ⟨before, c, after, hcalls, hc, hadmits⟩
    exact hnot ⟨before, c, after ++ [last], by simp [hcalls], hc, hadmits⟩
  obtain ⟨hreadable, hrow⟩ := run_of_not_allowed ⟨h.coerced, hlatch⟩ hbefore
  obtain ⟨s, hs⟩ := h.coerced backend (.inl rfl)
  have hadmitted : ∃ a data', admitRow (.finite cooldown) backend last.caller (.finite last.now) s
      (runAdmits lib settings data (first :: between)) = .ok (a, data') ∧ a.allowed = true :=
    admitRow_passed hpos hfloat (h.opened s hs) (hfinite s hs) (hpassed s hs)
  obtain ⟨a, data', hdecided, hallowed⟩ := hadmitted
  refine hnot ⟨first :: between, last, [], rfl, hlast, admits_iff.mpr ⟨a, data', ?_, hallowed⟩⟩
  rw [hlast, admitFile, h.settings]
  simp only [hreadable.firstOpenLatch, hrow, hs, hcooldown]
  exact hdecided

theorem not_allowedIn_of_not_admits {calls : List AdmitCall}
    (hcalls : ∀ c ∈ calls, c.backend = backend ∧ c.model = none ∧ c.caller = {})
    (hnot : ∀ now, ¬ Admits lib settings backend none {} (.finite now) data) :
    ¬ AllowedIn lib settings backend data calls := by
  have hsame : ∀ c : AdmitCall, c.backend = backend ∧ c.model = none ∧ c.caller = {} →
      ¬ Admits lib settings c.backend c.model c.caller (.finite c.now) data := by
    rintro c ⟨hbackend, hmodel, hcaller⟩ hadmits
    rw [hbackend, hmodel, hcaller] at hadmits
    exact hnot c.now hadmits
  have hleaves : ∀ before : List AdmitCall,
      (∀ c ∈ before, c.backend = backend ∧ c.model = none ∧ c.caller = {}) →
      runAdmits lib settings data before = data := by
    intro before hbefore
    induction before with
    | nil => rfl
    | cons c before ih =>
      have hc := hsame c (hbefore c mem_cons_self)
      have hnext : c.next lib settings data = data :=
        (c.next_cases lib settings data).resolve_right fun h => hc h.1
      rw [runAdmits, foldl_cons, hnext]
      exact ih fun d hd => hbefore d (mem_cons_of_mem _ hd)
  rintro ⟨before, c, after, rfl, -, hadmits⟩
  rw [hleaves before fun d hd => hcalls d (mem_append_left _ hd)] at hadmits
  exact hsame c (hcalls c (mem_append_right _ mem_cons_self)) hadmits

theorem exists_after (cooldown : ℚ) (times : List Binary64) :
    ∃ now, cooldown ≤ now ∧ ∀ t, .finite t ∈ times → cooldown + t ≤ now := by
  induction times with
  | nil => exact ⟨cooldown, le_rfl, fun t ht => absurd ht not_mem_nil⟩
  | cons x times ih =>
    obtain ⟨now, hnow, hafter⟩ := ih
    cases x with
    | finite q =>
      refine ⟨max now (cooldown + q), hnow.trans (le_max_left _ _), fun t ht => ?_⟩
      rcases mem_cons.mp ht with heq | hmem
      · obtain rfl := Binary64.finite.inj heq
        exact le_max_right _ _
      · exact (hafter t hmem).trans (le_max_left _ _)
    | infinite negative =>
      exact ⟨now, hnow, fun t ht => hafter t ((mem_cons.mp ht).resolve_left Binary64.noConfusion)⟩
    | nan =>
      exact ⟨now, hnow, fun t ht => hafter t ((mem_cons.mp ht).resolve_left Binary64.noConfusion)⟩

theorem Recovers.exists_admits (h : Recovers lib settings cooldown backend data) :
    ∃ now, Admits lib settings backend none {} (.finite now) data := by
  by_contra hnone
  have hafter : ∃ now, cooldown ≤ now ∧ ∀ s, fileRow lib data backend = .ok s →
      ∀ t, .finite t ∈ s.times → cooldown + t ≤ now := by
    cases hrow : fileRow lib data backend with
    | error e => exact ⟨cooldown, le_rfl, fun s hs => by cases hs⟩
    | ok s =>
      obtain ⟨now, hnow, hafter⟩ := exists_after cooldown s.times
      exact ⟨now, hnow, fun s' hs => Except.ok.inj hs ▸ hafter⟩
  obtain ⟨now, hnow, hafter⟩ := hafter
  refine not_allowedIn_of_not_admits (fun c hc => ?_) (fun now hadmits => hnone ⟨now, hadmits⟩)
    (h ⟨backend, none, {}, 0⟩ [] ⟨backend, none, {}, now⟩ rfl rfl (by simpa using hnow) hafter)
  rcases mem_cons.mp hc with rfl | hc
  · exact ⟨rfl, rfl, rfl⟩
  · obtain rfl := mem_singleton.mp hc
    exact ⟨rfl, rfl, rfl⟩

theorem findLatch_eq_none {keys : List String} (h : findLatch lib data keys = .ok none) :
    ∀ key ∈ keys, ∃ s, fileRow lib data key = .ok s := by
  induction keys with
  | nil => exact fun key hkey => absurd hkey not_mem_nil
  | cons first keys ih =>
    intro key hkey
    rw [findLatch] at h
    split at h
    · cases h
    · rename_i s hs
      rcases mem_cons.mp hkey with rfl | hkey
      · exact ⟨s, hs⟩
      · split at h
        · cases h
        · exact ih h key hkey

theorem mem_latchKeys (h : LatchKey backend key) :
    key ∈ latchKeys data (some backend) none ∨ data.get? key = none := by
  have hmodel : normalized none = "" := by decide +kernel
  rw [latchKeys, if_neg h.1, if_pos hmodel, fileConfigurationKeys, mem_cons,
    mem_insertionSort, mem_filter, List.isPrefixOf_iff_prefix]
  rcases h.2 with rfl | hprefix
  · exact .inl (.inl rfl)
  · by_cases hkey : key ∈ data.map Prod.fst
    · exact .inl (.inr ⟨hkey, hprefix⟩)
    · exact .inr (Dict.get?_eq_none_iff.mpr hkey)

theorem admitRow_open_without_time (hpos : 0 < cooldown)
    (hfloat : binary64 cooldown = some cooldown) (hphase : old.phase = .open_)
    (hopened : old.openedAt = none)
    (h : admitRow (.finite cooldown) backend caller (.finite now) old data = .ok (a, data')) :
    a.allowed = false := by
  have hcools : remains (.finite cooldown) (.finite now) (.finite now) = true := by
    have hzero : binary64 (now - now) = some 0 := by
      rw [sub_self]
      decide +kernel
    rw [remains_finite, isCooling, hzero]
    simp only [sub_zero, hfloat, hpos, decide_true]
  simp only [admitRow, hphase, hopened, Option.getD_none, hcools, if_true] at h
  exact (map_refusal_eq_ok h).2

theorem Admits.hasWayOut (hcooldown : settings.cooldown = .finite cooldown) (hpos : 0 < cooldown)
    (hfloat : binary64 cooldown = some cooldown)
    (h : Admits lib settings backend none {} (.finite now) data) :
    HasWayOut lib settings backend data := by
  obtain ⟨a, data', hdecided, hallowed⟩ := admits_iff.mp h
  rw [admitFile] at hdecided
  split at hdecided
  · obtain ⟨rfl, -⟩ := Prod.mk.inj (Except.ok.inj hdecided)
    cases hallowed
  · rename_i hsettings
    split at hdecided
    · cases hdecided
    · have hrefused := (map_refusal_eq_ok hdecided).2
      rw [hallowed] at hrefused
      cases hrefused
    · rename_i hnone
      split at hdecided
      · cases hdecided
      · rename_i old hrow
        refine ⟨hsettings, fun key hkey => ?_, fun s hs hphase hopened => ?_⟩
        · rcases hkey with rfl | hkey
          · exact ⟨old, hrow⟩
          · rcases mem_latchKeys hkey with hmem | hmissing
            · exact findLatch_eq_none hnone key hmem
            · exact ⟨{}, by rw [fileRow, hmissing, coerceState]⟩
        · obtain rfl := Except.ok.inj (hrow.symm.trans hs)
          rw [hcooldown] at hdecided
          have hrefused := admitRow_open_without_time hpos hfloat hphase hopened hdecided
          rw [hallowed] at hrefused
          cases hrefused

/-- A backend without a latch recovers from whatever the file holds if and only if there is a way
out of it. -/
theorem recovers_iff {cooldown : ℚ} (hcooldown : settings.cooldown = .finite cooldown)
    (hpos : 0 < cooldown) (hfloat : binary64 cooldown = some cooldown)
    (hlatch : ∀ key, LatchKey backend key → ∀ s, fileRow lib data key = .ok s → s.isLatch = false)
    (hfinite : ∀ s, fileRow lib data backend = .ok s → ∀ t ∈ s.times, ∃ q, t = .finite q) :
    Recovers lib settings cooldown backend data ↔ HasWayOut lib settings backend data := by
  constructor
  · intro h
    obtain ⟨now, hadmits⟩ := h.exists_admits
    exact hadmits.hasWayOut hcooldown hpos hfloat
  · exact fun h => h.recovers hcooldown hpos hfloat hlatch hfinite

/-- A row of an open breaker that says no more. -/
def bareOpen : FileData := [("codex", [("state", .str "open")])]

theorem recovers_closed : Recovers plainLibrary {} 300 "codex" [] := by
  refine (recovers_iff rfl (by decide) (by decide +kernel) ?_ ?_).mpr ⟨rfl, ?_, ?_⟩
  · intro key _ s hs
    obtain rfl := Except.ok.inj hs
    rfl
  · intro s hs t ht
    obtain rfl := Except.ok.inj hs
    cases ht
  · exact fun key _ => ⟨{}, rfl⟩
  · intro s hs hphase
    obtain rfl := Except.ok.inj hs
    cases hphase

/-- An open row without a time never lets a dispatch through. -/
theorem bareOpen_stuck : ¬ Recovers plainLibrary {} 300 "codex" bareOpen := by
  intro h
  obtain ⟨now, hadmits⟩ := h.exists_admits
  have hfloat : binary64 300 = some 300 := by decide +kernel
  have hway := hadmits.hasWayOut rfl (by decide) hfloat
  have hrow : fileRow plainLibrary bareOpen "codex" = .ok { phase := .open_ } := by decide +kernel
  exact hway.opened _ hrow rfl rfl

end Workbay.Breaker

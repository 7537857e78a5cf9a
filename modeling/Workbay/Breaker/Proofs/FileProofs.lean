import Workbay.Breaker.File
import Workbay.Breaker.Proofs.TrialProofs

/-!
# Admission and guidance on the file

`admit` and `inspect` decide alike on every file. What they need not both do is name the latch: a
refusal has the date of its row, which not every time has.
-/

namespace Workbay.Breaker

variable {lib : Library} {settings : FileSettings} {backend : String} {model : Option String}
  {caller : Owner} {now : Binary64} {data : FileData}

/-- `admit` lets the dispatch through. -/
def Admits (lib : Library) (settings : FileSettings) (backend : String) (model : Option String)
    (caller : Owner) (now : Binary64) (data : FileData) : Prop :=
  ∃ a, ((Query.admit_ backend model caller).run lib settings now data).2 = .ok a ∧
    a.allowed = true

/-- `inspect` lets the dispatch through, or says that a trial may be armed. -/
def Guides (lib : Library) (settings : FileSettings) (backend : String) (model : Option String)
    (now : Binary64) (data : FileData) : Prop :=
  ∃ a, ((Query.inspect (some backend) model).run lib settings now data).2 = .ok a ∧
    (a.allowed = true ∨ a.trialArmable = true)

/-- The latch that a reason names. -/
def Reason.latch? : Reason → Option String
  | configuration key => some key
  | _ => none

/-- The answer of a call names a latch. -/
def Names (answer : Except PyError FileAdmission) (key : String) : Prop :=
  ∃ a, answer = .ok a ∧ a.reason.latch? = some key

/-- The two calls agree, and the second one leaves the file. -/
structure Agrees (lib : Library) (settings : FileSettings) (backend : String)
    (model : Option String) (caller : Owner) (now : Binary64) (data : FileData) : Prop where
  decision : Admits lib settings backend model caller now data ↔
    Guides lib settings backend model now data
  latch : ∀ key,
    Names ((Query.admit_ backend model caller).run lib settings now data).2 key ↔
      Names ((Query.inspect (some backend) model).run lib settings now data).2 key
  unchanged : ((Query.inspect (some backend) model).run lib settings now data).1 = data

/-- The decision of `admit` on a row is that of `inspect`, and neither names a latch. -/
theorem admitRow_cases (cooldown : Binary64) (backend : String) (caller : Owner) (now : Binary64)
    (old : FileState) (data : FileData) :
    (inspectRow cooldown now old).reason.latch? = none ∧
    ((∃ a data', admitRow cooldown backend caller now old data = .ok (a, data') ∧
      a.allowed = true ∧ a.reason.latch? = none ∧
      ((inspectRow cooldown now old).allowed = true ∨
        (inspectRow cooldown now old).trialArmable = true)) ∨
    ((inspectRow cooldown now old).allowed = false ∧
      (inspectRow cooldown now old).trialArmable = false ∧
      ∃ reason : Reason, reason.latch? = none ∧
        admitRow cooldown backend caller now old data =
          (fileRefusal backend old reason).map fun a => (a, data))) := by
  cases hphase : old.phase with
  | closed =>
    simp only [admitRow, inspectRow, hphase]
    exact ⟨rfl, .inl ⟨_, _, rfl, rfl, rfl, .inl trivial⟩⟩
  | halfOpen =>
    cases hstarted : old.trialStartedAt with
    | none =>
      simp only [admitRow, inspectRow, hphase, hstarted]
      exact ⟨rfl, .inl ⟨_, _, rfl, rfl, rfl, .inr trivial⟩⟩
    | some startedAt =>
      cases hremains : remains cooldown startedAt now with
      | true =>
        simp only [admitRow, inspectRow, hphase, hstarted, Option.any_some, hremains, if_true]
        exact ⟨rfl, .inr ⟨trivial, trivial, _, rfl, rfl⟩⟩
      | false =>
        simp only [admitRow, inspectRow, hphase, hstarted, Option.any_some, hremains]
        exact ⟨rfl, .inl ⟨_, _, rfl, rfl, rfl, .inr rfl⟩⟩
  | open_ =>
    cases hremains : remains cooldown (old.openedAt.getD now) now with
    | true =>
      simp only [admitRow, inspectRow, hphase, hremains, if_true]
      exact ⟨rfl, .inr ⟨trivial, trivial, _, rfl, rfl⟩⟩
    | false =>
      simp only [admitRow, inspectRow, hphase, hremains]
      exact ⟨rfl, .inl ⟨_, _, rfl, rfl, rfl, .inr rfl⟩⟩

theorem fileRefusal_eq_ok {key : String} {s : FileState} {reason : Reason} {a : FileAdmission}
    (h : fileRefusal key s reason = .ok a) : a.allowed = false ∧ a.reason = reason := by
  rw [fileRefusal] at h
  split at h
  · obtain rfl := Except.ok.inj h
    exact ⟨rfl, rfl⟩
  · cases h

theorem admit_answer : ((Query.admit_ backend model caller).run lib settings now data).2 =
    (admitFile lib settings backend model caller now data).map Prod.fst := by
  rw [Query.run]
  cases admitFile lib settings backend model caller now data with
  | error e => rfl
  | ok result => rfl

theorem inspect_answer : ((Query.inspect (some backend) model).run lib settings now data).2 =
    inspectFile lib settings (some backend) model now data := rfl

theorem admits_iff : Admits lib settings backend model caller now data ↔
    ∃ a data', admitFile lib settings backend model caller now data = .ok (a, data') ∧
      a.allowed = true := by
  rw [Admits, admit_answer]
  cases admitFile lib settings backend model caller now data with
  | error e => simp [Except.map]
  | ok result =>
    obtain ⟨a, data'⟩ := result
    simp [Except.map]

theorem not_names_error {e : PyError} {key : String} : ¬ Names (.error e) key := by
  rintro ⟨a, ha, -⟩
  cases ha

theorem names_ok {a : FileAdmission} {key : String} :
    Names (.ok a) key ↔ a.reason.latch? = some key := by
  constructor
  · rintro ⟨b, hb, hkey⟩
    obtain rfl := Except.ok.inj hb
    exact hkey
  · exact fun hkey => ⟨a, rfl, hkey⟩

theorem not_names_none {answer : Except PyError FileAdmission} {key : String}
    (h : ∀ a, answer = .ok a → a.reason.latch? = none) : ¬ Names answer key := by
  rintro ⟨a, ha, hkey⟩
  rw [h a ha] at hkey
  cases hkey

/-- Two answers that neither permit nor name a latch. -/
theorem agrees_of_silent {answer : Except PyError (FileAdmission × FileData)}
    {guidance : Except PyError FileAdmission}
    (hdecided : admitFile lib settings backend model caller now data = answer)
    (hinspect : inspectFile lib settings (some backend) model now data = guidance)
    (hanswer : ∀ a data', answer = .ok (a, data') → a.allowed = false ∧ a.reason.latch? = none)
    (hguidance : ∀ a, guidance = .ok a → a.allowed = false ∧ a.trialArmable = false ∧
      a.reason.latch? = none) : Agrees lib settings backend model caller now data := by
  refine ⟨⟨fun h => ?_, ?_⟩, fun key => ⟨fun h => ?_, fun h => ?_⟩, rfl⟩
  · obtain ⟨a, data', hok, hallowed⟩ := admits_iff.mp h
    rw [(hanswer a data' (hdecided ▸ hok)).1] at hallowed
    cases hallowed
  · rintro ⟨a, hok, hpermits⟩
    rw [inspect_answer, hinspect] at hok
    obtain ⟨hallowed, harmable, -⟩ := hguidance a hok
    rw [hallowed, harmable] at hpermits
    rcases hpermits with h | h <;> cases h
  · rw [admit_answer, hdecided] at h
    refine absurd h (not_names_none fun a ha => ?_)
    cases answer with
    | error e => cases ha
    | ok result =>
      obtain rfl := Except.ok.inj ha
      exact (hanswer _ _ rfl).2
  · rw [inspect_answer, hinspect] at h
    exact absurd h (not_names_none fun a ha => (hguidance a ha).2.2)

/-- `admit` and `inspect` agree if and only if the latch that applies, if there is one, has no time
or one that has a date. -/
theorem guidance_agrees (hb : Named backend) :
    Agrees lib settings backend model caller now data ↔
      (settings.error = none → ∀ key latch,
        firstOpenLatch lib data (some backend) model = .ok (some (key, latch)) →
        latch.openedAt.all inCalendar = true) := by
  have hname : normalized (some backend) = backend := normalized_some hb.2
  cases herror : settings.error with
  | some error =>
    refine iff_of_true (agrees_of_silent (by rw [admitFile, herror]) (by rw [inspectFile, herror])
      ?_ ?_) (fun h => by cases h)
    · intro a data' h
      obtain ⟨rfl, -⟩ := Prod.mk.inj (Except.ok.inj h)
      exact ⟨rfl, rfl⟩
    · intro a h
      obtain rfl := Except.ok.inj h
      exact ⟨rfl, rfl, rfl⟩
  | none =>
    cases hlatch : firstOpenLatch lib data (some backend) model with
    | error e =>
      have hdecided : admitFile lib settings backend model caller now data = .error e := by
        simp only [admitFile, herror, hlatch]
      have hinspect : inspectFile lib settings (some backend) model now data = .error e := by
        simp only [inspectFile, herror, hlatch]
      refine iff_of_true (agrees_of_silent hdecided hinspect ?_ ?_) (fun _ key latch h => by cases h)
      · intro a data' h
        cases h
      · intro a h
        cases h
    | ok found =>
      cases found with
      | some entry =>
        obtain ⟨key, latch⟩ := entry
        have hdecided : admitFile lib settings backend model caller now data =
            (fileRefusal key latch (.configuration key)).map fun a => (a, data) := by
          simp only [admitFile, herror, hlatch]
        have hinspect : ∃ a, inspectFile lib settings (some backend) model now data = .ok a ∧
            a.allowed = false ∧ a.trialArmable = false ∧ a.reason.latch? = some key := by
          simp only [inspectFile, herror, hlatch]
          exact ⟨_, rfl, rfl, rfl, rfl⟩
        obtain ⟨a, hok, hallowed, harmable, hnamed⟩ := hinspect
        constructor
        · intro h _ key' latch' heq
          obtain ⟨rfl, rfl⟩ := Prod.mk.inj (Option.some.inj (Except.ok.inj heq))
          have hnames := (h.latch key).mpr (by rw [inspect_answer, hok, names_ok]; exact hnamed)
          rw [admit_answer, hdecided] at hnames
          by_contra hdate
          rw [fileRefusal, if_neg hdate] at hnames
          exact not_names_error hnames
        · intro hdate
          have hok' := hdate rfl key latch rfl
          rw [fileRefusal, if_pos hok'] at hdecided
          refine ⟨⟨fun h => ?_, ?_⟩, fun key' => ?_, rfl⟩
          · obtain ⟨b, data', hb', hallowed'⟩ := admits_iff.mp h
            rw [hdecided] at hb'
            obtain ⟨rfl, -⟩ := Prod.mk.inj (Except.ok.inj hb')
            cases hallowed'
          · rintro ⟨b, hb', hpermits⟩
            rw [inspect_answer, hok] at hb'
            obtain rfl := Except.ok.inj hb'
            rw [hallowed, harmable] at hpermits
            rcases hpermits with h | h <;> cases h
          · rw [admit_answer, hdecided, inspect_answer, hok, names_ok, hnamed]
            exact names_ok
      | none =>
        refine iff_of_true ?_ (fun _ key latch h => by cases h)
        cases hrow : fileRow lib data backend with
        | error e =>
          have hdecided : admitFile lib settings backend model caller now data = .error e := by
            simp only [admitFile, herror, hlatch, hrow]
          have hinspect : inspectFile lib settings (some backend) model now data = .error e := by
            simp only [inspectFile, herror, hlatch, hname, if_neg hb.1, hrow]
            rfl
          refine agrees_of_silent hdecided hinspect ?_ ?_
          · intro a data' h
            cases h
          · intro a h
            cases h
        | ok old =>
          have hdecided : admitFile lib settings backend model caller now data =
              admitRow settings.cooldown backend caller now old data := by
            simp only [admitFile, herror, hlatch, hrow]
          have hinspect : inspectFile lib settings (some backend) model now data =
              .ok (inspectRow settings.cooldown now old) := by
            simp only [inspectFile, herror, hlatch, hname, if_neg hb.1, hrow]
            rfl
          obtain ⟨hsilent, hcases⟩ :=
            admitRow_cases settings.cooldown backend caller now old data
          rcases hcases with ⟨a, data', hok, hallowed, hreason, hpermits⟩ |
            ⟨hallowed, harmable, reason, hreason, hrefused⟩
          · refine ⟨iff_of_true ?_ ?_, fun key => iff_of_false ?_ ?_, rfl⟩
            · exact admits_iff.mpr ⟨a, data', hdecided.trans hok, hallowed⟩
            · exact ⟨_, hinspect, hpermits⟩
            · rw [admit_answer, hdecided, hok]
              refine not_names_none fun b hb' => ?_
              obtain rfl := Except.ok.inj hb'
              exact hreason
            · rw [inspect_answer, hinspect, names_ok, hsilent]
              exact Option.some_ne_none key ∘ Eq.symm
          · refine agrees_of_silent (hdecided.trans hrefused) hinspect ?_ ?_
            · intro a data' h
              cases hrefusal : fileRefusal backend old reason with
              | error e =>
                rw [hrefusal] at h
                cases h
              | ok b =>
                rw [hrefusal] at h
                obtain ⟨rfl, -⟩ := Prod.mk.inj (Except.ok.inj h)
                obtain ⟨hallowed', hreason'⟩ := fileRefusal_eq_ok hrefusal
                exact ⟨hallowed', by rw [hreason', hreason]⟩
            · intro a h
              obtain rfl := Except.ok.inj h
              exact ⟨hallowed, harmable, hsilent⟩

/-- Texts that are no numbers. -/
def plainLibrary : Library where
  intOfText _ := none
  floatOfText _ := none
  textOf _ := ""

/-- The latch of a backend that was opened at a time in milliseconds. -/
def millisecondsLatch : FileData :=
  [("codex", [("state", .str "open"), ("failure_class", .str "configuration"),
    ("opened_at", .int 1000000000000)])]

/-- A latch. -/
def latchAt (q : ℚ) : FileState :=
  { phase := .open_, failureClass := some .configuration, openedAt := some (.finite q) }

/-- The latch of a backend that was opened at a time in seconds. -/
def secondsLatch : FileData :=
  [("codex", [("state", .str "open"), ("failure_class", .str "configuration"),
    ("opened_at", .int 1000000000)])]

theorem guidance_agrees_sample :
    Agrees plainLibrary {} "codex" none {} (.finite 0) secondsLatch := by
  refine (guidance_agrees (by decide +kernel)).mpr fun _ key latch h => ?_
  have hfound : firstOpenLatch plainLibrary secondsLatch (some "codex") none =
      .ok (some ("codex", latchAt 1000000000)) := by decide +kernel
  rw [hfound] at h
  obtain ⟨-, rfl⟩ := Prod.mk.inj (Option.some.inj (Except.ok.inj h))
  decide +kernel

/-- What `inspect` says of a latch. -/
def latchGuidance (key : String) : FileAdmission where
  allowed := false
  phase := .open_
  reason := .configuration key
  failureClass := some .configuration

/-- `admit` raises where `inspect` names the latch. -/
theorem latch_not_named : ¬ Agrees plainLibrary {} "codex" none {} (.finite 0) millisecondsLatch := by
  intro h
  have hnamed : Names ((Query.inspect (some "codex") none).run plainLibrary {} (.finite 0)
      millisecondsLatch).2 "codex" :=
    ⟨latchGuidance "codex", by decide +kernel, rfl⟩
  have hraised : ((Query.admit_ "codex" none {}).run plainLibrary {} (.finite 0)
      millisecondsLatch).2 = .error .outOfRange := by decide +kernel
  have hnamed' := (h.latch "codex").mpr hnamed
  rw [hraised] at hnamed'
  exact not_names_error hnamed'

end Workbay.Breaker

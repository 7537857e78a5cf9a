import Workbay.Wave.Proofs.SupervisorProofs

/-!
# Rules for the programs of a supervisor

One rule for each operation, and from them rules for `emit` and `replayNow`. What a supervisor knows
between two operations is the record of every lane that nobody has touched (`Seen`).
-/

namespace Workbay.Wave

open Effects Git List

section

variable {ι : Type} {ctx : SupervisorContext} {i : ι}

/-- The records `lane` are right for all lanes for which no other supervisor has appended since the
step of `i` began. -/
def Seen (i : ι) (lane : LaneId → LaneState) (w : SupervisorWorld ι) : Prop :=
  ∀ laneId, laneId ∉ w.touched i → w.lane laneId = lane laneId

namespace Seen

variable {lane lane' : LaneId → LaneState} {w w' : SupervisorWorld ι}

theorem since (h : Seen i lane w) (hs : Since ctx i w w') : Seen i lane w' :=
  fun l hl => (hs.lane l hl).trans (h l fun hm => hl (hs.touched l hm))

theorem eq (h : Seen i lane w) (ht : w.touched i = []) : w.lane = lane :=
  funext fun l => h l (by simp [ht])

end Seen

/-- What a lane can look like after an attempt to append an event. -/
def Became (kind : String) (fields : Dict String Json) (st st' : LaneState) : Prop :=
  st' = st ∨ ∃ (e : JournalEvent) (unproven : String → String → Option String),
    e.kind = kind ∧ e.fields = fields ∧ st' = st.apply unproven e

/-- After an attempt to append an event for a lane: the record of that lane may have moved by the
event. -/
def After (i : ι) (lane : LaneId → LaneState) (laneId : LaneId) (kind : String)
    (fields : Dict String Json) (w w' : SupervisorWorld ι) : Prop :=
  (∀ l ∈ w.touched i, l ∈ w'.touched i) ∧
    ∃ st, Seen i (Function.update lane laneId st) w' ∧ Became kind fields (lane laneId) st

theorem After.since {lane : LaneId → LaneState} {laneId : LaneId} {kind : String}
    {fields : Dict String Json} {w₁ w₂ w₃ : SupervisorWorld ι}
    (h : After i lane laneId kind fields w₁ w₂) (hs : Since ctx i w₂ w₃) :
    After i lane laneId kind fields w₁ w₃ := by
  obtain ⟨ht, st, hst, hbecame⟩ := h
  exact ⟨fun l hl => hs.touched l (ht l hl), st, hst.since hs, hbecame⟩

theorem Since.after {lane : LaneId → LaneState} {laneId : LaneId} {kind : String}
    {fields : Dict String Json} {w₁ w₂ w₃ : SupervisorWorld ι} (hs : Since ctx i w₁ w₂)
    (h : After i lane laneId kind fields w₂ w₃) : After i lane laneId kind fields w₁ w₃ :=
  ⟨fun l hl => h.1 l (hs.touched l hl), h.2⟩

variable {e : JournalEvent}

theorem lane_append {w w' : SupervisorWorld ι} (hrepo : w'.repo = w.repo)
    (hj : w'.journal = w.journal ++ [e]) (laneId : LaneId) :
    w'.lane laneId = if laneOf e.fields = some laneId then
      (w.lane laneId).apply (inGraph w.repo) e else w.lane laneId := by
  unfold SupervisorWorld.lane
  rw [hj, hrepo, laneView_concat]

theorem SupervisorOk.append {w w' : SupervisorWorld ι} {laneId : LaneId} (h : SupervisorOk ctx w)
    (hrepo : w'.repo = w.repo) (hj : w'.journal = w.journal ++ [e])
    (hlane : laneOf e.fields = some laneId) (hknown : laneId ∈ ctx.laneIds)
    (he : EventOk w.repo.objectIdLength e) (hm : LaneMove ctx.attemptBudget (w.lane laneId) e)
    (hcert : e.kind = "lane.integrated" →
      Certified w.repo ctx.wave ((e.str? "tip").getD "") ((e.str? "wave_tip").getD "")) :
    SupervisorOk ctx w' := by
  have hmem : ∀ {e'}, e' ∈ w'.journal → e' ∈ w.journal ∨ e' = e := by
    intro e' he'
    rw [hj, mem_append, mem_singleton] at he'
    exact he'
  refine ⟨fun e' he' => ?_, fun e' he' hk => ?_, fun l => ?_, fun e' he' l hl => ?_⟩
  · rw [hrepo]
    rcases hmem he' with he' | rfl
    · exact h.events e' he'
    · exact he
  · rw [hrepo]
    rcases hmem he' with he' | rfl
    · exact h.certified e' he' hk
    · exact hcert hk
  · rw [lane_append hrepo hj, hrepo]
    by_cases hl : laneOf e.fields = some l
    · rw [if_pos hl]
      obtain rfl : laneId = l := Option.some.inj (hlane.symm.trans hl)
      exact (hm.apply he (h.lanes laneId)).1
    · rw [if_neg hl]
      exact h.lanes l
  · rcases hmem he' with he' | rfl
    · exact h.known e' he' l hl
    · obtain rfl : laneId = l := Option.some.inj (hlane.symm.trans hl)
      exact hknown

theorem SupervisorOk.append_refused {w w' : SupervisorWorld ι} (h : SupervisorOk ctx w)
    (hrepo : w'.repo = w.repo) (hj : w'.journal = w.journal ++ [e]) (hk : e.kind = "wave.refused")
    (hlane : laneOf e.fields = none) (he : EventOk w.repo.objectIdLength e) :
    SupervisorOk ctx w' := by
  have hmem : ∀ {e'}, e' ∈ w'.journal → e' ∈ w.journal ∨ e' = e := by
    intro e' he'
    rw [hj, mem_append, mem_singleton] at he'
    exact he'
  refine ⟨fun e' he' => ?_, fun e' he' hk' => ?_, fun l => ?_, fun e' he' l hl => ?_⟩
  · rw [hrepo]
    rcases hmem he' with he' | rfl
    · exact h.events e' he'
    · exact he
  · rw [hrepo]
    rcases hmem he' with he' | rfl
    · exact h.certified e' he' hk'
    · rw [hk] at hk'; simp at hk'
  · rw [lane_append hrepo hj, hrepo, if_neg (by simp [hlane])]
    exact h.lanes l
  · rcases hmem he' with he' | rfl
    · exact h.known e' he' l hl
    · rw [hlane] at hl; simp at hl

/-- The supervisor `i`, which knows the records `lane`, may append this event for a lane. -/
structure Permitted (ctx : SupervisorContext) (i : ι) (lane : LaneId → LaneState) (laneId : LaneId)
    (kind : String) (fields : Dict String Json) (w : SupervisorWorld ι) : Prop where
  about : laneOf fields = some laneId
  known : laneId ∈ ctx.laneIds
  legal : laneId ∉ w.touched i → LaneOk w.repo.objectIdLength (lane laneId) →
    Legal w.repo.objectIdLength ctx.attemptBudget (lane laneId) kind fields
  certified : kind = "lane.integrated" → ∀ e : JournalEvent, e.fields = fields →
    Certified w.repo ctx.wave ((e.str? "tip").getD "") ((e.str? "wave_tip").getD "")
  start : w.touched i = [] → (lane laneId).state = .pending → kind = "lane.submitted" →
    ∃ spec, ctx.spec = .ok spec ∧ Startable spec ctx.width lane laneId

namespace Permitted

variable {lane : LaneId → LaneState} {laneId : LaneId} {kind : String} {fields : Dict String Json}
  {w w' : SupervisorWorld ι}

theorem since (h : Permitted ctx i lane laneId kind fields w) (hs : Since ctx i w w') :
    Permitted ctx i lane laneId kind fields w' := by
  refine ⟨h.about, h.known, ?_, fun hk e hf => ((h.certified hk e hf).forward hs.forward).1,
    fun ht => h.start (hs.untouched ht)⟩
  rw [hs.forward.objectIdLength]
  exact fun hun => h.legal fun hm => hun (hs.touched _ hm)

theorem of_legal (hlane : laneOf fields = some laneId) (hknown : laneId ∈ ctx.laneIds)
    (hlegal : laneId ∉ w.touched i → LaneOk w.repo.objectIdLength (lane laneId) →
      Legal w.repo.objectIdLength ctx.attemptBudget (lane laneId) kind fields)
    (hi : kind ≠ "lane.integrated") (hs : kind ≠ "lane.submitted") :
    Permitted ctx i lane laneId kind fields w :=
  ⟨hlane, hknown, hlegal, fun h => absurd h hi, fun _ _ h => absurd h hs⟩

end Permitted

theorem Since.of_forward {w w' : SupervisorWorld ι}
    (hc : CertifiedEvents w.repo ctx.wave w.journal)
    (hf : Forward (waveBranch ctx.wave) w.repo w'.repo) (hj : w'.journal = w.journal)
    (ht : w'.touched = w.touched) (hcalls : w.calls <:+ w'.calls) : Since ctx i w w' :=
  ⟨hf, hcalls, fun l hl => by rw [ht]; exact hl, fun l _ => lane_forward hc hf hj l⟩

variable [DecidableEq ι] {os : Platform}

theorem Guaranteed.of_repo {w : SupervisorWorld ι} {repo : Repo} (hf : Forward (waveBranch ctx.wave) w.repo repo) :
    Guaranteed ctx i w { w with repo := repo } :=
  ⟨hf, .inl ⟨rfl, rfl⟩, .inl rfl⟩

theorem Guaranteed.refl (w : SupervisorWorld ι) : Guaranteed ctx i w w :=
  ⟨Forward.refl _, .inl ⟨rfl, rfl⟩, .inl rfl⟩

/-- The programs of the supervisor `i` are safe with respect to what all supervisors do. -/
abbrev SafeStep (os : Platform) (ctx : SupervisorContext) (i : ι) {α : Type}
    (post : Except Failure α → SupervisorWorld ι → Prop) (p : SupervisorM α)
    (w : SupervisorWorld ι) : Prop :=
  Safe ((quietSystem ι os ctx).act i) (supervisorConduct ctx i) post p w

namespace SafeStep

variable {α : Type} {post : Except Failure α → SupervisorWorld ι → Prop} {w : SupervisorWorld ι}

theorem op {op : SupervisorOp} {next : op.Answer → SupervisorM α}
    (h : ∀ w₁, Since ctx i w w₁ → SupervisorOk ctx w₁ → ∀ a w₂, op.Did i a w₁ w₂ →
      SupervisorOk ctx w₂ ∧ Guaranteed ctx i w₁ w₂ ∧ SafeStep os ctx i post (next a) w₂) :
    SafeStep os ctx i post (.call op next) w :=
  Safe.call fun w₁ hs hok _ a w₂ ha => h w₁ hs hok a w₂ (SupervisorOp.did_of_act ha)

theorem idle {op : SupervisorOp} {next : op.Answer → SupervisorM α}
    (hidle : ∀ a w₁ w₂, op.Did i a w₁ w₂ → w₂ = w₁)
    (h : ∀ w₁, Since ctx i w w₁ → SupervisorOk ctx w₁ → ∀ a, op.Did i a w₁ w₁ →
      SafeStep os ctx i post (next a) w₁) : SafeStep os ctx i post (.call op next) w := by
  refine SafeStep.op fun w₁ hs hok a w₂ hdid => ?_
  obtain rfl := hidle a w₁ w₂ hdid
  exact ⟨hok, Guaranteed.refl _, h w₂ hs hok a hdid⟩

theorem readRepo {next : Repo → SupervisorM α}
    (h : ∀ w₁, Since ctx i w w₁ → SupervisorOk ctx w₁ →
      SafeStep os ctx i post (next w₁.repo) w₁) :
    SafeStep os ctx i post (.call .readRepo next) w := by
  refine SafeStep.idle (fun a w₁ w₂ hdid => hdid.2) fun w₁ hs hok a hdid => ?_
  obtain rfl : a = w₁.repo := hdid.1
  exact h w₁ hs hok

theorem readJournal {next : Except String (List JournalEvent) → SupervisorM α}
    (h : ∀ w₁ a, Since ctx i w w₁ → SupervisorOk ctx w₁ →
      (∀ events, a = .ok events → events = w₁.journal) → SafeStep os ctx i post (next a) w₁) :
    SafeStep os ctx i post (.call .readJournal next) w :=
  SafeStep.idle (fun _ _ _ hdid => hdid.2) fun w₁ hs hok a hdid => h w₁ a hs hok hdid.1

theorem shouldStop {next : Bool → SupervisorM α}
    (h : ∀ w₁ a, Since ctx i w w₁ → SupervisorOk ctx w₁ → SafeStep os ctx i post (next a) w₁) :
    SafeStep os ctx i post (.call .shouldStop next) w :=
  SafeStep.idle (fun _ _ _ hdid => hdid) fun w₁ hs hok a _ => h w₁ a hs hok

theorem admission {laneId : LaneId} {pending : Nat}
    {next : Option AdmissionDecision → SupervisorM α}
    (h : ∀ w₁ a, Since ctx i w w₁ → SupervisorOk ctx w₁ → SafeStep os ctx i post (next a) w₁) :
    SafeStep os ctx i post (.call (.admission laneId pending) next) w :=
  SafeStep.idle (fun _ _ _ hdid => hdid) fun w₁ hs hok a _ => h w₁ a hs hok

variable {next : Json → SupervisorM α}

theorem collect {job : Json}
    (h : ∀ w₁ a, Since ctx i w w₁ → SupervisorOk ctx w₁ → SafeStep os ctx i post (next a) w₁) :
    SafeStep os ctx i post (.call (.collect job) next) w :=
  SafeStep.idle (fun _ _ _ hdid => hdid) fun w₁ hs hok a _ => h w₁ a hs hok

theorem gate {laneId : LaneId} {tip : Option String}
    (h : ∀ w₁ a, Since ctx i w w₁ → SupervisorOk ctx w₁ → SafeStep os ctx i post (next a) w₁) :
    SafeStep os ctx i post (.call (.gate laneId tip) next) w :=
  SafeStep.idle (fun _ _ _ hdid => hdid) fun w₁ hs hok a _ => h w₁ a hs hok

theorem status {job : Json} {next : String → SupervisorM α}
    (h : ∀ w₁ report, Since ctx i w w₁ → SupervisorOk ctx w₁ →
      .status job report ∈ w₁.calls → SafeStep os ctx i post (next report) w₁) :
    SafeStep os ctx i post (.call (.status job) next) w := by
  refine SafeStep.op fun w₁ hs hok report w₂ hdid => ?_
  have hw : w₂ = { w₁ with calls := .status job report :: w₁.calls } := hdid
  have hf : Forward (waveBranch ctx.wave) w₁.repo w₂.repo := by rw [hw]; exact Forward.refl _
  have hj : w₂.journal = w₁.journal := by rw [hw]
  have hok' := hok.forward hf hj
  have hstep : Since ctx i w₁ w₂ := by
    refine .of_forward hok.certified hf hj (by rw [hw]) ?_
    rw [hw]
    exact suffix_cons _ _
  refine ⟨hok', ⟨hf, .inl ⟨hj, by rw [hw]⟩, .inr (.inl ⟨job, report, by rw [hw]⟩)⟩, ?_⟩
  exact h w₂ report (hs.trans hstep) hok' (by rw [hw]; exact mem_cons_self)

theorem submit {laneId : LaneId} {attempt : Int}
    (hdue : ∀ w₁, Since ctx i w w₁ → SupervisorOk ctx w₁ → w₁.touched i = [] →
      DueAttempt ctx w₁ laneId attempt)
    (h : ∀ w₁ a, Since ctx i w w₁ → SupervisorOk ctx w₁ → SafeStep os ctx i post (next a) w₁) :
    SafeStep os ctx i post (.call (.submit laneId attempt) next) w := by
  refine SafeStep.op fun w₁ hs hok a w₂ hdid => ?_
  have hw : w₂ = { w₁ with calls := .submit laneId attempt w₁.journal.length :: w₁.calls } := hdid
  have hf : Forward (waveBranch ctx.wave) w₁.repo w₂.repo := by rw [hw]; exact Forward.refl _
  have hj : w₂.journal = w₁.journal := by rw [hw]
  have hok' := hok.forward hf hj
  have hstep : Since ctx i w₁ w₂ := by
    refine .of_forward hok.certified hf hj (by rw [hw]) ?_
    rw [hw]
    exact suffix_cons _ _
  refine ⟨hok', ⟨hf, .inl ⟨hj, by rw [hw]⟩, .inr (.inr ⟨laneId, attempt, by rw [hw], ?_⟩)⟩, ?_⟩
  · exact hdue w₁ hs hok
  · exact h w₂ a (hs.trans hstep) hok'

theorem append {kind : String} {fields : Dict String Json} {seq : Nat} {parent : Option String}
    {next : AppendResult → SupervisorM α} {lane : LaneId → LaneState} {laneId : LaneId}
    (hseen : Seen i lane w) (hmay : Permitted ctx i lane laneId kind fields w)
    (h : ∀ w₁ a, SupervisorOk ctx w₁ → After i lane laneId kind fields w w₁ →
      SafeStep os ctx i post (next a) w₁) :
    SafeStep os ctx i post (.call (.append kind fields seq parent) next) w := by
  refine SafeStep.op fun w₁ hs hok a w₂ hdid => ?_
  have hseen₁ := hseen.since hs
  have hmay₁ := hmay.since hs
  rcases hdid with ⟨-, rfl⟩ | ⟨e, hk, hf, hrepo, hcalls, hj, hside⟩
  · refine ⟨hok, Guaranteed.refl _, h w₂ a hok ⟨hs.touched, lane laneId, ?_, .inl rfl⟩⟩
    rw [Function.update_eq_self]
    exact hseen₁
  · rcases hside with ⟨hnone, -⟩ | ⟨l, hl, hun, htouched⟩
    · rw [hmay.about] at hnone; simp at hnone
    obtain rfl : laneId = l := Option.some.inj (hmay.about.symm.trans hl)
    have hview : w₁.lane laneId = lane laneId := hseen₁ laneId hun
    obtain ⟨he, hm⟩ := hmay₁.legal hun (by rw [← hview]; exact hok.lanes laneId) e hk hf
    rw [← hview] at hm
    have hlane' : laneOf e.fields = some laneId := by rw [hf]; exact hmay.about
    have hok₂ : SupervisorOk ctx w₂ := by
      refine hok.append hrepo hj hlane' hmay.known he hm fun hkind => ?_
      exact hmay₁.certified (hk.symm.trans hkind) e hf
    have hself : w₂.touched i = w₁.touched i := by rw [htouched]; simp
    refine ⟨hok₂, ⟨by rw [hrepo]; exact Forward.refl _, .inr (.inr ⟨e, laneId, ?_⟩), .inl hcalls⟩,
      h w₂ a hok₂ ⟨fun l hl => by rw [hself]; exact hs.touched l hl,
        (lane laneId).apply (inGraph w₁.repo) e, fun l hl => ?_, .inr ⟨e, _, hk, hf, rfl⟩⟩⟩
    · refine ⟨hlane', hmay.known, hj, hun, htouched, hm, fun ht hp hsub => ?_⟩
      obtain ⟨spec, hspec, hst⟩ := hmay₁.start ht (by rw [← hview]; exact hp) (hk.symm.trans hsub)
      exact ⟨spec, hspec, by rw [hseen₁.eq ht]; exact hst⟩
    · rw [hself] at hl
      rw [lane_append hrepo hj, hseen₁ l hl]
      by_cases heq : l = laneId
      · subst heq
        rw [if_pos hlane', Function.update_self]
      · have hne : laneOf e.fields ≠ some l := fun h' =>
          heq (Option.some.inj (h'.symm.trans hlane'))
        rw [if_neg hne, Function.update_of_ne heq]

theorem appendRefused {fields : Dict String Json} {seq : Nat} {parent : Option String}
    {next : AppendResult → SupervisorM α} (hlane : laneOf fields = none)
    (hlegal : ∀ n, ∀ e : JournalEvent, e.kind = "wave.refused" → e.fields = fields → EventOk n e)
    (h : ∀ w₁ a, SupervisorOk ctx w₁ → SafeStep os ctx i post (next a) w₁) :
    SafeStep os ctx i post (.call (.append "wave.refused" fields seq parent) next) w := by
  refine SafeStep.op fun w₁ hs hok a w₂ hdid => ?_
  rcases hdid with ⟨-, rfl⟩ | ⟨e, hk, hf, hrepo, hcalls, hj, hside⟩
  · exact ⟨hok, Guaranteed.refl _, h w₂ a hok⟩
  · rcases hside with ⟨-, htouched⟩ | ⟨l, hl, -⟩
    · have hlane' : laneOf e.fields = none := by rw [hf]; exact hlane
      have hok₂ := hok.append_refused hrepo hj hk hlane' (hlegal _ e hk hf)
      exact ⟨hok₂, ⟨by rw [hrepo]; exact Forward.refl _,
        Or.inr (.inl ⟨e, hj, hk, hlane', htouched⟩), .inl hcalls⟩, h w₂ a hok₂⟩
    · rw [hlane] at hl; simp at hl

/-- The result of a program that cannot raise anything that matters. -/
abbrev Returns {β : Type} (q : β → SupervisorWorld ι → Prop) :
    Except Failure β → SupervisorWorld ι → Prop :=
  fun r w => ∀ b, r = .ok b → q b w

theorem returns_ret {a : α} {q : α → SupervisorWorld ι → Prop}
    (h : ∀ w', Since ctx i w w' → q a w') : SafeStep os ctx i (Returns q) (.ret a) w :=
  Safe.ret fun w' hs _ _ hb => Except.ok.inj hb ▸ h w' hs

theorem returns_raise {x : Failure} {q : α → SupervisorWorld ι → Prop} :
    SafeStep os ctx i (Returns q) (.raise x) w :=
  Safe.raise fun _ _ _ _ hb => nomatch hb

theorem bind {β : Type} {p : SupervisorM α} {f : α → SupervisorM β}
    {mid : α → SupervisorWorld ι → Prop} {q : β → SupervisorWorld ι → Prop}
    (hok : SupervisorOk ctx w) (hp : SafeStep os ctx i (Returns mid) p w)
    (hf : ∀ a w', SupervisorOk ctx w' → mid a w' → SafeStep os ctx i (Returns q) (f a) w') :
    SafeStep os ctx i (Returns q) (p >>= f) w := by
  refine Safe.bind (fun a w' hok' hmid => hf a w' hok' (hmid a rfl)) ?_ hok hp
  intro _ _ _ _ _ hb
  simp at hb

/-- `emit` of a legal event. -/
theorem emit {kind : String} {fields : Dict String Json} {lane : LaneId → LaneState}
    {laneId : LaneId} (hseen : Seen i lane w) (hmay : Permitted ctx i lane laneId kind fields w) :
    SafeStep os ctx i (Returns fun _ w' => After i lane laneId kind fields w w')
      (Wave.emit ctx.wave kind fields) w := by
  unfold Wave.emit Wave.readJournal
  refine SafeStep.readJournal fun w₁ a hs hok _ => ?_
  cases a with
  | error reason => exact returns_raise
  | ok events =>
    refine SafeStep.append (hseen.since hs) (hmay.since hs) fun w₂ a hok₂ hafter => ?_
    cases a with
    | appended eventId commit =>
      exact returns_ret fun w' hs' => hs.after (hafter.since hs')
    | refused reason => exact returns_raise
    | duplicate =>
      refine SafeStep.readJournal fun w₃ a hs₃ hok₃ _ => ?_
      cases a with
      | error reason => exact returns_raise
      | ok events =>
        simp only [Prog.bind, Prog.pure_eq]
        split <;> exact returns_ret fun w' hs' => hs.after (hafter.since (hs₃.trans hs'))

/-- `emit` of a refusal. -/
theorem emitRefused {wave : String} {fields : Dict String Json} (hlane : laneOf fields = none)
    (hlegal : ∀ n, ∀ e : JournalEvent, e.kind = "wave.refused" → e.fields = fields → EventOk n e) :
    SafeStep os ctx i (Returns fun _ _ => True) (Wave.emit wave "wave.refused" fields) w := by
  unfold Wave.emit Wave.readJournal
  refine SafeStep.readJournal fun w₁ a hs hok _ => ?_
  cases a with
  | error reason => exact returns_raise
  | ok events =>
    refine SafeStep.appendRefused hlane hlegal fun w₂ a hok₂ => ?_
    cases a with
    | appended eventId commit => exact returns_ret fun _ _ => trivial
    | refused reason => exact returns_raise
    | duplicate =>
      refine SafeStep.readJournal fun w₃ a hs₃ hok₃ _ => ?_
      cases a with
      | error reason => exact returns_raise
      | ok events =>
        simp only [Prog.bind, Prog.pure_eq]
        split <;> exact returns_ret fun _ _ => trivial

/-- `replayNow` shows every lane that nobody has touched as it is. -/
theorem replayNow : SafeStep os ctx i
    (Returns fun states w' => Since ctx i w w' ∧ Seen i states.lane w') (Wave.replayNow ctx.wave) w := by
  unfold Wave.replayNow Wave.readJournal
  refine SafeStep.readJournal fun w₁ a hs hok ha => ?_
  cases a with
  | error reason => exact returns_raise
  | ok events =>
    obtain rfl := ha events rfl
    refine SafeStep.readRepo fun w₂ hs₂ hok₂ => ?_
    -- the journal was read before the repository, which has only moved forward since
    obtain ⟨w₃, hw₃⟩ : ∃ w₃, w₃ = { w₁ with repo := w₂.repo } := ⟨_, rfl⟩
    have hf : Forward (waveBranch ctx.wave) w₁.repo w₃.repo := by rw [hw₃]; exact hs₂.forward
    have hj : w₃.journal = w₁.journal := by rw [hw₃]
    obtain ⟨states, hreplay, hget, -⟩ := (hok.forward hf hj).replay
    have hrepo : w₃.repo = w₂.repo := by rw [hw₃]
    rw [hrepo, hj] at hreplay
    dsimp only [Prog.bind]
    rw [hreplay]
    refine returns_ret fun w' hs' => ⟨(hs.trans hs₂).trans hs', Seen.since (fun l hl => ?_) hs'⟩
    have hlane : states.lane l = w₃.lane l := by
      simp only [LaneStates.lane, Dict.getD, hget l, SupervisorWorld.lane, laneView]
    rw [hlane, hs₂.lane l hl, lane_forward hok.certified hf hj l]

end SafeStep

end

end Workbay.Wave

/-!
## The loops of a round

Each loop of `step` goes over lanes, and each turn of a loop appends only for its own lane. A turn
leaves the records of the round right for all lanes that nobody has touched.
-/

namespace Workbay.Wave

open Effects Git

section

variable {ι : Type} {ctx : SupervisorContext} {i : ι}

theorem SupervisorContext.ne_of_mem_laneIds {laneId : LaneId} (h : laneId ∈ ctx.laneIds) :
    laneId ≠ "" := by
  rintro rfl
  unfold SupervisorContext.laneIds at h
  split at h
  · exact WaveSpec.lanes_ne _ h
  · simp at h

/-- The records of the round are right. -/
abbrev Round.Right (i : ι) (r : Round) (w : SupervisorWorld ι) : Prop := Seen i r.states.lane w

/-- What holds when the body of a loop ends: the loop goes on under `inv`, or it is left with right
records, or the round returns. -/
def Flow.Leaves (i : ι) (inv : Round → SupervisorWorld ι → Prop) : Flow → SupervisorWorld ι → Prop
  | .returned _, _ => True
  | .brk r, w => r.Right i w
  | .cont r, w => inv r w

/-- The supervisor `i`, which knows the records `lane`, may ask for an attempt. -/
structure Submittable (ctx : SupervisorContext) (i : ι) (lane : LaneId → LaneState)
    (laneId : LaneId) (attempt : Int) (w : SupervisorWorld ι) : Prop where
  known : laneId ∈ ctx.laneIds
  attempt : laneId ∉ w.touched i → attempt = (lane laneId).attempt + 1 ∧
    attempt ≤ ctx.attemptBudget ∧ ((lane laneId).state = .pending ∨
      ((lane laneId).state = .running ∧
        ∃ job, (lane laneId).job = some job ∧ .status job "lost" ∈ w.calls))
  start : w.touched i = [] → (lane laneId).state = .pending →
    ∃ spec, ctx.spec = .ok spec ∧ Startable spec ctx.width lane laneId

theorem Submittable.since {lane : LaneId → LaneState} {laneId : LaneId} {attempt : Int}
    {w w' : SupervisorWorld ι}
    (h : Submittable ctx i lane laneId attempt w) (hs : Since ctx i w w') :
    Submittable ctx i lane laneId attempt w' := by
  refine ⟨h.known, fun hun => ?_, fun ht => h.start (hs.untouched ht)⟩
  obtain ⟨ha, hle, hstate⟩ := h.attempt fun hm => hun (hs.touched _ hm)
  refine ⟨ha, hle, hstate.imp_right fun ⟨hrun, job, hjob, hlost⟩ => ⟨hrun, job, hjob, ?_⟩⟩
  exact hs.calls.subset hlost

/-- What is left of a lane that has been dealt with is not said. -/
def Dealt (i : ι) (lane : LaneId → LaneState) (laneId : LaneId) (w : SupervisorWorld ι) : Prop :=
  ∃ st, Seen i (Function.update lane laneId st) w

variable [DecidableEq ι] {os : Platform}

namespace SafeStep

variable {w : SupervisorWorld ι}

theorem forLanes {α : Type} {body : α → Round → SupervisorM Flow}
    {I : List α → Round → SupervisorWorld ι → Prop}
    (hright : ∀ r w, I [] r w → r.Right i w)
    (hbody : ∀ lane rest r w, SupervisorOk ctx w → I (lane :: rest) r w →
      SafeStep os ctx i (Returns (Flow.Leaves i (I rest))) (body lane r) w) :
    ∀ {lanes : List α} {r : Round} {w : SupervisorWorld ι}, SupervisorOk ctx w → I lanes r w →
      SafeStep os ctx i (Returns (Flow.Leaves i (Round.Right i))) (Wave.forLanes body lanes r) w := by
  intro lanes
  induction lanes with
  | nil => exact fun _ hinv => returns_ret fun w' hs => (hright _ _ hinv).since hs
  | cons lane rest ih =>
    intro r w hok hinv
    refine SafeStep.bind hok (hbody lane rest r w hok hinv) fun flow w' hok' hflow => ?_
    cases flow with
    | returned r => exact returns_ret fun _ _ => trivial
    | brk r => exact returns_ret fun _ hs => Seen.since hflow hs
    | cont r => exact ih hok' hflow

theorem forLanes_right {α : Type} {body : α → Round → SupervisorM Flow} {lanes : List α}
    (hbody : ∀ lane ∈ lanes, ∀ r w, SupervisorOk ctx w → r.Right i w →
      SafeStep os ctx i (Returns (Flow.Leaves i (Round.Right i))) (body lane r) w)
    {r : Round} (hok : SupervisorOk ctx w) (hr : r.Right i w) :
    SafeStep os ctx i (Returns (Flow.Leaves i (Round.Right i))) (Wave.forLanes body lanes r) w := by
  refine forLanes (I := fun rest r w => (∀ lane ∈ rest, lane ∈ lanes) ∧ r.Right i w)
    (fun _ _ h => h.2) ?_ hok ⟨fun _ h => h, hr⟩
  rintro lane rest r w hok ⟨hmem, hr⟩
  refine Safe.weaken ?_ (hbody lane (hmem lane List.mem_cons_self) r w hok hr)
  rintro o w' _ h flow rfl
  specialize h flow rfl
  cases flow with
  | returned r => trivial
  | brk r => exact h
  | cont r => exact ⟨fun l hl => hmem l (List.mem_cons_of_mem _ hl), h⟩

variable {lane : LaneId → LaneState} {laneId : LaneId} {kind : String} {fields : Dict String Json}
  {r : Round}

theorem emit_round (hok : SupervisorOk ctx w) (hseen : Seen i lane w)
    (hmay : Permitted ctx i lane laneId kind fields w) :
    SafeStep os ctx i (Returns fun r' w' => r'.states = r.states ∧
      After i lane laneId kind fields w w') (r.emit ctx.wave kind fields) w := by
  refine SafeStep.bind hok (SafeStep.emit hseen hmay) fun event w' _ h =>
    returns_ret fun w'' hs => ⟨rfl, h.since hs⟩

theorem replay_round (hok : SupervisorOk ctx w) :
    SafeStep os ctx i (Returns fun r' w' => Since ctx i w w' ∧ r'.Right i w')
      (r.replay ctx.wave) w := by
  refine SafeStep.bind hok SafeStep.replayNow fun states w' _ h => ?_
  exact returns_ret fun w'' hs => ⟨h.1.trans hs, h.2.since hs⟩

theorem record_round (hok : SupervisorOk ctx w) (hseen : Seen i lane w)
    (hmay : Permitted ctx i lane laneId kind fields w) :
    SafeStep os ctx i (Returns fun r' w' => r'.Right i w' ∧ After i lane laneId kind fields w w')
      (r.record ctx.wave kind fields) w := by
  refine SafeStep.bind hok (emit_round hok hseen hmay) fun r' w' hok' h => ?_
  refine Safe.weaken ?_ (replay_round hok')
  rintro o w'' _ hreplay r'' rfl
  obtain ⟨hs, hr⟩ := hreplay r'' rfl
  exact ⟨hr, h.2.since hs⟩

theorem checkAdmission {pending : Nat} :
    SafeStep os ctx i (Returns fun _ w' => Since ctx i w w')
      (Wave.checkAdmission ctx laneId pending) w := by
  unfold Wave.checkAdmission
  cases ctx.hasAdmission with
  | false => exact returns_ret fun _ hs => hs
  | true =>
    refine SafeStep.admission fun w₁ a hs _ => ?_
    cases a with
    | none => exact returns_ret fun _ hs' => hs.trans hs'
    | some decision => exact returns_ret fun _ hs' => hs.trans hs'

theorem defer_round {reason : String} {attempt : Int} (hok : SupervisorOk ctx w)
    (hseen : Seen i lane w) (hr : r.Right i w) (hsub : Submittable ctx i lane laneId attempt w) :
    SafeStep os ctx i (Returns fun r' w' => r'.Right i w' ∧ Dealt i lane laneId w')
      (r.defer ctx.wave laneId reason) w := by
  unfold Round.defer recordAdmissionDeferral
  by_cases hsame : (r.states.lane laneId).admissionDeferredReason = some reason
  · simp only [hsame, if_true, Prog.pure_eq, Prog.ret_bind]
    exact returns_ret fun w' hs => ⟨hr.since hs, lane laneId, by
      rw [Function.update_eq_self]; exact hseen.since hs⟩
  · simp only [hsame, if_false]
    have hmay : Permitted ctx i lane laneId "lane.admission_deferred"
        [("lane_id", .str laneId), ("reason", .str reason)] w := by
      refine .of_legal rfl hsub.known (fun hun _ => ?_) (by simp) (by simp)
      exact .deferred (SupervisorContext.ne_of_mem_laneIds hsub.known)
        ((hsub.attempt hun).2.2.imp_right And.left)
    have hevent : SafeStep os ctx i (Returns fun event w' => event.isSome ∧
        After i lane laneId "lane.admission_deferred"
          [("lane_id", .str laneId), ("reason", .str reason)] w w') (do
        let event ← Wave.emit ctx.wave "lane.admission_deferred"
          [("lane_id", .str laneId), ("reason", .str reason)]
        return some event) w :=
      SafeStep.bind hok (SafeStep.emit hseen hmay) fun event w' _ h =>
        returns_ret fun w'' hs => ⟨rfl, h.since hs⟩
    refine SafeStep.bind hok hevent fun event w' hok' h => ?_
    obtain ⟨hsome, -, st, hst, -⟩ := h
    cases event with
    | none => simp at hsome
    | some event =>
      refine SafeStep.bind hok' (replay_round hok') fun r' w'' _ h => ?_
      exact returns_ret fun w₃ hs => ⟨Seen.since h.2 hs, st, (hst.since h.1).since hs⟩

theorem submitted_round {attempt : Int} {job : Json} (hok : SupervisorOk ctx w)
    (hseen : Seen i lane w) (hsub : Submittable ctx i lane laneId attempt w) :
    SafeStep os ctx i (Returns fun r' w' => r'.Right i w' ∧ Dealt i lane laneId w')
      (r.submitted ctx.wave laneId attempt job) w := by
  have hne := SupervisorContext.ne_of_mem_laneIds hsub.known
  have hfailed : Permitted ctx i lane laneId "lane.failed"
      [("lane_id", .str laneId), ("reason", .str "invalid_submit_result")] w := by
    refine .of_legal rfl hsub.known (fun hun _ => ?_) (by simp) (by simp)
    refine .failed hne .none ?_
    rcases (hsub.attempt hun).2.2 with h | ⟨h, -⟩ <;> rw [h] <;> rfl
  have hforget : ∀ {kind fields} (r' : Round) w', r'.Right i w' ∧ After i lane laneId kind fields w w' →
      r'.Right i w' ∧ Dealt i lane laneId w' := by
    rintro kind fields r' w' ⟨hr, -, st, hst, -⟩
    exact ⟨hr, st, hst⟩
  cases job with
  | obj job =>
    refine Safe.weaken (fun o w' _ h r' hr => hforget _ _ (h r' hr))
      (record_round (r := r) hok hseen ?_)
    refine ⟨rfl, hsub.known, fun hun hlane => ?_, by simp, fun ht hp _ => hsub.start ht hp⟩
    obtain ⟨hnext, hle, hstate⟩ := hsub.attempt hun
    have hpos := hlane.attempt
    exact .submitted hne (by omega) hnext (hstate.imp_right fun ⟨hrun, _⟩ => ⟨hrun, hle⟩)
  | _ =>
    exact Safe.weaken (fun o w' _ h r' hr => hforget _ _ (h r' hr))
      (record_round (r := r) hok hseen hfailed)

theorem submit_round {attempt : Int} {deferred : Round → Flow} (hok : SupervisorOk ctx w)
    (hseen : Seen i lane w) (hr : r.Right i w) (hsub : Submittable ctx i lane laneId attempt w) :
    SafeStep os ctx i (Returns fun flow w' => ∃ r' : Round, (flow = .cont r' ∨ flow = deferred r') ∧
      r'.Right i w' ∧ Dealt i lane laneId w') (r.submit ctx ctx.wave laneId attempt deferred) w := by
  unfold Round.submit
  refine SafeStep.bind hok checkAdmission fun decision w₁ hok₁ hs₁ => ?_
  have hseen₁ := hseen.since hs₁
  have hsub₁ := hsub.since hs₁
  have hsubmit : SafeStep os ctx i (Returns fun flow w' => ∃ r' : Round,
      (flow = .cont r' ∨ flow = deferred r') ∧ r'.Right i w' ∧ Dealt i lane laneId w')
      (do
        let job ← (SupervisorOp.submit laneId attempt).run
        let r ← Round.submitted { r with pending := r.pending + 1 } ctx.wave laneId attempt job
        return .cont r) w₁ := by
    refine SafeStep.submit (fun w₂ hs₂ hok₂ ht => ?_) fun w₂ job hs₂ hok₂ => ?_
    · have hsub₂ := hsub₁.since hs₂
      have hview := (hseen₁.since hs₂).eq ht
      obtain ⟨ha, hle, hstate⟩ := hsub₂.attempt (by simp [ht])
      have hpos := (hok₂.lanes laneId).attempt
      rw [hview] at hpos
      refine ⟨by omega, hle, by rw [hview]; exact ha, ?_⟩
      rw [hview]
      exact hstate
    · change SafeStep os ctx i _ (Round.submitted { r with pending := r.pending + 1 } ctx.wave laneId
        attempt job >>= fun r => Prog.ret (Flow.cont r)) w₂
      refine SafeStep.bind hok₂ (submitted_round hok₂ (hseen₁.since hs₂) (hsub₁.since hs₂))
        fun r' w₃ _ h => ?_
      obtain ⟨hr', st, hst⟩ := h
      exact returns_ret fun w₄ hs₄ => ⟨r', .inl rfl, Seen.since hr' hs₄, st, hst.since hs₄⟩
  have hdefer : ∀ reason, SafeStep os ctx i (Returns fun flow w' => ∃ r' : Round,
      (flow = .cont r' ∨ flow = deferred r') ∧ r'.Right i w' ∧ Dealt i lane laneId w')
      (do
        let r ← r.defer ctx.wave laneId reason
        return deferred r) w₁ := by
    intro reason
    refine SafeStep.bind hok₁ (defer_round hok₁ hseen₁ (Seen.since hr hs₁) hsub₁) fun r' w₂ _ h => ?_
    obtain ⟨hr', st, hst⟩ := h
    exact returns_ret fun w₃ hs₃ => ⟨r', .inr rfl, Seen.since hr' hs₃, st, hst.since hs₃⟩
  match decision with
  | some ⟨false, reason⟩ => exact hdefer reason
  | some ⟨true, _⟩ => exact hsubmit
  | none => exact hsubmit

end SafeStep

end

end Workbay.Wave

import Workbay.Wave.Proofs.JournalProofs
import Workbay.Wave.Proofs.LaneProofs

/-!
# What a supervisor relies on and what it guarantees

A supervisor decides on the records that it has read. Another one may append in between, but only
for lanes that are then noted as touched; of all other lanes the supervisor knows the record as it
is now. As long as nobody appends for a touched lane, every append is therefore a legal move of its
lane.
-/

namespace Workbay.Wave

open Effects Git

/-- The verdict on an integration that the graph alone gives. -/
def inGraph (repo : Repo) (tip waveTip : String) : Option String :=
  if repo.isAncestor tip waveTip = some true then none else some "tip_not_in_recorded_wave"

/-- A commit is in the wave branch. -/
structure OnBranch (repo : Repo) (wave waveTip : String) : Prop where
  direct : repo.isSymbolic (waveBranch wave) = false
  recorded : repo.graph.Contains waveTip
  current : ∃ c, repo.refTip (waveBranch wave) = some c ∧
    repo.graph.isAncestorOrEqual waveTip c = true

theorem OnBranch.forward {repo repo' : Repo} {wave waveTip : String}
    (h : OnBranch repo wave waveTip) (hf : Forward (waveBranch wave) repo repo') :
    OnBranch repo' wave waveTip := by
  obtain ⟨c, hc, hle⟩ := h.current
  obtain ⟨c', hc', hle'⟩ := hf.branch c hc
  refine ⟨(hf.isSymbolic _).trans h.direct, hf.graph.contains h.recorded, c', hc',
    Dag.isAncestorOrEqual_trans ?_ hle'⟩
  rw [hf.isAncestorOrEqual (Repo.contains_refTip hc)]
  exact hle

/-- The recorded wave tip is in the wave branch, and the test whether it has the lane does not
fail. -/
structure Certified (repo : Repo) (wave tip waveTip : String) : Prop
    extends OnBranch repo wave waveTip where
  known : (repo.isAncestor tip waveTip).isSome

namespace Certified

variable {repo repo' : Repo} {wave tip waveTip : String}

theorem unprovenReason_eq (h : Certified repo wave tip waveTip) :
    integrationUnprovenReason repo wave tip waveTip = inGraph repo tip waveTip := by
  obtain ⟨v, hv⟩ := Option.isSome_iff_exists.mp h.known
  obtain ⟨c, hc, hle⟩ := h.current
  have hcur : repo.isAncestor waveTip c = some true := by
    rw [Repo.isAncestor_of_contains h.recorded (Repo.contains_refTip hc), hle]
  unfold integrationUnprovenReason inGraph
  cases v <;> simp [hv, h.direct, hc, hcur]

theorem forward (h : Certified repo wave tip waveTip)
    (hf : Forward (waveBranch wave) repo repo') :
    Certified repo' wave tip waveTip ∧ inGraph repo' tip waveTip = inGraph repo tip waveTip := by
  obtain ⟨v, hv⟩ := Option.isSome_iff_exists.mp h.known
  have hv' := hf.isAncestor hv
  exact ⟨⟨h.toOnBranch.forward hf, by rw [hv']; rfl⟩, by rw [inGraph, inGraph, hv, hv']⟩

end Certified

/-- The lanes that a context knows. -/
def SupervisorContext.laneIds (ctx : SupervisorContext) : List LaneId :=
  match ctx.spec with
  | .ok spec => spec.laneIds
  | .error _ => []

/-- The record of a lane as the journal and the graph have it now. -/
def SupervisorWorld.lane {ι : Type} (w : SupervisorWorld ι) (laneId : LaneId) : LaneState :=
  laneView (inGraph w.repo) w.journal laneId

/-- Every claim of an integration in the journal is certified. -/
def CertifiedEvents (repo : Repo) (wave : String) (journal : List JournalEvent) : Prop :=
  ∀ e ∈ journal, e.kind = "lane.integrated" →
    Certified repo wave ((e.str? "tip").getD "") ((e.str? "wave_tip").getD "")

/-- What holds between any two operations, as long as nobody has raced. -/
structure SupervisorOk {ι : Type} (ctx : SupervisorContext) (w : SupervisorWorld ι) : Prop where
  events : ∀ e ∈ w.journal, EventOk w.repo.objectIdLength e
  certified : CertifiedEvents w.repo ctx.wave w.journal
  lanes : ∀ laneId, LaneOk w.repo.objectIdLength (w.lane laneId)
  known : ∀ e ∈ w.journal, ∀ laneId, laneOf e.fields = some laneId → laneId ∈ ctx.laneIds

section

variable {ι : Type} {ctx : SupervisorContext}

variable {w w' : SupervisorWorld ι} {i : ι}

theorem SupervisorOk.replay (h : SupervisorOk ctx w) :
    ∃ states, Wave.replay w.repo ctx.wave w.journal = .ok states ∧
      (∀ laneId, states.get? laneId = laneView? (inGraph w.repo) w.journal laneId) ∧
      (states.map Prod.fst).Nodup := by
  obtain ⟨states, hfold, hget, hnd⟩ :=
    foldlM_replayEvent_ok (integrationUnprovenReason w.repo ctx.wave) h.events
  refine ⟨states, hfold, fun laneId => (hget laneId).trans ?_, hnd⟩
  exact laneView?_congr fun e he hk => (h.certified e he hk).unprovenReason_eq

theorem lane_forward (hc : CertifiedEvents w.repo ctx.wave w.journal)
    (hf : Forward (waveBranch ctx.wave) w.repo w'.repo) (hj : w'.journal = w.journal)
    (laneId : LaneId) : w'.lane laneId = w.lane laneId := by
  unfold SupervisorWorld.lane
  rw [hj]
  exact laneView_congr fun e he hk => ((hc e he hk).forward hf).2

theorem SupervisorOk.forward (h : SupervisorOk ctx w)
    (hf : Forward (waveBranch ctx.wave) w.repo w'.repo) (hj : w'.journal = w.journal) :
    SupervisorOk ctx w' := by
  refine ⟨?_, ?_, fun laneId => ?_, ?_⟩
  · rw [hj, hf.objectIdLength]; exact h.events
  · rw [hj]; exact fun e he hk => ((h.certified e he hk).forward hf).1
  · rw [lane_forward h.certified hf hj, hf.objectIdLength]; exact h.lanes laneId
  · rw [hj]; exact h.known

variable [DecidableEq ι]

/-- What may have happened between two operations of the supervisor `i`. -/
structure Since (ctx : SupervisorContext) (i : ι) (w w' : SupervisorWorld ι) : Prop where
  forward : Forward (waveBranch ctx.wave) w.repo w'.repo
  calls : w.calls <:+ w'.calls
  touched : ∀ laneId ∈ w.touched i, laneId ∈ w'.touched i
  lane : ∀ laneId, laneId ∉ w'.touched i → w'.lane laneId = w.lane laneId

omit [DecidableEq ι] in
theorem Since.refl (ctx : SupervisorContext) (i : ι) (w : SupervisorWorld ι) : Since ctx i w w :=
  ⟨Forward.refl _, List.suffix_refl _, fun _ h => h, fun _ _ => rfl⟩

omit [DecidableEq ι] in
theorem Since.trans {w₁ w₂ w₃ : SupervisorWorld ι} (h : Since ctx i w₁ w₂) (h' : Since ctx i w₂ w₃) :
    Since ctx i w₁ w₃ :=
  ⟨h.forward.trans h'.forward, h.calls.trans h'.calls, fun l hl => h'.touched l (h.touched l hl),
    fun l hl => (h'.lane l hl).trans (h.lane l fun hm => hl (h'.touched l hm))⟩

omit [DecidableEq ι] in
theorem Since.untouched (h : Since ctx i w w') (ht : w'.touched i = []) : w.touched i = [] := by
  rw [List.eq_nil_iff_forall_not_mem] at ht ⊢
  exact fun l hl => ht l (h.touched l hl)

/-- A lane can start: its dependencies are integrated, no lane that it conflicts with is busy, and
there is room for one more running lane. -/
structure Startable (spec : WaveSpec) (width : Int) (lane : LaneId → LaneState)
    (laneId : LaneId) : Prop where
  integrated : ∀ dependency ∈ spec.dependsOn laneId, (lane dependency).state = .integrated
  free : ∀ pairs, conflicts spec = .ok pairs → ∀ other ∈ spec.laneIds,
    (lane other).state.isConflictHolding = true → inConflict pairs laneId other = false
  room : ((spec.laneIds.countP fun l => decide ((lane l).state = .running) : Nat) : Int) < width

/-- The supervisor `i` has appended the event `e` for a lane. -/
structure AppendedFor (ctx : SupervisorContext) (i : ι) (w w' : SupervisorWorld ι)
    (e : JournalEvent) (laneId : LaneId) : Prop where
  lane : laneOf e.fields = some laneId
  known : laneId ∈ ctx.laneIds
  journal : w'.journal = w.journal ++ [e]
  untouched : laneId ∉ w.touched i
  touched : w'.touched = fun j => if j = i then w.touched j else laneId :: w.touched j
  move : LaneMove ctx.attemptBudget (w.lane laneId) e
  start : w.touched i = [] → (w.lane laneId).state = .pending → e.kind = "lane.submitted" →
    ∃ spec, ctx.spec = .ok spec ∧ Startable spec ctx.width w.lane laneId

/-- The supervisor has asked the executor for an attempt that is due. -/
def DueAttempt (ctx : SupervisorContext) (w : SupervisorWorld ι) (laneId : LaneId)
    (attempt : Int) : Prop :=
  1 ≤ attempt ∧ attempt ≤ ctx.attemptBudget ∧ attempt = (w.lane laneId).attempt + 1 ∧
    ((w.lane laneId).state = .pending ∨ ((w.lane laneId).state = .running ∧
      ∃ job, (w.lane laneId).job = some job ∧ .status job "lost" ∈ w.calls))

/-- What one operation of the supervisor `i` may do. -/
structure Guaranteed (ctx : SupervisorContext) (i : ι) (w w' : SupervisorWorld ι) : Prop where
  forward : Forward (waveBranch ctx.wave) w.repo w'.repo
  journal : (w'.journal = w.journal ∧ w'.touched = w.touched) ∨
    (∃ e, w'.journal = w.journal ++ [e] ∧ e.kind = "wave.refused" ∧ laneOf e.fields = none ∧
      w'.touched = w.touched) ∨
    ∃ e laneId, AppendedFor ctx i w w' e laneId
  calls : w'.calls = w.calls ∨ (∃ job report, w'.calls = .status job report :: w.calls) ∨
    ∃ laneId attempt, w'.calls = .submit laneId attempt w.journal.length :: w.calls ∧
      (w.touched i = [] → DueAttempt ctx w laneId attempt)

/-- The conduct of the supervisor `i`. -/
def supervisorConduct (ctx : SupervisorContext) (i : ι) :
    Conduct SupervisorOp SupervisorOp.Answer (SupervisorWorld ι) where
  inv := SupervisorOk ctx
  rely := Since ctx i
  guar _ _ := Guaranteed ctx i
  rely_refl := Since.refl ctx i
  rely_trans := Since.trans

/-- The effect of an operation of the supervisor `i`, by its answer, when it does not race. -/
def SupervisorOp.Did (i : ι) : (op : SupervisorOp) → op.Answer →
    SupervisorWorld ι → SupervisorWorld ι → Prop
  | .readRepo, repo, w, w' => repo = w.repo ∧ w' = w
  | .commitTree tree parents message, answer, w, w' => (answer = none ∧ w' = w) ∨
    ∃ oid repo, answer = some oid ∧ w.repo.commitTree oid tree parents message = some repo ∧
      w' = { w with repo := repo }
  | .updateRef ref new old, updated, w, w' => (updated = false ∧ w' = w) ∨
    ∃ repo, updated = true ∧ w.repo.updateRef ref new old = some repo ∧ w' = { w with repo := repo }
  | .readJournal, answer, w, w' => (∀ events, answer = .ok events → events = w.journal) ∧ w' = w
  | .append kind fields _ _, answer, w, w' =>
    ((∀ id commit, answer ≠ .appended id commit) ∧ w' = w) ∨
    ∃ e, e.kind = kind ∧ e.fields = fields ∧ w'.repo = w.repo ∧ w'.calls = w.calls ∧
      w'.journal = w.journal ++ [e] ∧
      ((laneOf fields = none ∧ w'.touched = w.touched) ∨
        ∃ laneId, laneOf fields = some laneId ∧ laneId ∉ w.touched i ∧
          w'.touched = fun j => if j = i then w.touched j else laneId :: w.touched j)
  | .shouldStop, _, w, w' => w' = w
  | .admission .., _, w, w' => w' = w
  | .submit laneId attempt, _, w, w' =>
    w' = { w with calls := .submit laneId attempt w.journal.length :: w.calls }
  | .status job, report, w, w' => w' = { w with calls := .status job report :: w.calls }
  | .collect _, _, w, w' => w' = w
  | .gate .., _, w, w' => w' = w

omit [DecidableEq ι] in
theorem appendTo_cases (os : Platform) (r : AppendRequest) (now commit : String)
    (journal : List JournalEvent) :
    ((∀ id c, (appendTo os r now commit journal).1 ≠ .appended id c) ∧
      (appendTo os r now commit journal).2 = journal) ∨
    ∃ e ts, e = r.eventAt os ts ∧
      appendTo os r now commit journal = (.appended e.eventId commit, journal ++ [e]) := by
  unfold appendTo
  cases hn : normalizeAppendEvent os r now with
  | error x => exact .inl ⟨by simp, rfl⟩
  | ok n =>
    obtain ⟨-, he, -, -⟩ := normalizeAppendEvent_ok hn
    simp only
    by_cases hlen : maxEventsDefault < journal.length
    · rw [if_pos hlen]
      exact .inl ⟨by simp, rfl⟩
    · rw [if_neg hlen]
      cases hc : checkExistingEvent (journal.map fun e => ("", e)) n.event n.tsWasProvided with
      | some result =>
        refine .inl ⟨fun id c h => ?_, rfl⟩
        unfold checkExistingEvent at hc
        split at hc
        · simp at hc
        · simp only at h
          split_ifs at hc <;> rw [← Option.some.inj hc] at h <;> simp at h
      | none =>
        simp only
        split_ifs
        · exact .inl ⟨by simp, rfl⟩
        · exact .inr ⟨n.event, _, he, rfl⟩

/-- The system of supervisors, as long as nobody races. -/
def quietSystem (ι : Type) [DecidableEq ι] (os : Platform) (ctx : SupervisorContext) :
    System ι Unit SupervisorOp SupervisorOp.Answer Failure (List SupervisorEvent)
      (SupervisorWorld ι) SupervisorChoice RepoMove :=
  (supervisorSystem os ctx).restrict fun w => !w.raced

theorem SupervisorWorld.append_did {os : Platform} {wave kind : String} {fields : Dict String Json}
    {seq : Nat} {parent : Option String} {now commit : String} {a : AppendResult}
    (h : w.append os wave i kind fields seq parent now commit = (a, w')) (hquiet : w'.raced = false) :
    SupervisorOp.Did i (.append kind fields seq parent) a w w' := by
  unfold SupervisorWorld.append at h
  dsimp only at h
  rcases appendTo_cases os ⟨wave, kind, fields, supervisorProducer wave, seq, parent, none, 8⟩ now
    commit w.journal with ⟨hne, hj⟩ | ⟨e, ts, he, heq⟩
  · refine .inl ?_
    split at h
    · rename_i hres _
      exact absurd hres (hne _ _)
    · obtain ⟨rfl, rfl⟩ := Prod.mk.inj h
      exact ⟨hne, by rw [hj]⟩
  · rw [heq] at h
    have hfields : e.fields = fields := by rw [he]; rfl
    have hkind : e.kind = kind := by rw [he]; rfl
    refine .inr ⟨e, hkind, hfields, ?_⟩
    cases hl : laneOf fields with
    | none =>
      simp only [hl] at h
      obtain ⟨rfl, rfl⟩ := Prod.mk.inj h
      exact ⟨rfl, rfl, rfl, .inl ⟨rfl, rfl⟩⟩
    | some laneId =>
      simp only [hl] at h
      obtain ⟨rfl, rfl⟩ := Prod.mk.inj h
      simp only [SupervisorWorld.noteAppend, Bool.or_eq_false_iff, decide_eq_false_iff_not] at hquiet
      exact ⟨rfl, rfl, rfl, .inr ⟨laneId, rfl, hquiet.2, rfl⟩⟩

theorem SupervisorOp.did_of_act {os : Platform} {op : SupervisorOp} {c : SupervisorChoice}
    {a : op.Answer} (h : (quietSystem ι os ctx).act i op c w = some (a, w')) : op.Did i a w w' := by
  obtain ⟨h, hquiet⟩ := Option.filter_eq_some_iff.mp h
  change SupervisorOp.act os ctx.wave i op c w = some (a, w') at h
  cases op with
  | append kind fields seq parent =>
    cases c <;> simp only [SupervisorOp.act, reduceCtorEq] at h
    · obtain ⟨rfl, rfl⟩ := Prod.mk.inj (Option.some.inj h)
      exact .inl ⟨by simp, rfl⟩
    · exact SupervisorWorld.append_did (Option.some.inj h) (by simpa using hquiet)
  | commitTree tree parents message =>
    cases c <;> simp only [SupervisorOp.act, reduceCtorEq] at h
    · obtain ⟨rfl, rfl⟩ := Prod.mk.inj (Option.some.inj h)
      exact .inl ⟨rfl, rfl⟩
    · rename_i oid _
      obtain ⟨repo, hr, heq⟩ := Option.map_eq_some_iff.mp h
      obtain ⟨rfl, rfl⟩ := Prod.mk.inj heq
      exact .inr ⟨oid, repo, rfl, hr, rfl⟩
  | updateRef ref new old =>
    cases c <;> simp only [SupervisorOp.act, reduceCtorEq] at h
    · cases hu : w.repo.updateRef ref new old with
      | none =>
        simp only [hu, Option.some.injEq, Prod.mk.injEq] at h
        obtain ⟨rfl, rfl⟩ := h
        exact .inl ⟨rfl, rfl⟩
      | some repo =>
        simp only [hu, Option.some.injEq, Prod.mk.injEq] at h
        obtain ⟨rfl, rfl⟩ := h
        exact .inr ⟨repo, rfl, hu, rfl⟩
    · obtain ⟨rfl, rfl⟩ := Prod.mk.inj (Option.some.inj h)
      exact .inl ⟨rfl, rfl⟩
  | readJournal =>
    cases c <;> simp only [SupervisorOp.act, reduceCtorEq] at h
    · split_ifs at h <;> obtain ⟨rfl, rfl⟩ := Prod.mk.inj (Option.some.inj h)
      · exact ⟨fun _ h => by simp at h, rfl⟩
      · exact ⟨fun _ h => (Except.ok.inj h).symm, rfl⟩
    · obtain ⟨rfl, rfl⟩ := Prod.mk.inj (Option.some.inj h)
      exact ⟨fun _ h => by simp at h, rfl⟩
  | _ =>
    cases c <;> simp only [SupervisorOp.act, reduceCtorEq] at h
    obtain ⟨rfl, rfl⟩ := Prod.mk.inj (Option.some.inj h)
    simp [SupervisorOp.Did]

end

end Workbay.Wave

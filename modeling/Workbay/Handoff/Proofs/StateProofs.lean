import Mathlib.Data.List.Nodup
import Workbay.Handoff.Writers

/-!
# Claims and staged changes

A claim that a call completes is one more row; a claim that it clears leaves no trace. A staged
change adds at most an event to the tables of the producer, unless that very event is there.
-/

namespace Workbay.Handoff

open List

/-- The event id is stored. -/
def Stored (claims : List ClaimRow) (id : String) : Prop := ∃ c ∈ claims, c.eventId = id

/-- The claims after a call has stored its event id, if it has one. -/
def withClaim (claims : List ClaimRow) (id : Option String) (row : String → ClaimRow) :
    List ClaimRow :=
  claims ++ (id.map row).toList

theorem find?_claim_eq_none {claims : List ClaimRow} {id : String} :
    claims.find? (·.eventId = id) = none ↔ ¬ Stored claims id := by
  simp [Stored, find?_eq_none]

theorem fetchProjectionEvent_eq_none {claims : List ClaimRow} {eventId : Option String} :
    fetchProjectionEvent claims eventId = none ↔
      ∀ id, normalizeEventId eventId = some id → ¬ Stored claims id := by
  rw [fetchProjectionEvent]
  cases normalizeEventId eventId with
  | none => simp
  | some id => simp [Stored]

theorem fetchProjectionEvent_eq_some {claims : List ClaimRow} {eventId : Option String}
    {existing : ClaimRow} (h : fetchProjectionEvent claims eventId = some existing) :
    normalizeEventId eventId = some existing.eventId ∧ existing ∈ claims := by
  rw [fetchProjectionEvent] at h
  obtain ⟨id, hid, hfind⟩ := Option.bind_eq_some_iff.mp h
  have heq := find?_some hfind
  simp only [decide_eq_true_eq] at heq
  exact ⟨by rw [hid, heq], mem_of_find?_eq_some hfind⟩

variable {claims claims' : List ClaimRow} {eventId : Option String} {toolName targetTable : String}
  {taskRef : Option String} {now : String}

theorem claimProjectionEvent_fst :
    (claimProjectionEvent claims eventId toolName targetTable taskRef now).1 =
      fetchProjectionEvent claims eventId := by
  rw [claimProjectionEvent, fetchProjectionEvent]
  cases normalizeEventId eventId with
  | none => rfl
  | some id =>
    simp only [Option.bind_some]
    cases claims.find? (·.eventId = id) <;> rfl

theorem claimProjectionEvent_some {existing : ClaimRow}
    (h : claimProjectionEvent claims eventId toolName targetTable taskRef now =
      (some existing, claims')) :
    normalizeEventId eventId = some existing.eventId ∧ existing ∈ claims := by
  refine fetchProjectionEvent_eq_some ?_
  rw [← claimProjectionEvent_fst, h]

theorem claimProjectionEvent_none
    (h : claimProjectionEvent claims eventId toolName targetTable taskRef now = (none, claims')) :
    (∀ id, normalizeEventId eventId = some id → ¬ Stored claims id) ∧
      claims' = withClaim claims (normalizeEventId eventId) fun id =>
        ⟨id, toolName, targetTable, none, taskRef, now⟩ := by
  have hfetch : fetchProjectionEvent claims eventId = none := by
    rw [← claimProjectionEvent_fst, h]
  have hfresh := fetchProjectionEvent_eq_none.mp hfetch
  refine ⟨hfresh, ?_⟩
  rw [claimProjectionEvent] at h
  rw [withClaim]
  cases hid : normalizeEventId eventId with
  | none =>
    rw [hid] at h
    simpa using (Prod.mk.inj h).2.symm
  | some id =>
    rw [hid] at h
    simp only [find?_claim_eq_none.mpr (hfresh id hid)] at h
    exact (Prod.mk.inj h).2.symm

theorem map_of_not_stored {id : String} (h : ¬ Stored claims id) (f : ClaimRow → ClaimRow) :
    (claims.map fun c => if c.eventId = id then f c else c) = claims := by
  refine (map_congr_left fun c hc => ?_).trans (map_id claims)
  exact if_neg fun heq => h ⟨c, hc, heq⟩

variable {row : String → ClaimRow}

theorem complete_withClaim {table : String} {targetId : Option Nat} {ref : String}
    (hid : ∀ id, (row id).eventId = id)
    (hfresh : ∀ id, normalizeEventId eventId = some id → ¬ Stored claims id) :
    completeProjectionEvent (withClaim claims (normalizeEventId eventId) row) eventId table targetId
        (some ref) =
      withClaim claims (normalizeEventId eventId) fun id =>
        { row id with targetTable := table, targetId := targetId, taskRef := some ref } := by
  rw [completeProjectionEvent, withClaim, withClaim]
  cases h : normalizeEventId eventId with
  | none => rfl
  | some id =>
    simp only [Option.map_some, Option.toList_some, map_append, map_singleton, hid]
    rw [map_of_not_stored (hfresh id h), if_pos trivial]
    rfl

theorem clear_withClaim (hid : ∀ id, (row id).eventId = id)
    (hfresh : ∀ id, normalizeEventId eventId = some id → ¬ Stored claims id) :
    clearProjectionEventClaim (withClaim claims (normalizeEventId eventId) row) eventId = claims := by
  rw [clearProjectionEventClaim, withClaim]
  cases h : normalizeEventId eventId with
  | none => simp
  | some id =>
    have hkept : claims.filter (fun c => decide (c.eventId ≠ id)) = claims := by
      refine filter_eq_self.mpr fun c hc => ?_
      simpa using fun heq => hfresh id h ⟨c, hc, heq⟩
    simp only [Option.map_some, Option.toList_some, filter_append, hkept]
    simp [hid]

theorem stored_withClaim (hid : ∀ id, (row id).eventId = id) {id : Option String} {stored : String} :
    Stored (withClaim claims id row) stored ↔ Stored claims stored ∨ id = some stored := by
  constructor
  · rintro ⟨c, hc, rfl⟩
    rcases mem_append.mp hc with hc | hc
    · exact .inl ⟨c, hc, rfl⟩
    · obtain ⟨id', rfl, rfl⟩ := Option.map_eq_some_iff.mp (Option.mem_toList.mp hc)
      rw [hid]
      exact .inr rfl
  · rintro (⟨c, hc, rfl⟩ | rfl)
    · exact ⟨c, mem_append_left _ hc, rfl⟩
    · exact ⟨row stored, mem_append_right _ (by simp), hid stored⟩

/-- A change of the tasks alone. -/
def ChangesTasks (P : List TaskRow → List TaskRow → Prop) (change : Store → Except Raised Store) :
    Prop :=
  ∀ s s', change s = .ok s' → ∃ tasks, s' = { s with tasks := tasks } ∧ P s.tasks tasks

/-- What a staged change leaves: the changed tasks, with at most an event of its snapshot more; or
nothing at all, if the event was there. -/
inductive Staged (P : List TaskRow → List TaskRow → Prop) (taskRef : String) (snapshot : Snapshot)
    (s : Store) : Store → Prop where
  | changed (tasks : List TaskRow) (resources : ResourceTables) (hP : P s.tasks tasks)
      (hevents : ∀ row ∈ resources.events, row ∈ s.resources.events ∨
        row.event.operation.taskRef = taskRef ∧
          row.event.registration.evidence.snapshot = snapshot) :
      Staged P taskRef snapshot s { s with tasks := tasks, resources := resources }
  | repeated (row : ResourceEventRow) (hrow : row ∈ s.resources.events)
      (htask : row.event.operation.taskRef = taskRef)
      (hsnapshot : row.event.registration.evidence.snapshot = snapshot) :
      Staged P taskRef snapshot s s

variable {P : List TaskRow → List TaskRow → Prop} {change : Store → Except Raised Store}

theorem changeWithEvidence_spec (hchange : ChangesTasks P change) {evidence : EvidenceRow}
    {s s' : Store} (h : changeWithEvidence evidence change s = .ok s') :
    ∃ tasks, P s.tasks tasks ∧ s' = { s with
      tasks := tasks
      resources := { s.resources with evidence := s.resources.evidence ++ [evidence] } } := by
  simp only [changeWithEvidence, bind_eq_ok, exists_const, require_eq_ok, pure, Except.pure,
    Except.ok.injEq] at h
  obtain ⟨s₁, hs₁, -, rfl⟩ := h
  obtain ⟨tasks, rfl, hP⟩ := hchange s s₁ hs₁
  exact ⟨tasks, hP, rfl⟩

theorem stageChange_spec (hchange : ChangesTasks P change) {s : Store} {o : ProducerOutside}
    {ref : String} {laneId : Option String} {snapshot : Snapshot} {result : Store × Lifecycle}
    (h : stageChange s o ref laneId snapshot eventId change = .ok result) :
    Staged P ref snapshot s result.1 := by
  rw [stageChange] at h
  split at h
  · rename_i resource source _ _ _
    simp only [bind_eq_ok, exists_const, require_eq_ok, pure, Except.pure, Except.ok.injEq] at h
    obtain ⟨-, recorded, hrecorded, rfl⟩ := h
    rw [recordResourceEvent] at hrecorded
    split at hrecorded
    · rename_i prior hprior
      by_cases heq : prior.event ≠ stagedEvent resource source
          ((o.binding.map (·.host)).getD "") o laneId snapshot ref eventId
      · rw [if_pos heq] at hrecorded
        cases hrecorded
      · rw [if_neg heq] at hrecorded
        obtain rfl := Except.ok.inj hrecorded
        rw [not_not] at heq
        exact .repeated prior (mem_of_find?_eq_some hprior) (by rw [heq]; rfl)
          (by rw [heq]; rfl)
    · simp only [insertResourceEvent, bind_eq_ok, exists_const, require_eq_ok, pure, Except.pure,
        Except.ok.injEq] at hrecorded
      obtain ⟨-, s₁, hs₁, rfl⟩ := hrecorded
      obtain ⟨tasks, hP, rfl⟩ := changeWithEvidence_spec hchange hs₁
      refine .changed tasks _ hP fun row hrow => ?_
      rcases mem_append.mp hrow with hrow | hrow
      · exact .inl hrow
      · rw [mem_singleton.mp hrow]
        exact .inr ⟨rfl, rfl⟩
  · simp only [bind_eq_ok, pure, Except.pure, Except.ok.injEq] at h
    obtain ⟨s₁, hs₁, rfl⟩ := h
    obtain ⟨tasks, rfl, hP⟩ := hchange s s₁ hs₁
    exact .changed tasks s.resources hP fun row hrow => .inl hrow

end Workbay.Handoff

/-!
## Writing the state of a task

A call either leaves the store as it was, or stores its event id and inserts or updates the one row
that its task names. That an event of the producer is there already is ruled out by its snapshot: it
would be of a revision that the row has not reached.
-/

namespace Workbay.Handoff

open List

/-- What holds of the store: the keys of its tables, the decisions that claims are bound to, and the
revisions that the events of the producer have seen. -/
structure HandoffInv (s : Store) : Prop where
  tasks : (s.tasks.map TaskRow.taskRef).Nodup
  decisions : (s.decisions.map DecisionRow.id).Nodup
  claims : (s.claims.map ClaimRow.eventId).Nodup
  bound : ∀ c ∈ s.claims, c.targetTable = "decisions" →
    ∃ row ∈ s.decisions, c.targetId = some row.id ∧ c.taskRef = some row.taskRef
  events : ∀ ev ∈ s.resources.events, ∃ row ∈ s.tasks,
    row.taskRef = ev.event.operation.taskRef ∧
      ev.event.registration.evidence.snapshot.revision ≤ row.revision

variable {tasks : List TaskRow} {taskRef : String} {s s' : Store} {e : Envelope} {o : Outside}
  {c : StateCall} {ctx : WriteContext}

variable {row : TaskRow} {binding : Option ProducerBinding}

theorem mem_of_getHandoffRow (h : getHandoffRowForTask tasks taskRef = .ok (some row)) :
    row ∈ tasks := by
  rw [getHandoffRowForTask] at h
  split at h
  · rename_i found hfind
    obtain rfl := Option.some.inj (Except.ok.inj h)
    exact mem_of_find?_eq_some hfind
  · split at h
    · cases h
    · rename_i found hfilter
      obtain rfl := Option.some.inj (Except.ok.inj h)
      have hmem : found ∈ tasks.filter fun row => lower row.taskRef = lower taskRef := by
        rw [hfilter]
        exact mem_singleton_self found
      exact (mem_filter.mp hmem).1
    · cases h

theorem getHandoffRow_none (h : getHandoffRowForTask tasks taskRef = .ok none) :
    ∀ row ∈ tasks, row.taskRef ≠ taskRef := by
  rw [getHandoffRowForTask] at h
  split at h
  · cases h
  · rename_i hfind
    intro row hrow
    simpa using find?_eq_none.mp hfind row hrow

theorem getHandoffRow_of_find (h : tasks.find? (·.taskRef = taskRef) = some row) :
    getHandoffRowForTask tasks taskRef = .ok (some row) := by
  rw [getHandoffRowForTask, h]

theorem getHandoffRow_map {f : TaskRow → TaskRow} (hf : ∀ row, (f row).taskRef = row.taskRef)
    (h : getHandoffRowForTask tasks taskRef = .ok (some row)) :
    getHandoffRowForTask (tasks.map f) taskRef = .ok (some (f row)) := by
  rw [getHandoffRowForTask] at h ⊢
  rw [find?_map, filter_map]
  simp only [Function.comp_def, hf]
  split at h
  · rename_i found hfind
    obtain rfl := Option.some.inj (Except.ok.inj h)
    rw [hfind]
    rfl
  · rename_i hfind
    rw [hfind]
    split at h
    · cases h
    · rename_i found hfilter
      obtain rfl := Option.some.inj (Except.ok.inj h)
      rw [hfilter]
      rfl
    · cases h

theorem HandoffInv.task_unique (h : HandoffInv s) {x y : TaskRow} (hx : x ∈ s.tasks)
    (hy : y ∈ s.tasks) (heq : x.taskRef = y.taskRef) : x = y :=
  inj_on_of_nodup_map h.tasks hx hy heq

/-- The tasks after an update of a row: its revision is one more, and no other row is changed. -/
def Raises (row : TaskRow) (tasks tasks' : List TaskRow) : Prop :=
  ∃ f : TaskRow → TaskRow, tasks' = tasks.map f ∧ (∀ t, (f t).taskRef = t.taskRef) ∧
    (f row).revision = row.revision + 1 ∧ ∀ t ∈ tasks, t ≠ row → f t = t

/-- A call that writes inserts the row of its task, or raises its revision. -/
inductive TaskChange (c : StateCall) (tasks : List TaskRow) :
    List TaskRow → MutationOperation → Prop where
  | insert (row : TaskRow) (hnone : getHandoffRowForTask tasks c.taskRef = .ok none)
      (href : row.taskRef = c.taskRef) : TaskChange c tasks (tasks ++ [row]) .insert
  | update (row : TaskRow) (tasks' : List TaskRow)
      (hrow : getHandoffRowForTask tasks c.taskRef = .ok (some row))
      (hexpected : ∀ revision, c.expectedRevision = some revision → row.revision = revision)
      (hraises : Raises row tasks tasks') : TaskChange c tasks tasks' .update

/-- What a call leaves that writes. -/
structure StateWritten (s : Store) (o : Outside) (c : StateCall) (s' : Store) (e : Envelope) :
    Prop where
  ok : e.ok = true
  fresh : ∀ id, normalizeEventId c.eventId = some id → ¬ Stored s.claims id
  frame : s'.archives = s.archives ∧ s'.decisions = s.decisions ∧ s'.tests = s.tests ∧
    s'.traces = s.traces
  tasks : ∃ operation, e.operation = some operation ∧ TaskChange c s.tasks s'.tasks operation
  claims : ∃ row, getHandoffRowForTask s'.tasks c.taskRef = .ok (some row) ∧
    s'.claims = withClaim s.claims (normalizeEventId c.eventId) fun id =>
      ⟨id, "set_handoff_state", "handoff_state", none, some row.taskRef, o.now⟩
  events : ∀ ev ∈ s'.resources.events, ev ∈ s.resources.events ∨ ∃ row ∈ s'.tasks,
    row.taskRef = ev.event.operation.taskRef ∧
      ev.event.registration.evidence.snapshot.revision ≤ row.revision

/-- What a call leaves that does not write: an update is not answered, and a success only to an
event id that is stored. -/
structure Kept (s : Store) (id : Option String) (s' : Store) (e : Envelope) : Prop where
  same : s' = s
  stored : e.ok = true → ∃ stored, id = some stored ∧ Stored s.claims stored
  operation : e.operation ≠ some .update

theorem Kept.refused {id : Option String} (hok : e.ok = false) (hop : e.operation = none) :
    Kept s id s e :=
  ⟨rfl, fun h => absurd (hok.symm.trans h) (by decide), by rw [hop]; exact fun h => by cases h⟩

theorem Kept.replayed {id : Option String} {existing : ClaimRow} (hid : id = some existing.eventId)
    (hmem : existing ∈ s.claims) (hop : e.operation = some .noop) : Kept s id s e := by
  refine ⟨rfl, fun _ => ?_, by rw [hop]; exact fun h => by cases h⟩
  exact ⟨existing.eventId, hid, existing, hmem, rfl⟩

theorem insertState_changes (row : TaskRow) :
    ChangesTasks (fun tasks tasks' => tasks' = tasks ++ [row]) (insertState row) := by
  intro s s' h
  simp only [insertState, bind_eq_ok, exists_const, require_eq_ok, pure, Except.pure,
    Except.ok.injEq] at h
  exact ⟨_, h.2.symm, rfl⟩

theorem stageCreate_spec {objective : String} {status : TaskStatus} {claims : List ClaimRow}
    (hinv : HandoffInv s) (hnone : getHandoffRowForTask s.tasks c.taskRef = .ok none)
    (hclaim : claimProjectionEvent s.claims c.eventId "set_handoff_state" "handoff_state"
      (some c.taskRef) o.now = (none, claims))
    (h : stageCreate { s with claims } c ctx binding (createdRow c ctx objective status o.now) =
      .ok (s', e)) : StateWritten s o c s' e := by
  obtain ⟨hfresh, rfl⟩ := claimProjectionEvent_none hclaim
  simp only [stageCreate, bind_eq_ok, pure, Except.pure, Except.ok.injEq, Prod.mk.injEq] at h
  obtain ⟨⟨left, life⟩, hstaged, active, -, rfl, rfl⟩ := h
  cases stageChange_spec (insertState_changes _) hstaged with
  | repeated row hrow htask _ =>
    obtain ⟨task, htaskMem, href, -⟩ := hinv.events row hrow
    exact absurd (href.trans htask) (getHandoffRow_none hnone task htaskMem)
  | changed tasks resources hP hevents =>
    subst hP
    have hfind : getHandoffRowForTask (s.tasks ++ [createdRow c ctx objective status o.now])
        c.taskRef = .ok (some (createdRow c ctx objective status o.now)) := by
      refine getHandoffRow_of_find ?_
      rw [find?_append, find?_eq_none.mpr fun row hrow => by
        simpa using getHandoffRow_none hnone row hrow]
      simp [createdRow]
    refine ⟨rfl, hfresh, ⟨rfl, rfl, rfl, rfl⟩, ⟨_, rfl, .insert _ hnone rfl⟩, ⟨_, hfind, ?_⟩, ?_⟩
    · exact complete_withClaim (fun _ => rfl) hfresh
    · intro ev hev
      rcases hevents ev hev with hold | ⟨htask, hsnapshot⟩
      · exact .inl hold
      · refine .inr ⟨createdRow c ctx objective status o.now, by simp, htask.symm, ?_⟩
        rw [hsnapshot]
        exact Int.le_refl _

theorem replayedState_spec {eventId : Option String} {existing : ClaimRow}
    (h : replayedState s taskRef eventId existing = .ok e) : e.operation = some .noop := by
  simp only [replayedState, bind_eq_ok, pure, Except.pure, Except.ok.injEq] at h
  obtain ⟨active, -, rfl⟩ := h
  rfl

theorem createState_spec {status : TaskStatus} (hinv : HandoffInv s)
    (hnone : getHandoffRowForTask s.tasks c.taskRef = .ok none)
    (h : createState s o c ctx binding status = .ok (s', e)) :
    Kept s (normalizeEventId c.eventId) s' e ∨ StateWritten s o c s' e := by
  rw [createState] at h
  split at h
  · obtain ⟨rfl, rfl⟩ := Prod.mk.inj (Except.ok.inj h)
    exact .inl (.refused rfl rfl)
  · split at h
    · obtain ⟨rfl, rfl⟩ := Prod.mk.inj (Except.ok.inj h)
      exact .inl (.refused rfl rfl)
    · split at h
      · rename_i existing _ hclaim
        obtain ⟨hid, hmem⟩ := claimProjectionEvent_some hclaim
        simp only [bind_eq_ok, pure, Except.pure, Except.ok.injEq, Prod.mk.injEq] at h
        obtain ⟨envelope, henvelope, rfl, rfl⟩ := h
        exact .inl (.replayed hid hmem (replayedState_spec henvelope))
      · rename_i claims hclaim
        exact .inr (stageCreate_spec hinv hnone hclaim h)

theorem changeState_changes (taskRef : String) (expected : Int) (f : TaskRow → TaskRow) :
    ChangesTasks (fun tasks tasks' => tasks' = tasks.map fun row =>
      if row.taskRef = taskRef && row.revision = expected then f row else row)
      (changeState taskRef expected f) := by
  intro s s' h
  simp only [changeState, bind_eq_ok, exists_const, require_eq_ok, pure, Except.pure,
    Except.ok.injEq] at h
  exact ⟨_, h.2.symm, rfl⟩

theorem expectedRevision_spec {expected revision : Int} (h : expectedRevision c row = some expected)
    (hrevision : c.expectedRevision = some revision) : expected = revision := by
  rw [expectedRevision, hrevision] at h
  exact (Option.some.inj h).symm

theorem raises_of_change (hinv : HandoffInv s) (c : StateCall) (ctx : WriteContext)
    (status : Option TaskStatus) (now : String) (hrow : row ∈ s.tasks) :
    Raises row s.tasks (s.tasks.map fun t =>
      if t.taskRef = row.taskRef && t.revision = row.revision then updatedRow c ctx status now t
      else t) := by
  refine ⟨_, rfl, fun t => ?_, by simp [updatedRow], fun t ht hne => ?_⟩
  · split <;> rfl
  · refine if_neg fun hit => hne ?_
    simp only [Bool.and_eq_true, decide_eq_true_eq] at hit
    exact hinv.task_unique ht hrow hit.1

theorem stageUpdate_spec {status : Option TaskStatus} {warnings : List String}
    {claims : List ClaimRow} (hinv : HandoffInv s)
    (hrow : getHandoffRowForTask s.tasks c.taskRef = .ok (some row))
    (hexpected : expectedRevision c row = some row.revision)
    (hclaim : claimProjectionEvent s.claims c.eventId "set_handoff_state" "handoff_state"
      (some row.taskRef) o.now = (none, claims))
    (h : stageUpdate { s with claims } o c ctx binding status row row.revision warnings =
      .ok (s', e)) : StateWritten s o c s' e := by
  obtain ⟨hfresh, rfl⟩ := claimProjectionEvent_none hclaim
  have hmem := mem_of_getHandoffRow hrow
  simp only [stageUpdate, bind_eq_ok] at h
  obtain ⟨⟨left, life⟩, hstaged, active, hactive, h⟩ := h
  cases stageChange_spec (changeState_changes _ _ _) hstaged with
  | repeated ev hev htask hsnapshot =>
    -- the row would have reached the revision that the snapshot is of
    obtain ⟨task, htaskMem, href, hle⟩ := hinv.events ev hev
    obtain rfl := hinv.task_unique htaskMem hmem (href.trans htask)
    rw [hsnapshot] at hle
    simp only [updateSnapshot] at hle
    omega
  | changed tasks resources hP hevents =>
    subst hP
    obtain ⟨f, hmap, hf, hraised, hother⟩ :=
      raises_of_change hinv c ctx status o.now hmem
    have hfind := getHandoffRow_map hf hrow
    have hself : getHandoffRowForTask s.tasks row.taskRef = .ok (some row) := by
      refine getHandoffRow_of_find ?_
      cases hfound : s.tasks.find? (·.taskRef = row.taskRef) with
      | none =>
        have hnot := find?_eq_none.mp hfound row hmem
        simp at hnot
      | some found =>
        have heq := find?_some hfound
        simp only [decide_eq_true_eq] at heq
        rw [hinv.task_unique (mem_of_find?_eq_some hfound) hmem heq]
    simp only [hmap] at hactive h ⊢
    rw [getHandoffRow_map hf hself] at hactive
    obtain rfl := Except.ok.inj hactive
    obtain ⟨rfl, rfl⟩ := Prod.mk.inj (Except.ok.inj h)
    refine ⟨rfl, hfresh, ⟨rfl, rfl, rfl, rfl⟩,
      ⟨_, rfl, .update row _ hrow (fun revision hrevision => ?_) ⟨f, rfl, hf, hraised, hother⟩⟩,
      ⟨f row, hfind, ?_⟩, ?_⟩
    · exact expectedRevision_spec hexpected hrevision
    · rw [hf]
      exact complete_withClaim (fun _ => rfl) hfresh
    · intro ev hev
      rcases hevents ev hev with hold | ⟨htask, hsnapshot⟩
      · exact .inl hold
      · refine .inr ⟨f row, mem_map_of_mem hmem, (hf row).trans htask.symm, ?_⟩
        rw [hsnapshot, hraised]
        exact Int.le_refl _

theorem updateState_spec {status : Option TaskStatus} (hinv : HandoffInv s)
    (hrow : getHandoffRowForTask s.tasks c.taskRef = .ok (some row))
    (h : updateState s o c ctx binding status row = .ok (s', e)) :
    Kept s (normalizeEventId c.eventId) s' e ∨ StateWritten s o c s' e := by
  rw [updateState] at h
  split at h
  · obtain ⟨rfl, rfl⟩ := Prod.mk.inj (Except.ok.inj h)
    exact .inl (.refused rfl rfl)
  · rename_i expected hexpected
    split at h
    · rename_i existing _ hclaim
      obtain ⟨hid, hmem⟩ := claimProjectionEvent_some hclaim
      simp only [bind_eq_ok, pure, Except.pure, Except.ok.injEq, Prod.mk.injEq] at h
      obtain ⟨envelope, henvelope, rfl, rfl⟩ := h
      exact .inl (.replayed hid hmem (replayedState_spec henvelope))
    · rename_i claims hclaim
      simp only [claimedUpdate, bind_eq_ok] at h
      obtain ⟨warnings, -, h⟩ := h
      split at h
      · -- the claim of a stale update is cleared
        obtain ⟨hfresh, rfl⟩ := claimProjectionEvent_none hclaim
        obtain ⟨rfl, rfl⟩ := Prod.mk.inj (Except.ok.inj h)
        rw [clear_withClaim (fun _ => rfl) hfresh]
        exact .inl (.refused rfl rfl)
      · rename_i hsame
        rw [not_not] at hsame
        subst hsame
        exact .inr (stageUpdate_spec hinv hrow hexpected hclaim h)

theorem setHandoffState_spec (hinv : HandoffInv s) (h : setHandoffState s o c = .ok (s', e)) :
    Kept s (normalizeEventId c.eventId) s' e ∨ StateWritten s o c s' e := by
  have hmutate : ∀ ctx status, mutateHandoffState s o c ctx status = .ok (s', e) →
      Kept s (normalizeEventId c.eventId) s' e ∨ StateWritten s o c s' e := by
    intro ctx status hm
    obtain ⟨row, hrow, hm⟩ := bind_eq_ok.mp hm
    cases row with
    | none => exact createState_spec hinv hrow hm
    | some row => exact updateState_spec hinv hrow hm
  rw [setHandoffState] at h
  split at h
  · obtain ⟨rfl, rfl⟩ := Prod.mk.inj (Except.ok.inj h)
    exact .inl (.refused rfl rfl)
  · simp only [bind_eq_ok] at h
    obtain ⟨_, -, ctx, -, h⟩ := h
    split at h
    · obtain ⟨rfl, rfl⟩ := Prod.mk.inj (Except.ok.inj h)
      exact .inl (.refused rfl rfl)
    · exact hmutate ctx _ h
    · exact hmutate ctx _ h

end Workbay.Handoff

import Workbay.Projection.Replay

/-!
# Events of one key

Two events with the same key agree in the fields of their identity, up to a field that is null in one
and missing in the other. Their writes differ in what is written besides.
-/

namespace Workbay.Projection

open Workbay.Compiler (truthy)

/-- An event of a kind whose identity is made of chosen fields. -/
def Projected (payload : Payload) : Prop :=
  field payload "kind" = .str "decision" ∨ field payload "kind" = .str "test_result" ∨
    field payload "kind" = .str "state_sync"

/-- Replaying either event issues the same command, apart from event id and expected revision. -/
def SameWrite (p : Platform) (a b : Payload) : Prop :=
  ∀ eventId expectedRevision,
    p.writeOf a eventId expectedRevision = p.writeOf b eventId expectedRevision

/-- Each of the fields is present in both events or missing in both. -/
def SamePresence (keys : List String) (a b : Payload) : Prop :=
  ∀ key ∈ keys, (a.get? key).isSome = (b.get? key).isSome

/-- What decides whether two events of one key are written alike: the fields that are written even if
they are missing, and those that are no part of the identity. -/
def SameRest (p : Platform) (a b : Payload) : Prop :=
  (field a "kind" = .str "decision" →
    SamePresence ["session", "decision_id"] a b ∧
      p.textOf a "rationale" = p.textOf b "rationale") ∧
  (field a "kind" = .str "test_result" → SamePresence ["session", "command"] a b) ∧
  (field a "kind" = .str "state_sync" →
    SamePresence ["task_ref", "target_branch", "target_worktree_path"] a b ∧
      objectiveOption a = objectiveOption b ∧
      optionOf "--task-plan-path" "task_plan_path" a =
        optionOf "--task-plan-path" "task_plan_path" b)

section

variable {p : Platform} {a b : Payload}

theorem kindText_of {kind : String} (hkind : kind ≠ "") (ha : field a "kind" = .str kind) :
    p.textOr a "kind" "" = kind := by
  unfold Platform.textOr
  rw [ha]
  simp [truthy, hkind, Platform.str]

theorem identity_of {kind : String} (hkind : kind ≠ "") (ha : field a "kind" = .str kind)
    {keys : List String} (hkeys : identityFields kind = some keys) :
    p.identity a = .str kind :: keys.map (field a) := by
  unfold Platform.identity
  rw [kindText_of hkind ha, hkeys]

theorem fields_of_sameKey {k k' : String} (hk : k ≠ "") (hk' : k' ≠ "")
    (ha : field a "kind" = .str k) (hb : field b "kind" = .str k') {keys keys' : List String}
    (hkeys : identityFields k = some keys) (hkeys' : identityFields k' = some keys')
    (hkey : p.eventIdempotencyKey a = p.eventIdempotencyKey b) :
    k = k' ∧ ∀ key ∈ keys, field a key = field b key := by
  have hidentity : p.identity a = p.identity b := IdempotencyKey.mk.inj hkey
  rw [identity_of hk ha hkeys, identity_of hk' hb hkeys'] at hidentity
  obtain ⟨hkind, hfields⟩ := List.cons.inj hidentity
  have hkind' : k = k' := Json.str.inj hkind
  subst hkind'
  have hsame : keys = keys' := Option.some.inj (hkeys.symm.trans hkeys')
  rw [← hsame] at hfields
  exact ⟨rfl, fun key hmem => List.map_inj_left.mp hfields key hmem⟩

/-- Where two events agree in a field, they are written alike there unless it is missing in one of
them only. -/
theorem textOf_eq_iff {key : String} (h : field a key = field b key) :
    p.textOf a key = p.textOf b key ↔ (Dict.get? a key).isSome = (Dict.get? b key).isSome := by
  unfold field Dict.getD at h
  unfold Platform.textOf
  cases ha : a.get? key with
  | none =>
    cases hb : b.get? key with
    | none => simp
    | some v =>
      have hv : v = .null := by simpa [ha, hb] using h.symm
      simp [hv, Platform.str]
  | some v =>
    cases hb : b.get? key with
    | none =>
      have hv : v = .null := by simpa [ha, hb] using h
      simp [hv, Platform.str]
    | some w =>
      have hv : v = w := by simpa [ha, hb] using h
      simp [hv]

theorem optionOf_congr (flag : String) {key : String} (h : field a key = field b key) :
    optionOf flag key a = optionOf flag key b := by
  unfold optionOf
  rw [h]

theorem branchOptions_congr (hbranch : field a "branch" = field b "branch")
    (hsha : field a "commit_sha" = field b "commit_sha") : branchOptions a = branchOptions b := by
  unfold branchOptions
  rw [optionOf_congr _ hbranch, optionOf_congr _ hsha]

theorem objectiveOption_cases (x : Payload) :
    objectiveOption x = [] ∨ ∃ text, objectiveOption x = ["--objective", text] := by
  unfold objectiveOption
  split
  · exact .inr ⟨_, rfl⟩
  · exact .inl rfl

theorem optionOf_cases (flag key : String) (x : Payload) :
    optionOf flag key x = [] ∨ ∃ text, optionOf flag key x = [flag, text] := by
  unfold optionOf
  split
  · split
    · exact .inl rfl
    · exact .inr ⟨_, rfl⟩
  · exact .inl rfl

/-- The options of the objective and of the plan have different names, so two command lines agree in
both only if they agree in each. -/
theorem planOptions_eq_iff (x y : Payload) :
    objectiveOption x ++ optionOf "--task-plan-path" "task_plan_path" x =
        objectiveOption y ++ optionOf "--task-plan-path" "task_plan_path" y ↔
      objectiveOption x = objectiveOption y ∧
        optionOf "--task-plan-path" "task_plan_path" x =
          optionOf "--task-plan-path" "task_plan_path" y := by
  constructor
  · intro h
    rcases objectiveOption_cases x with hx | ⟨s, hx⟩ <;>
      rcases objectiveOption_cases y with hy | ⟨t, hy⟩ <;>
      rcases optionOf_cases "--task-plan-path" "task_plan_path" x with hpx | ⟨u, hpx⟩ <;>
      rcases optionOf_cases "--task-plan-path" "task_plan_path" y with hpy | ⟨v, hpy⟩ <;>
      simp_all
  · rintro ⟨hobjective, hplan⟩
    rw [hobjective, hplan]

theorem decision_sameWrite_iff (ha : field a "kind" = .str "decision")
    (hb : field b "kind" = .str "decision")
    (hfields : ∀ key ∈ ["session", "task_ref", "decision_id", "branch", "commit_sha"],
      field a key = field b key) :
    SameWrite p a b ↔ SamePresence ["session", "decision_id"] a b ∧
      p.textOf a "rationale" = p.textOf b "rationale" := by
  have hsession := textOf_eq_iff (p := p) (hfields "session" (by simp))
  have hid := textOf_eq_iff (p := p) (hfields "decision_id" (by simp))
  have htask := optionOf_congr "--task-ref" (hfields "task_ref" (by simp))
  have hbranch := branchOptions_congr (hfields "branch" (by simp)) (hfields "commit_sha" (by simp))
  have hwrite : ∀ x eventId revision, field x "kind" = .str "decision" →
      p.writeOf x eventId revision = some { argv := p.buildDecisionArgv x eventId } := by
    intro x eventId revision hx
    unfold Platform.writeOf
    simp [hx]
  have hargv : ∀ eventId, p.buildDecisionArgv a eventId = p.buildDecisionArgv b eventId ↔
      p.textOf a "session" = p.textOf b "session" ∧
        p.textOf a "decision_id" = p.textOf b "decision_id" ∧
          p.textOf a "rationale" = p.textOf b "rationale" := by
    intro eventId
    unfold Platform.buildDecisionArgv
    rw [htask, hbranch]
    simp
  simp only [SameWrite, SamePresence, hwrite a _ _ ha, hwrite b _ _ hb, Option.some.injEq,
    Command.mk.injEq, hargv, hsession, hid]
  simp [and_assoc]

theorem testResult_sameWrite_iff (ha : field a "kind" = .str "test_result")
    (hb : field b "kind" = .str "test_result")
    (hfields : ∀ key ∈ ["session", "task_ref", "command", "passed", "exit_code", "result", "branch",
      "commit_sha"], field a key = field b key) :
    SameWrite p a b ↔ SamePresence ["session", "command"] a b := by
  have hsession := textOf_eq_iff (p := p) (hfields "session" (by simp))
  have hcommand := textOf_eq_iff (p := p) (hfields "command" (by simp))
  have htask := optionOf_congr "--task-ref" (hfields "task_ref" (by simp))
  have hbranch := branchOptions_congr (hfields "branch" (by simp)) (hfields "commit_sha" (by simp))
  have hcode : p.exitCodeOption a = p.exitCodeOption b := by
    unfold Platform.exitCodeOption
    rw [hfields "exit_code" (by simp)]
  have hwrite : ∀ x eventId revision, field x "kind" = .str "test_result" →
      p.writeOf x eventId revision = some { argv := p.buildTestResultArgv x eventId } := by
    intro x eventId revision hx
    unfold Platform.writeOf
    simp [hx]
  have hargv : ∀ eventId, p.buildTestResultArgv a eventId = p.buildTestResultArgv b eventId ↔
      p.textOf a "session" = p.textOf b "session" ∧
        p.textOf a "command" = p.textOf b "command" := by
    intro eventId
    unfold Platform.buildTestResultArgv
    rw [htask, hbranch, hcode, hfields "passed" (by simp), hfields "result" (by simp)]
    simp
  simp only [SameWrite, SamePresence, hwrite a _ _ ha, hwrite b _ _ hb, Option.some.injEq,
    Command.mk.injEq, hargv, hsession, hcommand]
  simp

theorem stateSync_sameWrite_iff (ha : field a "kind" = .str "state_sync")
    (hb : field b "kind" = .str "state_sync")
    (hfields : ∀ key ∈ ["task_ref", "target_branch", "target_worktree_path", "status", "branch",
      "commit_sha"], field a key = field b key) :
    SameWrite p a b ↔ SamePresence ["task_ref", "target_branch", "target_worktree_path"] a b ∧
      objectiveOption a = objectiveOption b ∧
        optionOf "--task-plan-path" "task_plan_path" a =
          optionOf "--task-plan-path" "task_plan_path" b := by
  have htask := textOf_eq_iff (p := p) (hfields "task_ref" (by simp))
  have htarget := textOf_eq_iff (p := p) (hfields "target_branch" (by simp))
  have hpath := textOf_eq_iff (p := p) (hfields "target_worktree_path" (by simp))
  have hbranch := branchOptions_congr (hfields "branch" (by simp)) (hfields "commit_sha" (by simp))
  have hstatus : p.textOr a "status" "in_progress" = p.textOr b "status" "in_progress" := by
    unfold Platform.textOr
    rw [hfields "status" (by simp)]
  have hcwd : p.stateSyncCwd a = p.stateSyncCwd b := by
    unfold Platform.stateSyncCwd
    rw [hfields "target_worktree_path" (by simp)]
  have hwrite : ∀ x eventId revision, field x "kind" = .str "state_sync" →
      p.writeOf x eventId revision =
        some { argv := p.buildStateSyncArgv x eventId revision, cwd := p.stateSyncCwd x } := by
    intro x eventId revision hx
    unfold Platform.writeOf
    simp [hx]
  have hargv : ∀ eventId revision,
      p.buildStateSyncArgv a eventId revision = p.buildStateSyncArgv b eventId revision ↔
        p.textOf a "task_ref" = p.textOf b "task_ref" ∧
          p.textOf a "target_branch" = p.textOf b "target_branch" ∧
          p.textOf a "target_worktree_path" = p.textOf b "target_worktree_path" ∧
          objectiveOption a ++ optionOf "--task-plan-path" "task_plan_path" a =
            objectiveOption b ++ optionOf "--task-plan-path" "task_plan_path" b := by
    intro eventId revision
    unfold Platform.buildStateSyncArgv
    have hcancel : ∀ xs ys zs ws tail : List String,
        xs ++ (ys ++ tail) = zs ++ (ws ++ tail) ↔ xs ++ ys = zs ++ ws := by
      intro xs ys zs ws tail
      rw [← List.append_assoc, ← List.append_assoc, List.append_cancel_right_eq]
    rw [hbranch, hstatus]
    simp [hcancel]
  simp only [SameWrite, SamePresence, hwrite a _ _ ha, hwrite b _ _ hb, Option.some.injEq,
    Command.mk.injEq, hargv, hcwd, htask, htarget, hpath, planOptions_eq_iff]
  simp [and_assoc]

/-- Two events of one key are written alike exactly if they agree in the rest too. -/
theorem sameWrite_iff_sameRest (p : Platform) {a b : Payload} (ha : Projected a) (hb : Projected b)
    (hkey : p.eventIdempotencyKey a = p.eventIdempotencyKey b) :
    SameWrite p a b ↔ SameRest p a b := by
  rcases ha with ha | ha | ha <;> rcases hb with hb | hb | hb <;>
    obtain ⟨hkind, hfields⟩ :=
      fields_of_sameKey (by decide) (by decide) ha hb rfl rfl hkey
  case inl.inl =>
    rw [decision_sameWrite_iff ha hb hfields]
    simp [SameRest, ha]
  case inr.inl.inr.inl =>
    rw [testResult_sameWrite_iff ha hb hfields]
    simp [SameRest, ha]
  case inr.inr.inr.inr =>
    rw [stateSync_sameWrite_iff ha hb hfields]
    simp [SameRest, ha]
  all_goals exact absurd hkind (by decide)

end

/-- A platform on which nothing is shown, read or found. -/
def bare : Platform where
  display _ := ""
  quote s := s
  dumpsSorted _ := ""
  hexdigest _ := ""
  loads _ := none
  isDir _ := false
  console := []

/-- What is spooled when a task is synced with an objective. -/
def stateSync (objective : String) : Payload :=
  [("kind", .str "state_sync"), ("task_ref", .str "wave"), ("target_branch", .str "feat/wave"),
    ("target_worktree_path", .str "/wave"), ("task_plan_path", .null),
    ("objective", .str objective), ("status", .str "in_progress"), ("branch", .str "feat/wave"),
    ("commit_sha", .str "c1")]

theorem sameWrite_iff_sameRest_stateSync :
    SameWrite bare (stateSync "parse") (stateSync "print") ↔
      SameRest bare (stateSync "parse") (stateSync "print") :=
  sameWrite_iff_sameRest bare (.inr (.inr rfl)) (.inr (.inr rfl)) rfl

/-- Two syncs of a task with different objectives have one key, and are not written alike. -/
theorem objective_not_in_key : ¬ ∀ (p : Platform) (a b : Payload), Projected a → Projected b →
    p.eventIdempotencyKey a = p.eventIdempotencyKey b → SameWrite p a b := by
  intro h
  have hsame := h bare (stateSync "parse") (stateSync "print") (.inr (.inr rfl)) (.inr (.inr rfl))
    rfl
  have hargv := hsame "" none
  exact absurd hargv (by decide +kernel)

end Workbay.Projection

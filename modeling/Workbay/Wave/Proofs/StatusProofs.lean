import Workbay.Wave.Proofs.SoloProofs
import Workbay.Wave.Transport

/-!
# The status view agrees with replay

The transport folds kinds of events, the supervisor folds checked records. On the journals that a
supervisor writes both give every lane the same state, provided that the integrations in the
journal are proven.
-/

namespace Workbay.Wave

open Effects Git List

section

variable {view : StatusView} {e : JournalEvent} {laneId : LaneId} {status : LaneStatus}

theorem StatusView.fold_states (hlane : laneOf e.fields = some laneId) (hne : laneId ≠ "")
    (hgate : e.kind = "lane.gated" → e.fields.get? "ok" = some (.bool true))
    (hdeferred : e.kind ≠ "lane.admission_deferred") (hstate : eventState e = some status) :
    (view.fold e).states = view.states.set laneId status := by
  have hid := laneOf_eq_some.mp hlane
  have hnot : ¬ (e.kind = "lane.gated" ∧ e.fields.get? "ok" ≠ some (.bool true)) :=
    fun h => h.2 (hgate h.1)
  unfold StatusView.fold
  simp only [hnot, if_false, hid, hne, hdeferred, hstate]

theorem StatusView.fold_rejected (hk : e.kind = "lane.gated")
    (hok : e.fields.get? "ok" ≠ some (.bool true)) : view.fold e = view := by
  unfold StatusView.fold
  rw [if_pos ⟨hk, hok⟩]

theorem StatusView.fold_deferred (hlane : laneOf e.fields = some laneId) (hne : laneId ≠ "")
    (hk : e.kind = "lane.admission_deferred") :
    (view.fold e).states = Dict.setDefault view.states laneId .pending := by
  have hid := laneOf_eq_some.mp hlane
  have hnot : ¬ (e.kind = "lane.gated" ∧ e.fields.get? "ok" ≠ some (.bool true)) := by
    rw [hk]
    simp
  unfold StatusView.fold
  rw [if_neg hnot]
  simp only [hid, hne, hk, if_false, if_true]

theorem StatusView.fold_refused (hk : e.kind = "wave.refused") : view.fold e = view := by
  have hstate : eventState e = none := by
    simp [eventState, hk, stateKinds, kindToState, Dict.get?]
  unfold StatusView.fold
  simp only [hk, String.reduceEq, false_and, if_false, hstate]
  split
  · split_ifs <;> rfl
  · rfl

theorem foldLaneStates_concat (events : List JournalEvent) (e : JournalEvent) :
    foldLaneStates (events ++ [e]) = (foldLaneStates events).fold e := by
  unfold foldLaneStates
  rw [foldl_append]
  rfl

theorem StatusView.fold_legal {n : Nat} {budget : Int} {record : Option LaneState}
    {unproven : String → String → Option String}
    (hlane : laneOf e.fields = some laneId) (hne : laneId ≠ "") (he : EventOk n e)
    (hm : LaneMove budget (record.getD {}) e)
    (hproven : e.kind = "lane.integrated" →
      unproven ((e.str? "tip").getD "") ((e.str? "wave_tip").getD "") = none)
    (hview : view.states.get? laneId = record.map LaneState.state) :
    Dict.get? (view.fold e).states laneId =
        some (((record.getD {}).apply unproven e).state) ∧
      ∀ other, other ≠ laneId →
        Dict.get? (view.fold e).states other = view.states.get? other := by
  have hset : ∀ {s}, (view.fold e).states = view.states.set laneId s →
      Dict.get? (view.fold e).states laneId = some s ∧ ∀ other, other ≠ laneId →
        Dict.get? (view.fold e).states other = view.states.get? other := by
    intro s hs
    rw [hs]
    exact ⟨Dict.get?_set_self _ _ _, fun other ho => Dict.get?_set_of_ne _ _ ho⟩
  cases hm with
  | deferred hk hs =>
    rw [apply_deferred hk, StatusView.fold_deferred hlane hne hk]
    unfold Dict.setDefault
    cases record with
    | none =>
      simp only [hview, Option.map_none, Dict.get?_set_self, Option.getD_none, true_and]
      exact fun other ho => Dict.get?_set_of_ne _ _ ho
    | some st => simp [hview]
  | submitted hk ha hs =>
    rw [apply_submitted hk ha]
    refine hset (fold_states hlane hne (by simp [hk]) (by simp [hk]) ?_)
    simp [eventState, hk, stateKinds, kindToState, stateNames, Dict.get?]
  | collected hk hs =>
    rw [apply_collected hk]
    refine hset (fold_states hlane hne (by simp [hk]) (by simp [hk]) ?_)
    simp [eventState, hk, stateKinds, kindToState, stateNames, Dict.get?]
  | gated hk hs htip =>
    obtain ⟨ok, -, hok, -, -⟩ := he.gated hk
    have hfield : e.fields.get? "ok" = some (.bool ok) := by
      unfold JournalEvent.bool? at hok
      cases hget : e.fields.get? "ok" with
      | none => simp [hget] at hok
      | some v => cases v <;> simp [hget, Json.bool?] at hok; rw [hok]
    cases ok with
    | true =>
      rw [apply_gated_accepted hk hok hs htip]
      refine hset (fold_states hlane hne (fun _ => hfield) (by simp [hk]) ?_)
      simp [eventState, hk, stateKinds, kindToState, stateNames, Dict.get?]
    | false =>
      rw [apply_gated_rejected hk (by simp [hok]),
        StatusView.fold_rejected hk (by simp [hfield])]
      refine ⟨?_, fun _ _ => rfl⟩
      cases record with
      | none => simp at hs
      | some st =>
        simp only [Option.getD_some] at hs
        rw [hview, Option.map_some, hs]
  | integrated hk hs htip =>
    rw [apply_integrated_proven hk (hproven hk)]
    refine hset (fold_states hlane hne (by simp [hk]) (by simp [hk]) ?_)
    simp [eventState, hk, stateKinds, kindToState, stateNames, Dict.get?]
  | failed hk hs =>
    rw [apply_failed hk]
    refine hset (fold_states hlane hne (by simp [hk]) (by simp [hk]) ?_)
    simp [eventState, hk, stateKinds, kindToState, stateNames, Dict.get?]
  | parked hk hs =>
    rw [apply_parked hk]
    refine hset (fold_states hlane hne (by simp [hk]) (by simp [hk]) ?_)
    simp [eventState, hk, stateKinds, kindToState, stateNames, Dict.get?]

end

section

variable {ι : Type} [DecidableEq ι] {os : Platform} {ctx : SupervisorContext} {i : ι}
  {w w' : SupervisorWorld ι}

/-- Every claim of an integration is proven by the graph. -/
def ProvenEvents (repo : Repo) (journal : List JournalEvent) : Prop :=
  ∀ e ∈ journal, e.kind = "lane.integrated" →
    inGraph repo ((e.str? "tip").getD "") ((e.str? "wave_tip").getD "") = none

/-- Both folds agree, if all integrations are proven. -/
def StatusAgrees (w : SupervisorWorld ι) : Prop :=
  ProvenEvents w.repo w.journal → ∀ laneId, Dict.get? (foldLaneStates w.journal).states laneId =
    (laneView? (inGraph w.repo) w.journal laneId).map LaneState.state

omit [DecidableEq ι] in
theorem StatusAgrees.of_isNew (h : w.IsNew) : StatusAgrees w := by
  intro _ laneId
  rw [h.1]
  rfl

omit [DecidableEq ι] in
/-- What others do to the repository proves nothing new and refutes nothing. -/
theorem StatusAgrees.forward (h : StatusAgrees w)
    (hc : CertifiedEvents w.repo ctx.wave w.journal)
    (hf : Forward (waveBranch ctx.wave) w.repo w'.repo) (hj : w'.journal = w.journal) :
    StatusAgrees w' := by
  intro hproven laneId
  have hsame : ∀ e ∈ w.journal, e.kind = "lane.integrated" →
      inGraph w'.repo ((e.str? "tip").getD "") ((e.str? "wave_tip").getD "") =
        inGraph w.repo ((e.str? "tip").getD "") ((e.str? "wave_tip").getD "") :=
    fun e he hk => ((hc e he hk).forward hf).2
  have hbefore : ProvenEvents w.repo w.journal := by
    intro e he hk
    rw [← hsame e he hk]
    exact hproven e (hj ▸ he) hk
  rw [hj, laneView?_congr hsame]
  exact h hbefore laneId

theorem StatusAgrees.step (h : StatusAgrees w) (hok : SupervisorOk ctx w)
    (hok' : SupervisorOk ctx w') (hg : Guaranteed ctx i w w') : StatusAgrees w' := by
  -- first the repository moves, then the journal
  have hrepo : StatusAgrees { w with repo := w'.repo } := by
    apply StatusAgrees.forward h hok.certified
    · exact hg.forward
    · rfl
  have hmoved : ∀ laneId, laneView (inGraph w'.repo) w.journal laneId = w.lane laneId :=
    fun laneId => laneView_congr fun e he hk => ((hok.certified e he hk).forward hg.forward).2
  have hproves : ∀ {e}, w'.journal = w.journal ++ [e] → ProvenEvents w'.repo w'.journal →
      ProvenEvents w'.repo w.journal := fun hj hp e he hk => hp e (by rw [hj]; simp [he]) hk
  rcases hg.journal with ⟨hj, -⟩ | ⟨e, hj, hk, -⟩ | ⟨e, l, ha⟩
  · unfold StatusAgrees
    rw [hj]
    exact hrepo
  · intro hproven laneId
    rw [hj, foldLaneStates_concat, StatusView.fold_refused hk, laneView?_concat, if_neg (by simp [hk])]
    exact hrepo (hproves hj hproven) laneId
  · intro hproven laneId
    have hagree := hrepo (hproves ha.journal hproven)
    have hne := SupervisorContext.ne_of_mem_laneIds ha.known
    have he : EventOk w'.repo.objectIdLength e := hok'.events e (by rw [ha.journal]; simp)
    have hmove : LaneMove ctx.attemptBudget
        ((laneView? (inGraph w'.repo) w.journal l).getD {}) e := by
      have hview := hmoved l
      unfold laneView at hview
      rw [hview]
      exact ha.move
    have hlegal := StatusView.fold_legal ha.lane hne he hmove
      (hproven e (by rw [ha.journal]; simp)) (hagree l)
    have hkind : e.kind ≠ "wave.refused" := by
      intro hk
      cases ha.move <;> simp_all
    rw [ha.journal, foldLaneStates_concat, laneView?_concat]
    by_cases heq : laneId = l
    · subst heq
      rw [if_pos ⟨ha.lane, hkind⟩, hlegal.1]
      rfl
    · have hother : laneOf e.fields ≠ some laneId := by
        rw [ha.lane]
        exact fun h => heq (Option.some.inj h).symm
      rw [if_neg fun h => hother h.1, hlegal.2 laneId heq]
      exact hagree laneId

theorem status_of_reachable {s : SupervisorConfig ι}
    (h : (supervisorSystem os ctx).Reachable SupervisorWorld.IsNew s)
    (hquiet : s.world.raced = false) : StatusAgrees s.world := by
  obtain ⟨w, hnew, hs⟩ := h
  refine (supervisors_sound os ctx).invariant (J := StatusAgrees) (fun _ _ _ _ h => h) ?_ ?_
    (supervised_boot hnew) (quiet_of_steps hs hquiet).1 (.of_isNew hnew)
  · exact fun i e c a w w' hok hok' hJ _ hg => hJ.step hok hok' hg
  · intro d w w' hok hJ hd
    obtain ⟨hd, -⟩ := Option.filter_eq_some_iff.mp hd
    obtain ⟨repo, hrepo, rfl⟩ := Option.map_eq_some_iff.mp hd
    apply StatusAgrees.forward hJ hok.certified
    · exact RepoMove.forward hrepo
    · rfl

end

/-- In every run of a single supervisor whose integrations are all proven, the status view shows
every lane in the state that replay gives it. -/
theorem status_view_agrees {os : Platform} {ctx : SupervisorContext} {s : SupervisorConfig Unit}
    (h : (soloSystem os ctx).Reachable SupervisorWorld.IsNew s)
    (hproven : ∀ e ∈ s.world.journal, e.kind = "lane.integrated" →
      integrationUnprovenReason s.world.repo ctx.wave ((e.str? "tip").getD "")
        ((e.str? "wave_tip").getD "") = none)
    {states : LaneStates} (hr : replay s.world.repo ctx.wave s.world.journal = .ok states)
    (laneId : LaneId) :
    Dict.get? (foldLaneStates s.world.journal).states laneId =
      (states.get? laneId).map LaneState.state := by
  obtain ⟨hholds, -⟩ := solo_ok h
  obtain ⟨states', hreplay, hget, -⟩ := hholds.1.replay
  obtain rfl := Except.ok.inj (hreplay.symm.trans hr)
  rw [hget]
  refine status_of_reachable h (solo_quiet h).1 (fun e he hk => ?_) laneId
  rw [← (hholds.1.certified e he hk).unprovenReason_eq]
  exact hproven e he hk

/-- The view after the first submission. -/
theorem status_view_agrees_first_submission : ∃ s : SupervisorConfig Unit,
    (soloSystem transparentPlatform soloContext).exec (System.boot (newWorld Unit))
      (submitsFirst () ++ recordsSubmission ()) = some s ∧
    Dict.get? (foldLaneStates s.world.journal).states "a" = some .running := by
  have hrun : ((soloSystem transparentPlatform soloContext).exec (System.boot (newWorld Unit))
      (submitsFirst () ++ recordsSubmission ())).map (fun s =>
        ((replay s.world.repo "w" s.world.journal).toOption.map fun states =>
          (states.get? "a").map LaneState.state,
        s.world.journal.map JournalEvent.kind)) =
      some (some (some .running), ["lane.submitted"]) := by
    decide +kernel
  obtain ⟨s, hs, hstatus⟩ := Option.map_eq_some_iff.mp hrun
  obtain ⟨hreplay, hkinds⟩ := Prod.mk.inj hstatus
  obtain ⟨states, hr, hlane⟩ := Option.map_eq_some_iff.mp hreplay
  have hr' : replay s.world.repo soloContext.wave s.world.journal = .ok states := by
    change replay s.world.repo "w" s.world.journal = .ok states
    cases hreplay : replay s.world.repo "w" s.world.journal with
    | error x => simp [hreplay, Except.toOption] at hr
    | ok states' => simp only [hreplay, Except.toOption, Option.some.injEq] at hr; rw [hr]
  refine ⟨s, hs, ?_⟩
  rw [← hlane]
  refine @status_view_agrees _ soloContext _ ⟨_, newWorld_isNew Unit, _, hs⟩ ?_ _ hr' "a"
  intro e he hk
  have hmem : e.kind ∈ s.world.journal.map JournalEvent.kind := mem_map_of_mem he
  rw [hkinds, hk] at hmem
  simp at hmem

theorem rdropWhile_cons_of_neg {α : Type} {p : α → Bool} {a : α} (ha : p a = false) (l : List α) :
    (a :: l).rdropWhile p = a :: l.rdropWhile p := by
  induction l using List.reverseRecOn with
  | nil =>
    rw [rdropWhile_singleton, ha, rdropWhile_nil]
    rfl
  | append_singleton l b ih =>
    rw [← cons_append]
    by_cases hb : p b = true
    · rw [rdropWhile_concat_pos p (a :: l) b hb, rdropWhile_concat_pos p l b hb, ih]
    · rw [rdropWhile_concat_neg p (a :: l) b hb, rdropWhile_concat_neg p l b hb,
        cons_append]

theorem subjectLine_cons {c : Char} (hc : isGitSpace c = false) (rest : List Char) :
    ∃ tail, (subjectLine (String.ofList (c :: rest))).toList = c :: tail := by
  have hne : c ≠ '\n' := by
    rintro rfl
    cases hc
  obtain ⟨line, lines, hlines⟩ : ∃ line lines, rest.splitOn '\n' = line :: lines := by
    cases hsplit : rest.splitOn '\n' with
    | nil => exact absurd hsplit (splitOnP_ne_nil _ _)
    | cons line lines => exact ⟨line, lines, rfl⟩
  have hsplit : (c :: rest).splitOn '\n' = (c :: line) :: lines := by
    have hcons := splitOnP_cons_eq_if_modifyHead (p := (· == '\n')) c rest
    rw [if_neg (by simpa using hne)] at hcons
    unfold List.splitOn at hlines ⊢
    rw [hcons, hlines]
    rfl
  unfold subjectLine
  simp only [String.toList_ofList, hsplit, map_cons, trimRight, rdropWhile_cons_of_neg hc]
  rw [dropWhile_cons_of_neg (by simp), takeWhile_cons_of_pos (by simp)]
  cases (lines.map trimRight).takeWhile fun l => !l.isEmpty with
  | nil => exact ⟨_, by rw [intercalate_singleton]⟩
  | cons l ls => exact ⟨_, by rw [intercalate_cons_cons, append_assoc, cons_append]⟩

theorem integrateMessage_eq (wave : String) (laneId : LaneId) :
    ∃ rest, integrateMessage wave laneId = String.ofList ('w' :: rest) := by
  refine ⟨(integrateMessage wave laneId).toList.tail, ?_⟩
  apply String.toList_inj.mp
  simp [integrateMessage, String.toList_append]

theorem afterWord_cons_of_ne {c d : Char} (h : foldCase d ≠ c) (word text : List Char) :
    afterWord (c :: word) (d :: text) = none := by
  unfold afterWord
  rw [if_neg]
  intro heq
  rw [length_cons, take_succ_cons, map_cons] at heq
  exact h (List.cons.inj heq).1

theorem integrationSubject_integrateMessage (wave : String) (laneId : LaneId) :
    integrationSubject (Text.strip (subjectLine (integrateMessage wave laneId))).toList = none := by
  obtain ⟨rest, hmessage⟩ := integrateMessage_eq wave laneId
  obtain ⟨tail, htail⟩ := subjectLine_cons (c := 'w') (by decide) rest
  have hspace : Text.isSpace 'w' = false := by decide
  rw [hmessage, Text.strip, htail, String.toList_ofList,
    dropWhile_cons_of_neg (by rw [hspace]; exact Bool.false_ne_true),
    rdropWhile_cons_of_neg hspace]
  generalize tail.rdropWhile Text.isSpace = text
  have hintegrate : afterWord "integrate".toList ('w' :: text) = none :=
    afterWord_cons_of_ne (by decide) "ntegrate".toList text
  have hmerge : afterWord "merge".toList ('w' :: text) = none :=
    afterWord_cons_of_ne (by decide) "erge".toList text
  rw [integrationSubject, hintegrate, hmerge]
  rfl

/-- Whatever the wave and the lane are called, the entry of an integration has no lane. -/
theorem integrationEntries_unnamed (repo : Repo) (wave : String) {laneId : LaneId}
    {node : Node String CommitData} (hnode : repo.graph.find? node.id = some node)
    (hmessage : node.data.message = integrateMessage wave laneId) :
    ∀ entry ∈ integrationEntries repo wave, entry.commit = node.id → entry.laneId = none := by
  intro entry hentry hcommit
  obtain ⟨commit, -, rfl⟩ := mem_map.mp hentry
  have hsubject : repo.subjectOf commit = some (subjectLine (integrateMessage wave laneId)) := by
    have heq : commit = node.id := hcommit
    rw [Repo.subjectOf, heq, hnode, Option.map_some, hmessage]
  unfold integrationEntry
  simp only [hsubject, Option.getD_some]
  exact integrationSubject_integrateMessage wave laneId

/-- The commits of a wave with one integration. -/
def integratedNodes : List (Node String CommitData) :=
  [⟨"b", ["a"], ⟨"t", integrateMessage "w" "l"⟩⟩, ⟨"a", [], ⟨"t", "base"⟩⟩]

theorem integratedNodes_ordered : Ordered integratedNodes := by decide

theorem integratedNodes_fullIds (a : String) (h : a ∈ ids integratedNodes) :
    isFullObjectId a 1 = true := by
  have hmem : a = "b" ∨ a = "a" := by simpa [integratedNodes, ids] using h
  rcases hmem with rfl | rfl <;> decide +kernel

theorem integratedNodes_tips (ref tip : String)
    (h : Dict.get? [("refs/heads/wave/w", "b")] ref = some tip) : tip ∈ ids integratedNodes := by
  have hpair := Dict.mem_of_get? h
  obtain ⟨-, rfl⟩ := Prod.mk.inj (mem_singleton.mp hpair)
  decide

def integratedRepo : Repo where
  objectIdLength := 1
  graph := ⟨integratedNodes, integratedNodes_ordered⟩
  tags := []
  refs := [("refs/heads/wave/w", "b")]
  symbolicRefs := []
  mergeTree _ _ := .conflict
  fullIds := integratedNodes_fullIds
  tips := integratedNodes_tips

theorem integratedRepo_find :
    integratedRepo.graph.find? "b" = some ⟨"b", ["a"], ⟨"t", integrateMessage "w" "l"⟩⟩ := by
  decide +kernel

theorem integrationEntries_unnamed_first :
    ∃ entry ∈ integrationEntries integratedRepo "w", entry.commit = "b" ∧ entry.laneId = none := by
  obtain ⟨entry, hentry, hcommit⟩ : ∃ entry ∈ integrationEntries integratedRepo "w",
      entry.commit = "b" := by decide +kernel
  let node : Node String CommitData := ⟨"b", ["a"], ⟨"t", integrateMessage "w" "l"⟩⟩
  have hfind : integratedRepo.graph.find? node.id = some node := integratedRepo_find
  have hmessage : node.data.message = integrateMessage "w" "l" := rfl
  exact ⟨entry, hentry, hcommit,
    integrationEntries_unnamed integratedRepo "w" hfind hmessage entry hentry hcommit⟩

/-- The commit of an integration is in the history of its wave, and its lane is not found. -/
theorem integration_not_decoded : ¬ ∀ (repo : Repo) (wave : String) (laneId : LaneId)
    (node : Node String CommitData), repo.graph.find? node.id = some node →
      node.data.message = integrateMessage wave laneId → node.id ∈ waveCommits repo wave →
        ∃ entry ∈ integrationEntries repo wave, entry.commit = node.id ∧
          entry.laneId = some laneId := by
  intro h
  obtain ⟨entry, hentry, -, hlane⟩ := h integratedRepo "w" "l"
    ⟨"b", ["a"], ⟨"t", integrateMessage "w" "l"⟩⟩ integratedRepo_find rfl (by decide +kernel)
  have hnone : ∀ entry ∈ integrationEntries integratedRepo "w", entry.laneId = none := by
    decide +kernel
  rw [hnone entry hentry] at hlane
  cases hlane

end Workbay.Wave

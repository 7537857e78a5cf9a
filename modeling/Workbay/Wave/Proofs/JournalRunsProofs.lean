import Workbay.Wave.Proofs.JournalProofs

/-!
# Runs of the journal

Any number of producers append to one journal. In every state that such a run reaches the journal
is one chain in which every successful call has its event exactly once, and a call that repeats an
event leaves the chain as it is.
-/

namespace Workbay.Wave

open Effects Git List

theorem filter_eq_singleton {α β : Type} [DecidableEq β] {f : α → β} {l : List α}
    (hd : (l.map f).Nodup) {x : α} (hx : x ∈ l) : l.filter (fun y => f y = f x) = [x] := by
  induction l with
  | nil => simp at hx
  | cons y l ih =>
    rw [map_cons, nodup_cons] at hd
    rcases mem_cons.mp hx with rfl | hx'
    · have hrest : l.filter (fun y => f y = f x) = [] := by
        rw [filter_eq_nil_iff]
        intro z hz hfz
        exact hd.1 (of_decide_eq_true hfz ▸ mem_map_of_mem hz)
      rw [filter_cons_of_pos (by simp), hrest]
    · have hne : f y ≠ f x := fun h => hd.1 (h ▸ mem_map_of_mem hx')
      rw [filter_cons_of_neg (by simpa using hne), ih hd.2 hx']

/-- A state of the repository and of all calls. -/
abbrev JournalConfig (ι : Type) :=
  Config ι JournalOp JournalOp.Answer JournalError AppendResult (JournalWorld ι)

section Runs

variable {ι : Type} [DecidableEq ι] {os : Platform} {wave : String} {requests : ι → AppendRequest}

/-- The request as the call `i` makes it. -/
def requestFor (wave : String) (requests : ι → AppendRequest) (i : ι) : AppendRequest :=
  { requests i with wave := wave }

/-- The event id of the call `i`. -/
def eventIdFor (os : Platform) (wave : String) (requests : ι → AppendRequest) (i : ι) : String :=
  deriveEventId os wave (requests i).producer (requests i).producerSeq

/-- Each call promises what every other call counts on, whatever the journal once was. The calls of
`P` also report truthfully about that journal. -/
theorem append_sound (base : List EventNode) (P : ι → Prop) :
    Sound (journalSystem os wave requests)
      (fun i => appendConduct wave (eventIdFor os wave requests i) base)
      (fun w => WellFormed wave w ∧ base <:+ w.nodes)
      (fun i r w => P i → Reported os i (requestFor wave requests i) base r w) where
  inv_eq _ := rfl
  enter i _ w h :=
    ⟨h, (append_safe os (requestFor wave requests i) rfl w).weaken fun _ _ _ hr _ => hr,
      fun _ _ => Later.refl w⟩
  compat _ _ _ _ _ _ _ _ _ _ _ hg := hg.1
  env d := nomatch d

theorem reachable_holds {s : JournalConfig ι}
    (h : (journalSystem os wave requests).Reachable JournalWorld.IsNew s) :
    Sound.Holds (journalSystem os wave requests)
      (fun i => appendConduct wave (eventIdFor os wave requests i) [])
      (fun w => WellFormed wave w ∧ [] <:+ w.nodes)
      (fun i r w => True → Reported os i (requestFor wave requests i) [] r w) s :=
  (append_sound [] _).reachable (fun _ hw => ⟨.of_isNew hw, nil_suffix⟩) h

variable {w : JournalWorld ι} {r : AppendRequest} {e : JournalEvent}

omit [DecidableEq ι] in
/-- What is safe in general is safe once the journal has ended in `base`. -/
theorem safe_rebase {i : ι} {eventId : String} {base : List EventNode}
    {post : Except JournalError AppendResult → JournalWorld ι → Prop} {p : JournalM AppendResult}
    (h : Safe (JournalOp.actFor i) (appendConduct wave eventId []) post p w) :
    Safe (JournalOp.actFor i) (appendConduct wave eventId base) post p w := by
  refine Safe.strengthen (K := appendConduct wave eventId []) (L := appendConduct wave eventId base)
    (J := fun w => base <:+ w.nodes) (fun w' => ?_) (fun hl => hl)
    (fun _ hg => hg) (fun hg hb => hb.trans hg.1.nodes) h
  constructor
  · exact fun hi => ⟨⟨hi.1, nil_suffix⟩, hi.2⟩
  · exact fun hi => ⟨hi.1.1, hi.2⟩

theorem Steps.journal_prefix {s s' : JournalConfig ι} (h : (journalSystem os wave requests).Reachable JournalWorld.IsNew s)
    (h' : (journalSystem os wave requests).Steps s s') : s.world.nodes <:+ s'.world.nodes :=
  (append_sound [] _).invariant (J := fun w => s.world.nodes <:+ w.nodes) (fun _ _ _ _ hJ => hJ)
    (fun _ _ _ _ _ _ _ _ hJ _ hg => hJ.trans hg.1.nodes) (fun d => nomatch d) (reachable_holds h) h'
    (suffix_refl _)

/-- The request asks for what the event says; a timestamp counts only if the request has one. -/
def AppendRequest.SamePayload (r : AppendRequest) (e : JournalEvent) : Prop :=
  e.wave = r.wave ∧ e.kind = r.kind ∧ e.producer = r.producer ∧ e.producerSeq = r.producerSeq ∧
    e.causalParent = r.causalParent ∧ (∀ ts, r.ts = some ts → e.ts = ts) ∧
    Json.dumps (.obj e.fields) = Json.dumps (.obj r.fields)

/-- The answer to a request whose event id the journal has already. -/
def RepeatAnswer (os : Platform) (r : AppendRequest) (journal : List JournalEvent)
    (result : AppendResult) : Prop :=
  (∃ e ∈ journal, e.eventId = deriveEventId os r.wave r.producer r.producerSeq ∧
    ((r.SamePayload e ∧ result = .duplicate) ∨
      (¬ r.SamePayload e ∧ result = .refused "event_id_conflict"))) ∨
  (maxEventsDefault < journal.length ∧ result = .refused "truncated") ∨
  ∃ now x, normalizeAppendEvent os r now = .error x ∧ result = .refused x.reason

theorem sameAppendPayload_iff (now : String)
    (he : e.eventId = deriveEventId os r.wave r.producer r.producerSeq) :
    sameAppendPayload e (r.eventAt os (r.ts.getD now)) r.ts.isSome = true ↔ r.SamePayload e := by
  have hts : (r.ts.isSome = true → e.ts = r.ts.getD now) ↔ ∀ ts, r.ts = some ts → e.ts = ts := by
    cases r.ts <;> simp
  unfold sameAppendPayload AppendRequest.SamePayload
  rw [Bool.and_eq_true, decide_eq_true_iff, decide_eq_true_iff]
  simp only [AppendRequest.eventAt, he, hts, true_and, and_assoc]

/-- The verdict is `duplicate` exactly for the same payload. -/
theorem verdictOn_cases {now : String} {n : NormalizedEvent}
    (hn : normalizeAppendEvent os r now = .ok n) (he : e.eventId = n.event.eventId) :
    (r.SamePayload e ∧ verdictOn e n = .duplicate) ∨
      (¬ r.SamePayload e ∧ verdictOn e n = .refused "event_id_conflict") := by
  obtain ⟨-, hev, hts, -⟩ := normalizeAppendEvent_ok hn
  have hid : e.eventId = deriveEventId os r.wave r.producer r.producerSeq := by rw [he, hev]; rfl
  have hiff := sameAppendPayload_iff now hid
  unfold verdictOn
  rw [hev, hts]
  by_cases hs : r.SamePayload e
  · exact .inl ⟨hs, if_pos (hiff.mpr hs)⟩
  · exact .inr ⟨hs, if_neg fun h => hs (hiff.mp h)⟩

omit [DecidableEq ι] in
theorem Reported.repeatAnswer {i : ι} {base : List EventNode} {result : AppendResult}
    (h : Reported os i r base (.ok result) w)
    (hid : deriveEventId os r.wave r.producer r.producerSeq ∈ eventIds base) :
    RepeatAnswer os r w.journal result := by
  rcases h.2 hid with ⟨now, x, hn, hr⟩ | ⟨now, n, hn, ⟨m, hm, he, hr⟩ | ⟨hr, hlen⟩⟩
  · exact .inr (.inr ⟨now, x, hn, Except.ok.inj hr⟩)
  · obtain rfl := Except.ok.inj hr
    obtain ⟨-, hev, -, -⟩ := normalizeAppendEvent_ok hn
    refine .inl ⟨m.data.event, ?_, by rw [he, hev]; rfl, verdictOn_cases hn he⟩
    exact mem_reverse.mpr (mem_map_of_mem (f := fun n => n.data.event) hm)
  · refine .inr (.inl ⟨?_, Except.ok.inj hr⟩)
    rw [JournalWorld.journal, JournalRepo.journal, length_reverse, length_map]
    exact hlen

/-- What a run leaves of the journal, and what the calls that have ended report about it. -/
structure ExactlyOnce (os : Platform) (wave : String) (requests : ι → AppendRequest)
    (s : JournalConfig ι) : Prop where
  /-- The commits from the tip on are one linear chain that ends in a root. -/
  linear : isLinear (listed s.world.nodes).reverse = true ∧
    (∀ n, s.world.nodes.getLast? = some n → n.parents = []) ∧
    s.world.repo.tip = s.world.nodes.head?.map Node.id
  unique : (s.world.journal.map JournalEvent.eventId).Nodup
  causal : ∀ earlier e later p, s.world.journal = earlier ++ e :: later → e.causalParent = some p →
    p ∈ earlier.map JournalEvent.eventId
  /-- A success has its event in the journal once, and no other call reports that event. -/
  success : ∀ i id commit, s.procs i = some (.ret (.appended id commit)) →
    (∃ ts, s.world.journal.filter (fun e => e.eventId = id) =
      [(requestFor wave requests i).eventAt os ts]) ∧
    ∀ j commit', j ≠ i → s.procs j ≠ some (.ret (.appended id commit'))

omit [DecidableEq ι] in
theorem WellFormed.journal_nodup (h : WellFormed wave w) :
    (w.journal.map JournalEvent.eventId).Nodup := by
  have hids : w.journal.map JournalEvent.eventId = (eventIds w.nodes).reverse := by
    simp [JournalWorld.journal, JournalRepo.journal, JournalWorld.nodes, eventIds]
  rw [hids, nodup_reverse]
  exact h.coherent.nodup

omit [DecidableEq ι] in
theorem WellFormed.root (h : WellFormed wave w) {n : EventNode} (hn : w.nodes.getLast? = some n) :
    n.parents = [] := by
  have hl := h.linked
  revert hl hn
  generalize w.nodes = c
  induction c with
  | nil => simp
  | cons m rest ih =>
    intro hn hl
    cases rest with
    | nil =>
      obtain rfl : m = n := by simpa using hn
      exact hl.2.1
    | cons k rest => exact ih (by simpa using hn) hl.2.2

omit [DecidableEq ι] in
theorem WellFormed.causal (h : WellFormed wave w) {earlier later : List JournalEvent} {p : String}
    (hj : w.journal = earlier ++ e :: later) (hp : e.causalParent = some p) :
    p ∈ earlier.map JournalEvent.eventId := by
  have hr : w.nodes.map (fun n => n.data.event) = later.reverse ++ e :: earlier.reverse := by
    rw [← reverse_reverse (w.nodes.map _)]
    show w.journal.reverse = _
    rw [hj]
    simp
  obtain ⟨newer, rest, hc, hnewer, hrest⟩ := map_eq_append_iff.mp hr
  obtain ⟨n, older, rfl, rfl, holder⟩ := map_eq_cons_iff.mp hrest
  have hmem := h.coherent.causalParent hc hp
  obtain ⟨m, hm, he⟩ := mem_eventIds.mp hmem
  rw [mem_map]
  refine ⟨m.data.event, ?_, he⟩
  rw [← mem_reverse, ← holder]
  exact mem_map_of_mem hm

omit [DecidableEq ι] in
theorem WellFormed.filter_eventId (h : WellFormed wave w) {n : EventNode} (hn : n ∈ w.nodes) :
    w.journal.filter (fun e => e.eventId = n.data.event.eventId) = [n.data.event] := by
  refine filter_eq_singleton h.journal_nodup ?_
  exact mem_reverse.mpr (mem_map_of_mem hn)

omit [DecidableEq ι] in
theorem WellFormed.publisher (h : WellFormed wave w) {i j : ι} {commit : String}
    (hi : (i, commit) ∈ w.published) (hj : (j, commit) ∈ w.published) : i = j := by
  have hnd : (w.published.map Prod.snd).Nodup := by
    rw [h.published_eq]
    exact (h.linked.sublist w.repo.store.ordered).map Node.id |>.nodup w.repo.store.ordered.nodup
  exact congrArg Prod.fst (inj_on_of_nodup_map hnd hi hj rfl)

end Runs

section Alone

variable {ι : Type} {os : Platform} {wave : String} {i : ι}

variable {w : JournalWorld ι}

theorem read_runs {α : Type} {op : JournalOp} {next : op.Answer → JournalM α} {a : op.Answer}
    {c : JournalChoice} {w' : JournalWorld ι} {r : Except JournalError α}
    (ha : JournalOp.act op c w.repo = some (a, w.repo)) (hp : op.published a = none)
    (hr : Runs (JournalOp.actFor i) (next a) w r w') :
    Runs (JournalOp.actFor i) (.call op next) w r w' := by
  refine Runs.call c ?_ hr
  simp [JournalOp.actFor, ha, hp]

/-- Undisturbed, the reader returns the whole journal if it is short enough. -/
theorem readChain_runs (hw : WellFormed wave w) (hwave : isWaveId wave = true) (maxEvents : Nat) :
    Runs (JournalOp.actFor i) (readChain wave maxEvents) w
      (if w.nodes.length ≤ maxEvents then .ok (entries w.nodes)
        else .error ⟨"max_events", "truncated"⟩) w := by
  unfold readChain
  simp only [validateWaveId, hwave, if_true, Prog.ofExcept, Prog.ret_bind, Prog.perform_bind,
    Prog.pure_eq]
  refine read_runs (c := .plain) rfl rfl ?_
  cases ht : w.repo.tip with
  | none =>
    have hn : w.nodes = [] := by
      have := hw.tip_eq
      rw [ht] at this
      simpa using this.symm
    rw [hn]
    exact Runs.ret _ _
  | some tip =>
    have hlist : JournalOp.act (.revList (maxEvents + 1)) .plain w.repo =
        some (listed (w.nodes.take (maxEvents + 1)), w.repo) := by
      rw [JournalOp.act, hw.tip_eq, hw.linked.history_eq]
      rfl
    refine read_runs hlist rfl ?_
    have hlin := (hw.linked.chained.take (maxEvents + 1)).isLinear_reverse
    simp only [hlin, Bool.not_true, if_false, Bool.false_eq_true]
    by_cases hlen : w.nodes.length ≤ maxEvents
    · rw [take_of_length_le (by omega), if_neg (by simpa [listed] using hlen), if_pos hlen]
      have hne : (listed w.nodes).reverse ≠ [] := by
        intro hnil
        have hn : w.nodes = [] := by simpa [listed] using hnil
        have := hw.tip_eq
        rw [ht, hn] at this
        simp at this
      rw [if_neg hne]
      have hcat : JournalOp.act (.catBatch ((listed w.nodes).reverse.map Prod.fst)) .plain w.repo =
          some ((w.nodes.map fun n => n.data.event).reverse, w.repo) := by
        rw [JournalOp.act, contents_listed fun n hn => hw.linked.mem hn]
      refine read_runs hcat rfl ?_
      simp only [hw.coherent.no_mismatch, zip_listed, if_false, Bool.false_eq_true]
      exact Runs.ret _ _
    · rw [if_neg hlen, if_pos (by simp [listed]; omega)]
      exact Runs.raise _ _

/-- Undisturbed, publishing on the current tip moves the ref. -/
theorem publishEventAttempt_runs (hw : WellFormed wave w) (hformat : w.repo.objectFormat = "sha1")
    {commit : String} (hnew : commit ∉ ids w.repo.store.nodes) (stored : StoredEvent) :
    ∃ w', Runs (JournalOp.actFor i) (publishEventAttempt w.repo.tip stored) w (.ok (some commit)) w' ∧
      w'.repo.tip = some commit ∧ w'.repo.objectFormat = w.repo.objectFormat ∧
      w'.repo.store.nodes =
        ⟨commit, (w.nodes.head?.map Node.id).toList, stored⟩ :: w.repo.store.nodes := by
  have hparents : ∀ p ∈ w.repo.tip.toList, p ∈ ids w.repo.store.nodes := by
    intro p hp
    rw [hw.tip_eq] at hp
    cases hh : w.nodes.head? with
    | none => simp [hh] at hp
    | some m =>
      obtain rfl : p = m.id := by simpa [hh] using hp
      exact mem_map_of_mem (hw.linked.mem (mem_of_mem_head? hh))
  obtain ⟨store, hstore⟩ : ∃ store : Dag String StoredEvent,
      store.nodes = ⟨commit, w.repo.tip.toList, stored⟩ :: w.repo.store.nodes :=
    ⟨⟨⟨commit, w.repo.tip.toList, stored⟩ :: w.repo.store.nodes,
      And.intro hnew ⟨hparents, w.repo.store.ordered⟩⟩, rfl⟩
  have hadd : w.repo.addCommit commit w.repo.tip stored = some { w.repo with store := store } := by
    have hnotin : (⟨commit, w.repo.tip.toList, stored⟩ : EventNode) ∉ w.repo.store.nodes :=
      fun h => hnew (mem_map_of_mem (f := Node.id) h)
    unfold JournalRepo.addCommit Dag.add?
    simp only [hnotin, if_false]
    rw [dif_pos ⟨hnew, hparents⟩]
    cases store
    simp only at hstore
    subst hstore
    rfl
  have hstored : JournalOp.actFor i (.commitTree w.repo.tip stored) (.oid commit) w =
      some (commit, ⟨{ w.repo with store := store }, w.published⟩) := by
    simp [JournalOp.actFor, JournalOp.act, hadd, JournalOp.published]
  have hmoved : JournalOp.actFor i (.updateRef commit w.repo.tip) .plain
      ⟨{ w.repo with store := store }, w.published⟩ =
        some (true, ⟨{ w.repo with store := store, tip := some commit },
          (i, commit) :: w.published⟩) := by
    have hcon : store.Contains commit := by simp [Dag.Contains, ids, hstore]
    simp [JournalOp.actFor, JournalOp.act, hcon, JournalOp.published]
  have hpublish : ∃ w', Runs (JournalOp.actFor i) (publishEventAttempt.publish w.repo.tip stored) w
      (.ok (some commit)) w' ∧ w'.repo.tip = some commit ∧
      w'.repo.objectFormat = w.repo.objectFormat ∧
      w'.repo.store.nodes =
        ⟨commit, (w.nodes.head?.map Node.id).toList, stored⟩ :: w.repo.store.nodes := by
    refine ⟨⟨{ w.repo with store := store, tip := some commit }, (i, commit) :: w.published⟩,
      .call _ hstored (.call _ hmoved (.ret _ _)), rfl, rfl, ?_⟩
    rw [← hw.tip_eq]
    exact hstore
  unfold publishEventAttempt
  simp only [Prog.perform_bind]
  split_ifs with hnone
  · obtain ⟨w', hr, hrest⟩ := hpublish
    refine ⟨w', read_runs (c := .plain) rfl rfl ?_, hrest⟩
    rw [hformat]
    exact hr
  · exact hpublish

/-- Undisturbed, an append of a new event to a journal that can still be read puts it there. -/
theorem append_runs {r : AppendRequest} {now commit : String} {n : NormalizedEvent}
    (hw : WellFormed r.wave w) (hlen : w.nodes.length ≤ maxEventsDefault)
    (hn : normalizeAppendEvent os r now = .ok n) (hid : n.event.eventId ∉ eventIds w.nodes)
    (hparent : ∀ p, n.event.causalParent = some p → p ∈ eventIds w.nodes)
    (hformat : w.repo.objectFormat = "sha1") (hnew : commit ∉ ids w.repo.store.nodes) :
    ∃ w', Runs (JournalOp.actFor i) (append os r) w (.ok (.appended n.event.eventId commit)) w' ∧
      w'.repo.objectFormat = w.repo.objectFormat ∧ WellFormed r.wave w' ∧
      w'.nodes = ⟨commit, (w.nodes.head?.map Node.id).toList, ⟨n.event, n.date⟩⟩ :: w.nodes ∧
      w'.repo.store.nodes =
        ⟨commit, (w.nodes.head?.map Node.id).toList, ⟨n.event, n.date⟩⟩ :: w.repo.store.nodes := by
  obtain ⟨hvalid, hev, -, hpos⟩ := normalizeAppendEvent_ok hn
  have hwave : n.event.wave = r.wave := by rw [hev]; rfl
  obtain ⟨attempts, hk⟩ : ∃ k, n.maxRetries = k + 1 := ⟨n.maxRetries - 1, by omega⟩
  have hread : Runs (JournalOp.actFor i) (readChain r.wave maxEventsDefault) w
      (.ok (entries w.nodes)) w := by
    have h := readChain_runs (i := i) hw hvalid maxEventsDefault
    rwa [if_pos hlen] at h
  have hcheck : checkExistingEvent (entries w.nodes) n.event n.tsWasProvided = none := by
    rcases checkExistingEvent_cases (c := w.nodes) n with ⟨-, h⟩ | ⟨m, hm, he, -⟩
    · exact h
    · exact absurd (mem_eventIds.mpr ⟨m, hm, he⟩) hid
  obtain ⟨w', hpublish, htip, hformat', hstore⟩ :=
    publishEventAttempt_runs (i := i) hw hformat hnew ⟨n.event, n.date⟩
  have hattempts : Runs (JournalOp.actFor i) (appendAttempts n n.maxRetries) w
      (.ok (.appended n.event.eventId commit)) w' := by
    rw [hk, appendAttempts]
    refine read_runs (c := .plain) rfl rfl ?_
    simp only [hw.direct, hwave]
    refine hread.bind ?_
    have hids : (entries w.nodes).map (fun item => item.2.eventId) = (eventIds w.nodes).reverse := by
      simp [entries, eventIds]
    have hany : (n.event.causalParent.any fun p => decide (p ∉ (eventIds w.nodes).reverse)) =
        false := by
      cases hp : n.event.causalParent with
      | none => rfl
      | some p => simpa using hparent p hp
    have htip : (entries w.nodes).getLast?.map Prod.fst = w.repo.tip := by
      rw [hw.tip_eq]
      cases w.nodes <;> simp [entries]
    simp only [hcheck, hids, hany, Bool.false_eq_true, if_false, htip]
    exact hpublish.bind (Runs.ret _ _)
  have happend : Runs (JournalOp.actFor i) (append os r) w
      (.ok (.appended n.event.eventId commit)) w' := by
    unfold append
    simp only [Prog.perform_bind, Prog.call_attempt]
    refine read_runs (c := .time now) rfl rfl ?_
    simp only [hn, Prog.ofExcept, Prog.ret_bind]
    exact hattempts.attempt (Runs.ret _ _)
  have hsafe : Safe (JournalOp.actFor i) (appendConduct r.wave _ []) _ (append os r) w :=
    append_safe os r rfl w
  have hinv : WellFormed r.wave w ∧ [] <:+ w.nodes := ⟨hw, nil_suffix⟩
  have hw' : WellFormed r.wave w' := (Safe.of_runs happend hinv hsafe).1.1
  refine ⟨w', happend, hformat', hw', ?_, hstore⟩
  have hmem : (⟨commit, (w.nodes.head?.map Node.id).toList, ⟨n.event, n.date⟩⟩ : EventNode) ∈
      w'.repo.store.nodes := hstore ▸ mem_cons_self
  refine Linked.nodes_eq ⟨hmem, rfl, hw.linked.mono fun m hm => ?_⟩ htip
  rw [hstore]
  exact mem_cons_of_mem _ hm

/-- A journal that has become too long for the reader refuses every append. -/
theorem append_runs_truncated {r : AppendRequest} {now : String} {n : NormalizedEvent}
    (hw : WellFormed r.wave w) (hlen : maxEventsDefault < w.nodes.length)
    (hn : normalizeAppendEvent os r now = .ok n) :
    Runs (JournalOp.actFor i) (append os r) w (.ok (.refused "truncated")) w := by
  obtain ⟨hvalid, hev, -, hpos⟩ := normalizeAppendEvent_ok hn
  have hwave : n.event.wave = r.wave := by rw [hev]; rfl
  obtain ⟨attempts, hk⟩ : ∃ k, n.maxRetries = k + 1 := ⟨n.maxRetries - 1, by omega⟩
  have hread : Runs (JournalOp.actFor i) (readChain r.wave maxEventsDefault) w
      (.error ⟨"max_events", "truncated"⟩) w := by
    have h := readChain_runs (i := i) hw hvalid maxEventsDefault
    rwa [if_neg (by omega)] at h
  have hattempts : Runs (JournalOp.actFor i) (appendAttempts n n.maxRetries) w
      (.error ⟨"max_events", "truncated"⟩) w := by
    rw [hk, appendAttempts]
    refine read_runs (c := .plain) rfl rfl ?_
    simp only [hw.direct, hwave]
    exact hread.bind_raise
  unfold append
  simp only [Prog.perform_bind, Prog.call_attempt]
  refine read_runs (c := .time now) rfl rfl ?_
  simp only [hn, Prog.ofExcept, Prog.ret_bind]
  exact hattempts.attempt (Runs.ret _ _)

end Alone

/-! ## A journal that has become too long -/

/-- Seventeen binary digits. -/
def binaryName (k : Nat) : String :=
  String.ofList ((List.range 17).map fun j => if k.testBit j then '1' else '0')

theorem binaryName_inj {j k : Nat} (hj : j < 2 ^ 17) (hk : k < 2 ^ 17)
    (h : binaryName j = binaryName k) : j = k := by
  refine Nat.eq_of_testBit_eq fun i => ?_
  by_cases hi : i < 17
  · have hl := map_inj_left.mp (String.ofList_injective h) i (mem_range.mpr hi)
    cases hjb : j.testBit i <;> cases hkb : k.testBit i <;> simp_all
  · have hle : 2 ^ 17 ≤ 2 ^ i := Nat.pow_le_pow_right (by omega) (by omega)
    rw [Nat.testBit_lt_two_pow (by omega), Nat.testBit_lt_two_pow (by omega)]

/-- A platform whose hash is the text itself. -/
def transparentPlatform : Platform := ⟨id, fun _ => some "0"⟩

/-- One note from each of 100001 producers; every later call repeats the first one. -/
def noteRequests (k : Nat) : AppendRequest where
  wave := "w"
  kind := "note"
  fields := []
  producer := binaryName (if k ≤ maxEventsDefault then k else 0)
  producerSeq := 0

/-- A repository without a journal. -/
def emptyWorld : JournalWorld Nat := ⟨⟨⟨[], trivial⟩, none, false, "sha1"⟩, []⟩

/-- The event of a note. -/
def noteEvent (k : Nat) : JournalEvent := (noteRequests k).eventAt transparentPlatform ""

theorem normalize_note (k : Nat) : normalizeAppendEvent transparentPlatform (noteRequests k) "" =
    .ok ⟨noteEvent k, "0", false, 8⟩ := by
  have hvalid : isWaveId "w" = true := by decide +kernel
  have hseq : -(2 ^ 63 : Int) ≤ 0 ∧ (0 : Int) ≤ 2 ^ 63 - 1 := by decide
  simp only [normalizeAppendEvent, validateWaveId, noteRequests, hvalid, if_true, gitDate,
    transparentPlatform, validateProducerSeq, hseq]
  rfl

theorem noteEvent_eventId_inj {j k : Nat} (hj : j ≤ maxEventsDefault) (hk : k ≤ maxEventsDefault)
    (h : (noteEvent j).eventId = (noteEvent k).eventId) : j = k := by
  have hid : ∀ i, i ≤ maxEventsDefault →
      (noteEvent i).eventId.toList =
        'e' :: 'w' :: '\x1f' :: ((binaryName i).toList ++ ['\x1f', '0']) := by
    intro i hi
    have hlen : (binaryName i).toList.length = 17 := by simp [binaryName]
    have hidentity : ("w" ++ "\x1f" ++ binaryName i ++ "\x1f" ++ toString (0 : Int)).toList =
        'w' :: '\x1f' :: ((binaryName i).toList ++ ['\x1f', '0']) := by
      simp only [String.toList_append, append_assoc]
      rfl
    have hevent : (noteEvent i).eventId =
        deriveEventId transparentPlatform "w" (binaryName i) 0 := by
      simp [noteEvent, AppendRequest.eventAt, noteRequests, hi]
    rw [hevent]
    unfold deriveEventId transparentPlatform
    simp only [id_eq]
    rw [hidentity, take_of_length_le (by simp [hlen]), String.toList_append]
    change ['e'] ++ _ = _
    rw [String.toList_ofList, singleton_append]
  have hl := congrArg String.toList h
  rw [hid j hj, hid k hk] at hl
  simp only [List.cons.injEq, true_and, append_cancel_right_eq] at hl
  unfold maxEventsDefault at hj hk
  exact binaryName_inj (by omega) (by omega) (String.toList_injective hl)

theorem notes_appended (k : Nat) (hk : k ≤ maxEventsDefault + 1) :
    ∃ s : JournalConfig Nat,
      (journalSystem transparentPlatform "w" noteRequests).Steps (System.boot emptyWorld) s ∧
      WellFormed "w" s.world ∧ s.world.repo.objectFormat = "sha1" ∧
      s.world.nodes.map (fun n => n.data.event) = (List.range k).reverse.map noteEvent ∧
      ids s.world.repo.store.nodes = (List.range k).reverse.map binaryName ∧
      ∀ j, k ≤ j → s.procs j = none := by
  induction k with
  | zero =>
    refine ⟨System.boot emptyWorld, System.Steps.refl _, .of_isNew ⟨rfl, rfl, rfl⟩, rfl, rfl, rfl,
      fun _ _ => rfl⟩
  | succ k ih =>
    obtain ⟨s, hsteps, hw, hformat, hevents, hids, hprocs⟩ := ih (by omega)
    have hk' : k ≤ maxEventsDefault := by omega
    have hreq : requestFor "w" noteRequests k = noteRequests k := rfl
    have hid : (noteEvent k).eventId ∉ eventIds s.world.nodes := by
      intro hmem
      have hrange : eventIds s.world.nodes =
          ((List.range k).reverse.map noteEvent).map JournalEvent.eventId := by
        rw [← hevents, map_map]
        rfl
      rw [hrange] at hmem
      simp only [mem_map, mem_reverse, mem_range, exists_exists_and_eq_and] at hmem
      obtain ⟨j, hj, he⟩ := hmem
      have := noteEvent_eventId_inj (by omega) hk' he
      omega
    have hnew : binaryName k ∉ ids s.world.repo.store.nodes := by
      rw [hids]
      simp only [mem_map, mem_reverse, mem_range, not_exists, not_and]
      intro j hj he
      unfold maxEventsDefault at hk'
      have := binaryName_inj (by omega) (by omega) he
      omega
    have hlen : s.world.nodes.length ≤ maxEventsDefault := by
      have := congrArg List.length hevents
      simp only [length_map, length_reverse, length_range] at this
      omega
    obtain ⟨w', hrun, hformat', hw', hnodes, hstore⟩ :=
      append_runs (i := k) (w := s.world) hw hlen (normalize_note k) hid (fun _ h => by cases h) hformat hnew
    have hstart : (journalSystem transparentPlatform "w" noteRequests).next s (.start k ()) =
        some ⟨s.world, Function.update s.procs k
          (some (append transparentPlatform (noteRequests k)))⟩ := by
      simp only [System.next, hprocs k (Nat.le_refl _)]
      rfl
    have hrest := System.Steps.of_runs hrun
      (S := journalSystem transparentPlatform "w" noteRequests)
      (Function.update s.procs k (some (append transparentPlatform (noteRequests k)))) (by simp)
    refine ⟨_, (hsteps.trans (.single hstart)).trans hrest, hw', hformat'.trans hformat, ?_, ?_, ?_⟩
    · simp only [hnodes, map_cons, hevents, range_succ, reverse_append,
        reverse_singleton, singleton_append]
    · have hcons : ids w'.repo.store.nodes = binaryName k :: ids s.world.repo.store.nodes := by
        rw [hstore]
        rfl
      simp only [hcons, hids, range_succ, reverse_append, reverse_singleton,
        singleton_append, map_cons]
    · intro j hj
      have hne : j ≠ k := by omega
      simp [Function.update_of_ne hne, hprocs j (by omega)]

section Main

variable {ι : Type} [DecidableEq ι] {os : Platform} {wave : String} {requests : ι → AppendRequest}

/-- In every state that any interleaving of appends reaches, the journal is one linear chain with
unique ids and older causal parents, and every success is in it exactly once; nothing is ever
removed from it; and a call that starts when its event id is there never touches the journal and
answers `duplicate` or `event_id_conflict` by the payload, unless it is malformed or the journal
has grown beyond what a reader accepts. -/
theorem append_exactly_once {s : JournalConfig ι}
    (hs : (journalSystem os wave requests).Reachable JournalWorld.IsNew s) :
    ExactlyOnce os wave requests s ∧
    (∀ s', (journalSystem os wave requests).Steps s s' → s.world.journal <+: s'.world.journal) ∧
    ∀ i s₁ s₂, s.procs i = none →
      eventIdFor os wave requests i ∈ s.world.journal.map JournalEvent.eventId →
      (journalSystem os wave requests).next s (.start i ()) = some s₁ →
      (journalSystem os wave requests).Steps s₁ s₂ →
      (∀ c s₃, (journalSystem os wave requests).next s₂ (.tick i c) = some s₃ →
        s₃.world.journal = s₂.world.journal) ∧
      ∀ result, s₂.procs i = some (.ret result) →
        RepeatAnswer os (requestFor wave requests i) s₂.world.journal result := by
  have hholds := reachable_holds hs
  have hw := hholds.1.1
  have hreport : ∀ i id commit, s.procs i = some (.ret (.appended id commit)) →
      id = eventIdFor os wave requests i ∧
        ∃ ts, Recorded i ((requestFor wave requests i).eventAt os ts) commit s.world :=
    fun i id commit hp => (hholds.2 i _ hp _ (Later.refl _) hholds.1 trivial).1 id commit rfl
  refine ⟨⟨⟨hw.linked.chained.isLinear_reverse, fun n hn => hw.root hn, hw.tip_eq⟩, hw.journal_nodup,
    fun _ _ _ _ hj hp => hw.causal hj hp, fun i id commit hp => ?_⟩, fun s' h' => ?_, ?_⟩
  · obtain ⟨rfl, ts, ⟨n, hn, hid, he⟩, hpub⟩ := hreport i id commit hp
    refine ⟨⟨ts, ?_⟩, fun j commit' hne hj => ?_⟩
    · have hone := hw.filter_eventId hn
      rw [he] at hone
      exact hone
    · obtain ⟨hids, ts', ⟨m, hm, hid', he'⟩, hpub'⟩ := hreport j _ commit' hj
      have hmn : m = n := by
        refine hw.coherent.eq_of_eventId hm hn ?_
        rw [he, he']
        exact hids.symm
      rw [← hid', hmn, hid] at hpub'
      exact hne (hw.publisher hpub' hpub)
  · exact reverse_prefix.mpr ((Steps.journal_prefix hs h').map fun n => n.data.event)
  · intro i s₁ s₂ hnone hmem hstart hsteps
    have hbase : eventIdFor os wave requests i ∈ eventIds s.world.nodes := by
      simpa [JournalWorld.journal, JournalRepo.journal, JournalWorld.nodes, eventIds] using hmem
    have hsound : Sound (journalSystem os wave requests) _ _ _ :=
      append_sound s.world.nodes (· = i)
    have hs₂ := hsound.steps (hsound.step ⟨⟨hw, suffix_refl _⟩, fun j p hp => ?_⟩ hstart) hsteps
    · refine ⟨fun c s₃ hn => ?_, fun result hp => ?_⟩
      · obtain ⟨_, _, _, -, -, hnodes | ⟨_, -, -, hnew⟩⟩ := hsound.guar_of_tick hs₂ hn
        · unfold JournalWorld.journal JournalRepo.journal
          exact congrArg (fun c => (c.map fun n : EventNode => n.data.event).reverse) hnodes
        · exact absurd ((hs₂.1.2.map fun n => n.data.event.eventId).subset hbase) hnew
      · have hpost := hs₂.2 i _ hp _ (Later.refl _) hs₂.1 rfl
        exact hpost.repeatAnswer hbase
    · refine (safe_rebase (hholds.2 j p hp)).weaken fun r w _ _ hji => ?_
      rw [hji, hnone] at hp
      simp at hp

end Main

theorem append_exactly_once_two_notes : ∃ s : JournalConfig Nat,
    s.world.journal = [noteEvent 0, noteEvent 1] ∧
    ExactlyOnce transparentPlatform "w" noteRequests s := by
  obtain ⟨s, hsteps, -, -, hevents, -, -⟩ := notes_appended 2 (by decide)
  refine ⟨s, ?_, (append_exactly_once ⟨emptyWorld, ⟨rfl, rfl, rfl⟩, hsteps⟩).1⟩
  exact congrArg List.reverse hevents

/-- After 100001 appends, a call that repeats the first one is refused as `truncated`. -/
theorem repeat_refused_truncated : ∃ s s₁ s₂ : JournalConfig Nat,
    (journalSystem transparentPlatform "w" noteRequests).Reachable JournalWorld.IsNew s ∧
    s.procs (maxEventsDefault + 1) = none ∧
    (∃ e ∈ s.world.journal,
      e.eventId = eventIdFor transparentPlatform "w" noteRequests (maxEventsDefault + 1) ∧
        (requestFor "w" noteRequests (maxEventsDefault + 1)).SamePayload e) ∧
    (journalSystem transparentPlatform "w" noteRequests).next s
      (.start (maxEventsDefault + 1) ()) = some s₁ ∧
    (journalSystem transparentPlatform "w" noteRequests).Steps s₁ s₂ ∧
    s₂.procs (maxEventsDefault + 1) = some (.ret (.refused "truncated")) := by
  obtain ⟨s, hsteps, hw, -, hevents, -, hprocs⟩ := notes_appended (maxEventsDefault + 1) le_rfl
  have hnone := hprocs (maxEventsDefault + 1) le_rfl
  have hlen : maxEventsDefault < s.world.nodes.length := by
    have := congrArg List.length hevents
    simp only [length_map, length_reverse, length_range] at this
    omega
  have hsame : noteRequests (maxEventsDefault + 1) = noteRequests 0 := by
    simp [noteRequests]
  have hrun := append_runs_truncated (i := maxEventsDefault + 1) (w := s.world) hw hlen
    (normalize_note (maxEventsDefault + 1))
  have hstart : (journalSystem transparentPlatform "w" noteRequests).next s
      (.start (maxEventsDefault + 1) ()) =
        some ⟨s.world, Function.update s.procs (maxEventsDefault + 1)
          (some (append transparentPlatform (noteRequests (maxEventsDefault + 1))))⟩ := by
    simp only [System.next, hnone]
    rfl
  have hrest := System.Steps.of_runs hrun
    (S := journalSystem transparentPlatform "w" noteRequests)
    (Function.update s.procs (maxEventsDefault + 1)
      (some (append transparentPlatform (noteRequests (maxEventsDefault + 1))))) (by simp)
  refine ⟨s, _, _, ⟨emptyWorld, ⟨rfl, rfl, rfl⟩, hsteps⟩, hnone, ⟨noteEvent 0, ?_, ?_, ?_⟩, hstart,
    hrest, by simp [Prog.ofExcept]⟩
  · have hmem : noteEvent 0 ∈ s.world.nodes.map fun n => n.data.event := by
      rw [hevents]
      exact mem_map_of_mem (by simp [maxEventsDefault])
    exact mem_reverse.mpr hmem
  · unfold eventIdFor
    rw [hsame]
    rfl
  · unfold requestFor
    rw [hsame]
    exact ⟨rfl, rfl, rfl, rfl, rfl, fun _ h => by simp [noteRequests] at h, rfl⟩

end Workbay.Wave

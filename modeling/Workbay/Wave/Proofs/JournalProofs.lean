import Workbay.Effects.Proofs.SafeProofs
import Workbay.Git.Proofs.RepoProofs
import Workbay.Wave.Journal
import Workbay.Data.Check

/-!
# The journal under concurrent appends

The commits of the journal form a chain in an append-only store, so the tip alone determines the
whole chain. A compare-and-swap that succeeds therefore certifies that everything the call has read
is still the whole journal, and the checks that it has made on that chain still hold.
-/

namespace Workbay.Wave

open Effects Git List

abbrev EventNode := Node String StoredEvent

/-- The ids of the events that a list of commits carries. -/
def eventIds (c : List EventNode) : List String := c.map fun n => n.data.event.eventId

/-- Newest first: commits of the store, each with the next one as its only parent. -/
def Linked (ns : List EventNode) : List EventNode → Prop
  | [] => True
  | n :: rest => n ∈ ns ∧ n.parents = (rest.head?.map Node.id).toList ∧ Linked ns rest

namespace Linked

theorem mono {ns ns' : List EventNode} (hs : ∀ n ∈ ns, n ∈ ns') {c : List EventNode}
    (h : Linked ns c) : Linked ns' c := by
  induction c with
  | nil => trivial
  | cons n rest ih => exact ⟨hs n h.1, h.2.1, ih h.2.2⟩

theorem mem {ns c : List EventNode} (h : Linked ns c) {n : EventNode} (hn : n ∈ c) : n ∈ ns := by
  induction c with
  | nil => simp at hn
  | cons m rest ih =>
    rcases mem_cons.mp hn with rfl | hn
    · exact h.1
    · exact ih h.2.2 hn

theorem of_cons {n m : EventNode} {ns rest : List EventNode} (ho : Ordered (n :: ns))
    (h : Linked (n :: ns) (m :: rest)) (hm : m ∈ ns) : Linked ns (m :: rest) := by
  induction rest generalizing m with
  | nil => exact ⟨hm, h.2.1, trivial⟩
  | cons k rest ih =>
    refine ⟨hm, h.2.1, ih h.2.2 ?_⟩
    have hp : m.parents = [k.id] := h.2.1
    have hk : k.id ∈ ids ns := (ParentIn.mem_ids ho.2.2 ⟨m, hm, rfl, by simp [hp]⟩).1
    rcases mem_cons.mp h.2.2.1 with rfl | hk'
    · exact absurd hk ho.1
    · exact hk'

theorem sublist {ns c : List EventNode} (ho : Ordered ns) (h : Linked ns c) : c.Sublist ns := by
  induction ns generalizing c with
  | nil =>
    cases c with
    | nil => exact List.Sublist.refl _
    | cons m rest => exact absurd h.1 (by simp)
  | cons n ns ih =>
    cases c with
    | nil => exact nil_sublist _
    | cons m rest =>
      rcases mem_cons.mp h.1 with rfl | hm
      · refine List.Sublist.cons_cons m (ih ho.2.2 ?_)
        cases rest with
        | nil => trivial
        | cons k rest =>
          have hp : m.parents = [k.id] := h.2.1
          have hk : k.id ∈ ids ns := ho.2.1 _ (by simp [hp])
          rcases mem_cons.mp h.2.2.1 with rfl | hk'
          · exact absurd hk ho.1
          · exact of_cons ho h.2.2 hk'
      · exact (ih ho.2.2 (of_cons ho h hm)).cons n

theorem history_eq {store : Dag String StoredEvent} {c : List EventNode}
    (h : Linked store.nodes c) (k : Nat) : history store k (c.head?.map Node.id) = c.take k := by
  induction c generalizing k with
  | nil => cases k <;> simp [history]
  | cons n rest ih =>
    cases k with
    | zero => simp [history]
    | succ k =>
      have hp : n.parents.head? = rest.head?.map Node.id := by
        rw [h.2.1]
        cases rest <;> simp
      simp only [head?_cons, Option.map_some, history, Dag.find?_of_mem h.1, hp, ih h.2.2 k,
        take_succ_cons]

theorem nodes_eq {w : JournalRepo} {c : List EventNode} (h : Linked w.store.nodes c)
    (ht : w.tip = c.head?.map Node.id) : w.nodes = c := by
  have hlen : c.length ≤ w.store.nodes.length := (h.sublist w.store.ordered).length_le
  unfold JournalRepo.nodes
  rw [ht, h.history_eq, take_of_length_le hlen]

end Linked

theorem isLinear_go_concat (previous : String) (l : List (String × List String))
    (x : String × List String) : isLinear.go previous (l ++ [x]) = true ↔
      isLinear.go previous l = true ∧ x.2 = [(l.getLast?.map Prod.fst).getD previous] := by
  induction l generalizing previous with
  | nil => simp [isLinear.go]
  | cons y l ih =>
    simp only [cons_append, isLinear.go, Bool.and_eq_true, decide_eq_true_eq, ih, and_assoc]
    cases l <;> simp [getLast?_cons]

/-- Newest first: every commit has the next one as its only parent; the last one may have a parent
that is not listed. -/
def Chained : List EventNode → Prop
  | [] => True
  | n :: rest => n.parents.length ≤ 1 ∧ (∀ m, rest.head? = some m → n.parents = [m.id]) ∧
      Chained rest

theorem Linked.chained {ns c : List EventNode} (h : Linked ns c) : Chained c := by
  induction c with
  | nil => trivial
  | cons n rest ih =>
    refine ⟨?_, fun m hm => ?_, ih h.2.2⟩
    · rw [h.2.1]
      cases rest <;> simp
    · rw [h.2.1, hm]
      rfl

theorem Chained.take {c : List EventNode} (h : Chained c) (k : Nat) : Chained (c.take k) := by
  induction c generalizing k with
  | nil => rw [take_nil]; trivial
  | cons n rest ih =>
    cases k with
    | zero => trivial
    | succ k =>
      refine ⟨h.1, fun m hm => h.2.1 m ?_, ih h.2.2 k⟩
      rw [head?_take] at hm
      split_ifs at hm
      exact hm

/-- The ids with their parents, as the reader gets them. -/
def listed (c : List EventNode) : List (String × List String) := c.map fun n => (n.id, n.parents)

theorem Chained.isLinear_reverse {c : List EventNode} (h : Chained c) :
    isLinear (listed c).reverse = true := by
  induction c with
  | nil => rfl
  | cons n rest ih =>
    have hrest := ih h.2.2
    simp only [listed, map_cons, reverse_cons] at hrest ⊢
    cases hc : (rest.map fun n => (n.id, n.parents)).reverse with
    | nil => simpa [isLinear, isLinear.go] using h.1
    | cons y l =>
      rw [hc] at hrest
      obtain ⟨m, hm⟩ : ∃ m, rest.head? = some m := by
        cases rest with
        | nil => simp at hc
        | cons m rest => exact ⟨m, rfl⟩
      have hlast : (l.getLast?.map Prod.fst).getD y.1 = m.id := by
        have hl := congrArg List.getLast? hc
        simp only [getLast?_reverse, head?_map, hm, Option.map_some, getLast?_cons,
          Option.some.injEq] at hl
        have hfst : m.id = (l.getLast?.getD y).1 := congrArg Prod.fst hl
        cases hg : l.getLast? <;> rw [hg] at hfst <;> exact hfst.symm
      simp only [cons_append, isLinear, isLinear_go_concat, hlast, h.2.1 m hm,
        Bool.and_eq_true, and_true]
      simpa [isLinear] using hrest

/-- Newest first: ids are fresh, causal parents are older, and every event is of this wave. -/
def Coherent (wave : String) : List EventNode → Prop
  | [] => True
  | n :: rest => n.data.event.eventId ∉ eventIds rest ∧
      (∀ p, n.data.event.causalParent = some p → p ∈ eventIds rest) ∧
      n.data.event.wave = wave ∧ Coherent wave rest

namespace Coherent

variable {wave : String} {c : List EventNode}

theorem nodup (h : Coherent wave c) : (eventIds c).Nodup := by
  induction c with
  | nil => exact nodup_nil
  | cons n rest ih => exact nodup_cons.mpr ⟨h.1, ih h.2.2.2⟩

theorem wave_eq (h : Coherent wave c) {n : EventNode} (hn : n ∈ c) : n.data.event.wave = wave := by
  induction c with
  | nil => simp at hn
  | cons m rest ih =>
    rcases mem_cons.mp hn with rfl | hn
    · exact h.2.2.1
    · exact ih h.2.2.2 hn

theorem causalParent (h : Coherent wave c) {newer older : List EventNode} {n : EventNode}
    (hc : c = newer ++ n :: older) {p : String} (hp : n.data.event.causalParent = some p) :
    p ∈ eventIds older := by
  induction newer generalizing c with
  | nil =>
    subst hc
    exact h.2.1 p hp
  | cons m newer ih =>
    subst hc
    exact ih h.2.2.2 rfl

theorem eq_of_eventId (h : Coherent wave c) {m n : EventNode} (hm : m ∈ c) (hn : n ∈ c)
    (he : m.data.event.eventId = n.data.event.eventId) : m = n :=
  inj_on_of_nodup_map h.nodup hm hn he

end Coherent

/-- What holds of the repository, with its note, between any two commands. -/
structure WellFormed {ι : Type} (wave : String) (w : JournalWorld ι) : Prop where
  direct : w.repo.symbolic = false
  linked : Linked w.repo.store.nodes w.nodes
  tip_eq : w.repo.tip = w.nodes.head?.map Node.id
  coherent : Coherent wave w.nodes
  published_eq : w.published.map Prod.snd = ids w.nodes

section

variable {ι : Type} {wave : String}

theorem WellFormed.of_isNew {w : JournalWorld ι} (h : w.IsNew) : WellFormed wave w := by
  have hn : w.nodes = [] := Linked.nodes_eq (c := []) trivial h.1
  exact ⟨h.2.1, by rw [hn]; trivial, by rw [hn]; exact h.1, by rw [hn]; trivial,
    by rw [hn, h.2.2]; rfl⟩

/-- The effect of a command of the call `i`, by its answer. -/
def JournalOp.Did (i : ι) : (op : JournalOp) → op.Answer → JournalWorld ι → JournalWorld ι → Prop
  | .utcNow, _, w, w' => w' = w
  | .isSymbolicRef, symbolic, w, w' => symbolic = w.repo.symbolic ∧ w' = w
  | .refExists, isThere, w, w' => isThere = w.repo.tip.isSome ∧ w' = w
  | .revList n, output, w, w' => output = listed (history w.repo.store n w.repo.tip) ∧ w' = w
  | .catBatch commitIds, contents, w, w' =>
    contents = (commitIds.filterMap w.repo.store.find?).map (fun c => c.data.event) ∧ w' = w
  | .objectFormat, _, w, w' => w' = w
  | .commitTree parent stored, commit, w, w' =>
    ∃ store, w' = ⟨{ w.repo with store := store }, w.published⟩ ∧ w.repo.store.Grows store ∧
      ⟨commit, parent.toList, stored⟩ ∈ store.nodes
  | .updateRef newTip oldTip, published, w, w' =>
    (published = true ∧ w.repo.tip = oldTip ∧ w.repo.store.Contains newTip ∧
      w' = ⟨{ w.repo with tip := some newTip }, (i, newTip) :: w.published⟩) ∨
    (published = false ∧ w' = w)

theorem JournalOp.act_published {op : JournalOp} {c : JournalChoice} {a : op.Answer}
    {i : ι} {w w' : JournalWorld ι} (h : JournalOp.actFor i op c w = some (a, w')) :
    ∃ repo, JournalOp.act op c w.repo = some (a, repo) ∧
      w' = ⟨repo, ((op.published a).map fun commit => (i, commit)).toList ++ w.published⟩ := by
  unfold JournalOp.actFor at h
  cases ha : JournalOp.act op c w.repo with
  | none => rw [ha] at h; simp at h
  | some aw =>
    rw [ha] at h
    simp only [Option.some.injEq, Prod.mk.injEq] at h
    obtain ⟨rfl, rfl⟩ := h
    exact ⟨aw.2, rfl, rfl⟩

theorem JournalRepo.addCommit_spec {r r' : JournalRepo} {oid : String} {parent : Option String}
    {stored : StoredEvent} (h : r.addCommit oid parent stored = some r') :
    ∃ store, r' = { r with store := store } ∧ r.store.Grows store ∧
      ⟨oid, parent.toList, stored⟩ ∈ store.nodes := by
  unfold JournalRepo.addCommit at h
  simp only at h
  split_ifs at h with hm
  · exact ⟨r.store, (Option.some.inj h).symm, Dag.Grows.refl _, hm⟩
  · obtain ⟨store, hs, rfl⟩ := Option.map_eq_some_iff.mp h
    refine ⟨store, rfl, Dag.Grows.of_add? hs, ?_⟩
    rw [(Dag.add?_eq_some hs).1]
    exact mem_cons_self

theorem JournalOp.actFor_did {i : ι} {op : JournalOp} {c : JournalChoice} {a : op.Answer}
    {w w' : JournalWorld ι} (h : JournalOp.actFor i op c w = some (a, w')) : op.Did i a w w' := by
  obtain ⟨repo, ha, rfl⟩ := JournalOp.act_published h
  cases op with
  | commitTree parent stored =>
    cases c <;> simp only [JournalOp.act, reduceCtorEq] at ha
    rename_i oid
    cases hadd : w.repo.addCommit oid parent stored with
    | none => rw [hadd] at ha; simp at ha
    | some r =>
      rw [hadd] at ha
      simp only [Option.some.injEq, Prod.mk.injEq] at ha
      obtain ⟨rfl, rfl⟩ := ha
      obtain ⟨store, hr, hg, hm⟩ := JournalRepo.addCommit_spec hadd
      exact ⟨store, by rw [hr]; rfl, hg, hm⟩
  | updateRef newTip oldTip =>
    cases c <;> simp only [JournalOp.act, reduceCtorEq] at ha
    · split_ifs at ha with hc <;> obtain ⟨rfl, rfl⟩ := Prod.mk.inj (Option.some.inj ha)
      · exact .inl ⟨rfl, hc.1, hc.2, rfl⟩
      · exact .inr ⟨rfl, rfl⟩
    · obtain ⟨rfl, rfl⟩ := Prod.mk.inj (Option.some.inj ha)
      exact .inr ⟨rfl, rfl⟩
  | _ =>
    cases c <;> simp only [JournalOp.act, reduceCtorEq] at ha
    obtain ⟨rfl, rfl⟩ := Prod.mk.inj (Option.some.inj ha)
    simp [JournalOp.Did, JournalOp.published, listed]

/-! ## What a call may count on and what it promises -/

/-- The store and the journal have only grown. -/
structure Later (w w' : JournalWorld ι) : Prop where
  grows : w.repo.store.Grows w'.repo.store
  nodes : w.nodes <:+ w'.nodes
  published : w.published <:+ w'.published

theorem Later.refl (w : JournalWorld ι) : Later w w :=
  ⟨Dag.Grows.refl _, suffix_refl _, suffix_refl _⟩

theorem Later.trans {w₁ w₂ w₃ : JournalWorld ι} (h : Later w₁ w₂) (h' : Later w₂ w₃) :
    Later w₁ w₃ :=
  ⟨h.grows.trans h'.grows, h.nodes.trans h'.nodes, h.published.trans h'.published⟩

/-- A call that appends the event `eventId`, when the journal ended in `base` at some time before:
it adds at most its own event, and only where the id is new. -/
def appendConduct (wave eventId : String) (base : List EventNode) :
    Conduct JournalOp JournalOp.Answer (JournalWorld ι) where
  inv w := WellFormed wave w ∧ base <:+ w.nodes
  rely := Later
  guar _ _ w w' := Later w w' ∧ (w'.nodes = w.nodes ∨
    ∃ n, w'.nodes = n :: w.nodes ∧ n.data.event.eventId = eventId ∧ eventId ∉ eventIds w.nodes)
  rely_refl := Later.refl
  rely_trans := Later.trans

section Append

variable {ι : Type} {wave eventId : String} {base : List EventNode} {i : ι}

variable {w : JournalWorld ι} {store : Dag String StoredEvent}

theorem read_safe {α : Type} {op : JournalOp} {post : Except JournalError α → JournalWorld ι → Prop}
    {next : op.Answer → JournalM α} (hop : ∀ a w w', op.Did i a w w' → w' = w)
    (h : ∀ w' a, Later w w' → WellFormed wave w' → base <:+ w'.nodes → op.Did i a w' w' →
      Safe (JournalOp.actFor i) (appendConduct wave eventId base) post (next a) w') :
    Safe (JournalOp.actFor i) (appendConduct wave eventId base) post (.call op next) w := by
  refine Safe.call fun w' hl hi c a w'' ha => ?_
  have hd := JournalOp.actFor_did ha
  obtain rfl := hop a w' w'' hd
  exact ⟨hi, ⟨Later.refl _, .inl rfl⟩, h _ a hl hi.1 hi.2 hd⟩

/-- The chain as the reader returns it: commits with their events, oldest first. -/
def entries (c : List EventNode) : List (String × JournalEvent) :=
  (c.map fun n => (n.id, n.data.event)).reverse

theorem find?_nodes {c : List EventNode} (h : ∀ n ∈ c, n ∈ store.nodes) :
    (c.map Node.id).filterMap store.find? = c := by
  induction c with
  | nil => rfl
  | cons n rest ih =>
    rw [map_cons, filterMap_cons, Dag.find?_of_mem (h n mem_cons_self),
      ih fun m hm => h m (mem_cons_of_mem _ hm)]

theorem listed_ids (c : List EventNode) :
    (listed c).reverse.map Prod.fst = (c.map Node.id).reverse := by
  simp [listed, Function.comp_def]

theorem contents_listed {c : List EventNode} (h : ∀ n ∈ c, n ∈ store.nodes) :
    (((listed c).reverse.map Prod.fst).filterMap store.find?).map (fun n => n.data.event) =
      (c.map fun n => n.data.event).reverse := by
  rw [listed_ids, filterMap_reverse, find?_nodes h, map_reverse]

theorem zip_listed (c : List EventNode) :
    ((listed c).reverse.map Prod.fst).zip (c.map fun n => n.data.event).reverse = entries c := by
  rw [listed_ids, ← map_reverse, ← map_reverse, zip_map', entries, map_reverse]

theorem Coherent.no_mismatch {c : List EventNode} (h : Coherent wave c) :
    ((c.map fun n => n.data.event).reverse.any fun event => decide (event.wave ≠ wave)) = false := by
  rw [any_reverse, any_map, any_eq_false]
  intro n hn
  simp [h.wave_eq hn]

/-- Reading gives the whole journal as it is at some moment, or says that it is too long. -/
def Read (base : List EventNode) (maxEvents : Nat) :
    Except JournalError (List (String × JournalEvent)) → JournalWorld ι → Prop
  | .ok chain, w => ∃ c, chain = entries c ∧ base <:+ c ∧ c <:+ w.nodes ∧ c.length ≤ maxEvents
  | .error x, w => x = ⟨"max_events", "truncated"⟩ ∧ maxEvents < w.nodes.length

theorem readChain_safe (hwave : isWaveId wave = true) (maxEvents : Nat) (w : JournalWorld ι) :
    Safe (JournalOp.actFor i) (appendConduct wave eventId base) (Read base maxEvents)
      (readChain wave maxEvents) w := by
  unfold readChain
  simp only [validateWaveId, hwave, if_true, Prog.ofExcept, Prog.ret_bind, Prog.perform_bind,
    Prog.pure_eq]
  refine read_safe (fun _ _ _ hd => hd.2) fun w₁ isThere _ hw₁ hb₁ hd₁ => ?_
  obtain ⟨rfl, -⟩ := hd₁
  cases ht : w₁.repo.tip with
  | none =>
    have hn : w₁.nodes = [] := by
      have := hw₁.tip_eq
      rw [ht] at this
      simpa using this.symm
    rw [hn] at hb₁
    refine Safe.ret fun w' hl _ => ⟨[], rfl, hb₁, nil_suffix, Nat.zero_le _⟩
  | some tip =>
    refine read_safe (fun _ _ _ hd => hd.2) fun w₂ output _ hw₂ hb₂ hd₂ => ?_
    obtain ⟨rfl, -⟩ := hd₂
    rw [hw₂.tip_eq, hw₂.linked.history_eq]
    have hlin := (hw₂.linked.chained.take (maxEvents + 1)).isLinear_reverse
    simp only [hlin, Bool.not_true, if_false, Bool.false_eq_true]
    by_cases hlen : w₂.nodes.length ≤ maxEvents
    · rw [take_of_length_le (by omega)]
      rw [if_neg (by simpa [listed] using hlen)]
      by_cases hnil : (listed w₂.nodes).reverse = []
      · rw [if_pos hnil]
        have hn : w₂.nodes = [] := by simpa [listed] using hnil
        rw [hn] at hb₂
        exact Safe.ret fun w' hl _ => ⟨[], rfl, hb₂, nil_suffix, Nat.zero_le _⟩
      · rw [if_neg hnil]
        refine read_safe (fun _ _ _ hd => hd.2) fun w₃ contents hl₃ hw₃ _ hd₃ => ?_
        have hcontents := hd₃.1.trans (contents_listed fun n hn =>
          hw₃.linked.mem (hl₃.nodes.subset hn))
        simp only [hcontents, hw₂.coherent.no_mismatch, if_false, Bool.false_eq_true]
        exact Safe.ret fun w' hl _ => ⟨w₂.nodes, zip_listed _, hb₂, hl₃.nodes.trans hl.nodes, hlen⟩
    · have hlong : ¬ (listed (w₂.nodes.take (maxEvents + 1))).reverse.length ≤ maxEvents := by
        simp [listed]
        omega
      rw [if_pos (by omega)]
      refine Safe.raise fun w' hl _ => ⟨rfl, ?_⟩
      have := hl.nodes.length_le
      omega

/-- The event `event` is in the journal at `commit`, and it is the call `i` that has put it there. -/
def Recorded (i : ι) (event : JournalEvent) (commit : String) (w : JournalWorld ι) : Prop :=
  (∃ n ∈ w.nodes, n.id = commit ∧ n.data.event = event) ∧ (i, commit) ∈ w.published

theorem Recorded.later {event : JournalEvent} {commit : String} {w' : JournalWorld ι}
    (h : Recorded i event commit w) (hl : Later w w') : Recorded i event commit w' := by
  obtain ⟨⟨n, hn, hid, he⟩, hp⟩ := h
  exact ⟨⟨n, hl.nodes.subset hn, hid, he⟩, hl.published.subset hp⟩

/-- A compare-and-swap on the tip of a chain that the caller has read. -/
theorem publish_step {c : List EventNode} {newTip : String} {stored : StoredEvent}
    {w' : JournalWorld ι} (hw : WellFormed wave w) (hc : c <:+ w.nodes)
    (hm : ⟨newTip, (c.head?.map Node.id).toList, stored⟩ ∈ w.repo.store.nodes)
    (hid : stored.event.eventId ∉ eventIds c)
    (hparent : ∀ p, stored.event.causalParent = some p → p ∈ eventIds c)
    (hwave : stored.event.wave = wave) (htip : w.repo.tip = c.head?.map Node.id)
    (hw' : w' = ⟨{ w.repo with tip := some newTip }, (i, newTip) :: w.published⟩) :
    WellFormed wave w' ∧ c = w.nodes ∧
      w'.nodes = ⟨newTip, (c.head?.map Node.id).toList, stored⟩ :: w.nodes := by
  have hlinked : Linked w.repo.store.nodes c := by
    obtain ⟨t, ht⟩ := hc
    have h := hw.linked
    rw [← ht] at h
    clear ht htip hm
    induction t with
    | nil => exact h
    | cons m t ih => exact ih h.2.2
  have hnodes : w.nodes = c := Linked.nodes_eq hlinked htip
  have hlinked' : Linked w.repo.store.nodes
      (⟨newTip, (c.head?.map Node.id).toList, stored⟩ :: c) := ⟨hm, rfl, hlinked⟩
  have hnodes' : w'.nodes = ⟨newTip, (c.head?.map Node.id).toList, stored⟩ :: c := by
    subst hw'
    exact Linked.nodes_eq (w := { w.repo with tip := some newTip }) hlinked' rfl
  refine ⟨⟨?_, ?_, ?_, ?_, ?_⟩, hnodes.symm, by rw [hnodes', hnodes]⟩
  · subst hw'; exact hw.direct
  · rw [hnodes']; subst hw'; exact hlinked'
  · rw [hnodes']; subst hw'; rfl
  · rw [hnodes']
    exact ⟨hid, hparent, hwave, hnodes ▸ hw.coherent⟩
  · rw [hnodes']
    have hp := hw.published_eq
    rw [hnodes] at hp
    subst hw'
    simp only [map_cons, hp, ids]

/-- Storing a commit does not touch the journal. -/
theorem store_step (hw : WellFormed wave w) (hg : w.repo.store.Grows store) :
    WellFormed wave (⟨{ w.repo with store := store }, w.published⟩ : JournalWorld ι) ∧
      JournalWorld.nodes (⟨{ w.repo with store := store }, w.published⟩ : JournalWorld ι) =
        w.nodes := by
  have hlinked : Linked store.nodes w.nodes := hw.linked.mono hg.subset
  have hnodes : JournalWorld.nodes
      (⟨{ w.repo with store := store }, w.published⟩ : JournalWorld ι) = w.nodes :=
    Linked.nodes_eq (w := { w.repo with store := store }) hlinked hw.tip_eq
  refine ⟨⟨hw.direct, ?_, ?_, ?_, ?_⟩, hnodes⟩
  · rw [hnodes]; exact hlinked
  · rw [hnodes]; exact hw.tip_eq
  · rw [hnodes]; exact hw.coherent
  · rw [hnodes]; exact hw.published_eq

/-- Publishing an event that is new to a chain either records it or leaves the journal alone. -/
theorem publishEventAttempt_safe {c : List EventNode} {stored : StoredEvent} (hc : c <:+ w.nodes)
    (hev : stored.event.eventId = eventId) (hid : eventId ∉ eventIds c)
    (hparent : ∀ p, stored.event.causalParent = some p → p ∈ eventIds c)
    (hwave : stored.event.wave = wave) : Safe (JournalOp.actFor i) (appendConduct wave eventId base)
      (fun r w => ∀ newTip, r = .ok (some newTip) → Recorded i stored.event newTip w)
      (publishEventAttempt (c.head?.map Node.id) stored) w := by
  have hpublish : ∀ w : JournalWorld ι, c <:+ w.nodes →
      Safe (JournalOp.actFor i) (appendConduct wave eventId base)
        (fun r w => ∀ newTip, r = .ok (some newTip) → Recorded i stored.event newTip w)
        (publishEventAttempt.publish (c.head?.map Node.id) stored) w := by
    intro w hc
    unfold publishEventAttempt.publish
    simp only [Prog.perform_bind, Prog.pure_eq]
    refine Safe.call fun w₁ hl₁ hi₁ _ newTip w₂ ha₁ => ?_
    obtain ⟨store, rfl, hg, hm⟩ := JournalOp.actFor_did ha₁
    obtain ⟨hw₂, hn₂⟩ := store_step hi₁.1 hg
    refine ⟨⟨hw₂, by rw [hn₂]; exact hi₁.2⟩, ⟨⟨hg, hn₂ ▸ suffix_refl _, suffix_refl _⟩, .inl hn₂⟩, ?_⟩
    refine Safe.call fun w₃ hl₃ hi₃ _ published w₄ ha₃ => ?_
    rcases JournalOp.actFor_did ha₃ with ⟨rfl, htip, hcon, hw₄⟩ | ⟨rfl, rfl⟩
    · have hc₃ : c <:+ w₃.nodes := (hc.trans hl₁.nodes).trans (hn₂ ▸ hl₃.nodes)
      obtain ⟨hwf, hcn, hn₄⟩ := publish_step hi₃.1 hc₃ (hl₃.grows.subset hm) (hev ▸ hid) hparent
        hwave htip hw₄
      have hl : Later w₃ w₄ :=
        ⟨by rw [hw₄]; exact Dag.Grows.refl _, by rw [hn₄]; exact suffix_cons _ _,
          by rw [hw₄]; exact suffix_cons _ _⟩
      refine ⟨⟨hwf, hi₃.2.trans hl.nodes⟩, ⟨hl, .inr ⟨_, hn₄, hev, hcn ▸ hid⟩⟩, ?_⟩
      refine Safe.ret fun w' hl' _ tip ht => Recorded.later ?_ hl'
      obtain rfl : newTip = tip := by simpa using ht
      exact ⟨⟨_, by rw [hn₄]; exact mem_cons_self, rfl, rfl⟩, by rw [hw₄]; simp⟩
    · refine ⟨hi₃, ⟨Later.refl _, .inl rfl⟩, Safe.ret fun w' _ _ tip ht => ?_⟩
      simp at ht
  unfold publishEventAttempt
  simp only [Prog.perform_bind]
  split_ifs with hnone
  · refine read_safe (fun _ _ _ hd => hd) fun w₁ format hl₁ _ _ _ => ?_
    split_ifs
    · exact Safe.raise fun _ _ _ tip ht => by simp at ht
    · exact hpublish w₁ (hc.trans hl₁.nodes)
  · exact hpublish w hc

/-- The verdict on an event whose id the journal has: `duplicate` for the same payload. -/
def verdictOn (existing : JournalEvent) (n : NormalizedEvent) : AppendResult :=
  if sameAppendPayload existing n.event n.tsWasProvided then .duplicate
  else .refused "event_id_conflict"

theorem mem_eventIds {c : List EventNode} {id : String} :
    id ∈ eventIds c ↔ ∃ n ∈ c, n.data.event.eventId = id := by
  simp [eventIds]

theorem checkExistingEvent_cases {c : List EventNode} (n : NormalizedEvent) :
    (n.event.eventId ∉ eventIds c ∧
      checkExistingEvent (entries c) n.event n.tsWasProvided = none) ∨
    ∃ m ∈ c, m.data.event.eventId = n.event.eventId ∧
      checkExistingEvent (entries c) n.event n.tsWasProvided = some (verdictOn m.data.event n) := by
  unfold checkExistingEvent
  cases hl : ((entries c).filter fun item => item.2.eventId = n.event.eventId).getLast? with
  | none =>
    refine .inl ⟨fun hmem => ?_, rfl⟩
    obtain ⟨m, hm, he⟩ := mem_eventIds.mp hmem
    rw [getLast?_eq_none_iff, filter_eq_nil_iff] at hl
    exact hl (m.id, m.data.event) (by simpa [entries] using ⟨m, hm, rfl, rfl⟩) (by simpa using he)
  | some item =>
    have hmem := mem_of_getLast? hl
    simp only [entries, mem_filter, mem_reverse, mem_map,
      decide_eq_true_eq] at hmem
    obtain ⟨⟨m, hm, rfl⟩, he⟩ := hmem
    exact .inr ⟨m, hm, he, by simp only [verdictOn]; split_ifs <;> rfl⟩

/-- What a call answers once the journal has its event id. -/
def Answered (n : NormalizedEvent) (r : Except JournalError AppendResult) (w : JournalWorld ι) :
    Prop :=
  (∃ m ∈ w.nodes, m.data.event.eventId = n.event.eventId ∧ r = .ok (verdictOn m.data.event n)) ∨
    (r = .error ⟨"max_events", "truncated"⟩ ∧ maxEventsDefault < w.nodes.length)

/-- The outcome of the attempts, of which at least one is left if `left`. -/
def Attempted (i : ι) (base : List EventNode) (n : NormalizedEvent) (left : Bool)
    (r : Except JournalError AppendResult) (w : JournalWorld ι) : Prop :=
  (∀ id commit, r = .ok (.appended id commit) →
    id = n.event.eventId ∧ Recorded i n.event commit w) ∧
  (left = true → n.event.eventId ∈ eventIds base → Answered n r w)

theorem appendAttempts_safe (n : NormalizedEvent) (hvalid : isWaveId wave = true)
    (hwave : n.event.wave = wave) (attempts : Nat) (w : JournalWorld ι) :
    Safe (JournalOp.actFor i) (appendConduct wave n.event.eventId base)
      (Attempted i base n (decide (0 < attempts))) (appendAttempts n attempts) w := by
  induction attempts generalizing w with
  | zero => exact Safe.ret fun _ _ _ => ⟨fun _ _ h => by simp at h, fun h => by simp at h⟩
  | succ attempts ih =>
    unfold appendAttempts
    simp only [Prog.perform_bind, Prog.pure_eq]
    refine read_safe (fun _ _ _ hd => hd.2) fun w₁ symbolic _ hw₁ hb₁ hd₁ => ?_
    obtain ⟨rfl, -⟩ := hd₁
    simp only [hw₁.direct, if_false, Bool.false_eq_true, hwave]
    refine Safe.bind ?_ ?_ ⟨hw₁, hb₁⟩ (readChain_safe hvalid maxEventsDefault w₁)
    · rintro chain w₂ ⟨hw₂, hb₂⟩ ⟨c, rfl, hbase, hc, -⟩
      rcases checkExistingEvent_cases (c := c) n with ⟨hid, hchk⟩ | ⟨m, hm, he, hchk⟩
      · have hnew : n.event.eventId ∉ eventIds base := fun hmem =>
          hid ((hbase.map fun n => n.data.event.eventId).subset hmem)
        have hids : (entries c).map (fun item => item.2.eventId) = (eventIds c).reverse := by
          simp [entries, eventIds]
        simp only [hchk, hids]
        split_ifs with hparent
        · exact Safe.ret fun _ _ _ => ⟨fun _ _ h => by simp at h, fun _ h => absurd h hnew⟩
        · have hp : ∀ p, n.event.causalParent = some p → p ∈ eventIds c := by
            intro p hp
            rw [hp] at hparent
            simpa using hparent
          have htip : (entries c).getLast?.map Prod.fst = c.head?.map Node.id := by
            cases c <;> simp [entries]
          rw [htip]
          refine Safe.bind ?_ ?_ ⟨hw₂, hb₂⟩
            (publishEventAttempt_safe hc rfl hid hp hwave)
          · intro newTip w₃ hi₃ hrec
            cases newTip with
            | some tip =>
              refine Safe.ret fun w' hl _ => ⟨fun id commit h => ?_, fun _ h => absurd h hnew⟩
              obtain ⟨rfl, rfl⟩ := AppendResult.appended.inj (Except.ok.inj h)
              exact ⟨rfl, (hrec _ rfl).later hl⟩
            | none =>
              refine (ih w₃).weaken fun r w _ h => ⟨h.1, fun _ hmem => absurd hmem hnew⟩
          · exact fun x w _ _ => ⟨fun _ _ h => by simp at h, fun _ hmem => absurd hmem hnew⟩
      · simp only [hchk]
        refine Safe.ret fun w' hl _ => ⟨fun id commit h => ?_, fun _ _ => ?_⟩
        · unfold verdictOn at h
          split_ifs at h <;> simp at h
        · exact .inl ⟨m, hl.nodes.subset (hc.subset hm), he, rfl⟩
    · rintro x w₂ - ⟨rfl, hlen⟩
      exact ⟨fun _ _ h => by simp at h, fun _ _ => .inr ⟨rfl, hlen⟩⟩

/-- The outcome of a whole call. -/
def Reported (os : Platform) (i : ι) (r : AppendRequest) (base : List EventNode)
    (result : Except JournalError AppendResult) (w : JournalWorld ι) : Prop :=
  (∀ id commit, result = .ok (.appended id commit) →
    id = deriveEventId os r.wave r.producer r.producerSeq ∧
      ∃ ts, Recorded i (r.eventAt os ts) commit w) ∧
  (deriveEventId os r.wave r.producer r.producerSeq ∈ eventIds base →
    (∃ now x, normalizeAppendEvent os r now = .error x ∧ result = .ok (.refused x.reason)) ∨
    (∃ now n, normalizeAppendEvent os r now = .ok n ∧
      ((∃ m ∈ w.nodes, m.data.event.eventId = n.event.eventId ∧
          result = .ok (verdictOn m.data.event n)) ∨
        (result = .ok (.refused "truncated") ∧ maxEventsDefault < w.nodes.length))))

theorem normalizeAppendEvent_ok {os : Platform} {r : AppendRequest} {now : String}
    {n : NormalizedEvent} (h : normalizeAppendEvent os r now = .ok n) :
    isWaveId r.wave = true ∧ n.event = r.eventAt os (r.ts.getD now) ∧
      n.tsWasProvided = r.ts.isSome ∧ 0 < n.maxRetries := by
  unfold normalizeAppendEvent at h
  obtain ⟨_, hvalid, h⟩ := bind_eq_ok.mp h
  dsimp only at h
  split_ifs at h with hm
  · cases h
  · obtain ⟨date, -, h⟩ := bind_eq_ok.mp h
    obtain ⟨_, -, h⟩ := bind_eq_ok.mp h
    obtain rfl := Except.ok.inj h
    refine ⟨?_, rfl, rfl, by simp only; omega⟩
    unfold validateWaveId at hvalid
    split_ifs at hvalid with hv
    exact hv

theorem append_safe (os : Platform) (r : AppendRequest) (hwave : r.wave = wave)
    (w : JournalWorld ι) :
    Safe (JournalOp.actFor i)
      (appendConduct wave (deriveEventId os wave r.producer r.producerSeq) base)
      (Reported os i r base) (append os r) w := by
  subst hwave
  unfold append
  simp only [Prog.perform_bind, Prog.call_attempt]
  refine read_safe (fun _ _ _ hd => hd) fun w₁ now _ hw₁ hb₁ _ => ?_
  cases hn : normalizeAppendEvent os r now with
  | error x =>
    refine Safe.ret fun w' _ _ => ⟨fun _ _ h => by simp at h, fun _ => .inl ⟨now, x, hn, rfl⟩⟩
  | ok n =>
    obtain ⟨hvalid, he, hts, hpos⟩ := normalizeAppendEvent_ok hn
    have hev : n.event.eventId = deriveEventId os r.wave r.producer r.producerSeq := by
      rw [he]; rfl
    have hsafe : Safe (JournalOp.actFor i) (appendConduct r.wave n.event.eventId base)
        (Attempted i base n (decide (0 < n.maxRetries))) (appendAttempts n n.maxRetries) w₁ :=
      appendAttempts_safe n hvalid (by rw [he]; rfl) n.maxRetries w₁
    rw [hev] at hsafe
    refine Safe.attempt ?_ ⟨hw₁, hb₁⟩ hsafe
    rintro (x | result) w₂ - ⟨hrec, hans⟩
    · refine Safe.ret fun w' hl _ => ⟨fun _ _ h => by simp at h, fun hmem => .inr ⟨now, n, hn, ?_⟩⟩
      rcases hans (by simpa using hpos) (hev ▸ hmem) with ⟨_, _, _, h⟩ | ⟨h, hlen⟩
      · simp at h
      · obtain rfl := Except.error.inj h
        exact .inr ⟨rfl, lt_of_lt_of_le hlen hl.nodes.length_le⟩
    · refine Safe.ret fun w' hl _ => ⟨fun id commit h => ?_, fun hmem => .inr ⟨now, n, hn, ?_⟩⟩
      · obtain ⟨hid, hr⟩ := hrec id commit h
        exact ⟨hid.trans hev, _, he ▸ hr.later hl⟩
      · rcases hans (by simpa using hpos) (hev ▸ hmem) with ⟨m, hm, hme, h⟩ | ⟨h, _⟩
        · exact .inl ⟨m, hl.nodes.subset hm, hme, h⟩
        · simp at h

end Append

end

end Workbay.Wave

import Workbay.Completion.Recording
import Workbay.Data.Past

/-!
# One owner for each finding

Rows are only appended. The row that is appended has the next revision of its lane, decodes to the
record that is returned, and has been checked against the latest row of every other lane of the
task. That last fact is about the rows before it, so no later row can spoil it: of two latest rows
the later one was appended when the earlier one was already the latest of its lane.
-/

namespace Workbay.Completion

open Effects List

variable {rows : List ContractRow} {row : ContractRow} {record : ContractRecord} {key : String}

theorem newest_eq_none : newest rows = none ↔ rows = [] := by
  cases rows with
  | nil => simp [newest]
  | cons row rows =>
    simp only [newest, reduceCtorEq, iff_false]
    cases newest rows with
    | none => simp
    | some best => by_cases h : row.revision ≤ best.revision <;> simp [h]

theorem newest_spec (h : newest rows = some row) :
    row ∈ rows ∧ ∀ r ∈ rows, r.revision ≤ row.revision := by
  induction rows generalizing row with
  | nil => cases h
  | cons first rows ih =>
    rw [newest] at h
    cases hbest : newest rows with
    | none =>
      rw [hbest] at h
      obtain rfl : first = row := Option.some.inj h
      have hnil : rows = [] := newest_eq_none.mp hbest
      exact ⟨mem_cons_self, fun r hr => by simp_all⟩
    | some best =>
      simp only [hbest] at h
      obtain ⟨hmem, hmax⟩ := ih hbest
      by_cases hle : first.revision ≤ best.revision
      · rw [if_pos hle] at h
        obtain rfl : best = row := Option.some.inj h
        refine ⟨mem_cons_of_mem _ hmem, fun r hr => ?_⟩
        rcases mem_cons.mp hr with rfl | hr
        · exact hle
        · exact hmax r hr
      · rw [if_neg hle] at h
        obtain rfl : first = row := Option.some.inj h
        refine ⟨mem_cons_self, fun r hr => ?_⟩
        rcases mem_cons.mp hr with rfl | hr
        · exact Int.le_refl _
        · have := hmax r hr
          omega

/-- The rows of one lane, in the order in which they were appended. -/
def laneRows (rows : List ContractRow) (taskRef laneId : String) : List ContractRow :=
  rows.filter fun row => row.taskRef = taskRef ∧ row.laneId = laneId

variable {taskRef laneId : String} {p : ContractPayload}

theorem mem_laneRows : row ∈ laneRows rows taskRef laneId ↔
      row ∈ rows ∧ row.taskRef = taskRef ∧ row.laneId = laneId := by
  simp [laneRows]

theorem latest_spec (h : latest rows taskRef laneId = some row) :
    (row ∈ rows ∧ row.taskRef = taskRef ∧ row.laneId = laneId) ∧
      ∀ r ∈ rows, r.taskRef = taskRef → r.laneId = laneId → r.revision ≤ row.revision := by
  obtain ⟨hmem, hmax⟩ := newest_spec h
  exact ⟨mem_laneRows.mp hmem, fun r hr htask hlane => hmax r (mem_laneRows.mpr ⟨hr, htask, hlane⟩)⟩

theorem latest_revision (hmem : row ∈ rows)
    (hmax : ∀ r ∈ rows, r.taskRef = row.taskRef → r.laneId = row.laneId → r.revision ≤ row.revision) :
    (latest rows row.taskRef row.laneId).map ContractRow.revision = some row.revision := by
  cases h : latest rows row.taskRef row.laneId with
  | none =>
    have hnil : laneRows rows row.taskRef row.laneId = [] := newest_eq_none.mp h
    have hin : row ∈ laneRows rows row.taskRef row.laneId := mem_laneRows.mpr ⟨hmem, rfl, rfl⟩
    rw [hnil] at hin
    cases hin
  | some best =>
    obtain ⟨⟨hbest, htask, hlane⟩, hge⟩ := latest_spec h
    have h₁ := hge row hmem rfl rfl
    have h₂ := hmax best hbest htask hlane
    simp only [Option.map_some, Option.some.injEq]
    omega

/-- The revisions of each lane are 1, 2, … in the order in which they were appended. -/
def Numbered (rows : List ContractRow) : Prop :=
  ∀ taskRef laneId, (laneRows rows taskRef laneId).map ContractRow.revision =
    (List.range (laneRows rows taskRef laneId).length).map fun n : Nat => (n : Int) + 1

theorem Numbered.latest_length (h : Numbered rows) (hlatest : latest rows taskRef laneId = some row) :
    row.revision = (laneRows rows taskRef laneId).length := by
  obtain ⟨hmem, hmax⟩ := newest_spec hlatest
  have hmem' : row ∈ laneRows rows taskRef laneId := hmem
  have hrev : row.revision ∈ (laneRows rows taskRef laneId).map ContractRow.revision :=
    mem_map_of_mem hmem'
  rw [h taskRef laneId] at hrev
  obtain ⟨n, hn, hrevn⟩ := mem_map.mp hrev
  have hlt : n < (laneRows rows taskRef laneId).length := mem_range.mp hn
  -- the greatest number is taken by some row
  have hlast : (((laneRows rows taskRef laneId).length - 1 : Nat) : Int) + 1 ∈
      (laneRows rows taskRef laneId).map ContractRow.revision := by
    rw [h taskRef laneId]
    exact mem_map.mpr ⟨_, mem_range.mpr (by omega), rfl⟩
  obtain ⟨r, hr, hrr⟩ := mem_map.mp hlast
  have hle := hmax r hr
  omega

theorem laneRows_append (rows : List ContractRow) (row : ContractRow) (taskRef laneId : String) :
    laneRows (rows ++ [row]) taskRef laneId = laneRows rows taskRef laneId ++
      if row.taskRef = taskRef ∧ row.laneId = laneId then [row] else [] := by
  by_cases h : row.taskRef = taskRef ∧ row.laneId = laneId <;> simp [laneRows, h]

theorem Numbered.append (h : Numbered rows)
    (hrow : row.revision = (laneRows rows row.taskRef row.laneId).length + 1) :
    Numbered (rows ++ [row]) := by
  intro taskRef laneId
  rw [laneRows_append]
  by_cases hkey : row.taskRef = taskRef ∧ row.laneId = laneId
  · obtain ⟨rfl, rfl⟩ := hkey
    rw [if_pos ⟨rfl, rfl⟩, map_append, h, length_append, length_singleton,
      range_succ, map_append, map_singleton, map_singleton, hrow]
  · rw [if_neg hkey, append_nil]
    exact h taskRef laneId

/-- The findings that a record lists. -/
def ContractPayload.findings (p : ContractPayload) : List String := p.contract.findingIds.getD []

/-- A payload hands a finding over to itself, from a contract of another lane. -/
structure TakesOver (p : ContractPayload) (previous : CompletionContract) (finding : String)
    (edge : TransferEdge) : Prop where
  recorded : edge ∈ p.transfers
  authenticated : edge.authenticated = true
  source : edge.source = previous.identity ∧ edge.sourceContractHash = previous.contractHash
  carrier : edge.carrier = p.contract.identity
  mapping : ∃ m ∈ edge.mappings, m.predecessor = ⟨.finding, finding⟩ ∧
    m.carrier = ⟨.finding, finding⟩

theorem decode_eq_ok {host : ContractHost} :
    decode host row = .ok record ↔ decodeRow host row = .ok record := by
  rw [decode]
  split
  · rename_i r h
    rw [h]
  · rename_i h
    simp [h]
  · rename_i h
    simp [h]

theorem strings_eq_ok {code : ContractRefusalCode} {name : String} {nonempty : Bool}
    {value : List String} {ids : List String}
    (h : strings code name nonempty (some value) = .ok ids) :
    ids = value.insertionSort (· ≤ ·) := by
  simp only [strings, check_then_eq_ok, pure, Except.pure, Except.ok.injEq] at h
  exact h.2.2.2.symm

theorem transferEdge_eq_ok {edge edge' : TransferEdge} (h : transferEdge edge = .ok edge') :
    edge.authenticated = true ∧
      edge' = { edge with evidenceIds := edge.evidenceIds.insertionSort (· ≤ ·) } := by
  simp only [transferEdge, bind_eq_ok, exists_const, require_eq_ok, checkAll_eq_ok, pure,
    Except.pure, Except.ok.injEq] at h
  obtain ⟨_, -, _, -, -, ⟨hauth, -⟩, ids, hids, -, -, -, rfl⟩ := h
  exact ⟨hauth, by rw [strings_eq_ok hids]⟩

theorem decode_spec {host : ContractHost} (h : decode host row = .ok record) :
    record.contract.revision = row.revision ∧ record.contract.contractHash = row.contractHash ∧
      record.contract.identity = row.payload.contract.identity ∧
      record.contract.identity.taskRef = row.taskRef ∧
      record.contract.identity.laneId = row.laneId ∧
      record.contract.findingIds = row.payload.contract.findingIds ∧
      transferShape row.payload.transfers = .ok record.transfers := by
  rw [decode_eq_ok] at h
  simp only [decodeRow, bind_eq_ok, exists_const, require_eq_ok, pure, Except.pure,
    Except.ok.injEq] at h
  obtain ⟨⟨hrev, hhash, -⟩, ⟨htask, hlane, -⟩, _, -, vs, -, assigned, -, -, -, ts, hts, rfl⟩ := h
  exact ⟨hrev, hhash, rfl, htask, hlane, rfl, hts⟩

/-- A transfer that covers a finding is still there, authenticated, in the record that is decoded
from the row. -/
theorem takesOver_of_covers {host : ContractHost} {finding : String} {previous : CompletionContract}
    (hcovers : coversFinding p.transfers previous p.contract.identity finding = true)
    (hdecode : decode host (contractRow host p key) = .ok record) :
    ∃ edge, TakesOver record.toContractPayload previous finding edge := by
  obtain ⟨-, -, hidentity, -, -, -, htransfers⟩ := decode_spec hdecode
  simp only [coversFinding, any_eq_true, Bool.and_eq_true, decide_eq_true_eq] at hcovers
  obtain ⟨edge, hedge, ⟨⟨hsource, hhash⟩, hcarrier⟩, m, hm, hpred, hcar⟩ := hcovers
  have hmem : canonicalEdge host edge ∈ (contractRow host p key).payload.transfers := by
    simp only [contractRow, canonical, canonicalTuple, mem_insertionSort]
    exact mem_map_of_mem hedge
  obtain ⟨edge', hedge', hread⟩ := exists_of_readAll htransfers hmem
  obtain ⟨hauth, rfl⟩ := transferEdge_eq_ok hread
  refine ⟨_, hedge', hauth, ⟨hsource, hhash⟩, ?_, m, ?_, hpred, hcar⟩
  · rw [hidentity]
    exact hcarrier
  · simp only [canonicalEdge, canonicalTuple, mem_insertionSort]
    exact hm

/-- An appended row, with what it was checked against. -/
structure Appended (host : ContractHost) (rows : List ContractRow) (row : ContractRow)
    (record : ContractRecord) : Prop where
  revision : row.revision = (laneRows rows row.taskRef row.laneId).length + 1
  decodes : decode host row = .ok record
  owned : ∀ other ∈ otherLatest rows row.taskRef row.laneId, ∃ previous,
    decode host other = .ok previous ∧
      ∀ finding ∈ previous.findings, finding ∈ record.findings →
        ∃ edge, TakesOver record.toContractPayload previous.contract finding edge

theorem nextRevision_eq {host : ContractHost} {i : LaneIdentity} {revision : Int}
    (hnum : Numbered rows) (h : nextRevision host rows i = .ok revision) :
    revision = (laneRows rows i.taskRef i.laneId).length + 1 := by
  rw [nextRevision] at h
  split at h
  · rename_i hnone
    have hnil : laneRows rows i.taskRef i.laneId = [] := newest_eq_none.mp hnone
    rw [hnil]
    exact (Except.ok.inj h).symm
  · rename_i row hlatest
    obtain ⟨previous, hdecode, hrev⟩ := bind_eq_ok.mp h
    rw [← Except.ok.inj hrev, (decode_spec hdecode).1, hnum.latest_length hlatest]

theorem mem_findings_contractRow {host : ContractHost}
    (h : decode host (contractRow host p key) = .ok record) {finding : String} :
    finding ∈ record.findings ↔ finding ∈ p.findings := by
  obtain ⟨-, -, -, -, -, hfindings, -⟩ := decode_spec h
  rw [ContractPayload.findings, hfindings, ContractPayload.findings]
  cases hids : p.contract.findingIds with
  | none => simp [contractRow, canonical, hids]
  | some ids => simp [contractRow, canonical, canonicalTuple, hids]

theorem latest_append {stored : ContractRow} (hnum : Numbered rows)
    (hrow : row.revision = (laneRows rows row.taskRef row.laneId).length + 1)
    (h : latest (rows ++ [row]) row.taskRef row.laneId = some stored) : stored = row := by
  obtain ⟨⟨hmem, htask, hlane⟩, hmax⟩ := latest_spec h
  rcases mem_append.mp hmem with hold | hnew
  · have hge := hmax row (mem_append_right _ (mem_singleton_self _)) rfl rfl
    have hin : stored ∈ laneRows rows row.taskRef row.laneId := mem_laneRows.mpr ⟨hold, htask, hlane⟩
    have hrev : stored.revision ∈
        (laneRows rows row.taskRef row.laneId).map ContractRow.revision := mem_map_of_mem hin
    rw [hnum] at hrev
    obtain ⟨n, hn, hstored⟩ := mem_map.mp hrev
    have hlt := mem_range.mp hn
    omega
  · exact mem_singleton.mp hnew

theorem appendContract_spec {host : ContractHost} {rows' : List ContractRow} (hnum : Numbered rows)
    (h : appendContract host rows p key = .ok (record, rows')) :
    ∃ row, rows' = rows ++ [row] ∧ Appended host rows row record := by
  simp only [appendContract, bind_eq_ok, exists_const, checkAll_eq_ok, require_eq_ok] at h
  obtain ⟨revision, hrevision, -, howned, -, h⟩ := h
  have hnext := nextRevision_eq hnum hrevision
  have hrow : (contractRow host (numbered host p revision) key).revision = (laneRows rows
      (contractRow host (numbered host p revision) key).taskRef
      (contractRow host (numbered host p revision) key).laneId).length + 1 := hnext
  split at h
  · rename_i stored hlatest
    obtain ⟨returned, hdecode, heq⟩ := bind_eq_ok.mp h
    obtain ⟨rfl, rfl⟩ := Prod.mk.inj (Except.ok.inj heq)
    have hstored := latest_append hnum hrow hlatest
    rw [hstored] at hdecode
    refine ⟨_, rfl, hrow, hdecode, fun other hother => ?_⟩
    have hvalid := howned other hother
    simp only [validateOwner, bind_eq_ok, checkAll_eq_ok, require_eq_ok, mem_filter,
      decide_eq_true_eq] at hvalid
    obtain ⟨previous, hprevious, hcovers⟩ := hvalid
    refine ⟨previous, hprevious, fun finding hf hf' => ?_⟩
    have hp : finding ∈ (numbered host p revision).findings :=
      (mem_findings_contractRow hdecode).mp hf'
    exact takesOver_of_covers (hcovers finding ⟨hf, hp⟩) hdecode
  · cases h

theorem recordContract_spec {host : ContractHost} {db : Native} {rows' : List ContractRow}
    {d : Declaration} (hnum : Numbered rows)
    (h : recordContract host db rows d = .ok (record, rows')) :
    rows' = rows ∨ ∃ row, rows' = rows ++ [row] ∧ Appended host rows row record := by
  simp only [recordContract, bind_eq_ok, exists_const, require_eq_ok, checkAll_eq_ok] at h
  obtain ⟨p, -, -, -, -, h⟩ := h
  split at h
  · obtain ⟨existing, -, heq⟩ := bind_eq_ok.mp h
    exact .inl (Prod.mk.inj (Except.ok.inj heq)).2.symm
  · exact .inr (appendContract_spec hnum h)

/-- Every row was checked, when it was appended, against the rows before it. -/
abbrev Checked (host : ContractHost) (rows : List ContractRow) : Prop :=
  EachAfter (fun before row => ∃ record, Appended host before row record) rows

theorem Checked.numbered {host : ContractHost} (h : Checked host rows) : Numbered rows := by
  induction rows using List.reverseRecOn with
  | nil => intro taskRef laneId; rfl
  | append_singleton rows row ih =>
    obtain ⟨hrows, record, happended⟩ := EachAfter.append_iff.mp h
    exact (ih hrows).append happended.revision

theorem contractMachine_next {host : ContractHost} {s : ContractStore} (call : ContractCall)
    (h : Checked host s.rows) :
    ((contractMachine host).next s call).rows = s.rows ∨
      ∃ d row record, call = .record d ∧
        (contractMachine host).answer s call = some (.ok record) ∧
        ((contractMachine host).next s call).rows = s.rows ++ [row] ∧
        Appended host s.rows row record := by
  cases call with
  | native db => exact .inl rfl
  | record d =>
    simp only [Machine.next, Machine.answer, contractMachine]
    cases hcall : recordContract host s.native s.rows d with
    | error e => exact .inl rfl
    | ok result =>
      obtain ⟨record, rows⟩ := result
      rcases recordContract_spec h.numbered hcall with hsame | ⟨row, happend, happended⟩
      · exact .inl hsame
      · exact .inr ⟨d, row, record, rfl, rfl, happend, happended⟩

theorem contractMachine_refused {host : ContractHost} {s : ContractStore} {d : Declaration}
    {e : ContractError}
    (h : (contractMachine host).answer s (.record d) = some (.error e)) :
    (contractMachine host).next s (.record d) = s := by
  simp only [Machine.next, Machine.answer, contractMachine] at h ⊢
  cases hcall : recordContract host s.native s.rows d with
  | error e => rfl
  | ok result =>
    rw [hcall] at h
    simp at h

theorem contractMachine_checked (host : ContractHost) (calls : List ContractCall) :
    Checked host ((contractMachine host).run {} calls).rows := by
  refine Machine.run_invariant (P := fun s : ContractStore => Checked host s.rows) (fun s call h => ?_) ?_ calls
  · rcases contractMachine_next call h with hsame | ⟨d, row, record, -, -, happend, happended⟩
    · rwa [hsame]
    · rw [happend]
      exact EachAfter.append_iff.mpr ⟨h, record, happended⟩
  · exact EachAfter.nil

/-- A row was inserted by a call of the run that returned the record. -/
def Inserted (host : ContractHost) (calls : List ContractCall) (row : ContractRow)
    (record : ContractRecord) : Prop :=
  ∃ before d after, calls = before ++ .record d :: after ∧
    (contractMachine host).answer ((contractMachine host).run {} before) (.record d) =
      some (.ok record) ∧
    ((contractMachine host).next ((contractMachine host).run {} before) (.record d)).rows =
      ((contractMachine host).run {} before).rows ++ [row]

theorem inserted_of_mem {host : ContractHost} {calls : List ContractCall}
    (h : row ∈ ((contractMachine host).run {} calls).rows) :
    ∃ record, Inserted host calls row record ∧ decode host row = .ok record := by
  induction calls using List.reverseRecOn with
  | nil => simp at h
  | append_singleton calls call ih =>
    rw [Machine.run_append, Machine.run_cons, Machine.run_nil] at h
    have hold : row ∈ ((contractMachine host).run {} calls).rows →
        ∃ record, Inserted host (calls ++ [call]) row record ∧ decode host row = .ok record := by
      intro hmem
      obtain ⟨record, ⟨before, d, after, heq, hanswer, hrows⟩, hdecode⟩ := ih hmem
      exact ⟨record, ⟨before, d, after ++ [call], by rw [heq, append_assoc,
        cons_append], hanswer, hrows⟩, hdecode⟩
    rcases contractMachine_next call (contractMachine_checked host calls) with
      hsame | ⟨d, new, record, rfl, hanswer, happend, happended⟩
    · exact hold (hsame ▸ h)
    · rw [happend] at h
      rcases mem_append.mp h with hmem | hnew
      · exact hold hmem
      · obtain rfl := mem_singleton.mp hnew
        exact ⟨record, ⟨calls, d, [], rfl, hanswer, happend⟩, happended.decodes⟩

/-- Of two latest rows of a task the earlier one was the latest of its lane when the later one was
appended. -/
theorem mem_otherLatest {before mid after : List ContractRow} {earlier later : ContractRow}
    (hrows : rows = before ++ earlier :: mid ++ later :: after)
    (hlatest : latest rows earlier.taskRef earlier.laneId = some earlier)
    (htask : earlier.taskRef = later.taskRef) (hlane : earlier.laneId ≠ later.laneId) :
    earlier ∈ otherLatest (before ++ earlier :: mid) later.taskRef later.laneId := by
  have hmem : earlier ∈ before ++ earlier :: mid := by simp
  have hmax : ∀ r ∈ before ++ earlier :: mid, r.taskRef = earlier.taskRef →
      r.laneId = earlier.laneId → r.revision ≤ earlier.revision := by
    intro r hr
    have hin : r ∈ rows := by
      rw [hrows]
      exact mem_append_left _ hr
    exact (latest_spec hlatest).2 r hin
  rw [otherLatest, mem_filter]
  exact ⟨hmem, decide_eq_true ⟨htask, hlane, latest_revision hmem hmax⟩⟩

/-- Each finding has one current owner. After any calls and changes of the other tables, the
revisions of each lane are 1, 2, … ; each row decodes to the record that was returned when it was
inserted; a call that raised stored nothing; and of the latest contracts of two lanes of a task that
list the same finding, the later one has an authenticated transfer of it from the earlier one. -/
theorem findings_have_one_owner (host : ContractHost) (calls : List ContractCall) :
    (∀ taskRef laneId, (laneRows ((contractMachine host).run {} calls).rows taskRef laneId).map
        ContractRow.revision =
      (List.range (laneRows ((contractMachine host).run {} calls).rows taskRef laneId).length).map
        fun n : Nat => (n : Int) + 1) ∧
    (∀ row ∈ ((contractMachine host).run {} calls).rows,
      ∃ record, Inserted host calls row record ∧ decode host row = .ok record) ∧
    (∀ before d after e, calls = before ++ .record d :: after →
      (contractMachine host).answer ((contractMachine host).run {} before) (.record d) =
        some (.error e) →
      (contractMachine host).next ((contractMachine host).run {} before) (.record d) =
        (contractMachine host).run {} before) ∧
    ∀ before earlier mid later after,
      ((contractMachine host).run {} calls).rows = before ++ earlier :: mid ++ later :: after →
      latest ((contractMachine host).run {} calls).rows earlier.taskRef earlier.laneId =
        some earlier →
      latest ((contractMachine host).run {} calls).rows later.taskRef later.laneId = some later →
      earlier.taskRef = later.taskRef → earlier.laneId ≠ later.laneId →
      ∀ previous record, decode host earlier = .ok previous → decode host later = .ok record →
        ∀ finding ∈ previous.findings, finding ∈ record.findings →
          ∃ edge, TakesOver record.toContractPayload previous.contract finding edge := by
  have hchecked := contractMachine_checked host calls
  refine ⟨hchecked.numbered, fun row hrow => inserted_of_mem hrow,
    fun before d after e _ hrefused => contractMachine_refused hrefused, ?_⟩
  intro before earlier mid later after hrows hearlier _ htask hlane previous record hprevious hrecord
  obtain ⟨record', happended⟩ := hchecked (before ++ earlier :: mid) later after hrows
  obtain ⟨previous', hprevious', howned⟩ :=
    happended.owned earlier (mem_otherLatest hrows hearlier htask hlane)
  obtain rfl : previous' = previous := Except.ok.inj (hprevious'.symm.trans hprevious)
  obtain rfl : record' = record := Except.ok.inj (happended.decodes.symm.trans hrecord)
  exact howned

end Workbay.Completion

/-!
## The contract in force

A lane is judged by the latest revision of its contract. A declaration that was recorded before is
answered with the revision of then, which another declaration may have replaced since.
-/

namespace Workbay.Completion

open Effects

variable {host : ContractHost}

/-- The row that stores a declaration already. -/
def recordedBefore (host : ContractHost) (rows : List ContractRow) (d : Declaration) :
    Option ContractRow :=
  match provisional host d with
  | .ok p => rows.find? (·.idempotencyKey = (digests host (canonical host p)).2)
  | .error _ => none

theorem provisional_identity {d : Declaration} {p : ContractPayload}
    (h : provisional host d = .ok p) :
    p.contract.identity = d.identity ∧ isText d.identity.taskRef ∧ isText d.identity.laneId := by
  simp only [provisional, bind_eq_ok, exists_const, require_eq_ok, pure, Except.pure,
    Except.ok.injEq] at h
  obtain ⟨_, hidentity, h⟩ := h
  have htexts : isText d.identity.taskRef ∧ isText d.identity.laneId := by
    simp only [checkIdentity, bind_eq_ok, exists_const, require_eq_ok] at hidentity
    exact ⟨hidentity.2.1, hidentity.2.2.1⟩
  obtain ⟨-, acceptance, -, _, -, _, -, commands, -, evidence, -, -, -, -, -, -, policy, -, -,
    _, -, rfl⟩ := h
  exact ⟨rfl, htexts⟩

theorem loadContract_latest {rows : List ContractRow} {taskRef laneId : String}
    (htask : isText taskRef) (hlane : isText laneId) :
    loadContract host rows taskRef laneId none =
      match latest rows taskRef laneId with
      | none => .error (.refusal .contractAbsent "contract revision unavailable; hold")
      | some row => decode host row := by
  simp only [loadContract, require, htask, hlane, and_self, if_true, Option.all_none, bind,
    Except.bind] <;> rfl

/-- What a call does that returns a record. -/
inductive Returned (host : ContractHost) (rows : List ContractRow) (d : Declaration)
    (record : ContractRecord) (rows' : List ContractRow) : Prop where
  | repeated (row : ContractRow) (hbefore : recordedBefore host rows d = some row)
      (hdecode : decode host row = .ok record) (hrows : rows' = rows)
  | appended (row : ContractRow) (hbefore : recordedBefore host rows d = none)
      (hlatest : latest rows' d.identity.taskRef d.identity.laneId = some row)
      (hdecode : decode host row = .ok record) (hrows : rows' ≠ rows)

theorem recordContract_returned {db : Native} {rows rows' : List ContractRow} {d : Declaration}
    {record : ContractRecord} (h : recordContract host db rows d = .ok (record, rows')) :
    Returned host rows d record rows' ∧ isText d.identity.taskRef ∧ isText d.identity.laneId := by
  simp only [recordContract, bind_eq_ok, exists_const, require_eq_ok] at h
  obtain ⟨p, hp, -, -, _, -, h⟩ := h
  obtain ⟨hidentity, htexts⟩ := provisional_identity hp
  refine ⟨?_, htexts⟩
  have hbefore : recordedBefore host rows d =
      rows.find? (·.idempotencyKey = (digests host (canonical host p)).2) := by
    rw [recordedBefore, hp]
  split at h
  · rename_i existing hfind
    obtain ⟨returned, hdecode, heq⟩ := bind_eq_ok.mp h
    obtain ⟨rfl, rfl⟩ := Prod.mk.inj (Except.ok.inj heq)
    exact .repeated existing (hbefore.trans hfind) hdecode rfl
  · rename_i hfind
    simp only [appendContract, bind_eq_ok, exists_const, checkAll_eq_ok, require_eq_ok] at h
    obtain ⟨revision, -, -, -, -, h⟩ := h
    split at h
    · rename_i stored hlatest
      obtain ⟨returned, hdecode, heq⟩ := bind_eq_ok.mp h
      obtain ⟨rfl, rfl⟩ := Prod.mk.inj (Except.ok.inj heq)
      rw [hidentity] at hlatest
      exact .appended stored (hbefore.trans hfind) hlatest hdecode (by simp)
    · cases h

theorem Numbered.row_unique {rows : List ContractRow} (h : Numbered rows) {x y : ContractRow}
    {record : ContractRecord} (hx : x ∈ rows) (hy : y ∈ rows)
    (hxd : decode host x = .ok record) (hyd : decode host y = .ok record) : x = y := by
  obtain ⟨hxrev, -, -, hxtask, hxlane, -⟩ := decode_spec hxd
  obtain ⟨hyrev, -, -, hytask, hylane, -⟩ := decode_spec hyd
  have hnodup : ((laneRows rows x.taskRef x.laneId).map ContractRow.revision).Nodup := by
    rw [h]
    exact List.nodup_range.map fun a b hab => by omega
  have hxin : x ∈ laneRows rows x.taskRef x.laneId := mem_laneRows.mpr ⟨hx, rfl, rfl⟩
  have hyin : y ∈ laneRows rows x.taskRef x.laneId :=
    mem_laneRows.mpr ⟨hy, hytask.symm.trans hxtask, hylane.symm.trans hxlane⟩
  exact List.inj_on_of_nodup_map hnodup hxin hyin (hxrev.symm.trans hyrev)

/-- A record that a call returns is the contract in force, unless another revision has replaced the
one that stores its declaration. A call whose declaration is stored changes nothing. -/
theorem recorded_in_force (host : ContractHost) (calls : List ContractCall) (d : Declaration)
    (record : ContractRecord)
    (h : (contractMachine host).answer ((contractMachine host).run {} calls) (.record d) =
      some (.ok record)) :
    (loadContract host
          ((contractMachine host).next ((contractMachine host).run {} calls) (.record d)).rows
          d.identity.taskRef d.identity.laneId none = .ok record ↔
        ∀ row, recordedBefore host ((contractMachine host).run {} calls).rows d = some row →
          latest ((contractMachine host).run {} calls).rows d.identity.taskRef d.identity.laneId =
            some row) ∧
      ∀ row, recordedBefore host ((contractMachine host).run {} calls).rows d = some row →
        decode host row = .ok record ∧
          ((contractMachine host).next ((contractMachine host).run {} calls) (.record d)).rows =
            ((contractMachine host).run {} calls).rows := by
  have hchecked := contractMachine_checked host calls
  generalize (contractMachine host).run {} calls = s at h hchecked ⊢
  simp only [Machine.answer, Machine.next, contractMachine] at h ⊢
  cases hcall : recordContract host s.native s.rows d with
  | error e =>
    rw [hcall] at h
    simp at h
  | ok result =>
    obtain ⟨returned, rows'⟩ := result
    rw [hcall] at h
    obtain rfl : returned = record := by simpa using h
    obtain ⟨hreturned, htask, hlane⟩ := recordContract_returned hcall
    cases hreturned with
    | appended row hbefore hlatest hdecode hrows =>
      rw [hbefore]
      refine ⟨⟨fun _ row hrow => ?_, fun _ => ?_⟩, fun row hrow => ?_⟩
      · cases hrow
      · rw [loadContract_latest htask hlane, hlatest]
        exact hdecode
      · cases hrow
    | repeated row hbefore hdecode hrows =>
      have hmem : row ∈ s.rows := by
        rw [recordedBefore] at hbefore
        split at hbefore
        · exact List.mem_of_find?_eq_some hbefore
        · cases hbefore
      rw [hbefore, hrows, loadContract_latest htask hlane]
      refine ⟨⟨fun hload other hother => ?_, fun hcurrent => ?_⟩, fun other hother => ?_⟩
      · obtain rfl := Option.some.inj hother
        split at hload
        · cases hload
        · rename_i stored hstored
          obtain ⟨⟨hin, -⟩, -⟩ := latest_spec hstored
          rw [hstored, hchecked.numbered.row_unique hin hmem hload hdecode]
      · rw [hcurrent row rfl]
        exact hdecode
      · obtain rfl := Option.some.inj hother
        exact ⟨hdecode, rfl⟩

/-! A lane declares one contract, then another, and then the first again. -/

/-- The texts of a payload are its objective and its revision. -/
def namedHost : ContractHost where
  text := fun _ => ""
  digest := fun p => p.objective ++ toString p.contract.revision
  objectiveDigest := fun objective => objective

/-- The identity of the lane. -/
def declaredIdentity : LaneIdentity where
  repository := "repo"
  taskRef := "t"
  laneId := "l"
  laneRowId := 1
  identitySeq := none
  cycleId := some "0"
  branch := "b"
  admissionBase := "base"
  productTip := "tip"
  laneRevision := "r1"
  taskRevision := "1"

/-- The tables in which the declarations are made. -/
def declaredTables : ContractCall :=
  .native { lanes := [⟨1, "t", "l", none, "b", "", 0⟩], tasks := [⟨"t", 1, "in_progress"⟩] }

/-- The first contract. -/
def firstDeclaration : Declaration where
  identity := declaredIdentity
  objective := "one"
  integrationRef := "main"
  acceptanceIds := ["a"]
  acceptanceVerifiers := [⟨"a", "test", 1, "c", "pass", "text"⟩]
  approved := true
  exhaustive := true
  evidenceIds := ["e"]
  assignedFindings := some []
  emptyAssignmentDeclared := true
  requiredCommands := some ["pytest"]

/-- The first contract is declared, and then the second. -/
def secondDeclared : List ContractCall :=
  [declaredTables, .record firstDeclaration, .record { firstDeclaration with objective := "two" }]

theorem recorded_in_force_first :
    ∃ record, (contractMachine namedHost).answer ((contractMachine namedHost).run {} [declaredTables])
        (.record firstDeclaration) = some (.ok record) ∧
      loadContract namedHost ((contractMachine namedHost).next
        ((contractMachine namedHost).run {} [declaredTables]) (.record firstDeclaration)).rows
        "t" "l" none = .ok record := by
  have hanswer : (((contractMachine namedHost).answer
      ((contractMachine namedHost).run {} [declaredTables]) (.record firstDeclaration)).bind
        Except.toOption).isSome = true := by decide +kernel
  cases hcall : (contractMachine namedHost).answer
      ((contractMachine namedHost).run {} [declaredTables]) (.record firstDeclaration) with
  | none =>
    rw [hcall] at hanswer
    cases hanswer
  | some answer =>
    rw [hcall] at hanswer
    cases answer with
    | error e => cases hanswer
    | ok record =>
      refine ⟨record, rfl, ?_⟩
      refine (recorded_in_force namedHost [declaredTables] firstDeclaration record hcall).1.mpr ?_
      intro row hrow
      have hnone : recordedBefore namedHost
          ((contractMachine namedHost).run {} [declaredTables]).rows firstDeclaration = none := by
        decide +kernel
      rw [hnone] at hrow
      cases hrow

/-- The first contract is declared again, and the second stays in force. -/
theorem replaced_contract_returned :
    ¬ ∀ (host : ContractHost) (calls : List ContractCall) (d : Declaration)
        (record : ContractRecord),
      (contractMachine host).answer ((contractMachine host).run {} calls) (.record d) =
        some (.ok record) →
      loadContract host
        ((contractMachine host).next ((contractMachine host).run {} calls) (.record d)).rows
        d.identity.taskRef d.identity.laneId none = .ok record := by
  intro h
  have hanswer : (((contractMachine namedHost).answer
      ((contractMachine namedHost).run {} secondDeclared) (.record firstDeclaration)).bind
        Except.toOption).map (fun r => r.objective) = some "one" := by decide +kernel
  have hloaded : (loadContract namedHost ((contractMachine namedHost).next
      ((contractMachine namedHost).run {} secondDeclared) (.record firstDeclaration)).rows
      "t" "l" none).toOption.map (fun r => r.objective) = some "two" := by decide +kernel
  cases hcall : (contractMachine namedHost).answer
      ((contractMachine namedHost).run {} secondDeclared) (.record firstDeclaration) with
  | none =>
    rw [hcall] at hanswer
    cases hanswer
  | some answer =>
    rw [hcall] at hanswer
    cases answer with
    | error e => cases hanswer
    | ok record =>
      have hforce := h namedHost secondDeclared firstDeclaration record hcall
      rw [show firstDeclaration.identity.taskRef = "t" from rfl,
        show firstDeclaration.identity.laneId = "l" from rfl] at hforce
      rw [hforce] at hloaded
      simp only [Option.bind_some, Except.toOption, Option.map_some, Option.some.injEq] at hanswer hloaded
      rw [hanswer] at hloaded
      exact absurd hloaded (by decide +kernel)

end Workbay.Completion

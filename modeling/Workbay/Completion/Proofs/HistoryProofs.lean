import Workbay.Completion.Coverage
import Workbay.Completion.Proofs.ProductionProofs

/-!
# Reading and scanning a history

A page that is neither truncated nor followed by another has every receipt of its admission. A scan
that goes through knows which operations are open, and which cursor each source has reached.
-/

namespace Workbay.Completion

open Effects List

variable {host : CoverageHost} {policy : CoveragePolicy}

theorem pageRow_spec {w w' : PageLoop} {row : Receipt} (h : pageRow host w row = .ok w') :
    (w'.rows = w.rows ∨ w'.rows = w.rows ++ [row]) ∧
      (w'.reasons = [] → w.reasons = [] ∧ w'.rows = w.rows ++ [row]) := by
  rw [pageRow] at h
  split at h
  · rename_i hreasons
    obtain rfl : w = w' := Except.ok.inj h
    exact ⟨.inl rfl, fun hnil => absurd hnil hreasons⟩
  · rename_i hreasons
    split at h
    · obtain rfl := Except.ok.inj h
      exact ⟨.inl rfl, fun hnil => by cases hnil⟩
    · simp only [bind_eq_ok, decodeReceipt_eq_ok] at h
      obtain ⟨record, ⟨rfl, -⟩, h⟩ := h
      split at h
      · obtain rfl := Except.ok.inj h
        exact ⟨.inl rfl, fun hnil => by cases hnil⟩
      · split at h
        · obtain rfl := Except.ok.inj h
          exact ⟨.inl rfl, fun hnil => by cases hnil⟩
        · obtain rfl := Except.ok.inj h
          exact ⟨.inr rfl, fun _ => ⟨by simpa using hreasons, rfl⟩⟩

theorem pageRows_spec {rows : List Receipt} {w w' : PageLoop}
    (h : rows.foldlM (pageRow host) w = .ok w') (hreasons : w'.reasons = []) :
    w'.rows = w.rows ++ rows := by
  induction rows generalizing w with
  | nil =>
    obtain rfl : w = w' := Except.ok.inj h
    rw [append_nil]
  | cons row rows ih =>
    rw [foldlM_cons] at h
    obtain ⟨mid, hmid, hrest⟩ := bind_eq_ok.mp h
    have hnil : ∀ {w : PageLoop}, rows.foldlM (pageRow host) w = .ok w' → w.reasons = [] := by
      clear ih hrest hmid h
      induction rows with
      | nil =>
        intro w h
        obtain rfl : w = w' := Except.ok.inj h
        exact hreasons
      | cons row rows ih =>
        intro w h
        rw [foldlM_cons] at h
        obtain ⟨mid, hmid, hrest⟩ := bind_eq_ok.mp h
        exact ((pageRow_spec hmid).2 (ih hrest)).1
    rw [ih hrest, ((pageRow_spec hmid).2 (hnil hrest)).2, append_assoc, singleton_append]

theorem pageFact_spec (host : CoverageHost) (rows : List Receipt) (field : String) (absent : Json) (w : PageLoop) :
    (pageFact host rows field absent w).2.rows = w.rows ∧
      ((pageFact host rows field absent w).2.reasons = [] → w.reasons = [] ∧
        (pageFact host rows field absent w).1 = (latestFact rows field).getD absent) := by
  rw [pageFact]
  split
  · rename_i hnone
    exact ⟨rfl, fun hnil => ⟨hnil, by rw [hnone]; rfl⟩⟩
  · rename_i value hsome
    split
    · split
      · rename_i hcap
        exact ⟨rfl, fun hnil => by rw [hnil] at hcap; cases hcap⟩
      · exact ⟨rfl, fun hnil => by simp at hnil⟩
    · exact ⟨rfl, fun hnil => ⟨hnil, by rw [hsome]; rfl⟩⟩

/-- What the reader returns of a chain that is read whole. -/
structure ReadWhole (chain : List Receipt) (data : HistoryData) : Prop where
  history : data.history = chain
  total : data.totalMatching = chain.length
  returned : data.returned = chain.length
  head : data.head = ⟨chain.length, chain.getLast?.map Receipt.evidenceId⟩
  version : data.coveragePolicyVersion =
    (latestFact chain "coverage_policy_version").getD .null
  openOps : data.openOperationCount = openOperations chain chain.length
  page : chain.length ≤ maxPageRows

variable {r : Receipt} {interval : Json} {w w' : ScanLoop}

variable {chain : List Receipt}

theorem Sequential.bounds (h : Sequential chain) (hr : r ∈ chain) :
    1 ≤ r.sequence ∧ r.sequence ≤ chain.length := by
  have hmem : r.sequence ∈ chain.map Receipt.sequence := mem_map_of_mem hr
  rw [h] at hmem
  obtain ⟨n, hn, hrn⟩ := mem_map.mp hmem
  have hlt := mem_range.mp hn
  omega

theorem historyRows_eq {receipts : List Receipt} {b : ProductionBinding} {admissionId : String}
    (hlineage : ∀ r ∈ receiptsOf receipts b.identity.repository admissionId,
      lineage r.binding r.payload.admissionId = lineage b admissionId) :
    historyRows receipts b admissionId = receiptsOf receipts b.identity.repository admissionId := by
  refine filter_congr fun r hr => ?_
  by_cases hb : r.belongs b.identity.repository admissionId = true
  · rw [hb, hlineage r (mem_filter.mpr ⟨hr, hb⟩)]
    simp
  · have hne : lineage r.binding r.payload.admissionId ≠ lineage b admissionId := by
      intro heq
      simp only [lineage, Lineage.mk.injEq] at heq
      exact hb (by simp [Receipt.belongs, heq.1, heq.2.2.2.2])
    simp [hne, Bool.not_eq_true _ ▸ hb]

theorem take_eq_self (hseq : Sequential chain) {n : Nat}
    (hmore : (chain.any fun r =>
      ((chain.take n).getLast?.map Receipt.sequence).getD 0 < r.sequence) = false) :
    chain.take n = chain := by
  refine take_of_length_le ?_
  by_contra hlt
  have hsplit := take_append_drop n chain
  cases hdrop : chain.drop n with
  | nil =>
    have hlength := congrArg List.length hdrop
    rw [length_drop, length_nil] at hlength
    omega
  | cons y rest =>
    have hy : y ∈ chain := by
      rw [← hsplit, hdrop]
      simp
    have hall : ((chain.take n).getLast?.map Receipt.sequence).getD 0 < y.sequence := by
      cases hlast : (chain.take n).getLast? with
      | none => exact (hseq.bounds hy).1
      | some x =>
        have hpairs := hseq.pairwise
        rw [← hsplit, hdrop] at hpairs
        exact (pairwise_append.mp hpairs).2.2 x (mem_of_getLast? hlast) y
          mem_cons_self
    have hnot := any_eq_false.mp hmore y hy
    simp [hall] at hnot

/-- A page that is not truncated and behind which no receipt follows has the whole chain, when all
receipts of the chain are of one lineage. -/
theorem readWhole_of_read {db : Native} {contracts : List ContractRow} {receipts : List Receipt}
    {b : ProductionBinding} {admissionId : String} {limit : Int} {readLimit : Option Int}
    {data : HistoryData}
    (hseq : Sequential (receiptsOf receipts b.identity.repository admissionId))
    (hlineage : ∀ r ∈ receiptsOf receipts b.identity.repository admissionId,
      lineage r.binding r.payload.admissionId = lineage b admissionId)
    (h : getLaneProductionHistory host db contracts receipts b admissionId limit readLimit =
      .ok data) (hmore : data.hasMore = false) (htruncated : data.truncationReasons = []) :
    ReadWhole (receiptsOf receipts b.identity.repository admissionId) data := by
  simp only [getLaneProductionHistory, bind_eq_ok, exists_const, require_eq_ok, pure, Except.pure,
    Except.ok.injEq] at h
  obtain ⟨_, -, -, -, _, -, -, -, w, hw, rfl⟩ := h
  rw [historyRows_eq hlineage, hseq.inOrder, hseq.headOf] at hw hmore htruncated ⊢
  generalize receiptsOf receipts b.identity.repository admissionId = chain at *
  have hall : chain.filter (fun r => decide (r.sequence ≤ (chain.length : Int))) = chain :=
    filter_eq_self.mpr fun r hr => by simpa using (hseq.bounds hr).2
  simp only [hall] at hw hmore htruncated ⊢
  have hversion := pageFact_spec host chain "coverage_policy_version" .null w
  generalize pageFact host chain "coverage_policy_version" .null w = p₁ at *
  have hcursors := pageFact_spec host chain "source_cursors" (.obj []) p₁.2
  generalize pageFact host chain "source_cursors" (.obj []) p₁.2 = p₂ at *
  simp only [pageData, Bool.or_eq_false_iff, decide_eq_false_iff_not, not_not]
    at hmore htruncated ⊢
  obtain ⟨hlast, -⟩ := hmore
  have hreasons : p₂.2.reasons = [] := by
    rw [hlast] at htruncated
    simpa [moreReasons] using htruncated
  have hrows : p₂.2.rows = w.rows := hcursors.1.trans hversion.1
  have hw₁ : p₁.2.reasons = [] := (hcursors.2 hreasons).1
  have hpage := pageRows_spec hw (hversion.2 hw₁).1
  rw [show ({} : PageLoop).rows = [] from rfl, nil_append] at hpage
  rw [hrows, hpage] at hlast
  have hwhole := take_eq_self hseq hlast
  rw [hwhole] at hpage
  have hshort : chain.length ≤ maxPageRows := by
    have hlength := congrArg List.length hwhole
    rw [length_take] at hlength
    omega
  exact {
    history := hrows.trans hpage
    total := rfl
    returned := by rw [hrows, hpage]
    head := rfl
    version := (hversion.2 hw₁).2
    openOps := rfl
    page := hshort }

/-- The operations that are prepared and not settled. -/
def openOf (chain : List Receipt) : List String :=
  (chain.filter fun p => p.kind = .prepare
    && ¬ chain.any fun s => settles s p.payload.operationId).map fun p => p.payload.operationId

/-- The operations that are settled. -/
def settledOf (chain : List Receipt) : List String :=
  (chain.filter fun s => s.kind = .settle).map fun s => s.payload.operationId

/-- The interval that a receipt imports from a route. -/
def intervalOf (route : String) (r : Receipt) : Option Json :=
  (Dict.get? r.payload.facts "source_interval").filter fun i => i.get? "route" = some (.str route)

/-- The latest interval that a chain imports from a route. -/
def lastInterval (chain : List Receipt) (route : String) : Option Json :=
  (chain.filterMap (intervalOf route)).getLast?

theorem any_settles {operation : String} :
    (chain.any fun s => settles s operation) = true ↔ operation ∈ settledOf chain := by
  simp only [settledOf, any_eq_true, settles, Bool.and_eq_true, decide_eq_true_eq,
    mem_map, mem_filter]
  constructor
  · rintro ⟨s, hs, hkind, hop⟩
    exact ⟨s, ⟨hs, hkind⟩, hop⟩
  · rintro ⟨s, ⟨hs, hkind⟩, hop⟩
    exact ⟨s, hs, hkind, hop⟩

theorem settledOf_append (chain : List Receipt) (r : Receipt) :
    settledOf (chain ++ [r]) =
      settledOf chain ++ if r.kind = .settle then [r.payload.operationId] else [] := by
  by_cases h : r.kind = .settle <;> simp [settledOf, h]

theorem openOf_append (chain : List Receipt) (r : Receipt) :
    openOf (chain ++ [r]) =
      (openOf chain).filter (fun operation => ¬ settles r operation) ++
        if r.kind = .prepare ∧ r.payload.operationId ∉ settledOf chain then
          [r.payload.operationId] else [] := by
  have hold : ∀ (xs : List Receipt),
      (xs.filter fun p => p.kind = .prepare
        && ¬ (chain ++ [r]).any fun s => settles s p.payload.operationId).map
          (fun p => p.payload.operationId) =
      ((xs.filter fun p => p.kind = .prepare
        && ¬ chain.any fun s => settles s p.payload.operationId).map
          fun p => p.payload.operationId).filter fun operation => ¬ settles r operation := by
    intro xs
    rw [filter_map, filter_filter]
    congr 1
    refine filter_congr fun p _ => ?_
    simp [Bool.and_comm, Bool.and_left_comm]
  rw [openOf, filter_append, map_append, hold]
  congr 1
  by_cases hkind : r.kind = .prepare
  · have hself : settles r r.payload.operationId = false := by simp [settles, hkind]
    have hany : ((chain ++ [r]).any fun s => settles s r.payload.operationId) =
        chain.any fun s => settles s r.payload.operationId := by
      rw [any_append, any_cons, hself, any_nil, Bool.or_false, Bool.or_false]
    by_cases hmem : r.payload.operationId ∈ settledOf chain
    · rw [if_neg fun h => h.2 hmem, filter_cons_of_neg, filter_nil, map_nil]
      rw [hany, any_settles.mpr hmem]
      simp
    · have hnone : (chain.any fun s => settles s r.payload.operationId) = false :=
        eq_false_of_ne_true (mt any_settles.mp hmem)
      rw [if_pos ⟨hkind, hmem⟩, filter_cons_of_pos, filter_nil, map_singleton]
      rw [hany, hnone]
      simp [hkind]
  · simp [hkind]

/-- What a scan knows after a chain. -/
structure Scanned (start : Dict String SourceCursor) (chain : List Receipt) (w : ScanLoop) :
    Prop where
  count : w.count = chain.length
  predecessor : w.predecessor = chain.getLast?.map Receipt.evidenceId
  openOps : w.openOps = openOf chain
  settled : w.settled = settledOf chain
  cursors : ∀ route, w.cursors.get? route = match lastInterval chain route with
    | some interval => (interval.get? "end").bind fun value => (readCursor value).toOption
    | none => start.get? route
  keys : w.cursors.map Prod.fst = start.map Prod.fst

theorem Scanned.start (start : Dict String SourceCursor) :
    Scanned start [] { cursors := start } :=
  ⟨rfl, rfl, rfl, rfl, fun _ => rfl, rfl⟩

theorem member_eq_ok {value x : Json} {key : String} :
    member value key = .ok x ↔ value.get? key = some x := by
  rw [member]
  cases value.get? key with
  | none => simp
  | some y => simp

theorem hashable_eq_ok {value : Json} {reason : CoverageReason} {s : String} :
    hashable value reason = .ok s ↔ value = .str s := by
  cases value <;> simp [hashable]

theorem advance_spec {current stop : SourceCursor}
    (h : advance host policy interval current = .ok stop) :
    ∃ value, interval.get? "end" = some value ∧ readCursor value = .ok stop := by
  simp only [advance, bind_eq_ok, exists_const, require_eq_ok, member_eq_ok, pure, Except.pure,
    Except.ok.injEq] at h
  obtain ⟨_, -, start, -, reached, ⟨value, hvalue, hread⟩, -, -, entries, -, -, w, -, -, rfl⟩ := h
  exact ⟨value, hvalue, hread⟩

theorem scanInterval_spec {kind : ReceiptKind} {cursors cursors' : Dict String SourceCursor}
    (h : scanInterval host policy kind cursors interval = .ok cursors') :
    kind = .settle ∧ ∃ route current stop, interval.get? "route" = some (.str route) ∧
      cursors.get? route = some current ∧ advance host policy interval current = .ok stop ∧
      cursors' = cursors.set route stop := by
  simp only [scanInterval, bind_eq_ok, exists_const, require_eq_ok, member_eq_ok,
    hashable_eq_ok] at h
  obtain ⟨hkind, route, ⟨value, hroute, rfl⟩, h⟩ := h
  split at h
  · cases h
  · rename_i current hcurrent
    simp only [bind_eq_ok, pure, Except.pure, Except.ok.injEq] at h
    obtain ⟨stop, hstop, rfl⟩ := h
    exact ⟨hkind, route, current, stop, hroute, hcurrent, hstop, rfl⟩

/-- What a round of the scan does, when it goes through. -/
structure ScanRow (host : CoverageHost) (policy : CoveragePolicy) (w : ScanLoop) (r : Receipt)
    (w' : ScanLoop) : Prop where
  binding : r.binding = policy.binding ∧ r.payload.admissionId = policy.admissionId
  place : r.sequence = (w.count : Int) + 1 ∧ r.previousEvidenceId = w.predecessor ∧
    r.evidenceId = host.receiptDigest r.payload r.sequence r.previousEvidenceId
  next : w'.count = w.count + 1 ∧ w'.predecessor = some r.evidenceId
  kind : r.kind = .prepare ∧ r.payload.operationId ∉ w.openOps ∧
        r.payload.operationId ∉ w.settled ∧ w'.openOps = w.openOps ++ [r.payload.operationId] ∧
        w'.settled = w.settled ∨
      r.kind = .settle ∧ r.payload.operationId ∈ w.openOps ∧
        w'.openOps = w.openOps.filter (· ≠ r.payload.operationId) ∧
        w'.settled = w.settled ++ [r.payload.operationId] ∨
      (r.kind = .admission ∨ r.kind = .seal) ∧ w'.openOps = w.openOps ∧ w'.settled = w.settled
  cursors : Dict.get? r.payload.facts "source_interval" = none ∧ w'.cursors = w.cursors ∨
    ∃ interval, Dict.get? r.payload.facts "source_interval" = some interval ∧
      scanInterval host policy r.kind w.cursors interval = .ok w'.cursors

theorem scanKind_spec (h : scanKind w r = .ok w') :
    (w'.count = w.count ∧ w'.predecessor = w.predecessor ∧ w'.cursors = w.cursors) ∧
    (r.kind = .prepare ∧ r.payload.operationId ∉ w.openOps ∧
        r.payload.operationId ∉ w.settled ∧ w'.openOps = w.openOps ++ [r.payload.operationId] ∧
        w'.settled = w.settled ∨
      r.kind = .settle ∧ r.payload.operationId ∈ w.openOps ∧
        w'.openOps = w.openOps.filter (· ≠ r.payload.operationId) ∧
        w'.settled = w.settled ++ [r.payload.operationId] ∨
      (r.kind = .admission ∨ r.kind = .seal) ∧ w'.openOps = w.openOps ∧ w'.settled = w.settled) := by
  cases hkind : r.kind with
  | prepare =>
    simp only [scanKind, hkind, bind_eq_ok, exists_const, require_eq_ok, pure, Except.pure,
      Except.ok.injEq] at h
    obtain ⟨⟨hopen, hsettled⟩, rfl⟩ := h
    exact ⟨⟨rfl, rfl, rfl⟩, .inl ⟨rfl, hopen, hsettled, rfl, rfl⟩⟩
  | settle =>
    simp only [scanKind, hkind, bind_eq_ok, exists_const, require_eq_ok, pure, Except.pure,
      Except.ok.injEq] at h
    obtain ⟨hopen, rfl⟩ := h
    exact ⟨⟨rfl, rfl, rfl⟩, .inr (.inl ⟨rfl, hopen, rfl, rfl⟩)⟩
  | gap =>
    simp only [scanKind, hkind] at h
    cases h
  | contractLink =>
    simp only [scanKind, hkind] at h
    cases h
  | admission =>
    simp only [scanKind, hkind, Except.ok.injEq] at h
    subst h
    exact ⟨⟨rfl, rfl, rfl⟩, .inr (.inr ⟨.inl rfl, rfl, rfl⟩)⟩
  | «seal» =>
    simp only [scanKind, hkind, Except.ok.injEq] at h
    subst h
    exact ⟨⟨rfl, rfl, rfl⟩, .inr (.inr ⟨.inr rfl, rfl, rfl⟩)⟩

theorem scanRow_spec (h : scanRow host policy w r = .ok w') : ScanRow host policy w r w' := by
  simp only [scanRow, bind_eq_ok, exists_const, require_eq_ok] at h
  obtain ⟨hbinding, hplace, moved, hmoved, h⟩ := h
  obtain ⟨⟨hcount, hpredecessor, hcursors⟩, hkind⟩ := scanKind_spec hmoved
  split at h
  · rename_i hnone
    obtain rfl : moved = w' := Except.ok.inj h
    exact ⟨hbinding, hplace, ⟨hcount, hpredecessor⟩, hkind, .inl ⟨hnone, hcursors⟩⟩
  · rename_i interval hsome
    simp only [bind_eq_ok, pure, Except.pure, Except.ok.injEq] at h
    obtain ⟨cursors, hscan, rfl⟩ := h
    rw [hcursors] at hscan
    exact ⟨hbinding, hplace, ⟨hcount, hpredecessor⟩, hkind, .inr ⟨interval, hsome, hscan⟩⟩

theorem lastInterval_append (chain : List Receipt) (r : Receipt) (route : String) :
    lastInterval (chain ++ [r]) route =
      (intervalOf route r).or (lastInterval chain route) := by
  rw [lastInterval, filterMap_append]
  cases h : intervalOf route r with
  | none => simp [h, lastInterval]
  | some interval => simp [h]

theorem Scanned.append {start : Dict String SourceCursor} (h : Scanned start chain w)
    (hr : ScanRow host policy w r w') : Scanned start (chain ++ [r]) w' := by
  have hkind : w'.openOps = openOf (chain ++ [r]) ∧ w'.settled = settledOf (chain ++ [r]) := by
    rw [openOf_append, settledOf_append, ← h.openOps, ← h.settled]
    rcases hr.kind with ⟨hkind, -, hsettled, hopen', hsettled'⟩ | ⟨hkind, -, hopen', hsettled'⟩ |
      ⟨hkind, hopen', hsettled'⟩
    · have hkeep : ∀ operation, settles r operation = false := by
        intro operation
        simp [settles, hkind]
      rw [if_pos ⟨hkind, hsettled⟩, if_neg (by rw [hkind]; exact fun h => by cases h)]
      simp [hkeep, hopen', hsettled']
    · rw [if_neg (fun h => by rw [hkind] at h; cases h.1), if_pos hkind]
      refine ⟨?_, hsettled'⟩
      rw [hopen', append_nil]
      refine filter_congr fun operation _ => ?_
      simp [settles, hkind, eq_comm]
    · have hkeep : ∀ operation, settles r operation = false := by
        intro operation
        rcases hkind with hkind | hkind <;> simp [settles, hkind]
      rw [if_neg (fun h => by rcases hkind with hkind | hkind <;> rw [hkind] at h <;> cases h.1),
        if_neg (fun h => by rcases hkind with hkind | hkind <;> rw [hkind] at h <;> cases h)]
      simp [hkeep, hopen', hsettled']
  refine ⟨?_, ?_, hkind.1, hkind.2, fun route => ?_, ?_⟩
  · rw [hr.next.1, h.count, length_append, length_singleton]
  · rw [hr.next.2, getLast?_concat]
    rfl
  · rw [lastInterval_append]
    rcases hr.cursors with ⟨hnone, hsame⟩ | ⟨interval, hsome, hscan⟩
    · have hno : intervalOf route r = none := by
        rw [intervalOf, hnone]
        rfl
      rw [hno, hsame, Option.none_or]
      exact h.cursors route
    · obtain ⟨-, name, current, stop, hname, -, hadvance, heq⟩ := scanInterval_spec hscan
      rw [heq]
      by_cases hroute : name = route
      · obtain rfl := hroute
        have hthis : intervalOf name r = some interval := by
          rw [intervalOf, hsome, Option.filter_some, if_pos (by simp [hname])]
        obtain ⟨value, hvalue, hread⟩ := advance_spec hadvance
        rw [hthis, Option.some_or, Dict.get?_set_self]
        simp [hvalue, hread, Except.toOption]
      · have hno : intervalOf route r = none := by
          rw [intervalOf, hsome, Option.filter_some, if_neg (by simp [hname, hroute])]
        rw [hno, Option.none_or, Dict.get?_set_of_ne _ _ (Ne.symm hroute)]
        exact h.cursors route
  · rcases hr.cursors with ⟨-, hsame⟩ | ⟨interval, -, hscan⟩
    · rw [hsame, h.keys]
    · obtain ⟨-, name, current, stop, -, hcurrent, -, heq⟩ := scanInterval_spec hscan
      rw [heq, Dict.map_fst_set hcurrent, h.keys]

theorem scanned_of_fold {start : Dict String SourceCursor} {rows : List Receipt}
    (h : Scanned start chain w) (hfold : rows.foldlM (scanRow host policy) w = .ok w') :
    Scanned start (chain ++ rows) w' := by
  induction rows generalizing chain w with
  | nil =>
    obtain rfl : w = w' := Except.ok.inj hfold
    rwa [append_nil]
  | cons r rows ih =>
    rw [foldlM_cons] at hfold
    obtain ⟨mid, hmid, hrest⟩ := bind_eq_ok.mp hfold
    have hnext := ih (h.append (scanRow_spec hmid)) hrest
    rwa [append_assoc, singleton_append] at hnext

theorem scanRow_ok {moved : ScanLoop}
    (hbinding : r.binding = policy.binding ∧ r.payload.admissionId = policy.admissionId)
    (hplace : r.sequence = (w.count : Int) + 1 ∧ r.previousEvidenceId = w.predecessor ∧
      r.evidenceId = host.receiptDigest r.payload r.sequence r.previousEvidenceId)
    (hkind : scanKind { w with predecessor := some r.evidenceId, count := w.count + 1 } r =
      .ok moved) (hnone : Dict.get? r.payload.facts "source_interval" = none) :
    scanRow host policy w r = .ok moved := by
  simp only [scanRow, require, hnone, hkind, bind, Except.bind, pure, Except.pure]
  rw [if_pos hbinding, if_pos hplace]

theorem scanRow_interval {moved : ScanLoop} {cursors : Dict String SourceCursor}
    (hbinding : r.binding = policy.binding ∧ r.payload.admissionId = policy.admissionId)
    (hplace : r.sequence = (w.count : Int) + 1 ∧ r.previousEvidenceId = w.predecessor ∧
      r.evidenceId = host.receiptDigest r.payload r.sequence r.previousEvidenceId)
    (hkind : scanKind { w with predecessor := some r.evidenceId, count := w.count + 1 } r =
      .ok moved) (hsome : Dict.get? r.payload.facts "source_interval" = some interval)
    (hscan : scanInterval host policy r.kind moved.cursors interval = .ok cursors) :
    scanRow host policy w r = .ok { moved with cursors } := by
  simp only [scanRow, require, hsome, hkind, hscan, bind, Except.bind, pure, Except.pure]
  rw [if_pos hbinding, if_pos hplace]

end Workbay.Completion

import Workbay.Completion.Production
import Workbay.Completion.Proofs.RecordingProofs

/-!
# The chain of an admission

Receipts are only appended, so a receipt is described by the receipts before it: its place in the
chain of its admission, and the point, an identity with a contract, that the chain had reached. What
the appends check is then read off for each receipt on its own, and is not touched by later ones.
-/

namespace Workbay.Completion

open Effects List

/-- The chain that a receipt is appended to. -/
abbrev chainOf (receipts : List Receipt) (r : Receipt) : List Receipt :=
  receiptsOf receipts r.binding.identity.repository r.payload.admissionId

/-- Receipts are numbered as they are listed. -/
def Sequential (chain : List Receipt) : Prop :=
  chain.map Receipt.sequence = (List.range chain.length).map fun n : Nat => (n : Int) + 1

variable {chain : List Receipt}

theorem Sequential.inOrder (h : Sequential chain) : inOrder chain = chain := by
  have hsorted : (chain.map Receipt.sequence).Pairwise (· ≤ ·) := by
    rw [h, pairwise_map]
    refine (pairwise_lt_range (n := chain.length)).imp fun {a b} hab => ?_
    omega
  exact List.Pairwise.insertionSort_eq (pairwise_map.mp hsorted)

theorem Sequential.pairwise (h : Sequential chain) :
    chain.Pairwise fun a b => a.sequence < b.sequence := by
  have hsorted : (chain.map Receipt.sequence).Pairwise (· < ·) := by
    rw [h, pairwise_map]
    refine (pairwise_lt_range (n := chain.length)).imp fun {a b} hab => ?_
    omega
  exact pairwise_map.mp hsorted

theorem Sequential.inOrder_filter (h : Sequential chain) (p : Receipt → Bool) :
    Completion.inOrder (chain.filter p) = chain.filter p := by
  refine List.Pairwise.insertionSort_eq ?_
  exact (h.pairwise.imp fun {a b} hab => Int.le_of_lt hab).filter p

variable {r : Receipt} {repository admissionId : String}

theorem Sequential.append (h : Sequential chain) (hr : r.sequence = chain.length + 1) :
    Sequential (chain ++ [r]) := by
  rw [Sequential, map_append, h, length_append, length_singleton, range_succ,
    map_append, map_singleton, map_singleton, hr]

theorem Sequential.getLast (h : Sequential chain) (hlast : chain.getLast? = some r) :
    r.sequence = chain.length := by
  have hmap : (chain.map Receipt.sequence).getLast? = some r.sequence := by
    rw [getLast?_map, hlast]
    rfl
  rw [h, getLast?_map, getLast?_range] at hmap
  cases hlen : chain.length with
  | zero => simp [hlen] at hmap
  | succ n => simpa [hlen, eq_comm] using hmap

theorem Sequential.headOf {receipts : List Receipt}
    (h : Sequential (receiptsOf receipts repository admissionId)) :
    Completion.headOf receipts repository admissionId =
      ⟨(receiptsOf receipts repository admissionId).length,
        (receiptsOf receipts repository admissionId).getLast?.map Receipt.evidenceId⟩ := by
  rw [Completion.headOf, h.inOrder]
  cases hlast : (receiptsOf receipts repository admissionId).getLast? with
  | none =>
    rw [getLast?_eq_none_iff.mp hlast]
    rfl
  | some r =>
    simp only [Receipt.head, h.getLast hlast, Option.map_some]

theorem receiptsOf_append (receipts : List Receipt) (r : Receipt)
    (repository admissionId : String) :
    receiptsOf (receipts ++ [r]) repository admissionId =
      receiptsOf receipts repository admissionId ++
        if r.belongs repository admissionId then [r] else [] := by
  cases h : r.belongs repository admissionId <;> simp [receiptsOf, h]

theorem belongs_self (r : Receipt) :
    r.belongs r.binding.identity.repository r.payload.admissionId = true := by
  simp [Receipt.belongs]

theorem chainOf_append_self (receipts : List Receipt) (r : Receipt) :
    receiptsOf (receipts ++ [r]) r.binding.identity.repository r.payload.admissionId =
      chainOf receipts r ++ [r] := by
  rw [receiptsOf_append, if_pos (belongs_self r)]

theorem mem_receiptsOf {receipts : List Receipt} : r ∈ receiptsOf receipts repository admissionId ↔
      r ∈ receipts ∧ r.binding.identity.repository = repository ∧
        r.payload.admissionId = admissionId := by
  simp [receiptsOf, Receipt.belongs]

/-- The latest contract link of a chain. -/
def latestLink (chain : List Receipt) : Option Receipt :=
  (chain.filter (·.kind = .contractLink)).getLast?

/-- The binding that a chain has reached: that of its latest link, or of its root. -/
def pointOf (chain : List Receipt) : Option ProductionBinding :=
  match latestLink chain with
  | some link => some link.binding
  | none => chain.head?.map Receipt.binding

theorem latestLink_mem {link : Receipt} (h : latestLink chain = some link) :
    link ∈ chain ∧ link.kind = .contractLink := by
  have hmem := mem_of_getLast? h
  simpa using mem_filter.mp hmem

theorem latestLink_append (chain : List Receipt) (r : Receipt) :
    latestLink (chain ++ [r]) = if r.kind = .contractLink then some r else latestLink chain := by
  by_cases h : r.kind = .contractLink <;> simp [latestLink, h]

theorem pointOf_append (hne : chain ≠ []) (hr : r.kind ≠ .contractLink) :
    pointOf (chain ++ [r]) = pointOf chain := by
  rw [pointOf, latestLink_append, if_neg hr, pointOf]
  cases chain with
  | nil => exact absurd rfl hne
  | cons first rest => rfl

theorem samePoint_iff {a b : ProductionBinding} : samePoint a b = true ↔
    a.identity = b.identity ∧ a.contractRevision = b.contractRevision ∧
      a.contractHash = b.contractHash := by
  simp [samePoint, and_assoc]

/-! ## A receipt among those before it -/

/-- What the ledger guarantees of a receipt, given the receipts before it. -/
structure Placed (host : ProductionHost) (before : List Receipt) (r : Receipt) : Prop where
  sequence : r.sequence = (chainOf before r).length + 1
  previous : r.previousEvidenceId = (chainOf before r).getLast?.map Receipt.evidenceId
  root : r.kind = .admission ↔ chainOf before r = []
  stored : decodeReceipt host r = .ok r
  fresh : ∀ x ∈ before, x.evidenceId ≠ r.evidenceId ∧ x.idempotencyKey ≠ r.idempotencyKey
  prepare : r.kind = .prepare → ∀ x ∈ chainOf before r, x.kind = .prepare →
    x.payload.operationId ≠ r.payload.operationId
  settle : r.kind = .settle →
    (∃ x ∈ chainOf before r, x.kind = .prepare ∧
      x.payload.operationId = r.payload.operationId) ∧
    ∀ x ∈ chainOf before r, x.kind = .settle → x.payload.operationId ≠ r.payload.operationId
  sealed : r.kind = .seal → ∀ x ∈ chainOf before r, x.kind = .prepare →
    ∃ y ∈ chainOf before r, settles y x.payload.operationId = true
  point : r.kind ≠ .contractLink → ∀ b, pointOf (chainOf before r) = some b →
    samePoint b r.binding = true
  lineage : ∀ x ∈ chainOf before r,
    lineage x.binding x.payload.admissionId = lineage r.binding r.payload.admissionId
  revisions : ∀ x ∈ chainOf before r, x.binding.contractRevision ≤ r.binding.contractRevision

/-- Every receipt has its place among those before it. -/
abbrev WellPlaced (host : ProductionHost) (receipts : List Receipt) : Prop :=
  EachAfter (Placed host) receipts

theorem WellPlaced.placed {host : ProductionHost} {receipts : List Receipt}
    (h : WellPlaced host receipts) {before after : List Receipt}
    (heq : receiptsOf receipts repository admissionId = before ++ r :: after) :
    ∃ earlier, Placed host earlier r ∧ chainOf earlier r = before := by
  have hr : r ∈ receiptsOf receipts repository admissionId := by rw [heq]; simp
  obtain ⟨-, rfl, rfl⟩ := mem_receiptsOf.mp hr
  exact h.filter heq

theorem WellPlaced.sequential {host : ProductionHost} {receipts : List Receipt}
    (h : WellPlaced host receipts) (repository admissionId : String) :
    Sequential (receiptsOf receipts repository admissionId) := by
  induction receipts using List.reverseRecOn with
  | nil => rfl
  | append_singleton receipts r ih =>
    obtain ⟨hreceipts, hr⟩ := EachAfter.append_iff.mp h
    rw [receiptsOf_append]
    by_cases hb : r.belongs repository admissionId = true
    · have hkey := mem_receiptsOf.mp (show r ∈ receiptsOf [r] repository admissionId by
        simp [receiptsOf, hb])
      obtain ⟨-, rfl, rfl⟩ := hkey
      rw [if_pos hb]
      exact (ih hreceipts).append hr.sequence
    · rw [if_neg hb, append_nil]
      exact ih hreceipts

end Workbay.Completion

/-!
## The production ledger

An append that goes through gives the new receipt its place. The one point that the code does not
check at every append is that a receipt at the point of the root is also at the point of the latest
link: it follows from the contracts, whose revisions only grow.
-/

namespace Workbay.Completion

open Effects List

variable {host : ProductionHost} {laneIdOf : Int → String}

/-- A binding names a stored contract of its own identity. -/
def Bound (host : ProductionHost) (laneIdOf : Int → String) (contracts : List ContractRow)
    (b : ProductionBinding) : Prop :=
  (∃ row ∈ contracts, row.taskRef = b.identity.taskRef ∧ row.laneId = b.identity.laneId ∧
    row.revision = b.contractRevision ∧ row.contractHash = b.contractHash ∧
    ∃ record, decode host.toContractHost row = .ok record ∧
      record.contract.identity = b.identity) ∧
  b.identity.laneId = laneIdOf b.identity.laneRowId

/-- A binding names the latest contract. -/
def Current (contracts : List ContractRow) (b : ProductionBinding) : Prop :=
  ∀ row ∈ contracts, row.taskRef = b.identity.taskRef → row.laneId = b.identity.laneId →
    row.revision ≤ b.contractRevision

variable {b : ProductionBinding} {repository admissionId : String}

theorem Bound.append {contracts : List ContractRow} (row : ContractRow)
    (h : Bound host laneIdOf contracts b) : Bound host laneIdOf (contracts ++ [row]) b := by
  obtain ⟨⟨r, hr, hrest⟩, hlane⟩ := h
  exact ⟨⟨r, mem_append_left _ hr, hrest⟩, hlane⟩

theorem decodeContract_eq_ok {row : ContractRow} {detail : String} {contract : CompletionContract}
    (h : decodeContract host row detail = .ok contract) :
    ∃ record, decode host.toContractHost row = .ok record ∧ record.contract = contract := by
  rw [decodeContract] at h
  split at h
  · rename_i record hdecode
    exact ⟨record, hdecode, Except.ok.inj h⟩
  · cases h

theorem validateBinding_spec {db : FixedLanes laneIdOf} {contracts : List ContractRow}
    {nativeCycle : Bool} (h : validateBinding host db.toNative contracts b nativeCycle = .ok ()) :
    Bound host laneIdOf contracts b ∧ Current contracts b := by
  simp only [validateBinding, bind_eq_ok, exists_const, require_eq_ok] at h
  obtain ⟨⟨hlane, -⟩, h⟩ := h
  rw [Option.any_eq_true] at hlane
  obtain ⟨lane, hfind, hmatches⟩ := hlane
  have hmem : lane ∈ db.lanes := mem_of_find?_eq_some hfind
  have hid : lane.id = b.identity.laneRowId := by
    have := find?_some hfind
    simpa using this
  have hlaneId : b.identity.laneId = laneIdOf b.identity.laneRowId := by
    simp only [LaneRow.matchesIdentity, Bool.and_eq_true, decide_eq_true_eq] at hmatches
    rw [← hmatches.1.1.1.1.2, db.fixed lane hmem, hid]
  split at h
  · cases h
  · rename_i row hlatest
    simp only [bind_eq_ok, exists_const, require_eq_ok] at h
    obtain ⟨⟨hrev, hhash⟩, contract, hdecode, hidentity, -⟩ := h
    obtain ⟨record, hrecord, rfl⟩ := decodeContract_eq_ok hdecode
    obtain ⟨⟨hrow, htask, hlane⟩, hmax⟩ := latest_spec hlatest
    refine ⟨⟨⟨row, hrow, htask, hlane, hrev, hhash, record, hrecord, hidentity⟩, hlaneId⟩, ?_⟩
    intro r hr hrtask hrlane
    rw [← hrev]
    exact hmax r hr hrtask hrlane

theorem Numbered.unique {contracts : List ContractRow} (h : Numbered contracts)
    {a b : ContractRow} (ha : a ∈ contracts) (hb : b ∈ contracts) (htask : a.taskRef = b.taskRef)
    (hlane : a.laneId = b.laneId) (hrev : a.revision = b.revision) : a = b := by
  have hnodup : ((laneRows contracts b.taskRef b.laneId).map ContractRow.revision).Nodup := by
    rw [h, nodup_map_iff_inj_on nodup_range]
    intro m _ n _ heq
    omega
  exact inj_on_of_nodup_map hnodup (mem_laneRows.mpr ⟨ha, htask, hlane⟩)
    (mem_laneRows.mpr ⟨hb, rfl, rfl⟩) hrev

theorem Bound.samePoint {contracts : List ContractRow} {a : ProductionBinding}
    (hnum : Numbered contracts) (ha : Bound host laneIdOf contracts a)
    (hb : Bound host laneIdOf contracts b) (htask : a.identity.taskRef = b.identity.taskRef)
    (hlane : a.identity.laneId = b.identity.laneId) (hrev : a.contractRevision = b.contractRevision) :
    samePoint a b = true := by
  obtain ⟨⟨ra, hra, hat, hal, har, hah, reca, hdeca, hia⟩, -⟩ := ha
  obtain ⟨⟨rb, hrb, hbt, hbl, hbr, hbh, recb, hdecb, hib⟩, -⟩ := hb
  have hrows : ra = rb := hnum.unique hra hrb (by rw [hat, hbt, htask]) (by rw [hal, hbl, hlane])
    (by rw [har, hbr, hrev])
  subst hrows
  obtain rfl : reca = recb := Except.ok.inj (hdeca.symm.trans hdecb)
  exact samePoint_iff.mpr ⟨hia.symm.trans hib, hrev, hah.symm.trans hbh⟩

/-- What holds of the ledger after any calls. -/
structure LedgerInv (host : ProductionHost) (laneIdOf : Int → String)
    (contracts : List ContractRow) (receipts : List Receipt) : Prop where
  recorded : Checked host.toContractHost contracts
  placed : WellPlaced host receipts
  bound : ∀ r ∈ receipts, Bound host laneIdOf contracts r.binding

variable {contracts : List ContractRow} {receipts : List Receipt}

theorem LedgerInv.root_iff (h : LedgerInv host laneIdOf contracts receipts)
    {before after : List Receipt} {r : Receipt}
    (heq : receiptsOf receipts repository admissionId = before ++ r :: after) :
    r.kind = .admission ↔ before = [] := by
  obtain ⟨earlier, hplaced, hbefore⟩ := h.placed.placed heq
  rw [hplaced.root, hbefore]

theorem LedgerInv.admission_eq (h : LedgerInv host laneIdOf contracts receipts)
    (repository admissionId : String) :
    (inOrder ((receiptsOf receipts repository admissionId).filter (·.kind = .admission))).head? =
      (receiptsOf receipts repository admissionId).head? := by
  rw [(h.placed.sequential repository admissionId).inOrder_filter]
  cases hchain : receiptsOf receipts repository admissionId with
  | nil => rfl
  | cons root rest =>
    have hsplit : receiptsOf receipts repository admissionId = [] ++ root :: rest := hchain
    have hroot : root.kind = .admission := (h.root_iff hsplit).mpr rfl
    simp [hroot]

variable {root : Receipt} {rest : List Receipt}

/-- All receipts of a chain have the lineage of its root. -/
theorem LedgerInv.lineage_root (h : LedgerInv host laneIdOf contracts receipts)
    (heq : receiptsOf receipts repository admissionId = root :: rest) {x : Receipt}
    (hx : x ∈ root :: rest) :
    lineage root.binding root.payload.admissionId = lineage x.binding x.payload.admissionId := by
  rcases mem_cons.mp hx with rfl | hx
  · rfl
  · obtain ⟨first, second, hrest⟩ := append_of_mem hx
    have hsplit : receiptsOf receipts repository admissionId = (root :: first) ++ x :: second := by
      rw [heq, hrest]
      rfl
    obtain ⟨earlier, hplaced, hbefore⟩ := h.placed.placed hsplit
    exact hplaced.lineage root (by rw [hbefore]; exact mem_cons_self)

/-- A current binding with the revision of the root is at the point of the chain. -/
theorem LedgerInv.point_of_root (h : LedgerInv host laneIdOf contracts receipts)
    (heq : receiptsOf receipts repository admissionId = root :: rest)
    (hsame : samePoint root.binding b = true)
    (hlineage : lineage root.binding admissionId = lineage b admissionId)
    (hbound : Bound host laneIdOf contracts b) (hcurrent : Current contracts b)
    {point : ProductionBinding} (hpoint : pointOf (root :: rest) = some point) :
    samePoint point b = true := by
  rw [pointOf] at hpoint
  cases hlink : latestLink (root :: rest) with
  | none =>
    rw [hlink] at hpoint
    obtain rfl : root.binding = point := Option.some.inj hpoint
    exact hsame
  | some link =>
    rw [hlink] at hpoint
    obtain rfl : link.binding = point := Option.some.inj hpoint
    obtain ⟨hmem, hkind⟩ := latestLink_mem hlink
    -- the link is not the root, so its revision is at least that of the root
    obtain ⟨before, after, hsplit⟩ := append_of_mem hmem
    have hchain : receiptsOf receipts repository admissionId = before ++ link :: after := by
      rw [heq, hsplit]
    have hne : before ≠ [] := by
      intro hnil
      have hadmission := (h.root_iff hchain).mpr hnil
      rw [hkind] at hadmission
      cases hadmission
    have hroot : root ∈ before := by
      cases before with
      | nil => exact absurd rfl hne
      | cons first others =>
        obtain ⟨rfl, -⟩ := List.cons.inj hsplit
        exact mem_cons_self
    obtain ⟨earlier, hplaced, hbefore⟩ := h.placed.placed hchain
    have hge : root.binding.contractRevision ≤ link.binding.contractRevision :=
      hplaced.revisions root (by rw [hbefore]; exact hroot)
    -- and at most that of the current contract, which is the root's as well
    have hlinkMem : link ∈ receipts := (mem_receiptsOf.mp (heq ▸ hmem)).1
    have hlinkBound := h.bound link hlinkMem
    have hlin := h.lineage_root heq hmem
    simp only [lineage, Lineage.mk.injEq] at hlin hlineage
    have htask : link.binding.identity.taskRef = b.identity.taskRef :=
      hlin.2.1.symm.trans hlineage.2.1
    have hrow : link.binding.identity.laneRowId = b.identity.laneRowId :=
      hlin.2.2.1.symm.trans hlineage.2.2.1
    have hlane : link.binding.identity.laneId = b.identity.laneId := by
      rw [hlinkBound.2, hbound.2, hrow]
    have hle : link.binding.contractRevision ≤ b.contractRevision := by
      obtain ⟨⟨row, hrow, hrt, hrl, hrr, -⟩, -⟩ := hlinkBound
      rw [← hrr]
      exact hcurrent row hrow (hrt.trans htask) (hrl.trans hlane)
    have heqRev := (samePoint_iff.mp hsame).2.1
    exact hlinkBound.samePoint h.recorded.numbered hbound htask hlane (by omega)

/-- The binding that the walk is at, after some receipts. -/
def walkPoint (start : ProductionBinding) (chain : List Receipt) : ProductionBinding :=
  chain.foldl (fun point r => if r.kind = .contractLink then r.binding else point) start

theorem walkPoint_eq (start : ProductionBinding) (chain : List Receipt) :
    walkPoint start chain = ((latestLink chain).map Receipt.binding).getD start := by
  induction chain using List.reverseRecOn with
  | nil => rfl
  | append_singleton chain r ih =>
    rw [walkPoint, foldl_append, foldl_cons, foldl_nil, latestLink_append]
    by_cases hr : r.kind = .contractLink
    · rw [if_pos hr, if_pos hr]
      rfl
    · rw [if_neg hr, if_neg hr]
      exact ih

theorem walkReceipt_spec {retained : ProductionBinding} {w w' : LinkWalk} {r : Receipt}
    (h : walkReceipt host contracts retained admissionId w r = .ok w') : w'.count = w.count + 1 ∧
      w'.point = if r.kind = .contractLink then r.binding else w.point := by
  simp only [walkReceipt, decodeReceipt, bind_eq_ok, exists_const, require_eq_ok, pure,
    Except.pure, Except.ok.injEq] at h
  obtain ⟨-, -, record, ⟨-, rfl⟩, -, _, -, -, _, -, -, moved, hmoved, rfl⟩ := h
  refine ⟨rfl, ?_⟩
  by_cases hkind : r.kind = .contractLink
  · simp only [walkPayload, if_pos hkind, walkLink, bind_eq_ok, exists_const, require_eq_ok, pure,
      Except.pure, Except.ok.injEq] at hmoved
    obtain ⟨-, -, -, -, rfl⟩ := hmoved
    rw [if_pos hkind]
  · simp only [walkPayload, if_neg hkind, bind_eq_ok, exists_const, require_eq_ok, pure,
      Except.pure, Except.ok.injEq] at hmoved
    obtain ⟨-, rfl⟩ := hmoved
    rw [if_neg hkind]

theorem walk_spec {retained : ProductionBinding} {rows : List Receipt} {w w' : LinkWalk}
    (h : rows.foldlM (walkReceipt host contracts retained admissionId) w = .ok w') :
    w'.count = w.count + rows.length ∧ w'.point = walkPoint w.point rows := by
  induction rows generalizing w with
  | nil =>
    obtain rfl : w = w' := Except.ok.inj h
    exact ⟨rfl, rfl⟩
  | cons r rows ih =>
    rw [foldlM_cons] at h
    obtain ⟨mid, hmid, hrest⟩ := bind_eq_ok.mp h
    obtain ⟨hcount, hpoint⟩ := walkReceipt_spec hmid
    obtain ⟨hcount', hpoint'⟩ := ih hrest
    refine ⟨by rw [hcount', hcount, length_cons]; omega, ?_⟩
    rw [hpoint', hpoint]
    rfl

/-- A binding to which the walk leads is at the point of the chain. -/
theorem LedgerInv.point_of_resolve (h : LedgerInv host laneIdOf contracts receipts) {db : Native}
    {answer : ProductionBinding × Nat}
    (heq : receiptsOf receipts root.binding.identity.repository root.payload.admissionId =
      root :: rest)
    (hresolve : resolveCurrentBinding host db contracts receipts root b = .ok answer)
    {point : ProductionBinding} (hpoint : pointOf (root :: rest) = some point) :
    samePoint point b = true := by
  have hseq := h.placed.sequential root.binding.identity.repository root.payload.admissionId
  simp only [resolveCurrentBinding, bind_eq_ok, exists_const, require_eq_ok] at hresolve
  obtain ⟨_, -, _, -, -, -, _, -, hcap, w, hwalk, ⟨hcount, -⟩, hsame, -⟩ := hresolve
  rw [hseq.headOf] at hcap hcount
  rw [hseq.inOrder] at hwalk
  have hlen : (receiptsOf receipts root.binding.identity.repository
      root.payload.admissionId).length ≤ maxPageRows * maxPages + 1 :=
    Nat.le_succ_of_le (Int.ofNat_le.mp hcap)
  rw [take_of_length_le hlen, heq] at hwalk
  obtain ⟨-, hw⟩ := walk_spec hwalk
  rw [hw, walkPoint_eq] at hsame
  rw [pointOf] at hpoint
  cases hlink : latestLink (root :: rest) with
  | none =>
    rw [hlink] at hpoint hsame
    obtain rfl : root.binding = point := Option.some.inj hpoint
    exact hsame
  | some link =>
    rw [hlink] at hpoint hsame
    obtain rfl : link.binding = point := Option.some.inj hpoint
    exact hsame

end Workbay.Completion

import Workbay.Completion.Proofs.LedgerProofs

/-!
# Appending to the ledger

What the checks of an append establish about its payload, and the place that the insert gives it. A
prepare that invalidates a seal inserts two receipts, and both have their place.
-/

namespace Workbay.Completion

open Effects List

variable {host : ProductionHost} {laneIdOf : Int → String} {contracts : List ContractRow}
  {receipts : List Receipt}

/-- The chain that a payload is appended to. -/
abbrev chainFor (receipts : List Receipt) (p : ProductionPayload) : List Receipt :=
  receiptsOf receipts p.binding.identity.repository p.admissionId

/-- What the checks establish about a payload and the chain that it is appended to. -/
structure Admissible (chain : List Receipt) (p : ProductionPayload) : Prop where
  root : p.evidenceKind = .admission ↔ chain = []
  prepare : p.evidenceKind = .prepare → ∀ x ∈ chain, x.kind = .prepare →
    x.payload.operationId ≠ p.operationId
  settle : p.evidenceKind = .settle →
    (∃ x ∈ chain, x.kind = .prepare ∧ x.payload.operationId = p.operationId) ∧
    ∀ x ∈ chain, x.kind = .settle → x.payload.operationId ≠ p.operationId
  sealed : p.evidenceKind = .seal → ∀ x ∈ chain, x.kind = .prepare →
    ∃ y ∈ chain, settles y x.payload.operationId = true
  point : p.evidenceKind ≠ .contractLink → ∀ b, pointOf chain = some b →
    samePoint b p.binding = true
  lineage : ∀ x ∈ chain,
    lineage x.binding x.payload.admissionId = lineage p.binding p.admissionId
  revisions : ∀ x ∈ chain, x.binding.contractRevision ≤ p.binding.contractRevision

variable {r : Receipt} {p : ProductionPayload}

variable {record : Receipt} {chain : List Receipt} {kind : ReceiptKind} {request : ProductionAppend}

theorem decodeReceipt_eq_ok : decodeReceipt host r = .ok record ↔ record = r ∧
      r.evidenceId = host.receiptDigest r.payload r.sequence r.previousEvidenceId ∧
      r.idempotencyKey = idempotency host r.payload := by
  simp only [decodeReceipt, bind_eq_ok, exists_const, require_eq_ok, pure, Except.pure,
    Except.ok.injEq]
  exact ⟨fun h => ⟨h.2.symm, h.1⟩, fun h => ⟨h.2, h.1.symm⟩⟩

theorem settled_of_open_eq_zero (hseq : Sequential chain)
    (h : openOperations chain chain.length = 0) {x : Receipt} (hx : x ∈ chain)
    (hkind : x.kind = .prepare) : ∃ y ∈ chain, settles y x.payload.operationId = true := by
  have hle : x.sequence ≤ chain.length := by
    have hmem : x.sequence ∈ chain.map Receipt.sequence := mem_map_of_mem hx
    rw [hseq] at hmem
    obtain ⟨n, hn, hxn⟩ := mem_map.mp hmem
    have hlt := mem_range.mp hn
    omega
  have hnil := length_eq_zero_iff.mp h
  have hnot := filter_eq_nil_iff.mp hnil x hx
  simp only [hkind, hle, decide_true, Bool.true_and, Bool.and_eq_true, decide_eq_true_eq,
    not_not, Bool.not_eq_true, Bool.not_eq_false, any_eq_true] at hnot
  obtain ⟨y, hy, hsettles, -⟩ := hnot
  exact ⟨y, hy, hsettles⟩

theorem checkAppend_spec (h : LedgerInv host laneIdOf contracts receipts) {db : Native}
    (hbound : Bound host laneIdOf contracts p.binding) (hcurrent : Current contracts p.binding)
    (hcheck : checkAppend host db contracts receipts p = .ok ()) :
    Admissible (chainFor receipts p) p ∧
      headOf receipts p.binding.identity.repository p.admissionId = p.expectedHead := by
  have hseq := h.placed.sequential p.binding.identity.repository p.admissionId
  have hadmission := h.admission_eq p.binding.identity.repository p.admissionId
  rw [checkAppend, bind_eq_ok] at hcheck
  obtain ⟨_, hroot, hcheck⟩ := hcheck
  simp only [bind_eq_ok, exists_const, require_eq_ok] at hcheck
  obtain ⟨hphase, hprepared, hhead, hopen⟩ := hcheck
  rw [checkRoot, hadmission] at hroot
  -- what the checks on the operation say, whatever the root is
  have hsame : p.evidenceKind = .prepare ∨ p.evidenceKind = .settle → ∀ x ∈ chainFor receipts p,
      x.kind = p.evidenceKind → x.payload.operationId ≠ p.operationId := by
    intro hkind x hx hxkind hop
    rcases hphase with hneither | hnone
    · exact hneither hkind
    · exact hnone (any_eq_true.mpr ⟨x, hx, by simp [hop, hxkind]⟩)
  have hsealed : p.evidenceKind = .seal → ∀ x ∈ chainFor receipts p, x.kind = .prepare →
      ∃ y ∈ chainFor receipts p, settles y x.payload.operationId = true := by
    intro hkind x hx hxkind
    rcases hopen with hne | hzero
    · exact absurd hkind hne
    · rw [hseq.headOf] at hzero
      exact settled_of_open_eq_zero hseq hzero hx hxkind
  have hsettle : p.evidenceKind = .settle → ∃ x ∈ chainFor receipts p, x.kind = .prepare ∧
      x.payload.operationId = p.operationId := by
    intro hkind
    rcases hprepared with hne | hany
    · exact absurd hkind hne
    · obtain ⟨x, hx, hxop⟩ := any_eq_true.mp hany
      simp only [Bool.and_eq_true, decide_eq_true_eq] at hxop
      exact ⟨x, hx, hxop.2, hxop.1⟩
  refine ⟨?_, hhead⟩
  cases hchain : chainFor receipts p with
  | nil =>
    rw [show receiptsOf receipts p.binding.identity.repository p.admissionId = [] from hchain]
      at hroot
    simp only [head?_nil, require_eq_ok] at hroot
    refine ⟨by simp [hroot], ?_, ?_, ?_, ?_, ?_, ?_⟩ <;> simp [hroot, pointOf, latestLink]
  | cons root rest =>
    have heq : receiptsOf receipts p.binding.identity.repository p.admissionId = root :: rest :=
      hchain
    rw [heq] at hroot
    simp only [head?_cons, bind_eq_ok, exists_const, require_eq_ok, decodeReceipt_eq_ok]
      at hroot
    obtain ⟨hkind, record, ⟨rfl, -⟩, hlineage, hresolve⟩ := hroot
    have hmem : record ∈ receiptsOf receipts p.binding.identity.repository p.admissionId := by
      rw [heq]
      exact mem_cons_self
    obtain ⟨-, hrepo, hadm⟩ := mem_receiptsOf.mp hmem
    have hlin : ∀ x ∈ record :: rest,
        lineage x.binding x.payload.admissionId = lineage p.binding p.admissionId := by
      intro x hx
      rw [← h.lineage_root heq hx, hadm, hlineage]
    refine {
      root := by simp [hkind]
      prepare := fun hp x hx hxk => hsame (.inl hp) x (by rw [hchain]; exact hx)
        (by rw [hxk, hp])
      settle := fun hp => ⟨by rw [← hchain]; exact hsettle hp, fun x hx hxk =>
        hsame (.inr hp) x (by rw [hchain]; exact hx) (by rw [hxk, hp])⟩
      sealed := fun hp => by rw [← hchain]; exact hsealed hp
      point := ?_
      lineage := hlin
      revisions := ?_ }
    · intro hlink b hb
      by_cases hpoint : samePoint record.binding p.binding = true
      · exact h.point_of_root heq hpoint hlineage hbound hcurrent hb
      · rw [if_pos ⟨hlink, hpoint⟩] at hresolve
        obtain ⟨answer, hanswer, -⟩ := bind_eq_ok.mp hresolve
        exact h.point_of_resolve (by rw [hrepo, hadm]; exact heq) hanswer hb
    · intro x hx
      have hxmem : x ∈ receipts := (mem_receiptsOf.mp (heq ▸ hx)).1
      have hxlin := hlin x hx
      simp only [lineage, Lineage.mk.injEq] at hxlin
      obtain ⟨⟨row, hrow, htask, hlane, hrev, -⟩, hfixed⟩ := h.bound x hxmem
      rw [← hrev]
      exact hcurrent row hrow (htask.trans hxlin.2.1)
        (hlane.trans (by rw [hfixed, hbound.2, hxlin.2.2.1]))

theorem insertReceipt_spec {head : ProductionHead} {result : Receipt × List Receipt}
    (h : insertReceipt host receipts p head = .ok result) :
    result = (receiptAt host p head, receipts ++ [receiptAt host p head]) ∧
      admitsReceipt receipts (receiptAt host p head) = true := by
  simp only [insertReceipt, bind_eq_ok, exists_const, require_eq_ok, decodeReceipt_eq_ok, pure,
    Except.pure, Except.ok.injEq] at h
  obtain ⟨⟨hadmits, -⟩, record, ⟨rfl, -⟩, rfl⟩ := h
  exact ⟨rfl, hadmits⟩

theorem admits_fresh (h : admitsReceipt receipts r = true) {x : Receipt} (hx : x ∈ receipts) :
    x.evidenceId ≠ r.evidenceId ∧ x.idempotencyKey ≠ r.idempotencyKey := by
  have hall := all_eq_true.mp h x hx
  simp only [Bool.and_eq_true, decide_eq_true_eq] at hall
  exact hall.1

theorem placed_receiptAt (h : WellPlaced host receipts) (hp : Admissible (chainFor receipts p) p)
    {head : ProductionHead}
    (hhead : headOf receipts p.binding.identity.repository p.admissionId = head)
    (hadmits : admitsReceipt receipts (receiptAt host p head) = true) :
    Placed host receipts (receiptAt host p head) := by
  have hseq := h.sequential p.binding.identity.repository p.admissionId
  rw [hseq.headOf] at hhead
  subst hhead
  exact {
    sequence := rfl
    previous := rfl
    root := hp.root
    stored := decodeReceipt_eq_ok.mpr ⟨rfl, rfl, rfl⟩
    fresh := fun x hx => admits_fresh hadmits hx
    prepare := hp.prepare
    settle := hp.settle
    sealed := hp.sealed
    point := hp.point
    lineage := hp.lineage
    revisions := hp.revisions }

theorem head_of_placed (h : WellPlaced host receipts) (hr : Placed host receipts r) :
    headOf (receipts ++ [r]) r.binding.identity.repository r.payload.admissionId = r.head := by
  have hall : WellPlaced host (receipts ++ [r]) := EachAfter.append_iff.mpr ⟨h, hr⟩
  rw [(hall.sequential _ _).headOf, chainOf_append_self, Receipt.head, hr.sequence]
  simp

/-- The gap behind a seal is admissible whenever the prepare is. -/
theorem Admissible.invalidation (hp : Admissible chain p) (hkind : p.evidenceKind = .prepare)
    (s : Receipt) : Admissible chain (invalidation p s) where
  root := by
    have hne : chain ≠ [] := fun hnil => by
      have hadmission := hp.root.mpr hnil
      rw [hkind] at hadmission
      cases hadmission
    simp [Completion.invalidation, hne]
  prepare := fun h => by cases h
  settle := fun h => by cases h
  sealed := fun h => by cases h
  point := fun _ b hb => hp.point (by rw [hkind]; exact fun h => by cases h) b hb
  lineage := hp.lineage
  revisions := hp.revisions

theorem Admissible.behind (hp : Admissible chain p) (hkind : p.evidenceKind = .prepare)
    {gap : Receipt} (hgap : gap.kind = .gap) (hbinding : gap.binding = p.binding)
    (hadm : gap.payload.admissionId = p.admissionId) : Admissible (chain ++ [gap]) p where
  root := by simp [hkind]
  prepare := fun _ x hx hxk => by
    rcases mem_append.mp hx with hx | hx
    · exact hp.prepare hkind x hx hxk
    · rw [mem_singleton.mp hx, hgap] at hxk
      cases hxk
  settle := fun h => by rw [hkind] at h; cases h
  sealed := fun h => by rw [hkind] at h; cases h
  point := fun hlink b hb => by
    have hne : chain ≠ [] := fun hnil => by
      have hadmission := hp.root.mpr hnil
      rw [hkind] at hadmission
      cases hadmission
    rw [pointOf_append hne (by rw [hgap]; exact fun h => by cases h)] at hb
    exact hp.point hlink b hb
  lineage := fun x hx => by
    rcases mem_append.mp hx with hx | hx
    · exact hp.lineage x hx
    · rw [mem_singleton.mp hx, hbinding, hadm]
  revisions := fun x hx => by
    rcases mem_append.mp hx with hx | hx
    · exact hp.revisions x hx
    · rw [mem_singleton.mp hx, hbinding]

/-- What an append that goes through adds: the receipt of its payload, behind the gap that
invalidates the last standing seal if it is a prepare and there is one. -/
inductive Added (host : ProductionHost) (receipts : List Receipt) (p : ProductionPayload) :
    Receipt → List Receipt → Prop where
  | one (r : Receipt) (hr : r = receiptAt host p p.expectedHead)
      (hseal : p.evidenceKind = .prepare → standingSeals (chainFor receipts p) = [])
      (hplaced : Placed host receipts r) : Added host receipts p r (receipts ++ [r])
  | behindGap (s gap r : Receipt) (hkind : p.evidenceKind = .prepare)
      (hs : (standingSeals (chainFor receipts p)).getLast? = some s)
      (hgap : gap = receiptAt host (invalidation p s) p.expectedHead)
      (hr : r = receiptAt host p gap.head) (hgapPlaced : Placed host receipts gap)
      (hplaced : Placed host (receipts ++ [gap]) r) :
      Added host receipts p r (receipts ++ [gap] ++ [r])

theorem insertAt_spec (h : WellPlaced host receipts) (hp : Admissible (chainFor receipts p) p)
    (hhead : headOf receipts p.binding.identity.repository p.admissionId = p.expectedHead)
    {receipts' : List Receipt}
    (hinsert : insertAt host receipts p p.expectedHead = .ok (record, receipts')) :
    Added host receipts p record receipts' := by
  rw [insertAt] at hinsert
  split at hinsert
  · rename_i hnone
    obtain ⟨heq, hadmits⟩ := insertReceipt_spec hinsert
    obtain ⟨rfl, rfl⟩ := Prod.mk.inj heq
    refine .one _ rfl (fun hkind => ?_) (placed_receiptAt h hp hhead hadmits)
    rw [if_pos hkind] at hnone
    exact getLast?_eq_none_iff.mp hnone
  · rename_i s hsome
    have hkind : p.evidenceKind = .prepare := by
      by_contra hne
      rw [if_neg hne] at hsome
      cases hsome
    rw [if_pos hkind] at hsome
    simp only [bind_eq_ok, decodeReceipt_eq_ok] at hinsert
    obtain ⟨standing, ⟨rfl, -⟩, gap, hgap, hlast⟩ := hinsert
    obtain ⟨rfl, hgapAdmits⟩ := insertReceipt_spec hgap
    obtain ⟨heq, hadmits⟩ := insertReceipt_spec hlast
    obtain ⟨rfl, rfl⟩ := Prod.mk.inj heq
    have hgapPlaced : Placed host receipts
        (receiptAt host (invalidation p standing) p.expectedHead) :=
      placed_receiptAt h (hp.invalidation hkind standing) hhead hgapAdmits
    have hall : WellPlaced host
        (receipts ++ [receiptAt host (invalidation p standing) p.expectedHead]) :=
      EachAfter.append_iff.mpr ⟨h, hgapPlaced⟩
    refine .behindGap standing _ _ hkind hsome rfl rfl hgapPlaced
      (placed_receiptAt hall ?_ (head_of_placed h hgapPlaced) hadmits)
    have hchain : chainFor
        (receipts ++ [receiptAt host (invalidation p standing) p.expectedHead]) p =
        chainFor receipts p ++ [receiptAt host (invalidation p standing) p.expectedHead] :=
      chainOf_append_self receipts (receiptAt host (invalidation p standing) p.expectedHead)
    rw [hchain]
    exact hp.behind hkind rfl rfl rfl

theorem prepared_spec (h : prepared kind request = .ok p) :
    p.evidenceKind = kind ∧ p.operationPhase = kind.phase ∧
      p.binding = request.binding ∧ p.admissionId = request.admissionId ∧
      p.operationId = request.operationId := by
  simp only [prepared, bind_eq_ok, exists_const, require_eq_ok, pure, Except.pure,
    Except.ok.injEq] at h
  obtain ⟨_, -, -, -, -, -, -, -, rfl⟩ := h
  exact ⟨rfl, rfl, rfl, rfl, rfl⟩

theorem prepared_facts (h : prepared kind request = .ok p) :
    p.facts = Json.sortMembers request.facts ∧ p.producerVersion = request.producerVersion := by
  simp only [prepared, bind_eq_ok, exists_const, require_eq_ok, pure, Except.pure,
    Except.ok.injEq] at h
  obtain ⟨_, -, -, -, -, -, -, -, rfl⟩ := h
  refine ⟨?_, rfl⟩
  rw [Json.sortKeys]
  rfl

/-- An append that returns a record leaves the receipts, and returns one of them that has the
payload, or adds to them. -/
theorem appendReceipt_spec (h : LedgerInv host laneIdOf contracts receipts)
    {db : FixedLanes laneIdOf} {receipts' : List Receipt}
    (happend : appendReceipt host db.toNative contracts receipts kind request =
      .ok (record, receipts')) :
    ∃ p, prepared kind request = .ok p ∧ Bound host laneIdOf contracts p.binding ∧
      (receipts' = receipts ∧ record ∈ receipts ∧ record.payload = p ∨
        checkAppend host db.toNative contracts receipts p = .ok () ∧
          Added host receipts p record receipts') := by
  simp only [appendReceipt, bind_eq_ok] at happend
  obtain ⟨p, hp, _, hvalid, happend⟩ := happend
  obtain ⟨hbound, hcurrent⟩ := validateBinding_spec hvalid
  refine ⟨p, hp, hbound, ?_⟩
  split at happend
  · rename_i existing hfind
    simp only [bind_eq_ok, exists_const, require_eq_ok, decodeReceipt_eq_ok, pure, Except.pure,
      Except.ok.injEq, Prod.mk.injEq] at happend
    obtain ⟨r, ⟨rfl, -⟩, hpayload, rfl, rfl⟩ := happend
    exact .inl ⟨rfl, mem_of_find?_eq_some hfind, hpayload⟩
  · obtain ⟨_, hcheck, hinsert⟩ := bind_eq_ok.mp happend
    obtain ⟨hadmissible, hhead⟩ := checkAppend_spec h hbound hcurrent hcheck
    rw [hhead] at hinsert
    exact .inr ⟨hcheck, insertAt_spec h.placed hadmissible hhead hinsert⟩

end Workbay.Completion

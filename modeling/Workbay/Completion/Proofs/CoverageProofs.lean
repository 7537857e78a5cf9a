import Workbay.Completion.Proofs.HistoryProofs

/-!
# What is recorded is covered

The writer of a history and its validator follow the same receipts. A prepare leaves an operation
open until it is imported, and an import is recorded only if the history before it can be scanned.
So a history without an open operation can be scanned, whatever was refused on the way.
-/

namespace Workbay.Completion

open Effects List

variable {host : CoverageHost} {policy : CoveragePolicy} {laneIdOf : Int → String}

/-- A policy of this version that names routes, none twice, and a cursor for each to reach. -/
structure PolicyReady (policy : CoveragePolicy) : Prop where
  version : policy.version = policyVersion
  routes : policy.routes ≠ [] ∧ policy.routes.Nodup
  assessed : sameElements (policy.assessmentCursors.map Prod.fst) policy.routes = true

/-- The facts of an admission declare the version, the routes and the start cursors of the policy,
and no interval; its producer can record every route. -/
structure Declares (policy : CoveragePolicy) (producerVersion : String) (facts : Facts) : Prop where
  version : Dict.get? facts "coverage_policy_version" = some (.str policy.version)
  routes : ∃ names, Dict.get? facts "routes" = some (.arr (names.map Json.str)) ∧
    sameElements names policy.routes = true
  cursors : ∃ members, Dict.get? facts "source_cursors" = some (.obj members) ∧
    (members.map Prod.fst).Nodup ∧ sameElements (members.map Prod.fst) policy.routes = true ∧
    ∀ kv ∈ members, ∃ c, readCursor kv.2 = .ok c
  capable : ∀ route ∈ policy.routes, ∃ versions,
    policy.registry.get? route = some ⟨versions, .trustedExternal⟩ ∧
    producerVersion ∈ versions
  interval : Dict.get? facts "source_interval" = none

/-- The calls of one admission under a policy, with the facts as they are stored: an admission that
declares the policy, prepares, and seals without an interval or another version. Settlements come
from imports only; other tables change at will. -/
def FollowsPolicy (policy : CoveragePolicy) : CoverageCall laneIdOf → Prop
  | .ledger (.append kind request) =>
    request.binding = policy.binding ∧ request.admissionId = policy.admissionId ∧
      (kind = .admission ∧
          Declares policy request.producerVersion (Json.sortMembers request.facts) ∨
        kind = .prepare ∨
        kind = .seal ∧ Dict.get? request.facts "source_interval" = none ∧
          ∀ v, Dict.get? request.facts "coverage_policy_version" = some v →
            v = .str policy.version)
  | .ledger (.record _) | .ledger (.native _) | .importCursor _ _ => True

/-- The cursor that a source has reached: the end of its latest interval, or its start. -/
def reachedCursor (chain : List Receipt) (route : String) : Option Json :=
  match lastInterval chain route with
  | some interval => interval.get? "end"
  | none => chain.head?.bind fun root =>
    (Dict.get? root.payload.facts "source_cursors").bind fun value => value.get? route

theorem exists_of_getLast?_filterMap {α β : Type} {f : α → Option β} {xs : List α} {b : β}
    (h : (xs.filterMap f).getLast? = some b) :
    ∃ before x after, xs = before ++ x :: after ∧ f x = some b ∧ ∀ y ∈ after, f y = none := by
  induction xs using List.reverseRecOn with
  | nil => cases h
  | append_singleton xs x ih =>
    rw [filterMap_append] at h
    cases hx : f x with
    | none =>
      simp only [filterMap_cons, hx, filterMap_nil, append_nil] at h
      obtain ⟨before, y, after, rfl, hy, hafter⟩ := ih h
      refine ⟨before, y, after ++ [x], by simp, hy, fun z hz => ?_⟩
      rcases mem_append.mp hz with hz | hz
      · exact hafter z hz
      · rw [mem_singleton.mp hz, hx]
    | some c =>
      simp only [filterMap_cons, hx, filterMap_nil, getLast?_concat,
        Option.some.injEq] at h
      exact ⟨xs, x, [], rfl, by rw [hx, h], fun y hy => absurd hy not_mem_nil⟩

theorem openOperations_eq {chain : List Receipt} (hseq : Sequential chain) :
    openOperations chain chain.length = (openOf chain).length := by
  rw [openOperations, openOf, length_map]
  congr 1
  refine filter_congr fun p hp => ?_
  have hle : p.sequence ≤ (chain.length : Int) := (hseq.bounds hp).2
  have hany : (chain.any fun s =>
      settles s p.payload.operationId && decide (s.sequence ≤ (chain.length : Int))) =
      chain.any fun s => settles s p.payload.operationId := by
    rw [Bool.eq_iff_iff, any_eq_true, any_eq_true]
    refine exists_congr fun s => and_congr_right fun hs => ?_
    simp [(hseq.bounds hs).2]
  rw [hany]
  simp [hle]

theorem prepared_of_settled {receipts : List Receipt}
    (h : WellPlaced host.toProductionHost receipts) {repository admissionId : String}
    {before after : List Receipt} {s : Receipt}
    (heq : receiptsOf receipts repository admissionId = before ++ s :: after)
    (hkind : s.kind = .settle) :
    ∃ x ∈ before, x.kind = .prepare ∧ x.payload.operationId = s.payload.operationId := by
  obtain ⟨earlier, hplaced, rfl⟩ := h.placed heq
  exact (hplaced.settle hkind).1

variable {r : Receipt}

theorem openOf_prepare {receipts : List Receipt} (h : WellPlaced host.toProductionHost receipts)
    (hr : Placed host.toProductionHost receipts r) (hkind : r.kind = .prepare) :
    openOf (chainOf receipts r ++ [r]) ≠ [] := by
  have hnot : r.payload.operationId ∉ settledOf (chainOf receipts r) := by
    intro hmem
    obtain ⟨s, hs, hop⟩ := mem_map.mp hmem
    obtain ⟨hs, hsettle⟩ := mem_filter.mp hs
    obtain ⟨before, after, heq⟩ := append_of_mem hs
    obtain ⟨x, hx, hxkind, hxop⟩ := prepared_of_settled h heq (of_decide_eq_true hsettle)
    have hxmem : x ∈ chainOf receipts r := by
      rw [show chainOf receipts r = before ++ s :: after from heq]
      exact mem_append_left _ hx
    exact hr.prepare hkind x hxmem hxkind (hxop.trans hop)
  rw [openOf_append, if_pos ⟨hkind, hnot⟩]
  simp

theorem startCursors_spec {members : List (String × Json)}
    (h : ∀ kv ∈ members, ∃ c, readCursor kv.2 = .ok c) :
    ∃ start, readAll (fun kv : String × Json => readCursor kv.2 >>= fun c => .ok (kv.1, c))
        members = .ok start ∧ start.map Prod.fst = members.map Prod.fst ∧
      ∀ route, Dict.get? start route =
        (Dict.get? members route).bind fun value => (readCursor value).toOption := by
  induction members with
  | nil => exact ⟨[], rfl, rfl, fun _ => rfl⟩
  | cons kv members ih =>
    obtain ⟨c, hc⟩ := h kv mem_cons_self
    obtain ⟨start, hread, hkeys, hget⟩ := ih fun e he => h e (mem_cons_of_mem _ he)
    refine ⟨(kv.1, c) :: start, ?_, ?_, fun route => ?_⟩
    · have hfirst : (readCursor kv.2 >>= fun c => .ok (kv.1, c) :
          Except CoverageReason (String × SourceCursor)) = .ok (kv.1, c) :=
        bind_eq_ok.mpr ⟨c, hc, rfl⟩
      rw [readAll, hfirst, hread]
    · rw [map_cons, map_cons, hkeys]
    · rw [Dict.get?_cons, Dict.get?_cons, hget]
      by_cases hroute : kv.1 = route
      · rw [if_pos hroute, if_pos hroute]
        simp [hc, Except.toOption]
      · rw [if_neg hroute, if_neg hroute]

theorem Declares.start {root : Receipt}
    (h : Declares policy root.payload.producerVersion root.payload.facts) :
    ∃ members start, Dict.get? root.payload.facts "source_cursors" = some (.obj members) ∧
      startCursors policy root = .ok start ∧ (start.map Prod.fst).Nodup ∧
      sameElements (start.map Prod.fst) policy.routes = true ∧
      ∀ route, Dict.get? start route =
        (Dict.get? members route).bind fun value => (readCursor value).toOption := by
  obtain ⟨members, hmembers, hnodup, hsame, hread⟩ := h.cursors
  obtain ⟨start, hstart, hkeys, hget⟩ := startCursors_spec hread
  refine ⟨members, start, hmembers, ?_, by rw [hkeys]; exact hnodup, by rw [hkeys]; exact hsame,
    hget⟩
  have hmember : member (.obj root.payload.facts) "source_cursors" = .ok (.obj members) :=
    member_eq_ok.mpr hmembers
  simp only [startCursors, hmember, bind, Except.bind, Json.obj?, require, hsame, if_true]
  exact hstart

variable {root : Receipt} {start : Dict String SourceCursor}

theorem checkRoute_ok {rows : List Receipt} {route : String}
    (h : Declares policy root.payload.producerVersion root.payload.facts)
    (hroute : route ∈ policy.routes) : checkRoute policy root rows route = .ok () := by
  obtain ⟨versions, hget, hversion⟩ := h.capable route hroute
  simp only [checkRoute, hget, checkCapability, routeCapability, bind_eq_ok, exists_const,
    require_eq_ok]
  exact ⟨hroute, hversion, trivial⟩

theorem elements_texts (names : List String) :
    elements (.arr (names.map Json.str)) = .ok (names.map Json.str) := by
  rw [elements, if_neg]
  simp [Json.arr?, Json.obj?]

theorem scanRoot_ok (hready : PolicyReady policy) {data : HistoryData}
    (hkind : root.kind = .admission)
    (h : Declares policy root.payload.producerVersion root.payload.facts)
    (hversion : data.coveragePolicyVersion = .str policy.version)
    (hstart : startCursors policy root = .ok start) : scanRoot policy data root = .ok start := by
  obtain ⟨names, hnames, hsame⟩ := h.routes
  have hroutes : member (.obj root.payload.facts) "routes" >>= elements =
      .ok (names.map Json.str) := by
    rw [show member (.obj root.payload.facts) "routes" = .ok (.arr (names.map Json.str)) from
      member_eq_ok.mpr hnames]
    exact elements_texts names
  have hdeclared : member (.obj root.payload.facts) "coverage_policy_version" =
      .ok (.str policy.version) := member_eq_ok.mpr h.version
  have hsame' : sameElements (names.map Json.str) (policy.routes.map Json.str) = true := by
    simp only [sameElements, Bool.and_eq_true, all_eq_true, decide_eq_true_eq] at hsame ⊢
    constructor
    · intro x hx
      obtain ⟨name, hname, rfl⟩ := mem_map.mp hx
      exact mem_map_of_mem (hsame.1 name hname)
    · intro x hx
      obtain ⟨name, hname, rfl⟩ := mem_map.mp hx
      exact mem_map_of_mem (hsame.2 name hname)
  have hchecks : checkAll (checkRoute policy root data.history) policy.routes = .ok () :=
    checkAll_eq_ok.mpr fun route hroute => checkRoute_ok h hroute
  rw [scanRoot]
  refine bind_eq_ok.mpr ⟨(), require_eq_ok.mpr hkind, bind_eq_ok.mpr
    ⟨(), require_eq_ok.mpr ⟨hready.version, hversion⟩, bind_eq_ok.mpr ⟨_, hdeclared, ?_⟩⟩⟩
  refine bind_eq_ok.mpr ⟨(), require_eq_ok.mpr rfl, bind_eq_ok.mpr
    ⟨(), require_eq_ok.mpr hready.routes, bind_eq_ok.mpr ⟨_, hroutes, ?_⟩⟩⟩
  exact bind_eq_ok.mpr ⟨(), require_eq_ok.mpr ⟨hsame', hready.assessed⟩, bind_eq_ok.mpr
    ⟨_, hstart, bind_eq_ok.mpr ⟨(), hchecks, rfl⟩⟩⟩

/-- The receipts are scanned, from the start of their root. -/
def Scans (host : CoverageHost) (policy : CoveragePolicy) (receipts : List Receipt) : Prop :=
  ∃ root start w, receipts.head? = some root ∧ startCursors policy root = .ok start ∧
    receipts.foldlM (scanRow host policy) { cursors := start } = .ok w

/-- What holds of the receipts of an admission under a policy. -/
structure PolicyHistory (host : CoverageHost) (policy : CoveragePolicy) (laneIdOf : Int → String)
    (contracts : List ContractRow) (receipts : List Receipt) : Prop where
  ledger : LedgerInv host.toProductionHost laneIdOf contracts receipts
  own : ∀ r ∈ receipts, r.binding = policy.binding ∧ r.payload.admissionId = policy.admissionId
  versions : ∀ r ∈ receipts, r.kind ≠ .prepare → ∀ v,
    Dict.get? r.payload.facts "coverage_policy_version" = some v → v = .str policy.version
  imported : ∀ r ∈ receipts, r.kind = .settle →
    Dict.get? r.payload.facts "coverage_policy_version" = some (.str policy.version)
  root : ∀ root, receipts.head? = some root →
    Declares policy root.payload.producerVersion root.payload.facts

/-- The receipts are scanned, or an operation is open. -/
structure CoverageInv (host : CoverageHost) (policy : CoveragePolicy) (laneIdOf : Int → String)
    (contracts : List ContractRow) (receipts : List Receipt) : Prop
    extends PolicyHistory host policy laneIdOf contracts receipts where
  scans : receipts = [] ∨ Scans host policy receipts ∨ openOf receipts ≠ []

variable {contracts : List ContractRow} {receipts : List Receipt}

section

variable (h : PolicyHistory host policy laneIdOf contracts receipts)

include h

theorem PolicyHistory.chain :
    receiptsOf receipts policy.binding.identity.repository policy.admissionId = receipts := by
  refine filter_eq_self.mpr fun r hr => ?_
  simp [Receipt.belongs, (h.own r hr).1, (h.own r hr).2]

theorem PolicyHistory.sequential : Sequential receipts := by
  have hseq := h.ledger.placed.sequential policy.binding.identity.repository policy.admissionId
  rwa [h.chain] at hseq

theorem PolicyHistory.chainOf
    (hr : r.binding = policy.binding ∧ r.payload.admissionId = policy.admissionId) :
    Completion.chainOf receipts r = receipts := by
  rw [Completion.chainOf, hr.1, hr.2]
  exact h.chain

theorem place_of_placed {w : ScanLoop}
    (hown : r.binding = policy.binding ∧ r.payload.admissionId = policy.admissionId)
    (hr : Placed host.toProductionHost receipts r) (hw : Scanned start receipts w) :
    r.sequence = (w.count : Int) + 1 ∧ r.previousEvidenceId = w.predecessor ∧
      r.evidenceId = host.receiptDigest r.payload r.sequence r.previousEvidenceId := by
  have hsequence := hr.sequence
  have hprevious := hr.previous
  rw [h.chainOf hown] at hsequence hprevious
  exact ⟨by rw [hw.count]; exact hsequence, by rw [hw.predecessor]; exact hprevious,
    (decodeReceipt_eq_ok.mp hr.stored).2.1⟩

end

theorem scans_root (hown : r.binding = policy.binding ∧ r.payload.admissionId = policy.admissionId)
    (hr : Placed host.toProductionHost [] r)
    (hdeclares : Declares policy r.payload.producerVersion r.payload.facts) :
    Scans host policy [r] := by
  obtain ⟨members, start, -, hstart, -⟩ := hdeclares.start
  have hkind : r.kind = .admission := hr.root.mpr rfl
  let w : ScanLoop := { cursors := start }
  have hscan : scanKind { w with predecessor := some r.evidenceId, count := w.count + 1 } r =
      .ok { w with predecessor := some r.evidenceId, count := w.count + 1 } := by
    rw [scanKind, hkind]
  have hrow : scanRow host policy w r =
      .ok { w with predecessor := some r.evidenceId, count := w.count + 1 } :=
    scanRow_ok hown ⟨hr.sequence, hr.previous, (decodeReceipt_eq_ok.mp hr.stored).2.1⟩ hscan
      hdeclares.interval
  refine ⟨r, start, { w with predecessor := some r.evidenceId, count := w.count + 1 }, rfl, hstart,
    ?_⟩
  rw [foldlM_cons]
  exact bind_eq_ok.mpr ⟨_, hrow, rfl⟩

theorem scans_concat {w w' : ScanLoop} (hroot : receipts.head? = some root)
    (hstart : startCursors policy root = .ok start)
    (hfold : receipts.foldlM (scanRow host policy) { cursors := start } = .ok w)
    (hrow : scanRow host policy w r = .ok w') : Scans host policy (receipts ++ [r]) := by
  refine ⟨root, start, w', ?_, hstart, ?_⟩
  · cases receipts with
    | nil => cases hroot
    | cons x xs => exact hroot
  · rw [foldlM_append]
    exact bind_eq_ok.mpr ⟨w, hfold, by rw [foldlM_cons]; exact bind_eq_ok.mpr ⟨w', hrow, rfl⟩⟩

theorem Scans.append (h : Scans host policy receipts)
    (hrow : ∀ start w, Scanned start receipts w → ∃ w', scanRow host policy w r = .ok w') :
    Scans host policy (receipts ++ [r]) := by
  obtain ⟨root, start, w, hroot, hstart, hfold⟩ := h
  obtain ⟨w', hw'⟩ := hrow start w (scanned_of_fold (.start start) hfold)
  exact scans_concat hroot hstart hfold hw'

theorem openOf_sealed {chain : List Receipt}
    (h : ∀ x ∈ chain, x.kind = .prepare → ∃ y ∈ chain, settles y x.payload.operationId = true) :
    openOf chain = [] := by
  have hnone : chain.filter (fun p => p.kind = .prepare
      && ¬ chain.any fun s => settles s p.payload.operationId) = [] := by
    refine filter_eq_nil_iff.mpr fun p hp hopen => ?_
    simp only [Bool.and_eq_true, decide_eq_true_eq] at hopen
    exact hopen.2 (any_eq_true.mpr (h p hp hopen.1))
  rw [openOf, hnone, map_nil]

theorem PolicyHistory.add (h : PolicyHistory host policy laneIdOf contracts receipts)
    (hown : r.binding = policy.binding ∧ r.payload.admissionId = policy.admissionId)
    (hplaced : Placed host.toProductionHost receipts r)
    (hbound : Bound host.toProductionHost laneIdOf contracts r.binding)
    (hversions : r.kind ≠ .prepare → ∀ v,
      Dict.get? r.payload.facts "coverage_policy_version" = some v → v = .str policy.version)
    (himported : r.kind = .settle →
      Dict.get? r.payload.facts "coverage_policy_version" = some (.str policy.version))
    (hroot : r.kind = .admission → Declares policy r.payload.producerVersion r.payload.facts) :
    PolicyHistory host policy laneIdOf contracts (receipts ++ [r]) where
  ledger := by
    refine ⟨h.ledger.recorded, EachAfter.append_iff.mpr ⟨h.ledger.placed, hplaced⟩, ?_⟩
    intro x hx
    rcases mem_append.mp hx with hx | hx
    · exact h.ledger.bound x hx
    · rw [mem_singleton.mp hx]
      exact hbound
  own := fun x hx => by
    rcases mem_append.mp hx with hx | hx
    · exact h.own x hx
    · rw [mem_singleton.mp hx]
      exact hown
  versions := fun x hx => by
    rcases mem_append.mp hx with hx | hx
    · exact h.versions x hx
    · rw [mem_singleton.mp hx]
      exact hversions
  imported := fun x hx => by
    rcases mem_append.mp hx with hx | hx
    · exact h.imported x hx
    · rw [mem_singleton.mp hx]
      exact himported
  root := fun root hhead => by
    cases hreceipts : receipts with
    | nil =>
      rw [hreceipts] at hhead
      obtain rfl : r = root := Option.some.inj hhead
      refine hroot (hplaced.root.mpr ?_)
      rw [h.chainOf hown, hreceipts]
    | cons x xs =>
      rw [hreceipts] at hhead
      exact h.root root (by rw [hreceipts]; exact hhead)

theorem PolicyHistory.ne_nil (h : PolicyHistory host policy laneIdOf contracts receipts)
    (hown : r.binding = policy.binding ∧ r.payload.admissionId = policy.admissionId)
    (hplaced : Placed host.toProductionHost receipts r) (hkind : r.kind ≠ .admission) :
    receipts ≠ [] := by
  intro hnil
  refine hkind (hplaced.root.mpr ?_)
  rw [h.chainOf hown, hnil]

/-- What an append that follows the policy adds keeps the invariant. -/
theorem CoverageInv.append (h : CoverageInv host policy laneIdOf contracts receipts)
    {kind : ReceiptKind} {request : ProductionAppend} {p : ProductionPayload}
    {receipts' : List Receipt}
    (hfollows : FollowsPolicy policy (.ledger (.append kind request) : CoverageCall laneIdOf))
    (hp : prepared kind request = .ok p)
    (hbound : Bound host.toProductionHost laneIdOf contracts p.binding)
    (hadded : Added host.toProductionHost receipts p r receipts') :
    CoverageInv host policy laneIdOf contracts receipts' := by
  obtain ⟨hkind, hphase, hbinding, hadmission, -⟩ := prepared_spec hp
  obtain ⟨hfacts, hproducer⟩ := prepared_facts hp
  obtain ⟨hfollowsBinding, hfollowsAdmission, hfollowsKind⟩ := hfollows
  have hpown : p.binding = policy.binding ∧ p.admissionId = policy.admissionId :=
    ⟨hbinding.trans hfollowsBinding, hadmission.trans hfollowsAdmission⟩
  -- the receipt of the payload declares no version but that of the policy, unless it is a prepare
  have hversions : p.evidenceKind ≠ .prepare → ∀ v,
      Dict.get? p.facts "coverage_policy_version" = some v → v = .str policy.version := by
    intro hne v hv
    rw [hfacts] at hv
    rcases hfollowsKind with ⟨-, hdeclares⟩ | hprepare | ⟨-, -, hversion⟩
    · exact Option.some.inj (hv.symm.trans hdeclares.version)
    · exact absurd (hkind.trans hprepare) hne
    · rw [Json.get?_sortMembers] at hv
      obtain ⟨v', hv', rfl⟩ := Option.map_eq_some_iff.mp hv
      rw [hversion v' hv']
      rfl
  have hnotSettle : p.evidenceKind ≠ .settle := by
    rw [hkind]
    rcases hfollowsKind with ⟨rfl, -⟩ | rfl | ⟨rfl, -⟩ <;> exact fun h => by cases h
  have hdeclares : p.evidenceKind = .admission → Declares policy p.producerVersion p.facts := by
    intro hroot
    rw [hkind] at hroot
    rcases hfollowsKind with ⟨-, hdeclares⟩ | hprepare | ⟨hsealing, -⟩
    · rw [hfacts, hproducer]
      exact hdeclares
    · rw [hroot] at hprepare
      cases hprepare
    · rw [hroot] at hsealing
      cases hsealing
  cases hadded with
  | one _ hr hseal hplaced =>
    have hown : r.binding = policy.binding ∧ r.payload.admissionId = policy.admissionId := by
      rw [hr]
      exact hpown
    have hpayload : r.payload = p := by
      rw [hr]
      rfl
    have hrkind : r.kind = kind := by
      rw [Receipt.kind, hpayload, hkind]
    have hhistory := h.toPolicyHistory.add hown hplaced
      (by rw [Receipt.binding, hpayload]; exact hbound)
      (by rw [Receipt.kind, hpayload]; exact hversions)
      (fun hsettle => absurd (by rw [← hpayload]; exact hsettle) hnotSettle)
      (fun hroot => by rw [hpayload]; exact hdeclares (by rw [← hpayload]; exact hroot))
    refine ⟨hhistory, .inr ?_⟩
    rcases hfollowsKind with ⟨hadm, -⟩ | hprepare | ⟨hsealing, hnone, -⟩
    · -- the admission is the first receipt
      have hnil : receipts = [] := by
        have hchain := hplaced.root.mp (hrkind.trans hadm)
        rwa [h.chainOf hown] at hchain
      subst hnil
      refine .inl (scans_root hown hplaced ?_)
      rw [hpayload]
      exact hdeclares (hkind.trans hadm)
    · -- the operation of the prepare is open
      have hopen := openOf_prepare h.ledger.placed hplaced (hrkind.trans hprepare)
      rw [h.chainOf hown] at hopen
      exact .inr hopen
    · -- nothing was open, so the history was scanned, and a seal is scanned behind it
      have hrseal : r.kind = .seal := hrkind.trans hsealing
      have hclosed : openOf receipts = [] := by
        have hsealed := hplaced.sealed hrseal
        rw [h.chainOf hown] at hsealed
        exact openOf_sealed hsealed
      have hne : receipts ≠ [] := h.ne_nil hown hplaced (by rw [hrseal]; exact fun h => by cases h)
      have hscans : Scans host policy receipts := by
        rcases h.scans with hnil | hscans | hopen
        · exact absurd hnil hne
        · exact hscans
        · exact absurd hclosed hopen
      refine .inl (hscans.append fun start w hw =>
        ⟨{ w with predecessor := some r.evidenceId, count := w.count + 1 }, ?_⟩)
      refine scanRow_ok hown (place_of_placed h.toPolicyHistory hown hplaced hw) ?_ ?_
      · rw [scanKind, hrseal]
      · rw [hpayload, hfacts, Json.get?_sortMembers, hnone]
        rfl
  | behindGap s gap _ hprepare hs hgap hr hgapPlaced hplaced =>
    have hgapOwn : gap.binding = policy.binding ∧ gap.payload.admissionId = policy.admissionId := by
      rw [hgap]
      exact hpown
    have hown : r.binding = policy.binding ∧ r.payload.admissionId = policy.admissionId := by
      rw [hr]
      exact hpown
    have hgapHistory := h.toPolicyHistory.add hgapOwn hgapPlaced (by rw [hgap]; exact hbound)
      (by rw [hgap]; intro _ v hv; cases hv)
      (fun hsettle => by rw [hgap] at hsettle; cases hsettle)
      (fun hroot => by rw [hgap] at hroot; cases hroot)
    have hrkind : r.kind = .prepare := by
      rw [hr]
      exact hprepare
    have hhistory := hgapHistory.add hown hplaced (by rw [hr]; exact hbound)
      (fun hne => absurd hrkind hne)
      (fun hsettle => by rw [hrkind] at hsettle; cases hsettle)
      (fun hroot => by rw [hrkind] at hroot; cases hroot)
    have hopen := openOf_prepare hgapHistory.ledger.placed hplaced hrkind
    rw [hgapHistory.chainOf hown] at hopen
    exact ⟨hhistory, .inr (.inr hopen)⟩

end Workbay.Completion

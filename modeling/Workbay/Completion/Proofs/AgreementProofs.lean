import Workbay.Completion.Proofs.CoverageProofs

/-!
# Imports

An import goes through only behind a history that is read whole and scanned, and what it records is
scanned as it was checked: the scan starts from the same cursors and meets the same interval.
-/

namespace Workbay.Completion

open Effects

variable {host : CoverageHost} {policy : CoveragePolicy} {laneIdOf : Int → String}
  {contracts : List ContractRow} {receipts : List Receipt}

/-! ## What a scan and an import check -/

theorem orUnavailable_eq_ok {α : Type} {x : Except CoverageReason α} {a : α} :
    orUnavailable x = .ok a ↔ x = .ok a := by
  cases x <;> simp [orUnavailable]

theorem orChanged_eq_ok {α : Type} {x : Except ProductionError α} {a : α} :
    orChanged x = .ok a ↔ x = .ok a := by
  cases x with
  | ok b => simp [orChanged]
  | error e => cases e <;> simp [orChanged]

variable {data : HistoryData}

theorem scanRoot_spec {root : Receipt} {cursors : Dict String SourceCursor}
    (h : scanRoot policy data root = .ok cursors) : startCursors policy root = .ok cursors := by
  simp only [scanRoot, bind_eq_ok, exists_const, require_eq_ok, pure, Except.pure,
    Except.ok.injEq] at h
  obtain ⟨-, -, _, -, -, -, _, -, -, start, hstart, _, -, rfl⟩ := h
  exact hstart

theorem scan_spec {w : ScanLoop} (h : scan host policy data = .ok w) :
    (data.hasMore = false ∧ data.truncationReasons = []) ∧
      ∃ root start, data.history.head? = some root ∧ startCursors policy root = .ok start ∧
        data.history.foldlM (scanRow host policy) { cursors := start } = .ok w := by
  simp only [scan, boundedData, bind_eq_ok, exists_const, require_eq_ok] at h
  obtain ⟨⟨hbounded, -, -⟩, h⟩ := h
  refine ⟨⟨hbounded.1, hbounded.2.1⟩, ?_⟩
  split at h
  · cases h
  · rename_i root hroot
    simp only [bind_eq_ok, exists_const, require_eq_ok, pure, Except.pure, Except.ok.injEq] at h
    obtain ⟨start, hstart, w', hfold, -, -, rfl⟩ := h
    exact ⟨root, start, hroot, scanRoot_spec hstart, hfold⟩

/-- What an import has checked, when the operation is not settled yet. -/
structure Importable (host : CoverageHost) (policy : CoveragePolicy) (w : ScanLoop)
    (request : ProductionAppend) (interval : Json) (settlement : ProductionAppend) : Prop where
  isOpen : request.operationId ∈ w.openOps
  advances : ∃ route current stop, interval.get? "route" = some (.str route) ∧
    w.cursors.get? route = some current ∧ advance host policy interval current = .ok stop ∧
    settlement = { request with
      facts := importFacts policy request interval (w.cursors.set route stop) }

theorem importRequest_spec {request settlement : ProductionAppend} {interval : Json}
    (h : importRequest host policy data request interval = .ok settlement) :
    settlement.binding = request.binding ∧ settlement.admissionId = request.admissionId ∧
      settlement.operationId = request.operationId ∧
      (∃ cursors, settlement.facts = importFacts policy request interval cursors) ∧
      ∃ w, scan host policy data = .ok w ∧
        (settlementOf data.history request.operationId = none →
          Importable host policy w request interval settlement) := by
  simp only [importRequest, bind_eq_ok, member_eq_ok, hashable_eq_ok] at h
  obtain ⟨w, hscan, cursors, hcursors, route, ⟨_, hroute, rfl⟩, h⟩ := h
  split at h
  · cases h
  · rename_i current hcurrent
    simp only [bind_eq_ok, exists_const, pure, Except.pure, Except.ok.injEq] at h
    obtain ⟨stop, hstop, _, -, rfl⟩ := h
    refine ⟨rfl, rfl, rfl, ⟨_, rfl⟩, w, hscan, fun hnone => ?_⟩
    simp only [importCursors, hnone, bind_eq_ok, exists_const, require_eq_ok, pure, Except.pure,
      Except.ok.injEq] at hcursors
    obtain ⟨-, hopen, rfl⟩ := hcursors
    exact ⟨hopen, route, current, stop, hroute, hcurrent, hstop, rfl⟩

theorem importFacts_interval (policy : CoveragePolicy) (request : ProductionAppend)
    (interval : Json) (cursors : Dict String SourceCursor) :
    Dict.get? (Json.sortMembers (importFacts policy request interval cursors)) "source_interval" =
      some interval.sortKeys := by
  rw [Json.get?_sortMembers, importFacts, Dict.get?_set_of_ne _ _ (by decide +kernel),
    Dict.get?_set_of_ne _ _ (by decide +kernel), Dict.get?_set_self]
  rfl

theorem importFacts_version (policy : CoveragePolicy) (request : ProductionAppend)
    (interval : Json) (cursors : Dict String SourceCursor) :
    Dict.get? (Json.sortMembers (importFacts policy request interval cursors))
      "coverage_policy_version" = some (.str policy.version) := by
  rw [Json.get?_sortMembers, importFacts, Dict.get?_set_self]
  rfl

/-- What an import adds keeps the invariant. -/
theorem CoverageInv.settle (h : CoverageInv host policy laneIdOf contracts receipts)
    {request settlement : ProductionAppend} {source : Json} {p : ProductionPayload} {r : Receipt}
    {receipts' : List Receipt}
    (hread : data.hasMore = false → data.truncationReasons = [] → data.history = receipts)
    (hown : request.binding = policy.binding ∧ request.admissionId = policy.admissionId)
    (himport : importRequest host policy data request source.sortKeys = .ok settlement)
    (hp : prepared .settle settlement = .ok p)
    (hbound : Bound host.toProductionHost laneIdOf contracts p.binding)
    (hadded : Added host.toProductionHost receipts p r receipts') :
    CoverageInv host policy laneIdOf contracts receipts' := by
  obtain ⟨hbinding, hadmission, hoperation, ⟨cursors, hfacts⟩, w, hscan, himportable⟩ :=
    importRequest_spec himport
  obtain ⟨⟨hmore, htruncated⟩, root, start, hroot, hstart, hfold⟩ := scan_spec hscan
  rw [hread hmore htruncated] at hroot hfold himportable
  obtain ⟨hkind, -, hpbinding, hpadmission, hpoperation⟩ := prepared_spec hp
  have hpfacts : p.facts = Json.sortMembers (importFacts policy request source.sortKeys cursors) :=
    (prepared_facts hp).1.trans (by rw [hfacts])
  have hinterval : Dict.get? p.facts "source_interval" = some source.sortKeys := by
    rw [hpfacts, importFacts_interval, Json.sortKeys_sortKeys]
  have hversion : Dict.get? p.facts "coverage_policy_version" = some (.str policy.version) := by
    rw [hpfacts, importFacts_version]
  cases hadded with
  | behindGap s gap _ hprepare hs hgap hr hgapPlaced hplaced =>
    rw [hkind] at hprepare
    cases hprepare
  | one _ hr hseal hplaced =>
    have hpayload : r.payload = p := by
      rw [hr]
      rfl
    have hrown : r.binding = policy.binding ∧ r.payload.admissionId = policy.admissionId := by
      rw [Receipt.binding, hpayload]
      exact ⟨hpbinding.trans (hbinding.trans hown.1),
        hpadmission.trans (hadmission.trans hown.2)⟩
    have hrkind : r.kind = .settle := by
      rw [Receipt.kind, hpayload, hkind]
    have hroperation : r.payload.operationId = request.operationId := by
      rw [hpayload]
      exact hpoperation.trans hoperation
    have hhistory := h.toPolicyHistory.add hrown hplaced
      (by rw [Receipt.binding, hpayload]; exact hbound)
      (fun _ v hv => by
        rw [hpayload, hversion] at hv
        exact (Option.some.inj hv).symm)
      (fun _ => by rw [hpayload]; exact hversion)
      (fun hdecided => by rw [hrkind] at hdecided; cases hdecided)
    -- the operation is not settled yet, so the import went on from the cursors of the scan
    have hunsettled : settlementOf receipts request.operationId = none := by
      refine List.find?_eq_none.mpr fun x hx hsettles => ?_
      simp only [settles, Bool.and_eq_true, decide_eq_true_eq] at hsettles
      refine (hplaced.settle hrkind).2 x ?_ hsettles.1 (hsettles.2.trans hroperation.symm)
      rw [h.chainOf hrown]
      exact hx
    obtain ⟨hopen, route, current, stop, hroute, hcurrent, hadvance, -⟩ := himportable hunsettled
    have hscanned : Scanned start receipts w := scanned_of_fold (.start start) hfold
    let moved : ScanLoop := { w with
      predecessor := some r.evidenceId, count := w.count + 1
      openOps := w.openOps.filter (· ≠ r.payload.operationId)
      settled := w.settled ++ [r.payload.operationId] }
    have hrow : scanRow host policy w r =
        .ok { moved with cursors := w.cursors.set route stop } := by
      refine scanRow_interval hrown (place_of_placed h.toPolicyHistory hrown hplaced hscanned)
        ?_ (by rw [hpayload]; exact hinterval) ?_
      · simp only [scanKind, hrkind, require, bind, Except.bind, pure, Except.pure]
        rw [if_pos (by rw [hroperation]; exact hopen)]
      · refine bind_eq_ok.mpr ⟨(), require_eq_ok.mpr hrkind, bind_eq_ok.mpr ⟨route, ?_, ?_⟩⟩
        · exact bind_eq_ok.mpr ⟨_, member_eq_ok.mpr hroute, hashable_eq_ok.mpr rfl⟩
        · rw [show moved.cursors.get? route = some current from hcurrent]
          exact bind_eq_ok.mpr ⟨stop, hadvance, rfl⟩
    exact ⟨hhistory, .inr (.inl (scans_concat hroot hstart hfold hrow))⟩

end Workbay.Completion

/-!
## The validator agrees with the producer

Every call that follows the policy keeps the invariant, so where no operation is open the history is
scanned to its end; the validator then answers by the cursors that the sources have reached.
-/

namespace Workbay.Completion

open Effects List

variable {host : CoverageHost} {policy : CoveragePolicy} {laneIdOf : Int → String}
  {contracts : List ContractRow} {receipts : List Receipt}

variable {data : HistoryData} {root : Receipt}

theorem PolicyHistory.read (h : PolicyHistory host policy laneIdOf contracts receipts) {db : Native}
    {limit : Int} {readLimit : Option Int}
    (hread : getLaneProductionHistory host db contracts receipts policy.binding policy.admissionId
      limit readLimit = .ok data) (hmore : data.hasMore = false)
    (htruncated : data.truncationReasons = []) : ReadWhole receipts data := by
  have hwhole := readWhole_of_read (h.ledger.placed.sequential _ _) (fun r hr => ?_) hread hmore
    htruncated
  · rwa [h.chain] at hwhole
  · rw [h.chain] at hr
    rw [(h.own r hr).1, (h.own r hr).2]

theorem CoverageInv.importCursor (h : CoverageInv host policy laneIdOf contracts receipts)
    {db : FixedLanes laneIdOf} {request : ProductionAppend} {source : Json}
    {receipts' : List Receipt}
    (himport : importSourceCursor host db.toNative contracts receipts policy request source =
      .ok receipts') : CoverageInv host policy laneIdOf contracts receipts' := by
  simp only [importSourceCursor, bind_eq_ok, exists_const, orUnavailable_eq_ok, orChanged_eq_ok,
    require_eq_ok, pure, Except.pure, Except.ok.injEq] at himport
  obtain ⟨hown, -, data, hread, settlement, hrequest, ⟨record, left⟩, happend, rfl⟩ := himport
  rw [hown.1, hown.2] at hread
  obtain ⟨p, hp, hbound, ⟨rfl, -⟩ | ⟨-, hadded⟩⟩ := appendReceipt_spec h.ledger happend
  · exact h
  · exact h.settle (fun hmore htruncated => (h.read hread hmore htruncated).history) hown hrequest
      hp hbound hadded

theorem PolicyHistory.withContracts (h : PolicyHistory host policy laneIdOf contracts receipts)
    {contracts' : List ContractRow}
    (hledger : LedgerInv host.toProductionHost laneIdOf contracts' receipts) :
    PolicyHistory host policy laneIdOf contracts' receipts :=
  ⟨hledger, h.own, h.versions, h.imported, h.root⟩

/-- Every call that follows the policy keeps the invariant. -/
theorem CoverageInv.next {s : Ledger laneIdOf}
    (h : CoverageInv host policy laneIdOf s.contracts s.receipts) {call : CoverageCall laneIdOf}
    (hfollows : FollowsPolicy policy call) :
    CoverageInv host policy laneIdOf ((coverageMachine host policy laneIdOf).next s call).contracts
      ((coverageMachine host policy laneIdOf).next s call).receipts := by
  cases call with
  | importCursor request source =>
    simp only [Machine.next, coverageMachine]
    cases himport : importSourceCursor host s.native.toNative s.contracts s.receipts policy request
        source with
    | error e => exact h
    | ok receipts' => exact h.importCursor himport
  | ledger call =>
    have hledger := h.ledger.next call
    show CoverageInv host policy laneIdOf
      ((ledgerMachine host.toProductionHost laneIdOf).next s call).contracts
      ((ledgerMachine host.toProductionHost laneIdOf).next s call).receipts
    rcases ledgerMachine_receipts h.ledger call with
      hsame | ⟨kind, request, p, r, rfl, hp, hcontracts, hbound, -, hadded⟩
    · rw [hsame] at hledger ⊢
      exact ⟨h.toPolicyHistory.withContracts hledger, h.scans⟩
    · rw [hcontracts]
      exact h.append hfollows hp hbound hadded

theorem CoverageInv.init : CoverageInv host policy laneIdOf [] [] where
  ledger := .init
  own := fun r hr => absurd hr not_mem_nil
  versions := fun r hr => absurd hr not_mem_nil
  imported := fun r hr => absurd hr not_mem_nil
  root := fun root hroot => by cases hroot
  scans := .inl rfl

theorem coverageInv_run (host : CoverageHost) {calls : List (CoverageCall laneIdOf)}
    (hfollows : ∀ call ∈ calls, FollowsPolicy policy call) :
    CoverageInv host policy laneIdOf
      ((coverageMachine host policy laneIdOf).run {} calls).contracts
      ((coverageMachine host policy laneIdOf).run {} calls).receipts := by
  have halong : (coverageMachine host policy laneIdOf).Along (fun _ call => FollowsPolicy policy call)
      {} calls :=
    Machine.along_iff.mpr fun before call after heq => hfollows call (by rw [heq]; simp)
  exact halong.invariant (Q := fun s : Ledger laneIdOf =>
    CoverageInv host policy laneIdOf s.contracts s.receipts)
    (fun _ _ hs hcall => hs.next hcall) .init

/-! ## What the validator checks -/

theorem PolicyHistory.latestVersion (h : PolicyHistory host policy laneIdOf contracts receipts)
    (hroot : receipts.head? = some root) (hopen : openOf receipts = []) :
    latestFact receipts "coverage_policy_version" = some (.str policy.version) := by
  have hne : latestFact receipts "coverage_policy_version" ≠ none := by
    intro hnone
    have hnil := getLast?_eq_none_iff.mp hnone
    have hversion := (h.root root hroot).version
    have hnot := filterMap_eq_nil_iff.mp hnil root (mem_of_mem_head? hroot)
    rw [hversion] at hnot
    cases hnot
  obtain ⟨v, hv⟩ := Option.ne_none_iff_exists'.mp hne
  obtain ⟨before, x, after, heq, hx, hafter⟩ := exists_of_getLast?_filterMap hv
  have hmem : x ∈ receipts := by
    rw [heq]
    simp
  by_cases hkind : x.kind = .prepare
  · -- a prepare is settled behind it, and the settlement declares a version
    exfalso
    have hsettled : (receipts.any fun s => settles s x.payload.operationId) = true := by
      by_contra hnot
      have hin : x.payload.operationId ∈ openOf receipts :=
        mem_map_of_mem (mem_filter.mpr ⟨hmem, by simp [hkind, hnot]⟩)
      rw [hopen] at hin
      cases hin
    obtain ⟨y, hy, hsettles⟩ := any_eq_true.mp hsettled
    simp only [settles, Bool.and_eq_true, decide_eq_true_eq] at hsettles
    have hversion := h.imported y hy hsettles.1
    rw [heq] at hy
    rcases mem_append.mp hy with hy | hy
    · obtain ⟨early, late, hearly⟩ := append_of_mem hy
      obtain ⟨z, hz, hzkind, hzop⟩ := prepared_of_settled h.ledger.placed
        (h.chain.trans (by rw [heq, hearly, append_assoc, cons_append])) hsettles.1
      obtain ⟨earlier, hplaced, hchain⟩ := h.ledger.placed.placed (h.chain.trans heq)
      refine hplaced.prepare hkind z ?_ hzkind (hzop.trans hsettles.2)
      rw [hchain, hearly]
      exact mem_append_left _ hz
    · rcases mem_cons.mp hy with rfl | hy
      · rw [hkind] at hsettles
        cases hsettles.1
      · rw [hafter y hy] at hversion
        cases hversion
  · rw [hv, h.versions x hmem hkind v hx]

theorem cursor_of_reached {start : Dict String SourceCursor} {w : ScanLoop}
    (hroot : receipts.head? = some root)
    (hdeclares : Declares policy root.payload.producerVersion root.payload.facts)
    (hstart : startCursors policy root = .ok start) (hscanned : Scanned start receipts w)
    {route : String} {value : Json} {c current : SourceCursor}
    (hcurrent : w.cursors.get? route = some current)
    (hreached : reachedCursor receipts route = some value) (hread : readCursor value = .ok c) :
    current = c := by
  rw [hscanned.cursors] at hcurrent
  rw [reachedCursor] at hreached
  cases hlast : lastInterval receipts route with
  | some interval =>
    rw [hlast] at hcurrent hreached
    simp only [hreached, Option.bind_some, hread, Except.toOption, Option.some.injEq] at hcurrent
    exact hcurrent.symm
  | none =>
    rw [hlast] at hcurrent hreached
    obtain ⟨members, start', hmembers, hstart', -, -, hget⟩ := hdeclares.start
    obtain rfl : start = start' := Except.ok.inj (hstart.symm.trans hstart')
    simp only [hroot, Option.bind_some, hmembers] at hreached
    have hmember : Dict.get? members route = some value := hreached
    simp only [hget, hmember, Option.bind_some, hread, Except.toOption, Option.some.injEq]
      at hcurrent
    exact hcurrent.symm

theorem boundedData_ok (h : ReadWhole receipts data) (hmore : data.hasMore = false)
    (htruncated : data.truncationReasons = []) (hbytes : host.historyBytes data ≤ maxDecodedBytes)
    (hne : receipts ≠ []) : boundedData host data = .ok () := by
  have hpage : receipts.length ≤ maxPageRows * maxPages := by
    have hshort := h.page
    simp only [maxPageRows, maxPages] at hshort ⊢
    omega
  have hlength : data.head.sequence = (receipts.length : Int) := by rw [h.head]
  refine bind_eq_ok.mpr ⟨(), require_eq_ok.mpr ⟨hmore, htruncated, ?_⟩, bind_eq_ok.mpr
    ⟨(), require_eq_ok.mpr ?_, require_eq_ok.mpr hbytes⟩⟩
  · rw [h.history, h.returned, h.total, hlength]
    exact ⟨rfl, rfl, rfl⟩
  · rw [h.history]
    exact ⟨length_pos_iff.mpr hne, hpage⟩

/-- Where no operation is open, the validator scans the whole history. -/
theorem CoverageInv.scan_ok (h : CoverageInv host policy laneIdOf contracts receipts)
    (hready : PolicyReady policy) (hread : ReadWhole receipts data) (hmore : data.hasMore = false)
    (htruncated : data.truncationReasons = []) (hbytes : host.historyBytes data ≤ maxDecodedBytes)
    (hopen : openOf receipts = []) (hne : receipts ≠ []) :
    ∃ root start w, receipts.head? = some root ∧ startCursors policy root = .ok start ∧
      Scanned start receipts w ∧ scan host policy data = .ok w := by
  obtain ⟨root, start, w, hroot, hstart, hfold⟩ : Scans host policy receipts := by
    rcases h.scans with hnil | hscans | hstill
    · exact absurd hnil hne
    · exact hscans
    · exact absurd hopen hstill
  have hscanned : Scanned start receipts w := scanned_of_fold (.start start) hfold
  have hkind : root.kind = .admission := by
    cases receipts with
    | nil => cases hroot
    | cons x xs =>
      obtain rfl : x = root := Option.some.inj hroot
      have hfirst : receiptsOf (x :: xs) policy.binding.identity.repository policy.admissionId =
          [] ++ x :: xs := h.chain
      exact (h.ledger.root_iff hfirst).mpr rfl
  have hversion : data.coveragePolicyVersion = .str policy.version := by
    rw [hread.version, h.latestVersion hroot hopen]
    rfl
  have hstarted : scanRoot policy data root = .ok start :=
    scanRoot_ok hready hkind (h.root root hroot) hversion hstart
  refine ⟨root, start, w, hroot, hstart, hscanned, ?_⟩
  rw [scan, boundedData_ok hread hmore htruncated hbytes hne, hread.history, hroot]
  refine bind_eq_ok.mpr ⟨(), rfl, bind_eq_ok.mpr ⟨start, hstarted, bind_eq_ok.mpr ⟨w, hfold, ?_⟩⟩⟩
  refine bind_eq_ok.mpr ⟨(), require_eq_ok.mpr ?_, bind_eq_ok.mpr ⟨(), require_eq_ok.mpr ?_, rfl⟩⟩
  · rw [hscanned.predecessor, hread.head]
  · rw [hscanned.openOps, hread.openOps, openOperations_eq h.sequential]

/-- Each source has reached the cursor at which the policy assesses it. -/
def ReachesAssessment (policy : CoveragePolicy) (receipts : List Receipt) : Prop :=
  ∀ route ∈ policy.routes, ∃ value stop c, reachedCursor receipts route = some value ∧
    policy.assessmentCursors.get? route = some stop ∧ readCursor value = .ok c ∧
    readCursor stop = .ok c

theorem assessCursors_ok {start : Dict String SourceCursor} {w : ScanLoop}
    (hroot : receipts.head? = some root)
    (hdeclares : Declares policy root.payload.producerVersion root.payload.facts)
    (hstart : startCursors policy root = .ok start) (hscanned : Scanned start receipts w)
    (hreached : ReachesAssessment policy receipts) : assessCursors policy w.cursors = .ok () := by
  obtain ⟨_, start', -, hstart', hnodup, hsame, -⟩ := hdeclares.start
  obtain rfl : start = start' := Except.ok.inj (hstart.symm.trans hstart')
  refine checkAll_eq_ok.mpr fun kv hkv => ?_
  have hkey : kv.1 ∈ start.map Prod.fst := by
    rw [← hscanned.keys]
    exact mem_map_of_mem hkv
  have hroute : kv.1 ∈ policy.routes := by
    simp only [sameElements, Bool.and_eq_true, all_eq_true, decide_eq_true_eq] at hsame
    exact hsame.1 _ hkey
  have hcurrent : w.cursors.get? kv.1 = some kv.2 :=
    Dict.get?_of_mem (by rw [hscanned.keys]; exact hnodup) hkv
  obtain ⟨value, stop, c, hvalue, hassessed, hread, hstop⟩ := hreached kv.1 hroute
  have hc : kv.2 = c :=
    cursor_of_reached hroot hdeclares hstart hscanned hcurrent hvalue hread
  rw [assessRoute, hassessed]
  refine bind_eq_ok.mpr ⟨c, hstop, ?_⟩
  rw [hc]
  exact bind_eq_ok.mpr ⟨(), require_eq_ok.mpr rfl, require_eq_ok.mpr rfl⟩

/-- A history that the calls of one admission have written under a policy is covered, when it is
read in one page, no operation is open and every source has reached its assessment cursor. -/
theorem coverage_agrees (host : CoverageHost) (policy : CoveragePolicy) (laneIdOf : Int → String)
    (calls : List (CoverageCall laneIdOf)) (s : Ledger laneIdOf) (limit : Int)
    (readLimit : Option Int) (data : HistoryData) (hready : PolicyReady policy)
    (hfollows : ∀ call ∈ calls, FollowsPolicy policy call)
    (hs : s = (coverageMachine host policy laneIdOf).run {} calls)
    (hread : getLaneProductionHistory host s.native.toNative s.contracts s.receipts policy.binding
      policy.admissionId limit readLimit = .ok data)
    (hpage : data.hasMore = false ∧ data.truncationReasons = [] ∧
      host.historyBytes data ≤ maxDecodedBytes)
    (hopen : data.openOperationCount = 0) (hreached : ReachesAssessment policy s.receipts) :
    validateCoverage host policy data = .ok () := by
  obtain ⟨hmore, htruncated, hbytes⟩ := hpage
  have hinv : CoverageInv host policy laneIdOf s.contracts s.receipts := by
    rw [hs]
    exact coverageInv_run host hfollows
  have hwhole : ReadWhole s.receipts data := hinv.read hread hmore htruncated
  have hclosed : openOf s.receipts = [] := by
    rw [hwhole.openOps, openOperations_eq hinv.sequential] at hopen
    exact length_eq_zero_iff.mp hopen
  have hne : s.receipts ≠ [] := by
    intro hnil
    obtain ⟨route, hroute⟩ := exists_mem_of_ne_nil _ hready.routes.1
    obtain ⟨value, -, -, hvalue, -⟩ := hreached route hroute
    rw [hnil] at hvalue
    cases hvalue
  obtain ⟨root, start, w, hroot, hstart, hscanned, hscan⟩ :=
    hinv.scan_ok hready hwhole hmore htruncated hbytes hclosed hne
  refine bind_eq_ok.mpr ⟨w, hscan, bind_eq_ok.mpr ⟨(), require_eq_ok.mpr ?_, ?_⟩⟩
  · rw [hscanned.openOps, hclosed]
  · exact assessCursors_ok hroot (hinv.root root hroot) hstart hscanned hreached

/-! A source with one entry, imported by the one operation of an admission. -/

/-- The lengths are small and the entries of the source have short digests. -/
def sourceHost : CoverageHost where
  toProductionHost := plainHost
  itemBytes := fun _ => 1
  factBytes := fun _ => 1
  jsonBytes := fun _ => 1
  historyBytes := fun data => data.returned
  entryDigest := fun entry => ((entry.get? "new_oid").bind Json.str?).getD ""

/-- A policy with one route, assessed at a cursor. -/
def examplePolicy (stop : SourceCursor) : CoveragePolicy where
  binding := exampleAdmission.binding
  admissionId := "a"
  routes := ["reflog"]
  registry := [("reflog", ⟨["1"], .trustedExternal⟩)]
  assessmentCursors := [("reflog", stop.json)]
  authenticate := fun _ => true

/-- Where the source starts. -/
def exampleStart : SourceCursor := ⟨"store", 0, "d0"⟩

/-- Where its only entry leads. -/
def exampleStop : SourceCursor := ⟨"store", 1, "d1"⟩

/-- The facts of the admission. -/
def exampleFacts : Facts :=
  [("coverage_policy_version", .str policyVersion), ("routes", .arr [.str "reflog"]),
    ("source_cursors", .obj [("reflog", exampleStart.json)])]

/-- The interval of the source. -/
def exampleInterval : Json :=
  .obj [("admission_id", .str "a"), ("binding", bindingJson exampleAdmission.binding),
    ("end", exampleStop.json),
    ("entries", .arr [.obj [("digest", .str "d1"), ("new_oid", .str "d1"), ("old_oid", .str "o"),
      ("previous_digest", .str "d0"), ("sequence", .int 1)]]),
    ("producer_version", .str "1"), ("route", .str "reflog"), ("start", exampleStart.json)]

/-- The calls of an admission under a policy. -/
def coverageCalls (more : List (CoverageCall fun _ => "l")) : List (CoverageCall fun _ => "l") :=
  exampleCalls.map CoverageCall.ledger ++
    .ledger (.append .admission (exampleAppend "root" ⟨0, none⟩ exampleFacts)) :: more

/-- The operation is prepared, its source imported, and the history sealed. -/
def importCalls : List (CoverageCall fun _ => "l") :=
  coverageCalls [
    .ledger (.append .prepare (exampleAppend "op" ⟨1, some "rootadmission1"⟩ [])),
    .importCursor (exampleAppend "op" ⟨2, some "opprepare2"⟩ []) exampleInterval,
    .ledger (.append .seal (exampleAppend "s" ⟨3, some "opsettle3"⟩
      [("coverage_policy_digest", .str "p")]))]

/-- Nothing is prepared, and the seal declares another version. -/
def otherSealCalls : List (CoverageCall fun _ => "l") :=
  coverageCalls [.ledger (.append .seal (exampleAppend "s" ⟨1, some "rootadmission1"⟩
    [("coverage_policy_digest", .str "p"), ("coverage_policy_version", .str "other")]))]

/-- What the reader answers after calls under a policy. -/
def readAfter (policy : CoveragePolicy) (calls : List (CoverageCall fun _ => "l")) :
    Except ProductionError HistoryData :=
  let s := (coverageMachine sourceHost policy fun _ => "l").run {} calls
  getLaneProductionHistory sourceHost s.native.toNative s.contracts s.receipts policy.binding
    policy.admissionId 200 none

theorem examplePolicy_ready (stop : SourceCursor) : PolicyReady (examplePolicy stop) where
  version := rfl
  routes := ⟨by simp [examplePolicy], by simp [examplePolicy]⟩
  assessed := by simp [examplePolicy, sameElements]

theorem exampleFacts_declares (stop : SourceCursor) :
    Declares (examplePolicy stop) "1" (Json.sortMembers exampleFacts) := by
  have hsorted : Json.sortMembers exampleFacts = exampleFacts := by decide +kernel
  rw [hsorted]
  refine ⟨rfl, ⟨["reflog"], rfl, rfl⟩, ⟨_, rfl, by simp, rfl, fun kv hkv => ?_⟩, ?_, rfl⟩
  · rw [mem_singleton.mp hkv]
    exact ⟨exampleStart, by decide +kernel⟩
  · intro route hroute
    rw [mem_singleton.mp hroute]
    exact ⟨["1"], rfl, by simp⟩

theorem exampleStop_reached {receipts : List Receipt}
    (h : reachedCursor receipts "reflog" = some exampleStop.json) :
    ReachesAssessment (examplePolicy exampleStop) receipts := by
  intro route hroute
  rw [mem_singleton.mp hroute]
  exact ⟨_, _, exampleStop, h, rfl, by decide +kernel, by decide +kernel⟩

/-- The import of the entry is covered. -/
theorem import_covered : ∃ data, readAfter (examplePolicy exampleStop) importCalls = .ok data ∧
    data.returned = 4 ∧ validateCoverage sourceHost (examplePolicy exampleStop) data = .ok () := by
  have hfacts : (readAfter (examplePolicy exampleStop) importCalls).toOption.map (fun d =>
      (d.returned, d.hasMore, d.truncationReasons, d.openOperationCount)) =
      some (4, false, [], 0) := by decide +kernel
  cases hread : readAfter (examplePolicy exampleStop) importCalls with
  | error e =>
    rw [hread] at hfacts
    cases hfacts
  | ok data =>
    rw [hread] at hfacts
    simp only [Except.toOption, Option.map_some, Option.some.injEq, Prod.mk.injEq] at hfacts
    obtain ⟨hreturned, hmore, htruncated, hopen⟩ := hfacts
    refine ⟨data, rfl, hreturned, ?_⟩
    refine coverage_agrees sourceHost (examplePolicy exampleStop) (fun _ => "l") importCalls _ 200
      none data (examplePolicy_ready exampleStop) ?_ rfl hread ⟨hmore, htruncated, ?_⟩ hopen
      (exampleStop_reached (by decide +kernel))
    · intro call hcall
      simp only [importCalls, coverageCalls, exampleCalls, map_cons, map_nil,
        cons_append, nil_append, mem_cons, not_mem_nil, or_false] at hcall
      rcases hcall with rfl | rfl | rfl | rfl | rfl | rfl
      · trivial
      · trivial
      · exact ⟨rfl, rfl, .inl ⟨rfl, exampleFacts_declares exampleStop⟩⟩
      · exact ⟨rfl, rfl, .inr (.inl rfl)⟩
      · trivial
      · exact ⟨rfl, rfl, .inr (.inr ⟨rfl, rfl, fun v hv => by cases hv⟩)⟩
    · rw [show sourceHost.historyBytes data = data.returned from rfl, hreturned, maxDecodedBytes]
      omega

/-- The calls of one admission with the binding of a policy; seals may declare anything. -/
def FollowsBinding (policy : CoveragePolicy) : CoverageCall laneIdOf → Prop
  | .ledger (.append kind request) =>
    request.binding = policy.binding ∧ request.admissionId = policy.admissionId ∧
      (kind = .admission ∧
          Declares policy request.producerVersion (Json.sortMembers request.facts) ∨
        kind = .prepare ∨ kind = .seal)
  | .ledger (.record _) | .ledger (.native _) | .importCursor _ _ => True

/-- A seal may declare another version than its policy, and is then not covered. -/
theorem other_version_sealed :
    ¬ ∀ (host : CoverageHost) (policy : CoveragePolicy) (laneIdOf : Int → String)
        (calls : List (CoverageCall laneIdOf)) (s : Ledger laneIdOf) (limit : Int)
        (readLimit : Option Int) (data : HistoryData), PolicyReady policy →
      (∀ call ∈ calls, FollowsBinding policy call) →
      s = (coverageMachine host policy laneIdOf).run {} calls →
      getLaneProductionHistory host s.native.toNative s.contracts s.receipts policy.binding
        policy.admissionId limit readLimit = .ok data →
      (data.hasMore = false ∧ data.truncationReasons = [] ∧
        host.historyBytes data ≤ maxDecodedBytes) →
      data.openOperationCount = 0 → ReachesAssessment policy s.receipts →
      validateCoverage host policy data = .ok () := by
  intro h
  have hfacts : (readAfter (examplePolicy exampleStart) otherSealCalls).toOption.map (fun d =>
      (d.returned, d.hasMore, d.truncationReasons, d.openOperationCount,
        decide (validateCoverage sourceHost (examplePolicy exampleStart) d = .ok ()))) =
      some (2, false, [], 0, false) := by decide +kernel
  cases hread : readAfter (examplePolicy exampleStart) otherSealCalls with
  | error e =>
    rw [hread] at hfacts
    cases hfacts
  | ok data =>
    rw [hread] at hfacts
    simp only [Except.toOption, Option.map_some, Option.some.injEq, Prod.mk.injEq] at hfacts
    obtain ⟨hreturned, hmore, htruncated, hopen, hrefused⟩ := hfacts
    have hcovered := h sourceHost (examplePolicy exampleStart) (fun _ => "l") otherSealCalls _ 200
      none data (examplePolicy_ready exampleStart) ?_ rfl hread ⟨hmore, htruncated, ?_⟩ hopen ?_
    · exact of_decide_eq_false hrefused hcovered
    · intro call hcall
      simp only [otherSealCalls, coverageCalls, exampleCalls, map_cons, map_nil,
        cons_append, nil_append, mem_cons, not_mem_nil, or_false] at hcall
      rcases hcall with rfl | rfl | rfl | rfl
      · trivial
      · trivial
      · exact ⟨rfl, rfl, .inl ⟨rfl, exampleFacts_declares exampleStart⟩⟩
      · exact ⟨rfl, rfl, .inr (.inr rfl)⟩
    · rw [show sourceHost.historyBytes data = data.returned from rfl, hreturned, maxDecodedBytes]
      omega
    · intro route hroute
      rw [mem_singleton.mp hroute]
      exact ⟨exampleStart.json, exampleStart.json, exampleStart, by decide +kernel, rfl,
        by decide +kernel, by decide +kernel⟩

end Workbay.Completion

import Workbay.Completion.Evaluate

/-!
# Earned verdicts

A lane is completed exactly when everything that its contract declares is proved for it. It is
superseded only at the end of a chain of authenticated transfers whose mappings compose to a
function from its obligations to obligations that a completed carrier covers: each round of the
walk adds one link to the chain.
-/

namespace Workbay.Completion

open List

/-! ## What a verdict has to earn -/

/-- The binding that all evidence about a lane with a contract has to carry. -/
def expectedBinding (lane : LaneCompletionEvidence) (c : CompletionContract) : EvidenceBinding :=
  ⟨lane.identity, c.revision, c.contractHash, lane.target⟩

/-- A predicate is positively verified, for exactly one binding. -/
structure ProvedFor (p : PredicateEvidence) (expected : EvidenceBinding) : Prop where
  present : p.state = .present
  bound : p.binding = some expected

/-- The lane passes validation, and product, findings, acceptance and tests are proved for exactly
its contract. -/
structure Complete (lane : LaneCompletionEvidence) (c : CompletionContract) : Prop where
  valid : validate lane = none
  contract : lane.identityScope.contract = some c
  product : ProvedFor lane.product.toPredicateEvidence (expectedBinding lane c)
  proof : ∃ kind ∈ allowedProofs lane.target.phase, lane.product.proofKind = some kind
  findings : ProvedFor lane.findings.toPredicateEvidence (expectedBinding lane c)
  findingIds : ∀ id, id ∈ lane.findings.findingIds ↔ id ∈ c.findingIds.getD []
  acceptance : ProvedFor lane.acceptance.toPredicateEvidence (expectedBinding lane c)
  acceptanceIds : ∀ id, id ∈ lane.acceptance.acceptanceIds ↔ id ∈ c.acceptanceIds
  tests : ProvedFor lane.tests.toPredicateEvidence (expectedBinding lane c)
  commands : ∀ id, id ∈ lane.tests.commands ↔ id ∈ c.requiredCommands.getD []

/-- A transfer of the snapshot hands the obligations of `source` over to `carrier`: it is
authenticated by the owner of the source, names the valid contracts of both, and maps each
obligation of the source to exactly one of the carrier. -/
structure Transferred (s : CompletionSnapshot) (source : LaneCompletionEvidence)
    (edge : TransferEvidence) (carrier : LaneCompletionEvidence) : Prop where
  recorded : edge ∈ s.transfers
  authenticated : edge.authenticated = true ∧ edge.authorityId ≠ "" ∧ edge.evidenceIds ≠ []
  sourceNamed : edge.source = source.identity ∧
    source.identityScope.contract.map CompletionContract.contractHash
      = some edge.sourceContractHash
  carrierNamed : edge.carrier = carrier.identity ∧
    carrier.identityScope.contract.map CompletionContract.contractHash
      = some edge.carrierContractHash
  assessed : ∃ evidence ∈ s.carriers, evidence.lane = carrier ∧ evidence.assessmentId ≠ "" ∧
    evidence.evidenceIds ≠ []
  valid : validate carrier = none
  total : ∀ o ∈ source.obligations, ∃! o', ⟨o, o'⟩ ∈ edge.mappings
  declared : ∀ m ∈ edge.mappings, m.predecessor ∈ source.obligations ∧
    m.carrier ∈ carrier.obligations

/-- The carrier is assessed at the integration target of the lane of the snapshot. -/
structure AtTarget (s : CompletionSnapshot) (carrier : LaneCompletionEvidence) : Prop where
  repository : carrier.identity.repository = s.lane.identity.repository
  phase : carrier.target.phase = .integration
  integrationRef : carrier.target.integrationRef = s.lane.target.integrationRef
  integrationSha : carrier.target.integrationSha = s.lane.target.integrationSha

/-- The links of a chain of transfers, each with the carrier that it leads to. -/
abbrev Links := List (TransferEvidence × LaneCompletionEvidence)

/-- The links lead from one lane to another. -/
inductive Chain (s : CompletionSnapshot) :
    LaneCompletionEvidence → Links → LaneCompletionEvidence → Prop where
  | here (lane : LaneCompletionEvidence) : Chain s lane [] lane
  | link {source carrier last : LaneCompletionEvidence} {edge : TransferEvidence} {links : Links}
      (h : Transferred s source edge carrier) (hrest : Chain s carrier links last) :
      Chain s source ((edge, carrier) :: links) last

/-- The mappings along a chain, composed. -/
def Maps : Links → Obligation → Obligation → Prop
  | [], o, o' => o = o'
  | (edge, _) :: links, o, o' => ∃ mid, ⟨o, mid⟩ ∈ edge.mappings ∧ Maps links mid o'

theorem sameIds_iff {xs ys : List String} : sameIds xs ys = true ↔ ∀ id, id ∈ xs ↔ id ∈ ys := by
  simp only [sameIds, Bool.and_eq_true, decide_eq_true_eq, subset_def]
  exact ⟨fun h id => ⟨fun hx => h.1 hx, fun hy => h.2 hy⟩,
    fun h => ⟨fun hx => (h _).mp hx, fun hy => (h _).mpr hy⟩⟩

theorem provedFor_of_no_fault {expected : EvidenceBinding} {ps : List PredicateEvidence}
    (h : predicateFault expected ps = none) {p : PredicateEvidence} (hp : p ∈ ps)
    (hpresent : p.state = .present) : ProvedFor p expected := by
  induction ps with
  | nil => cases hp
  | cons q qs ih =>
    rw [predicateFault] at h
    split at h
    · cases h
    split at h
    · cases h
    rename_i hbound
    split at h
    · cases h
    rename_i hevidence
    rcases mem_cons.mp hp with rfl | hp
    · refine ⟨hpresent, ?_⟩
      cases hb : p.binding with
      | none => exact absurd ⟨hpresent, .inl hb⟩ hevidence
      | some b =>
        have heq : b = expected := by simpa [hb] using hbound
        rw [heq]
    · exact ih h hp

variable {lane : LaneCompletionEvidence}

theorem validate_eq_none (h : validate lane = none) : ∃ c, lane.identityScope.contract = some c ∧
      (∀ p ∈ lane.predicates, p.state = .present → ProvedFor p (expectedBinding lane c)) ∧
      (lane.unmet.state = .present →
        lane.unmet.obligations ≠ [] ∧ lane.unmet.obligations ⊆ lane.obligations) := by
  simp only [validate] at h
  split at h
  · cases h
  split at h
  · cases h
  rename_i c hc
  split at h
  · cases h
  split at h
  · cases h
  split at h
  · cases h
  rename_i hfault
  split at h
  · cases h
  split at h
  · cases h
  rename_i hunmet
  refine ⟨c, hc, fun p hp hpresent => provedFor_of_no_fault hfault hp hpresent, fun hpresent => ?_⟩
  constructor
  · intro hnil
    exact hunmet ⟨hpresent, .inl hnil⟩
  · by_contra hsub
    exact hunmet ⟨hpresent, .inr hsub⟩

theorem reasonUnless_eq_nil {proved : Bool} {reason : CompletionReason} :
    reasonUnless proved reason = [] ↔ proved = true := by
  cases proved <;> simp [reasonUnless]

variable {c : CompletionContract} {s : CompletionSnapshot} {source : LaneCompletionEvidence}
  {edge : TransferEvidence} {first : Bool} {seen : List (String × String × String)}
  {seenRows : List (String × Int)}

theorem directReasons_eq_nil (hvalid : validate lane = none)
    (hc : lane.identityScope.contract = some c) : directReasons lane c = [] ↔ Complete lane c := by
  obtain ⟨c', hc', hbound, _⟩ := validate_eq_none hvalid
  obtain rfl : c' = c := Option.some.inj (hc'.symm.trans hc)
  simp only [directReasons, append_eq_nil_iff, reasonUnless_eq_nil, Bool.and_eq_true,
    decide_eq_true_eq, sameIds_iff, Option.any_eq_true]
  constructor
  · rintro ⟨⟨⟨⟨hp, kind, hkind, hallowed⟩, hf, hfids⟩, ha, haids⟩, ht, htids⟩
    exact {
      valid := hvalid
      contract := hc
      product := hbound _ (by simp [LaneCompletionEvidence.predicates]) hp
      proof := ⟨kind, hallowed, hkind⟩
      findings := hbound _ (by simp [LaneCompletionEvidence.predicates]) hf
      findingIds := hfids
      acceptance := hbound _ (by simp [LaneCompletionEvidence.predicates]) ha
      acceptanceIds := haids
      tests := hbound _ (by simp [LaneCompletionEvidence.predicates]) ht
      commands := htids }
  · intro h
    obtain ⟨kind, hallowed, hkind⟩ := h.proof
    exact ⟨⟨⟨⟨h.product.present, kind, hkind, hallowed⟩, h.findings.present, h.findingIds⟩,
      h.acceptance.present, h.acceptanceIds⟩, h.tests.present, h.commands⟩

theorem Complete.fulfilled (h : Complete lane c) {o : Obligation} (ho : o ∈ lane.obligations) :
    o ∈ lane.fulfilled := by
  simp only [LaneCompletionEvidence.obligations, h.contract, CompletionContract.obligations,
    mem_obligationsOf] at ho
  simp only [LaneCompletionEvidence.fulfilled, h.findings.present, h.acceptance.present,
    h.tests.present, if_true, mem_obligationsOf]
  cases hkind : o.kind with
  | finding => exact (h.findingIds _).mpr (by simpa [hkind] using ho)
  | acceptance => exact (h.acceptanceIds _).mpr (by simpa [hkind] using ho)
  | test => exact (h.commands _).mpr (by simpa [hkind] using ho)

theorem transferCovers_spec {mappings : List ObligationTransfer} {source carrier : List Obligation}
    (h : transferCovers mappings source carrier = true) :
    (∀ o ∈ source, ∃! o', ⟨o, o'⟩ ∈ mappings) ∧
      ∀ m ∈ mappings, m.predecessor ∈ source ∧ m.carrier ∈ carrier := by
  simp only [transferCovers, Bool.and_eq_true, decide_eq_true_eq] at h
  obtain ⟨⟨⟨hsub, hsup⟩, hlen⟩, hcarrier⟩ := h
  have hpred : ∀ o, o ∈ mappings.dedup.map ObligationTransfer.predecessor ↔ o ∈ source.dedup := by
    intro o
    simp only [mem_map, mem_dedup]
    constructor
    · rintro ⟨m, hm, rfl⟩
      exact hsub (mem_map_of_mem hm)
    · intro ho
      exact mem_map.mp (hsup ho)
  have hnodup : (mappings.dedup.map ObligationTransfer.predecessor).Nodup := by
    have hle : source.dedup.Subperm (mappings.dedup.map ObligationTransfer.predecessor) :=
      subperm_of_subset (nodup_dedup source) fun o ho => (hpred o).mpr ho
    have hperm := hle.perm_of_length_le (by rw [length_map, hlen])
    exact hperm.nodup_iff.mp (nodup_dedup source)
  refine ⟨fun o ho => ?_, fun m hm => ⟨hsub (mem_map_of_mem hm),
    hcarrier (mem_map_of_mem hm)⟩⟩
  obtain ⟨⟨p, o'⟩, hm, rfl⟩ := mem_map.mp (hsup ho)
  refine ⟨o', hm, fun o'' hm' => ?_⟩
  have heq := inj_on_of_nodup_map hnodup (mem_dedup.mpr hm) (mem_dedup.mpr hm') rfl
  exact (ObligationTransfer.mk.inj heq).2.symm

theorem hopTo_carried {edge' : TransferEvidence} {evidence : CarrierEvidence}
    (h : hopTo s source edge evidence = .carried edge' lane c) :
    edge' = edge ∧ lane = evidence.lane ∧ validate lane = none ∧
      lane.identityScope.contract = some c ∧ evidence.assessmentId ≠ "" ∧
      evidence.evidenceIds ≠ [] ∧ edge.carrier = lane.identity ∧
      edge.carrierContractHash = c.contractHash ∧ AtTarget s lane ∧
      transferCovers edge.mappings source.obligations lane.obligations = true := by
  rw [hopTo] at h
  split at h
  case h_2 => cases h
  rename_i c' hvalid hcontract
  split at h
  · cases h
  rename_i hnamed
  split at h
  · cases h
  rename_i htarget
  split at h
  · cases h
  rename_i hcovers
  cases h
  simp only [not_or, not_not] at hnamed
  simp only [carrierTarget, Decidable.not_not, Bool.and_eq_true, decide_eq_true_eq] at htarget
  obtain ⟨⟨⟨hrepo, hphase⟩, href⟩, hsha⟩ := htarget
  exact ⟨rfl, rfl, hvalid, hcontract, hnamed.1, hnamed.2.1, hnamed.2.2.1, hnamed.2.2.2,
    ⟨hrepo, hphase, href, hsha⟩, by simpa using hcovers⟩

/-- A round that ends at a carrier has followed one transfer, to a lane and a row that the walk has
not seen. -/
theorem hop_carried {c' : CompletionContract} {ids : List String}
    (hc : source.identityScope.contract = some c)
    (h : hop s first source c seen seenRows = (.carried edge lane c', ids)) :
    Transferred s source edge lane ∧ lane.identityScope.contract = some c' ∧ AtTarget s lane ∧
      edge.carrier.laneKey ∉ seen ∧ edge.carrier.rowKey ∉ seenRows := by
  rw [hop] at h
  split at h
  · cases h
  · rename_i edge₀ hedges
    split at h
    · cases h
    rename_i hauthentic
    split at h
    · cases h
    rename_i hseen
    split at h
    · cases h
    rename_i hrows
    split at h
    · cases h
    · rename_i evidence hcarriers
      obtain ⟨hto, -⟩ := Prod.mk.inj h
      obtain ⟨rfl, rfl, hvalid, hcontract, hassessed, hevidence, hcarrier, hhash, htarget,
        hcovers⟩ := hopTo_carried hto
      have hmem : edge ∈ s.edgesOf source.identity := by rw [hedges]; exact mem_singleton_self _
      have hmem' : evidence ∈ s.carriersOf edge.carrier.laneKey := by
        rw [hcarriers]; exact mem_singleton_self _
      simp only [CompletionSnapshot.edgesOf, mem_dedup, mem_filter] at hmem
      simp only [CompletionSnapshot.carriersOf, mem_dedup, mem_filter] at hmem'
      simp only [transferAuthentic, Decidable.not_not, Bool.and_eq_true,
        decide_eq_true_eq] at hauthentic
      obtain ⟨⟨⟨⟨hauth, hauthority⟩, hids⟩, hsource⟩, hsourceHash⟩ := hauthentic
      obtain ⟨htotal, hdeclared⟩ := transferCovers_spec hcovers
      exact ⟨{
        recorded := hmem.1
        authenticated := ⟨hauth, hauthority, hids⟩
        sourceNamed := ⟨hsource, by rw [hc, hsourceHash]; rfl⟩
        carrierNamed := ⟨hcarrier, by rw [hcontract, hhash]; rfl⟩
        assessed := ⟨evidence, hmem'.1, rfl, hassessed, hevidence⟩
        valid := hvalid
        total := htotal
        declared := hdeclared }, hcontract, htarget, hseen, hrows⟩
    · cases h
  · cases h

theorem hopTo_stop_ne {evidence : CarrierEvidence} {reason : Option CompletionReason}
    (h : hopTo s source edge evidence = .stop reason) : reason ≠ some .carrierCompleted := by
  rw [hopTo] at h
  split at h
  · split at h
    · cases h; simp
    split at h
    · cases h; simp
    split at h
    · cases h; simp
    · cases h
  · cases h; simp

theorem hop_stop_ne {reason : Option CompletionReason} {ids : List String}
    (h : hop s first source c seen seenRows = (.stop reason, ids)) :
    reason ≠ some .carrierCompleted := by
  rw [hop] at h
  split at h
  · cases h
    cases first <;> simp
  · split at h
    · cases h; simp
    split at h
    · cases h; simp
    split at h
    · cases h; simp
    split at h
    · cases h; simp
    · exact hopTo_stop_ne (Prod.mk.inj h).1
    · cases h; simp
  · cases h; simp

/-- The lanes of a chain behind its first. -/
def carrierIdentities (links : Links) : List LaneIdentity := links.map fun link => link.2.identity

/-- A walk that ends at a completed carrier has followed a chain through lanes and rows that differ
from each other and from those seen before; by induction on the rounds. -/
theorem carrierWalk_completed {rounds : Nat} (hc : source.identityScope.contract = some c)
    (h : (carrierWalk s rounds first source c seen seenRows).1 = some .carrierCompleted)
    (hseen : seen.Nodup) (hrows : seenRows.Nodup) :
    ∃ links carrier c', links ≠ [] ∧ links.length ≤ rounds ∧ Chain s source links carrier ∧
      (seen.reverse ++ (carrierIdentities links).map LaneIdentity.laneKey).Nodup ∧
      (seenRows.reverse ++ (carrierIdentities links).map LaneIdentity.rowKey).Nodup ∧
      Complete carrier c' ∧ AtTarget s carrier := by
  induction rounds generalizing first source c seen seenRows with
  | zero => simp [carrierWalk] at h
  | succ rounds ih =>
    rw [carrierWalk] at h
    split at h
    · rename_i reason ids hstop
      exact absurd h (hop_stop_ne hstop)
    rename_i edge lane c' ids hhop
    obtain ⟨htransfer, hcontract, htarget, hkey, hrow⟩ := hop_carried hc hhop
    have hkey' : (edge.carrier.laneKey :: seen).Nodup := nodup_cons.mpr ⟨hkey, hseen⟩
    have hrow' : (edge.carrier.rowKey :: seenRows).Nodup := nodup_cons.mpr ⟨hrow, hrows⟩
    split at h
    · rename_i hdirect
      refine ⟨[(edge, lane)], lane, c', by simp, by simp, .link htransfer (.here lane), ?_, ?_,
        (directReasons_eq_nil htransfer.valid hcontract).mp hdirect, htarget⟩
      · have := nodup_reverse.mpr hkey'
        simpa [carrierIdentities, htransfer.carrierNamed.1] using this
      · have := nodup_reverse.mpr hrow'
        simpa [carrierIdentities, htransfer.carrierNamed.1] using this
    · obtain ⟨links, carrier, c'', _, hlen, hchain, hkeys, hrowKeys, hcomplete, hat⟩ :=
        ih hcontract h hkey' hrow'
      refine ⟨(edge, lane) :: links, carrier, c'', by simp, by simpa using hlen,
        .link htransfer hchain, ?_, ?_, hcomplete, hat⟩
      · simpa [carrierIdentities, htransfer.carrierNamed.1] using hkeys
      · simpa [carrierIdentities, htransfer.carrierNamed.1] using hrowKeys

theorem Chain.maps {last : LaneCompletionEvidence} {links : Links} (h : Chain s source links last)
    {o : Obligation} (ho : o ∈ source.obligations) :
    ∃ o' ∈ last.obligations, ∀ o'', Maps links o o'' ↔ o'' = o' := by
  induction h generalizing o with
  | here lane => exact ⟨o, ho, fun o'' => eq_comm⟩
  | link htransfer _ ih =>
    obtain ⟨mid, hmid, hunique⟩ := htransfer.total o ho
    obtain ⟨o', ho', hmaps⟩ := ih (htransfer.declared _ hmid).2
    refine ⟨o', ho', fun o'' => ?_⟩
    constructor
    · rintro ⟨mid', hmid', hrest⟩
      obtain rfl := hunique mid' hmid'
      exact (hmaps o'').mp hrest
    · intro heq
      exact ⟨mid, hmid, (hmaps o'').mpr heq⟩

/-- Every verdict is the one of the branch that `evaluate` takes. -/
theorem evaluate_verdict (digest : CompletionSnapshot → CompletionVerdict → String)
    (s : CompletionSnapshot) :
    (evaluate digest s).verdict =
      match validate s.lane, s.lane.identityScope.contract with
      | none, some c =>
        if directReasons s.lane c = [] then .completed
        else match (carrierResult s c).1 with
          | some reason => if reason = .carrierCompleted then .superseded else .unknown
          | none => (unfinished s.lane (directReasons s.lane c)).1
      | _, _ => .unknown := by
  simp only [evaluate]
  split
  · rename_i hinvalid
    rw [hinvalid]
    rfl
  · rename_i hvalid hc
    rw [hvalid, hc]
    rfl
  · rename_i c hvalid hc
    simp only [hvalid, hc]
    split
    · rfl
    · split
      · rename_i hresult
        rw [hresult]
        rfl
      · rename_i hresult
        rw [hresult]
        rfl

theorem unfinished_verdict (lane : LaneCompletionEvidence) (reasons : List CompletionReason) :
    (unfinished lane reasons).1 ≠ .completed ∧ (unfinished lane reasons).1 ≠ .superseded ∧
      ((unfinished lane reasons).1 ≠ .unknown → lane.unmet.state = .present) := by
  rw [unfinished]
  split
  · rename_i h; simp [h.1]
  split
  · rename_i h; simp [h.1]
  split
  · simp
  · simp

theorem completed_iff (digest : CompletionSnapshot → CompletionVerdict → String)
    (s : CompletionSnapshot) :
    (evaluate digest s).verdict = .completed ↔ ∃ c, Complete s.lane c := by
  rw [evaluate_verdict]
  constructor
  · intro h
    split at h
    · rename_i c hvalid hc
      split at h
      · rename_i hdirect
        exact ⟨c, (directReasons_eq_nil hvalid hc).mp hdirect⟩
      · split at h
        · split at h <;> cases h
        · exact absurd h (unfinished_verdict _ _).1
    · cases h
  · rintro ⟨c, hcomplete⟩
    have hdirect := (directReasons_eq_nil hcomplete.valid hcomplete.contract).mpr hcomplete
    simp only [hcomplete.valid, hcomplete.contract, hdirect, if_true]

theorem superseded_chain {digest : CompletionSnapshot → CompletionVerdict → String}
    (h : (evaluate digest s).verdict = .superseded) :
    ∃ links carrier c, links ≠ [] ∧ links.length ≤ 8 ∧ Chain s s.lane links carrier ∧
      ((s.lane.identity :: carrierIdentities links).map LaneIdentity.laneKey).Nodup ∧
      ((s.lane.identity :: carrierIdentities links).map LaneIdentity.rowKey).Nodup ∧
      Complete carrier c ∧ AtTarget s carrier := by
  rw [evaluate_verdict] at h
  split at h
  · rename_i c hvalid hc
    split at h
    · cases h
    split at h
    · rename_i reason hreason
      split at h
      · rename_i hcompleted
        rw [hcompleted] at hreason
        have hwalk := carrierWalk_completed hc hreason (nodup_singleton _)
          (nodup_singleton _)
        simpa using hwalk
      · cases h
    · exact absurd h (unfinished_verdict _ _).2.1
  · cases h

theorem unfinished_unmet {digest : CompletionSnapshot → CompletionVerdict → String}
    (h : (evaluate digest s).verdict = .unfinishedNeverProduced ∨
      (evaluate digest s).verdict = .unfinishedPartial) :
    ∃ c, s.lane.identityScope.contract = some c ∧
      ProvedFor s.lane.unmet.toPredicateEvidence (expectedBinding s.lane c) ∧
      ∃ o ∈ s.lane.obligations, o ∈ s.lane.unmet.obligations := by
  rw [evaluate_verdict] at h
  split at h
  · rename_i c hvalid hc
    obtain ⟨c', hc', hbound, hunmet⟩ := validate_eq_none hvalid
    split at h
    · rcases h with h | h <;> cases h
    split at h
    · split at h <;> rcases h with h | h <;> cases h
    · have hpresent : s.lane.unmet.state = .present := by
        apply (unfinished_verdict s.lane (directReasons s.lane c)).2.2
        rcases h with h | h <;> simp [h]
      obtain ⟨hne, hsub⟩ := hunmet hpresent
      obtain ⟨o, ho⟩ := exists_mem_of_ne_nil _ hne
      exact ⟨c', hc', hbound _ (by simp [LaneCompletionEvidence.predicates]) hpresent,
        o, hsub ho, ho⟩
  · rcases h with h | h <;> cases h

/-- A verdict is earned and no obligation is lost. A lane is completed exactly if it is complete by
itself; it is superseded only at the end of a chain of at most eight authenticated transfers,
through different lanes and rows, to a carrier that is complete at the integration target of the
lane, where the mappings compose to a function into what the carrier covers; it is unfinished only
with an unmet obligation of its own; and neither holds nor ancestry change the verdict. -/
theorem verdict_earned (digest : CompletionSnapshot → CompletionVerdict → String)
    (s : CompletionSnapshot) :
    ((evaluate digest s).verdict = .completed ↔ ∃ c, Complete s.lane c) ∧
    ((evaluate digest s).verdict = .superseded →
      ∃ links carrier c, links ≠ [] ∧ links.length ≤ 8 ∧ Chain s s.lane links carrier ∧
        ((s.lane.identity :: carrierIdentities links).map LaneIdentity.laneKey).Nodup ∧
        ((s.lane.identity :: carrierIdentities links).map LaneIdentity.rowKey).Nodup ∧
        Complete carrier c ∧ AtTarget s carrier ∧
        ∀ o ∈ s.lane.obligations, ∃ o' ∈ carrier.fulfilled, ∀ o'', Maps links o o'' ↔ o'' = o') ∧
    (((evaluate digest s).verdict = .unfinishedNeverProduced ∨
        (evaluate digest s).verdict = .unfinishedPartial) →
      ∃ c, s.lane.identityScope.contract = some c ∧
        ProvedFor s.lane.unmet.toPredicateEvidence (expectedBinding s.lane c) ∧
        ∃ o ∈ s.lane.obligations, o ∈ s.lane.unmet.obligations) ∧
    ∀ sourceHolds custodyHolds ancestryContained aheadOfIntegration,
      (evaluate digest { s with
        sourceHolds := sourceHolds, custodyHolds := custodyHolds,
        ancestryContained := ancestryContained,
        aheadOfIntegration := aheadOfIntegration }).verdict = (evaluate digest s).verdict := by
  refine ⟨completed_iff digest s, fun h => ?_, unfinished_unmet, fun _ _ _ _ => ?_⟩
  · obtain ⟨links, carrier, c, hne, hlen, hchain, hkeys, hrows, hcomplete, hat⟩ :=
      superseded_chain h
    refine ⟨links, carrier, c, hne, hlen, hchain, hkeys, hrows, hcomplete, hat, fun o ho => ?_⟩
    obtain ⟨o', ho', hmaps⟩ := hchain.maps ho
    exact ⟨o', hcomplete.fulfilled ho', hmaps⟩
  · rw [evaluate_verdict, evaluate_verdict]
    rfl

end Workbay.Completion

import Workbay.Compiler.Compile
import Workbay.Graph.Proofs.UnionFindProofs

/-!
# Proofs: the lanes are the classes of the items
-/

namespace Workbay.Compiler

open Relation Workbay.Manifest Workbay.Graph List Dict

theorem minOf_eq {members : List String} {least : String} (hin : least ∈ members)
    (hle : ∀ member ∈ members, least ≤ member) : minOf members = least := by
  unfold minOf
  have hsorted := (sortedLE_insertionSort (l := members)).pairwise
  cases hsort : members.insertionSort (· ≤ ·) with
  | nil =>
    have hmem := (mem_insertionSort (· ≤ ·)).mpr hin
    rw [hsort] at hmem
    cases hmem
  | cons first rest =>
    have hfirst : first ∈ members := by
      rw [← mem_insertionSort (· ≤ ·), hsort]
      exact mem_cons_self
    have hmem : least ∈ first :: rest := by
      rw [← hsort]
      exact (mem_insertionSort (· ≤ ·)).mpr hin
    rw [hsort] at hsorted
    refine le_antisymm ?_ (hle first hfirst)
    rcases mem_cons.mp hmem with heq | hrest
    · exact heq.symm.le
    · exact (pairwise_cons.mp hsorted).1 least hrest

section

variable {parent : Dict String String}

variable {members : List String} {member root lane : String}

section

variable (hforest : Forest parent)

include hforest

theorem mem_rootsOf (hmembers : ∀ x, x ∈ members ↔ IsMember parent x) :
    (member, root) ∈ rootsOf parent members ↔ Leads parent member root := by
  obtain ⟨hkeys, hleads⟩ := rootsOf_spec members hforest fun x hx => (hmembers x).mp hx
  constructor
  · exact fun hin => hleads _ hin
  · intro h
    have hin : member ∈ (rootsOf parent members).map Prod.fst := by
      rw [hkeys]
      exact (hmembers member).mpr h.isMember
    obtain ⟨⟨x, root'⟩, hpair, rfl⟩ := mem_map.mp hin
    obtain rfl := (hleads _ hpair).unique h
    exact hpair

theorem mem_components : (root, members) ∈ components parent →
      (∀ member, member ∈ members ↔ Leads parent member root) ∧ minOf members = root := by
  intro hin
  have hsorted : ∀ x, x ∈ (parent.map Prod.fst).insertionSort (· ≤ ·) ↔ IsMember parent x :=
    fun x => mem_insertionSort (· ≤ ·)
  unfold components at hin
  simp only at hin
  rw [mem_insertionSort, mem_group] at hin
  obtain ⟨rfl, hkey⟩ := hin
  have hmem : ∀ member, member ∈ (((rootsOf parent
      ((parent.map Prod.fst).insertionSort (· ≤ ·))).map fun entry =>
        (entry.2, entry.1)).filter fun pair => pair.1 = root).map Prod.snd ↔
      Leads parent member root := by
    intro member
    rw [← getD_group, mem_getD_group, mem_map]
    constructor
    · rintro ⟨⟨x, root'⟩, hin, heq⟩
      obtain ⟨rfl, rfl⟩ := Prod.mk.inj heq
      exact (mem_rootsOf hforest hsorted).mp hin
    · exact fun h => ⟨(member, root), (mem_rootsOf hforest hsorted).mpr h, rfl⟩
  refine ⟨hmem, minOf_eq ?_ fun member hmember => ((hmem member).mp hmember).le hforest⟩
  obtain ⟨⟨root', member⟩, hpair, rfl⟩ := mem_map.mp hkey
  obtain ⟨⟨x, y⟩, hin, heq⟩ := mem_map.mp hpair
  obtain ⟨rfl, rfl⟩ := Prod.mk.inj heq
  exact (hmem _).mpr (Leads.self ((mem_rootsOf hforest hsorted).mp hin).2)

theorem exists_mem_components (h : Leads parent member root) :
    ∃ members, (root, members) ∈ components parent := by
  have hsorted : ∀ x, x ∈ (parent.map Prod.fst).insertionSort (· ≤ ·) ↔ IsMember parent x :=
    fun x => mem_insertionSort (· ≤ ·)
  unfold components
  simp only [mem_insertionSort, mem_group]
  refine ⟨_, rfl, mem_map.mpr ⟨(root, member), mem_map.mpr ⟨(member, root), ?_, rfl⟩, rfl⟩⟩
  exact (mem_rootsOf hforest hsorted).mpr h

theorem mem_canonicalMap :
    (member, lane) ∈ canonicalMap (components parent) ↔ Leads parent member lane := by
  unfold canonicalMap
  rw [mem_flatMap]
  constructor
  · rintro ⟨⟨root, members⟩, hin, hmem⟩
    obtain ⟨hmembers, hmin⟩ := mem_components hforest hin
    obtain ⟨other, hother, heq⟩ := mem_map.mp hmem
    obtain ⟨rfl, rfl⟩ := Prod.mk.inj heq
    rw [hmin]
    exact (hmembers _).mp hother
  · intro h
    obtain ⟨members, hin⟩ := exists_mem_components hforest h
    obtain ⟨hmembers, hmin⟩ := mem_components hforest hin
    exact ⟨(lane, members), hin, mem_map.mpr ⟨member, (hmembers member).mpr h, by rw [hmin]⟩⟩

theorem laneOf_leads (h : IsMember parent member) :
    Leads parent member (laneOf (canonicalMap (components parent)) member) := by
  obtain ⟨root, hroot⟩ := hforest.leads_of_isMember h
  have hkey : member ∈ (canonicalMap (components parent)).map Prod.fst :=
    mem_map.mpr ⟨(member, root), (mem_canonicalMap hforest).mpr hroot, rfl⟩
  obtain ⟨lane, hlane⟩ := Option.isSome_iff_exists.mp (get?_isSome_iff.mpr hkey)
  unfold laneOf Dict.getD
  rw [hlane]
  exact (mem_canonicalMap hforest).mp (mem_of_get? hlane)

theorem laneOf_eq_iff {a b : String} (ha : IsMember parent a) (hb : IsMember parent b) :
    laneOf (canonicalMap (components parent)) a =
      laneOf (canonicalMap (components parent)) b ↔ SameRoot parent a b := by
  have hleadsA := laneOf_leads hforest ha
  have hleadsB := laneOf_leads hforest hb
  constructor
  · exact fun heq => ⟨_, hleadsA, heq ▸ hleadsB⟩
  · rintro ⟨root, hrootA, hrootB⟩
    exact (hleadsA.unique hrootA).trans (hleadsB.unique hrootB).symm

theorem mem_membersByLane : (lane, members) ∈ membersByLane (canonicalMap (components parent)) →
      (∀ member, member ∈ members ↔ Leads parent member lane) ∧
        ∃ member, Leads parent member lane := by
  unfold membersByLane
  intro hin
  obtain ⟨⟨lane', group⟩, hgroup, heq⟩ := mem_map.mp hin
  obtain ⟨rfl, rfl⟩ := Prod.mk.inj heq
  obtain ⟨rfl, hkey⟩ := mem_group.mp hgroup
  constructor
  · intro member
    rw [mem_insertionSort, ← getD_group, mem_getD_group, ← mem_canonicalMap hforest,
      mem_map]
    constructor
    · rintro ⟨⟨x, y⟩, hmem, heq⟩
      obtain ⟨rfl, rfl⟩ := Prod.mk.inj heq
      exact hmem
    · exact fun hmem => ⟨(member, lane'), hmem, rfl⟩
  · obtain ⟨⟨x, member⟩, hpair, rfl⟩ := mem_map.mp hkey
    obtain ⟨⟨m, l⟩, hmem, heq⟩ := mem_map.mp hpair
    obtain ⟨rfl, rfl⟩ := Prod.mk.inj heq
    exact ⟨_, (mem_canonicalMap hforest).mp hmem⟩

theorem exists_mem_membersByLane (h : Leads parent member lane) :
    ∃ members, (lane, members) ∈ membersByLane (canonicalMap (components parent)) := by
  unfold membersByLane
  refine ⟨_, mem_map.mpr ⟨(lane, _), mem_group.mpr ⟨rfl, ?_⟩, rfl⟩⟩
  exact mem_map.mpr ⟨(lane, member), mem_map.mpr
    ⟨(member, lane), (mem_canonicalMap hforest).mpr h, rfl⟩, rfl⟩

end

theorem membersByLane_nodup (canon : Dict String String) :
    ((membersByLane canon).map Prod.fst).Nodup := by
  unfold membersByLane
  rw [List.map_map]
  exact nodup_group _

end

/-! ## The relation that the items are joined by -/

/-- One item names another one in `fuse_with`. -/
def Fuses (byId : Items) (a b : String) : Prop :=
  a ∈ sortedIds byId ∧ isOperator byId a = true ∧
    .str b ∈ ((orEmpty (itemOf byId a) "fuse_with").arr?.getD [])

/-- Two items share a root, or one names the other one in `fuse_with`. -/
def Joined (byId : Items) (a b : String) : Prop :=
  (a ∈ sortedIds byId ∧ b ∈ sortedIds byId ∧
    ∃ root, root ∈ rootsOfItem byId a ∧ root ∈ rootsOfItem byId b) ∨ Fuses byId a b

variable {byId : Items}

variable {itemId : String}

theorem mem_sortedIds : itemId ∈ sortedIds byId ↔ itemId ∈ byId.map Prod.fst :=
  mem_insertionSort (· ≤ ·)

theorem mem_readOperators {β : Type} {field : String} {read : String → Json → Except Refusal β}
    {values : List (List β)} (h : readOperators byId field read = .ok values) {value : β} :
    value ∈ values.flatten ↔ ∃ itemId ∈ sortedIds byId, isOperator byId itemId = true ∧
      ∃ entry ∈ (orEmpty (itemOf byId itemId) field).arr?.getD [],
        read itemId entry = .ok value := by
  unfold readOperators at h
  obtain ⟨readItem, hread, hitem⟩ : ∃ readItem, readAll readItem (sortedIds byId) = .ok values ∧
      ∀ itemId row, readItem itemId = Except.ok row → (value ∈ row ↔
        isOperator byId itemId = true ∧ ∃ entry ∈ (orEmpty (itemOf byId itemId) field).arr?.getD [],
          read itemId entry = .ok value) := by
    refine ⟨_, h, ?_⟩
    intro itemId row hrow
    split at hrow
    · rename_i hoperator
      rw [hoperator, eq_self, true_and]
      split at hrow
      · rename_i entries hentries
        rw [hentries]
        constructor
        · exact fun hin => exists_of_mem_readAll hrow hin
        · rintro ⟨entry, hentry, hread⟩
          obtain ⟨value', hvalue, hread'⟩ := exists_of_readAll hrow hentry
          obtain rfl := Except.ok.inj (hread.symm.trans hread')
          exact hvalue
      · cases hrow
    · rename_i hoperator
      obtain rfl := Except.ok.inj hrow
      simp [hoperator]
  rw [mem_flatten]
  constructor
  · rintro ⟨row, hrow, hin⟩
    obtain ⟨itemId, hid, hrowOf⟩ := exists_of_mem_readAll hread hrow
    exact ⟨itemId, hid, (hitem itemId row hrowOf).mp hin⟩
  · rintro ⟨itemId, hid, hoperator, hentry⟩
    obtain ⟨row, hrow, hrowOf⟩ := exists_of_readAll hread hid
    exact ⟨row, hrow, (hitem itemId row hrowOf).mpr ⟨hoperator, hentry⟩⟩

theorem readOperators_read {β : Type} {field : String} {read : String → Json → Except Refusal β}
    {values : List (List β)} (h : readOperators byId field read = .ok values)
    (hid : itemId ∈ sortedIds byId) (hoperator : isOperator byId itemId = true) {entry : Json}
    (hentry : entry ∈ (orEmpty (itemOf byId itemId) field).arr?.getD []) :
    ∃ value, read itemId entry = .ok value := by
  unfold readOperators at h
  obtain ⟨row, -, hread⟩ := exists_of_readAll h hid
  rw [if_pos hoperator] at hread
  split at hread
  · rename_i entries hentries
    rw [hentries] at hentry
    obtain ⟨value, -, hvalue⟩ := exists_of_readAll hread hentry
    exact ⟨value, hvalue⟩
  · cases hread

theorem fusePartner_eq_ok {partner : Json} {pair : String × String} :
    fusePartner byId itemId partner = .ok pair ↔
      pair.2 ∈ byId.map Prod.fst ∧ partner = .str pair.2 ∧ pair.1 = itemId := by
  obtain ⟨a, b⟩ := pair
  unfold fusePartner
  cases partner with
  | str name =>
    rw [← get?_isSome_iff]
    simp only [Json.str.injEq]
    split
    · rename_i hknown
      constructor
      · intro h
        obtain ⟨rfl, rfl⟩ := Prod.mk.inj (Except.ok.inj h)
        exact ⟨hknown, rfl, rfl⟩
      · rintro ⟨-, rfl, rfl⟩
        rfl
    · rename_i hunknown
      constructor
      · intro h
        cases h
      · rintro ⟨hknown, rfl, -⟩
        exact absurd hknown hunknown
  | _ => simp

theorem rootPairs_joined {a b : String} (h : (a, b) ∈ rootPairs byId) :
    a ∈ sortedIds byId ∧ b ∈ sortedIds byId ∧
      ∃ root, root ∈ rootsOfItem byId a ∧ root ∈ rootsOfItem byId b := by
  unfold rootPairs at h
  simp only at h
  obtain ⟨root, -, hpair⟩ := mem_flatMap.mp h
  split at hpair
  · cases hpair
  · rename_i anchor others hfilter
    obtain ⟨other, hother, heq⟩ := mem_map.mp hpair
    obtain ⟨rfl, rfl⟩ := Prod.mk.inj heq
    have hmem : ∀ x ∈ anchor :: others, x ∈ sortedIds byId ∧ root ∈ rootsOfItem byId x := by
      intro x hx
      rw [← hfilter] at hx
      obtain ⟨hin, hroot⟩ := mem_filter.mp hx
      exact ⟨hin, of_decide_eq_true hroot⟩
    obtain ⟨ha, hrootA⟩ := hmem anchor mem_cons_self
    obtain ⟨hb, hrootB⟩ := hmem other (mem_cons_of_mem _ hother)
    exact ⟨ha, hb, root, hrootA, hrootB⟩

theorem eqvGen_rootPairs {a b root : String} (ha : a ∈ sortedIds byId) (hb : b ∈ sortedIds byId)
    (hrootA : root ∈ rootsOfItem byId a) (hrootB : root ∈ rootsOfItem byId b) :
    EqvGen (fun u v => (u, v) ∈ rootPairs byId) a b := by
  have hroot : root ∈ (((sortedIds byId).flatMap (rootsOfItem byId)).dedup).insertionSort (· ≤ ·) :=
    (mem_insertionSort (· ≤ ·)).mpr
      (mem_dedup.mpr (mem_flatMap.mpr ⟨a, ha, hrootA⟩))
  cases hfilter : (sortedIds byId).filter fun itemId => root ∈ rootsOfItem byId itemId with
  | nil =>
    have hin : a ∈ (sortedIds byId).filter fun itemId => root ∈ rootsOfItem byId itemId :=
      mem_filter.mpr ⟨ha, decide_eq_true hrootA⟩
    rw [hfilter] at hin
    cases hin
  | cons anchor others =>
    have hfrom : ∀ x ∈ sortedIds byId, root ∈ rootsOfItem byId x →
        EqvGen (fun u v => (u, v) ∈ rootPairs byId) anchor x := by
      intro x hx hrootX
      have hin : x ∈ anchor :: others := by
        rw [← hfilter]
        exact mem_filter.mpr ⟨hx, decide_eq_true hrootX⟩
      rcases mem_cons.mp hin with rfl | hin
      · exact EqvGen.refl _
      · refine EqvGen.rel _ _ (mem_flatMap.mpr ⟨root, hroot, ?_⟩)
        rw [hfilter]
        exact mem_map.mpr ⟨x, hin, rfl⟩
    exact EqvGen.trans _ _ _ (EqvGen.symm _ _ (hfrom a ha hrootA)) (hfrom b hb hrootB)

theorem buildUnion_spec {parent : Dict String String} (hdistinct : (byId.map Prod.fst).Nodup)
    (h : buildUnion byId = .ok parent) :
    Forest parent ∧ (∀ x, IsMember parent x ↔ x ∈ sortedIds byId) ∧
      ∀ a b, a ∈ sortedIds byId → b ∈ sortedIds byId →
        (SameRoot parent a b ↔ EqvGen (Joined byId) a b) := by
  unfold buildUnion at h
  cases hfused : readOperators byId "fuse_with" (fusePartner byId) with
  | error refusal =>
    rw [hfused] at h
    cases h
  | ok fused =>
    rw [hfused] at h
    obtain rfl := Except.ok.inj h
    have hnodup : (sortedIds byId).Nodup :=
      (List.perm_insertionSort (· ≤ ·) _).nodup_iff.mpr hdistinct
    have hkeys : (singletons (sortedIds byId)).map Prod.fst = sortedIds byId := by
      unfold singletons
      rw [List.map_map]
      exact List.map_id _
    have hmember : ∀ x, IsMember (singletons (sortedIds byId)) x ↔ x ∈ sortedIds byId := by
      intro x
      unfold IsMember
      rw [hkeys]
    have hfuses : ∀ a b, (a, b) ∈ fused.flatten ↔ b ∈ sortedIds byId ∧ Fuses byId a b := by
      intro a b
      rw [mem_readOperators hfused]
      constructor
      · rintro ⟨itemId, hid, hoperator, entry, hentry, hread⟩
        obtain ⟨hb, rfl, rfl⟩ := fusePartner_eq_ok.mp hread
        exact ⟨mem_sortedIds.mpr hb, hid, hoperator, hentry⟩
      · rintro ⟨hb, ha, hoperator, hentry⟩
        exact ⟨a, ha, hoperator, _, hentry, fusePartner_eq_ok.mpr ⟨mem_sortedIds.mp hb, rfl, rfl⟩⟩
    have hpairs : ∀ pair ∈ rootPairs byId ++ fused.flatten,
        IsMember (singletons (sortedIds byId)) pair.1 ∧
          IsMember (singletons (sortedIds byId)) pair.2 := by
      rintro ⟨a, b⟩ hin
      rw [hmember, hmember]
      rcases List.mem_append.mp hin with hin | hin
      · obtain ⟨ha, hb, -⟩ := rootPairs_joined hin
        exact ⟨ha, hb⟩
      · obtain ⟨hb, ha, -⟩ := (hfuses a b).mp hin
        exact ⟨ha, hb⟩
    obtain ⟨hforest, hsame, hroots⟩ :=
      sameRoot_unionAll_iff _ (forest_singletons hnodup) hpairs
    refine ⟨hforest, fun x => ?_, fun a b ha hb => ?_⟩
    · unfold IsMember
      rw [hsame, hkeys]
    · rw [hroots ((hmember a).mpr ha), and_iff_right ((hmember b).mpr hb)]
      constructor
      · refine eqvGen_of_rel fun u v huv => ?_
        rcases huv with hsame | hin
        · exact sameRoot_singletons hsame ▸ EqvGen.refl u
        · refine EqvGen.rel _ _ ?_
          rcases List.mem_append.mp hin with hin | hin
          · exact .inl (rootPairs_joined hin)
          · exact .inr ((hfuses u v).mp hin).2
      · refine eqvGen_of_rel fun u v huv => ?_
        rcases huv with ⟨hu, hv, root, hrootU, hrootV⟩ | hfuse
        · refine eqvGen_of_rel (fun x y hxy => ?_) (eqvGen_rootPairs hu hv hrootU hrootV)
          exact EqvGen.rel _ _ (.inr (List.mem_append_left _ hxy))
        · obtain ⟨pair, hread⟩ := readOperators_read hfused hfuse.1 hfuse.2.1 hfuse.2.2
          obtain ⟨hv, heq, -⟩ := fusePartner_eq_ok.mp hread
          obtain rfl := Json.str.inj heq
          exact EqvGen.rel _ _ (.inr (List.mem_append_right _
            ((hfuses u _).mpr ⟨mem_sortedIds.mpr hv, hfuse⟩)))

end Workbay.Compiler

import Mathlib.Logic.Relation
import Mathlib.Order.Basic
import Workbay.Graph.UnionFind

/-!
# Proofs: the classes of union-find
-/

namespace Workbay.Graph

open Relation List Dict

variable {α : Type} [LinearOrder α] {parent : Dict α α}

/-- The parent of a member. -/
def Up (parent : Dict α α) (x y : α) : Prop := parent.get? x = some y

/-- The path of a member ends at a root. -/
def Leads (parent : Dict α α) (x root : α) : Prop :=
  ReflTransGen (Up parent) x root ∧ Up parent root root

/-- Two members have the same root. -/
def SameRoot (parent : Dict α α) (x y : α) : Prop := ∃ root, Leads parent x root ∧ Leads parent y root

/-- A parent is a member that is not larger. -/
structure Forest (parent : Dict α α) : Prop where
  nodup : (parent.map Prod.fst).Nodup
  le : ∀ x y, Up parent x y → y ≤ x
  closed : ∀ x y, Up parent x y → ∃ z, Up parent y z

variable {x y z a b : α}

theorem Up.unique (hy : Up parent x y) (hz : Up parent x z) : y = z := by
  unfold Up at *
  rw [hy] at hz
  exact Option.some.inj hz

variable {members : List α} {root : α}

theorem up_singletons (h : Up (singletons members) x y) : y = x := by
  obtain ⟨z, -, heq⟩ := mem_map.mp (mem_of_get? h)
  obtain ⟨rfl, rfl⟩ := Prod.mk.inj heq
  rfl

theorem forest_singletons (h : members.Nodup) : Forest (singletons members) := by
  refine ⟨?_, fun x y hxy => (up_singletons hxy).le, fun x y hxy => ⟨y, ?_⟩⟩
  · have hkeys : (singletons members).map Prod.fst = members := by
      unfold singletons
      rw [List.map_map]
      exact List.map_id members
    rw [hkeys]
    exact h
  · obtain rfl := up_singletons hxy
    exact hxy

theorem Forest.path_le (h : Forest parent) (hpath : ReflTransGen (Up parent) x y) : y ≤ x := by
  induction hpath with
  | refl => exact le_refl _
  | tail _ hstep ih => exact (h.le _ _ hstep).trans ih

theorem Leads.le (hforest : Forest parent) (h : Leads parent x root) : root ≤ x :=
  hforest.path_le h.1

theorem Leads.of_up (h : Leads parent x root) (hxy : Up parent x y) : Leads parent y root := by
  refine ⟨?_, h.2⟩
  rcases ReflTransGen.cases_head h.1 with rfl | ⟨z, hz, hpath⟩
  · rw [hxy.unique h.2]
  · rwa [hxy.unique hz]

theorem Leads.cons (hxy : Up parent x y) (h : Leads parent y root) :
    Leads parent x root := ⟨ReflTransGen.head hxy h.1, h.2⟩

theorem Leads.self (h : Up parent root root) : Leads parent root root :=
  ⟨ReflTransGen.refl, h⟩

theorem Leads.unique {root' : α} (h : Leads parent x root) (h' : Leads parent x root') :
    root = root' := by
  obtain ⟨hpath, hroot⟩ := h
  induction hpath using ReflTransGen.head_induction_on with
  | refl =>
    have hstay : ∀ y, ReflTransGen (Up parent) root y → y = root := by
      intro y hy
      induction hy with
      | refl => rfl
      | tail _ hstep ih =>
        subst ih
        exact (hstep.unique hroot)
    exact (hstay root' h'.1).symm
  | head hstep _ ih => exact ih (h'.of_up hstep)

/-- The members smaller than one. -/
def below (parent : Dict α α) (x : α) : Nat := (parent.filter fun e => e.1 < x).length

theorem below_lt_below (hy : Up parent y z) (hlt : y < x) : below parent y < below parent x := by
  unfold below
  rw [← countP_eq_length_filter, ← countP_eq_length_filter]
  have hmem : (y, z) ∈ parent := mem_of_get? hy
  obtain ⟨before, after, rfl⟩ := append_of_mem hmem
  have hbefore : before.countP (fun e => decide (e.1 < y)) ≤
      before.countP fun e => decide (e.1 < x) :=
    countP_mono_left fun e _ he => by
      have hey : e.1 < y := by simpa using he
      simpa using hey.trans hlt
  have hafter : after.countP (fun e => decide (e.1 < y)) ≤
      after.countP fun e => decide (e.1 < x) :=
    countP_mono_left fun e _ he => by
      have hey : e.1 < y := by simpa using he
      simpa using hey.trans hlt
  simp only [countP_append, countP_cons, lt_irrefl, decide_false, Bool.false_eq_true,
    if_false, hlt, decide_true, if_true]
  omega

theorem below_lt_length (hx : Up parent x y) : below parent x < parent.length := by
  obtain ⟨before, after, rfl⟩ := append_of_mem (mem_of_get? hx)
  have hbefore := length_filter_le (fun e : α × α => decide (e.1 < x)) before
  have hafter := length_filter_le (fun e : α × α => decide (e.1 < x)) after
  unfold below
  simp only [filter_append, length_append, filter_cons, lt_irrefl, decide_false,
    Bool.false_eq_true, if_false, length_cons]
  omega

theorem Forest.exists_leads (h : Forest parent) :
    ∀ n x y, Up parent x y → below parent x < n → ∃ root, Leads parent x root := by
  intro n
  induction n with
  | zero => exact fun _ _ _ hlt => absurd hlt (Nat.not_lt_zero _)
  | succ n ih =>
    intro x y hx hlt
    by_cases hroot : y = x
    · rw [hroot] at hx
      exact ⟨x, Leads.self hx⟩
    · have hyx : y < x := lt_of_le_of_ne (h.le x y hx) hroot
      obtain ⟨z, hz⟩ := h.closed x y hx
      obtain ⟨root, hleads⟩ := ih y z hz (by have hb := below_lt_below hz hyx; omega)
      exact ⟨root, hleads.cons hx⟩

theorem up_set : Up (parent.set a b) x y ↔ if x = a then y = b else Up parent x y := by
  unfold Up
  rw [get?_set]
  split
  · exact ⟨fun h => (Option.some.inj h).symm, fun h => congrArg some h.symm⟩
  · rfl

theorem map_fst_set {c : α} (ha : Up parent a c) :
    (parent.set a b).map Prod.fst = parent.map Prod.fst := by
  unfold Up at ha
  induction parent with
  | nil => simp at ha
  | cons e parent ih =>
    obtain ⟨k, v⟩ := e
    by_cases hk : k = a
    · simp [Dict.set, hk]
    · rw [get?_cons, if_neg hk] at ha
      simp [Dict.set, hk, ih ha]

theorem Forest.halve (h : Forest parent) {up above : α} (hx : Up parent x up) (hne : up ≠ x)
    (habove : Up parent up above) : Forest (parent.set x above) ∧
      ∀ y root, Leads parent y root → Leads (parent.set x above) y root := by
  have hupx : up < x := lt_of_le_of_ne (h.le x up hx) hne
  have hax : above ≤ up := h.le up above habove
  have hkeep : ∀ y z, y ≠ x → Up parent y z → Up (parent.set x above) y z := by
    intro y z hy hz
    rw [up_set, if_neg hy]
    exact hz
  have hnew : Up (parent.set x above) x above := by
    rw [up_set, if_pos rfl]
  refine ⟨⟨?_, fun y z hyz => ?_, fun y z hyz => ?_⟩, fun y root hleads => ?_⟩
  · rw [map_fst_set hx]
    exact h.nodup
  · rw [up_set] at hyz
    split at hyz
    · next heq =>
      subst heq
      rw [hyz]
      exact hax.trans hupx.le
    · exact h.le y z hyz
  · have hold : ∃ w, Up parent z w := by
      rw [up_set] at hyz
      split at hyz
      · rw [hyz]
        exact h.closed up above habove
      · exact h.closed y z hyz
    obtain ⟨w, hw⟩ := hold
    by_cases hzx : z = x
    · rw [hzx]
      exact ⟨above, hnew⟩
    · exact ⟨w, hkeep z w hzx hw⟩
  · obtain ⟨hpath, hroot⟩ := hleads
    have hrootx : root ≠ x := by
      rintro rfl
      exact hne (hx.unique hroot)
    have hroot' := hkeep root root hrootx hroot
    induction hpath using ReflTransGen.head_induction_on with
    | refl => exact Leads.self hroot'
    | @head y z hstep _ ih =>
      by_cases hy : y = x
      · -- the path of the halved member goes over its old parent, which is kept
        subst hy
        obtain rfl : z = up := hstep.unique hx
        exact (ih.of_up (hkeep z above hne habove)).cons hnew
      · exact ih.cons (hkeep y z hy hstep)

theorem getD_of_up (h : Up parent x y) : parent.getD x z = y := by
  unfold Dict.getD
  rw [show parent.get? x = some y from h]
  rfl

theorem findFrom_spec : ∀ (fuel : Nat) (parent : Dict α α) (x y : α), Forest parent →
    Up parent x y → below parent x < fuel →
    Forest (findFrom fuel parent x).1 ∧
      (findFrom fuel parent x).1.map Prod.fst = parent.map Prod.fst ∧
      Leads parent x (findFrom fuel parent x).2 ∧
      ∀ z root, Leads parent z root → Leads (findFrom fuel parent x).1 z root := by
  intro fuel
  induction fuel with
  | zero => exact fun _ _ _ _ _ hlt => absurd hlt (Nat.not_lt_zero _)
  | succ fuel ih =>
    intro parent x up h hx hfuel
    rw [findFrom]
    simp only [getD_of_up hx]
    by_cases hroot : up = x
    · rw [if_pos hroot]
      rw [hroot] at hx
      exact ⟨h, rfl, Leads.self hx, fun _ _ hleads => hleads⟩
    · obtain ⟨above, habove⟩ := h.closed x up hx
      obtain ⟨higher, hhigher⟩ := h.closed up above habove
      obtain ⟨hforest, hkeep⟩ := h.halve hx hroot habove
      have hupx : up < x := lt_of_le_of_ne (h.le x up hx) hroot
      have hlt : above < x := lt_of_le_of_lt (h.le up above habove) hupx
      rw [if_neg hroot, getD_of_up habove]
      have habove' : Up (parent.set x above) above higher := by
        rw [up_set, if_neg hlt.ne]
        exact hhigher
      have hkeys : (parent.set x above).map Prod.fst = parent.map Prod.fst := map_fst_set hx
      have hbelow : below (parent.set x above) above = below parent above := by
        unfold below
        rw [← countP_eq_length_filter, ← countP_eq_length_filter]
        have hmap := congrArg (List.countP fun k => decide (k < above)) hkeys
        rw [countP_map, countP_map] at hmap
        exact hmap
      obtain ⟨hforest', hkeys', hleads, hkeep'⟩ := ih _ above higher hforest habove'
        (by have hb := below_lt_below hhigher hlt; omega)
      obtain ⟨root, hold⟩ := h.exists_leads _ above higher hhigher (Nat.lt_succ_self _)
      have hsame := (hkeep above root hold).unique hleads
      refine ⟨hforest', hkeys'.trans hkeys, ?_, fun z root hz => hkeep' z root (hkeep z root hz)⟩
      rw [← hsame]
      exact (hold.cons habove).cons hx

/-- A member is in the map. -/
def IsMember (parent : Dict α α) (x : α) : Prop := x ∈ parent.map Prod.fst

theorem IsMember.exists_up (h : IsMember parent x) : ∃ y, Up parent x y := by
  obtain ⟨y, hy⟩ := Option.isSome_iff_exists.mp (get?_isSome_iff.mpr h)
  exact ⟨y, hy⟩

theorem find_spec (h : Forest parent) (hx : IsMember parent x) :
    Forest (find parent x).1 ∧ (find parent x).1.map Prod.fst = parent.map Prod.fst ∧
      Leads parent x (find parent x).2 ∧
      ∀ z root, Leads parent z root → Leads (find parent x).1 z root := by
  obtain ⟨y, hy⟩ := hx.exists_up
  exact findFrom_spec _ _ _ _ h hy (below_lt_length hy)

theorem Leads.isMember (h : Leads parent x root) : IsMember parent x := by
  rcases ReflTransGen.cases_head h.1 with rfl | ⟨y, hy, -⟩
  · exact get?_isSome_iff.mp (by rw [show parent.get? x = some x from h.2]; rfl)
  · exact get?_isSome_iff.mp (by rw [show parent.get? x = some y from hy]; rfl)

theorem Forest.leads_of_isMember (h : Forest parent) (hx : IsMember parent x) :
    ∃ root, Leads parent x root := by
  obtain ⟨y, hy⟩ := hx.exists_up
  exact h.exists_leads _ x y hy (Nat.lt_succ_self _)

theorem leads_iff {parent' : Dict α α} (h : Forest parent)
    (hkeys : parent'.map Prod.fst = parent.map Prod.fst)
    (hkeep : ∀ z root, Leads parent z root → Leads parent' z root) :
    Leads parent' z root ↔ Leads parent z root := by
  refine ⟨fun hz => ?_, hkeep z root⟩
  have hmember : IsMember parent z := by
    have hm := hz.isMember
    unfold IsMember at *
    rwa [hkeys] at hm
  obtain ⟨root', hold⟩ := h.leads_of_isMember hmember
  rw [hz.unique (hkeep z root' hold)]
  exact hold

theorem Forest.attach (h : Forest parent) {small large : α} (hsmall : Up parent small small)
    (hlarge : Up parent large large) (hlt : small < large) :
    Forest (parent.set large small) ∧
      ∀ x root, Leads parent x root →
        Leads (parent.set large small) x (if root = large then small else root) := by
  have hkeep : ∀ y z, y ≠ large → Up parent y z → Up (parent.set large small) y z := by
    intro y z hy hz
    rw [up_set, if_neg hy]
    exact hz
  have hnew : Up (parent.set large small) large small := by
    rw [up_set, if_pos rfl]
  have hsmall' := hkeep small small hlt.ne hsmall
  refine ⟨⟨?_, fun y z hyz => ?_, fun y z hyz => ?_⟩, fun x root hleads => ?_⟩
  · rw [map_fst_set hlarge]
    exact h.nodup
  · rw [up_set] at hyz
    split at hyz
    · next heq =>
      rw [hyz, heq]
      exact hlt.le
    · exact h.le y z hyz
  · have hold : ∃ w, Up parent z w := by
      rw [up_set] at hyz
      split at hyz
      · rw [hyz]
        exact ⟨small, hsmall⟩
      · exact h.closed y z hyz
    obtain ⟨w, hw⟩ := hold
    by_cases hz : z = large
    · rw [hz]
      exact ⟨small, hnew⟩
    · exact ⟨w, hkeep z w hz hw⟩
  · obtain ⟨hpath, hroot⟩ := hleads
    induction hpath using ReflTransGen.head_induction_on with
    | refl =>
      by_cases heq : root = large
      · rw [if_pos heq, heq]
        exact (Leads.self hsmall').cons hnew
      · rw [if_neg heq]
        exact Leads.self (hkeep root root heq hroot)
    | @head y z hstep _ ih =>
      by_cases hy : y = large
      · subst hy
        obtain rfl : y = z := (hstep.unique hlarge).symm
        exact ih
      · exact ih.cons (hkeep y z hy hstep)

theorem union_spec (h : Forest parent) (ha : IsMember parent a) (hb : IsMember parent b) :
    Forest (union parent a b) ∧ (union parent a b).map Prod.fst = parent.map Prod.fst ∧
      ∃ rootA rootB, Leads parent a rootA ∧ Leads parent b rootB ∧
        ∀ x root, Leads parent x root → Leads (union parent a b) x
          (if root = max rootA rootB then min rootA rootB else root) := by
  obtain ⟨hforest₁, hkeys₁, hleadsA, hkeep₁⟩ := find_spec h ha
  have hb₁ : IsMember (find parent a).1 b := by
    unfold IsMember at *
    rwa [hkeys₁]
  obtain ⟨hforest₂, hkeys₂, hleadsB, hkeep₂⟩ := find_spec hforest₁ hb₁
  have hleadsB' := (leads_iff h hkeys₁ hkeep₁).mp hleadsB
  have hkeep : ∀ z root, Leads parent z root → Leads (find (find parent a).1 b).1 z root :=
    fun z root hz => hkeep₂ z root (hkeep₁ z root hz)
  have hrootA : Up (find (find parent a).1 b).1 (find parent a).2 (find parent a).2 :=
    (hkeep _ _ (Leads.self hleadsA.2)).2
  have hrootB : Up (find (find parent a).1 b).1 (find (find parent a).1 b).2
      (find (find parent a).1 b).2 := (hkeep _ _ (Leads.self hleadsB'.2)).2
  unfold union
  simp only
  generalize (find parent a).2 = rootA at *
  generalize hmap : (find (find parent a).1 b).1 = found at *
  generalize (find (find parent a).1 b).2 = rootB at *
  have hkeys : found.map Prod.fst = parent.map Prod.fst := hkeys₂.trans hkeys₁
  by_cases heq : rootA = rootB
  · rw [if_pos heq]
    refine ⟨hforest₂, hkeys, rootA, rootB, hleadsA, hleadsB', fun x root hx => ?_⟩
    have hsame : (if root = max rootA rootB then min rootA rootB else root) = root := by
      rw [heq, max_self, min_self]
      split
      · next hroot => exact hroot.symm
      · rfl
    rw [hsame]
    exact hkeep x root hx
  · rw [if_neg heq]
    by_cases hlt : rootA < rootB
    · obtain ⟨hforest, hattach⟩ := hforest₂.attach hrootA hrootB hlt
      rw [if_pos hlt]
      refine ⟨hforest, (map_fst_set hrootB).trans hkeys, rootA, rootB, hleadsA, hleadsB',
        fun x root hx => ?_⟩
      rw [max_eq_right hlt.le, min_eq_left hlt.le]
      exact hattach x root (hkeep x root hx)
    · have hgt : rootB < rootA := lt_of_le_of_ne (not_lt.mp hlt) (Ne.symm heq)
      obtain ⟨hforest, hattach⟩ := hforest₂.attach hrootB hrootA hgt
      rw [if_neg hlt]
      refine ⟨hforest, (map_fst_set hrootA).trans hkeys, rootA, rootB, hleadsA, hleadsB',
        fun x root hx => ?_⟩
      rw [max_eq_left hgt.le, min_eq_right hgt.le]
      exact hattach x root (hkeep x root hx)

theorem SameRoot.symm (h : SameRoot parent x y) : SameRoot parent y x := by
  obtain ⟨root, hx, hy⟩ := h
  exact ⟨root, hy, hx⟩

theorem SameRoot.trans (hxy : SameRoot parent x y) (hyz : SameRoot parent y z) :
    SameRoot parent x z := by
  obtain ⟨root, hx, hy⟩ := hxy
  obtain ⟨root', hy', hz⟩ := hyz
  obtain rfl := hy.unique hy'
  exact ⟨root, hx, hz⟩

/-- After a union two members have the same root if they had it, or if the union joined their
classes. -/
theorem sameRoot_union_iff (h : Forest parent) (ha : IsMember parent a) (hb : IsMember parent b) :
    SameRoot (union parent a b) x y ↔ SameRoot parent x y ∨
      (SameRoot parent x a ∧ SameRoot parent b y) ∨ (SameRoot parent x b ∧ SameRoot parent a y) := by
  obtain ⟨hforest, hkeys, rootA, rootB, hleadsA, hleadsB, hmerge⟩ := union_spec h ha hb
  have hmembers : ∀ z root, Leads (union parent a b) z root → ∃ old, Leads parent z old := by
    intro z root hz
    refine h.leads_of_isMember ?_
    have hm := hz.isMember
    unfold IsMember at *
    rwa [hkeys] at hm
  constructor
  · rintro ⟨root, hx, hy⟩
    obtain ⟨oldX, hoX⟩ := hmembers x root hx
    obtain ⟨oldY, hoY⟩ := hmembers y root hy
    have hX := hx.unique (hmerge x oldX hoX)
    have hY := hy.unique (hmerge y oldY hoY)
    rcases le_total rootA rootB with hle | hle
    · rw [max_eq_right hle, min_eq_left hle] at hX hY
      by_cases hXB : oldX = rootB
      · subst hXB
        by_cases hYB : oldY = oldX
        · subst hYB
          exact .inl ⟨oldY, hoX, hoY⟩
        · rw [if_pos rfl] at hX
          rw [if_neg hYB] at hY
          obtain rfl : rootA = oldY := hX.symm.trans hY
          exact .inr (.inr ⟨⟨oldX, hoX, hleadsB⟩, ⟨rootA, hleadsA, hoY⟩⟩)
      · rw [if_neg hXB] at hX
        by_cases hYB : oldY = rootB
        · rw [if_pos hYB] at hY
          subst hYB
          obtain rfl : oldX = rootA := hX.symm.trans hY
          exact .inr (.inl ⟨⟨oldX, hoX, hleadsA⟩, ⟨oldY, hleadsB, hoY⟩⟩)
        · rw [if_neg hYB] at hY
          obtain rfl : oldX = oldY := hX.symm.trans hY
          exact .inl ⟨oldX, hoX, hoY⟩
    · rw [max_eq_left hle, min_eq_right hle] at hX hY
      by_cases hXA : oldX = rootA
      · subst hXA
        by_cases hYA : oldY = oldX
        · subst hYA
          exact .inl ⟨oldY, hoX, hoY⟩
        · rw [if_pos rfl] at hX
          rw [if_neg hYA] at hY
          obtain rfl : rootB = oldY := hX.symm.trans hY
          exact .inr (.inl ⟨⟨oldX, hoX, hleadsA⟩, ⟨rootB, hleadsB, hoY⟩⟩)
      · rw [if_neg hXA] at hX
        by_cases hYA : oldY = rootA
        · rw [if_pos hYA] at hY
          subst hYA
          obtain rfl : oldX = rootB := hX.symm.trans hY
          exact .inr (.inr ⟨⟨oldX, hoX, hleadsB⟩, ⟨oldY, hleadsA, hoY⟩⟩)
        · rw [if_neg hYA] at hY
          obtain rfl : oldX = oldY := hX.symm.trans hY
          exact .inl ⟨oldX, hoX, hoY⟩
  · have hmono : ∀ {u v}, SameRoot parent u v → SameRoot (union parent a b) u v := by
      rintro u v ⟨root, hu, hv⟩
      exact ⟨_, hmerge u root hu, hmerge v root hv⟩
    have hjoined : SameRoot (union parent a b) a b := by
      refine ⟨_, hmerge a rootA hleadsA, ?_⟩
      have hB := hmerge b rootB hleadsB
      have hequal : (if rootB = max rootA rootB then min rootA rootB else rootB) =
          if rootA = max rootA rootB then min rootA rootB else rootA := by
        rcases le_total rootA rootB with hle | hle
        · rw [max_eq_right hle, min_eq_left hle, if_pos rfl, ite_self]
        · rw [max_eq_left hle, min_eq_right hle, if_pos rfl, ite_self]
      rwa [hequal] at hB
    rintro (hsame | ⟨hxa, hby⟩ | ⟨hxb, hay⟩)
    · exact hmono hsame
    · exact ((hmono hxa).trans hjoined).trans (hmono hby)
    · exact ((hmono hxb).trans hjoined.symm).trans (hmono hay)

omit [LinearOrder α] in
theorem eqvGen_of_rel {r s : α → α → Prop} (h : ∀ u v, r u v → EqvGen s u v) (hxy : EqvGen r x y) :
    EqvGen s x y := by
  induction hxy with
  | rel u v huv => exact h u v huv
  | refl u => exact EqvGen.refl u
  | symm u v _ ih => exact EqvGen.symm _ _ ih
  | trans u v w _ _ ih ih' => exact EqvGen.trans _ _ _ ih ih'

theorem sameRoot_unionAll_iff : ∀ (pairs : List (α × α)) {parent : Dict α α}, Forest parent →
    (∀ pair ∈ pairs, IsMember parent pair.1 ∧ IsMember parent pair.2) →
    Forest (unionAll parent pairs) ∧
      (unionAll parent pairs).map Prod.fst = parent.map Prod.fst ∧
      ∀ {x y}, IsMember parent x → (SameRoot (unionAll parent pairs) x y ↔ IsMember parent y ∧
        EqvGen (fun u v => SameRoot parent u v ∨ (u, v) ∈ pairs) x y) := by
  intro pairs
  induction pairs with
  | nil =>
    intro parent h _
    refine ⟨h, rfl, fun {x y} hx => ?_⟩
    constructor
    · intro hsame
      obtain ⟨root, -, hy⟩ := id hsame
      exact ⟨hy.isMember, EqvGen.rel _ _ (.inl hsame)⟩
    · rintro ⟨hy, hgen⟩
      have hself : ∀ {z}, IsMember parent z → SameRoot parent z z := fun hz => by
        obtain ⟨root, hroot⟩ := h.leads_of_isMember hz
        exact ⟨root, hroot, hroot⟩
      have hall : ∀ {u v}, EqvGen (fun u v => SameRoot parent u v ∨ (u, v) ∈ ([] : List (α × α))) u v →
          u = v ∨ SameRoot parent u v := by
        intro u v huv
        induction huv with
        | rel u v huv => exact .inr (huv.resolve_right not_mem_nil)
        | refl u => exact .inl rfl
        | symm u v _ ih =>
          rcases ih with rfl | hsame
          · exact .inl rfl
          · exact .inr hsame.symm
        | trans u v w _ _ ih ih' =>
          rcases ih with rfl | hsame
          · exact ih'
          · rcases ih' with rfl | hsame'
            · exact .inr hsame
            · exact .inr (hsame.trans hsame')
      rcases hall hgen with rfl | hsame
      · exact hself hx
      · exact hsame
  | cons pair pairs ih =>
    intro parent h hmembers
    obtain ⟨ha, hb⟩ := hmembers pair mem_cons_self
    obtain ⟨hforest, hkeys, -⟩ := union_spec h ha hb
    have hsame : ∀ {u}, IsMember (union parent pair.1 pair.2) u ↔ IsMember parent u := by
      intro u
      unfold IsMember
      rw [hkeys]
    obtain ⟨hforest', hkeys', hclasses⟩ := ih hforest fun p hp => by
      obtain ⟨h1, h2⟩ := hmembers p (mem_cons_of_mem _ hp)
      exact ⟨hsame.mpr h1, hsame.mpr h2⟩
    refine ⟨hforest', hkeys'.trans hkeys, fun {x y} hx => ?_⟩
    show SameRoot (unionAll (union parent pair.1 pair.2) pairs) x y ↔ _
    rw [hclasses (hsame.mpr hx), hsame]
    refine and_congr_right fun _ => ?_
    let rel : α → α → Prop := fun u v => SameRoot parent u v ∨ (u, v) ∈ pair :: pairs
    have hpair : EqvGen rel pair.1 pair.2 := EqvGen.rel _ _ (.inr mem_cons_self)
    have hold : ∀ {u v}, SameRoot parent u v → EqvGen rel u v :=
      fun huv => EqvGen.rel _ _ (.inl huv)
    refine ⟨eqvGen_of_rel fun u v huv => ?_, eqvGen_of_rel fun u v huv => EqvGen.rel _ _ ?_⟩
    · rcases huv with hunion | hin
      · rcases (sameRoot_union_iff h ha hb).mp hunion with huv | ⟨hua, hbv⟩ | ⟨hub, hav⟩
        · exact hold huv
        · exact EqvGen.trans _ _ _ (EqvGen.trans _ _ _ (hold hua) hpair) (hold hbv)
        · exact EqvGen.trans _ _ _ (EqvGen.trans _ _ _ (hold hub) (EqvGen.symm _ _ hpair)) (hold hav)
      · exact EqvGen.rel _ _ (.inr (mem_cons_of_mem _ hin))
    · rcases huv with huv | hin
      · exact .inl ((sameRoot_union_iff h ha hb).mpr (.inl huv))
      · rcases mem_cons.mp hin with heq | hin
        · refine .inl ((sameRoot_union_iff h ha hb).mpr (.inr (.inl ?_)))
          obtain ⟨rootA, hrootA⟩ := h.leads_of_isMember ha
          obtain ⟨rootB, hrootB⟩ := h.leads_of_isMember hb
          rw [← heq] at hrootA hrootB
          rw [← heq]
          exact ⟨⟨rootA, hrootA, hrootA⟩, ⟨rootB, hrootB, hrootB⟩⟩
        · exact .inr hin

theorem rootsOf_spec : ∀ (members : List α) {parent : Dict α α}, Forest parent →
    (∀ x ∈ members, IsMember parent x) →
    (rootsOf parent members).map Prod.fst = members ∧
      ∀ e ∈ rootsOf parent members, Leads parent e.1 e.2 := by
  intro members
  induction members with
  | nil => exact fun _ _ => ⟨rfl, by simp [rootsOf]⟩
  | cons x members ih =>
    intro parent h hmembers
    obtain ⟨hforest, hkeys, hleads, hkeep⟩ := find_spec h (hmembers x mem_cons_self)
    obtain ⟨hfst, hall⟩ := ih hforest fun y hy => by
      have hm := hmembers y (mem_cons_of_mem _ hy)
      unfold IsMember at *
      rwa [hkeys]
    refine ⟨by rw [rootsOf, map_cons, hfst], fun e he => ?_⟩
    rw [rootsOf] at he
    rcases mem_cons.mp he with rfl | he
    · exact hleads
    · exact (leads_iff h hkeys hkeep).mp (hall e he)

theorem sameRoot_singletons (h : SameRoot (singletons members) x y) : x = y := by
  have hroot : ∀ z root, Leads (singletons members) z root → root = z := by
    rintro z root ⟨hpath, -⟩
    induction hpath with
    | refl => rfl
    | tail _ hstep ih => exact (up_singletons hstep).trans ih
  obtain ⟨root, hx, hy⟩ := h
  exact (hroot x root hx).symm.trans (hroot y root hy)

end Workbay.Graph

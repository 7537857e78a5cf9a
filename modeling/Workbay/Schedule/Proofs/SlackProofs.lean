import Workbay.Schedule.Proofs.LayerProofs

/-!
# Slack

The prefix lengths are found from layer to layer, so that a lane that is laid out before one of its
prerequisites passes a length on that is too short. The slack is right exactly if every lane has a longest
chain of prerequisites that were, the lane itself apart, laid out in order.
-/

namespace Workbay.Schedule

open Relation Workbay.Graph List

/-- A chain of prerequisites of a lane, whose lanes come one before the other in the order. -/
def Follows (prereqs : String → List String) (order : List String) (x : String) (p : List String) : Prop :=
  (x :: p).IsChain (Step prereqs) ∧ p.Sublist order.reverse

section

variable {forward prereqs : String → List String}

theorem getD_passOn {lane : String} : ∀ (children : List String) (lengths : Dict String Nat),
    lane ∉ children → ∀ x,
      Dict.getD (children.foldl (fun lengths child => lengths.set child
        (max (lengths.getD child 0) (lengths.getD lane 0 + 1))) lengths) x 0 =
      if x ∈ children then max (lengths.getD x 0) (lengths.getD lane 0 + 1)
      else lengths.getD x 0 := by
  intro children
  induction children with
  | nil => exact fun lengths _ x => (if_neg not_mem_nil).symm
  | cons child children ih =>
    intro lengths hlane x
    obtain ⟨hne, hlane⟩ := not_or.mp (mt mem_cons.mpr hlane)
    rw [foldl_cons, ih _ hlane, Dict.getD_set_of_ne _ _ _ hne]
    by_cases hx : x = child
    · subst hx
      rw [Dict.getD_set_self, if_pos mem_cons_self]
      split_ifs
      · omega
      · rfl
    · rw [Dict.getD_set_of_ne _ _ _ hx]
      simp only [mem_cons, hx, false_or]

theorem prefixLengths_fold (hiff : ∀ w x, x ∈ forward w ↔ w ∈ prereqs x)
    (hself : ∀ x, x ∉ prereqs x) {zero : Dict String Nat} (hzero : ∀ x, zero.getD x 0 = 0)
    (order : List String) (x : String) :
    (∃ p, Follows prereqs order x p ∧ p.length = Dict.getD (order.foldl (fun lengths laneId =>
        (forward laneId).foldl (fun lengths child => lengths.set child
          (max (lengths.getD child 0) (lengths.getD laneId 0 + 1))) lengths) zero) x 0) ∧
      ∀ p, Follows prereqs order x p → p.length ≤ Dict.getD (order.foldl (fun lengths laneId =>
        (forward laneId).foldl (fun lengths child => lengths.set child
          (max (lengths.getD child 0) (lengths.getD laneId 0 + 1))) lengths) zero) x 0 := by
  induction order using List.reverseRecOn generalizing x with
  | nil =>
    rw [foldl_nil, hzero]
    refine ⟨⟨[], ⟨isChain_singleton x, List.Sublist.refl _⟩, rfl⟩, fun p hp => ?_⟩
    have hnil : p = [] := sublist_nil.mp hp.2
    rw [hnil]
    exact Nat.le_refl 0
  | append_singleton order w ih =>
    have hfollows : ∀ p, Follows prereqs (order ++ [w]) x p ↔ Follows prereqs order x p ∨
        ∃ q, p = w :: q ∧ w ∈ prereqs x ∧ Follows prereqs order w q := by
      intro p
      unfold Follows
      rw [reverse_append, reverse_singleton, singleton_append, sublist_cons_iff]
      constructor
      · rintro ⟨hchain, hsub | ⟨q, rfl, hsub⟩⟩
        · exact .inl ⟨hchain, hsub⟩
        · obtain ⟨hw, hchain⟩ := isChain_cons_cons.mp hchain
          exact .inr ⟨q, rfl, hw, hchain, hsub⟩
      · rintro (⟨hchain, hsub⟩ | ⟨q, rfl, hw, hchain, hsub⟩)
        · exact ⟨hchain, .inl hsub⟩
        · exact ⟨isChain_cons_cons.mpr ⟨hw, hchain⟩, .inr ⟨q, rfl, hsub⟩⟩
    rw [foldl_append, foldl_cons, foldl_nil,
      getD_passOn _ _ fun hw => hself w ((hiff w w).mp hw)]
    obtain ⟨⟨p, hp, hplen⟩, hpall⟩ := ih x
    obtain ⟨⟨q, hq, hqlen⟩, hqall⟩ := ih w
    split_ifs with hx
    · have hw := (hiff w x).mp hx
      constructor
      · rcases Nat.le_total (Dict.getD _ w 0 + 1) (Dict.getD _ x 0) with hle | hle
        · exact ⟨p, (hfollows p).mpr (.inl hp), by rw [hplen, Nat.max_eq_left hle]⟩
        · refine ⟨w :: q, (hfollows _).mpr (.inr ⟨q, rfl, hw, hq⟩), ?_⟩
          rw [length_cons, hqlen, Nat.max_eq_right hle]
      · intro r hr
        rcases (hfollows r).mp hr with hr | ⟨s, rfl, -, hs⟩
        · exact Nat.le_trans (hpall r hr) (Nat.le_max_left _ _)
        · have hle := hqall s hs
          rw [length_cons]
          omega
    · refine ⟨⟨p, (hfollows p).mpr (.inl hp), hplen⟩, fun r hr => ?_⟩
      rcases (hfollows r).mp hr with hr | ⟨s, rfl, hw, -⟩
      · exact hpall r hr
      · exact absurd ((hiff w x).mpr hw) hx

end

/-- The lanes that have started after some rounds: in each round those start that list enough of what has
started before, counted as often as it is listed. -/
def started (laneIds : List String) (dependsOn : DependsOn) : Nat → List String
  | 0 => []
  | k + 1 => laneIds.filter fun x =>
    (prereqsOf (declaredDependsOn laneIds dependsOn) x).dedup.length ≤
      ((prereqsOf (declaredDependsOn laneIds dependsOn) x).filter
        fun y => y ∈ started laneIds dependsOn k).length

/-- A lane starts in an earlier round than another one, or in the same one with the lesser name. -/
def Before (laneIds : List String) (dependsOn : DependsOn) (a b : String) : Prop :=
  (∃ k, a ∈ started laneIds dependsOn k ∧ b ∉ started laneIds dependsOn k) ∨
    (∀ k, a ∈ started laneIds dependsOn k ↔ b ∈ started laneIds dependsOn k) ∧ a < b

section

variable {laneIds : List String} {dependsOn : DependsOn}

theorem started_mono (x : String) : ∀ {j k : Nat}, j ≤ k → x ∈ started laneIds dependsOn j →
    x ∈ started laneIds dependsOn k := by
  have hsucc : ∀ (k : Nat) (x : String), x ∈ started laneIds dependsOn k →
      x ∈ started laneIds dependsOn (k + 1) := by
    intro k
    induction k with
    | zero => exact fun _ hx => (by cases hx)
    | succ k ih =>
      intro x hx
      obtain ⟨hlane, hle⟩ := mem_filter.mp hx
      refine mem_filter.mpr ⟨hlane, decide_eq_true (Nat.le_trans (of_decide_eq_true hle) ?_)⟩
      rw [← countP_eq_length_filter, ← countP_eq_length_filter]
      exact countP_mono_left fun y _ hy => decide_eq_true (ih y (of_decide_eq_true hy))
  intro j k hjk hx
  induction hjk with
  | refl => exact hx
  | step _ ih => exact hsucc _ x ih

theorem Before.trans {a b c : String} (hab : Before laneIds dependsOn a b)
    (hbc : Before laneIds dependsOn b c) : Before laneIds dependsOn a c := by
  rcases hab with ⟨j, ha, hb⟩ | ⟨hsame, hlt⟩
  · rcases hbc with ⟨k, hb', hc⟩ | ⟨hsame, -⟩
    · have hjk : j ≤ k := by
        by_contra hlt
        exact hb (started_mono b (Nat.le_of_not_le hlt) hb')
      exact .inl ⟨k, started_mono a hjk ha, hc⟩
    · exact .inl ⟨j, ha, fun hc => hb ((hsame j).mpr hc)⟩
  · rcases hbc with ⟨k, hb, hc⟩ | ⟨hsame', hlt'⟩
    · exact .inl ⟨k, (hsame k).mpr hb, hc⟩
    · exact .inr ⟨fun k => (hsame k).trans (hsame' k), lt_trans hlt hlt'⟩

theorem Before.asymm {a b : String} (hab : Before laneIds dependsOn a b) :
    ¬ Before laneIds dependsOn b a := by
  intro hba
  rcases hab.trans hba with ⟨k, ha, hnot⟩ | ⟨-, hlt⟩
  · exact hnot ha
  · exact lt_irrefl a hlt

instance : IsTrans String fun a b => Before laneIds dependsOn b a :=
  ⟨fun _ _ _ hab hbc => hbc.trans hab⟩

section

variable {layers : List (List String)} (hnodup : laneIds.Nodup) (hperm : layers.flatten.Perm laneIds)
  (hlayers : ∀ front next back, layers = front ++ next :: back → ∀ x ∈ laneIds,
    (x ∈ (front ++ [next]).flatten ↔
      (prereqsOf (declaredDependsOn laneIds dependsOn) x).dedup.length ≤
        ((prereqsOf (declaredDependsOn laneIds dependsOn) x).filter
          fun y => y ∈ front.flatten).length))

include hperm hlayers in
theorem mem_started_iff : ∀ front back, layers = front ++ back → ∀ x,
    (x ∈ started laneIds dependsOn front.length ↔ x ∈ front.flatten) := by
  intro front
  induction front using List.reverseRecOn with
  | nil => simp [started]
  | append_singleton front next ih =>
    intro back heq x
    rw [append_assoc, singleton_append] at heq
    have hfront := ih (next :: back) heq
    rw [length_append, length_singleton, started, mem_filter, decide_eq_true_eq]
    simp only [hfront]
    constructor
    · rintro ⟨hx, hle⟩
      exact (hlayers front next back heq x hx).mpr hle
    · intro hx
      have hlane : x ∈ laneIds := by
        refine hperm.mem_iff.mp ?_
        rw [heq, ← singleton_append, ← append_assoc, flatten_append]
        exact mem_append_left _ hx
      exact ⟨hlane, (hlayers front next back heq x hlane).mp hx⟩

include hnodup hperm hlayers in
theorem mem_started_iff_lt {front back : List (List String)} {next : List String}
    (heq : layers = front ++ next :: back) {x : String} (hx : x ∈ next) (k : Nat) :
    x ∈ started laneIds dependsOn k ↔ front.length < k := by
  have hnot : x ∉ front.flatten := by
    have hflat := hperm.nodup_iff.mpr hnodup
    rw [heq, flatten_append, flatten_cons] at hflat
    exact fun hin => (nodup_append.mp hflat).2.2 x hin x (mem_append_left _ hx) rfl
  have hin : x ∈ started laneIds dependsOn (front.length + 1) := by
    have hiff := mem_started_iff hperm hlayers (front ++ [next]) back (by rw [heq]; simp) x
    rw [length_append, length_singleton] at hiff
    rw [hiff, flatten_append, flatten_singleton]
    exact mem_append_right _ hx
  constructor
  · intro hk
    by_contra hle
    exact hnot ((mem_started_iff hperm hlayers front _ heq x).mp
      (started_mono x (Nat.le_of_not_lt hle) hk))
  · exact fun hk => started_mono x hk hin

include hnodup hperm hlayers in
theorem flatten_pairwise (hsorted : ∀ layer ∈ layers, layer.Pairwise (· ≤ ·)) :
    layers.flatten.Pairwise (Before laneIds dependsOn) := by
  have hround := fun front back next heq x hx k =>
    @mem_started_iff_lt laneIds dependsOn layers hnodup hperm hlayers front back next heq x hx k
  have hflat := hperm.nodup_iff.mpr hnodup
  have hfront : ∀ front back, layers = front ++ back →
      front.flatten.Pairwise (Before laneIds dependsOn) := by
    intro front
    induction front using List.reverseRecOn with
    | nil => exact fun _ _ => List.Pairwise.nil
    | append_singleton front next ih =>
      intro back heq
      rw [append_assoc, singleton_append] at heq
      rw [flatten_append, flatten_singleton]
      refine pairwise_append.mpr ⟨ih (next :: back) heq, ?_, fun a ha b hb => ?_⟩
      · have hnext : next.Nodup := by
          rw [heq, flatten_append, flatten_cons] at hflat
          exact (nodup_append.mp (nodup_append.mp hflat).2.1).1
        refine ((hsorted next (by rw [heq]; simp)).and hnext).imp_of_mem fun {a b} ha hb hab => ?_
        refine .inr ⟨fun k => ?_, lt_of_le_of_ne hab.1 hab.2⟩
        rw [hround front back next heq a ha, hround front back next heq b hb]
      · refine .inl ⟨front.length, (mem_started_iff hperm hlayers front _ heq a).mpr ha, fun hin => ?_⟩
        exact absurd ((hround front back next heq b hb _).mp hin) (Nat.lt_irrefl _)
  exact hfront layers [] (append_nil layers).symm

end

/-- The longest of some chains has `n` edges. -/
def LongestOf (P : List String → Prop) (n : Nat) : Prop :=
  (∃ p, P p ∧ p.length = n + 1) ∧ ∀ p, P p → p.length ≤ n + 1

theorem LongestOf.unique {P : List String → Prop} {m n : Nat} (h : LongestOf P m) (h' : LongestOf P n) :
    m = n := by
  obtain ⟨⟨p, hp, hlen⟩, hall⟩ := h
  obtain ⟨⟨q, hq, hlen'⟩, hall'⟩ := h'
  have hle := hall q hq
  have hle' := hall' p hp
  omega

/-- A chain of lanes, each a prerequisite of the one before it. -/
def IsLaneChain (laneIds : List String) (dependsOn : DependsOn) (p : List String) : Prop :=
  p.IsChain (Step (prereqsOf (declaredDependsOn laneIds dependsOn))) ∧ ∀ x ∈ p, x ∈ laneIds

/-- Every lane has the slack of its longest chain: none exactly if it is on a longest one of all. -/
def SlackRight (laneIds : List String) (dependsOn : DependsOn) : Prop :=
  ∃ slack, computeSlack laneIds dependsOn = .ok slack ∧ (slack.map Prod.fst).Perm laneIds ∧
    ∀ x ∈ laneIds, ∃ longest through : Nat, LongestOf (IsLaneChain laneIds dependsOn) longest ∧
      LongestOf (fun p => IsLaneChain laneIds dependsOn p ∧ x ∈ p) through ∧
      slack.get? x = some ((longest : Int) - through) ∧ (0 : Int) ≤ longest - through ∧
      ((longest : Int) - through = 0 ↔
        ∃ p, IsLaneChain laneIds dependsOn p ∧ x ∈ p ∧ p.length = longest + 1)

/-- Every lane has a longest chain of prerequisites on which each lane, after the first prerequisite, starts
before the one that waits for it. -/
def InTime (laneIds : List String) (dependsOn : DependsOn) : Prop :=
  ∀ x ∈ laneIds, ∃ p, (x :: p).IsChain (Step (prereqsOf (declaredDependsOn laneIds dependsOn))) ∧
    p.length = depth laneIds dependsOn x ∧ p.IsChain fun y z => Before laneIds dependsOn z y

theorem computeLayers_sorted {layers : List (List String)}
    (h : computeLayers laneIds dependsOn = .ok layers) : ∀ layer ∈ layers, layer.Pairwise (· ≤ ·) := by
  have hrun : ∀ (forward : String → List String) (fuel : Nat) (indegree : Dict String Int)
      (layer : List String), layer.Pairwise (· ≤ ·) →
      ∀ l ∈ (layersFrom forward fuel indegree layer).1, l.Pairwise (· ≤ ·) := by
    intro forward fuel
    induction fuel with
    | zero => exact fun _ _ _ _ hl => (by cases hl)
    | succ fuel ih =>
      intro indegree layer hlayer l hl
      cases layer with
      | nil => cases hl
      | cons lane rest =>
        rcases mem_cons.mp hl with rfl | hl
        · exact hlayer
        · exact ih _ _ (pairwise_insertionSort _ _) l hl
  unfold computeLayers at h
  dsimp only at h
  split_ifs at h
  obtain rfl := Except.ok.inj h
  exact hrun _ _ _ _ (pairwise_insertionSort _ _)

section

variable (hacyclic : Acyclic (prereqsOf (declaredDependsOn laneIds dependsOn)))

include hacyclic in
theorem mem_forward_declared (hkeys : (dependsOn.map Prod.fst).Nodup) (w x : String) :
    x ∈ schedulingForward laneIds (declaredDependsOn laneIds dependsOn) w ↔
      w ∈ prereqsOf (declaredDependsOn laneIds dependsOn) x := by
  rw [mem_schedulingForward (nodup_declaredDependsOn hkeys)]
  refine ⟨fun h => h.2.2, fun h => ⟨(mem_declared h).1, ?_, h⟩⟩
  rintro rfl
  exact hacyclic w (TransGen.single h)

include hacyclic in
theorem longestFrom_forward (hkeys : (dependsOn.map Prod.fst).Nodup) (x : String) :
    LongestFrom (fun a b => Step (prereqsOf (declaredDependsOn laneIds dependsOn)) b a) x
      (chainFrom (schedulingForward laneIds (declaredDependsOn laneIds dependsOn)) laneIds.length x) := by
  have hstep : Step (schedulingForward laneIds (declaredDependsOn laneIds dependsOn)) =
      fun a b => Step (prereqsOf (declaredDependsOn laneIds dependsOn)) b a := by
    funext a b
    exact propext (mem_forward_declared hacyclic hkeys a b)
  have hforward : Acyclic (schedulingForward laneIds (declaredDependsOn laneIds dependsOn)) := by
    intro y hcycle
    rw [hstep] at hcycle
    exact hacyclic y (transGen_swap.mp hcycle)
  rw [← hstep]
  exact longestFrom_chainFrom hforward
    (fun y z hz => (mem_declared ((mem_forward_declared hacyclic hkeys y z).mp hz)).1) (Nat.le_refl _) x

include hacyclic in
theorem longestOf_through (hkeys : (dependsOn.map Prod.fst).Nodup) {x : String} (hx : x ∈ laneIds) :
    LongestOf (fun p => IsLaneChain laneIds dependsOn p ∧ x ∈ p) (depth laneIds dependsOn x +
      chainFrom (schedulingForward laneIds (declaredDependsOn laneIds dependsOn)) laneIds.length x) := by
  obtain ⟨⟨p, hp, hmem, hlen⟩, hall⟩ := longest_through (longestFrom_depth hacyclic x)
    (longestFrom_forward hacyclic hkeys x)
  have hlanes : ∀ y ∈ p, y ∈ laneIds := forall_of_isChain (Q := (· ∈ laneIds))
    (fun _ _ hstep => mem_declared hstep) hp hmem hx
  refine ⟨⟨p, ⟨⟨hp, hlanes⟩, hmem⟩, by omega⟩, fun q hq => ?_⟩
  have hle := hall q hq.1.1 hq.2
  omega

theorem follows_iff {order : List String} (horder : order.Pairwise (Before laneIds dependsOn))
    (hperm : order.Perm laneIds) {x : String} {p : List String}
    (hp : (x :: p).IsChain (Step (prereqsOf (declaredDependsOn laneIds dependsOn)))) :
    Follows (prereqsOf (declaredDependsOn laneIds dependsOn)) order x p ↔
      p.IsChain fun y z => Before laneIds dependsOn z y := by
  have hreverse : order.reverse.Pairwise fun y z => Before laneIds dependsOn z y :=
    pairwise_reverse.mpr horder
  constructor
  · rintro ⟨-, hsub⟩
    exact (hreverse.sublist hsub).isChain
  · intro hchain
    have hpairwise := isChain_iff_pairwise.mp hchain
    have hnodup : p.Nodup := hpairwise.imp fun {y z} hyz heq => by
      subst heq
      exact hyz.asymm hyz
    have hsubset : ∀ y ∈ p, y ∈ order.reverse := by
      intro y hy
      obtain ⟨z, -, hstep⟩ := TransGen.tail'_iff.mp (transGen_of_isChain hp y hy)
      exact mem_reverse.mpr (hperm.mem_iff.mpr (mem_declared hstep).2)
    have hantisymm : Std.Antisymm fun y z => Before laneIds dependsOn z y :=
      ⟨fun _ _ hyz hzy => absurd hzy hyz.asymm⟩
    exact ⟨hp, sublist_of_subperm_of_pairwise (List.Nodup.subperm hnodup hsubset) hpairwise
      hreverse⟩

include hacyclic in
theorem slackRight_iff (hnodup : laneIds.Nodup) (hkeys : (dependsOn.map Prod.fst).Nodup) :
    SlackRight laneIds dependsOn ↔ InTime laneIds dependsOn := by
  obtain ⟨layers, hok, hperm, hlayers⟩ := computeLayers_spec hnodup hkeys hacyclic
  set prereqs := prereqsOf (declaredDependsOn laneIds dependsOn) with hprereqs
  set forward := schedulingForward laneIds (declaredDependsOn laneIds dependsOn) with hforward
  set order := layers.flatten with horder
  have hbefore := flatten_pairwise hnodup hperm hlayers (computeLayers_sorted hok)
  set value := fun x => Dict.getD (prefixLengths forward order) x 0 with hvalue
  have hspec : ∀ x, (∃ p, Follows prereqs order x p ∧ p.length = value x) ∧
      ∀ p, Follows prereqs order x p → p.length ≤ value x := by
    have hzero : ∀ x, Dict.getD (order.map fun laneId => (laneId, 0)) x 0 = 0 := by
      intro x
      rw [Dict.getD, Dict.get?_map_key]
      split_ifs <;> rfl
    exact prefixLengths_fold (mem_forward_declared hacyclic hkeys)
      (fun x hx => hacyclic x (TransGen.single hx)) hzero order
  have hle : ∀ x, value x ≤ depth laneIds dependsOn x := by
    intro x
    obtain ⟨⟨p, hp, hlen⟩, -⟩ := hspec x
    rw [← hlen]
    exact (longestFrom_depth hacyclic x).2 p hp.1
  -- the prefix lengths are right where a longest chain is in time
  have hvalueIff : InTime laneIds dependsOn ↔ ∀ x ∈ laneIds, value x = depth laneIds dependsOn x := by
    refine forall_congr' fun x => forall_congr' fun _ => ?_
    constructor
    · rintro ⟨p, hp, hlen, hchain⟩
      have hge := (hspec x).2 p ((follows_iff hbefore hperm hp).mpr hchain)
      have hlex := hle x
      omega
    · intro heq
      obtain ⟨⟨p, hp, hlen⟩, -⟩ := hspec x
      exact ⟨p, hp.1, by omega, (follows_iff hbefore hperm hp.1).mp hp⟩
  set suffix := fun x => chainFrom forward laneIds.length x with hsuffix
  set longest := (order.map fun x => value x + suffix x).foldl max 0 with hlongest
  have hslack : computeSlack laneIds dependsOn = .ok ((order.insertionSort (· ≤ ·)).map fun laneId =>
      (laneId, (longest : Int) - ((value laneId + suffix laneId : Nat) : Int))) := by
    unfold computeSlack
    rw [hok]
    rfl
  have hget : ∀ x ∈ laneIds, Dict.get? ((order.insertionSort (· ≤ ·)).map fun laneId =>
      (laneId, (longest : Int) - ((value laneId + suffix laneId : Nat) : Int))) x =
        some ((longest : Int) - ((value x + suffix x : Nat) : Int)) := by
    intro x hx
    rw [Dict.get?_map_key, if_pos ((List.mem_insertionSort _).mpr (hperm.mem_iff.mpr hx))]
  have hthrough : ∀ x ∈ laneIds, LongestOf (fun p => IsLaneChain laneIds dependsOn p ∧ x ∈ p)
      (depth laneIds dependsOn x + suffix x) := fun x hx => longestOf_through hacyclic hkeys hx
  rw [hvalueIff]
  constructor
  · rintro ⟨slack, hslack', -, hright⟩ x hx
    obtain rfl := Except.ok.inj (hslack.symm.trans hslack')
    have hdiff : ∀ y ∈ laneIds, ∀ m, LongestOf (IsLaneChain laneIds dependsOn) m →
        (m : Int) - depth laneIds dependsOn y = longest - value y := by
      intro y hy m hm
      obtain ⟨m', n, hm', hn, hsome, -⟩ := hright y hy
      obtain rfl := hm.unique hm'
      obtain rfl := hn.unique (hthrough y hy)
      have heq := Option.some.inj ((hget y hy).symm.trans hsome)
      rw [Int.natCast_add, Int.natCast_add] at heq
      omega
    obtain ⟨m, -, hm, -⟩ := hright x hx
    -- nothing is missing at a lane without prerequisites, and so nowhere
    have hsame : (m : Int) = longest := by
      refine hacyclic.induction (P := fun _ => (m : Int) = longest)
        (fun _ _ _ hy => (mem_declared hy).2) (fun y hy ih => ?_) x hx
      by_cases hnil : prereqs y = []
      · have hzero : depth laneIds dependsOn y = 0 := by
          by_contra hne
          obtain ⟨z, hz, -⟩ := exists_deepest hacyclic (Nat.pos_of_ne_zero hne)
          rw [← hprereqs, hnil] at hz
          cases hz
        have hd := hdiff y hy m hm
        have hley := hle y
        omega
      · obtain ⟨z, hz⟩ := List.exists_mem_of_ne_nil _ hnil
        exact ih z hz
    have hd := hdiff x hx m hm
    omega
  · intro heq
    refine ⟨_, hslack, ?_, fun x hx => ?_⟩
    · rw [List.map_map]
      exact (List.Perm.of_eq (List.map_id _)).trans ((List.perm_insertionSort _ _).trans hperm)
    have heq' : ∀ y ∈ order, value y + suffix y = depth laneIds dependsOn y + suffix y := by
      intro y hy
      rw [heq y (hperm.mem_iff.mp hy)]
    obtain ⟨-, hall, hin⟩ := foldl_max_spec (order.map fun x => value x + suffix x) 0
    have hlow : ∀ y ∈ laneIds, depth laneIds dependsOn y + suffix y ≤ longest := by
      intro y hy
      rw [← heq' y (hperm.mem_iff.mpr hy)]
      exact hall _ (List.mem_map_of_mem (f := fun x => value x + suffix x) (hperm.mem_iff.mpr hy))
    have hlongestOf : LongestOf (IsLaneChain laneIds dependsOn) longest := by
      obtain ⟨y, hy, hvalueY⟩ : ∃ y ∈ laneIds, depth laneIds dependsOn y + suffix y = longest := by
        rcases hin with hzero | hin
        · have hlowx := hlow x hx
          exact ⟨x, hx, by omega⟩
        · obtain ⟨y, hy, hvalueY⟩ := List.mem_map.mp hin
          exact ⟨y, hperm.mem_iff.mp hy, (heq' y hy).symm.trans hvalueY⟩
      obtain ⟨⟨p, hp, hlen⟩, -⟩ := hthrough y hy
      refine ⟨⟨p, hp.1, hlen.trans (congrArg (· + 1) hvalueY)⟩, fun q hq => ?_⟩
      cases q with
      | nil => exact Nat.zero_le _
      | cons z q =>
        have hz := hq.2 z List.mem_cons_self
        have hlez := (hthrough z hz).2 (z :: q) ⟨hq, List.mem_cons_self⟩
        have hlowz := hlow z hz
        omega
    have hlowx := hlow x hx
    refine ⟨longest, _, hlongestOf, hthrough x hx, ?_, ?_, ?_⟩
    · rw [hget x hx, heq' x (hperm.mem_iff.mpr hx)]
    · exact Int.sub_nonneg_of_le (Int.ofNat_le.mpr hlowx)
    · constructor
      · intro hzero
        obtain ⟨⟨p, hp, hlen⟩, -⟩ := hthrough x hx
        exact ⟨p, hp.1, hp.2, by omega⟩
      · rintro ⟨p, hp, hmem, hlen⟩
        have hlep := (hthrough x hx).2 p ⟨hp, hmem⟩
        omega

end

end

end Workbay.Schedule

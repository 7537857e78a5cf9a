import Mathlib.Data.Nat.Find
import Workbay.Graph.Proofs.VisitProofs

/-!
# Breadth first

The search with a queue meets every vertex that a start reaches, the near ones first, and with the least
number of steps that lead to it.
-/

namespace Workbay.Graph

open Relation List

variable {α : Type}

/-- Some steps lead from one vertex to another. -/
def Walk (next : α → List α) : Nat → α → α → Prop
  | 0, x, y => x = y
  | n + 1, x, y => ∃ z, Walk next n x z ∧ Step next z y

/-- The least number of steps, at least one, that lead from one vertex to another. -/
structure Distance (next : α → List α) (x y : α) (n : Nat) : Prop where
  pos : 0 < n
  walk : Walk next n x y
  least : ∀ m, 0 < m → Walk next m x y → n ≤ m

section

variable {next : α → List α} {x y : α}

theorem transGen_iff_walk : TransGen (Step next) x y ↔ ∃ n, 0 < n ∧ Walk next n x y := by
  constructor
  · intro h
    induction h with
    | single hstep => exact ⟨1, Nat.one_pos, x, rfl, hstep⟩
    | tail _ hstep ih =>
      obtain ⟨n, -, hwalk⟩ := ih
      exact ⟨n + 1, Nat.succ_pos n, _, hwalk, hstep⟩
  · rintro ⟨n, hpos, hwalk⟩
    induction n generalizing y with
    | zero => omega
    | succ n ih =>
      obtain ⟨z, hz, hstep⟩ := hwalk
      cases n with
      | zero =>
        obtain rfl : x = z := hz
        exact TransGen.single hstep
      | succ n => exact TransGen.tail (ih (Nat.succ_pos n) hz) hstep

theorem exists_distance (h : TransGen (Step next) x y) : ∃ n, Distance next x y n := by
  have hex := transGen_iff_walk.mp h
  classical
  refine ⟨Nat.find hex, (Nat.find_spec hex).1, (Nat.find_spec hex).2, fun m hm hwalk => ?_⟩
  exact Nat.find_min' hex ⟨hm, hwalk⟩

theorem Distance.unique {m n : Nat} (h : Distance next x y m) (h' : Distance next x y n) : m = n :=
  Nat.le_antisymm (h.least n h'.pos h'.walk) (h'.least m h.pos h.walk)

end

variable [DecidableEq α]

/-- The vertices met with a queue, each with its distance. -/
def breadth (next : α → List α) : Nat → List (α × Nat) → List α → List (α × Nat)
  | 0, _, _ => []
  | _, [], _ => []
  | fuel + 1, (x, n) :: queue, seen =>
    if x ∈ seen then breadth next fuel queue seen
    else (x, n) :: breadth next fuel (queue ++ (next x).map fun y => (y, n + 1)) (x :: seen)

/-- What holds while the search goes on: `met` are the vertices met so far. -/
structure Searching (next : α → List α) (start : α) (queue met : List (α × Nat)) : Prop where
  sound : ∀ e ∈ met ++ queue, 0 < e.2 ∧ Walk next e.2 start e.1
  sorted : queue.Pairwise fun a b => a.2 ≤ b.2
  span : ∀ a ∈ queue, ∀ b ∈ queue, b.2 ≤ a.2 + 1
  below : ∀ a ∈ met, ∀ b ∈ queue, a.2 ≤ b.2
  starts : ∀ y ∈ next start, ∃ e ∈ met ++ queue, e.1 = y ∧ e.2 ≤ 1
  closed : ∀ a ∈ met, ∀ y ∈ next a.1, ∃ e ∈ met ++ queue, e.1 = y ∧ e.2 ≤ a.2 + 1
  least : ∀ a ∈ met, ∀ n, 0 < n → Walk next n start a.1 → a.2 ≤ n

namespace Searching

variable {next : α → List α} {start x : α} {n : Nat} {queue met : List (α × Nat)}

omit [DecidableEq α] in
theorem init : Searching next start ((next start).map fun y => (y, 1)) [] := by
  have hone : ∀ e ∈ (next start).map fun y => (y, 1), e.2 = 1 := by
    intro e he
    obtain ⟨y, -, rfl⟩ := mem_map.mp he
    rfl
  refine ⟨fun e he => ?_, ?_, fun a ha b hb => ?_, by simp, fun y hy => ?_, by simp, by simp⟩
  · obtain ⟨y, hy, rfl⟩ := mem_map.mp he
    exact ⟨Nat.one_pos, start, rfl, hy⟩
  · rw [pairwise_map]
    exact pairwise_of_forall fun _ _ => Nat.le_refl 1
  · rw [hone a ha, hone b hb]
    omega
  · exact ⟨(y, 1), mem_map_of_mem hy, rfl, Nat.le_refl 1⟩

omit [DecidableEq α] in
/-- A vertex that some steps lead to is met, or something is left that is at least as near. -/
theorem front (h : Searching next start queue met) :
    ∀ (n : Nat) (y : α), 0 < n → Walk next n start y →
      (∃ e ∈ met, e.1 = y ∧ e.2 ≤ n) ∨ ∃ e ∈ queue, e.2 ≤ n := by
  have hsplit : ∀ {y : α} {k : Nat}, (∃ e ∈ met ++ queue, e.1 = y ∧ e.2 ≤ k) →
      (∃ e ∈ met, e.1 = y ∧ e.2 ≤ k) ∨ ∃ e ∈ queue, e.2 ≤ k := by
    rintro y k ⟨e, he, heq, hle⟩
    rcases mem_append.mp he with he | he
    · exact .inl ⟨e, he, heq, hle⟩
    · exact .inr ⟨e, he, hle⟩
  intro n
  induction n with
  | zero => exact fun _ hpos => absurd hpos (Nat.lt_irrefl 0)
  | succ n ih =>
    intro y _ hwalk
    obtain ⟨z, hz, hstep⟩ := hwalk
    by_cases hn : n = 0
    · subst hn
      obtain rfl : start = z := hz
      exact hsplit (h.starts y hstep)
    · rcases ih z (Nat.pos_of_ne_zero hn) hz with ⟨e, he, rfl, hle⟩ | ⟨e, he, hle⟩
      · obtain ⟨e', he', heq, hle'⟩ := h.closed e he y hstep
        exact hsplit ⟨e', he', heq, by omega⟩
      · exact .inr ⟨e, he, by omega⟩

omit [DecidableEq α] in
/-- A vertex that was met before is dropped. -/
theorem drop (h : Searching next start ((x, n) :: queue) met) (hx : x ∈ met.map Prod.fst) :
    Searching next start queue met := by
  have hkeep : ∀ {y : α} {k : Nat}, (∃ e ∈ met ++ (x, n) :: queue, e.1 = y ∧ e.2 ≤ k) →
      ∃ e ∈ met ++ queue, e.1 = y ∧ e.2 ≤ k := by
    rintro y k ⟨e, he, heq, hle⟩
    rcases mem_append.mp he with he | he
    · exact ⟨e, mem_append_left _ he, heq, hle⟩
    · rcases mem_cons.mp he with rfl | he
      · obtain ⟨e', he', heq'⟩ := mem_map.mp hx
        have hle' := h.below e' he' (x, n) mem_cons_self
        exact ⟨e', mem_append_left _ he', heq'.trans heq, Nat.le_trans hle' hle⟩
      · exact ⟨e, mem_append_right _ he, heq, hle⟩
  refine ⟨fun e he => h.sound e ?_, (pairwise_cons.mp h.sorted).2,
    fun a ha b hb => h.span a (mem_cons_of_mem _ ha) b (mem_cons_of_mem _ hb),
    fun a ha b hb => h.below a ha b (mem_cons_of_mem _ hb), fun y hy => hkeep (h.starts y hy),
    fun a ha y hy => hkeep (h.closed a ha y hy), h.least⟩
  rcases mem_append.mp he with he | he
  · exact mem_append_left _ he
  · exact mem_append_right _ (mem_cons_of_mem _ he)

omit [DecidableEq α] in
/-- A vertex that is met for the first time is as near as can be; its successors wait. -/
theorem meet (h : Searching next start ((x, n) :: queue) met) (hx : x ∉ met.map Prod.fst) :
    Searching next start (queue ++ (next x).map fun y => (y, n + 1)) (met ++ [(x, n)]) := by
  obtain ⟨hhead, hsorted⟩ := pairwise_cons.mp h.sorted
  have hnew : ∀ e ∈ (next x).map fun y => (y, n + 1), e.2 = n + 1 ∧ e.1 ∈ next x := by
    intro e he
    obtain ⟨y, hy, rfl⟩ := mem_map.mp he
    exact ⟨rfl, hy⟩
  have hspan : ∀ e ∈ queue, e.2 ≤ n + 1 := fun e he =>
    h.span (x, n) mem_cons_self e (mem_cons_of_mem _ he)
  have hkeep : ∀ {y : α} {k : Nat}, (∃ e ∈ met ++ (x, n) :: queue, e.1 = y ∧ e.2 ≤ k) →
      ∃ e ∈ (met ++ [(x, n)]) ++ (queue ++ (next x).map fun y => (y, n + 1)), e.1 = y ∧ e.2 ≤ k := by
    rintro y k ⟨e, he, heq, hle⟩
    refine ⟨e, ?_, heq, hle⟩
    rw [← append_assoc, append_assoc met, singleton_append]
    exact mem_append_left _ he
  refine ⟨fun e he => ?_, ?_, fun a ha b hb => ?_, fun a ha b hb => ?_, fun y hy => hkeep (h.starts y hy),
    fun a ha y hy => ?_, fun a ha m hm hwalk => ?_⟩
  · rw [← append_assoc, append_assoc met, singleton_append] at he
    rcases mem_append.mp he with he | he
    · exact h.sound e he
    · obtain ⟨heq, hstep⟩ := hnew e he
      obtain ⟨-, hwalk⟩ := h.sound (x, n) (mem_append_right _ mem_cons_self)
      rw [heq]
      exact ⟨Nat.succ_pos n, x, hwalk, hstep⟩
  · refine pairwise_append.mpr ⟨hsorted, ?_, fun a ha b hb => ?_⟩
    · rw [pairwise_map]
      exact pairwise_of_forall fun _ _ => Nat.le_refl _
    · rw [(hnew b hb).1]
      exact hspan a ha
  · have hlow : ∀ e ∈ queue ++ (next x).map fun y => (y, n + 1), n ≤ e.2 ∧ e.2 ≤ n + 1 := by
      intro e he
      rcases mem_append.mp he with he | he
      · exact ⟨hhead e he, hspan e he⟩
      · rw [(hnew e he).1]
        omega
    have hla := hlow a ha
    have hlb := hlow b hb
    omega
  · have hb' : n ≤ b.2 := by
      rcases mem_append.mp hb with hb | hb
      · exact hhead b hb
      · rw [(hnew b hb).1]
        omega
    rcases mem_append.mp ha with ha | ha
    · exact Nat.le_trans (h.below a ha (x, n) mem_cons_self) hb'
    · rw [mem_singleton.mp ha]
      exact hb'
  · rcases mem_append.mp ha with ha | ha
    · exact hkeep (h.closed a ha y hy)
    · obtain rfl := mem_singleton.mp ha
      exact ⟨(y, n + 1), mem_append_right _ (mem_append_right _ (mem_map_of_mem hy)), rfl,
        Nat.le_refl _⟩
  · rcases mem_append.mp ha with ha | ha
    · exact h.least a ha m hm hwalk
    · obtain rfl := mem_singleton.mp ha
      rcases h.front m x hm hwalk with ⟨e, he, heq, -⟩ | ⟨e, he, hle⟩
      · exact absurd (mem_map.mpr ⟨e, he, heq⟩) hx
      · rcases mem_cons.mp he with rfl | he
        · exact hle
        · exact Nat.le_trans (hhead e he) hle

omit [DecidableEq α] in
theorem mem_iff (h : Searching next start [] met) (y : α) (n : Nat) :
    (y, n) ∈ met ↔ Distance next start y n := by
  have hdistance : ∀ e ∈ met, Distance next start e.1 e.2 := fun e he =>
    ⟨(h.sound e (mem_append_left _ he)).1, (h.sound e (mem_append_left _ he)).2, h.least e he⟩
  refine ⟨hdistance (y, n), fun hd => ?_⟩
  rcases h.front n y hd.pos hd.walk with ⟨e, he, rfl, -⟩ | ⟨e, he, -⟩
  · rw [hd.unique (hdistance e he)]
    exact he
  · cases he

end Searching

/-- The search runs until nothing waits. -/
theorem breadth_spec {next : α → List α} {start : α} {domain : List α}
    (hdomain : ∀ x, next x ≠ [] → x ∈ domain) :
    ∀ (fuel : Nat) (queue met : List (α × Nat)) (seen : List α), Searching next start queue met →
      (∀ x, x ∈ seen ↔ x ∈ met.map Prod.fst) →
      queue.length + remaining next domain (met.map Prod.fst) ≤ fuel →
      Searching next start [] (met ++ breadth next fuel queue seen) := by
  intro fuel
  induction fuel with
  | zero =>
    intro queue met seen h hseen hfuel
    obtain rfl : queue = [] := length_eq_zero_iff.mp (by omega)
    rw [breadth, append_nil]
    exact h
  | succ fuel ih =>
    intro queue met seen h hseen hfuel
    cases queue with
    | nil =>
      rw [breadth, append_nil]
      · exact h
      · simp
    | cons e queue =>
      obtain ⟨x, n⟩ := e
      rw [length_cons] at hfuel
      rw [breadth]
      by_cases hx : x ∈ seen
      · rw [if_pos hx]
        exact ih queue met seen (h.drop ((hseen x).mp hx)) hseen (by omega)
      · have hx' : x ∉ met.map Prod.fst := fun hin => hx ((hseen x).mpr hin)
        have hremaining := remaining_visit hx' (hdomain x)
        rw [if_neg hx, ← singleton_append, ← append_assoc]
        refine ih _ _ _ (h.meet hx') (fun y => ?_) ?_
        · rw [mem_cons, map_append, mem_append, hseen, or_comm]
          simp
        · rw [length_append, length_map, map_append]
          have hsame : map Prod.fst [(x, n)] = [x] := rfl
          rw [hsame]
          omega

theorem mem_breadth {next : α → List α} {start : α} {domain : List α} {fuel : Nat}
    (hdomain : ∀ x, next x ≠ [] → x ∈ domain)
    (hfuel : (next start).length + degreeSum next domain ≤ fuel) (y : α) (n : Nat) :
    (y, n) ∈ breadth next fuel ((next start).map fun y => (y, 1)) [] ↔ Distance next start y n := by
  refine (breadth_spec hdomain fuel _ [] [] Searching.init (by simp) ?_).mem_iff y n
  simpa [remaining, degreeSum] using hfuel

end Workbay.Graph

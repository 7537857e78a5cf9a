import Workbay.Graph.StronglyConnected

/-!
# Proofs: the search finds exactly the strongly connected components

The invariant speaks of the path of vertices that are entered and not yet closed: it orders the
stack, connects it with the path, and says of every finished component that it is maximal.
-/

namespace Workbay.Graph

open Relation List

variable {α : Type} [DecidableEq α] {vertices : List α} {successors : α → List α}

namespace Search

variable {st : Search α} {v w x : α}

theorem visited_enter : (st.enter v).Visited x ↔ x = v ∨ st.Visited x := by
  simp only [Visited, enter, Dict.get?_set]
  by_cases h : x = v <;> simp [h]

theorem num_enter_self : (st.enter v).num v = st.index := by
  simp [num, enter]

theorem num_enter_of_ne (h : x ≠ v) : (st.enter v).num x = st.num x := by
  simp [num, enter, Dict.getD_set_of_ne _ _ _ h]

theorem low_enter_self : (st.enter v).low v = st.index := by
  simp [low, enter]

theorem low_enter_of_ne (h : x ≠ v) : (st.enter v).low x = st.low x := by
  simp [low, enter, Dict.getD_set_of_ne _ _ _ h]

theorem low_lower_self {n : Nat} : (st.lower v n).low v = min (st.low v) n := by
  simp [low, lower]

theorem low_lower_of_ne {n : Nat} (h : x ≠ v) : (st.lower v n).low x = st.low x := by
  simp [low, lower, Dict.getD_set_of_ne _ _ _ h]

theorem popTo_of_append : ∀ {above below : List α}, v ∉ above →
    popTo v (above ++ v :: below) = some (above ++ [v], below) := by
  intro above
  induction above with
  | nil => intro below _; simp [popTo]
  | cons x above ih =>
    intro below h
    have hx : x ≠ v := fun heq => h (by simp [heq])
    have habove : v ∉ above := fun hmem => h (mem_cons_of_mem _ hmem)
    simp [popTo, hx, ih habove]

/-- The number of vertices that are not entered yet. -/
def unvisited (vertices : List α) (st : Search α) : Nat :=
  vertices.countP fun v => ¬ st.Visited v

theorem unvisited_mono {st' : Search α} (h : ∀ x, st.Visited x → st'.Visited x) :
    st'.unvisited vertices ≤ st.unvisited vertices := by
  apply countP_mono_left
  intro x _ hx
  simp only [decide_eq_true_eq] at hx ⊢
  exact fun hv => hx (h x hv)

theorem unvisited_enter_lt (hv : v ∈ vertices) (hnew : ¬ st.Visited v) :
    (st.enter v).unvisited vertices < st.unvisited vertices := by
  unfold unvisited
  induction vertices with
  | nil => simp at hv
  | cons x xs ih =>
    have hmono : (st.enter v).unvisited xs ≤ st.unvisited xs :=
      unvisited_mono fun y hy => visited_enter.mpr (.inr hy)
    unfold unvisited at hmono
    by_cases hx : x = v
    · subst hx
      have hself : (st.enter x).Visited x := visited_enter.mpr (.inl rfl)
      rw [countP_cons_of_neg (by simp [hself]), countP_cons_of_pos (by simp [hnew])]
      exact Nat.lt_succ_of_le hmono
    · have hmem : v ∈ xs := by
        rcases mem_cons.mp hv with h | h
        · exact absurd h.symm hx
        · exact h
      have hiff : (st.enter v).Visited x ↔ st.Visited x := by
        rw [visited_enter]
        exact or_iff_right hx
      have hlt := ih hmem
      simp only [countP_cons, hiff]
      omega

end Search

/-- What holds of a search whose entered and not yet closed vertices are `path`. -/
structure SearchInv (vertices : List α) (successors : α → List α) (path : List α) (st : Search α) :
    Prop where
  onStack : ∀ x, x ∈ st.onStack ↔ x ∈ st.stack
  sorted : st.stack.Pairwise fun x y => st.num y < st.num x
  num_lt : ∀ x ∈ st.stack, st.num x < st.index
  mem : ∀ x, st.Visited x → x ∈ vertices
  visited : ∀ x, st.Visited x ↔ x ∈ st.stack ∨ ∃ c ∈ st.components, x ∈ c
  onPath : ∀ x ∈ path, x ∈ st.stack
  /-- The successors of a closed vertex have been entered. -/
  closed : ∀ x y, st.Visited x → x ∉ path → Edge vertices successors x y → st.Visited y
  /-- An earlier vertex of the stack reaches a later one. -/
  down : ∀ x ∈ st.stack, ∀ y ∈ st.stack, st.num x ≤ st.num y → Reach vertices successors x y
  /-- Every vertex of the stack reaches one of the path that is not later. -/
  up : ∀ y ∈ st.stack, ∃ x ∈ path, st.num x ≤ st.num y ∧ Reach vertices successors y x
  components : ∀ c ∈ st.components, (∃ x, x ∈ c) ∧
    ∀ x ∈ c, x ∉ st.stack ∧ ∀ y, y ∈ c ↔ Connected vertices successors x y

/-- What a search keeps while it goes on. -/
structure Grows (st st' : Search α) : Prop where
  visited : ∀ x, st.Visited x → st'.Visited x ∧ st'.num x = st.num x
  stack : ∃ above, st'.stack = above ++ st.stack

theorem Grows.refl (st : Search α) : Grows st st := ⟨fun _ h => ⟨h, rfl⟩, [], rfl⟩

theorem Grows.trans {st st' st'' : Search α} (h : Grows st st') (h' : Grows st' st'') :
    Grows st st'' := by
  refine ⟨fun x hx => ?_, ?_⟩
  · obtain ⟨hx', hnum⟩ := h.visited x hx
    obtain ⟨hx'', hnum'⟩ := h'.visited x hx'
    exact ⟨hx'', hnum'.trans hnum⟩
  · obtain ⟨above, habove⟩ := h.stack
    obtain ⟨above', habove'⟩ := h'.stack
    exact ⟨above' ++ above, by rw [habove', habove, append_assoc]⟩

namespace SearchInv

variable {path : List α} {st : Search α} {v : α}

theorem visited_of_mem (h : SearchInv vertices successors path st) {x : α} (hx : x ∈ st.stack) :
    st.Visited x := (h.visited x).mpr (.inl hx)

theorem lower (h : SearchInv vertices successors path st) (v : α) (n : Nat) :
    SearchInv vertices successors path (st.lower v n) :=
  ⟨h.onStack, h.sorted, h.num_lt, h.mem, h.visited, h.onPath, h.closed, h.down, h.up, h.components⟩

theorem enter (h : SearchInv vertices successors path st) (hv : v ∈ vertices) (hnew : ¬ st.Visited v)
    (hpath : ∀ x ∈ path, Reach vertices successors x v) :
    SearchInv vertices successors (v :: path) (st.enter v) := by
  have hne : ∀ x ∈ st.stack, x ≠ v := by
    rintro x hx rfl
    exact hnew (h.visited_of_mem hx)
  have hnum : ∀ x ∈ st.stack, (st.enter v).num x = st.num x := fun x hx =>
    Search.num_enter_of_ne (hne x hx)
  have hself : (st.enter v).num v = st.index := Search.num_enter_self
  refine ⟨?_, ?_, ?_, ?_, ?_, ?_, ?_, ?_, ?_, ?_⟩
  · intro x
    simp [Search.enter, h.onStack x]
  · refine pairwise_cons.mpr ⟨fun x hx => ?_, ?_⟩
    · rw [hself, hnum x hx]
      exact h.num_lt x hx
    · refine h.sorted.imp_of_mem fun {x y} hx hy hlt => ?_
      rw [hnum x hx, hnum y hy]
      exact hlt
  · intro x hx
    rcases mem_cons.mp hx with rfl | hx
    · rw [hself]
      exact Nat.lt_succ_self _
    · rw [hnum x hx]
      exact Nat.lt_succ_of_lt (h.num_lt x hx)
  · intro x hx
    rcases Search.visited_enter.mp hx with rfl | hx
    · exact hv
    · exact h.mem x hx
  · intro x
    rw [Search.visited_enter, h.visited x]
    simp [Search.enter, or_assoc]
  · intro x hx
    rcases mem_cons.mp hx with rfl | hx
    · exact mem_cons_self
    · exact mem_cons_of_mem _ (h.onPath x hx)
  · intro x y hx hnot hxy
    rcases Search.visited_enter.mp hx with rfl | hx
    · exact absurd mem_cons_self hnot
    · exact Search.visited_enter.mpr (.inr
        (h.closed x y hx (fun hmem => hnot (mem_cons_of_mem _ hmem)) hxy))
  · intro x hx y hy hle
    rcases mem_cons.mp hy with rfl | hy'
    · rcases mem_cons.mp hx with rfl | hx'
      · exact ReflTransGen.refl
      · obtain ⟨g, hg, -, hreach⟩ := h.up x hx'
        exact hreach.trans (hpath g hg)
    · rcases mem_cons.mp hx with rfl | hx'
      · rw [hself, hnum y hy'] at hle
        have hlt := h.num_lt y hy'
        omega
      · rw [hnum x hx', hnum y hy'] at hle
        exact h.down x hx' y hy' hle
  · intro y hy
    rcases mem_cons.mp hy with rfl | hy
    · exact ⟨y, mem_cons_self, le_rfl, ReflTransGen.refl⟩
    · obtain ⟨g, hg, hle, hreach⟩ := h.up y hy
      refine ⟨g, mem_cons_of_mem _ hg, ?_, hreach⟩
      rw [hnum y hy, hnum g (h.onPath g hg)]
      exact hle
  · intro c hc
    obtain ⟨hne', hall⟩ := h.components c hc
    refine ⟨hne', fun x hx => ⟨fun hmem => ?_, (hall x hx).2⟩⟩
    rcases mem_cons.mp hmem with rfl | hmem
    · exact hnew ((h.visited x).mpr (.inr ⟨c, hc, hx⟩))
    · exact (hall x hx).1 hmem

end SearchInv

theorem Grows.enter {st : Search α} {v : α} (hnew : ¬ st.Visited v) : Grows st (st.enter v) := by
  refine ⟨fun x hx => ⟨Search.visited_enter.mpr (.inr hx), Search.num_enter_of_ne ?_⟩, [v], rfl⟩
  rintro rfl
  exact hnew hx

/-- What entering the vertex `v` and scanning the successors `done` has reached. -/
structure Scanning (vertices : List α) (successors : α → List α) (path : List α) (v : α)
    (st : Search α) (done : List α) (st' : Search α) : Prop where
  inv : SearchInv vertices successors (v :: path) st'
  grows : Grows (st.enter v) st'
  low_eq : ∀ x, st.Visited x → st'.low x = st.low x
  low_le : st'.low v ≤ st'.num v
  link : ∃ y ∈ st'.stack, st'.num y = st'.low v ∧ Reach vertices successors v y
  /-- No edge from the stack above `v` leads below its low link. -/
  cross : ∀ above, st'.stack = above ++ v :: st.stack → ∀ x ∈ above, ∀ y ∈ st.stack,
    Edge vertices successors x y → st'.low v ≤ st'.num y
  done : ∀ y ∈ done, y ∈ vertices → st'.Visited y ∧ (y ∈ st.stack → st'.low v ≤ st'.num y)

/-- What entering, scanning and closing the vertex `v` has reached. -/
structure Connects (vertices : List α) (successors : α → List α) (path : List α) (v : α)
    (st st' : Search α) : Prop where
  inv : SearchInv vertices successors path st'
  grows : Grows st st'
  low_eq : ∀ x, st.Visited x → st'.low x = st.low x
  visited : st'.Visited v
  low_le : st'.low v ≤ st'.num v
  link : v ∈ st'.stack → ∃ y ∈ st'.stack, st'.num y = st'.low v ∧ Reach vertices successors v y
  alone : v ∉ st'.stack → ∀ y ∈ st.stack, st'.num y < st'.low v
  cross : ∀ above, st'.stack = above ++ st.stack → ∀ x ∈ above, ∀ y ∈ st.stack,
    Edge vertices successors x y → st'.low v ≤ st'.num y

section

variable {path done : List α} {v next : α} {st st₁ : Search α}

theorem Scanning.start (h : SearchInv vertices successors path st) (hv : v ∈ vertices)
    (hnew : ¬ st.Visited v) (hpath : ∀ x ∈ path, Reach vertices successors x v) :
    Scanning vertices successors path v st [] (st.enter v) := by
  refine ⟨h.enter hv hnew hpath, Grows.refl _, fun x hx => Search.low_enter_of_ne ?_, ?_, ?_, ?_, ?_⟩
  · rintro rfl
    exact hnew hx
  · rw [Search.low_enter_self, Search.num_enter_self]
  · exact ⟨v, mem_cons_self, by rw [Search.low_enter_self, Search.num_enter_self],
      ReflTransGen.refl⟩
  · intro above habove x hx
    have hnil : above = [] := by
      have hlen := congrArg List.length habove
      simp only [Search.enter, length_append, length_cons] at hlen
      exact length_eq_zero_iff.mp (by omega)
    simp [hnil] at hx
  · simp

section

variable (h : Scanning vertices successors path v st done st₁)

include h

theorem Scanning.self_mem : v ∈ st₁.stack :=
  h.inv.onPath v mem_cons_self

theorem Scanning.stack_mem {y : α} (hy : y ∈ st.stack) : y ∈ st₁.stack := by
  obtain ⟨above, habove⟩ := h.grows.stack
  rw [habove]
  exact mem_append_right _ (mem_cons_of_mem _ hy)

/-- The low link is lowered to the number of a vertex of the stack that `v` reaches. -/
theorem Scanning.lower (hnew : ¬ st.Visited v) {n : Nat}
    (hn : n < st₁.low v → ∃ y ∈ st₁.stack, st₁.num y = n ∧ Reach vertices successors v y)
    (hvisited : next ∈ vertices → st₁.Visited next) (hle : next ∈ st.stack → n ≤ st₁.num next) :
    Scanning vertices successors path v st (done ++ [next]) (st₁.lower v n) := by
  have hlow : (st₁.lower v n).low v ≤ st₁.low v := by
    rw [Search.low_lower_self]
    exact Nat.min_le_left _ _
  refine ⟨h.inv.lower v n, ⟨h.grows.visited, h.grows.stack⟩, fun x hx => ?_,
    hlow.trans h.low_le, ?_, fun above habove x hx y hy hxy => ?_, fun y hy hyv => ?_⟩
  · rw [Search.low_lower_of_ne, h.low_eq x hx]
    rintro rfl
    exact hnew hx
  · rw [Search.low_lower_self]
    by_cases hlt : n < st₁.low v
    · rw [Nat.min_eq_right hlt.le]
      exact hn hlt
    · rw [Nat.min_eq_left (not_lt.mp hlt)]
      exact h.link
  · exact hlow.trans (h.cross above habove x hx y hy hxy)
  · rcases mem_append.mp hy with hy | hy
    · obtain ⟨hvis, hcross⟩ := h.done y hy hyv
      exact ⟨hvis, fun hmem => hlow.trans (hcross hmem)⟩
    · obtain rfl := mem_singleton.mp hy
      refine ⟨hvisited hyv, fun hmem => ?_⟩
      rw [Search.low_lower_self]
      exact (Nat.min_le_right _ _).trans (hle hmem)

theorem Scanning.skip (hvisited : next ∈ vertices → st₁.Visited next)
    (hle : next ∈ vertices → next ∉ st.stack) :
    Scanning vertices successors path v st (done ++ [next]) st₁ := by
  refine ⟨h.inv, h.grows, h.low_eq, h.low_le, h.link, h.cross, fun y hy hyv => ?_⟩
  rcases mem_append.mp hy with hy | hy
  · exact h.done y hy hyv
  · obtain rfl := mem_singleton.mp hy
    exact ⟨hvisited hyv, fun hmem => absurd hmem (hle hyv)⟩

theorem Scanning.connected (hnew : ¬ st.Visited v) {st₂ : Search α}
    (hc : Connects vertices successors (v :: path) next st₁ st₂) (hedge : next ∈ successors v)
    (hnext : next ∈ vertices) (hunseen : ¬ st₁.Visited next) :
    Scanning vertices successors path v st (done ++ [next]) (st₂.lower v (st₂.low next)) := by
  have hv := h.self_mem
  have hvis : st₁.Visited v := h.inv.visited_of_mem hv
  obtain ⟨fresh, hfresh⟩ := hc.grows.stack
  -- the low link of `v` and the numbers below are those from before the call
  have hlow : st₂.low v = st₁.low v := hc.low_eq v hvis
  have hold : ∀ x, st.Visited x → st₁.Visited x := fun x hx =>
    (h.grows.visited x (Search.visited_enter.mpr (.inr hx))).1
  have hnum : ∀ x, st₁.Visited x → st₂.num x = st₁.num x := fun x hx => (hc.grows.visited x hx).2
  have hnotmem : next ∉ st.stack := fun hmem =>
    hunseen (h.inv.visited_of_mem (h.stack_mem hmem))
  have hlt : ∀ y ∈ st₁.stack, y ∈ st₂.stack := by
    intro y hy
    rw [hfresh]
    exact mem_append_right _ hy
  refine ⟨hc.inv.lower v _, ⟨(h.grows.trans hc.grows).visited, (h.grows.trans hc.grows).stack⟩,
    fun x hx => ?_, ?_, ?_, ?_, ?_⟩
  · rw [Search.low_lower_of_ne, hc.low_eq x (hold x hx), h.low_eq x hx]
    rintro rfl
    exact hnew hx
  · rw [Search.low_lower_self, hlow]
    have hle : min (st₁.low v) (st₂.low next) ≤ st₁.num v := (Nat.min_le_left _ _).trans h.low_le
    rw [← hnum v hvis] at hle
    exact hle
  · rw [Search.low_lower_self, hlow]
    by_cases hlt' : st₂.low next < st₁.low v
    · rw [Nat.min_eq_right hlt'.le]
      by_cases hmem : next ∈ st₂.stack
      · obtain ⟨y, hy, hynum, hreach⟩ := hc.link hmem
        exact ⟨y, hy, hynum, ReflTransGen.head ⟨hedge, hnext⟩ hreach⟩
      · -- the component of the successor is off the stack, and later than `v`
        have halone := hc.alone hmem v hv
        have hle := h.low_le
        rw [hnum v hvis] at halone
        omega
    · rw [Nat.min_eq_left (not_lt.mp hlt')]
      obtain ⟨y, hy, hynum, hreach⟩ := h.link
      exact ⟨y, hlt y hy, (hnum y (h.inv.visited_of_mem hy)).trans hynum, hreach⟩
  · intro above habove x hx y hy hxy
    have hy₁ := h.stack_mem hy
    obtain ⟨above₁, habove₁⟩ := h.grows.stack
    have hsplit : above = fresh ++ above₁ := by
      have heq : above ++ v :: st.stack = (fresh ++ above₁) ++ v :: st.stack := by
        rw [← habove, append_assoc]
        exact hfresh.trans (congrArg (fresh ++ ·) habove₁)
      exact append_cancel_right heq
    rw [Search.low_lower_self, hlow]
    show min (st₁.low v) (st₂.low next) ≤ st₂.num y
    rw [hsplit] at hx
    rcases mem_append.mp hx with hx | hx
    · exact (Nat.min_le_right _ _).trans (hc.cross fresh hfresh x hx y hy₁ hxy)
    · rw [hnum y (h.inv.visited_of_mem hy₁)]
      exact (Nat.min_le_left _ _).trans (h.cross above₁ habove₁ x hx y hy hxy)
  · intro y hy hyv
    rw [Search.low_lower_self, hlow]
    rcases mem_append.mp hy with hy | hy
    · obtain ⟨hvis', hcross⟩ := h.done y hy hyv
      refine ⟨(hc.grows.visited y hvis').1, fun hmem => ?_⟩
      show min (st₁.low v) (st₂.low next) ≤ st₂.num y
      rw [hnum y hvis']
      exact (Nat.min_le_left _ _).trans (hcross hmem)
    · obtain rfl := mem_singleton.mp hy
      exact ⟨hc.visited, fun hmem => absurd hmem hnotmem⟩

end

/-- How the stack lies around the vertex that is closed. -/
structure Split (vertices : List α) (successors : α → List α) (path : List α) (v : α)
    (st st₁ : Search α) (above : List α) : Prop where
  stack : st₁.stack = above ++ v :: st.stack
  below_lt : ∀ y ∈ st.stack, st₁.num y < st₁.num v
  lt_above : ∀ x ∈ above, st₁.num v < st₁.num x
  notMem_path : v ∉ path
  onPath : ∀ x ∈ path, x ∈ st.stack
  /-- The edges of the vertices that are not on the path. -/
  edge : ∀ x y, st₁.Visited x → x ∉ path → Edge vertices successors x y → st₁.Visited y

theorem Scanning.split (h : Scanning vertices successors path v st (successors v) st₁)
    (hi : SearchInv vertices successors path st) (hnew : ¬ st.Visited v) :
    ∃ above, Split vertices successors path v st st₁ above := by
  obtain ⟨above, habove⟩ := h.grows.stack
  have hstack : st₁.stack = above ++ v :: st.stack := habove
  have hsorted := h.inv.sorted
  rw [hstack, pairwise_append, pairwise_cons] at hsorted
  refine ⟨above, hstack, hsorted.2.1.1, fun x hx => hsorted.2.2 x hx v mem_cons_self,
    fun hmem => hnew (hi.visited_of_mem (hi.onPath v hmem)), hi.onPath, fun x y hx hpath hxy => ?_⟩
  by_cases hxv : x = v
  · subst hxv
    exact (h.done y hxy.1 hxy.2).1
  · exact h.inv.closed x y hx (by simp [hxv, hpath]) hxy

section Split

variable {above : List α} (hs : Split vertices successors path v st st₁ above)
  (h : Scanning vertices successors path v st (successors v) st₁)

include hs

theorem Split.notMem_below {x : α} (hx : x ∈ above ++ [v]) : x ∉ st.stack := by
  intro hmem
  have hlt := hs.below_lt x hmem
  rcases mem_append.mp hx with hx | hx
  · have hlt' := hs.lt_above x hx
    omega
  · rw [mem_singleton.mp hx] at hlt
    omega

theorem Split.mem_stack {x : α} : x ∈ st₁.stack ↔ x ∈ above ++ [v] ∨ x ∈ st.stack := by
  rw [hs.stack]
  simp [or_assoc]

include h

/-- A vertex of the path is on the stack below `v`, and reaches it. -/
theorem Split.path_reach {x : α} (hx : x ∈ path) : Reach vertices successors x v :=
  h.inv.down x (h.stack_mem (hs.onPath x hx)) v h.self_mem (hs.below_lt x (hs.onPath x hx)).le

/-- When `v` is the first of its component, everything above it is connected with it. -/
theorem Split.connected {x : α} (hx : x ∈ above ++ [v]) : Connected vertices successors v x := by
  have hmem : x ∈ st₁.stack := hs.mem_stack.mpr (.inl hx)
  rcases mem_append.mp hx with habove | hself
  · refine ⟨h.inv.down v h.self_mem x hmem (hs.lt_above x habove).le, ?_⟩
    obtain ⟨g, hg, -, hreach⟩ := h.inv.up x hmem
    rcases mem_cons.mp hg with rfl | hg
    · exact hreach
    · exact hreach.trans (hs.path_reach h hg)
  · rw [mem_singleton.mp hself]
    exact ⟨ReflTransGen.refl, ReflTransGen.refl⟩

theorem Split.noCross (hlow : st₁.low v = st₁.num v) {x y : α} (hx : x ∈ above ++ [v])
    (hxy : Edge vertices successors x y) : y ∉ st.stack := by
  intro hy
  have hlt := hs.below_lt y hy
  rcases mem_append.mp hx with habove | hself
  · have hle := h.cross above hs.stack x habove y hy hxy
    omega
  · rw [mem_singleton.mp hself] at hxy
    have hle := (h.done y hxy.1 hxy.2).2 hy
    omega

/-- When `v` is the first of its component, everything connected with it is above it. -/
theorem Split.complete (hlow : st₁.low v = st₁.num v) {y : α}
    (hy : Connected vertices successors v y) : y ∈ above ++ [v] := by
  obtain ⟨hto, hback⟩ := hy
  -- every vertex of the way there is connected with `v`
  induction hto with
  | refl => simp
  | @tail z y hvz hzy ih =>
    have hz := ih (ReflTransGen.head hzy hback)
    have hvis : st₁.Visited z := h.inv.visited_of_mem (hs.mem_stack.mpr (.inl hz))
    have hpath : z ∉ path := fun hmem => hs.notMem_below hz (hs.onPath z hmem)
    rcases (h.inv.visited y).mp (hs.edge z y hvis hpath hzy) with hmem | ⟨c, hc, hyc⟩
    · rcases hs.mem_stack.mp hmem with hmem | hmem
      · exact hmem
      · exact absurd hmem (hs.noCross h hlow hz hzy)
    · obtain ⟨-, hall⟩ := h.inv.components c hc
      have hvc : v ∈ c := ((hall y hyc).2 v).mpr ⟨hback, hvz.tail hzy⟩
      exact absurd h.self_mem (hall v hvc).1

theorem Split.stay (hlow : st₁.low v < st₁.num v) : SearchInv vertices successors path st₁ := by
  refine { h.inv with onPath := fun x hx => ?_, closed := hs.edge, up := fun y hy => ?_ }
  · exact h.stack_mem (hs.onPath x hx)
  · obtain ⟨g, hg, hle, hreach⟩ := h.inv.up y hy
    rcases mem_cons.mp hg with rfl | hg
    · -- `v` reaches an earlier vertex, and that one the path
      obtain ⟨z, hz, hznum, hvz⟩ := h.link
      obtain ⟨g', hg', hle', hreach'⟩ := h.inv.up z hz
      rcases mem_cons.mp hg' with rfl | hg'
      · omega
      · exact ⟨g', hg', by omega, hreach.trans (hvz.trans hreach')⟩
    · exact ⟨g, hg, hle, hreach⟩

theorem Split.pop (hlow : st₁.low v = st₁.num v) :
    SearchInv vertices successors path { st₁ with
      stack := st.stack
      onStack := st₁.onStack.filter fun member => member ∉ above ++ [v]
      components := st₁.components ++ [above ++ [v]] } := by
  have hsub : ∀ x ∈ st.stack, x ∈ st₁.stack := fun x hx => h.stack_mem hx
  have hsorted := h.inv.sorted
  rw [hs.stack, pairwise_append, pairwise_cons] at hsorted
  refine ⟨fun x => ?_, hsorted.2.1.2, fun x hx => h.inv.num_lt x (hsub x hx), h.inv.mem,
    fun x => ?_, hs.onPath, hs.edge, fun x hx y hy => h.inv.down x (hsub x hx) y (hsub y hy),
    fun y hy => ?_, fun c hc => ?_⟩
  · rw [mem_filter, h.inv.onStack, hs.mem_stack, decide_eq_true_eq]
    constructor
    · rintro ⟨hmem | hmem, hnot⟩
      · exact absurd hmem hnot
      · exact hmem
    · exact fun hmem => ⟨.inr hmem, fun hcomp => hs.notMem_below hcomp hmem⟩
  · have hold := h.inv.visited x
    rw [hs.mem_stack] at hold
    refine hold.trans ?_
    simp only [mem_append, mem_singleton]
    constructor
    · rintro ((hx | hx) | ⟨c, hc, hx⟩)
      · exact .inr ⟨_, .inr rfl, mem_append.mpr (hx.imp id mem_singleton.mpr)⟩
      · exact .inl hx
      · exact .inr ⟨c, .inl hc, hx⟩
    · rintro (hx | ⟨c, hc | rfl, hx⟩)
      · exact .inl (.inr hx)
      · exact .inr ⟨c, hc, hx⟩
      · exact .inl (.inl ((mem_append.mp hx).imp id mem_singleton.mp))
  · obtain ⟨g, hg, hle, hreach⟩ := h.inv.up y (hsub y hy)
    rcases mem_cons.mp hg with rfl | hg
    · have hlt := hs.below_lt y hy
      omega
    · exact ⟨g, hg, hle, hreach⟩
  · rcases mem_append.mp hc with hc | hc
    · obtain ⟨hne, hall⟩ := h.inv.components c hc
      exact ⟨hne, fun x hx => ⟨fun hmem => (hall x hx).1 (hsub x hmem), (hall x hx).2⟩⟩
    · obtain rfl := mem_singleton.mp hc
      refine ⟨⟨v, by simp⟩, fun x hx => ⟨hs.notMem_below hx, fun y => ?_⟩⟩
      obtain ⟨hvx, hxv⟩ := hs.connected h hx
      constructor
      · intro hy
        obtain ⟨hvy, hyv⟩ := hs.connected h hy
        exact ⟨hxv.trans hvy, hyv.trans hvx⟩
      · rintro ⟨hxy, hyx⟩
        exact hs.complete h hlow ⟨hvx.trans hxy, hyx.trans hxv⟩

end Split

theorem Scanning.close (h : Scanning vertices successors path v st (successors v) st₁)
    (hi : SearchInv vertices successors path st) (hnew : ¬ st.Visited v) :
    ∃ st', st₁.close v = some st' ∧ Connects vertices successors path v st st' := by
  obtain ⟨above, hs⟩ := h.split hi hnew
  have hgrows : Grows st st₁ := (Grows.enter hnew).trans h.grows
  have hvis : st₁.Visited v := h.inv.visited_of_mem h.self_mem
  by_cases hlow : st₁.low v = st₁.num v
  · have hnot : v ∉ above := fun hmem => absurd (hs.lt_above v hmem) (lt_irrefl _)
    refine ⟨{ st₁ with
      stack := st.stack
      onStack := st₁.onStack.filter fun member => member ∉ above ++ [v]
      components := st₁.components ++ [above ++ [v]] }, ?_, ?_⟩
    · rw [Search.close, if_pos hlow, hs.stack, Search.popTo_of_append hnot]
      rfl
    · refine ⟨hs.pop h hlow, ⟨hgrows.visited, [], rfl⟩, h.low_eq, hvis, h.low_le,
        fun hmem => absurd hmem (hs.notMem_below (by simp)), fun _ y hy => ?_,
        fun fresh hfresh x hx => ?_⟩
      · show st₁.num y < st₁.low v
        rw [hlow]
        exact hs.below_lt y hy
      · have hnil : fresh = [] := append_left_eq_self.mp hfresh.symm
        simp [hnil] at hx
  · refine ⟨st₁, by rw [Search.close, if_neg hlow], hs.stay h (lt_of_le_of_ne h.low_le hlow),
      hgrows, h.low_eq, hvis, h.low_le, fun _ => h.link, fun hmem => absurd h.self_mem hmem,
      fun fresh hfresh x hx y hy hxy => ?_⟩
    have hsplit : fresh = above ++ [v] := by
      have heq : fresh ++ st.stack = (above ++ [v]) ++ st.stack := by
        rw [← hfresh, hs.stack]
        simp
      exact append_cancel_right heq
    rw [hsplit] at hx
    rcases mem_append.mp hx with hx | hx
    · exact h.cross above hs.stack x hx y hy hxy
    · rw [mem_singleton.mp hx] at hxy
      exact (h.done y hxy.1 hxy.2).2 hy

end

/-- One successor; `connect` enters a vertex and closes it. -/
theorem scan_spec {path done : List α} {v next : α} {st st₁ : Search α}
    {connect : α → Search α → Option (Search α)}
    (h : Scanning vertices successors path v st done st₁) (hnew : ¬ st.Visited v)
    (hedge : next ∈ successors v)
    (hconnect : next ∈ vertices → ¬ st₁.Visited next →
      ∃ st₂, connect next st₁ = some st₂ ∧
        Connects vertices successors (v :: path) next st₁ st₂) :
    ∃ st₂, scan vertices connect v st₁ next = some st₂ ∧
      Scanning vertices successors path v st (done ++ [next]) st₂ := by
  unfold scan
  by_cases hmem : next ∈ vertices
  · rw [if_neg (not_not.mpr hmem)]
    by_cases hvis : st₁.Visited next
    · rw [if_neg (not_not.mpr hvis)]
      by_cases hstack : next ∈ st₁.onStack
      · rw [if_pos hstack]
        have hon := (h.inv.onStack next).mp hstack
        exact ⟨_, rfl, h.lower hnew
          (fun _ => ⟨next, hon, rfl, ReflTransGen.single ⟨hedge, hmem⟩⟩) (fun _ => hvis)
          fun _ => le_rfl⟩
      · rw [if_neg hstack]
        exact ⟨_, rfl, h.skip (fun _ => hvis) fun _ hin =>
          hstack ((h.inv.onStack next).mpr (h.stack_mem hin))⟩
    · rw [if_pos hvis]
      obtain ⟨st₂, hst₂, hc⟩ := hconnect hmem hvis
      exact ⟨_, by rw [hst₂]; rfl, h.connected hnew hc hedge hmem hvis⟩
  · rw [if_pos hmem]
    exact ⟨_, rfl, h.skip (fun hin => absurd hin hmem) fun hin => absurd hin hmem⟩

theorem scan_all {path : List α} {v : α} {st : Search α}
    {connect : α → Search α → Option (Search α)} (hnew : ¬ st.Visited v)
    (hconnect : ∀ (next : α) (st₁ : Search α), next ∈ successors v → next ∈ vertices →
      ¬ st₁.Visited next → SearchInv vertices successors (v :: path) st₁ →
      Grows (st.enter v) st₁ →
      ∃ st₂, connect next st₁ = some st₂ ∧
        Connects vertices successors (v :: path) next st₁ st₂) :
    ∀ (rest done : List α) (st₁ : Search α), done ++ rest = successors v →
      Scanning vertices successors path v st done st₁ →
      ∃ st₂, rest.foldlM (scan vertices connect v) st₁ = some st₂ ∧
        Scanning vertices successors path v st (successors v) st₂ := by
  intro rest
  induction rest with
  | nil =>
    intro done st₁ hall h
    rw [append_nil] at hall
    exact ⟨st₁, rfl, hall ▸ h⟩
  | cons next rest ih =>
    intro done st₁ hall h
    have hedge : next ∈ successors v := by simp [← hall]
    obtain ⟨st₂, hscan, h₂⟩ := scan_spec h hnew hedge fun hmem hvis =>
      hconnect next st₁ hedge hmem hvis h.inv h.grows
    obtain ⟨st₃, hrest, h₃⟩ := ih (done ++ [next]) st₂ (by simp [← hall]) h₂
    exact ⟨st₃, by rw [foldlM_cons, hscan]; exact hrest, h₃⟩

theorem strongConnect_spec : ∀ (fuel : Nat) (path : List α) (v : α) (st : Search α),
    SearchInv vertices successors path st → v ∈ vertices → ¬ st.Visited v →
    (∀ x ∈ path, Reach vertices successors x v) → st.unvisited vertices ≤ fuel →
    ∃ st', strongConnect vertices successors fuel v st = some st' ∧
      Connects vertices successors path v st st' := by
  intro fuel
  induction fuel with
  | zero =>
    intro path v st _ hv hnew _ hfuel
    have hlt := Search.unvisited_enter_lt hv hnew
    omega
  | succ fuel ih =>
    intro path v st hi hv hnew hpath hfuel
    have hstart := Scanning.start hi hv hnew hpath
    have hlt := Search.unvisited_enter_lt hv hnew
    obtain ⟨st₁, hscan, h₁⟩ := scan_all hnew
      (fun next st₁ hedge hmem hvis hinv hgrows => by
        have hle : st₁.unvisited vertices ≤ (st.enter v).unvisited vertices :=
          Search.unvisited_mono fun x hx => (hgrows.visited x hx).1
        refine ih (v :: path) next st₁ hinv hmem hvis (fun x hx => ?_) (by omega)
        rcases mem_cons.mp hx with rfl | hx
        · exact ReflTransGen.single ⟨hedge, hmem⟩
        · exact (hpath x hx).tail ⟨hedge, hmem⟩)
      (successors v) [] (st.enter v) rfl hstart
    obtain ⟨st', hclose, hc⟩ := h₁.close hi hnew
    refine ⟨st', ?_, hc⟩
    simp only [strongConnect, hscan, Option.bind_eq_bind, Option.bind_some, hclose]

theorem roots_spec : ∀ (rest : List α) (st : Search α), (∀ v ∈ rest, v ∈ vertices) →
    SearchInv vertices successors [] st →
    ∃ st', rest.foldlM (fun st v =>
        if st.Visited v then some st
        else strongConnect vertices successors vertices.length v st) st = some st' ∧
      SearchInv vertices successors [] st' ∧ (∀ x, st.Visited x → st'.Visited x) ∧
      ∀ v ∈ rest, st'.Visited v := by
  intro rest
  induction rest with
  | nil => exact fun st _ h => ⟨st, rfl, h, fun _ hx => hx, by simp⟩
  | cons v rest ih =>
    intro st hrest h
    have hstep : ∃ st₁, (if st.Visited v then some st
        else strongConnect vertices successors vertices.length v st) = some st₁ ∧
        SearchInv vertices successors [] st₁ ∧ (∀ x, st.Visited x → st₁.Visited x) ∧
        st₁.Visited v := by
      by_cases hvis : st.Visited v
      · exact ⟨st, by rw [if_pos hvis], h, fun _ hx => hx, hvis⟩
      · obtain ⟨st₁, hst₁, hc⟩ := strongConnect_spec vertices.length [] v st h
          (hrest v mem_cons_self) hvis (by simp) countP_le_length
        exact ⟨st₁, by rw [if_neg hvis, hst₁], hc.inv, fun x hx => (hc.grows.visited x hx).1,
          hc.visited⟩
    obtain ⟨st₁, hst₁, h₁, hmono₁, hv₁⟩ := hstep
    obtain ⟨st₂, hst₂, h₂, hmono₂, hrest₂⟩ :=
      ih st₁ (fun x hx => hrest x (mem_cons_of_mem _ hx)) h₁
    refine ⟨st₂, by rw [foldlM_cons, hst₁]; exact hst₂, h₂,
      fun x hx => hmono₂ x (hmono₁ x hx), fun x hx => ?_⟩
    rcases mem_cons.mp hx with rfl | hx
    · exact hmono₂ x hv₁
    · exact hrest₂ x hx

/-- The search ends, and the components partition the vertices into the classes of `Connected`. -/
theorem stronglyConnected_spec (vertices : List α) (successors : α → List α) :
    ∃ components, stronglyConnected vertices successors = some components ∧
      (∀ c ∈ components, (∃ x, x ∈ c) ∧
        ∀ x ∈ c, x ∈ vertices ∧ ∀ y, y ∈ c ↔ Connected vertices successors x y) ∧
      ∀ v ∈ vertices, ∃ c ∈ components, v ∈ c := by
  have hempty : SearchInv vertices successors [] ({} : Search α) := by
    refine ⟨by simp, by simp, by simp, ?_, ?_, by simp, ?_, by simp, by simp, by simp⟩
    · intro x hx
      simp [Search.Visited] at hx
    · intro x
      simp [Search.Visited]
    · intro x y hx
      simp [Search.Visited] at hx
  obtain ⟨st, hst, h, -, hall⟩ := roots_spec vertices {} (fun _ hv => hv) hempty
  -- nothing is left on the stack, because every vertex there reaches the path
  have hstack : ∀ x, x ∉ st.stack := by
    intro x hx
    obtain ⟨g, hg, -⟩ := h.up x hx
    simp at hg
  refine ⟨st.components, by simp only [stronglyConnected, hst]; rfl, fun c hc => ?_, fun v hv => ?_⟩
  · obtain ⟨hne, hmem⟩ := h.components c hc
    exact ⟨hne, fun x hx => ⟨h.mem x ((h.visited x).mpr (.inr ⟨c, hc, hx⟩)), (hmem x hx).2⟩⟩
  · rcases (h.visited v).mp (hall v hv) with hmem | hmem
    · exact absurd hmem (hstack v)
    · exact hmem

end Workbay.Graph

import Workbay.Graph.Visit

/-!
# Proofs: what a visit reaches, and when it finds a cycle
-/

namespace Workbay.Graph

open Relation List

variable {α : Type} [DecidableEq α] {next : α → List α}

omit [DecidableEq α] in
theorem sum_pending_le (weight : α → Nat) {pending pending' : α → Bool} {x : α}
    (hmono : ∀ u, pending' u = true → pending u = true) (hx : pending x = true)
    (hx' : pending' x = false) : ∀ {domain : List α}, x ∈ domain →
      ((domain.filter pending').map weight).sum + weight x ≤
        ((domain.filter pending).map weight).sum := by
  have hle : ∀ us : List α, ((us.filter pending').map weight).sum ≤
      ((us.filter pending).map weight).sum := by
    intro us
    induction us with
    | nil => exact Nat.le_refl _
    | cons u us ih =>
      cases hu' : pending' u with
      | true => simpa [hu', hmono u hu'] using ih
      | false =>
        cases hu : pending u with
        | true => simpa [hu', hu] using Nat.le_add_left_of_le ih
        | false => simpa [hu', hu] using ih
  intro domain
  induction domain with
  | nil => simp
  | cons u us ih =>
    intro hmem
    rcases mem_cons.mp hmem with rfl | hin
    · have hrest := hle us
      simp only [hx', hx, Bool.false_eq_true, not_false_eq_true, filter_cons_of_neg,
        filter_cons_of_pos, map_cons, sum_cons]
      omega
    · have hrest := ih hin
      cases hu' : pending' u with
      | true =>
        simp only [hu', hmono u hu', filter_cons_of_pos, map_cons, sum_cons]
        omega
      | false =>
        cases hu : pending u <;> simp only [hu', hu, Bool.false_eq_true, not_false_eq_true,
          filter_cons_of_neg, filter_cons_of_pos, map_cons, sum_cons]
        · exact hrest
        · omega

/-- The successors of the vertices that are not visited yet. -/
def remaining (next : α → List α) (domain visited : List α) : Nat :=
  ((domain.filter fun u => u ∉ visited).map fun u => (next u).length).sum

theorem remaining_visit {domain visited : List α} {x : α} (hx : x ∉ visited)
    (hdomain : next x ≠ [] → x ∈ domain) :
    remaining next domain (visited ++ [x]) + (next x).length ≤ remaining next domain visited := by
  by_cases hmem : x ∈ domain
  · exact sum_pending_le (fun u => (next u).length) (fun u hu => by simp_all) (by simpa using hx)
      (by simp) hmem
  · have hsame : domain.filter (fun u => u ∉ visited ++ [x]) =
        domain.filter fun u => u ∉ visited := by
      refine filter_congr fun u hu => ?_
      have hne : u ≠ x := fun heq => hmem (heq ▸ hu)
      simp [hne]
    have hnil : next x = [] := not_not.mp fun hne => hmem (hdomain hne)
    unfold remaining
    rw [hsame, hnil]
    exact Nat.le_refl _

omit [DecidableEq α] in
theorem reached_of_closed {starts visited : List α}
    (hreach : ∀ x ∈ visited, ∃ s ∈ starts, ReflTransGen (Step next) s x)
    (hstarts : ∀ s ∈ starts, s ∈ visited) (hclosed : ∀ x ∈ visited, ∀ y ∈ next x, y ∈ visited)
    (y : α) : y ∈ visited ↔ ∃ s ∈ starts, ReflTransGen (Step next) s y := by
  refine ⟨hreach y, ?_⟩
  rintro ⟨s, hs, hpath⟩
  induction hpath with
  | refl => exact hstarts s hs
  | tail _ hstep ih => exact hclosed _ ih _ hstep

theorem visitFrom_spec {domain starts : List α} (hdomain : ∀ x, next x ≠ [] → x ∈ domain) :
    ∀ (fuel : Nat) (visited stack : List α),
      stack.length + remaining next domain visited ≤ fuel →
      (∀ x, x ∈ visited ∨ x ∈ stack → ∃ s ∈ starts, ReflTransGen (Step next) s x) →
      (∀ s ∈ starts, s ∈ visited ∨ s ∈ stack) →
      (∀ x ∈ visited, ∀ y ∈ next x, y ∈ visited ∨ y ∈ stack) →
      ∀ y, y ∈ visitFrom next fuel visited stack ↔ ∃ s ∈ starts, ReflTransGen (Step next) s y := by
  intro fuel
  induction fuel with
  | zero =>
    intro visited stack hfuel hreach hstarts hclosed y
    obtain rfl : stack = [] := length_eq_zero_iff.mp (by omega)
    exact reached_of_closed (fun x hx => hreach x (.inl hx)) (by simpa using hstarts)
      (by simpa using hclosed) y
  | succ fuel ih =>
    intro visited stack hfuel hreach hstarts hclosed y
    cases stack with
    | nil =>
      exact reached_of_closed (fun x hx => hreach x (.inl hx)) (by simpa using hstarts)
        (by simpa using hclosed) y
    | cons x stack =>
      rw [length_cons] at hfuel
      rw [visitFrom]
      by_cases hx : x ∈ visited
      · -- a vertex that was visited before only comes off the stack
        have hdrop : ∀ z, z ∈ visited ∨ z ∈ x :: stack → z ∈ visited ∨ z ∈ stack := by
          rintro z (hz | hz)
          · exact .inl hz
          · rcases mem_cons.mp hz with rfl | hz
            · exact .inl hx
            · exact .inr hz
        rw [if_pos hx]
        refine ih visited stack (by omega) (fun z hz => hreach z ?_)
          (fun s hs => hdrop s (hstarts s hs)) (fun z hz w hw => hdrop w (hclosed z hz w hw)) y
        exact hz.imp_right (mem_cons_of_mem _)
      · have hremaining := remaining_visit hx (hdomain x)
        obtain ⟨s₀, hs₀, hpath⟩ := hreach x (.inr mem_cons_self)
        rw [if_neg hx]
        refine ih _ _ ?_ (fun z hz => ?_) (fun s hs => ?_) (fun z hz w hw => ?_) y
        · rw [length_append, length_reverse]
          omega
        · simp only [mem_append, mem_singleton, mem_reverse] at hz
          rcases hz with (hz | rfl) | hz | hz
          · exact hreach z (.inl hz)
          · exact ⟨s₀, hs₀, hpath⟩
          · exact ⟨s₀, hs₀, hpath.tail hz⟩
          · exact hreach z (.inr (mem_cons_of_mem _ hz))
        · simp only [mem_append, mem_singleton, mem_reverse]
          rcases hstarts s hs with hin | hin
          · exact .inl (.inl hin)
          · rcases mem_cons.mp hin with rfl | hin
            · exact .inl (.inr rfl)
            · exact .inr (.inr hin)
        · simp only [mem_append, mem_singleton, mem_reverse] at hz ⊢
          rcases hz with hz | rfl
          · rcases hclosed z hz w hw with hin | hin
            · exact .inl (.inl hin)
            · rcases mem_cons.mp hin with rfl | hin
              · exact .inl (.inr rfl)
              · exact .inr (.inr hin)
          · exact .inr (.inl hw)

theorem mem_visit {domain starts : List α} (hdomain : ∀ x, next x ≠ [] → x ∈ domain) {y : α} :
    y ∈ visit domain next starts ↔ ∃ s ∈ starts, ReflTransGen (Step next) s y := by
  refine visitFrom_spec hdomain _ [] starts.reverse ?_ (fun x hx => ?_) (by simp) (by simp) y
  · simp [remaining, degreeSum]
  · exact ⟨x, by simpa using hx, ReflTransGen.refl⟩

/-! ## The search with three colours -/

/-- What is left for the search: the white vertices with their successors, and the frames. -/
def toPaint (next : α → List α) (domain : List α) (colours : Dict α Colour)
    (frames : List (α × List α)) : Nat :=
  ((domain.filter fun u => colourOf colours u = .white).map fun u => 1 + (next u).length).sum +
    (frames.map fun frame => 1 + frame.2.length).sum

/-- What holds while the search stands at `frames`, the top first. -/
structure Painting (next : α → List α) (colours : Dict α Colour) (frames : List (α × List α)) :
    Prop where
  grey : ∀ x, colourOf colours x = .grey ↔ x ∈ frames.map Prod.fst
  nodup : (frames.map Prod.fst).Nodup
  rest : ∀ frame ∈ frames, ∀ y ∈ frame.2, Step next frame.1 y
  /-- Every frame reaches the frames above it. -/
  path : frames.Pairwise fun above below => TransGen (Step next) below.1 above.1
  /-- A successor that is not left is finished, or is above. -/
  settled : ∀ above frame below, frames = above ++ frame :: below → ∀ y, Step next frame.1 y →
    y ∈ frame.2 ∨ colourOf colours y = .black ∨ y ∈ above.map Prod.fst
  closed : ∀ x, colourOf colours x = .black → ∀ y, Step next x y → colourOf colours y = .black
  acyclic : ∀ x, colourOf colours x = .black → ¬ TransGen (Step next) x x

theorem colourOf_set (colours : Dict α Colour) (x y : α) (c : Colour) :
    colourOf (colours.set x c) y = if y = x then c else colourOf colours y := by
  unfold colourOf Dict.getD
  rw [Dict.get?_set]
  split <;> rfl

section

variable {colours : Dict α Colour} {frames : List (α × List α)} {node y : α} {rest : List α}

theorem Painting.reach_black (h : Painting next colours frames) {x y : α}
    (hx : colourOf colours x = .black) (hreach : ReflTransGen (Step next) x y) :
    colourOf colours y = .black := by
  induction hreach with
  | refl => exact hx
  | tail _ hstep ih => exact h.closed _ ih _ hstep

theorem Painting.finish (h : Painting next colours ((node, []) :: frames)) :
    Painting next (colours.set node .black) frames := by
  have hnode : node ∉ frames.map Prod.fst := (nodup_cons.mp h.nodup).1
  have hgrey : colourOf colours node = .grey := (h.grey node).mpr mem_cons_self
  have hblack : ∀ y, colourOf colours y = .black →
      colourOf (colours.set node .black) y = .black := by
    intro y hy
    rw [colourOf_set]
    split
    · rfl
    · exact hy
  have hnext : ∀ y, Step next node y → colourOf colours y = .black := by
    intro y hy
    rcases h.settled [] (node, []) frames rfl y hy with hin | hin | hin
    · simp at hin
    · exact hin
    · simp at hin
  refine ⟨fun x => ?_, (nodup_cons.mp h.nodup).2,
    fun frame hf => h.rest frame (mem_cons_of_mem _ hf), (pairwise_cons.mp h.path).2,
    fun above frame below hsplit y hy => ?_, fun x hx y hy => ?_, fun x hx hcycle => ?_⟩
  · rw [colourOf_set]
    by_cases hx : x = node
    · subst hx
      simp [hnode]
    · rw [if_neg hx, h.grey x]
      simp [hx]
  · rcases h.settled ((node, []) :: above) frame below (by rw [hsplit]; rfl) y hy with
      hin | hin | hin
    · exact .inl hin
    · exact .inr (.inl (hblack y hin))
    · rcases mem_cons.mp hin with rfl | hin
      · exact .inr (.inl (by rw [colourOf_set, if_pos rfl]))
      · exact .inr (.inr hin)
  · rw [colourOf_set] at hx
    by_cases hxn : x = node
    · subst hxn
      exact hblack y (hnext y hy)
    · rw [if_neg hxn] at hx
      exact hblack y (h.closed x hx y hy)
  · rw [colourOf_set] at hx
    by_cases hxn : x = node
    · -- a cycle would lead from a finished successor back to the vertex
      subst hxn
      obtain ⟨y, hy, hback⟩ := (TransGen.head'_iff.mp hcycle)
      have hself := h.reach_black (hnext y hy) hback
      simp [hgrey] at hself
    · rw [if_neg hxn] at hx
      exact h.acyclic x hx hcycle

section

variable (h : Painting next colours ((node, y :: rest) :: frames))

include h

theorem Painting.pass (hy : colourOf colours y = .black) :
    Painting next colours ((node, rest) :: frames) := by
  refine ⟨h.grey, h.nodup, fun frame hf z hz => ?_, ?_, fun above frame below hsplit z hz => ?_,
    h.closed, h.acyclic⟩
  · rcases mem_cons.mp hf with rfl | hf
    · exact h.rest (node, y :: rest) mem_cons_self z (mem_cons_of_mem _ hz)
    · exact h.rest frame (mem_cons_of_mem _ hf) z hz
  · obtain ⟨hhead, htail⟩ := pairwise_cons.mp h.path
    exact pairwise_cons.mpr ⟨hhead, htail⟩
  · cases above with
    | nil =>
      obtain ⟨rfl, -⟩ := List.cons.inj hsplit
      rcases h.settled [] (node, y :: rest) frames rfl z hz with hin | hin
      · rcases mem_cons.mp hin with rfl | hin
        · exact .inr (.inl hy)
        · exact .inl hin
      · exact .inr hin
    | cons top above =>
      obtain ⟨rfl, hbelow⟩ := List.cons.inj hsplit
      exact h.settled ((node, y :: rest) :: above) frame below (by rw [hbelow]; rfl) z hz

theorem Painting.push (hy : colourOf colours y = .white) :
    Painting next (colours.set y .grey) ((y, next y) :: (node, rest) :: frames) := by
  have hnot : y ∉ ((node, y :: rest) :: frames).map Prod.fst := by
    intro hin
    have hgrey := (h.grey y).mpr hin
    simp [hy] at hgrey
  have hstep : Step next node y :=
    h.rest (node, y :: rest) mem_cons_self y mem_cons_self
  have hsame : ∀ x, colourOf colours x = .black ↔
      colourOf (colours.set y .grey) x = .black := by
    intro x
    rw [colourOf_set]
    by_cases hx : x = y
    · subst hx
      simp [hy]
    · rw [if_neg hx]
  refine ⟨fun x => ?_, nodup_cons.mpr ⟨hnot, h.nodup⟩, fun frame hf z hz => ?_, ?_,
    fun above frame below hsplit z hz => ?_,
    fun x hx z hz => (hsame z).mp (h.closed x ((hsame x).mpr hx) z hz),
    fun x hx => h.acyclic x ((hsame x).mpr hx)⟩
  · rw [colourOf_set]
    by_cases hx : x = y
    · subst hx
      simp
    · rw [if_neg hx, h.grey x]
      simp [hx]
  · rcases mem_cons.mp hf with rfl | hf
    · exact hz
    · rcases mem_cons.mp hf with rfl | hf
      · exact h.rest (node, y :: rest) mem_cons_self z (mem_cons_of_mem _ hz)
      · exact h.rest frame (mem_cons_of_mem _ hf) z hz
  · obtain ⟨hhead, htail⟩ := pairwise_cons.mp h.path
    refine pairwise_cons.mpr ⟨fun below hbelow => ?_, pairwise_cons.mpr ⟨hhead, htail⟩⟩
    rcases mem_cons.mp hbelow with rfl | hbelow
    · exact TransGen.single hstep
    · exact (hhead below hbelow).tail hstep
  · cases above with
    | nil =>
      obtain ⟨rfl, -⟩ := List.cons.inj hsplit
      exact .inl hz
    | cons top above =>
      obtain ⟨rfl, hbelow⟩ := List.cons.inj hsplit
      cases above with
      | nil =>
        obtain ⟨rfl, -⟩ := List.cons.inj hbelow
        rcases h.settled [] (node, y :: rest) frames rfl z hz with hin | hin | hin
        · rcases mem_cons.mp hin with rfl | hin
          · exact .inr (.inr mem_cons_self)
          · exact .inl hin
        · exact .inr (.inl ((hsame z).mp hin))
        · simp at hin
      | cons top above =>
        obtain ⟨rfl, hrest⟩ := List.cons.inj hbelow
        rcases h.settled ((node, y :: rest) :: above) frame below (by rw [hrest]; rfl) z hz with
          hin | hin | hin
        · exact .inl hin
        · exact .inr (.inl ((hsame z).mp hin))
        · exact .inr (.inr (mem_cons_of_mem _ hin))

theorem Painting.cycle (hy : colourOf colours y = .grey) : TransGen (Step next) y y := by
  have hstep : Step next node y :=
    h.rest (node, y :: rest) mem_cons_self y mem_cons_self
  rcases mem_cons.mp ((h.grey y).mp hy) with heq | hin
  · have hnode : y = node := heq
    rw [← hnode] at hstep
    exact TransGen.single hstep
  · obtain ⟨frame, hframe, rfl⟩ := mem_map.mp hin
    exact ((pairwise_cons.mp h.path).1 frame hframe).tail hstep

end

theorem toPaint_push {domain : List α} (hdomain : y ∈ domain) (hy : colourOf colours y = .white) :
    toPaint next domain (colours.set y .grey) ((y, next y) :: frames) ≤
      toPaint next domain colours frames := by
  have hle := @sum_pending_le _ (fun u => 1 + (next u).length)
    (fun u => decide (colourOf colours u = .white))
    (fun u => decide (colourOf (colours.set y .grey) u = .white)) y
    (fun u hu => by
      rw [decide_eq_true_eq, colourOf_set] at hu
      rw [decide_eq_true_eq]
      split at hu
      · cases hu
      · exact hu)
    (by simpa using hy) (by simp [colourOf_set]) _ hdomain
  unfold toPaint
  simp only [map_cons, sum_cons]
  omega

omit [DecidableEq α] in
theorem sum_filter_le (pending : α → Bool) (domain : List α) :
    ((domain.filter pending).map fun u => 1 + (next u).length).sum ≤
      domain.length + degreeSum next domain := by
  unfold degreeSum
  induction domain with
  | nil => simp
  | cons u us ih =>
    cases hu : pending u <;> simp only [hu, Bool.false_eq_true, not_false_eq_true,
      filter_cons_of_neg, filter_cons_of_pos, map_cons, sum_cons,
      length_cons] <;> omega

theorem Painting.black_of_entered (h : Painting next colours []) {x : α}
    (hx : colourOf colours x ≠ .white) : colourOf colours x = .black := by
  cases hc : colourOf colours x with
  | white => exact absurd hc hx
  | grey => simpa using (h.grey x).mp hc
  | black => rfl

end

theorem paint_spec {domain : List α} (hdomain : ∀ x y, Step next x y → y ∈ domain) :
    ∀ (fuel : Nat) (colours : Dict α Colour) (frames : List (α × List α)),
      Painting next colours frames → toPaint next domain colours frames ≤ fuel →
      (∃ colours', paint next fuel colours frames = .ok colours' ∧ Painting next colours' [] ∧
        ∀ x, colourOf colours x ≠ .white → colourOf colours' x = .black) ∨
      ∃ edge x, paint next fuel colours frames = .error edge ∧ TransGen (Step next) x x := by
  intro fuel
  induction fuel with
  | zero =>
    intro colours frames h hfuel
    cases frames with
    | nil => exact .inl ⟨colours, rfl, h, fun x hx => h.black_of_entered hx⟩
    | cons frame frames =>
      unfold toPaint at hfuel
      simp only [map_cons, sum_cons] at hfuel
      omega
  | succ fuel ih =>
    intro colours frames h hfuel
    match frames with
    | [] => exact .inl ⟨colours, rfl, h, fun x hx => h.black_of_entered hx⟩
    | (node, []) :: frames =>
      have hleft : toPaint next domain (colours.set node .black) frames ≤ fuel := by
        have hgrey : colourOf colours node = .grey := (h.grey node).mpr mem_cons_self
        have hsame : (domain.filter fun u => colourOf (colours.set node .black) u = .white) =
            domain.filter fun u => colourOf colours u = .white := by
          refine filter_congr fun u _ => ?_
          rw [colourOf_set]
          split
          · next heq => simp [heq, hgrey]
          · rfl
        unfold toPaint at hfuel ⊢
        simp only [map_cons, sum_cons] at hfuel
        rw [hsame]
        omega
      rcases ih _ _ h.finish hleft with ⟨colours', hrun, h', hentered⟩ | hcycle
      · refine .inl ⟨colours', hrun, h', fun x hx => hentered x ?_⟩
        rw [colourOf_set]
        split
        · simp
        · exact hx
      · exact .inr hcycle
    | (node, y :: rest) :: frames =>
      cases hy : colourOf colours y with
      | grey => exact .inr ⟨(node, y), y, by rw [paint, hy], h.cycle hy⟩
      | white =>
        have hin : y ∈ domain :=
          hdomain node y (h.rest (node, y :: rest) mem_cons_self y mem_cons_self)
        have hleft : toPaint next domain (colours.set y .grey)
            ((y, next y) :: (node, rest) :: frames) ≤ fuel := by
          have hpush := @toPaint_push _ _ next _ ((node, rest) :: frames) _ _ hin hy
          refine Nat.le_trans hpush ?_
          unfold toPaint at hfuel ⊢
          simp only [map_cons, sum_cons, length_cons] at hfuel ⊢
          omega
        have hrun : paint next (fuel + 1) colours ((node, y :: rest) :: frames) =
            paint next fuel (colours.set y .grey) ((y, next y) :: (node, rest) :: frames) := by
          rw [paint, hy]
        rw [hrun]
        rcases ih _ _ (h.push hy) hleft with ⟨colours', hok, h', hentered⟩ | hcycle
        · refine .inl ⟨colours', hok, h', fun x hx => hentered x ?_⟩
          rw [colourOf_set]
          split
          · simp
          · exact hx
        · exact .inr hcycle
      | black =>
        have hleft : toPaint next domain colours ((node, rest) :: frames) ≤ fuel := by
          unfold toPaint at hfuel ⊢
          simp only [map_cons, sum_cons, length_cons] at hfuel ⊢
          omega
        have hrun : paint next (fuel + 1) colours ((node, y :: rest) :: frames) =
            paint next fuel colours ((node, rest) :: frames) := by
          rw [paint, hy]
        rw [hrun]
        exact ih _ _ (h.pass hy) hleft

theorem Painting.start {colours : Dict α Colour} {x : α} (h : Painting next colours [])
    (hx : colourOf colours x = .white) :
    Painting next (colours.set x .grey) [(x, next x)] := by
  have hsame : ∀ z, colourOf colours z = .black ↔
      colourOf (colours.set x .grey) z = .black := by
    intro z
    rw [colourOf_set]
    by_cases hz : z = x
    · subst hz
      simp [hx]
    · rw [if_neg hz]
  refine ⟨fun z => ?_, by simp, fun frame hf z hz => ?_, by simp,
    fun above frame below hsplit z hz => ?_,
    fun z hz w hw => (hsame w).mp (h.closed z ((hsame z).mpr hz) w hw),
    fun z hz => h.acyclic z ((hsame z).mpr hz)⟩
  · rw [colourOf_set]
    by_cases hz : z = x
    · subst hz
      simp
    · rw [if_neg hz, h.grey z]
      simp [hz]
  · obtain rfl := mem_singleton.mp hf
    exact hz
  · cases above with
    | nil =>
      obtain ⟨rfl, -⟩ := List.cons.inj hsplit
      exact .inl hz
    | cons top above => simp at hsplit

theorem paintAll_spec {domain : List α} (hdomain : ∀ x y, Step next x y → y ∈ domain) {fuel : Nat}
    (hfuel : domain.length + degreeSum next domain ≤ fuel) :
    ∀ (starts : List α) (colours : Dict α Colour), (∀ x ∈ starts, x ∈ domain) →
      Painting next colours [] →
      (∃ colours', paintAll next fuel colours starts = .ok colours' ∧ Painting next colours' [] ∧
        (∀ x ∈ starts, colourOf colours' x = .black) ∧
        ∀ x, colourOf colours x = .black → colourOf colours' x = .black) ∨
      ∃ edge x, paintAll next fuel colours starts = .error edge ∧ TransGen (Step next) x x := by
  intro starts
  induction starts with
  | nil =>
    intro colours _ h
    exact .inl ⟨colours, rfl, h, by simp, fun x hx => hx⟩
  | cons start starts ih =>
    intro colours hstarts h
    have hrest : ∀ x ∈ starts, x ∈ domain := fun x hx => hstarts x (mem_cons_of_mem _ hx)
    rw [paintAll]
    by_cases hwhite : colourOf colours start = .white
    · rw [if_pos hwhite]
      have hleft : toPaint next domain (colours.set start .grey) [(start, next start)] ≤
          fuel := by
        refine Nat.le_trans (toPaint_push (hstarts start mem_cons_self) hwhite)
          (Nat.le_trans ?_ hfuel)
        exact sum_filter_le (fun u => decide (colourOf colours u = .white)) domain
      rcases paint_spec hdomain _ _ _ (h.start hwhite) hleft with
        ⟨colours', hrun, h', hentered⟩ | ⟨edge, x, hrun, hcycle⟩
      · rw [hrun]
        have hstart : colourOf colours' start = .black :=
          hentered start (by rw [colourOf_set, if_pos rfl]; simp)
        have hkept : ∀ x, colourOf colours x = .black → colourOf colours' x = .black := by
          intro x hx
          refine hentered x ?_
          rw [colourOf_set]
          split <;> simp [hx]
        rcases ih colours' hrest h' with ⟨last, hlast, h'', hdone, hmono⟩ | hcycle
        · refine .inl ⟨last, hlast, h'', fun x hx => ?_, fun x hx => hmono x (hkept x hx)⟩
          rcases mem_cons.mp hx with rfl | hx
          · exact hmono x hstart
          · exact hdone x hx
        · exact .inr hcycle
      · rw [hrun]
        exact .inr ⟨edge, x, rfl, hcycle⟩
    · rw [if_neg hwhite]
      rcases ih colours hrest h with ⟨last, hlast, h', hdone, hmono⟩ | hcycle
      · refine .inl ⟨last, hlast, h', fun x hx => ?_, hmono⟩
        rcases mem_cons.mp hx with rfl | hx
        · exact hmono x (h.black_of_entered hwhite)
        · exact hdone x hx
      · exact .inr hcycle

theorem paintAll_ok_iff {domain starts : List α} (hdomain : ∀ x y, Step next x y → y ∈ domain)
    (hstarts : ∀ x ∈ starts, x ∈ domain) (hall : ∀ x, TransGen (Step next) x x → x ∈ starts)
    {fuel : Nat} (hfuel : domain.length + degreeSum next domain ≤ fuel) :
    (∃ colours, paintAll next fuel [] starts = .ok colours) ↔ Acyclic next := by
  have hempty : Painting next ([] : Dict α Colour) [] :=
    ⟨by simp [colourOf, Dict.getD], by simp, by simp, by simp, by simp,
      by simp [colourOf, Dict.getD], by simp [colourOf, Dict.getD]⟩
  rcases paintAll_spec hdomain hfuel starts [] hstarts hempty with
    ⟨colours, hrun, h, hdone, -⟩ | ⟨edge, x, hrun, hcycle⟩
  · refine ⟨fun _ x hcycle => ?_, fun _ => ⟨colours, hrun⟩⟩
    exact h.acyclic x (hdone x (hall x hcycle)) hcycle
  · refine ⟨fun ⟨colours, hok⟩ => ?_, fun hacyclic => absurd hcycle (hacyclic x)⟩
    rw [hrun] at hok
    cases hok

theorem backEdge?_eq_none_iff {domain starts : List α}
    (hdomain : ∀ x y, Step next x y → y ∈ domain) (hstarts : ∀ x ∈ starts, x ∈ domain)
    (hall : ∀ x, next x ≠ [] → x ∈ starts) :
    backEdge? domain next starts = none ↔ Acyclic next := by
  have hcycle : ∀ x, TransGen (Step next) x x → x ∈ starts := by
    intro x h
    obtain ⟨y, hy, -⟩ := TransGen.head'_iff.mp h
    exact hall x (ne_nil_of_mem hy)
  rw [← paintAll_ok_iff hdomain hstarts hcycle (Nat.le_refl _)]
  unfold backEdge?
  cases paintAll next (domain.length + degreeSum next domain) [] starts with
  | error edge => simp
  | ok colours => simp

end Workbay.Graph

import Mathlib.Data.List.Basic

/-!
# Insertion-ordered dictionaries

A dictionary is the list of its entries in insertion order. Setting a key that is present replaces
the value in place, setting a new key appends an entry, so iteration follows the order in which
keys were first set.
-/

namespace Workbay

/-- A dictionary with keys `κ` and values `α`, in insertion order. -/
abbrev Dict (κ α : Type) := List (κ × α)

/-- Equality of pairs of texts, which edges and acknowledgments are. -/
instance lawfulBEqPair : LawfulBEq (String × String) := inferInstance

namespace Dict

variable {κ α : Type} [DecidableEq κ]

/-- The value of a key, if it is present. -/
def get? : Dict κ α → κ → Option α
  | [], _ => none
  | (k', v) :: d, k => if k' = k then some v else get? d k

/-- The value of a key, or a default. -/
def getD (d : Dict κ α) (k : κ) (default : α) : α := (get? d k).getD default

/-- Set a key: in place if it is present, at the end otherwise. -/
def set : Dict κ α → κ → α → Dict κ α
  | [], k, v => [(k, v)]
  | (k', v') :: d, k, v => if k' = k then (k', v) :: d else (k', v') :: set d k v

/-- Remove a key. -/
def pop (d : Dict κ α) (k : κ) : Dict κ α := d.filter fun kv => kv.1 ≠ k

/-- Set a key only if it is absent. -/
def setDefault (d : Dict κ α) (k : κ) (v : α) : Dict κ α :=
  match get? d k with
  | some _ => d
  | none => set d k v

variable (pairs : List (κ × α))

/-- The values of every key, in order: what a `defaultdict(list)` collects. -/
def group : Dict κ (List α) :=
  pairs.foldl (fun groups pair => set groups pair.1 (getD groups pair.1 [] ++ [pair.2])) []

attribute [grind] get? getD set pop setDefault group

@[simp] theorem get?_nil (k : κ) : get? ([] : Dict κ α) k = none := rfl

theorem get?_cons (k' : κ) (v : α) (d : Dict κ α) (k : κ) :
    get? ((k', v) :: d) k = if k' = k then some v else get? d k := rfl

@[simp] theorem get?_set_self (d : Dict κ α) (k : κ) (v : α) : get? (set d k v) k = some v := by
  induction d with
  | nil => simp [set, get?]
  | cons e d ih =>
    obtain ⟨k', v'⟩ := e
    by_cases h : k' = k
    · simp [set, get?, h]
    · simp [set, get?, h, ih]

variable {k k' : κ} {d : Dict κ α} {v old : α} {β : Type}

theorem get?_set_of_ne (d : Dict κ α) (v : α) (h : k' ≠ k) : get? (set d k v) k' = get? d k' := by
  induction d with
  | nil => simp [set, get?, h.symm]
  | cons e d ih =>
    obtain ⟨k₀, v₀⟩ := e
    by_cases h₀ : k₀ = k
    · subst h₀; simp [set, get?, h.symm]
    · simp only [set, h₀, if_false, get?, ih]

theorem get?_set (d : Dict κ α) (k k' : κ) (v : α) :
    get? (set d k v) k' = if k' = k then some v else get? d k' := by
  by_cases h : k' = k
  · subst h; simp
  · simp [h, get?_set_of_ne d v h]

@[simp] theorem getD_set_self (d : Dict κ α) (k : κ) (v x : α) : getD (set d k v) k x = v := by
  simp [getD]

theorem getD_set_of_ne (d : Dict κ α) (v x : α) (h : k' ≠ k) :
    getD (set d k v) k' x = getD d k' x := by
  simp [getD, get?_set_of_ne d v h]

@[simp] theorem get?_pop_self (d : Dict κ α) (k : κ) : get? (pop d k) k = none := by
  induction d with
  | nil => rfl
  | cons e d ih =>
    obtain ⟨k', v'⟩ := e
    by_cases h : k' = k
    · simpa [pop, h] using ih
    · simpa [pop, h, get?] using ih

theorem get?_pop_of_ne (d : Dict κ α) (h : k' ≠ k) : get? (pop d k) k' = get? d k' := by
  induction d with
  | nil => rfl
  | cons e d ih =>
    obtain ⟨k₀, v₀⟩ := e
    by_cases h₀ : k₀ = k
    · subst h₀; simpa [pop, get?, h.symm] using ih
    · simp only [pop, ne_eq, h₀, not_false_eq_true, decide_true, List.filter_cons_of_pos, get?] at ih ⊢
      rw [ih]

theorem mem_of_get? (h : get? d k = some v) : (k, v) ∈ d := by
  induction d with
  | nil => simp at h
  | cons e d ih =>
    obtain ⟨k', v'⟩ := e
    by_cases hk : k' = k
    · subst hk; simp [get?] at h; simp [h]
    · simp only [get?, hk, if_false] at h; exact List.mem_cons_of_mem _ (ih h)

theorem get?_eq_none_iff : get? d k = none ↔ k ∉ d.map Prod.fst := by
  induction d with
  | nil => simp
  | cons e d ih =>
    obtain ⟨k', v'⟩ := e
    by_cases hk : k' = k
    · subst hk; simp [get?]
    · simp [get?, hk, ih, Ne.symm hk]

theorem get?_isSome_iff : (get? d k).isSome ↔ k ∈ d.map Prod.fst := by
  rw [← not_iff_not, ← get?_eq_none_iff]
  simp

/-- Setting a key never repeats one. -/
theorem nodup_set (hd : (d.map Prod.fst).Nodup) (k : κ) (v : α) :
    ((set d k v).map Prod.fst).Nodup := by
  induction d with
  | nil => simp [set]
  | cons e d ih =>
    obtain ⟨k', v'⟩ := e
    simp only [List.map_cons, List.nodup_cons] at hd
    by_cases h : k' = k
    · rw [set, if_pos h, List.map_cons, List.nodup_cons]
      exact hd
    · have hk' : k' ∉ (set d k v).map Prod.fst := by
        rw [← get?_eq_none_iff, get?_set_of_ne d v h, get?_eq_none_iff]
        exact hd.1
      simp only [set, h, if_false, List.map_cons, List.nodup_cons]
      exact ⟨hk', ih hd.2⟩

theorem map_fst_set (h : get? d k = some old) (v : α) :
    (set d k v).map Prod.fst = d.map Prod.fst := by
  induction d with
  | nil => cases h
  | cons e d ih =>
    obtain ⟨k', v'⟩ := e
    by_cases hk : k' = k
    · simp [set, hk]
    · rw [get?_cons, if_neg hk] at h
      simp [set, hk, ih h]

/-- In a dictionary without repeated keys every entry is found under its key. -/
theorem get?_of_mem (hd : (d.map Prod.fst).Nodup) (h : (k, v) ∈ d) : get? d k = some v := by
  induction d with
  | nil => simp at h
  | cons e d ih =>
    obtain ⟨k', v'⟩ := e
    simp only [List.map_cons, List.nodup_cons] at hd
    rcases List.mem_cons.mp h with he | hm
    · obtain ⟨rfl, rfl⟩ := Prod.mk.inj he
      simp [get?]
    · have hne : k' ≠ k := by
        rintro rfl
        exact hd.1 (List.mem_map_of_mem (f := Prod.fst) hm)
      simp [get?, hne, ih hd.2 hm]

/-! ## Setting a key again, and counting values -/

@[simp] theorem set_set (d : Dict κ α) (k : κ) (v w : α) : set (set d k v) k w = set d k w := by
  induction d with
  | nil => simp [set]
  | cons e d ih =>
    obtain ⟨k', v'⟩ := e
    by_cases h : k' = k
    · simp [set, h]
    · simp [set, h, ih]

@[simp] theorem set_setDefault (d : Dict κ α) (k : κ) (v w : α) :
    set (setDefault d k v) k w = set d k w := by
  unfold setDefault
  cases get? d k with
  | none => exact set_set d k v w
  | some _ => rfl

theorem set_eq_self (h : get? d k = some v) : set d k v = d := by
  induction d with
  | nil => simp at h
  | cons e d ih =>
    obtain ⟨k', v'⟩ := e
    by_cases hk : k' = k
    · simp only [get?, hk, if_true, Option.some.injEq] at h
      simp [set, hk, h]
    · simp only [get?, hk, if_false] at h
      simp [set, hk, ih h]

theorem set_of_get?_eq_none (h : get? d k = none) (v : α) : set d k v = d ++ [(k, v)] := by
  induction d with
  | nil => rfl
  | cons e d ih =>
    obtain ⟨k', v'⟩ := e
    by_cases hk : k' = k
    · simp [get?, hk] at h
    · simp only [get?, hk, if_false] at h
      simp [set, hk, ih h]

/-- Replacing a value by one that `f` does not tell from it leaves the images alone. -/
theorem map_set_of_eq (h : get? d k = some old) {f : α → β} (hf : f v = f old) :
    ((set d k v).map Prod.snd).map f = (d.map Prod.snd).map f := by
  induction d with
  | nil => simp at h
  | cons e d ih =>
    obtain ⟨k', v'⟩ := e
    by_cases hk : k' = k
    · simp only [get?, hk, if_true, Option.some.injEq] at h
      simp [set, hk, hf, h]
    · simp only [get?, hk, if_false] at h
      simp only [set, hk, if_false, List.map_cons, ih h]

/-- A collection does not change when the new value gives what the old one gave, and a value at a
new key gives nothing. -/
theorem filterMap_set_of_same {f : α → Option β} (hsome : ∀ old, get? d k = some old → f v = f old)
    (hnone : get? d k = none → f v = none) :
    ((set d k v).map Prod.snd).filterMap f = (d.map Prod.snd).filterMap f := by
  cases h : get? d k with
  | none => simp [set_of_get?_eq_none h, hnone h]
  | some old =>
    have himages := map_set_of_eq h (hsome old h)
    have hmap : ∀ l : List α, l.filterMap f = (l.map f).filterMap id := by
      intro l
      rw [List.filterMap_map]
      rfl
    rw [hmap, hmap, himages]

theorem mem_set {e : κ × α} (h : e ∈ set d k v) : e = (k, v) ∨ e ∈ d := by
  induction d with
  | nil => exact .inl (List.mem_singleton.mp h)
  | cons e' d ih =>
    obtain ⟨k', v'⟩ := e'
    by_cases hk : k' = k
    · simp only [set, hk, if_true, List.mem_cons] at h
      exact h.imp_right (List.mem_cons_of_mem _)
    · simp only [set, hk, if_false, List.mem_cons] at h
      rcases h with rfl | h
      · exact .inr (by simp)
      · exact (ih h).imp_right (List.mem_cons_of_mem _)

theorem filter_set_of_not {p : α → Bool} (hv : p v = false)
    (hsome : ∀ old, get? d k = some old → p old = false) :
    ((set d k v).map Prod.snd).filter p = (d.map Prod.snd).filter p := by
  rw [← List.filterMap_eq_filter]
  apply filterMap_set_of_same
  · intro old hold
    simp [Option.guard, hv, hsome old hold]
  · intro _
    simp [Option.guard, hv]

/-- How a count of values changes when a value is replaced. -/
theorem countP_set (h : get? d k = some old) (v : α) (p : α → Bool) :
    ((set d k v).map Prod.snd).countP p + (if p old then 1 else 0) =
      (d.map Prod.snd).countP p + (if p v then 1 else 0) := by
  induction d with
  | nil => simp at h
  | cons e d ih =>
    obtain ⟨k', v'⟩ := e
    by_cases hk : k' = k
    · simp only [get?, hk, if_true, Option.some.injEq] at h
      simp only [set, hk, if_true, List.map_cons, List.countP_cons, h]
      omega
    · simp only [get?, hk, if_false] at h
      simp only [set, hk, if_false, List.map_cons, List.countP_cons]
      have hrest := ih h
      omega

theorem countP_set_of_same {p : α → Bool} (hsome : ∀ old, get? d k = some old → p v = p old)
    (hnone : get? d k = none → p v = false) :
    ((set d k v).map Prod.snd).countP p = (d.map Prod.snd).countP p := by
  cases h : get? d k with
  | none => simp [set_of_get?_eq_none h, hnone h]
  | some old =>
    have hcount := countP_set h v p
    rw [hsome old h] at hcount
    omega

theorem mem_values (hd : (d.map Prod.fst).Nodup) : v ∈ d.map Prod.snd ↔ ∃ k, get? d k = some v := by
  constructor
  · intro h
    obtain ⟨⟨k, v⟩, hm, rfl⟩ := List.mem_map.mp h
    exact ⟨k, get?_of_mem hd hm⟩
  · rintro ⟨k, hk⟩
    exact List.mem_map.mpr ⟨(k, v), mem_of_get? hk, rfl⟩

/-- A selection by key keeps what a selected key finds. -/
theorem get?_filter_key (d : Dict κ α) (p : κ → Bool) (h : p k = true) :
    get? (d.filter fun e => p e.1) k = get? d k := by
  induction d with
  | nil => rfl
  | cons e d ih =>
    obtain ⟨k', v⟩ := e
    by_cases hk : k' = k
    · subst hk
      simp [h, get?]
    · by_cases hp : p k' = true
      · simp [hp, get?, hk, ih]
      · simp [hp, get?, hk, ih]

theorem get?_map_key (ks : List κ) (f : κ → α) (k : κ) :
    get? (ks.map fun k => (k, f k)) k = if k ∈ ks then some (f k) else none := by
  induction ks with
  | nil => rfl
  | cons k' ks ih =>
    by_cases hk : k' = k
    · subst hk
      simp [get?]
    · simp [get?, hk, Ne.symm hk, ih]

theorem get?_map_entries (d : Dict κ α) (f : κ → α → β) (k : κ) :
    get? (d.map fun e => (e.1, f e.1 e.2)) k = (get? d k).map (f k) := by
  induction d with
  | nil => rfl
  | cons e d ih =>
    obtain ⟨k', v⟩ := e
    by_cases hk : k' = k
    · subst hk
      simp [get?]
    · simp [get?, hk, ih]

theorem get?_filter_key_of_not (d : Dict κ α) (p : κ → Bool) (h : p k = false) :
    get? (d.filter fun e => p e.1) k = none := by
  rw [get?_eq_none_iff]
  intro hmem
  obtain ⟨e, he, rfl⟩ := List.mem_map.mp hmem
  rw [(List.mem_filter.mp he).2] at h
  cases h

theorem get?_setDefault (d : Dict κ α) (k k' : κ) (v : α) :
    get? (setDefault d k v) k' = if k' = k then some ((get? d k).getD v) else get? d k' := by
  unfold setDefault
  cases h : get? d k with
  | none => simp [get?_set]
  | some w =>
    by_cases hk : k' = k
    · subst hk; simp [h]
    · simp [hk]

theorem get?_perm {d' : Dict κ α} (h : d.Perm d') (hd : (d.map Prod.fst).Nodup) (k : κ) :
    get? d k = get? d' k := by
  have hd' : (d'.map Prod.fst).Nodup := (h.map Prod.fst).nodup_iff.mp hd
  cases hget : get? d k with
  | some v => exact (get?_of_mem hd' (h.mem_iff.mp (mem_of_get? hget))).symm
  | none =>
    rw [get?_eq_none_iff] at hget
    exact (get?_eq_none_iff.mpr fun hin => hget ((h.map Prod.fst).mem_iff.mpr hin)).symm

/-! ### Groups -/

theorem foldl_group (k : κ) : ∀ groups : Dict κ (List α),
    getD (pairs.foldl (fun groups pair =>
        set groups pair.1 (getD groups pair.1 [] ++ [pair.2])) groups) k [] =
      getD groups k [] ++ (pairs.filter fun pair => pair.1 = k).map Prod.snd := by
  induction pairs with
  | nil => simp
  | cons pair pairs ih =>
    intro groups
    rw [List.foldl_cons, ih]
    by_cases hk : pair.1 = k
    · rw [List.filter_cons_of_pos (by simp [hk]), hk, getD_set_self]
      simp
    · rw [List.filter_cons_of_neg (by simp [hk]), getD_set_of_ne _ _ _ (Ne.symm hk)]

theorem getD_group (k : κ) :
    getD (group pairs) k [] = (pairs.filter fun pair => pair.1 = k).map Prod.snd :=
  foldl_group pairs k []

theorem mem_getD_group {pairs : List (κ × α)} : v ∈ getD (group pairs) k [] ↔ (k, v) ∈ pairs := by
  rw [getD_group, List.mem_map]
  constructor
  · rintro ⟨⟨k', v'⟩, hin, rfl⟩
    obtain ⟨hin, hk⟩ := List.mem_filter.mp hin
    simp only [decide_eq_true_eq] at hk
    exact hk ▸ hin
  · intro hin
    exact ⟨(k, v), List.mem_filter.mpr ⟨hin, by simp⟩, rfl⟩

theorem nodup_group : ((group pairs).map Prod.fst).Nodup := by
  have hfold : ∀ (pairs : List (κ × α)) (groups : Dict κ (List α)),
      (groups.map Prod.fst).Nodup → ((pairs.foldl (fun groups pair =>
        set groups pair.1 (getD groups pair.1 [] ++ [pair.2])) groups).map Prod.fst).Nodup := by
    intro pairs
    induction pairs with
    | nil => exact fun groups h => h
    | cons pair pairs ih => exact fun groups h => ih _ (nodup_set h _ _)
  exact hfold pairs [] List.nodup_nil

/-- A group that is listed is the group of its key, and is not empty. -/
theorem mem_group {pairs : List (κ × α)} {vs : List α} : (k, vs) ∈ group pairs ↔
      vs = (pairs.filter fun pair => pair.1 = k).map Prod.snd ∧ k ∈ pairs.map Prod.fst := by
  have hkeys : ∀ (pairs : List (κ × α)) (groups : Dict κ (List α)) (k : κ),
      k ∈ (pairs.foldl (fun groups pair =>
        set groups pair.1 (getD groups pair.1 [] ++ [pair.2])) groups).map Prod.fst ↔
      k ∈ groups.map Prod.fst ∨ k ∈ pairs.map Prod.fst := by
    intro pairs
    induction pairs with
    | nil => simp
    | cons pair pairs ih =>
      intro groups k
      have hset : k ∈ (set groups pair.1 (getD groups pair.1 [] ++ [pair.2])).map Prod.fst ↔
          k = pair.1 ∨ k ∈ groups.map Prod.fst := by
        rw [← get?_isSome_iff, ← get?_isSome_iff, get?_set]
        by_cases hk : k = pair.1 <;> simp [hk]
      rw [List.foldl_cons, ih, hset, List.map_cons, List.mem_cons, or_assoc, or_left_comm]
  constructor
  · intro hin
    have hget := get?_of_mem (nodup_group pairs) hin
    refine ⟨?_, ?_⟩
    · rw [← getD_group, getD, hget, Option.getD_some]
    · have hmem := (hkeys pairs [] k).mp (List.mem_map.mpr ⟨(k, vs), hin, rfl⟩)
      simpa using hmem
  · rintro ⟨rfl, hin⟩
    have hmem := (hkeys pairs [] k).mpr (.inr hin)
    obtain ⟨vs, hvs⟩ := Option.isSome_iff_exists.mp (get?_isSome_iff.mpr hmem)
    have hvs' : vs = (pairs.filter fun pair => pair.1 = k).map Prod.snd := by
      rw [← getD_group, getD]
      show vs = (get? (group pairs) k).getD []
      rw [show get? (group pairs) k = some vs from hvs]
      rfl
    rw [← hvs']
    exact mem_of_get? hvs

end Dict

end Workbay

import Workbay.Guard.Porcelain
import Mathlib.Algebra.GroupWithZero.Nat

/-!
# Reading the paths back

The paths of an output are read back when every rename shows in the first character of its status.
Where it shows in the second alone, the path of the source is read as an entry, and loses its first
three characters or gets lost.
-/

namespace Workbay.Guard

open List

variable {α : Type} {r : Reader α}

/-- What the loop needs of a reader: ASCII in the text is ASCII in the output, and a text has a cost
that is the length of what it is read from. -/
structure Reader.Lawful (r : Reader α) (cost : Nat → Nat) : Prop where
  nil : r.decode [] = []
  mem : ∀ xs, ∀ u ∈ r.decode xs, u < 0x80 → ∃ x ∈ xs, r.unit x = u
  head : ∀ xs, ∀ u ∈ (r.decode xs).head?, u < 0x80 → ∃ x ∈ xs.head?, r.unit x = u
  last : ∀ xs, ∀ u ∈ (r.decode xs).getLast?, u < 0x80 → ∃ x ∈ xs.getLast?, r.unit x = u
  sum : ∀ xs, ((r.decode xs).map cost).sum = xs.length
  slash : cost 0x5C = cost 0x2F
  shortest : r.shortest ≤ 3

theorem bytesReader_lawful : bytesReader.Lawful fun u => (FsPath.encodePoint u).length where
  nil := rfl
  mem _ _ hu hlt := FsPath.mem_of_ascii hu hlt
  head _ _ hu hlt := FsPath.head_of_ascii hu hlt
  last _ _ hu hlt := FsPath.getLast_of_ascii hu hlt
  sum xs := by
    have h := congrArg List.length (FsPath.fsencode_fsdecode xs)
    rwa [FsPath.fsencode, length_flatMap] at h
  slash := rfl
  shortest := Nat.le_refl 3

theorem textReader_lawful : textReader.Lawful fun _ => 1 where
  nil := rfl
  mem _ u hu _ := ⟨u, hu, rfl⟩
  head _ u hu _ := ⟨u, hu, rfl⟩
  last _ u hu _ := ⟨u, hu, rfl⟩
  sum xs := by simp [textReader]
  slash := rfl
  shortest := Nat.zero_le 3

theorem Reader.Lawful.decode_ne_nil {cost : Nat → Nat} (h : r.Lawful cost) {xs : List α}
    (hxs : xs ≠ []) : r.decode xs ≠ [] := by
  intro hnil
  have hcost := h.sum xs
  rw [hnil] at hcost
  exact hxs (length_eq_zero_iff.mp hcost.symm)

theorem normalizeSlashes_decode {cost : Nat → Nat} (h : r.Lawful cost) {path : List α}
    (hpath : CleanPath r path) :
    keepPath (normalizeSlashes (r.decode path)) = [r.decode path] := by
  have hmap : (r.decode path).map (fun c => if c = 0x5C then 0x2F else c) = r.decode path := by
    refine (map_congr_left fun u hu => if_neg fun hback => ?_).trans (map_id _)
    obtain ⟨x, hx, hunit⟩ := h.mem path u hu (by omega)
    exact (hpath.units x hx).2 (hunit.trans hback)
  have hdrop : (r.decode path).dropWhile (· = 0x2F) = r.decode path := by
    rw [dropWhile_eq_self_iff]
    intro hlen hslash
    have hfirst : (r.decode path)[0] ∈ (r.decode path).head? := by
      rw [head?_eq_getElem?, getElem?_eq_getElem hlen]
      rfl
    have heq : (r.decode path)[0] = 0x2F := of_decide_eq_true hslash
    obtain ⟨x, hx, hunit⟩ := h.head path _ hfirst (by omega)
    exact hpath.head x hx (hunit.trans heq)
  have hrdrop : (r.decode path).rdropWhile (· = 0x2F) = r.decode path := by
    rw [rdropWhile_eq_self_iff]
    intro hne hslash
    have hlast : (r.decode path).getLast hne ∈ (r.decode path).getLast? := by
      rw [getLast?_eq_some_getLast hne]
      rfl
    have heq : (r.decode path).getLast hne = 0x2F := of_decide_eq_true hslash
    obtain ⟨x, hx, hunit⟩ := h.last path _ hlast (by omega)
    exact hpath.last x hx (hunit.trans heq)
  rw [normalizeSlashes, hmap, hdrop, hrdrop, keepPath, if_neg (h.decode_ne_nil hpath.nonempty)]

theorem sum_le_of_sublist (cost : Nat → Nat) {xs ys : List Nat} (h : xs.Sublist ys) :
    (xs.map cost).sum ≤ (ys.map cost).sum := by
  induction h with
  | slnil => exact Nat.le_refl _
  | cons y _ ih =>
    rw [map_cons, sum_cons]
    omega
  | cons_cons y _ ih =>
    rw [map_cons, map_cons, sum_cons, sum_cons]
    omega

theorem cost_normalizeSlashes {cost : Nat → Nat} (hslash : cost 0x5C = cost 0x2F)
    (path : List Nat) : ((normalizeSlashes path).map cost).sum ≤ (path.map cost).sum := by
  have hmap : (path.map fun c => if c = 0x5C then 0x2F else c).map cost = path.map cost := by
    rw [map_map]
    refine map_congr_left fun c _ => ?_
    rw [Function.comp_apply]
    split
    · rename_i heq
      rw [heq, hslash]
    · rfl
  rw [← hmap, normalizeSlashes]
  refine sum_le_of_sublist cost ?_
  exact (List.rdropWhile_prefix _ _).sublist.trans (dropWhile_sublist _)

theorem splitFields_porcelain {space nul : α} {entries : List (StatusEntry α)}
    (hspace : r.unit space ≠ 0) (hnul : r.unit nul = 0)
    (h : ∀ e ∈ entries, CleanEntry r e) :
    splitFields r (porcelain space nul entries) =
      (entries.flatMap fun e => e.fields space) ++ [[]] := by
  have hfields : ∀ field ∈ entries.flatMap fun e => e.fields space, ∀ x ∈ field, r.unit x ≠ 0 := by
    intro field hfield x hx
    obtain ⟨e, he, hfield⟩ := mem_flatMap.mp hfield
    have hclean := h e he
    rcases mem_cons.mp hfield with rfl | hfield
    · simp only [mem_cons] at hx
      rcases hx with rfl | rfl | rfl | hx
      · exact hclean.status.1
      · exact hclean.status.2
      · exact hspace
      · exact (hclean.path.units x hx).1
    · exact ((hclean.source field (Option.mem_toList.mp hfield)).units x hx).1
  rw [porcelain]
  generalize (entries.flatMap fun e => e.fields space) = fields at hfields
  induction fields with
  | nil => rfl
  | cons field fields ih =>
    have hrest := ih fun f hf => hfields f (mem_cons_of_mem _ hf)
    rw [splitFields] at hrest ⊢
    rw [flatMap_cons, append_assoc, singleton_append,
      splitOnP_append_cons _ _ (by simp [hnul]), hrest, splitOnP_eq_singleton]
    · rfl
    · intro x hx
      simp [hfields field mem_cons_self x hx]

theorem length_parseFields (r : Reader α) (hnil : r.decode [] = []) (source : Bool)
    (fields : List (List α)) :
    (parseFields r source fields).length ≤ (fields.filter (· ≠ [])).length := by
  have hkeep : ∀ path, (keepPath path).length ≤ 1 := by
    intro path
    rw [keepPath]
    split <;> simp
  induction fields generalizing source with
  | nil => cases source <;> simp [parseFields]
  | cons field fields ih =>
    have hkept := hkeep (normalizeSlashes (r.decode field))
    have hentry := hkeep (normalizeSlashes (r.decode (field.drop 3)))
    by_cases hfield : field = []
    · subst hfield
      have hempty : keepPath (normalizeSlashes (r.decode [])) = [] := by
        rw [hnil]
        rfl
      rw [filter_cons_of_neg (by simp)]
      cases source with
      | true =>
        rw [parseFields, hempty, nil_append]
        exact ih false
      | false =>
        rw [parseFields, if_pos (.inl rfl)]
        exact ih false
    · rw [filter_cons_of_pos (by simpa using hfield), length_cons]
      cases source with
      | true =>
        have hrest := ih false
        rw [parseFields, length_append]
        omega
      | false =>
        rw [parseFields]
        split
        · have hrest := ih false
          omega
        · have hrest := ih (field.head?.any fun x => isRename (r.unit x))
          rw [length_append]
          omega

theorem length_paths (r : Reader α) (space : α) (e : StatusEntry α) :
    (e.paths r).length = (e.fields space).length := by
  simp [StatusEntry.paths, StatusEntry.fields]

variable {cost : Nat → Nat} {space : α}

theorem parseFields_entry (hr : r.Lawful cost) {e : StatusEntry α} (he : CleanEntry r e)
    (hshows : isRename (r.unit e.worktree) → isRename (r.unit e.index)) (rest : List (List α)) :
    parseFields r false (e.fields space ++ rest) = e.paths r ++ parseFields r false rest := by
  have hshort := hr.shortest
  rw [StatusEntry.fields, cons_append, parseFields, if_neg (by simp; omega)]
  rw [show (e.index :: e.worktree :: space :: e.path).drop 3 = e.path from rfl,
    normalizeSlashes_decode hr he.path, head?_cons, Option.any_some]
  have hsome : e.source.isSome = isRename (r.unit e.index) := by
    rw [he.renames]
    cases hx : isRename (r.unit e.index) with
    | true => rfl
    | false =>
      cases hy : isRename (r.unit e.worktree) with
      | true =>
        rw [hshows hy] at hx
        cases hx
      | false => rfl
  rw [← hsome]
  cases hsource : e.source with
  | none => simp [StatusEntry.paths, hsource]
  | some s =>
    have hs := normalizeSlashes_decode hr (he.source s hsource)
    simp [StatusEntry.paths, hsource, parseFields, hs]

theorem parseFields_misread (hr : r.Lawful cost) {s : List α} {rest : List (List α)}
    {paths : List (List Nat)} (hlen : (rest.filter (· ≠ [])).length ≤ paths.length) :
    parseFields r false (s :: rest) ≠ r.decode s :: paths := by
  intro heq
  have hcount := fun b => (length_parseFields r hr.nil b rest).trans hlen
  rw [parseFields] at heq
  split at heq
  · have hlengths := congrArg List.length heq
    have hle := hcount false
    rw [length_cons] at hlengths
    omega
  · rw [keepPath] at heq
    split at heq
    · have hlengths := congrArg List.length heq
      have hle := hcount (s.head?.any fun x => isRename (r.unit x))
      rw [nil_append, length_cons] at hlengths
      omega
    · -- what is left of the source is shorter than the source
      rename_i hne hkept
      have hhead := (List.cons.inj heq).1
      have hsum := cost_normalizeSlashes hr.slash (r.decode (s.drop 3))
      rw [hhead, hr.sum, hr.sum, length_drop] at hsum
      have hnil : s = [] := by
        rw [← length_eq_zero_iff]
        omega
      exact hne (.inl hnil)

/-- The paths of an output are read back exactly when every rename shows in the first character of
its status. -/
theorem parseFields_exact (hr : r.Lawful cost) {entries : List (StatusEntry α)}
    (h : ∀ e ∈ entries, CleanEntry r e) :
    parseFields r false ((entries.flatMap fun e => e.fields space) ++ [[]]) =
        entries.flatMap (fun e => e.paths r) ↔
      ∀ e ∈ entries, isRename (r.unit e.worktree) → isRename (r.unit e.index) := by
  induction entries with
  | nil => simp [parseFields]
  | cons e entries ih =>
    have he := h e mem_cons_self
    have hrest := ih fun e' he' => h e' (mem_cons_of_mem _ he')
    rw [flatMap_cons, flatMap_cons, append_assoc, forall_mem_cons]
    by_cases hshows : isRename (r.unit e.worktree) → isRename (r.unit e.index)
    · rw [parseFields_entry hr he hshows, append_cancel_left_eq, hrest]
      exact (and_iff_right hshows).symm
    · refine iff_of_false (fun heq => ?_) fun hall => hshows hall.1
      obtain ⟨hy, hx⟩ := Classical.not_imp.mp hshows
      have hshort := hr.shortest
      have hsome : e.source.isSome = true := by rw [he.renames, hy, Bool.or_true]
      obtain ⟨s, hsource⟩ := Option.isSome_iff_exists.mp hsome
      rw [StatusEntry.fields, StatusEntry.paths, hsource, cons_append, parseFields,
        if_neg (by simp; omega)] at heq
      rw [show (e.index :: e.worktree :: space :: e.path).drop 3 = e.path from rfl,
        normalizeSlashes_decode hr he.path, head?_cons, Option.any_some,
        eq_false_of_ne_true hx] at heq
      have htail : parseFields r false (s :: ((entries.flatMap fun e => e.fields space) ++ [[]])) =
          r.decode s :: entries.flatMap fun e => e.paths r := (List.cons.inj heq).2
      refine parseFields_misread hr ?_ htail
      have hlengths : ((entries.flatMap fun e => e.fields space).length : Nat) =
          (entries.flatMap fun e => e.paths r).length := by
        rw [length_flatMap, length_flatMap]
        congr 1
        exact map_congr_left fun e _ => (length_paths r space e).symm
      rw [filter_append, length_append]
      refine (Nat.add_le_add_right (length_filter_le _ _) _).trans ?_
      simp only [ne_eq, decide_not, decide_true, Bool.not_true,
        filter_nil, filter_cons_of_neg, Bool.false_eq_true, not_false_eq_true,
        length_nil, Nat.add_zero]
      exact Nat.le_of_eq hlengths

/-! ## The two forms of an output -/

/-- Every rename of the entries shows in the first character of its status. -/
def RenamesShow (r : Reader α) (entries : List (StatusEntry α)) : Prop :=
  ∀ e ∈ entries, isRename (r.unit e.worktree) → isRename (r.unit e.index)

/-- The paths and source paths of entries, in their order. -/
def pathsOf (r : Reader α) (entries : List (StatusEntry α)) : List (List Nat) :=
  entries.flatMap fun e => e.paths r

/-- The paths of an output, in bytes or as text, are read back exactly when every rename shows in
the first character of its status. -/
theorem porcelain_exact (bytes : List (StatusEntry UInt8)) (text : List (StatusEntry Nat)) :
    ((∀ e ∈ bytes, CleanEntry bytesReader e) →
      (parsePorcelainZPaths (.bytes (porcelain 0x20 0 bytes)) = pathsOf bytesReader bytes ↔
        RenamesShow bytesReader bytes)) ∧
    ((∀ e ∈ text, CleanEntry textReader e) →
      (parsePorcelainZPaths (.text (porcelain 0x20 0 text)) = pathsOf textReader text ↔
        RenamesShow textReader text)) := by
  constructor
  · intro h
    rw [parsePorcelainZPaths, splitFields_porcelain (by decide) rfl h]
    exact parseFields_exact bytesReader_lawful h
  · intro h
    rw [parsePorcelainZPaths, splitFields_porcelain (by decide) rfl h]
    exact parseFields_exact textReader_lawful h

/-- `new.py` -/
def newPath : List UInt8 := [0x6E, 0x65, 0x77, 0x2E, 0x70, 0x79]

/-- `old.py` -/
def oldPath : List UInt8 := [0x6F, 0x6C, 0x64, 0x2E, 0x70, 0x79]

theorem cleanPath_of_all {path : List UInt8} {first last : UInt8}
    (hall : (path.all fun x => x.toNat != 0 && x.toNat != 0x5C) = true)
    (hfirst : path.head? = some first) (hlast : path.getLast? = some last)
    (hhead : first.toNat ≠ 0x2F) (htail : last.toNat ≠ 0x2F) : CleanPath bytesReader path := by
  refine ⟨?_, fun x hx => ?_, fun x hx => ?_, fun x hx => ?_⟩
  · rintro rfl
    cases hfirst
  · have hx := all_eq_true.mp hall x hx
    show x.toNat ≠ 0 ∧ x.toNat ≠ 0x5C
    simpa using hx
  · obtain rfl := Option.some.inj (hfirst.symm.trans hx)
    exact hhead
  · obtain rfl := Option.some.inj (hlast.symm.trans hx)
    exact htail

theorem newPath_clean : CleanPath bytesReader newPath :=
  cleanPath_of_all rfl rfl rfl (by decide) (by decide)

theorem oldPath_clean : CleanPath bytesReader oldPath :=
  cleanPath_of_all rfl rfl rfl (by decide) (by decide)

/-- The file `old.py` is renamed to `new.py`, with a status. -/
def renamed (index worktree : UInt8) : StatusEntry UInt8 where
  index := index
  worktree := worktree
  path := newPath
  source := some oldPath

theorem renamed_clean (index worktree : UInt8) (hindex : index.toNat ≠ 0)
    (hworktree : worktree.toNat ≠ 0)
    (h : isRename index.toNat || isRename worktree.toNat) :
    ∀ e ∈ [renamed index worktree], CleanEntry bytesReader e := by
  intro e he
  rw [mem_singleton.mp he]
  refine ⟨⟨hindex, hworktree⟩, newPath_clean, fun s hs => ?_, h.symm⟩
  obtain rfl := Option.some.inj hs
  exact oldPath_clean

theorem porcelain_exact_staged :
    parsePorcelainZPaths (.bytes (porcelain 0x20 0 [renamed 0x52 0x20])) =
      [[0x6E, 0x65, 0x77, 0x2E, 0x70, 0x79], [0x6F, 0x6C, 0x64, 0x2E, 0x70, 0x79]] := by
  have hshow : RenamesShow bytesReader [renamed 0x52 0x20] := by
    intro e he
    rw [mem_singleton.mp he]
    decide
  have hclean := renamed_clean 0x52 0x20 (by decide) (by decide) (by decide)
  exact ((porcelain_exact [renamed 0x52 0x20] []).1 hclean).mpr hshow

/-- The source of a rename in the worktree alone, after an intent to add, is cut to `.py`. -/
theorem worktree_rename_cut :
    ¬ ∀ entries : List (StatusEntry UInt8), (∀ e ∈ entries, CleanEntry bytesReader e) →
      parsePorcelainZPaths (.bytes (porcelain 0x20 0 entries)) = pathsOf bytesReader entries := by
  intro h
  have hread := h [renamed 0x20 0x52] (renamed_clean 0x20 0x52 (by decide) (by decide) (by decide))
  exact absurd hread (by decide)

end Workbay.Guard

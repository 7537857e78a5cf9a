import Mathlib.Data.List.DropRight

/-!
# Text as Python trims it and splits it into lines
-/

namespace Workbay.Text

open List

/-- `str.isspace`, of one character -/
def isSpace (c : Char) : Bool :=
  let n := c.toNat
  decide ((9 ≤ n ∧ n ≤ 13) ∨ (28 ≤ n ∧ n ≤ 32) ∨ (0x2000 ≤ n ∧ n ≤ 0x200a))
    || n ∈ [0x85, 0xa0, 0x1680, 0x2028, 0x2029, 0x202f, 0x205f, 0x3000]

/-- Where `str.splitlines` splits. -/
def isLineBreak (c : Char) : Bool :=
  let n := c.toNat
  decide ((10 ≤ n ∧ n ≤ 13) ∨ (28 ≤ n ∧ n ≤ 30)) || n ∈ [0x85, 0x2028, 0x2029]

/-- `str.strip` -/
def strip (s : String) : String :=
  String.ofList ((s.toList.dropWhile isSpace).rdropWhile isSpace)

/-- The lines of a text, trimmed, without those that are blank. -/
def lines (s : String) : List String :=
  ((s.toList.splitOnP isLineBreak).map fun line => strip (String.ofList line)).filter (· ≠ "")

/-- One line for each string. -/
def unlines (ss : List String) : String :=
  String.ofList (ss.flatMap fun s => s.toList ++ ['\n'])

/-- A line: it is not empty, is trimmed and has no line break. -/
def IsLine (s : String) : Prop := s ≠ "" ∧ strip s = s ∧ ∀ c ∈ s.toList, isLineBreak c = false

/-- A word: it is not empty and has no white space. -/
def IsWord (s : String) : Prop := s ≠ "" ∧ ∀ c ∈ s.toList, isSpace c = false

instance (s : String) : Decidable (IsWord s) :=
  have : Decidable (∀ c ∈ s.toList, isSpace c = false) := decidableBAll _ _
  inferInstanceAs (Decidable (s ≠ "" ∧ ∀ c ∈ s.toList, isSpace c = false))

variable {c : Char} {s : String}

theorem isSpace_of_isLineBreak (h : isLineBreak c = true) : isSpace c = true := by
  simp only [isLineBreak, isSpace, Bool.or_eq_true, decide_eq_true_eq, mem_cons,
    not_mem_nil, or_false] at h ⊢
  omega

theorem strip_of_isWord (h : IsWord s) : strip s = s := by
  have hdrop : s.toList.dropWhile isSpace = s.toList := by
    rw [dropWhile_eq_self_iff]
    intro hlen
    simp [h.2 _ (getElem_mem hlen)]
  have hrdrop : s.toList.rdropWhile isSpace = s.toList := by
    rw [rdropWhile_eq_self_iff]
    intro hne
    simp [h.2 _ (getLast_mem hne)]
  rw [strip, hdrop, hrdrop, String.ofList_toList]

/-- Trimming leaves nothing to trim. -/
theorem strip_strip (s : String) : strip (strip s) = strip s := by
  have hdrop : ((s.toList.dropWhile isSpace).rdropWhile isSpace).dropWhile isSpace =
      (s.toList.dropWhile isSpace).rdropWhile isSpace := by
    rw [dropWhile_eq_self_iff]
    intro hlen hspace
    have hprefix := rdropWhile_prefix isSpace (s.toList.dropWhile isSpace)
    have hlen' := Nat.lt_of_lt_of_le hlen hprefix.length_le
    have hfirst := dropWhile_get_zero_not isSpace s.toList hlen'
    have heq := hprefix.getElem hlen
    rw [heq] at hspace
    exact hfirst hspace
  rw [strip, strip, String.toList_ofList, hdrop, rdropWhile_idempotent]

theorem mem_strip (h : c ∈ (strip s).toList) : c ∈ s.toList := by
  rw [strip, String.toList_ofList] at h
  exact (dropWhile_sublist _).subset ((List.rdropWhile_prefix _ _).subset h)

theorem IsWord.isLine (h : IsWord s) : IsLine s := by
  refine ⟨h.1, strip_of_isWord h, fun c hc => ?_⟩
  by_contra hbreak
  have hspace := isSpace_of_isLineBreak (Bool.not_eq_false _ ▸ hbreak)
  simp [h.2 c hc] at hspace

theorem lines_append (hc : isLineBreak c = true) (x y : List Char) :
    lines (String.ofList (x ++ c :: y)) = lines (String.ofList x) ++ lines (String.ofList y) := by
  unfold lines
  simp only [String.toList_ofList]
  rw [splitOnP_append_cons x y hc, map_append, filter_append]

theorem lines_of_isLine (h : IsLine s) : lines s = [s] := by
  rw [lines, splitOnP_eq_singleton h.2.2, map_singleton, String.ofList_toList, h.2.1]
  simp [h.1]

theorem lines_unlines {ss : List String} (h : ∀ s ∈ ss, IsLine s) : lines (unlines ss) = ss := by
  induction ss with
  | nil => simp [lines, unlines, strip]
  | cons s ss ih =>
    have hsplit : unlines (s :: ss) =
        String.ofList (s.toList ++ '\n' :: ss.flatMap fun s => s.toList ++ ['\n']) := by
      simp [unlines]
    have hrest : lines (unlines ss) = ss := ih fun t ht => h t (mem_cons_of_mem _ ht)
    rw [hsplit, lines_append (by decide), String.ofList_toList,
      lines_of_isLine (h s mem_cons_self)]
    exact congrArg (s :: ·) hrest

end Workbay.Text

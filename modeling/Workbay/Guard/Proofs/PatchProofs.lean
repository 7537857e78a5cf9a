import Workbay.Guard.Patch

/-!
# The paths that the guard sees

The guard sees the file of each section of a patch. It does not read where a section moves its file
to: a destination is seen only when another header names it.
-/

namespace Workbay.Guard

open List

variable {text : List Char} {path : String}

theorem splitOnce_eq_some {separator before behind : List Char}
    (h : splitOnce separator text = some (before, behind)) :
    text = before ++ separator ++ behind := by
  induction text generalizing before with
  | nil => cases h
  | cons c rest ih =>
    rw [splitOnce] at h
    split at h
    · rename_i hprefix
      obtain ⟨rfl, rfl⟩ := Prod.mk.inj (Option.some.inj h)
      exact (prefix_iff_eq_append.mp (List.isPrefixOf_iff_prefix.mp hprefix)).symm
    · obtain ⟨parts, hparts, heq⟩ := Option.map_eq_some_iff.mp h
      obtain ⟨rfl, rfl⟩ := Prod.mk.inj heq
      rw [ih (show splitOnce separator rest = some (parts.1, parts.2) from hparts)]
      rfl

theorem mem_of_splitOnce (separator : List Char) {c : Char} (h : c ∈ text) :
    c ∈ beforeFirst separator text ∨ c ∈ separator ∨
      ∃ parts, splitOnce separator text = some parts ∧ c ∈ parts.2 := by
  rw [beforeFirst]
  cases hsplit : splitOnce separator text with
  | none => exact .inl h
  | some parts =>
    rw [splitOnce_eq_some (show splitOnce separator text = some (parts.1, parts.2) from hsplit)] at h
    rcases mem_append.mp h with h | h
    · rcases mem_append.mp h with h | h
      · exact .inl h
      · exact .inr (.inl h)
    · exact .inr (.inr ⟨parts, rfl, h⟩)

theorem splitLines_append (xs ys : List Char) :
    splitLines (xs ++ '\n' :: ys) = splitLines xs ++ splitLines ys := by
  rw [splitLines, splitOnP_append_cons xs ys (by decide), filter_append]
  rfl

variable {line : List Char} {rel : String} {w : EditLoop}

theorem splitLines_singleton (hne : line ≠ []) (h : ∀ c ∈ line, Text.isLineBreak c = false) :
    splitLines line = [line] := by
  rw [splitLines, splitOnP_eq_singleton h]
  simp [hne]

theorem not_isLineBreak_of_mem (h : line ∈ splitLines text) :
    ∀ c ∈ line, Text.isLineBreak c = false := by
  have hmem : line ∈ text.splitOnP Text.isLineBreak := (mem_filter.mp h).1
  clear h
  induction text generalizing line with
  | nil =>
    obtain rfl : line = [] := by simpa using hmem
    intro c hc
    cases hc
  | cons d text ih =>
    rw [splitOnP_cons_eq_if_modifyHead] at hmem
    obtain ⟨first, rest, heq⟩ := exists_cons_of_ne_nil
      (splitOnP_ne_nil Text.isLineBreak text)
    rw [heq] at ih
    split at hmem
    · rcases mem_cons.mp hmem with rfl | hmem
      · intro c hc
        cases hc
      · rw [heq] at hmem
        exact ih hmem
    · rename_i hd
      rw [heq, modifyHead_cons] at hmem
      rcases mem_cons.mp hmem with rfl | hmem
      · intro c hc
        rcases mem_cons.mp hc with rfl | hc
        · exact eq_false_of_ne_true hd
        · exact ih mem_cons_self c hc
      · exact ih (mem_cons_of_mem _ hmem)

theorem headerPath_isLine (hline : ∀ c ∈ line, Text.isLineBreak c = false)
    (h : headerPath line = some path) : Text.IsLine path := by
  rw [headerPath] at h
  split at h
  · split at h
    · cases h
    · rename_i parts hparts
      obtain ⟨heq, hne⟩ := Option.filter_eq_some_iff.mp h
      obtain rfl := Option.some.inj heq
      refine ⟨of_decide_eq_true hne, Text.strip_strip _, fun c hc => hline c ?_⟩
      · have hbefore := Text.mem_strip hc
        rw [String.toList_ofList, beforeFirst] at hbefore
        rw [splitOnce_eq_some (show splitOnce " File: ".toList line = some (parts.1, parts.2) from
          hparts)]
        refine mem_append_right _ ?_
        cases hsplit : splitOnce " -> ".toList parts.2 with
        | none =>
          rw [hsplit] at hbefore
          exact hbefore
        | some inner =>
          rw [hsplit] at hbefore
          rw [splitOnce_eq_some (show splitOnce " -> ".toList parts.2 = some (inner.1, inner.2) from
            hsplit)]
          exact mem_append_left _ (mem_append_left _ hbefore)
  · cases h

theorem patchPaths_isLine {patch : String} (h : path ∈ patchPaths patch) : Text.IsLine path := by
  obtain ⟨line, hline, hpath⟩ := mem_filterMap.mp h
  exact headerPath_isLine (not_isLineBreak_of_mem hline) hpath

theorem patchPaths_intercalate (lines : List String) :
    patchPaths (String.ofList (List.intercalate ['\n'] (lines.map String.toList))) =
      lines.flatMap patchPaths := by
  have hchars : ∀ lines : List String,
      (splitLines (List.intercalate ['\n'] (lines.map String.toList))).filterMap headerPath =
        lines.flatMap patchPaths := by
    intro lines
    induction lines with
    | nil => rfl
    | cons line lines ih =>
      cases lines with
      | nil => simp [patchPaths, List.intercalate]
      | cons next lines =>
        have hjoin : List.intercalate ['\n'] ((line :: next :: lines).map String.toList) =
            line.toList ++ '\n' :: List.intercalate ['\n'] ((next :: lines).map String.toList) := by
          simp [List.intercalate]
        rw [hjoin, splitLines_append, filterMap_append, ih, flatMap_cons]
        rfl
  rw [patchPaths, String.toList_ofList]
  exact hchars lines

theorem PatchSection.lineBreak_of_mem {s : PatchSection}
    (h : ∀ q ∈ s.touched, Text.IsLine q) :
    ∀ c ∈ s.header.toList, Text.isLineBreak c = false := by
  have hword : (("*** " ++ s.kind.word ++ " File: ").toList.all
      fun c => !Text.isLineBreak c) = true := by
    cases s.kind <;> decide +kernel
  have harrow : (" -> ".toList.all fun c => !Text.isLineBreak c) = true := by decide +kernel
  intro c hc
  rw [PatchSection.header, String.toList_append] at hc
  rcases mem_append.mp hc with hc | hc
  · have hc := all_eq_true.mp hword c hc
    rwa [Bool.not_eq_true'] at hc
  · rcases mem_of_splitOnce " -> ".toList hc with hc | hc | ⟨parts, hparts, hc⟩
    · have hline := h s.path mem_cons_self
      exact hline.2.2 c (by rw [PatchSection.path, String.toList_ofList]; exact hc)
    · have hc := all_eq_true.mp harrow c hc
      rwa [Bool.not_eq_true'] at hc
    · have hmem : String.ofList parts.2 ∈ s.touched := by
        refine mem_cons_of_mem _ (mem_append_left _ ?_)
        rw [hparts]
        simp
      exact (h _ hmem).2.2 c (by rw [String.toList_ofList]; exact hc)

theorem headerPath_header (s : PatchSection) :
    headerPath s.header.toList = (some (Text.strip s.path)).filter (· ≠ "") := by
  have hstars : "*** ".toList.isPrefixOf s.header.toList = true := by
    rw [PatchSection.header, String.append_assoc, String.append_assoc, String.toList_append]
    exact List.isPrefixOf_iff_prefix.mpr (prefix_append _ _)
  have hfile : " File: ".toList = [' ', 'F', 'i', 'l', 'e', ':', ' '] := by decide +kernel
  have hsplit : ∃ before, splitOnce " File: ".toList s.header.toList =
      some (before, s.target.toList) := by
    rw [hfile, PatchSection.header, String.toList_append]
    cases s.kind with
    | add =>
      rw [show ("*** " ++ SectionKind.add.word ++ " File: ").toList =
        ['*', '*', '*', ' ', 'A', 'd', 'd', ' ', 'F', 'i', 'l', 'e', ':', ' '] by decide +kernel]
      exact ⟨_, rfl⟩
    | update =>
      rw [show ("*** " ++ SectionKind.update.word ++ " File: ").toList =
        ['*', '*', '*', ' ', 'U', 'p', 'd', 'a', 't', 'e', ' ', 'F', 'i', 'l', 'e', ':', ' '] by
          decide +kernel]
      exact ⟨_, rfl⟩
    | delete =>
      rw [show ("*** " ++ SectionKind.delete.word ++ " File: ").toList =
        ['*', '*', '*', ' ', 'D', 'e', 'l', 'e', 't', 'e', ' ', 'F', 'i', 'l', 'e', ':', ' '] by
          decide +kernel]
      exact ⟨_, rfl⟩
  obtain ⟨before, hsplit⟩ := hsplit
  rw [headerPath, if_pos hstars, hsplit]
  rfl

theorem patchPaths_header {s : PatchSection} (h : ∀ q ∈ s.touched, Text.IsLine q) :
    patchPaths s.header = [s.path] := by
  have hpath := h s.path mem_cons_self
  have hne : s.header.toList ≠ [] := by
    rw [PatchSection.header, String.append_assoc, String.append_assoc, String.toList_append]
    exact append_ne_nil_of_left_ne_nil (by decide +kernel) _
  rw [patchPaths, splitLines_singleton hne (PatchSection.lineBreak_of_mem h)]
  have hfound : headerPath s.header.toList = some s.path := by
    rw [headerPath_header, hpath.2.1, Option.filter_some, if_pos (decide_eq_true hpath.1)]
  rw [filterMap_cons, hfound, filterMap_nil]

/-- The paths that the text of sections names besides their headers. -/
def imitated (sections : List PatchSection) : List String :=
  sections.flatMap fun s => s.rest.flatMap patchPaths

/-- Each path of a patch is a trimmed line, and each destination is the file of some section, or
imitated. -/
structure NamesDestinations (sections : List PatchSection) : Prop where
  lines : ∀ s ∈ sections, ∀ q ∈ s.touched, Text.IsLine q
  destinations : ∀ s ∈ sections, ∀ q ∈ s.destinations,
    (∃ other ∈ sections, other.path = q) ∨ q ∈ imitated sections

theorem mem_patchPaths_patchText {sections : List PatchSection} {q : String} :
    q ∈ patchPaths (patchText sections) ↔
      (∃ s ∈ sections, q ∈ patchPaths s.header) ∨ q ∈ imitated sections := by
  have hbegin : patchPaths "*** Begin Patch" = [] := by decide +kernel
  have hend : patchPaths "*** End Patch" = [] := by decide +kernel
  rw [patchText, patchPaths_intercalate, patchLines]
  simp only [cons_append, flatMap_cons, flatMap_append, flatMap_nil, hbegin,
    hend, nil_append, append_nil, imitated, mem_flatMap, mem_cons]
  constructor
  · rintro ⟨line, ⟨s, hs, rfl | hline⟩, hq⟩
    · exact .inl ⟨s, hs, hq⟩
    · exact .inr ⟨s, hs, line, hline, hq⟩
  · rintro (⟨s, hs, hq⟩ | ⟨s, hs, line, hline, hq⟩)
    · exact ⟨s.header, ⟨s, hs, .inl rfl⟩, hq⟩
    · exact ⟨line, ⟨s, hs, .inr hline⟩, hq⟩

theorem touched_seen_iff (sections : List PatchSection) :
    (∀ s ∈ sections, ∀ q ∈ s.touched, q ∈ patchPaths (patchText sections)) ↔
      NamesDestinations sections := by
  constructor
  · intro h
    have hlines : ∀ s ∈ sections, ∀ q ∈ s.touched, Text.IsLine q :=
      fun s hs q hq => patchPaths_isLine (h s hs q hq)
    refine ⟨hlines, fun s hs q hq => ?_⟩
    rcases mem_patchPaths_patchText.mp (h s hs q (mem_cons_of_mem _ hq)) with
      ⟨other, hother, hmem⟩ | himitated
    · rw [patchPaths_header (hlines other hother)] at hmem
      exact .inl ⟨other, hother, (mem_singleton.mp hmem).symm⟩
    · exact .inr himitated
  · intro h s hs q hq
    rw [mem_patchPaths_patchText]
    have hheader : ∀ other ∈ sections, other.path ∈ patchPaths other.header := by
      intro other hother
      rw [patchPaths_header (h.lines other hother)]
      exact mem_singleton_self _
    rcases mem_cons.mp hq with rfl | hq
    · exact .inl ⟨s, hs, hheader s hs⟩
    · rcases h.destinations s hs q hq with ⟨other, hother, rfl⟩ | himitated
      · exact .inl ⟨other, hother, hheader other hother⟩
      · exact .inr himitated

variable {c : Checkout} {branch : String} {protectedBranches : List String}

/-- A path leads to a protected path of the checkout, which is on a protected branch however it is
spelled. -/
def ProtectedHere (c : Checkout) (branch : String) (protectedBranches : List String)
    (path : String) : Prop :=
  ∃ rel, rel ≠ "" ∧ c.toRepoRelative path = some rel ∧ c.isProtectedPath rel = true ∧
    ∀ other, c.toRepoRelative other = some rel → c.effectiveBranch branch other ∈ protectedBranches

/-- What the loop has done about a path that is protected. -/
def Guarded (rel : String) (w : EditLoop) : Prop := rel ∈ w.seen → w.blocked ≠ []

/-- What a round does: nothing, or it reports a path, or it passes one over that leads elsewhere or
that is not protected. -/
theorem checkPath_cases (w : EditLoop) (path : String) :
    checkPath c branch protectedBranches w path = w ∨
      (∃ x, checkPath c branch protectedBranches w path = ⟨w.blocked ++ [x], w.seen ++ [x]⟩) ∨
      ∃ x, checkPath c branch protectedBranches w path = { w with seen := w.seen ++ [x] } ∧
        ((c.toRepoRelative path = none ∧ x = pathToken path) ∨
          (c.toRepoRelative path = some x ∧
            ¬ (c.isProtectedPath x ∧ c.effectiveBranch branch path ∈ protectedBranches))) := by
  unfold checkPath
  split
  · rename_i hnone
    split
    · exact .inl rfl
    · split
      · exact .inr (.inl ⟨_, rfl⟩)
      · exact .inr (.inr ⟨_, rfl, .inl ⟨hnone, rfl⟩⟩)
  · rename_i relative hrelative
    split
    · exact .inl rfl
    · split
      · exact .inr (.inl ⟨_, rfl⟩)
      · rename_i hnot
        exact .inr (.inr ⟨_, rfl, .inr ⟨hrelative, hnot⟩⟩)

theorem pathToken_eq (h : c.toRepoRelative path = none) :
    c.resolveRelative (pathToken path) = none := by
  rw [Checkout.toRepoRelative] at h
  split at h
  · cases h
  · rename_i hne
    rw [pathToken, if_neg fun hempty => hne (.inl hempty)]
    exact h

theorem resolveRelative_of_toRepoRelative (hresolved : c.Resolved) (hrel : rel ≠ "")
    (h : c.toRepoRelative path = some rel) : c.resolveRelative rel = some rel := by
  rw [Checkout.toRepoRelative] at h
  split at h
  · exact absurd (Option.some.inj h).symm hrel
  · exact hresolved _ _ h

theorem Guarded.checkPath (h : Guarded rel w) (hself : c.resolveRelative rel = some rel)
    (hprotected : c.isProtectedPath rel = true)
    (hbranch : ∀ other, c.toRepoRelative other = some rel →
      c.effectiveBranch branch other ∈ protectedBranches) (path : String) :
    Guarded rel (checkPath c branch protectedBranches w path) := by
  intro hseen
  rcases checkPath_cases w path with hw | ⟨x, hw⟩ | ⟨x, hw, hwhy⟩
  · rw [hw] at hseen ⊢
    exact h hseen
  · rw [hw]
    simp
  · rw [hw] at hseen ⊢
    rcases mem_append.mp hseen with hold | hnew
    · exact h hold
    · have hx : rel = x := mem_singleton.mp hnew
      rcases hwhy with ⟨hnone, htoken⟩ | ⟨hpath, hnot⟩
      · -- a path that leads elsewhere is spelled differently
        have helse := pathToken_eq hnone
        rw [← htoken, ← hx, hself] at helse
        cases helse
      · rw [← hx] at hpath hnot
        exact absurd ⟨hprotected, hbranch path hpath⟩ hnot

theorem mem_seen_checkPath (hrel : rel ≠ "") (hpath : c.toRepoRelative path = some rel)
    (w : EditLoop) : rel ∈ (checkPath c branch protectedBranches w path).seen := by
  unfold checkPath
  rw [hpath]
  simp only [hrel, false_or]
  split
  · assumption
  · split <;> simp

theorem mem_seen_of_mem (h : rel ∈ w.seen) (path : String) :
    rel ∈ (checkPath c branch protectedBranches w path).seen := by
  rcases checkPath_cases w path with hw | ⟨x, hw⟩ | ⟨x, hw, -⟩
  · rwa [hw]
  · rw [hw]
    exact mem_append_left _ h
  · rw [hw]
    exact mem_append_left _ h

theorem mem_seen_checkPaths (paths : List String) (h : rel ∈ w.seen) :
    rel ∈ (paths.foldl (checkPath c branch protectedBranches) w).seen := by
  induction paths generalizing w with
  | nil => exact h
  | cons p paths ih =>
    rw [foldl_cons]
    exact ih (mem_seen_of_mem h p)

theorem Guarded.checkPaths (hself : c.resolveRelative rel = some rel)
    (hprotected : c.isProtectedPath rel = true)
    (hbranch : ∀ other, c.toRepoRelative other = some rel →
      c.effectiveBranch branch other ∈ protectedBranches) (paths : List String) (h : Guarded rel w) :
    Guarded rel (paths.foldl (Guard.checkPath c branch protectedBranches) w) := by
  induction paths generalizing w with
  | nil => exact h
  | cons p paths ih =>
    rw [foldl_cons]
    exact ih (Guarded.checkPath h hself hprotected hbranch p)

theorem checkPaths_blocked {paths : List String} (hrel : rel ≠ "")
    (hself : c.resolveRelative rel = some rel) (hprotected : c.isProtectedPath rel = true)
    (hbranch : ∀ other, c.toRepoRelative other = some rel →
      c.effectiveBranch branch other ∈ protectedBranches) (hpath : c.toRepoRelative path = some rel)
    (hmem : path ∈ paths) (h : Guarded rel w) :
    (paths.foldl (checkPath c branch protectedBranches) w).blocked ≠ [] := by
  have hguarded := Guarded.checkPaths hself hprotected hbranch paths h
  refine hguarded ?_
  obtain ⟨before, after, rfl⟩ := append_of_mem hmem
  rw [foldl_append, foldl_cons]
  exact mem_seen_checkPaths after (mem_seen_checkPath hrel hpath _)

theorem extractCandidatePaths_patch (filePath : Option String) (sections : List PatchSection) :
    extractCandidatePaths "apply_patch" ⟨filePath, some (patchText sections)⟩ =
      patchPaths (patchText sections) := by
  have hstart : ∃ rest, (patchText sections).toList = '*' :: rest := by
    rw [patchText, String.toList_ofList, patchLines]
    rw [cons_append, map_cons]
    rw [show "*** Begin Patch".toList = '*' :: "** Begin Patch".toList by decide +kernel]
    cases hlines : (sections.flatMap (fun s => s.header :: s.rest) ++ ["*** End Patch"]).map
        String.toList with
    | nil => exact ⟨_, rfl⟩
    | cons line lines => exact ⟨_, rfl⟩
  have hstrip : Text.strip (patchText sections) ≠ "" := by
    obtain ⟨rest, hrest⟩ := hstart
    intro hempty
    have hlist := congrArg String.toList hempty
    rw [Text.strip, String.toList_ofList, hrest, dropWhile_cons_of_neg (by decide),
      show "".toList = [] from rfl, rdropWhile_eq_nil_iff] at hlist
    exact absurd (hlist '*' mem_cons_self) (by decide)
  rw [extractCandidatePaths, if_neg (by simp)]
  exact if_neg hstrip

/-- The guard sees every path that applying a patch touches, so that it blocks a patch that touches
a protected path of the checkout. -/
structure GuardSees (sections : List PatchSection) : Prop where
  candidates : ∀ filePath, ∀ s ∈ sections, ∀ q ∈ s.touched,
    q ∈ extractCandidatePaths "apply_patch" ⟨filePath, some (patchText sections)⟩
  blocks : ∀ filePath (c : Checkout) branch protectedBranches, c.Resolved →
    branch ∈ protectedBranches →
    (∃ s ∈ sections, ∃ q ∈ s.touched, ProtectedHere c branch protectedBranches q) →
    checkFileEdit c branch protectedBranches "apply_patch"
      ⟨filePath, some (patchText sections)⟩ ≠ none

/-- The guard sees a patch exactly when its paths are lines and its destinations are the files of
other sections. -/
theorem guard_sees_patch (sections : List PatchSection) :
    GuardSees sections ↔ NamesDestinations sections := by
  constructor
  · intro h
    refine (touched_seen_iff sections).mp fun s hs q hq => ?_
    have hseen := h.candidates none s hs q hq
    rwa [extractCandidatePaths_patch] at hseen
  · intro h
    have htouched := (touched_seen_iff sections).mpr h
    refine ⟨fun filePath s hs q hq => ?_, fun filePath c branch protectedBranches hresolved hbranch
      hprotected => ?_⟩
    · rw [extractCandidatePaths_patch]
      exact htouched s hs q hq
    · obtain ⟨s, hs, q, hq, rel, hrel, hpath, hpolicy, hbranches⟩ := hprotected
      have hblocked := checkPaths_blocked hrel
        (resolveRelative_of_toRepoRelative hresolved hrel hpath) hpolicy hbranches hpath
        (htouched s hs q hq) (w := {}) (fun hseen => absurd hseen not_mem_nil)
      rw [checkFileEdit, if_neg (not_not_intro hbranch), extractCandidatePaths_patch]
      simp only [hblocked, if_false, ne_eq, reduceCtorEq, not_false_eq_true]

/-- A note is moved into the source. -/
def movedSection : PatchSection where
  kind := .update
  target := "docs/notes.py"
  moveTo := some "src/app.py"
  body := ["@@", "-old", "+new"]

/-- The guard does not see where a patch moves a file to. -/
theorem destination_not_seen : ¬ ∀ sections : List PatchSection, GuardSees sections := by
  intro h
  have hseen := (h [movedSection]).candidates none movedSection mem_cons_self "src/app.py"
    (by decide +kernel)
  exact absurd hseen (by decide +kernel)

end Workbay.Guard

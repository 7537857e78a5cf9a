import Workbay.Ancestry.Containment
import Workbay.Effects.System
import Workbay.Data.Check

/-!
# Proofs: what the containment map lists
-/

namespace Workbay.Ancestry

open List

variable {pre text rest : String}

theorem dropPrefix?_eq_some : dropPrefix? pre text = some rest ↔ text = pre ++ rest := by
  unfold dropPrefix?
  by_cases h : pre.toList <+: text.toList
  · obtain ⟨tail, htail⟩ := h
    rw [if_pos ⟨tail, htail⟩, ← htail, drop_left]
    constructor
    · intro hrest
      rw [← Option.some.inj hrest, ← String.toList_inj, String.toList_append, String.toList_ofList,
        htail]
    · intro htext
      rw [htext, String.toList_append] at htail
      rw [append_cancel_left htail, String.ofList_toList]
  · rw [if_neg h]
    constructor
    · intro hnone
      simp at hnone
    · intro htext
      exact absurd ⟨rest.toList, by rw [htext, String.toList_append]⟩ h

theorem isLocalBranch_iff {ref : String} :
    IsLocalBranch ref ↔ ∃ name, ref = "refs/heads/" ++ name := by
  unfold IsLocalBranch
  rw [Option.isSome_iff_exists]
  exact exists_congr fun name => dropPrefix?_eq_some

theorem ne_append_of_take {a b : String} (n : Nat)
    (h : a.toList.take n ≠ b.toList.take n) (hn : n ≤ a.toList.length) (hn' : n ≤ b.toList.length)
    (x y : String) : a ++ x ≠ b ++ y := by
  intro heq
  have htake := congrArg (fun s : String => s.toList.take n) heq
  simp only [String.toList_append, take_append_of_le_length hn,
    take_append_of_le_length hn'] at htake
  exact h htake

theorem revParse_eq_branch {name : String} (h : "refs/heads/" ++ name ∈ revParse text) :
    text = "refs/heads/" ++ name ∨ text = "heads/" ++ name ∨ text = name := by
  simp only [revParse, revParseRules, map_cons, map_nil, mem_cons,
    not_mem_nil, or_false, String.append_empty, String.empty_append] at h
  have hheads : "refs/heads/" ++ name = "refs/" ++ ("heads/" ++ name) := by
    rw [← String.append_assoc]
    rfl
  rcases h with h | h | h | h | h | h
  · exact .inl h.symm
  · rw [hheads] at h
    have htext : "heads/" ++ name = text := by
      rw [← String.toList_inj] at h ⊢
      simp only [String.toList_append] at h ⊢
      exact append_cancel_left h
    exact .inr (.inl htext.symm)
  · exact absurd h (ne_append_of_take 6 (by decide) (by decide) (by decide) _ _)
  · rw [← String.toList_inj] at h
    simp only [String.toList_append] at h
    exact .inr (.inr (String.toList_inj.mp (append_cancel_left h)).symm)
  · exact absurd h (ne_append_of_take 6 (by decide) (by decide) (by decide) _ _)
  · rw [String.append_assoc] at h
    exact absurd h (ne_append_of_take 6 (by decide) (by decide) (by decide) _ _)

theorem getLast?_splitOn_ne {text : List Char} (hmem : '/' ∈ text)
    (hlast : text.getLast? ≠ some '/') : (text.splitOn '/').getLast? ≠ some [] := by
  obtain ⟨pre, post, hsplit, hnot⟩ := eq_append_cons_of_mem (mem_reverse.mpr hmem)
  have htext : text = post.reverse ++ '/' :: pre.reverse := by
    rw [← reverse_reverse text, hsplit]
    simp
  have hpre : pre ≠ [] := by
    rintro rfl
    simp [htext] at hlast
  have hsingle : pre.reverse.splitOn '/' = [pre.reverse] := by
    refine splitOnP_eq_singleton fun c hc => ?_
    simp only [beq_eq_false_iff_ne]
    rintro rfl
    exact hnot (mem_reverse.mp hc)
  have hparts : text.splitOn '/' = post.reverse.splitOn '/' ++ [pre.reverse] := by
    rw [← hsingle, htext]
    exact splitOnP_append_cons _ _ (by simp)
  rw [hparts, getLast?_append]
  simp [hpre]

theorem length_splitOn {text rest : List Char} (h : text = "refs/heads/".toList ++ rest) :
    3 ≤ (text.splitOn '/').length := by
  have hsplit : text.splitOn '/' = ["refs".toList, "heads".toList] ++ rest.splitOn '/' := by
    have hrefs : "refs/heads/".toList = "refs".toList ++ '/' :: ("heads".toList ++ ['/']) := rfl
    rw [h, hrefs]
    simp only [append_assoc, cons_append, nil_append]
    refine (splitOnP_append_cons _ _ (by simp)).trans ?_
    rw [splitOnP_append_cons _ _ (by simp), splitOnP_eq_singleton (by simp),
      splitOnP_eq_singleton (by simp)]
    rfl
  have hne : rest.splitOn '/' ≠ [] := splitOnP_ne_nil _ _
  have hpos := length_pos_iff.mpr hne
  rw [hsplit, length_append]
  simp only [length_cons, length_nil]
  omega

theorem isWord_of_append (h : Text.IsWord (pre ++ text)) (hne : text ≠ "") : Text.IsWord text := by
  refine ⟨hne, fun c hc => h.2 c ?_⟩
  rw [String.toList_append]
  exact mem_append_right _ hc

theorem dropPrefix?_isSome : (dropPrefix? pre text).isSome ↔ ∃ rest, text = pre ++ rest := by
  rw [Option.isSome_iff_exists]
  exact exists_congr fun rest => dropPrefix?_eq_some

theorem listingRef_eq (h : Text.IsWord text) : listingRef text =
    if (dropPrefix? "refs/" text).isSome then
      if (text.toList.splitOn '/').length < 3 ∨ (text.toList.splitOn '/').getLast? = some [] then
        none
      else some text
    else match dropPrefix? "heads/" text with
      | some rest => if rest = "" then none else some ("refs/heads/" ++ rest)
      | none => some ("refs/heads/" ++ text) := by
  unfold listingRef
  rw [Text.strip_of_isWord h]
  exact if_neg h.1

theorem listingRef_of_isWord (h : Text.IsWord text) (hrefs : ¬ ∃ rest, text = "refs/" ++ rest)
    (hheads : ¬ ∃ rest, text = "heads/" ++ rest) :
    listingRef text = some ("refs/heads/" ++ text) := by
  have hnone : dropPrefix? "heads/" text = none := by
    rw [← Option.not_isSome_iff_eq_none, dropPrefix?_isSome]
    exact hheads
  rw [listingRef_eq h, if_neg (mt dropPrefix?_isSome.mp hrefs), hnone]

theorem listingRef_heads (h : Text.IsWord text) (htext : text = "heads/" ++ rest) :
    listingRef text = if rest = "" then none else some ("refs/heads/" ++ rest) := by
  have hrefs : ¬ ∃ tail, text = "refs/" ++ tail := by
    rintro ⟨tail, htail⟩
    rw [htext] at htail
    exact ne_append_of_take 1 (by decide) (by decide) (by decide) _ _ htail
  rw [listingRef_eq h, if_neg (mt dropPrefix?_isSome.mp hrefs), dropPrefix?_eq_some.mpr htext]

theorem listingRef_refs (h : Text.IsWord text) (htext : text = "refs/" ++ rest) : listingRef text =
      if (text.toList.splitOn '/').length < 3 ∨ (text.toList.splitOn '/').getLast? = some [] then
        none
      else some text := by
  rw [listingRef_eq h, if_pos (dropPrefix?_isSome.mpr ⟨rest, htext⟩)]

section

variable {κ : Type} [PartialOrder κ] {git : Git κ}

theorem short_name {branch : String} (hmem : branch ∈ git.refs) (hlocal : IsLocalBranch branch) :
    Text.IsWord (git.short branch) ∧ ∃ name, name ≠ "" ∧ branch = "refs/heads/" ++ name ∧
      (git.short branch = branch ∨ git.short branch = "heads/" ++ name ∨
        git.short branch = name) := by
  obtain ⟨name, hname⟩ := isLocalBranch_iff.mp hlocal
  have hword := git.refs_word branch hmem
  have hne : name ≠ "" := by
    rintro rfl
    exact (git.branch_named branch hmem).1 (by rw [hname, String.append_empty])
  have hparse : "refs/heads/" ++ name ∈ revParse (git.short branch) := by
    rw [← hname]
    exact mem_of_find?_eq_some (git.short_denotes branch hmem hlocal)
  have hrefs : branch = "refs/" ++ ("heads/" ++ name) := by
    rw [hname, ← String.append_assoc]
    rfl
  have hheads : "heads/" ++ name ≠ "" := by
    intro hempty
    have hlen := congrArg String.length hempty
    rw [String.length_append] at hlen
    simp at hlen
  have hheadsWord : Text.IsWord ("heads/" ++ name) := isWord_of_append (hrefs ▸ hword) hheads
  rcases revParse_eq_branch hparse with hshort | hshort | hshort
  · exact ⟨by rw [hshort, ← hname]; exact hword, name, hne, hname, .inl (hshort.trans hname.symm)⟩
  · exact ⟨hshort ▸ hheadsWord, name, hne, hname, .inr (.inl hshort)⟩
  · exact ⟨hshort ▸ isWord_of_append hheadsWord hne, name, hne, hname, .inr (.inr hshort)⟩

theorem listingRef_short {branch : String} (hmem : branch ∈ git.refs)
    (hlocal : IsLocalBranch branch) :
    listingRef (git.short branch) = some branch ∨
      ∀ ref, listingRef (git.short branch) = some ref → ref ∉ git.refs := by
  obtain ⟨hshortWord, name, hne, hname, hshort⟩ := short_name hmem hlocal
  have hword := git.refs_word branch hmem
  have hdenotes := git.short_denotes branch hmem hlocal
  have hlonger : ∀ x y : String, x ≠ "" → branch = x ++ y → y ≠ branch := by
    intro x y hx heq hy
    have hlen := congrArg String.length (hy ▸ heq : branch = x ++ branch)
    rw [String.length_append] at hlen
    have hxlen : x.length ≠ 0 := fun hzero => hx (String.length_eq_zero_iff.mp hzero)
    omega
  rcases hshort with hshort | hshort | hshort
  · -- the whole name
    left
    rw [hshort]
    have hrefs : branch = "refs/" ++ ("heads/" ++ name) := by
      rw [hname, ← String.append_assoc]
      rfl
    rw [listingRef_refs hword hrefs, if_neg]
    rintro (hlt | hlast)
    · have hle := @length_splitOn branch.toList name.toList
        (by rw [hname, String.toList_append])
      omega
    · refine getLast?_splitOn_ne ?_ (git.branch_named branch hmem).2 hlast
      rw [hname, String.toList_append]
      exact mem_append_left _ (by decide)
  · -- the form for an ambiguous name
    left
    rw [listingRef_heads hshortWord hshort, if_neg hne, hname]
  · -- the plain name
    have hbranch : branch = "refs/heads/" ++ git.short branch := by
      rw [hshort]
      exact hname
    simp only [revParse, revParseRules, map_cons, String.empty_append, String.append_empty,
      find?_cons] at hdenotes
    by_cases hrefs : ∃ rest, git.short branch = "refs/" ++ rest
    · -- the line is taken for the name of another ref, which is not there
      right
      intro ref href hin
      obtain ⟨rest, hrest⟩ := hrefs
      rw [listingRef_refs hshortWord hrest] at href
      have hself : git.short branch = ref := by
        split at href
        · simp at href
        · exact Option.some.inj href
      rw [hself, decide_eq_true hin] at hdenotes
      rw [hself] at hbranch
      exact hlonger _ _ (by decide) hbranch (Option.some.inj hdenotes)
    · by_cases hheads : ∃ rest, git.short branch = "heads/" ++ rest
      · -- the line is taken for the form of an ambiguous name, which is not there
        right
        intro ref href hin
        obtain ⟨rest, hrest⟩ := hheads
        have hslash : "refs/heads/" ++ rest = "refs/" ++ git.short branch := by
          rw [hrest, ← String.append_assoc]
          rfl
        have hself : "refs/" ++ git.short branch = ref := by
          rw [listingRef_heads hshortWord hrest, hslash] at href
          split at href
          · simp at href
          · exact Option.some.inj href
        by_cases hfirst : git.short branch ∈ git.refs
        · rw [decide_eq_true hfirst] at hdenotes
          exact hlonger _ _ (by decide) hbranch (Option.some.inj hdenotes)
        · rw [decide_eq_false hfirst, hself, decide_eq_true hin] at hdenotes
          rw [← hself] at hdenotes
          have heq : "refs/" ++ git.short branch = branch := Option.some.inj hdenotes
          have hlen := congrArg String.length (heq.trans hbranch)
          have hrefsLength : "refs/".length = 5 := by decide
          have hheadsLength : "refs/heads/".length = 11 := by decide
          rw [String.length_append, String.length_append] at hlen
          omega
      · left
        rw [listingRef_of_isWord hshortWord hrefs hheads, ← hbranch]

variable {ref name : String} {refs branches : List String}

theorem listingRef_detached {line : String} (h : IsDetachedLine line)
    (href : listingRef line = some ref) : ref ∉ git.refs := by
  obtain ⟨⟨hne, hstrip, -⟩, hparen, hblank⟩ := h
  have hword' : ∀ pre : String, pre.toList.head? ≠ some '(' → pre.toList ≠ [] →
      dropPrefix? pre line = none := by
    intro pre hhead hpre
    rw [← Option.not_isSome_iff_eq_none, dropPrefix?_isSome]
    rintro ⟨rest, hrest⟩
    rw [hrest, String.toList_append, head?_append_of_ne_nil _ hpre] at hparen
    exact hhead hparen
  have hread : listingRef line = some ("refs/heads/" ++ line) := by
    unfold listingRef
    rw [hstrip]
    simp only [if_neg hne, hword' "refs/" (by decide) (by decide),
      hword' "heads/" (by decide) (by decide), Option.isSome_none, Bool.false_eq_true, if_false]
  intro hin
  obtain rfl := Option.some.inj (hread.symm.trans href)
  have hword := (git.refs_word _ hin).2 ' ' (by
    rw [String.toList_append]
    exact mem_append_right _ hblank)
  exact absurd hword (by decide)

theorem canonicalRef_mem (h : canonicalRef name refs = .ok (some ref)) : ref ∈ refs := by
  unfold canonicalRef at h
  simp only at h
  split at h
  · simp at h
  · split at h
    · simp at h
    · have hmem := mem_of_head? (Except.ok.inj h)
      exact of_decide_eq_true (mem_filter.mp hmem).2

theorem canonicalRef_dedup (name : String) (refs : List String) :
    canonicalRef name refs.dedup = canonicalRef name refs := by
  unfold canonicalRef
  simp only [mem_dedup]

theorem spells_cons_iff {names : List String} {first : String} {P : Prop}
    (h : ¬ (first ≠ "" ∧ canonicalRef first refs = .ok (some ref))) :
    (P ∨ (name ∈ names ∧ name ≠ "" ∧ canonicalRef name refs = .ok (some ref))) ↔
      (P ∨ (name ∈ first :: names ∧ name ≠ "" ∧ canonicalRef name refs = .ok (some ref))) := by
  refine or_congr_right ⟨fun hin => ⟨mem_cons_of_mem _ hin.1, hin.2⟩, ?_⟩
  rintro ⟨hin, hspells⟩
  rcases mem_cons.mp hin with rfl | hin
  · exact absurd hspells h
  · exact ⟨hin, hspells⟩

theorem integrationCanon_dedup (integrationRef : String) (refs : List String) :
    integrationCanon integrationRef refs.dedup = integrationCanon integrationRef refs := by
  unfold integrationCanon
  simp only [canonicalRef_dedup]

theorem Git.Spells.unique {ref' : String} (h : git.Spells branches name ref)
    (h' : git.Spells branches name ref') : ref = ref' :=
  Option.some.inj (Except.ok.inj (h.2.2.symm.trans h'.2.2))

theorem mem_candidateIndex : ∀ (names : List String)
    (start index : Dict String (List String)), candidateIndex refs names start = .ok index →
    ∀ ref name, name ∈ index.getD ref [] ↔
      name ∈ start.getD ref [] ∨
        (name ∈ names ∧ name ≠ "" ∧ canonicalRef name refs = .ok (some ref)) := by
  intro names
  induction names with
  | nil =>
    intro start index h ref name
    obtain rfl := Except.ok.inj h
    simp
  | cons first names ih =>
    intro start index h ref name
    rw [candidateIndex] at h
    by_cases hempty : first = ""
    · rw [if_pos hempty] at h
      rw [ih start index h ref name]
      exact spells_cons_iff fun hspells => hspells.1 hempty
    rw [if_neg hempty] at h
    cases hfirst : canonicalRef first refs with
    | error error => simp [hfirst] at h
    | ok found =>
      rw [hfirst] at h
      cases found with
      | none =>
        rw [ih start index h ref name]
        refine spells_cons_iff fun hspells => ?_
        simp [hfirst] at hspells
      | some canon =>
        rw [ih _ index h ref name]
        by_cases href : ref = canon
        · subst href
          -- the bucket of the ref gains the name
          have hbucket : name ∈ Dict.getD (start.set ref
              (if first ∈ start.getD ref [] then start.getD ref []
                else start.getD ref [] ++ [first])) ref [] ↔
              name ∈ start.getD ref [] ∨ name = first := by
            rw [Dict.getD_set_self]
            split
            · refine ⟨.inl, ?_⟩
              rintro (hin | rfl)
              · exact hin
              · assumption
            · simp
          rw [hbucket, or_assoc]
          refine or_congr_right ⟨?_, ?_⟩
          · rintro (rfl | ⟨hin, hspells⟩)
            · exact ⟨mem_cons_self, hempty, hfirst⟩
            · exact ⟨mem_cons_of_mem _ hin, hspells⟩
          · rintro ⟨hin, hspells⟩
            rcases mem_cons.mp hin with rfl | hin
            · exact .inl rfl
            · exact .inr ⟨hin, hspells⟩
        · rw [Dict.getD_set_of_ne _ _ _ href]
          refine spells_cons_iff fun hspells => href ?_
          rw [hfirst] at hspells
          exact (Option.some.inj (Except.ok.inj hspells.2)).symm

/-- The listing that the mapping has for a name. -/
def Listed (run : CommandRunner) (refs : List String) (index : Dict String (List String))
    (integration : Option String) (name : String) (vals : List String) : Prop :=
  name ≠ "" ∧ ∃ ref outcome, canonicalRef name refs = .ok (some ref) ∧
    run (containsCommand ref) = some outcome ∧
    vals = containerNames index ref integration outcome.stdout

theorem probe_spec {run : CommandRunner} {index : Dict String (List String)}
    {integration : Option String} : ∀ (branches : List String)
    (start built : Dict String (List String)),
    probe run refs index integration branches start = .ok built →
    (∀ name vals, (name, vals) ∈ built → (name, vals) ∈ start ∨
      (name ∈ branches ∧ Listed run refs index integration name vals)) ∧
    (∀ name, (start.get? name).isSome → (built.get? name).isSome) ∧
    ∀ name ref, name ∈ branches → name ≠ "" → canonicalRef name refs = .ok (some ref) →
      (built.get? name).isSome := by
  intro branches
  induction branches with
  | nil =>
    intro start built h
    obtain rfl := Except.ok.inj h
    exact ⟨fun _ _ => .inl, fun _ => id, by simp⟩
  | cons first branches ih =>
    intro start built h
    rw [probe] at h
    -- a candidate without a canonical ref is passed over
    have hskip : probe run refs index integration branches start = .ok built →
        ¬ (first ≠ "" ∧ ∃ ref, canonicalRef first refs = .ok (some ref)) →
        (∀ name vals, (name, vals) ∈ built → (name, vals) ∈ start ∨
          (name ∈ first :: branches ∧ Listed run refs index integration name vals)) ∧
        (∀ name, (start.get? name).isSome → (built.get? name).isSome) ∧
        ∀ name ref, name ∈ first :: branches → name ≠ "" →
          canonicalRef name refs = .ok (some ref) → (built.get? name).isSome := by
      intro hrest hnot
      obtain ⟨hlisted, hkept, hfound⟩ := ih start built hrest
      refine ⟨fun name vals hin => (hlisted name vals hin).imp_right fun hl =>
        ⟨mem_cons_of_mem _ hl.1, hl.2⟩, hkept, fun name ref hin hne hcanon => ?_⟩
      rcases mem_cons.mp hin with rfl | hin
      · exact absurd ⟨hne, ref, hcanon⟩ hnot
      · exact hfound name ref hin hne hcanon
    by_cases hempty : first = ""
    · rw [if_pos hempty] at h
      exact hskip h fun hspells => hspells.1 hempty
    rw [if_neg hempty] at h
    cases hfirst : canonicalRef first refs with
    | error error => simp [hfirst] at h
    | ok found =>
      rw [hfirst] at h
      cases found with
      | none =>
        refine hskip h ?_
        rintro ⟨-, ref, href⟩
        simp [hfirst] at href
      | some canon =>
        cases hrun : run (containsCommand canon) with
        | none => simp [hrun] at h
        | some outcome =>
          simp only [hrun] at h
          split at h
          · simp at h
          obtain ⟨hlisted, hkept, hfound⟩ := ih _ built h
          refine ⟨fun name vals hin => ?_, fun name hin => hkept name ?_,
            fun name ref hin hne hcanon => ?_⟩
          · rcases hlisted name vals hin with hin | ⟨hin, hl⟩
            · rcases Dict.mem_set hin with heq | hin
              · obtain ⟨rfl, rfl⟩ := Prod.mk.inj heq
                exact .inr ⟨mem_cons_self, hempty, canon, outcome, hfirst, hrun, rfl⟩
              · exact .inl hin
            · exact .inr ⟨mem_cons_of_mem _ hin, hl⟩
          · rw [Dict.get?_set]
            split
            · rfl
            · exact hin
          · rcases mem_cons.mp hin with rfl | hin
            · exact hkept name (by rw [Dict.get?_set_self]; rfl)
            · exact hfound name ref hin hne hcanon

/-- The containers of a candidate: the other candidates whose branch is shown, is not the
integration branch and contains its commit. -/
theorem mem_containerNames {index : Dict String (List String)} {integrationRef : String}
    {integration : Option String} {c : κ} {outcome : CommandOutcome}
    (hindex : ∀ ref name, name ∈ index.getD ref [] ↔ git.Spells branches name ref)
    (hintegration : integrationCanon integrationRef git.refs = .ok integration)
    (href : ref ∈ git.refs) (hcommit : git.commit ref = some c)
    (hrun : git.run (containsCommand ref) = some outcome) :
    name ∈ containerNames index ref integration outcome.stdout ↔
      ∃ ref', git.Spells branches name ref' ∧ ref' ≠ ref ∧ git.Container integrationRef ref' ∧
        ∃ d, git.commit ref' = some d ∧ c ≤ d := by
  obtain ⟨detached, listed, hlisting, hdetached, hlisted⟩ :=
    git.branches_listed ref href c hcommit
  obtain rfl := Option.some.inj (hlisting.symm.trans hrun)
  have hlines : Text.lines (Text.unlines (detached ++ listed.map git.short)) =
      detached ++ listed.map git.short := by
    apply Text.lines_unlines
    intro line hline
    rcases mem_append.mp hline with hline | hline
    · exact (hdetached line hline).1
    · obtain ⟨branch, hbranch, rfl⟩ := mem_map.mp hline
      obtain ⟨hbranchMem, hlocal, -⟩ := (hlisted branch).mp hbranch
      exact (short_name hbranchMem hlocal).1.isLine
  have hmatched : ∀ line, name ∈ matched index ref integration line ↔
      ∃ ref', listingRef line = some ref' ∧ ref' ≠ ref ∧ integration ≠ some ref' ∧
        git.Spells branches name ref' := by
    intro line
    unfold matched
    cases hread : listingRef line with
    | none => simp
    | some ref' =>
      simp only [Option.some.injEq, exists_eq_left']
      by_cases hskip : ref' = ref ∨ integration = some ref'
      · rw [if_pos hskip]
        refine ⟨fun hin => absurd hin not_mem_nil, ?_⟩
        rintro ⟨hne, hint, -⟩
        exact absurd hskip (not_or.mpr ⟨hne, hint⟩)
      · rw [if_neg hskip, hindex]
        obtain ⟨hne, hint⟩ := not_or.mp hskip
        exact ⟨fun hspells => ⟨hne, hint, hspells⟩, fun hin => hin.2.2⟩
  unfold containerNames
  rw [mem_insertionSort, mem_dedup, hlines, mem_flatMap]
  constructor
  · rintro ⟨line, hline, hname⟩
    obtain ⟨ref', hread, hne, hint, hspells⟩ := (hmatched line).mp hname
    have hin : ref' ∈ git.refs := canonicalRef_mem hspells.2.2
    rcases mem_append.mp hline with hline | hline
    · exact absurd hin (listingRef_detached (hdetached line hline) hread)
    · obtain ⟨branch, hbranch, rfl⟩ := mem_map.mp hline
      obtain ⟨hbranchMem, hlocal, d, hd, hle⟩ := (hlisted branch).mp hbranch
      rcases listingRef_short hbranchMem hlocal with hself | hnot
      · obtain rfl := Option.some.inj (hself.symm.trans hread)
        refine ⟨branch, hspells, hne, ⟨⟨hin, hlocal, hself⟩, ?_⟩, d, hd, hle⟩
        rw [hintegration]
        exact fun heq => hint (Except.ok.inj heq)
      · exact absurd hin (hnot ref' hread)
  · rintro ⟨ref', hspells, hne, ⟨⟨hin, hlocal, hself⟩, hint⟩, d, hd, hle⟩
    refine ⟨git.short ref', mem_append_right _ (mem_map_of_mem ?_),
      (hmatched _).mpr ⟨ref', hself, hne, ?_, hspells⟩⟩
    · exact (hlisted ref').mpr ⟨hin, hlocal, d, hd, hle⟩
    · rintro rfl
      exact hint hintegration

/-- The map has the candidates that spell a ref, each with its containers. -/
structure IsContainmentMap (git : Git κ) (branches : List String) (integrationRef : String)
    (built : Dict String (List String)) : Prop where
  entry : ∀ name vals, (name, vals) ∈ built → (∃ ref, git.Spells branches name ref) ∧
    ∀ container, container ∈ vals ↔ git.ContainedBy branches integrationRef name container
  found : ∀ name ref, git.Spells branches name ref → (built.get? name).isSome

theorem containmentMap_spec {order : SetOrder} {integrationRef : String}
    {built : Dict String (List String)}
    (h : containmentMap order branches git.run integrationRef = .ok built)
    (hcommit : ∀ name ref, git.Spells branches name ref → (git.commit ref).isSome) :
    IsContainmentMap git branches integrationRef built := by
  unfold containmentMap at h
  simp only at h
  split at h
  · rename_i hnone
    obtain rfl := Except.ok.inj h
    refine ⟨by simp, fun name ref hspells => ?_⟩
    have hin : name ∈ (branches.filter (· ≠ "")).dedup := by
      simp [hspells.1, hspells.2.1]
    rw [hnone] at hin
    simp at hin
  have hrefs : refNamespace git.run = .ok git.refs.dedup := by
    unfold refNamespace
    simp only [git.refs_listed]
    rw [if_neg (by simp), Text.lines_unlines fun ref href => (git.refs_word ref href).isLine]
  rw [hrefs] at h
  obtain ⟨_, hrefsOk, h⟩ := bind_eq_ok.mp h
  obtain rfl := Except.ok.inj hrefsOk
  obtain ⟨index, hindex, h⟩ := bind_eq_ok.mp h
  have hbuckets : ∀ ref name, name ∈ index.getD ref [] ↔ git.Spells branches name ref := by
    intro ref name
    rw [mem_candidateIndex _ _ _ hindex ref name, (order.perm _).mem_iff, canonicalRef_dedup]
    simp only [Dict.getD, Dict.get?_nil, Option.getD_none, not_mem_nil, false_or,
      mem_dedup, mem_filter, decide_eq_true_eq, Git.Spells]
    exact ⟨fun hin => ⟨hin.1.1, hin.2⟩, fun hin => ⟨⟨hin.1, hin.2.1⟩, hin.2⟩⟩
  split at h
  · simp [bind, Except.bind] at h
  obtain ⟨integration, hintegration, h⟩ := bind_eq_ok.mp h
  rw [integrationCanon_dedup] at hintegration
  obtain ⟨hlisted, -, hfound⟩ := probe_spec _ _ _ h
  refine ⟨fun name vals hin => ?_, fun name ref hspells => ?_⟩
  · rcases hlisted name vals hin with hnil | ⟨hmem, hne, ref, outcome, hcanon, hrun, rfl⟩
    · simp at hnil
    rw [canonicalRef_dedup] at hcanon
    have hspells : git.Spells branches name ref := ⟨hmem, hne, hcanon⟩
    obtain ⟨c, hc⟩ := Option.isSome_iff_exists.mp (hcommit name ref hspells)
    refine ⟨⟨ref, hspells⟩, fun container => ?_⟩
    rw [mem_containerNames hbuckets hintegration (canonicalRef_mem hcanon) hc hrun]
    constructor
    · rintro ⟨ref', hspells', hne', hcontainer, d, hd, hle⟩
      exact ⟨ref, ref', c, d, hspells, hspells', hne', hcontainer, hc, hd, hle⟩
    · rintro ⟨ref₁, ref', c₁, d, hspells₁, hspells', hne', hcontainer, hc₁, hd, hle⟩
      obtain rfl := hspells.unique hspells₁
      obtain rfl := Option.some.inj (hc.symm.trans hc₁)
      exact ⟨ref', hspells', hne', hcontainer, d, hd, hle⟩
  · exact hfound name ref hspells.1 hspells.2.1 (by rw [canonicalRef_dedup]; exact hspells.2.2)

end

end Workbay.Ancestry

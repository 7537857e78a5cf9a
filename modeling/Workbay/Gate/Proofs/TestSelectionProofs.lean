import Workbay.Gate.TestSelection
import Mathlib.Data.List.Dedup

/-!
# What the selection of tests reaches

The selection reads the statements of the test files alone, and reads a relative one as if it had no
dots. It misses no affected test exactly when each of them is changed itself or names, as written,
the module of a changed file that is no test file.
-/

namespace Workbay.Gate

open List

open Manifest (startsWith endsWith components parts joinComponents initialSlashes)

theorem components_joinComponents {comps : List String} (hne : comps ≠ [])
    (h : ∀ comp ∈ comps, IsPart comp) : components (joinComponents comps) = comps := by
  have hslash : ∀ chars ∈ comps.map String.toList, '/' ∉ chars := by
    intro chars hchars
    obtain ⟨comp, hcomp, rfl⟩ := mem_map.mp hchars
    exact (h comp hcomp).2.2.2
  rw [components, joinComponents, String.toList_intercalate,
    show "/".toList = ['/'] from rfl, splitOn_intercalate '/' hslash (by simpa using hne),
    map_map]
  exact map_id'' (fun comp => String.ofList_toList) comps

theorem joinComponents_injective {xs ys : List String} (hx : xs ≠ []) (hy : ys ≠ [])
    (hxs : ∀ comp ∈ xs, IsPart comp) (hys : ∀ comp ∈ ys, IsPart comp)
    (h : joinComponents xs = joinComponents ys) : xs = ys := by
  rw [← components_joinComponents hx hxs, ← components_joinComponents hy hys, h]

theorem posix_injective {p q : PackagePath} (h : p.posix = q.posix) : p = q :=
  PackagePath.ext (joinComponents_injective p.nonempty q.nonempty p.isPart q.isPart h)

theorem initialSlashes_posix (p : PackagePath) : initialSlashes p.posix = 0 := by
  obtain ⟨comp, rest, hcomps⟩ := exists_cons_of_ne_nil p.nonempty
  have hpart := p.isPart comp (by rw [hcomps]; exact mem_cons_self)
  have hchars : comp.toList ≠ [] := fun hnil => hpart.1 (String.toList_eq_nil_iff.mp hnil)
  obtain ⟨c, chars, hc⟩ := exists_cons_of_ne_nil hchars
  have hslash : '/' ≠ c := by
    rintro rfl
    exact hpart.2.2.2 (by rw [hc]; exact mem_cons_self)
  have hposix : ∃ tail, p.posix.toList = c :: tail := by
    rw [PackagePath.posix, joinComponents, hcomps, String.toList_intercalate, map_cons, hc]
    cases rest with
    | nil => exact ⟨chars, by simp [List.intercalate]⟩
    | cons next rest => exact ⟨_, by simp [List.intercalate]; rfl⟩
  obtain ⟨tail, htail⟩ := hposix
  have hnot : startsWith p.posix "/" = false := by
    rw [startsWith, htail, decide_eq_false_iff_not, show "/".toList = ['/'] from rfl]
    exact fun hprefix => hslash (cons_prefix_cons.mp hprefix).1
  have hnot2 : startsWith p.posix "//" = false := by
    rw [startsWith, htail, decide_eq_false_iff_not, show "//".toList = ['/', '/'] from rfl]
    exact fun hprefix => hslash (cons_prefix_cons.mp hprefix).1
  simp [initialSlashes, hnot, hnot2]

theorem parts_posix (p : PackagePath) : parts p.posix = p.comps := by
  rw [parts, initialSlashes_posix, PackagePath.posix, components_joinComponents p.nonempty p.isPart]
  simp only [↓reduceIte]
  refine filter_eq_self.mpr fun comp hcomp => ?_
  have hpart := p.isPart comp hcomp
  exact decide_eq_true ⟨hpart.1, hpart.2.1⟩

theorem commandPath_injective {package : PackageTree} {executionCwd : Option AbsolutePath}
    {p q : PackagePath} (h : commandPath package executionCwd p = commandPath package executionCwd q) :
    p = q := by
  cases executionCwd with
  | none => exact posix_injective h
  | some cwd =>
    simp only [commandPath, rebasePath] at h
    split at h
    · exact posix_injective h
    · rw [joinUnder, joinUnder, if_pos (initialSlashes_posix p), if_pos (initialSlashes_posix q),
        parts_posix, parts_posix] at h
      have hpre : ∀ comp ∈ package.root.comps.drop cwd.comps.length, IsPart comp :=
        fun comp hcomp => package.root.isPart comp (mem_of_mem_drop hcomp)
      have happend := joinComponents_injective (by simp [p.nonempty]) (by simp [q.nonempty])
        (fun comp hcomp => (mem_append.mp hcomp).elim (hpre comp) (p.isPart comp))
        (fun comp hcomp => (mem_append.mp hcomp).elim (hpre comp) (q.isPart comp)) h
      exact PackagePath.ext (append_cancel_left happend)

/-- A test file names, as written, the module of a changed file that is no test file. -/
def NamesChanged (changed : List PackagePath) (f : SourceFile) : Prop :=
  ∃ p ∈ changed, isPytestTestFile p.posix = false ∧ ∃ module, pathToModule p.posix = some module ∧
    ∃ name ∈ importedNames f.statements, within name module = true

variable {package : PackageTree} {changed : List PackagePath}

theorem eq_of_path {f g : SourceFile} (hf : f ∈ package.testFiles) (hg : g ∈ package.testFiles)
    (h : f.path = g.path) : f = g :=
  inj_on_of_nodup_map package.nodup (mem_filter.mp hf).1 (mem_filter.mp hg).1 h

theorem testImportsAny_iff {f : SourceFile} :
    testImportsAny f (changedModules (changed.map PackagePath.posix)) = true ↔
      NamesChanged changed f := by
  simp only [testImportsAny, changedModules, any_eq_true, mem_filterMap, mem_filter,
    mem_map, Bool.not_eq_true']
  constructor
  · rintro ⟨module, ⟨path, ⟨⟨p, hp, rfl⟩, htest⟩, hmodule⟩, hname⟩
    exact ⟨p, hp, htest, module, hmodule, hname⟩
  · rintro ⟨p, hp, htest, module, hmodule, hname⟩
    exact ⟨module, ⟨p.posix, ⟨⟨p, hp, rfl⟩, htest⟩, hmodule⟩, hname⟩

theorem mem_reachablePytestPaths {path : String} :
    path ∈ reachablePytestPaths (changed.map PackagePath.posix) (some package) ↔
      (∃ p ∈ changed, isPytestTestFile p.posix = true ∧ p.posix = path) ∨
        ∃ f ∈ package.testFiles, NamesChanged changed f ∧ f.path.posix = path := by
  rw [reachablePytestPaths, mem_insertionSort, mem_dedup, mem_append]
  refine or_congr ?_ ?_
  · rw [mem_filter, mem_map]
    constructor
    · rintro ⟨⟨p, hp, rfl⟩, htest⟩
      exact ⟨p, hp, htest, rfl⟩
    · rintro ⟨p, hp, htest, rfl⟩
      exact ⟨⟨p, hp, rfl⟩, htest⟩
  · simp only [mem_map, mem_filter, testImportsAny_iff, and_assoc]

/-- The run that is selected is the whole suite: the configuration is changed, or there are tests to
select and the package is not under the directory of the command. -/
def RunsFull (package : PackageTree) (executionCwd : Option AbsolutePath)
    (changed : List PackagePath) : Prop :=
  (∃ p ∈ changed, isPytestConfig p.posix = true) ∨
    (∃ cwd, executionCwd = some cwd ∧ ¬ cwd.comps <+: package.root.comps) ∧
      ((∃ p ∈ changed, isPytestTestFile p.posix = true) ∨
        ∃ f ∈ package.testFiles, NamesChanged changed f)

theorem reachablePytestPaths_ne_nil :
    reachablePytestPaths (changed.map PackagePath.posix) (some package) ≠ [] ↔
      (∃ p ∈ changed, isPytestTestFile p.posix = true) ∨
        ∃ f ∈ package.testFiles, NamesChanged changed f := by
  rw [ne_eq, eq_nil_iff_forall_not_mem, not_forall]
  simp only [not_not, mem_reachablePytestPaths]
  constructor
  · rintro ⟨path, ⟨p, hp, htest, -⟩ | ⟨f, hf, hnames, -⟩⟩
    · exact .inl ⟨p, hp, htest⟩
    · exact .inr ⟨f, hf, hnames⟩
  · rintro (⟨p, hp, htest⟩ | ⟨f, hf, hnames⟩)
    · exact ⟨_, .inl ⟨p, hp, htest, rfl⟩⟩
    · exact ⟨_, .inr ⟨f, hf, hnames, rfl⟩⟩

variable {executionCwd : Option AbsolutePath}

theorem any_isPytestConfig :
    (changed.map PackagePath.posix).any isPytestConfig = true ↔
      ∃ p ∈ changed, isPytestConfig p.posix = true := by
  simp only [any_eq_true, mem_map]
  constructor
  · rintro ⟨path, ⟨p, hp, rfl⟩, hconfig⟩
    exact ⟨p, hp, hconfig⟩
  · rintro ⟨p, hp, hconfig⟩
    exact ⟨p.posix, ⟨p, hp, rfl⟩, hconfig⟩

theorem map_rebase (paths : List PackagePath)
    (h : ∀ cwd, executionCwd = some cwd → cwd.comps <+: package.root.comps) :
    rebasePathsToExecutionCwd (paths.map PackagePath.posix) (some package.root) executionCwd =
      some (paths.map (commandPath package executionCwd)) := by
  cases executionCwd with
  | none => rfl
  | some cwd =>
    rw [rebasePathsToExecutionCwd]
    simp only [h cwd rfl, ↓reduceIte, map_map]
    rfl

theorem exists_selected (package : PackageTree) (changed : List PackagePath) :
    ∃ files : List PackagePath,
      reachablePytestPaths (changed.map PackagePath.posix) (some package) =
        files.map PackagePath.posix := by
  have hmem : ∀ path ∈ reachablePytestPaths (changed.map PackagePath.posix) (some package),
      ∃ p : PackagePath, p.posix = path := by
    intro path hpath
    rcases mem_reachablePytestPaths.mp hpath with ⟨p, -, -, rfl⟩ | ⟨f, -, -, rfl⟩
    · exact ⟨p, rfl⟩
    · exact ⟨f.path, rfl⟩
  generalize reachablePytestPaths (changed.map PackagePath.posix) (some package) = paths at hmem ⊢
  induction paths with
  | nil => exact ⟨[], rfl⟩
  | cons path paths ih =>
    obtain ⟨p, rfl⟩ := hmem path mem_cons_self
    obtain ⟨files, rfl⟩ := ih fun path hpath => hmem path (mem_cons_of_mem _ hpath)
    exact ⟨p :: files, rfl⟩

theorem selectPytest_cases (package : PackageTree) (changed : List PackagePath)
    (executionCwd : Option AbsolutePath) :
    ((selectPytest (changed.map PackagePath.posix) (some package) executionCwd).mode = .full ∧
        RunsFull package executionCwd changed) ∨
      ((selectPytest (changed.map PackagePath.posix) (some package) executionCwd).mode ≠ .full ∧
        ¬ RunsFull package executionCwd changed ∧
        ∃ files : List PackagePath,
          (∀ p, p ∈ files.map PackagePath.posix ↔
            p ∈ reachablePytestPaths (changed.map PackagePath.posix) (some package)) ∧
          (selectPytest (changed.map PackagePath.posix) (some package) executionCwd).paths =
            files.map (commandPath package executionCwd)) := by
  rw [selectPytest]
  by_cases hconfig : (changed.map PackagePath.posix).any isPytestConfig = true
  · rw [if_pos hconfig]
    exact .inl ⟨rfl, .inl (any_isPytestConfig.mp hconfig)⟩
  rw [if_neg hconfig]
  rw [any_isPytestConfig] at hconfig
  obtain ⟨files, hfiles⟩ := exists_selected package changed
  by_cases hnil : reachablePytestPaths (changed.map PackagePath.posix) (some package) = []
  · rw [if_pos hnil]
    refine .inr ⟨by simp, ?_, [], by simp [hnil], rfl⟩
    rintro (h | ⟨-, h⟩)
    · exact hconfig h
    · exact reachablePytestPaths_ne_nil.mpr h hnil
  rw [if_neg hnil, hfiles, Option.map_some]
  by_cases hunder : ∀ cwd, executionCwd = some cwd → cwd.comps <+: package.root.comps
  · rw [map_rebase files hunder]
    refine .inr ⟨by simp, ?_, files, fun p => Iff.rfl, ?_⟩
    · rintro (h | ⟨⟨cwd, hcwd, houtside⟩, -⟩)
      · exact hconfig h
      · exact houtside (hunder cwd hcwd)
    · simp [MergeGateTestSelection.paths, pytestCommand]
  · obtain ⟨cwd, hcwd⟩ := not_forall.mp hunder
    obtain ⟨rfl, houtside⟩ := Classical.not_imp.mp hcwd
    left
    refine ⟨?_, .inr ⟨⟨cwd, rfl, houtside⟩, reachablePytestPaths_ne_nil.mp hnil⟩⟩
    simp [rebasePathsToExecutionCwd, houtside]

/-- The selection misses no test: a selection that is not the whole suite has every changed test
file and every test file that reaches the module of a changed file. -/
def MissesNoTest (package : PackageTree) (changed : List PackagePath)
    (executionCwd : Option AbsolutePath) : Prop :=
  (selectPytest (changed.map PackagePath.posix) (some package) executionCwd).mode ≠ .full →
    (∀ p ∈ changed, isPytestTestFile p.posix = true →
      commandPath package executionCwd p ∈
        (selectPytest (changed.map PackagePath.posix) (some package) executionCwd).paths) ∧
    ∀ f ∈ package.testFiles, Affected package changed f →
      commandPath package executionCwd f.path ∈
        (selectPytest (changed.map PackagePath.posix) (some package) executionCwd).paths

/-- The selection misses no test exactly when it is the whole suite or each affected test file is
changed itself or names the module of a changed file. -/
theorem selection_misses_no_test (package : PackageTree) (changed : List PackagePath)
    (executionCwd : Option AbsolutePath) :
    MissesNoTest package changed executionCwd ↔
      RunsFull package executionCwd changed ∨
        ∀ f ∈ package.testFiles, Affected package changed f →
          f.path ∈ changed ∨ NamesChanged changed f := by
  rw [MissesNoTest]
  rcases selectPytest_cases package changed executionCwd with
    ⟨hmode, hfull⟩ | ⟨hmode, hfull, files, hfiles, hpaths⟩
  · exact ⟨fun _ => .inl hfull, fun _ hne => absurd hmode hne⟩
  · have hselected : ∀ p, commandPath package executionCwd p ∈
        (selectPytest (changed.map PackagePath.posix) (some package) executionCwd).paths ↔
          p.posix ∈ reachablePytestPaths (changed.map PackagePath.posix) (some package) := by
      intro p
      rw [hpaths, ← hfiles, mem_map, mem_map]
      constructor
      · rintro ⟨q, hq, heq⟩
        exact ⟨q, hq, congrArg PackagePath.posix (commandPath_injective heq)⟩
      · rintro ⟨q, hq, heq⟩
        exact ⟨q, hq, congrArg _ (posix_injective heq)⟩
    simp only [hselected, mem_reachablePytestPaths, hfull, false_or]
    constructor
    · intro h f hf haffected
      rcases (h hmode).2 f hf haffected with ⟨p, hp, -, heq⟩ | ⟨g, hg, hnames, heq⟩
      · rw [← posix_injective heq]
        exact .inl hp
      · rw [← eq_of_path hg hf (posix_injective heq)]
        exact .inr hnames
    · intro h _
      refine ⟨fun p hp htest => .inl ⟨p, hp, htest, rfl⟩, fun f hf haffected => ?_⟩
      rcases h f hf haffected with hchanged | hnames
      · have htest : isPytestTestFile f.path.posix = true :=
          (Bool.and_eq_true_iff.mp (mem_filter.mp hf).2).2
        exact .inl ⟨f.path, hchanged, htest, rfl⟩
      · exact .inr ⟨f, hf, hnames, rfl⟩

/-- The change of a module of models. -/
def modelsPath : PackagePath := ⟨["app", "models.py"], by decide, by decide +kernel⟩

/-- The views import the models. -/
def viewsFile : SourceFile :=
  ⟨⟨["app", "views.py"], by decide, by decide +kernel⟩, [.importFrom 0 (some "app") ["models"]]⟩

/-- The test imports the views. -/
def viewsTest : SourceFile :=
  ⟨⟨["tests", "test_views.py"], by decide, by decide +kernel⟩, [.importNames ["app.views"]]⟩

/-- The test reaches the models through the views. -/
def layeredPackage : PackageTree where
  root := ⟨["repo"], by decide +kernel⟩
  files := [⟨modelsPath, []⟩, viewsFile, viewsTest]
  nodup := by decide +kernel

/-- A change that a test reaches through another module selects no test. -/
theorem layered_test_missed : ¬ ∀ package changed executionCwd,
    MissesNoTest package changed executionCwd := by
  intro h
  have hmode : (selectPytest ([modelsPath].map PackagePath.posix) (some layeredPackage) none).mode ≠
      .full := by decide +kernel
  have hpaths : (selectPytest ([modelsPath].map PackagePath.posix) (some layeredPackage)
      none).paths = [] := by decide +kernel
  have hviews : viewsFile.Imports "app.models" :=
    ⟨_, mem_singleton_self _, "app.models", by decide +kernel, by decide +kernel⟩
  have htest : viewsTest.Imports "app.views" :=
    ⟨_, mem_singleton_self _, "app.views", by decide +kernel, by decide +kernel⟩
  have haffected : Affected layeredPackage [modelsPath] viewsTest :=
    ⟨modelsPath, mem_singleton_self _, "app.models", by decide +kernel,
      Reaches.through htest (mem_cons_of_mem _ mem_cons_self) (by decide +kernel)
        (Reaches.direct hviews)⟩
  have hmem := (h layeredPackage [modelsPath] none hmode).2 viewsTest
    (mem_filter.mpr ⟨mem_cons_of_mem _ (mem_cons_of_mem _ mem_cons_self),
      by decide +kernel⟩) haffected
  rw [hpaths] at hmem
  exact not_mem_nil hmem

end Workbay.Gate

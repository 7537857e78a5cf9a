import Workbay.Manifest.Paths
import Mathlib.Data.List.Infix
import Mathlib.Data.List.Sort

/-!
# Tests of the merge gate

The merge gate runs the tests that a change can affect. The selection for `pytest` reads the import
statements of the test files of a package; what it should reach is the closure of these statements
over the package.
-/

namespace Workbay.Gate

open Manifest (startsWith endsWith components parts joinComponents initialSlashes)

/-! ## Names of files and modules -/

variable (path : String)

/-- `Path(path).name` -/
def fileName : String :=
  ((components path).filter fun part => part ≠ "" ∧ part ≠ ".").getLastD ""

/-- Take leading `./` away. -/
def dropDotSlash : List Char → List Char
  | '.' :: '/' :: rest => dropDotSlash rest
  | chars => chars

/-- `_normalize_path` -/
def normalizePath : String :=
  String.ofList (dropDotSlash (path.toList.map fun c => if c = '\\' then '/' else c))

/-- `_PYTEST_CONFIG_BASENAMES` -/
def pytestConfigBasenames : List String := ["conftest.py", "pyproject.toml", "pytest.ini"]

/-- `_is_pytest_config` -/
def isPytestConfig : Bool := fileName path ∈ pytestConfigBasenames

/-- `path.strip("/")` between two slashes. -/
def slashed : List Char :=
  '/' :: (path.toList.dropWhile (· = '/')).rdropWhile (· = '/') ++ ['/']

/-- `_is_pytest_test_file` -/
def isPytestTestFile : Bool :=
  if fileName path ∈ pytestConfigBasenames then false
  else if !endsWith (fileName path) ".py" then false
  else if startsWith (fileName path) "test_" || endsWith (fileName path) "_test.py" then true
  else decide ("/tests/".toList <:+: slashed path)

/-- `text.removesuffix(suffix)` -/
def withoutSuffix (text suffix : String) : String :=
  if endsWith text suffix then String.ofList (text.toList.rdrop suffix.length) else text

/-- A leading `src` is no part of a module. -/
def underSrc (comps : List String) : List String :=
  if comps.head? = some "src" then comps.tail else comps

/-- A leading `packages/<name>/src` is no part of a module. -/
def underPackages (comps : List String) : List String :=
  if comps.head? = some "packages" ∧ comps[2]? = some "src" then comps.drop 3 else comps

/-- The parts of the name of the module in a file. -/
def moduleParts : List String :=
  underPackages (underSrc ((components (withoutSuffix (withoutSuffix (normalizePath path) ".py")
    "/__init__")).filter fun part => part ≠ "" ∧ part ≠ "." ∧ part ≠ ".."))

/-- `_path_to_module` -/
def pathToModule : Option String :=
  if !endsWith (normalizePath path) ".py" then none
  else if moduleParts path = [] then none
  else some (".".intercalate (moduleParts path))

/-! ## Files and their imports -/

/-- An import statement: `import a.b, c`, or `from ..a import b, c` with the number of its dots and
the module behind them. -/
inductive ImportStatement where
  | importNames (names : List String)
  | importFrom (level : Nat) (module : Option String) (names : List String)

/-- A part of a path: it names a file or a directory. -/
def IsPart (part : String) : Prop := part ≠ "" ∧ part ≠ "." ∧ part ≠ ".." ∧ '/' ∉ part.toList

instance (part : String) : Decidable (IsPart part) :=
  inferInstanceAs (Decidable (part ≠ "" ∧ part ≠ "." ∧ part ≠ ".." ∧ '/' ∉ part.toList))

/-- The path of a file in a package. -/
@[ext] structure PackagePath where
  comps : List String
  nonempty : comps ≠ []
  isPart : ∀ comp ∈ comps, IsPart comp
deriving DecidableEq

/-- The path as text. -/
def PackagePath.posix (p : PackagePath) : String := joinComponents p.comps

/-- An absolute path without its root. -/
structure AbsolutePath where
  comps : List String
  isPart : ∀ comp ∈ comps, IsPart comp

/-- A file with the import statements in it; one that cannot be parsed has none. -/
structure SourceFile where
  path : PackagePath
  statements : List ImportStatement

/-- A package: where it is and its files. -/
structure PackageTree where
  root : AbsolutePath
  files : List SourceFile
  nodup : (files.map SourceFile.path).Nodup

variable (f : SourceFile)

/-- What `(root / "tests").rglob("*.py")` finds. -/
def SourceFile.underTests : Bool :=
  f.path.comps.head? = some "tests" && 2 ≤ f.path.comps.length &&
    endsWith (fileName f.path.posix) ".py"

/-- `_imported_names` -/
def importedNames (statements : List ImportStatement) : List String :=
  statements.flatMap fun statement =>
    match statement with
    | .importNames names => names
    | .importFrom _ none _ => []
    | .importFrom _ (some module) names =>
      if module = "" then []
      else module :: (names.filter (· ≠ "*")).map fun name => module ++ "." ++ name

/-- A name is that of a module, or of something in it. -/
def within (name module : String) : Bool := name = module || startsWith name (module ++ ".")

/-- `_test_imports_any` -/
def testImportsAny (modules : List String) : Bool :=
  modules.any fun module => (importedNames f.statements).any fun name => within name module

/-! ## The selection -/

variable (changedPaths : List String)

/-- The modules of the changed files that are no test files. -/
def changedModules : List String :=
  (changedPaths.filter fun path => !isPytestTestFile path).filterMap pathToModule

/-- The test files of the package. -/
def PackageTree.testFiles (package : PackageTree) : List SourceFile :=
  package.files.filter fun f => f.underTests && isPytestTestFile f.path.posix

/-- `_reachable_pytest_paths` -/
def reachablePytestPaths (package : Option PackageTree) :
    List String :=
  (changedPaths.filter isPytestTestFile ++
    match package with
    | none => []
    | some package =>
      (package.testFiles.filter fun f => testImportsAny f (changedModules changedPaths)).map
        fun f => f.path.posix).dedup.insertionSort (· ≤ ·)

/-- `(prefix / path).as_posix()` -/
def joinUnder (pre : List String) (path : String) : String :=
  if initialSlashes path = 0 then joinComponents (pre ++ parts path)
  else String.ofList (List.replicate (initialSlashes path) '/') ++ joinComponents (parts path).tail

/-- A path of the package, from the directory of the command. -/
def rebasePath (package cwd : AbsolutePath) (path : String) : String :=
  if package.comps = cwd.comps then path
  else joinUnder (package.comps.drop cwd.comps.length) path

/-- `_rebase_paths_to_execution_cwd` -/
def rebasePathsToExecutionCwd (paths : List String) (packageRoot executionCwd : Option AbsolutePath) :
    Option (List String) :=
  match packageRoot, executionCwd with
  | some package, some cwd =>
    if cwd.comps <+: package.comps then some (paths.map (rebasePath package cwd)) else none
  | _, _ => some paths

inductive MergeGateMode where
  | delta
  | full
  | none
deriving DecidableEq

/-- A selection; the command is the list of its words. -/
structure MergeGateTestSelection where
  mode : MergeGateMode
  command : Option (List String)
  reason : String
  packageRoot : Option AbsolutePath := none

/-- `_full_command("pytest")` -/
def pytestCommand : List String := ["python", "-m", "pytest"]

/-- `_select_pytest` -/
def selectPytest (package : Option PackageTree)
    (executionCwd : Option AbsolutePath) : MergeGateTestSelection :=
  if changedPaths.any isPytestConfig then
    { mode := .full, command := some pytestCommand, reason := "config_changed" }
  else if reachablePytestPaths changedPaths package = [] then
    { mode := .none, command := none, reason := "no_reachable_tests" }
  else
    match rebasePathsToExecutionCwd (reachablePytestPaths changedPaths package)
      (package.map PackageTree.root) executionCwd with
    | none =>
      { mode := .full, command := some pytestCommand, reason := "changed_path_unmapped" }
    | some commandPaths =>
      { mode := .delta, command := some (pytestCommand ++ commandPaths),
        reason := "integration_delta", packageRoot := package.map PackageTree.root }

/-- The paths of the command of a selection. -/
def MergeGateTestSelection.paths (selection : MergeGateTestSelection) : List String :=
  (selection.command.getD []).drop pytestCommand.length

/-! ## What a change affects -/

/-- The package that the file is in: its own module, if it is `__init__.py`, or the one above. -/
def SourceFile.packageParts : List String :=
  if f.path.comps.getLast? = some "__init__.py" then moduleParts f.path.posix
  else (moduleParts f.path.posix).dropLast

/-- The module that a `from` statement starts at: as written, or counted from the package of the
file, of which a statement with too many dots leaves nothing. -/
def SourceFile.base : Nat → Option String → Option String
  | 0, module => module
  | up + 1, module =>
    if up < f.packageParts.length then
      some (".".intercalate (f.packageParts.take (f.packageParts.length - up) ++ module.toList))
    else none

/-- The full names that a statement of a file asks for. -/
def SourceFile.fullNames : ImportStatement → List String
  | .importNames names => names
  | .importFrom level module names =>
    (f.base level module).toList.flatMap fun base =>
      base :: (names.filter (· ≠ "*")).map fun name => base ++ "." ++ name

/-- A file imports a module: one of its statements asks for it or for something in it. -/
def SourceFile.Imports (module : String) : Prop :=
  ∃ statement ∈ f.statements, ∃ name ∈ f.fullNames statement, within name module = true

/-- A module is reachable from a file of the package by its import statements, directly or through
other modules. -/
inductive Reaches (package : PackageTree) : SourceFile → String → Prop
  | direct {f : SourceFile} {module : String} (h : f.Imports module) : Reaches package f module
  | through {f g : SourceFile} {between module : String} (h : f.Imports between)
      (hg : g ∈ package.files) (hmodule : pathToModule g.path.posix = some between)
      (hreach : Reaches package g module) : Reaches package f module

/-- A file reaches the module of a changed file. -/
def Affected (package : PackageTree) (changed : List PackagePath) (f : SourceFile) : Prop :=
  ∃ p ∈ changed, ∃ module, pathToModule p.posix = some module ∧ Reaches package f module

/-- The path of a file as the command of a selection gives it. -/
def commandPath (package : PackageTree) (executionCwd : Option AbsolutePath) (path : PackagePath) :
    String :=
  match executionCwd with
  | none => path.posix
  | some cwd => rebasePath package.root cwd path.posix

end Workbay.Gate

import Workbay.Data.Text

/-!
# Edits of protected paths

The guard of a protected branch reads the paths that an edit touches from the input of its tool, and
asks of each whether it is a protected path of the checkout. The paths of a patch are read from the
headers of its sections.
-/

namespace Workbay.Guard

/-! ## The paths of an edit -/

/-- The text before the first separator and the text behind it. -/
def splitOnce (separator : List Char) : List Char → Option (List Char × List Char)
  | [] => none
  | c :: rest =>
    if separator.isPrefixOf (c :: rest) then some ([], (c :: rest).drop separator.length)
    else (splitOnce separator rest).map fun parts => (c :: parts.1, parts.2)

/-- `text.split(separator, 1)[0]` -/
def beforeFirst (separator text : List Char) : List Char :=
  ((splitOnce separator text).map Prod.fst).getD text

/-- The lines of a text as `str.splitlines` cuts them, but for empty ones. -/
def splitLines (text : List Char) : List (List Char) :=
  (text.splitOnP Text.isLineBreak).filter (· ≠ [])

/-- The path of a line that looks like a header. -/
def headerPath (line : List Char) : Option String :=
  if "*** ".toList.isPrefixOf line then
    match splitOnce " File: ".toList line with
    | none => none
    | some parts =>
      (some (Text.strip (String.ofList (beforeFirst " -> ".toList parts.2)))).filter (· ≠ "")
  else none

/-- The loop of `extract_candidate_paths` over the lines of a patch. -/
def patchPaths (patch : String) : List String := (splitLines patch.toList).filterMap headerPath

/-- `_EDIT_TOOLS` -/
def editTools : List String :=
  ["Edit", "Write", "apply_patch", "create_file", "multi_replace_string_in_file",
    "replace_string_in_file"]

/-- The input of a tool: its file path and its patch, where they are texts. -/
structure ToolInput where
  filePath : Option String
  input : Option String

/-- `extract_candidate_paths` -/
def extractCandidatePaths (toolName : String) (toolInput : ToolInput) : List String :=
  if toolName ≠ "apply_patch" then
    let filePath := toolInput.filePath.filter fun path => Text.strip path ≠ ""
    if toolName ∉ editTools ∧ filePath = none then [] else filePath.toList
  else
    match toolInput.input with
    | none => []
    | some patch => if Text.strip patch = "" then [] else patchPaths patch

/-! ## The check -/

/-- The characters of a text without quotes at its ends. -/
def stripQuotes (text : List Char) : List Char :=
  (text.dropWhile (· ∈ ['\'', '"'])).rdropWhile (· ∈ ['\'', '"'])

/-- `normalize_path_token` -/
def normalizePathToken (path : String) : String :=
  String.ofList (stripQuotes (Text.strip path).toList)

/-- What the check asks of the checkout: where a path leads under its root, if it does; whether a
path that does not is the root in another spelling; the policy; and the branch of the working tree
that holds a path. -/
structure Checkout where
  repoRoot : String
  resolveRelative : String → Option String
  identifiesRepoRoot : String → Bool
  isProtectedPath : String → Bool
  resolvePathBranch : String → Option String

variable (c : Checkout)

/-- A path that is resolved already leads to itself. -/
def Checkout.Resolved : Prop :=
  ∀ path rel, c.resolveRelative path = some rel → c.resolveRelative rel = some rel

/-- `to_repo_relative` -/
def Checkout.toRepoRelative (path : String) : Option String :=
  if normalizePathToken path = "" ∨ c.repoRoot = "" then some ""
  else c.resolveRelative (normalizePathToken path)

/-- The text by which a path is reported. -/
def pathToken (path : String) : String :=
  if normalizePathToken path = "" then path else normalizePathToken path

/-- The branch of a path, or the branch of the session. -/
def Checkout.effectiveBranch (branch path : String) : String :=
  ((c.resolvePathBranch (pathToken path)).filter (· ≠ "")).getD branch

/-- Where the loop of `check_file_edit` is. -/
structure EditLoop where
  blocked : List String := []
  seen : List String := []

/-- One round of the loop of `check_file_edit`. -/
def checkPath (branch : String) (protectedBranches : List String) (w : EditLoop)
    (rawPath : String) : EditLoop :=
  match c.toRepoRelative rawPath with
  | none =>
    if pathToken rawPath ∈ w.seen then w
    else if c.identifiesRepoRoot (pathToken rawPath) then
      ⟨w.blocked ++ [pathToken rawPath], w.seen ++ [pathToken rawPath]⟩
    else { w with seen := w.seen ++ [pathToken rawPath] }
  | some relative =>
    if relative = "" ∨ relative ∈ w.seen then w
    else if c.isProtectedPath relative ∧ c.effectiveBranch branch rawPath ∈ protectedBranches then
      ⟨w.blocked ++ [relative], w.seen ++ [relative]⟩
    else { w with seen := w.seen ++ [relative] }

/-- `check_file_edit` -/
def checkFileEdit (branch : String) (protectedBranches : List String)
    (toolName : String) (toolInput : ToolInput) : Option (String × List String) :=
  if branch ∉ protectedBranches then none
  else
    let w := (extractCandidatePaths toolName toolInput).foldl
      (checkPath c branch protectedBranches) {}
    if w.blocked = [] then none else some (branch, w.blocked)

/-! ## Patches -/

/-- What a section does to its file. -/
inductive SectionKind where
  | add
  | update
  | delete
deriving DecidableEq

/-- The words of a header. -/
def SectionKind.word : SectionKind → String
  | .add => "Add"
  | .update => "Update"
  | .delete => "Delete"

/-- A section of a patch: the text of its header behind `File: `, a line that moves the file, and
the lines that change it. -/
structure PatchSection where
  kind : SectionKind
  target : String
  moveTo : Option String := none
  body : List String := []

/-- The header of a section. -/
def PatchSection.header (s : PatchSection) : String :=
  "*** " ++ s.kind.word ++ " File: " ++ s.target

variable (s : PatchSection)

/-- The lines of a section behind its header. -/
def PatchSection.rest : List String :=
  (s.moveTo.map fun path => "*** Move to: " ++ path).toList ++ s.body

/-- The file that a section changes. -/
def PatchSection.path : String :=
  String.ofList (beforeFirst " -> ".toList s.target.toList)

/-- The paths that a section moves its file to. -/
def PatchSection.destinations : List String :=
  ((splitOnce " -> ".toList s.target.toList).map fun parts => String.ofList parts.2).toList ++
    s.moveTo.toList

/-- The paths that applying a section creates, changes, deletes or moves to. -/
def PatchSection.touched : List String := s.path :: s.destinations

/-- The lines of a patch. -/
def patchLines (sections : List PatchSection) : List String :=
  "*** Begin Patch" :: sections.flatMap (fun s => s.header :: s.rest) ++ ["*** End Patch"]

/-- The text of a patch. -/
def patchText (sections : List PatchSection) : String :=
  String.ofList (List.intercalate ['\n'] ((patchLines sections).map String.toList))

end Workbay.Guard

import Workbay.Data.Text
import Mathlib.Data.String.Basic

/-!
# Paths of a manifest

The lexical treatment of owned paths and of extra write paths. Nothing here looks at a file system;
what depends on the machine is a `Host`.
-/

namespace Workbay.Manifest

/-- What the checks take from the machine. -/
structure Host where
  /-- `datetime.fromisoformat` reads the text, with an offset of zero from UTC. -/
  isUtcStamp : String → Bool
  /-- `str.casefold` -/
  casefold : String → String
  /-- `os.path.expanduser("~")` -/
  home : String

/-! ## `posixpath` and `pathlib` -/

/-- `str.startswith` -/
def startsWith (text pre : String) : Bool := decide (pre.toList <+: text.toList)

/-- `str.endswith` -/
def endsWith (text suffix : String) : Bool := decide (suffix.toList <:+ text.toList)

variable (text : String)

/-- `text.split("/")` -/
def components : List String := (text.toList.splitOn '/').map String.ofList

/-- `"/".join(comps)` -/
def joinComponents (comps : List String) : String := "/".intercalate comps

/-- How many slashes `posixpath` keeps in front: two, if there are exactly two. -/
def initialSlashes : Nat :=
  if startsWith text "//" && !startsWith text "///" then 2 else if startsWith text "/" then 1 else 0

/-- One component of `posixpath.normpath`; `kept` has the last one first. -/
def normStep (slashes : Nat) (kept : List String) (comp : String) : List String :=
  if comp = "" ∨ comp = "." then kept
  else if comp ≠ ".." ∨ (slashes = 0 ∧ kept = []) ∨ kept.head? = some ".." then comp :: kept
  else kept.tail

/-- `posixpath.normpath` -/
def normpath : String :=
  let slashes := initialSlashes text
  let kept := ((components text).foldl (normStep slashes) []).reverse
  let result := String.ofList (List.replicate slashes '/') ++ joinComponents kept
  if result = "" then "." else result

/-- `Path(text).parts`: the root, if there is one, and the components that name something. -/
def parts : List String :=
  let slashes := initialSlashes text
  let named := (components text).filter fun comp => comp ≠ "" ∧ comp ≠ "."
  if slashes = 0 then named else String.ofList (List.replicate slashes '/') :: named

/-! ## Owned paths -/

/-- Why an owned path is refused. -/
inductive OwnedPathError where
  | driveAbsolute
  | absolute
  | escapes
  | collapses
  | notRelative
deriving DecidableEq

/-- `^[A-Za-z]:(/|$)` -/
def isDriveAbsolute (chars : List Char) : Bool :=
  match chars with
  | c :: ':' :: rest =>
    decide (('A' ≤ c ∧ c ≤ 'Z') ∨ ('a' ≤ c ∧ c ≤ 'z')) && (rest = [] || rest.head? = some '/')
  | _ => false

/-- The path leads out of the directory that it starts in. -/
def isEscape : Bool := text = ".." || startsWith text "../"

/-- Take trailing slashes and trailing `/**` and `/*` away. -/
def stripGlobs : Nat → List Char → List Char
  | 0, chars => chars
  | fuel + 1, chars =>
    let stripped := chars.rdropWhile (· = '/')
    if ['/', '*', '*'] <:+ stripped then stripGlobs fuel (stripped.rdrop 3)
    else if ['/', '*'] <:+ stripped then stripGlobs fuel (stripped.rdrop 2)
    else stripped

/-- `_normalize_owned_path`: the lexical root of an owned path. -/
def normalizeOwnedPath (path : String) : Except OwnedPathError String :=
  let trimmed := Text.strip path
  if trimmed = "" then .ok ""
  else
    let value := trimmed.toList.map fun c => if c = '\\' then '/' else c
    let text := String.ofList value
    if isDriveAbsolute value then .error .driveAbsolute
    else if startsWith text "/" then .error .absolute
    else if isEscape (normpath text) then .error .escapes
    else
      let root := String.ofList (stripGlobs (value.length + 1) value)
      if root = "" then .ok ""
      else
        let normalized := normpath root
        if normalized = "." then
          if ".." ∈ components root then .error .collapses else .ok ""
        else if startsWith normalized "/" || isEscape normalized then .error .notRelative
        else .ok normalized

/-- `_is_review_scratch_path` -/
def isReviewScratchPath (path : String) : Bool := path = ".review" || startsWith path ".review/"

/-- `_owned_path_roots_overlap`: two roots collide on `/` boundaries. -/
def ownedPathRootsOverlap (left right : String) : Bool :=
  if isReviewScratchPath left || isReviewScratchPath right then false
  else if left = "" ∨ right = "" then true
  else if left = right then true
  else startsWith left (right ++ "/") || startsWith right (left ++ "/")

/-! ## Extra write paths -/

/-- `_FORBIDDEN_EXTRA_PATH_SUBTREES` -/
def forbiddenExtraPathSubtrees : List String :=
  ["/applications", "/bin", "/dev", "/etc", "/lib", "/library", "/opt/homebrew", "/proc", "/root",
    "/sbin", "/sys", "/system", "/usr", "/var/root"]

/-- `_FORBIDDEN_EXACT_EXTRA_PATHS` -/
def forbiddenExactExtraPaths : List String := ["/var/tmp", "/var/folders"]

/-- `_HOME_ROOT_PREFIXES` -/
def homeRootPrefixes : List String := ["/users", "/home"]

/-- `normalize_absolute_extra_path` -/
def normalizeAbsoluteExtraPath (host : Host) (entry : String) : String :=
  let normalized := host.casefold (normpath (Text.strip entry))
  if normalized = "/private" ∨ startsWith normalized "/private/" then
    let rest := String.ofList (normalized.toList.drop "/private".length)
    if rest = "" then "/" else rest
  else normalized

/-- `extra_write_path_too_broad` -/
def extraWritePathTooBroad (host : Host) (entry : String) : Bool :=
  let normalized := normalizeAbsoluteExtraPath host entry
  let depth := (parts normalized).length - 1
  let home := normalizeAbsoluteExtraPath host host.home
  if depth ≤ 1 then true
  else if normalized ∈ forbiddenExactExtraPaths then true
  else if forbiddenExtraPathSubtrees.any fun root =>
    normalized = root || startsWith normalized (root ++ "/") then true
  else if home ≠ "/" ∧ normalized = home then true
  else depth = 2 && homeRootPrefixes.contains ("/" ++ (parts normalized).getD 1 "")

example : normalizeOwnedPath " packages//shared/./**/ " = .ok "packages/shared" := by
  decide +kernel

example : normalizeOwnedPath "a/../.." = .error .escapes := by decide +kernel

end Workbay.Manifest

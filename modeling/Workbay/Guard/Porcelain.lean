import Workbay.Data.FsPath
import Mathlib.Data.List.SplitOn
import Mathlib.Data.List.DropRight

/-!
# Dirty paths from git

`git status --porcelain=v1 -z` writes one entry for each path: two characters of status, a space and
the path, ended by NUL; after a rename or a copy the path of the source follows, ended by NUL too.
Whether a field is an entry or a source is told by the status before it alone.
-/

namespace Workbay.Guard

/-- How the output is read: the number of a unit of it, its text, and the length below which an
entry is skipped. -/
structure Reader (α : Type) where
  unit : α → Nat
  decode : List α → List Nat
  shortest : Nat

/-- Output in bytes. -/
def bytesReader : Reader UInt8 where
  unit := UInt8.toNat
  decode := FsPath.fsdecode
  shortest := 3

/-- Output that is text already. -/
def textReader : Reader Nat where
  unit := id
  decode := id
  shortest := 0

/-- `R` or `C`. -/
def isRename (status : Nat) : Bool := status = 0x52 || status = 0x43

/-- `path.replace("\\", "/").lstrip("/").rstrip("/")` -/
def normalizeSlashes (path : List Nat) : List Nat :=
  ((path.map fun c => if c = 0x5C then 0x2F else c).dropWhile (· = 0x2F)).rdropWhile (· = 0x2F)

/-- A path is kept if it is not empty. -/
def keepPath (path : List Nat) : List (List Nat) := if path = [] then [] else [path]

variable {α : Type}

/-- The loop of `_parse_porcelain_z_paths`; the flag says that the next field is a source. -/
def parseFields (r : Reader α) : Bool → List (List α) → List (List Nat)
  | _, [] => []
  | true, renamed :: rest => keepPath (normalizeSlashes (r.decode renamed)) ++ parseFields r false rest
  | false, entry :: rest =>
    if entry = [] ∨ entry.length < r.shortest then parseFields r false rest
    else keepPath (normalizeSlashes (r.decode (entry.drop 3))) ++
      parseFields r (entry.head?.any fun x => isRename (r.unit x)) rest

/-- The fields of an output. -/
def splitFields (r : Reader α) (stdout : List α) : List (List α) :=
  stdout.splitOnP fun x => r.unit x = 0

/-- What git has written, in bytes or as text. -/
inductive Stdout where
  | bytes (stdout : List UInt8)
  | text (stdout : List Nat)

/-- `_parse_porcelain_z_paths` -/
def parsePorcelainZPaths : Stdout → List (List Nat)
  | .bytes stdout => parseFields bytesReader false (splitFields bytesReader stdout)
  | .text stdout => parseFields textReader false (splitFields textReader stdout)

/-! ## What git writes -/

/-- An entry of the output: its status, its path and the path of its source. -/
structure StatusEntry (α : Type) where
  index : α
  worktree : α
  path : List α
  source : Option (List α)

/-- The fields of an entry. -/
def StatusEntry.fields (space : α) (e : StatusEntry α) : List (List α) :=
  (e.index :: e.worktree :: space :: e.path) :: e.source.toList

/-- The output for entries: every field is ended by NUL. -/
def porcelain (space nul : α) (entries : List (StatusEntry α)) : List α :=
  (entries.flatMap fun e => e.fields space).flatMap fun field => field ++ [nul]

/-- The paths of an entry. -/
def StatusEntry.paths (r : Reader α) (e : StatusEntry α) : List (List Nat) :=
  r.decode e.path :: e.source.toList.map r.decode

/-- A path as git writes it: it is not empty, has no NUL and no backslash, and no slash at its
ends. -/
structure CleanPath (r : Reader α) (path : List α) : Prop where
  nonempty : path ≠ []
  units : ∀ x ∈ path, r.unit x ≠ 0 ∧ r.unit x ≠ 0x5C
  head : ∀ x ∈ path.head?, r.unit x ≠ 0x2F
  last : ∀ x ∈ path.getLast?, r.unit x ≠ 0x2F

/-- An entry as git writes it: a source follows when either character of the status is a rename. -/
structure CleanEntry (r : Reader α) (e : StatusEntry α) : Prop where
  status : r.unit e.index ≠ 0 ∧ r.unit e.worktree ≠ 0
  path : CleanPath r e.path
  source : ∀ s ∈ e.source, CleanPath r s
  renames : e.source.isSome = (isRename (r.unit e.index) || isRename (r.unit e.worktree))

end Workbay.Guard

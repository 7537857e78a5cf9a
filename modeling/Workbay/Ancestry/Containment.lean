import Mathlib.Data.List.Dedup
import Mathlib.Data.List.Sort
import Workbay.Data.Text
import Workbay.Graph.StronglyConnected

/-!
# Containment of branches

For every candidate one listing of the local branches that contain it, read as a graph over the
spellings of the candidates, and the analysis of that graph into same-commit ties.
-/

namespace Workbay.Ancestry

open Workbay.Graph

/-- How the view refuses. -/
inductive AncestryError where
  /-- `AncestryCycleError`, with the members of the cycle. -/
  | cycle (members : List String)
  /-- A runner gave something that is not a `CommandOutcome`. -/
  | notAnOutcome
  /-- The listing of the namespace failed. -/
  | namespaceFailed (exitCode : Int)
  /-- The listing for a branch failed. -/
  | containmentFailed (branch : String) (exitCode : Int)
  /-- A spelling with more than one match. -/
  | ambiguous (name : String) (refs : List String)
  /-- No candidate has a canonical ref. -/
  | unresolved
  /-- The search for components ran out of fuel. -/
  | exhausted
deriving DecidableEq

/-- Observable listing result. A non-zero exit code is failure, not emptiness. -/
structure CommandOutcome where
  stdout : String
  exitCode : Int := 0

/-- The answer to a command, or nothing if it is not a `CommandOutcome`. -/
abbrev CommandRunner := List String → Option CommandOutcome

/-- The order in which a set is iterated. -/
structure SetOrder where
  iter : List String → List String
  perm : ∀ members, (iter members).Perm members

/-! ## Canonical refs -/

/-- `_REV_PARSE_RULES`: what stands before and after a spelling. -/
def revParseRules : List (String × String) :=
  [("", ""), ("refs/", ""), ("refs/tags/", ""), ("refs/heads/", ""), ("refs/remotes/", ""),
    ("refs/remotes/", "/HEAD")]

/-- What the rules make of a spelling, in their order. -/
def revParse (text : String) : List String :=
  revParseRules.map fun (before, after) => before ++ text ++ after

/-- `_ref_namespace` -/
def refNamespace (run : CommandRunner) : Except AncestryError (List String) :=
  match run ["git", "for-each-ref", "--format=%(refname)"] with
  | none => .error .notAnOutcome
  | some outcome =>
    if outcome.exitCode ≠ 0 then .error (.namespaceFailed outcome.exitCode)
    else .ok (Text.lines outcome.stdout).dedup

/-- `_canonical_ref`: the one ref that a spelling denotes, if any. -/
def canonicalRef (name : String) (refs : List String) : Except AncestryError (Option String) :=
  let text := Text.strip name
  if text = "" then .ok none
  else
    let found := (revParse text).filter (· ∈ refs)
    if 1 < found.length then .error (.ambiguous name (found.insertionSort (· ≤ ·)))
    else .ok found.head?

/-- A text without a prefix, if it has it. -/
def dropPrefix? (pre text : String) : Option String :=
  if pre.toList <+: text.toList then some (String.ofList (text.toList.drop pre.toList.length))
  else none

/-- `_listing_ref`: a line of the listing denotes a local branch. -/
def listingRef (name : String) : Option String :=
  let text := Text.strip name
  if text = "" then none
  else if (dropPrefix? "refs/" text).isSome then
    let parts := text.toList.splitOn '/'
    if parts.length < 3 ∨ parts.getLast? = some [] then none else some text
  else match dropPrefix? "heads/" text with
    | some rest => if rest = "" then none else some ("refs/heads/" ++ rest)
    | none => some ("refs/heads/" ++ text)

/-- `_candidate_index`: the spellings of every resolved ref. -/
def candidateIndex (refs : List String) :
    List String → Dict String (List String) → Except AncestryError (Dict String (List String))
  | [], index => .ok index
  | name :: names, index =>
    if name = "" then candidateIndex refs names index
    else match canonicalRef name refs with
      | .error error => .error error
      | .ok none => candidateIndex refs names index
      | .ok (some canon) =>
        let bucket := index.getD canon []
        candidateIndex refs names
          (index.set canon (if name ∈ bucket then bucket else bucket ++ [name]))

/-! ## The containment map -/

/-- `_DEFAULT_INTEGRATION_REF` -/
def defaultIntegrationRef : String := "main"

/-- The canonical ref of the integration branch, which no listing keeps. -/
def integrationCanon (integrationRef : String) (refs : List String) :
    Except AncestryError (Option String) :=
  if integrationRef = "" then .ok none
  else if integrationRef = defaultIntegrationRef then
    canonicalRef ("refs/heads/" ++ defaultIntegrationRef) refs
  else canonicalRef integrationRef refs

/-- The candidates that one listed line stands for, in the listing of `branchCanon`. -/
def matched (index : Dict String (List String)) (branchCanon : String) (integration : Option String)
    (line : String) : List String :=
  match listingRef line with
  | none => []
  | some listingCanon =>
    if listingCanon = branchCanon ∨ integration = some listingCanon then []
    else index.getD listingCanon []

/-- The candidates that contain `branchCanon`, sorted. -/
def containerNames (index : Dict String (List String)) (branchCanon : String)
    (integration : Option String) (stdout : String) : List String :=
  ((Text.lines stdout).flatMap (matched index branchCanon integration)).dedup.insertionSort (· ≤ ·)

/-- The listing of the local branches that contain a ref. -/
def containsCommand (ref : String) : List String :=
  ["git", "branch", "--contains", ref, "--format=%(refname:short)"]

/-- The probes of the branches, one after the other. -/
def probe (run : CommandRunner) (refs : List String) (index : Dict String (List String))
    (integration : Option String) :
    List String → Dict String (List String) → Except AncestryError (Dict String (List String))
  | [], built => .ok built
  | branch :: branches, built =>
    if branch = "" then probe run refs index integration branches built
    else match canonicalRef branch refs with
      | .error error => .error error
      | .ok none => probe run refs index integration branches built
      | .ok (some branchCanon) =>
        match run (containsCommand branchCanon) with
        | none => .error .notAnOutcome
        | some outcome =>
          if outcome.exitCode ≠ 0 then .error (.containmentFailed branch outcome.exitCode)
          else probe run refs index integration branches
            (built.set branch (containerNames index branchCanon integration outcome.stdout))

variable (order : SetOrder)

/-- `containment_map` -/
def containmentMap (branches : List String) (run : CommandRunner)
    (integrationRef : String) : Except AncestryError (Dict String (List String)) := do
  let candidates := (branches.filter (· ≠ "")).dedup
  if candidates = [] then return []
  let refs ← refNamespace run
  let index ← candidateIndex refs (order.iter candidates) []
  if index = [] then .error .unresolved
  let integration ← integrationCanon integrationRef refs
  probe run refs index integration branches []

/-! ## The analysis -/

/-- `_Graph`: the containment graph. -/
structure ContainmentGraph where
  nodes : List String
  containers : Dict String (List String)
  strictContainers : Dict String (List String)
deriving DecidableEq

variable (containedBy : Dict String (List String))

/-- The names that a mapping has, keys and containers. -/
def nodeNames : List String :=
  (containedBy.flatMap fun (key, vals) =>
    if key = "" then [] else key :: vals.filter fun item => item ≠ "" ∧ item ≠ key).dedup

/-- `_normalize`: include dangling container names; drop self-entries. -/
def normalize : Dict String (List String) :=
  let raw := containedBy.filter fun (key, _) => key ≠ ""
  (nodeNames containedBy).map fun name =>
    (name, ((Dict.getD raw name []).filter fun item => item ≠ "" ∧ item ≠ name).dedup)

/-- The containers of a name on a graph. -/
def containersOf (containers : Dict String (List String)) (name : String) : List String :=
  containers.getD name []

/-- What a member has outside its class. -/
def externals (members : List String) (containers : Dict String (List String)) (member : String) :
    List String :=
  (containersOf containers member).filter fun name => name ∉ members

/-- `_is_same_commit_tie`: every pair contains each other, and the containers outside match. -/
def isSameCommitTie (members : List String) (containers : Dict String (List String)) : Bool :=
  let memberSet := members.dedup
  decide (memberSet.length ≤ 1) ||
    (memberSet.all fun left => memberSet.all fun right =>
      left = right || right ∈ containersOf containers left) &&
    memberSet.all fun left => memberSet.all fun right =>
      (externals members containers left).all (· ∈ externals members containers right)

/-- `_strongly_connected`, of vertices that are sorted first. -/
def stronglyConnectedNames (containers : Dict String (List String)) :
    Option (List (List String)) :=
  stronglyConnected ((containers.map Prod.fst).insertionSort (· ≤ ·))
    fun vertex => order.iter (containersOf containers vertex)

/-- The class of every name, unless a component is not a tie. -/
def classes (containers : Dict String (List String)) :
    List (List String) → Dict String (List String) →
      Except AncestryError (Dict String (List String))
  | [], classOf => .ok classOf
  | component :: components, classOf =>
    if isSameCommitTie component containers then
      classes containers components
        (component.foldl (fun classOf member => classOf.set member component) classOf)
    else .error (.cycle (component.dedup.insertionSort (· ≤ ·)))

/-- `_analyze`: normalize, refuse cycles that are no ties, and split strict from tie edges. -/
def analyze :
    Except AncestryError ContainmentGraph :=
  let containers := normalize containedBy
  match stronglyConnectedNames order containers with
  | none => .error .exhausted
  | some components =>
    match classes containers components [] with
    | .error error => .error error
    | .ok classOf =>
      .ok { nodes := containers.map Prod.fst
            containers
            strictContainers := containers.map fun (node, conts) =>
              (node, conts.filter fun name => name ∉ classOf.getD node []) }

/-! ## Discharge -/

/-- The nodes that have a name among their containers. -/
def containedNodes (graph : ContainmentGraph) (name : String) : List String :=
  (graph.containers.filter fun entry => name ∈ entry.2).map Prod.fst

/-- `_ancestors_on`: what is reached from a node towards contained names, without itself. -/
def ancestorsOn (graph : ContainmentGraph) (branch : String) : List String :=
  if branch ∈ graph.nodes then
    (visit graph.nodes (fun name => if name ∈ graph.nodes then containedNodes graph name else [])
      (containedNodes graph branch)).filter (· ≠ branch)
  else []

/-- `discharged_by_reachability`: the names below a safe one that are not safe themselves. -/
def dischargedByReachability
    (safe : List String) : Except AncestryError (List String) :=
  (analyze order containedBy).map fun graph =>
    let safeSet := (safe.filter (· ≠ "")).dedup
    (safeSet.flatMap (ancestorsOn graph)).dedup.filter (· ∉ safeSet)

end Workbay.Ancestry

/-!
## The repository behind the listings

What the view relies on in git: refs lead to commits that ancestry orders, the namespace is listed
one ref a line, and a containment listing has a non-ambiguous short name for every local branch
that contains the commit.
-/

namespace Workbay.Ancestry

/-- A local branch. -/
def IsLocalBranch (ref : String) : Prop := (dropPrefix? "refs/heads/" ref).isSome

instance (ref : String) : Decidable (IsLocalBranch ref) :=
  inferInstanceAs (Decidable ((dropPrefix? "refs/heads/" ref).isSome = true))

/-- A line of a listing that stands for a detached head: it is in parentheses and has a blank. -/
def IsDetachedLine (line : String) : Prop :=
  Text.IsLine line ∧ line.toList.head? = some '(' ∧ ' ' ∈ line.toList

/-- A repository with the commits `κ`, and the runner that shows it. -/
structure Git (κ : Type) [PartialOrder κ] where
  refs : List String
  /-- The commit that a ref leads to, if it leads to one. -/
  commit : String → Option κ
  /-- `%(refname:short)` -/
  short : String → String
  run : CommandRunner
  refs_word : ∀ ref ∈ refs, Text.IsWord ref
  /-- A branch has a name, and no ref ends with a slash. -/
  branch_named : ∀ ref ∈ refs, ref ≠ "refs/heads/" ∧ ref.toList.getLast? ≠ some '/'
  refs_listed : run ["git", "for-each-ref", "--format=%(refname)"] = some ⟨Text.unlines refs, 0⟩
  /-- The local branches whose commit is the given one or has it as an ancestor. -/
  branches_listed : ∀ ref ∈ refs, ∀ c, commit ref = some c →
    ∃ detached listed : List String,
      run (containsCommand ref) = some ⟨Text.unlines (detached ++ listed.map short), 0⟩ ∧
        (∀ line ∈ detached, IsDetachedLine line) ∧
        ∀ branch, branch ∈ listed ↔
          branch ∈ refs ∧ IsLocalBranch branch ∧ ∃ d, commit branch = some d ∧ c ≤ d
  /-- The short name of a branch denotes it: no earlier rule finds a ref. -/
  short_denotes : ∀ branch ∈ refs, IsLocalBranch branch →
    (revParse (short branch)).find? (· ∈ refs) = some branch

namespace Git

variable {κ : Type} [PartialOrder κ] (git : Git κ)

variable (branches : List String)

/-- A candidate spells a ref. -/
def Spells (name ref : String) : Prop :=
  name ∈ branches ∧ name ≠ "" ∧ canonicalRef name git.refs = .ok (some ref)

/-- A local branch that its line in a listing is read as. -/
def Shown (ref : String) : Prop :=
  ref ∈ git.refs ∧ IsLocalBranch ref ∧ listingRef (git.short ref) = some ref

/-- A branch that can become a container: it is shown, and is not the integration branch. -/
def Container (integrationRef ref : String) : Prop :=
  git.Shown ref ∧ integrationCanon integrationRef git.refs ≠ .ok (some ref)

/-- A candidate whose commit is at or below that of another one that can become a container. -/
def ContainedBy (integrationRef name container : String) : Prop :=
  ∃ ref ref' c d, git.Spells branches name ref ∧ git.Spells branches container ref' ∧ ref' ≠ ref ∧
    git.Container integrationRef ref' ∧ git.commit ref = some c ∧ git.commit ref' = some d ∧ c ≤ d

/-- A candidate is spelled in two ways, and another candidate is at the same commit. -/
def AliasTie (integrationRef : String) : Prop :=
  ∃ a a' b ref ref', a ≠ a' ∧ git.Spells branches a ref ∧ git.Spells branches a' ref ∧
    git.Spells branches b ref' ∧ ref ≠ ref' ∧ git.Container integrationRef ref ∧
    git.Container integrationRef ref' ∧ git.commit ref = git.commit ref'

end Git

end Workbay.Ancestry

import Mathlib.Data.List.DropRight
import Mathlib.Logic.Relation
import Workbay.Data.Dict

/-!
# Append-only directed acyclic graphs

A graph whose nodes are added one at a time, each naming parents that are already there. The list
of nodes, newest first, therefore proves that there is no cycle, and one pass over it collects the
ancestors of a node.
-/

namespace Workbay.Git

/-- A node: its identity, the parents it names in order, and what it carries. -/
structure Node (ι π : Type) where
  id : ι
  parents : List ι
  data : π
deriving DecidableEq

variable {ι π : Type}

variable (ns : List (Node ι π))

/-- The identities of a list of nodes. -/
def ids : List ι := ns.map Node.id

/-- Newest first: no identity is repeated, and parents are older than their children. -/
def Ordered : List (Node ι π) → Prop
  | [] => True
  | n :: ns => n.id ∉ ids ns ∧ (∀ p ∈ n.parents, p ∈ ids ns) ∧ Ordered ns

instance Ordered.decidable [DecidableEq ι] : (ns : List (Node ι π)) → Decidable (Ordered ns)
  | [] => isTrue trivial
  | n :: ns =>
    have := Ordered.decidable ns
    inferInstanceAs (Decidable (n.id ∉ ids ns ∧ (∀ p ∈ n.parents, p ∈ ids ns) ∧ Ordered ns))

/-- An append-only graph. -/
structure Dag (ι π : Type) where
  nodes : List (Node ι π)
  ordered : Ordered nodes

/-- `a` is a parent of `b`. -/
def ParentIn (a b : ι) : Prop := ∃ n ∈ ns, n.id = b ∧ a ∈ n.parents

/-- `a` is `b` or one of its ancestors. -/
def AncestorIn : ι → ι → Prop := Relation.ReflTransGen (ParentIn ns)

section Search

variable [DecidableEq ι]

/-- Everything that the nodes of `s` reach along parents, `s` included. -/
def collect : List (Node ι π) → List ι → List ι
  | [], s => s
  | n :: ns, s => collect ns (if n.id ∈ s then n.parents ++ s else s)

namespace Dag

variable (g : Dag ι π)

/-- The identity belongs to a node of the graph. -/
def Contains (a : ι) : Prop := a ∈ ids g.nodes

instance (g : Dag ι π) (a : ι) : Decidable (g.Contains a) :=
  inferInstanceAs (Decidable (a ∈ ids g.nodes))

/-- The node with a given identity. -/
def find? (a : ι) : Option (Node ι π) := g.nodes.find? fun n => n.id = a

/-- `a` is `b` or one of its ancestors, as a test. -/
def isAncestorOrEqual (a b : ι) : Bool := decide (a ∈ collect g.nodes [b])

/-- The node `a`, its first parent, the first parent of that one, and so on. -/
def firstParentsIn : List (Node ι π) → ι → List ι
  | [], _ => []
  | n :: ns, a =>
    if n.id = a then
      a :: match n.parents with
        | p :: _ => firstParentsIn ns p
        | [] => []
    else firstParentsIn ns a

/-- `rev-list --first-parent <exclude>..<tip>` -/
def revListFirstParent (exclude : Option ι) (tip : ι) : List ι :=
  (firstParentsIn g.nodes tip).filter fun a => !exclude.any fun b => g.isAncestorOrEqual a b

/-- Add a node, if its identity is new and its parents are there. -/
def add? (n : Node ι π) : Option (Dag ι π) :=
  if h : n.id ∉ ids g.nodes ∧ ∀ p ∈ n.parents, p ∈ ids g.nodes then
    some ⟨n :: g.nodes, h.1, h.2, g.ordered⟩
  else none

/-- `g'` has grown out of `g`. -/
def Grows (g g' : Dag ι π) : Prop := g.nodes <:+ g'.nodes

end Dag

end Search

end Workbay.Git

/-!
## A git repository

Commits, references and the git commands that the orchestration uses on them. The merge machinery
of `git merge-tree` is a parameter of the repository: what it answers depends on the two commits
alone.
-/

namespace Workbay.Git

/-- What a commit records besides its parents. -/
structure CommitData where
  tree : String
  message : String
deriving DecidableEq

/-- The outcome of `git merge-tree --write-tree`. -/
inductive MergeTree where
  | clean (tree : String)
  | conflict
  | failed
deriving DecidableEq

/-- A full object id: lower-case hexadecimal digits, as many as the object format has. -/
def isFullObjectId (value : String) (objectIdLength : Nat) : Bool :=
  value.length == objectIdLength &&
    value.toList.all fun c => decide (('0' ≤ c ∧ c ≤ '9') ∨ ('a' ≤ c ∧ c ≤ 'f'))

/-- A repository. -/
structure Repo where
  objectIdLength : Nat
  graph : Dag String CommitData
  /-- Annotated tag objects, with the commit they peel to. -/
  tags : Dict String String
  /-- Branches: direct references to commits. -/
  refs : Dict String String
  /-- Names of symbolic references. -/
  symbolicRefs : List String
  mergeTree : String → String → MergeTree
  fullIds : ∀ a, graph.Contains a → isFullObjectId a objectIdLength = true
  tips : ∀ ref tip, refs.get? ref = some tip → graph.Contains tip

/-! ## The subject of a commit message -/

/-- White space as git trims it. -/
def isGitSpace (c : Char) : Bool := c = ' ' || c = '\t' || c = '\n' || c = '\r'

/-- A line without its trailing white space. -/
def trimRight (line : List Char) : List Char := line.rdropWhile isGitSpace

/-- The subject `%s`: the lines of the first paragraph, joined by blanks. -/
def subjectLine (message : String) : String :=
  let lines := (message.toList.splitOn '\n').map trimRight
  let paragraph := (lines.dropWhile List.isEmpty).takeWhile fun l => !l.isEmpty
  String.ofList ([' '].intercalate paragraph)

namespace Repo

variable (r : Repo)

/-- `rev-parse --verify --quiet <ref>` -/
def refTip (ref : String) : Option String := r.refs.get? ref

/-- `symbolic-ref --quiet <ref>` succeeds. -/
def isSymbolic (ref : String) : Bool := decide (ref ∈ r.symbolicRefs)

/-- `rev-parse --verify <name>^{commit}` for an object id. -/
def peelCommit (name : String) : Option String :=
  if r.graph.Contains name then some name
  else
    match r.tags.get? name with
    | some commit => if r.graph.Contains commit then some commit else none
    | none => none

/-- `merge-base --is-ancestor <ancestor> <descendant>`; `none` when an object is missing. -/
def isAncestor (ancestor descendant : String) : Option Bool :=
  match r.peelCommit ancestor, r.peelCommit descendant with
  | some a, some b => some (r.graph.isAncestorOrEqual a b)
  | _, _ => none

/-- `rev-parse <commit>^{tree}` -/
def treeOf (commit : String) : Option String :=
  (r.graph.find? commit).map fun n => n.data.tree

/-- `show -s --format=%s <commit>` -/
def subjectOf (commit : String) : Option String :=
  (r.graph.find? commit).map fun n => subjectLine n.data.message

/-- The repository with one more commit, whose id is new and whose parents are there. -/
def addCommit (node : Node String CommitData)
    (hid : isFullObjectId node.id r.objectIdLength = true) (hnew : node.id ∉ ids r.graph.nodes)
    (hparents : ∀ p ∈ node.parents, p ∈ ids r.graph.nodes) : Repo :=
  { r with
    graph := ⟨node :: r.graph.nodes, hnew, hparents, r.graph.ordered⟩
    fullIds := by
      intro a ha
      rcases List.mem_cons.mp ha with rfl | ha
      · exact hid
      · exact r.fullIds a ha
    tips := fun ref tip h => List.mem_cons_of_mem _ (r.tips ref tip h) }

/-- `commit-tree <tree> -p <parent>... -m <message>`, where the new object has the id `oid`. An id
that is taken is the id of the same commit. -/
def commitTree (oid tree : String) (parents : List String) (message : String) :
    Option Repo :=
  match parents.mapM r.peelCommit with
  | none => none
  | some parents =>
    let node : Node String CommitData := ⟨oid, parents, ⟨tree, message⟩⟩
    if node ∈ r.graph.nodes then some r
    else if hid : isFullObjectId oid r.objectIdLength = true then
      if h : (oid ∉ ids r.graph.nodes ∧ r.tags.get? oid = none) ∧
          ∀ p ∈ parents, p ∈ ids r.graph.nodes then
        some (r.addCommit node hid h.1.1 h.2)
      else none
    else none

/-- The repository with a branch set to a commit. -/
def setRef (ref new : String) (h : r.graph.Contains new) : Repo :=
  { r with
    refs := r.refs.set ref new
    tips := by
      intro ref' tip ht
      by_cases heq : ref' = ref
      · subst heq
        rw [Dict.get?_set_self] at ht
        exact Option.some.inj ht ▸ h
      · rw [Dict.get?_set_of_ne _ _ heq] at ht
        exact r.tips ref' tip ht }

/-- `update-ref <ref> <new> <old>`: a compare-and-swap; `old = none` creates the reference. -/
def updateRef (ref new : String) (old : Option String) : Option Repo :=
  if h : r.refTip ref = old ∧ r.graph.Contains new then some (r.setRef ref new h.2) else none

end Repo

end Workbay.Git

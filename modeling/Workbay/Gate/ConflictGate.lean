import Workbay.Data.Json
import Workbay.Data.Text
import Workbay.Effects.System
import Mathlib.Data.List.Dedup

/-!
# The conflict gate

A lane is claimed with an exclusive lock on its own file, taken before the files of its neighbours
are probed with shared locks. Any number of processes claim and release lanes; a process that dies
loses its descriptors and its registry.
-/

namespace Workbay.Gate

open Effects

/-! ## The conflict graph -/

/-- A conflict graph between lanes that have a name. -/
structure ConflictGraph where
  neighbours : String → List String
  symm : ∀ {a b}, b ∈ neighbours a → a ∈ neighbours b
  named : ∀ {a b}, b ∈ neighbours a → b ≠ "" ∧ b ≠ a

/-- The edge of an entry of `conflict_edges`, unless it is malformed. -/
def edgeOf : Json → Option (String × String)
  | .arr [.str a, .str b] =>
    if Text.strip a = "" ∨ Text.strip b = "" ∨ Text.strip a = Text.strip b then none
    else some (Text.strip a, Text.strip b)
  | _ => none

/-- The edges of a manifest. -/
def edgesOf (manifest : Dict String Json) : List (String × String) :=
  match manifest.get? "conflict_edges" with
  | some (.arr entries) => entries.filterMap edgeOf
  | _ => []

/-- The other ends of the edges of a lane. -/
def otherEnds (edges : List (String × String)) (lane : String) : List String :=
  edges.flatMap fun edge =>
    (if edge.1 = lane then [edge.2] else []) ++ if edge.2 = lane then [edge.1] else []

theorem mem_otherEnds {edges : List (String × String)} {a b : String} :
    b ∈ otherEnds edges a ↔ (a, b) ∈ edges ∨ (b, a) ∈ edges := by
  unfold otherEnds
  rw [List.mem_flatMap]
  constructor
  · rintro ⟨⟨x, y⟩, hedge, hin⟩
    rcases List.mem_append.mp hin with hin | hin
    · split at hin
      · rename_i heq
        obtain rfl := List.mem_singleton.mp hin
        subst heq
        exact .inl hedge
      · cases hin
    · split at hin
      · rename_i heq
        obtain rfl := List.mem_singleton.mp hin
        subst heq
        exact .inr hedge
      · cases hin
  · rintro (hedge | hedge)
    · exact ⟨_, hedge, by simp⟩
    · exact ⟨_, hedge, by simp⟩

theorem edge_named {manifest : Dict String Json} {a b : String} (h : (a, b) ∈ edgesOf manifest) :
    a ≠ "" ∧ b ≠ "" ∧ a ≠ b := by
  unfold edgesOf at h
  split at h
  · obtain ⟨entry, -, hentry⟩ := List.mem_filterMap.mp h
    unfold edgeOf at hentry
    split at hentry
    · split at hentry
      · cases hentry
      · rename_i hnot
        obtain ⟨rfl, rfl⟩ := Prod.mk.inj (Option.some.inj hentry)
        simpa only [not_or] using hnot
    · cases hentry
  · cases h

/-- `load_conflict_graph` -/
def loadConflictGraph (manifest : Dict String Json) : ConflictGraph where
  neighbours lane := (otherEnds (edgesOf manifest) lane).dedup
  symm {a b} h := by
    rw [List.mem_dedup, mem_otherEnds] at h ⊢
    exact h.symm
  named {a b} h := by
    rw [List.mem_dedup, mem_otherEnds] at h
    rcases h with h | h
    · exact ⟨(edge_named h).2.1, (edge_named h).2.2.symm⟩
    · exact ⟨(edge_named h).1, (edge_named h).2.2⟩

/-! ## The operations of a process -/

/-- The operations of a process. The locks also note what they are for: `lockExclusive` the lane
that is claimed, `lockShared` the own claim and the neighbour that is probed. -/
inductive GateOp where
  /-- `_CLAIM_REGISTRY.get` -/
  | lookup (key : String × String)
  /-- `os.open` -/
  | openFile (path : String)
  /-- `LOCK_EX | LOCK_NB` -/
  | lockExclusive (fd : Nat) (lane : String)
  /-- `LOCK_SH | LOCK_NB` -/
  | lockShared (fd own : Nat) (neighbour : String)
  /-- `LOCK_UN` -/
  | unlock (fd : Nat)
  /-- `os.close` -/
  | close (fd : Nat)
  /-- `active_probe`; a probe that fails counts as `False` -/
  | activeProbe (neighbour : String)
  /-- `_CLAIM_REGISTRY[key] = fd` -/
  | register (key : String × String) (fd : Nat)
  /-- The first entry of the registry with this descriptor is popped. -/
  | popValue (fd : Nat)

/-- The answers to the operations; a file that cannot be opened gives no descriptor. -/
abbrev GateOp.Answer : GateOp → Type
  | .lookup _ | .openFile _ => Option Nat
  | .lockExclusive .. | .lockShared .. | .activeProbe _ => Bool
  | .unlock _ | .close _ | .register .. | .popValue _ => Unit

/-- A file cannot be opened. -/
inductive GateError where
  | osError
deriving DecidableEq

/-- The programs of a process. -/
abbrev GateM := Prog GateOp GateOp.Answer GateError

/-- The arguments of `try_claim`. -/
structure ClaimRequest where
  taskRef : String
  laneId : String
  neighbours : List String
  neighbourOwner : Option (Dict String String)

namespace ClaimRequest

/-- `claim_path` -/
def claimPath (stateDir taskRef laneId : String) : String :=
  stateDir ++ "/conflict_claims/" ++ taskRef ++ "/" ++ laneId ++ ".lock"

/-- The task that a neighbour belongs to. -/
def ownerOf (r : ClaimRequest) (neighbour : String) : String :=
  match r.neighbourOwner with
  | some owners => owners.getD neighbour r.taskRef
  | none => r.taskRef

/-- The neighbours that are probed, in order. -/
def neighbourSet (r : ClaimRequest) : List String :=
  (r.neighbours.filter fun n => n ≠ "" ∧ n ≠ r.laneId).dedup.insertionSort (· ≤ ·)

end ClaimRequest

open ClaimRequest (claimPath)

/-- `release_claim` -/
def releaseClaim (fd : Nat) : GateM Unit := do
  Prog.perform (E := GateOp) (.popValue fd)
  Prog.perform (E := GateOp) (.close fd)

/-- The files of the neighbours are not locked. -/
def probeNeighbours (stateDir : String) (r : ClaimRequest) (fd : Nat) : List String → GateM Bool
  | [] => .ret true
  | n :: ns =>
    .call (.openFile (claimPath stateDir (r.ownerOf n) n)) fun
      | none => .raise .osError
      | some nfd => .call (.lockShared nfd fd n) fun
        | true => .call (.unlock nfd) fun _ => .call (.close nfd) fun _ =>
            probeNeighbours stateDir r fd ns
        | false => .call (.close nfd) fun _ => .ret false

/-- No neighbour has an active worker. -/
def probeActive : List String → GateM Bool
  | [] => .ret true
  | n :: ns => .call (.activeProbe n) fun
    | true => .ret false
    | false => probeActive ns

/-- The own claim is given up. -/
def giveUp (fd : Nat) : GateM (Option Nat) := releaseClaim fd >>= fun _ => .ret none

/-- What follows once the own lock is taken. -/
def probeAndAdmit (stateDir : String) (r : ClaimRequest) (fd : Nat) : GateM (Option Nat) :=
  probeNeighbours stateDir r fd r.neighbourSet >>= fun
    | false => giveUp fd
    | true => probeActive r.neighbourSet >>= fun
      | false => giveUp fd
      | true => .call (.register (r.taskRef, r.laneId) fd) fun _ => .ret (some fd)

/-- `try_claim` -/
def tryClaim (stateDir : String) (r : ClaimRequest) : GateM (Option Nat) :=
  .call (.lookup (r.taskRef, r.laneId)) fun
    | some held => .ret (some held)
    | none => .call (.openFile (claimPath stateDir r.taskRef r.laneId)) fun
      | none => .raise .osError
      | some fd => .call (.lockExclusive fd r.laneId) fun
        | true => probeAndAdmit stateDir r fd
        | false => .call (.close fd) fun _ => .ret none

/-! ## The world of the processes -/

/-- The lock of an open file. -/
inductive Lock where
  | unlocked
  | shared
  | exclusive
deriving DecidableEq

/-- An open file. A claim notes its lane and the neighbours whose files were not locked. -/
structure OpenFile where
  file : String
  lock : Lock := .unlocked
  lane : Option String := none
  cleared : List String := []
deriving DecidableEq

/-- The open files of the processes `ι`, their registries and who is alive. -/
structure GateWorld (ι : Type) where
  files : Dict (ι × Nat) OpenFile := []
  registry : ι → Dict (String × String) Nat := fun _ => []
  alive : ι → Bool := fun _ => true

/-- What the world alone does not determine. -/
inductive GateChoice where
  | plain
  | fd (n : Nat)
  | fail
  | active
deriving DecidableEq

/-- Whether an open file stands in the way of a lock of another one. -/
def blocks (exclusive : Bool) (o : OpenFile) : Bool :=
  decide (o.lock = .exclusive) || (exclusive && decide (o.lock = .shared))

section

variable {ι : Type} [DecidableEq ι]

variable (w : GateWorld ι)

/-- The world with an open file. -/
def GateWorld.setFile (i : ι) (fd : Nat) (o : OpenFile) : GateWorld ι :=
  { w with files := w.files.set (i, fd) o }

/-- The world with another registry of a process. -/
def GateWorld.setRegistry (i : ι) (entries : Dict (String × String) Nat) :
    GateWorld ι :=
  { w with registry := Function.update w.registry i entries }

/-- A lock of an open file is free: no other open file has one that stands in the way. -/
def isFree (key : ι × Nat) (exclusive : Bool) (o : OpenFile) : Bool :=
  w.files.all fun entry => entry.1 = key || entry.2.file ≠ o.file || !blocks exclusive entry.2

variable (inode : String → String)

/-- The effect of an operation of a process that is alive; `inode` is the file that a path leads
to, which never changes because claim files are never unlinked. -/
def GateOp.effect (i : ι) :
    Action GateOp GateOp.Answer (GateWorld ι) GateChoice
  | .lookup key, .plain, w => some (Dict.get? (w.registry i) key, w)
  | .openFile path, .fd n, w =>
    if w.files.get? (i, n) = none then
      some (some n, w.setFile i n { file := inode path })
    else none
  | .openFile _, .fail, w => some (none, w)
  | .lockExclusive fd lane, .plain, w =>
    match w.files.get? (i, fd) with
    | some o =>
      if isFree w (i, fd) true o then
        some (true, w.setFile i fd
          { o with lock := .exclusive, lane := some lane, cleared := [] })
      else some (false, w)
    | none => some (false, w)
  | .lockExclusive .., .fail, w => some (false, w)
  | .lockShared fd own neighbour, .plain, w =>
    match w.files.get? (i, fd), w.files.get? (i, own) with
    | some o, some claim =>
      if isFree w (i, fd) false o then
        some (true, (w.setFile i own { claim with cleared := neighbour :: claim.cleared }).setFile
          i fd { o with lock := .shared })
      else some (false, w)
    | _, _ => some (false, w)
  | .lockShared .., .fail, w => some (false, w)
  | .unlock fd, .plain, w =>
    match w.files.get? (i, fd) with
    | some o => some ((), w.setFile i fd { o with lock := .unlocked })
    | none => some ((), w)
  | .unlock _, .fail, w => some ((), w)
  | .close fd, .plain, w => some ((), { w with files := Dict.pop w.files (i, fd) })
  | .activeProbe _, .active, w => some (true, w)
  | .activeProbe _, .plain, w | .activeProbe _, .fail, w => some (false, w)
  | .register key fd, .plain, w =>
    some ((), w.setRegistry i (Dict.set (w.registry i) key fd))
  | .popValue fd, .plain, w =>
    some ((), w.setRegistry i ((w.registry i).eraseP fun entry => entry.2 = fd))
  | _, _, _ => none

attribute [grind] GateOp.effect

/-- How the operations of the process `i` act. -/
def GateOp.act (i : ι) :
    Action GateOp GateOp.Answer (GateWorld ι) GateChoice :=
  fun e c w => if w.alive i then GateOp.effect inode i e c w else none

/-- A process dies: its files are closed and its registry is gone. -/
def GateWorld.crash (i : ι) : GateWorld ι where
  files := w.files.filter fun entry => entry.1.1 ≠ i
  registry := Function.update w.registry i []
  alive := Function.update w.alive i false

/-! ## The system -/

/-- What a process may be asked for. -/
inductive GateRequest where
  | claim (r : ClaimRequest)
  | release (laneId : String) (fd : Nat)

/-- A claim is made with the task and the neighbours of its lane, and with their tasks. -/
def GateRequest.Consistent (graph : ConflictGraph) (owner : String → String) : GateRequest → Prop
  | .claim r => r.taskRef = owner r.laneId ∧
      (∀ n ∈ graph.neighbours r.laneId, n ∈ r.neighbours) ∧
      ∀ n ∈ r.neighbours, r.ownerOf n = owner n
  | .release .. => True

/-- The program of a request. -/
def GateRequest.body (stateDir : String) : GateRequest → GateM (Option Nat)
  | .claim r => tryClaim stateDir r
  | .release _ fd => releaseClaim fd >>= fun _ => .ret none

/-- Any number of processes that claim and release lanes of one graph, and may die. -/
def gateSystem (stateDir : String) (graph : ConflictGraph)
    (owner : String → String) :
    System ι { r : GateRequest // r.Consistent graph owner } GateOp GateOp.Answer GateError
      (Option Nat) (GateWorld ι) GateChoice ι where
  act := GateOp.act inode
  body _ r := r.1.body stateDir
  enter i _ w := { w with alive := Function.update w.alive i true }
  env i w := some (w.crash i)

/-- A process holds a claim: it is in its registry, from the end of `try_claim` to the start of
`release_claim`. -/
def GateWorld.HoldsClaim (i : ι) (laneId : String) : Prop :=
  ∃ taskRef fd, Dict.get? (w.registry i) (taskRef, laneId) = some fd

end

end Workbay.Gate

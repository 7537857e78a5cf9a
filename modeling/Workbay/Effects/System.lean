import Mathlib.Logic.Function.Basic

/-!
# Programs as trees of effects

A program that talks to the outside is a tree: a leaf returns a value or raises an exception, an
inner node performs an operation and goes on with whatever the operation answers. The tree is
finite in depth, so a program always ends when its operations are answered.

How an operation acts is not part of the tree. An *action* answers an operation in a world, given a
choice that stands for everything the world alone does not determine (another party's reply, a
failure, a clock). It is a function, so that a concrete run can be evaluated.
-/

namespace Workbay.Effects

/-- A program over the operations `E`, where `A e` is the type of the answers to `e`. -/
inductive Prog (E : Type) (A : E → Type) (ε α : Type) : Type where
  /-- The program has returned `a`. -/
  | ret (a : α)
  /-- The program has raised `x`. -/
  | raise (x : ε)
  /-- The program performs `e` and continues with the answer. -/
  | call (e : E) (next : A e → Prog E A ε α)

namespace Prog

variable {E : Type} {A : E → Type} {ε α β : Type}

/-- Sequencing: exceptions end the whole program. -/
def bind : Prog E A ε α → (α → Prog E A ε β) → Prog E A ε β
  | .ret a, f => f a
  | .raise x, _ => .raise x
  | .call e next, f => .call e fun a => (next a).bind f

/-- Run the program and hand its outcome, a value or an exception, to `f`. -/
def attempt : Prog E A ε α → (Except ε α → Prog E A ε β) → Prog E A ε β
  | .ret a, f => f (.ok a)
  | .raise x, f => f (.error x)
  | .call e next, f => .call e fun a => (next a).attempt f

/-- The program that performs one operation and returns its answer. -/
def perform (e : E) : Prog E A ε (A e) := .call e .ret

/-- A computed outcome as a program. -/
def ofExcept : Except ε α → Prog E A ε α
  | .ok a => .ret a
  | .error x => .raise x

instance : Monad (Prog E A ε) where
  pure := .ret
  bind := Prog.bind

@[simp] theorem pure_eq (a : α) : (pure a : Prog E A ε α) = .ret a := rfl

@[simp] theorem ret_bind (a : α) (f : α → Prog E A ε β) : (Prog.ret a >>= f) = f a := rfl

@[simp] theorem raise_bind (x : ε) (f : α → Prog E A ε β) :
    (Prog.raise x >>= f) = .raise x := rfl

@[simp] theorem call_bind (e : E) (next : A e → Prog E A ε α) (f : α → Prog E A ε β) :
    (Prog.call e next >>= f) = .call e fun a => next a >>= f := rfl

@[simp] theorem perform_bind (e : E) (f : A e → Prog E A ε β) :
    (perform e >>= f) = .call e f := rfl

@[simp] theorem ret_attempt (a : α) (f : Except ε α → Prog E A ε β) :
    (Prog.ret a).attempt f = f (.ok a) := rfl

@[simp] theorem raise_attempt (x : ε) (f : Except ε α → Prog E A ε β) :
    (Prog.raise x).attempt f = f (.error x) := rfl

@[simp] theorem call_attempt (e : E) (next : A e → Prog E A ε α)
    (f : Except ε α → Prog E A ε β) :
    (Prog.call e next).attempt f = .call e fun a => (next a).attempt f := rfl

end Prog

/-- An action of the operations `E` on a world `W`, driven by choices `C`. A choice that does not
apply to the operation in this world gives `none`. -/
abbrev Action (E : Type) (A : E → Type) (W C : Type) := (e : E) → C → W → Option (A e × W)

/-- The program `p`, started in `w` and answered by `act`, ends with the outcome `r` in `w'`. -/
inductive Runs {E : Type} {A : E → Type} {ε α W C : Type} (act : Action E A W C) :
    Prog E A ε α → W → Except ε α → W → Prop where
  | ret (a : α) (w : W) : Runs act (.ret a) w (.ok a) w
  | raise (x : ε) (w : W) : Runs act (.raise x) w (.error x) w
  | call {e : E} {next : A e → Prog E A ε α} {w w' w'' : W} {a : A e} {r : Except ε α} (c : C)
      (ha : act e c w = some (a, w')) (hr : Runs act (next a) w' r w'') :
      Runs act (.call e next) w r w''

end Workbay.Effects

/-!
## Interleaved processes over one world

Any number of processes, named by `ι`, run programs against one shared world. Each operation of a
process is one atomic step; between two operations of one process the others, and an environment,
may do anything they can do. A process may be halted before any of its operations, which models a
crash, and started again afterwards, which models a restart.

The transition function is executable, so a concrete interleaving is evaluated by running it.
-/

namespace Workbay.Effects

/-- The parts of an interleaved system. -/
structure System (ι R E : Type) (A : E → Type) (ε α W C D : Type) where
  /-- How an operation of a process acts on the world. -/
  act : ι → Action E A W C
  /-- The program that a process runs for a request. -/
  body : ι → R → Prog E A ε α
  /-- What the start of a process notes in the world. -/
  enter : ι → R → W → W
  /-- What the environment does on its own. -/
  env : D → W → Option W

/-- The shared world and the remaining program of every process that is running. -/
structure Config (ι E : Type) (A : E → Type) (ε α W : Type) where
  world : W
  procs : ι → Option (Prog E A ε α)

/-- One step of the whole system. -/
inductive Label (ι R C D : Type) where
  /-- Process `i` starts on the request `r`. -/
  | start (i : ι) (r : R)
  /-- Process `i` performs its next operation. -/
  | tick (i : ι) (c : C)
  /-- Process `i` is gone: it has crashed, or it has ended and is forgotten. -/
  | halt (i : ι)
  /-- The environment acts. -/
  | env (d : D)
deriving DecidableEq, Repr

namespace System

variable {ι R E : Type} {A : E → Type} {ε α W C D : Type} [DecidableEq ι]

/-- The effect of one label; `none` when the label is not enabled. -/
def next (S : System ι R E A ε α W C D) (s : Config ι E A ε α W) :
    Label ι R C D → Option (Config ι E A ε α W)
  | .start i r =>
    match s.procs i with
    | none => some ⟨S.enter i r s.world, Function.update s.procs i (some (S.body i r))⟩
    | some _ => none
  | .tick i c =>
    match s.procs i with
    | some (.call e k) =>
      match S.act i e c s.world with
      | some (a, w) => some ⟨w, Function.update s.procs i (some (k a))⟩
      | none => none
    | _ => none
  | .halt i =>
    match s.procs i with
    | some _ => some ⟨s.world, Function.update s.procs i none⟩
    | none => none
  | .env d =>
    match S.env d s.world with
    | some w => some ⟨w, s.procs⟩
    | none => none

/-- A run: the labels are taken one after the other. -/
def exec (S : System ι R E A ε α W C D) :
    Config ι E A ε α W → List (Label ι R C D) → Option (Config ι E A ε α W)
  | s, [] => some s
  | s, l :: ls =>
    match S.next s l with
    | some s' => exec S s' ls
    | none => none

/-- Every step of a run is of a kind `Q` in the configuration that it is taken in. -/
def Along (S : System ι R E A ε α W C D) (Q : Config ι E A ε α W → Label ι R C D → Prop) :
    Config ι E A ε α W → List (Label ι R C D) → Prop
  | _, [] => True
  | s, l :: ls => Q s l ∧ ∀ s', S.next s l = some s' → S.Along Q s' ls

/-- Some run leads from `s` to `s'`. -/
def Steps (S : System ι R E A ε α W C D) (s s' : Config ι E A ε α W) : Prop :=
  ∃ ls, S.exec s ls = some s'

/-- The configuration in which no process runs yet. -/
def boot (w : W) : Config ι E A ε α W := ⟨w, fun _ => none⟩

/-- Some run leads from an initial world, with no process running, to `s`. -/
def Reachable (S : System ι R E A ε α W C D) (init : W → Prop) (s : Config ι E A ε α W) : Prop :=
  ∃ w, init w ∧ S.Steps (boot w) s

/-- The system in which every step that leaves the worlds of `good` is forbidden. -/
def restrict (S : System ι R E A ε α W C D) (good : W → Bool) : System ι R E A ε α W C D where
  act i e c w := (S.act i e c w).filter fun aw => good aw.2
  body := S.body
  enter := S.enter
  env d w := (S.env d w).filter good

end System

end Workbay.Effects

/-!
## The operations that a program performs

An environment answers every operation, knowing the ones before it; the trace of a program is the
list of the operations that it performs. `Ensures` says of all answers at once which operations a
program performs and how it ends.
-/

namespace Workbay.Effects

namespace Prog

variable {E : Type} {A : E → Type} {ε α β : Type}

/-- The operations of a program, in order, that an environment answers. -/
def trace (env : List E → (e : E) → A e) : List E → Prog E A ε α → List E
  | _, .ret _ => []
  | _, .raise _ => []
  | before, .call e next => e :: trace env (e :: before) (next (env before e))

/-- Whatever the answers are, every operation satisfies `P` and the outcome satisfies `post`. -/
def Ensures (P : E → Prop) (post : Except ε α → Prop) : Prog E A ε α → Prop
  | .ret a => post (.ok a)
  | .raise x => post (.error x)
  | .call e next => P e ∧ ∀ a, Ensures P post (next a)

namespace Ensures

variable {P : E → Prop} {post : Except ε α → Prop}

variable {p : Prog E A ε α}

theorem weaken {post' : Except ε α → Prop} (h : p.Ensures P post) (hpost : ∀ r, post r → post' r) :
    p.Ensures P post' := by
  induction p with
  | ret a => exact hpost _ h
  | raise x => exact hpost _ h
  | call e next ih => exact ⟨h.1, fun a => ih a (h.2 a)⟩

theorem mono {P' : E → Prop} (h : p.Ensures P post) (hP : ∀ e, P e → P' e) : p.Ensures P' post := by
  induction p with
  | ret a | raise x => exact h
  | call e next ih => exact ⟨hP e h.1, fun a => ih a (h.2 a)⟩

/-- The rule for sequencing: an exception passes through. -/
theorem bind {mid : Except ε α → Prop} {post : Except ε β → Prop} {f : α → Prog E A ε β}
    (h : p.Ensures P mid) (hf : ∀ a, mid (.ok a) → (f a).Ensures P post)
    (hx : ∀ x, mid (.error x) → post (.error x)) : (p >>= f).Ensures P post := by
  induction p with
  | ret a => exact hf a h
  | raise x => exact hx x h
  | call e next ih => exact ⟨h.1, fun a => ih a (h.2 a)⟩

theorem of_mem_trace (h : p.Ensures P post) {env : List E → (e : E) → A e} :
    ∀ {before : List E} {e : E}, e ∈ p.trace env before → P e := by
  induction p with
  | ret a => exact fun he => by cases he
  | raise x => exact fun he => by cases he
  | call e next ih =>
    intro before e' he
    rcases List.mem_cons.mp he with rfl | he
    · exact h.1
    · exact ih _ (h.2 _) he

end Ensures

end Prog

end Workbay.Effects

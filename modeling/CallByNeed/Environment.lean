/-!
# Environments

An environment is a chain of frames, each of which binds some names; the first frame of the chain
that binds a name decides what it stands for.  All frames live in one array and are known by their
index.  Frame `0` is the root, the end of every chain, and the only frame that changes: names can
be defined in it at any time.

A frame is pushed on an existing one, so indices fall along a chain and looking a name up ends.
-/

namespace CallByNeed

/-- Names with what they stand for, the newest binding first. -/
abbrev Bindings (α : Type) :=
  List (String × α)

namespace Bindings

variable {α : Type}

/-- What a name stands for. -/
def find? (bindings : Bindings α) (name : String) : Option α :=
  bindings.lookup name

/-- The name is bound. -/
def binds (bindings : Bindings α) (name : String) : Bool :=
  (bindings.find? name).isSome

/-- The bound names in the order of their code points. -/
def sortedNames (bindings : Bindings α) : List String :=
  (bindings.map (·.1)).mergeSort fun a b => !(b < a)

end Bindings

/-- The index of an environment. -/
abbrev EnvId :=
  Nat

/-- One link of a chain.  Only the root has no parent. -/
structure Frame (α : Type) where
  parent : Option EnvId
  bindings : Bindings α
deriving Repr

/-- All environments of a run. -/
structure Environments (α : Type) where
  frames : Array (Frame α)
deriving Repr

namespace Environments

variable {α : Type}

/-- The root alone, without names. -/
def initial : Environments α :=
  ⟨#[⟨none, []⟩]⟩

/-- The end of every chain. -/
def root : EnvId :=
  0

/-- The number of environments. -/
def size (envs : Environments α) : Nat :=
  envs.frames.size

/-- The index of the environment that is pushed next. -/
def fresh (envs : Environments α) : EnvId :=
  envs.frames.size

/-- Pushes a frame on an existing environment. -/
def push (envs : Environments α) (parent : EnvId) (bindings : Bindings α) :
    EnvId × Environments α :=
  (envs.fresh, ⟨envs.frames.push ⟨some parent, bindings⟩⟩)

/-- Pushes a frame whose bindings may refer to the frame itself, by its index. -/
def pushWith (envs : Environments α) (parent : EnvId) (bindings : EnvId → Bindings α) :
    EnvId × Environments α :=
  envs.push parent (bindings envs.fresh)

/-- Binds a name in the root, in place of what it stood for there. -/
def define (envs : Environments α) (name : String) (value : α) : Environments α :=
  ⟨envs.frames.modify root fun frame => { frame with bindings := (name, value) :: frame.bindings }⟩

/-- What a name stands for in an environment.  The chain is followed as long as it leads to an
earlier frame, which a frame's parent always is. -/
def lookup (envs : Environments α) (env : EnvId) (name : String) : Option α :=
  match envs.frames[env]? with
  | none => none
  | some frame =>
    match frame.bindings.find? name with
    | some value => some value
    | none =>
      match frame.parent with
      | none => none
      | some parent => if parent < env then envs.lookup parent name else none
termination_by env

end Environments

end CallByNeed

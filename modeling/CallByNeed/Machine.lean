import CallByNeed.Config
import CallByNeed.Error
import CallByNeed.Value

/-!
# The machine

A run keeps all environments and all suspensions in one machine, together with counters of the work
done.  An evaluation is a function on machines that yields a value or an error, and in both cases
the machine it leaves behind: what was computed before an error stays computed.

A suspension is evaluated by `force`.  Its cell goes from pending to forcing and, with the value,
to evaluated; if the evaluation fails it goes back to pending, so that a later demand starts over.
-/

namespace CallByNeed

/-- The work done so far. -/
structure Stats where
  /-- Suspensions made. -/
  created : Nat
  /-- Suspensions whose expression was evaluated. -/
  evaluated : Nat
  /-- Demands answered by a value found before. -/
  hits : Nat
  /-- Environments made, the root included. -/
  environments : Nat
deriving DecidableEq, Repr

/-- The state of a run. -/
structure Machine where
  environments : Environments ThunkId
  cells : Array Cell
  created : Nat
  evaluated : Nat
  hits : Nat
deriving Repr

/-- Evaluations with results of type `α`. -/
abbrev Eval (α : Type) :=
  EStateM EvalError Machine α

namespace Machine

/-- The machine before a run. -/
def initial : Machine :=
  ⟨.initial, #[], 0, 0, 0⟩

/-- The counters. -/
def stats (m : Machine) : Stats :=
  ⟨m.created, m.evaluated, m.hits, m.environments.size⟩

/-- The cell at an address.  Where nothing has been allocated an evaluated empty list is read; no
address that a run produces is of this kind. -/
def cell (m : Machine) (t : ThunkId) : Cell :=
  m.cells.getD t (.evaluated .nil)

/-- Replaces the cell at an address. -/
def setCell (m : Machine) (t : ThunkId) (c : Cell) : Machine :=
  { m with cells := m.cells.setIfInBounds t c }

/-- Allocates a cell at the next address. -/
def allocate (m : Machine) (c : Cell) : ThunkId × Machine :=
  (m.cells.size, { m with cells := m.cells.push c })

/-- Records the value of a suspension that has been evaluated. -/
def settle (m : Machine) (t : ThunkId) (v : Value) : Machine :=
  { m with
    cells := m.cells.setIfInBounds t (.evaluated v)
    evaluated := m.evaluated + 1 }

/-- Binds a name in the root to a value that needs no evaluation. -/
def define (m : Machine) (name : String) (v : Value) : Machine :=
  let (t, m) := m.allocate (.evaluated v)
  { m with environments := m.environments.define name t }

end Machine

namespace Eval

/-- Counts a demand that was answered by a value found before. -/
def countHit : Eval Unit :=
  modify fun m => { m with hits := m.hits + 1 }

/-- Suspends an expression. -/
def suspend (e : Expr) (env : EnvId) : Eval ThunkId :=
  modifyGet fun m =>
    let (t, m) := m.allocate (.pending e env)
    (t, { m with created := m.created + 1 })

/-- Suspends several expressions, from left to right. -/
def suspendAll (env : EnvId) : List Expr → Eval (List ThunkId)
  | [] => return []
  | e :: es => do
    let t ← suspend e env
    let ts ← suspendAll env es
    return t :: ts

/-- Pushes a frame on an environment. -/
def pushFrame (parent : EnvId) (bindings : Bindings ThunkId) : Eval EnvId :=
  modifyGet fun m =>
    let (env, environments) := m.environments.push parent bindings
    (env, { m with environments })

/-- Pushes a frame that binds `name` to the suspension of `e` in that very frame, so that `e` may
refer to itself by its name. -/
def pushRecursive (parent : EnvId) (name : String) (e : Expr) : Eval EnvId := do
  let t ← suspend e (← get).environments.fresh
  modifyGet fun m =>
    let (env, environments) := m.environments.pushWith parent fun _ => [(name, t)]
    (env, { m with environments })

/-- Fails because the nesting is used up. -/
def limitReached {α : Type} (config : Config) (span : Span) : Eval α :=
  throw (.recursionLimit config.maxDepth span)

/-- The value of a suspension, found with `eval` at the first demand. -/
def force (eval : Expr → EnvId → Eval Value) (t : ThunkId) : Eval Value := do
  match (← get).cell t with
  | .evaluated v =>
    countHit
    return v
  | .forcing e _ => throw (.infiniteLoop e.span)
  | .pending e env =>
    modify (·.setCell t (.forcing e env))
    fun m =>
      match eval e env m with
      | .ok v m => .ok v (m.settle t v)
      | .error err m => .error err (m.setCell t (.pending e env))

end Eval

end CallByNeed

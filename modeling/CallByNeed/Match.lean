import CallByNeed.Machine

/-!
# Pattern matching

Matching a suspension against a pattern binds the names of the pattern to suspensions.  A name and
a wildcard match without any evaluation; a literal, a tuple, a list cell and the empty list demand
the value.  A match that fails is no error.  Patterns are matched from left to right, and a name
that has been bound already is an error.

The bindings grow during the match and are part of its state, so that those made before a failure
or an error are known.
-/

namespace CallByNeed

/-- The state of a match: a machine, and the names bound so far. -/
structure Scope where
  machine : Machine
  bindings : Bindings ThunkId
deriving Repr

/-- Steps of a match. -/
abbrev Matching (α : Type) :=
  EStateM EvalError Scope α

namespace Matching

/-- An evaluation as a step of a match. -/
def ofEval {α : Type} (x : Eval α) : Matching α := fun s =>
  match x s.machine with
  | .ok a machine => .ok a { s with machine }
  | .error e machine => .error e { s with machine }

/-- Binds a name, which must be new. -/
def bindName (span : Span) (name : String) (t : ThunkId) : Matching Unit := do
  if (← get).bindings.binds name then throw (.duplicateBinding name span)
  else modify fun s => { s with bindings := (name, t) :: s.bindings }

mutual

/-- Matches a suspension against a pattern and tells whether it fits; `force` demands a value. -/
def one (force : ThunkId → Eval Value) : Pattern → ThunkId → Matching Bool
  | .bind span name, t => do
    bindName span name t
    return true
  | .wildcard _, _ => return true
  | .integer _ value, t => do
    match ← ofEval (force t) with
    | .integer n => return n == value
    | _ => return false
  | .boolean _ value, t => do
    match ← ofEval (force t) with
    | .boolean b => return b == value
    | _ => return false
  | .tuple _ ps, t => do
    match ← ofEval (force t) with
    | .tuple ts => if ts.length = ps.length then all force ps ts else return false
    | _ => return false
  | .cons _ p q, t => do
    match ← ofEval (force t) with
    | .cons head tail => if ← one force p head then one force q tail else return false
    | _ => return false
  | .nil _, t => do
    match ← ofEval (force t) with
    | .nil => return true
    | _ => return false

/-- Matches suspensions against as many patterns, from left to right. -/
def all (force : ThunkId → Eval Value) : List Pattern → List ThunkId → Matching Bool
  | p :: ps, t :: ts => do if ← one force p t then all force ps ts else return false
  | _, _ => return true

end

end Matching

namespace Eval

/-- Matches a suspension against a pattern and yields the names it binds, if it fits. -/
def bindingsOf (force : ThunkId → Eval Value) (p : Pattern) (t : ThunkId) :
    Eval (Option (Bindings ThunkId)) := fun m =>
  match Matching.one force p t ⟨m, []⟩ with
  | .ok true s => .ok (some s.bindings) s.machine
  | .ok false s => .ok none s.machine
  | .error e s => .error e s.machine

/-- The first option whose pattern fits, as its body and the names bound. -/
def firstMatch (force : ThunkId → Eval Value) (t : ThunkId) :
    List (Pattern × Expr) → Eval (Option (Expr × Bindings ThunkId))
  | [] => return none
  | (p, body) :: options => do
    match ← bindingsOf force p t with
    | some bindings => return some (body, bindings)
    | none => firstMatch force t options

end Eval

end CallByNeed

import CallByNeed.Environment
import CallByNeed.Expr

/-!
# Values and suspensions

A value is in weak head normal form: its outermost shape is known, but the fields of a tuple or a
list cell are suspensions, known only by their address.  The cell at an address holds an expression
with the environment it belongs to, and once it has been evaluated its value instead.  While it is
being evaluated the cell is marked, so that a demand for its own value can be told.
-/

namespace CallByNeed

/-- The address of a suspension. -/
abbrev ThunkId :=
  Nat

/-- Values in weak head normal form. -/
inductive Value where
  | integer (value : Int)
  | boolean (value : Bool)
  | closure (param : Pattern) (body : Expr) (env : EnvId)
  | tuple (elems : List ThunkId)
  | cons (head tail : ThunkId)
  | nil
deriving Repr, Inhabited

/-- The word for a value's kind in messages. -/
def Value.typeName : Value → String
  | integer _ => "integer"
  | boolean _ => "boolean"
  | closure .. => "function"
  | tuple _ => "tuple"
  | cons .. | nil => "list"

/-- The state of a suspension. -/
inductive Cell where
  | pending (expr : Expr) (env : EnvId)
  /-- Being evaluated: demanding the value again cannot end. -/
  | forcing (expr : Expr) (env : EnvId)
  | evaluated (value : Value)
deriving Repr, Inhabited

end CallByNeed

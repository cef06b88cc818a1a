import CallByNeed.Arithmetic
import CallByNeed.Match

/-!
# Evaluation by need

Evaluating an expression yields a value in weak head normal form.  Arguments, bound expressions,
subjects of `case` and the fields of data are suspended, and a suspension is evaluated when a
primitive operation or a pattern demands its value.

Nesting is bounded.  `Eval.eval` takes the number of levels that are left: with none left it fails,
and otherwise one step of the evaluation (`Eval.step`) evaluates what it needs with one level less.
`Eval.equal` is the comparison with a number of levels left; comparing two elements takes a level,
while walking along two lists does not.
-/

namespace CallByNeed.Eval

/-- An integer operand, found at `span`. -/
def expectInteger (span : Span) : Value → Eval Int
  | .integer n => return n
  | v => throw (.typeMismatch "integer" v.typeName span)

/-- A pure result as an evaluation. -/
def ofExcept {α : Type} : Except EvalError α → Eval α
  | .ok a => return a
  | .error e => throw e

/-- The result of a built-in operation on two integers. -/
def arithmetic (span : Span) (op : BinaryOp) (a b : Int) : Eval Value :=
  match op with
  | .pow => return .integer (← ofExcept (Arithmetic.power span a b))
  | .mul => return .integer (← ofExcept (Arithmetic.checked span (a * b)))
  | .add => return .integer (← ofExcept (Arithmetic.checked span (a + b)))
  | .sub => return .integer (← ofExcept (Arithmetic.checked span (a - b)))
  | .lt => return .boolean (a < b)
  | .eq => return .boolean (a == b)

/-- One step of the evaluation of an expression, with `eval` for what it needs and `equal` for
comparisons. -/
def step (eval : Expr → EnvId → Eval Value) (equal : Span → Value → Value → Eval Bool) :
    Expr → EnvId → Eval Value
  | .integer _ value, _ => return .integer value
  | .boolean _ value, _ => return .boolean value
  | .identifier span name, env => do
    match (← get).environments.lookup env name with
    | some t => force eval t
    | none => throw (.unboundVariable name span)
  | .condition _ test yes no, env => do
    match ← eval test env with
    | .boolean true => eval yes env
    | .boolean false => eval no env
    | v => throw (.typeMismatch "boolean" v.typeName test.span)
  | .binary span .eq lhs rhs, env => do
    let x ← eval lhs env
    let y ← eval rhs env
    return .boolean (← equal span x y)
  | .binary span op lhs rhs, env => do
    let a ← expectInteger lhs.span (← eval lhs env)
    let b ← expectInteger rhs.span (← eval rhs env)
    arithmetic span op a b
  | .lambda _ param body, env => return .closure param body env
  | .apply span func arg, env => do
    match ← eval func env with
    | .closure param body closureEnv =>
      let t ← suspend arg env
      match ← bindingsOf (force eval) param t with
      | some bindings => eval body (← pushFrame closureEnv bindings)
      | none => throw (.patternMismatch "function argument" span)
    | v => throw (.notAFunction v.typeName func.span)
  | .bind span pattern value body, env => do
    match pattern.name? with
    | some name => eval body (← pushRecursive env name value)
    | none =>
      let t ← suspend value env
      match ← bindingsOf (force eval) pattern t with
      | some bindings => eval body (← pushFrame env bindings)
      | none => throw (.patternMismatch "let" span)
  | .cases span subject options, env => do
    let t ← suspend subject env
    match ← firstMatch (force eval) t options with
    | some (body, bindings) => eval body (← pushFrame env bindings)
    | none => throw (.nonExhaustive span)
  | .tuple _ elems, env => return .tuple (← suspendAll env elems)
  | .cons _ head tail, env => do
    let h ← suspend head env
    let t ← suspend tail env
    return .cons h t
  | .nil _, _ => return .nil

/-- Compares suspended elements pairwise, from left to right, up to the first difference. -/
def compareAll (element : ThunkId → ThunkId → Eval Bool) :
    List ThunkId → List ThunkId → Eval Bool
  | x :: xs, y :: ys => do if ← element x y then compareAll element xs ys else return false
  | _, _ => return true

/-- Compares two values, walking along two lists for at most as many cells as the last number
says.  The values of suspensions are found with `force`, and those of elements compared with
`nested`. -/
def compareWith (config : Config) (force : ThunkId → Eval Value)
    (nested : Value → Value → Eval Bool) (span : Span) : Nat → Value → Value → Eval Bool
  | 0, _, _ => throw (.spineLimit config.spineLimit span)
  | room + 1, x, y => do
    let element (s t : ThunkId) : Eval Bool := do
      let v ← force s
      let w ← force t
      nested v w
    match x, y with
    | .closure .., _ | _, .closure .. =>
      throw (.typeMismatch "comparable value" "function" span)
    | .integer a, .integer b => return a == b
    | .boolean a, .boolean b => return a == b
    | .nil, .nil => return true
    | .nil, .cons .. | .cons .., .nil => return false
    | .tuple xs, .tuple ys =>
      if xs.length = ys.length then compareAll element xs ys else return false
    | .cons h t, .cons h' t' =>
      if ← element h h' then
        let v ← force t
        let w ← force t'
        compareWith config force nested span room v w
      else return false
    | x, y => throw (.typeMismatch x.typeName y.typeName span)

mutual

/-- The value of an expression in an environment, with the given number of levels left. -/
def eval (config : Config) : Nat → Expr → EnvId → Eval Value
  | 0, e, _ => limitReached config e.span
  | depth + 1, e, env => step (eval config depth) (equal config depth) e env

/-- The comparison that `==` at `span` makes, with the given number of levels left.  What it
demands is evaluated with the same number of levels. -/
def equal (config : Config) : Nat → Span → Value → Value → Eval Bool
  | 0, span, x, y =>
    compareWith config (force fun e _ => limitReached config e.span)
      (fun _ _ => limitReached config span) span (config.spineLimit + 1) x y
  | depth + 1, span, x, y =>
    compareWith config (force (step (eval config depth) (equal config depth)))
      (equal config depth span) span (config.spineLimit + 1) x y

end

/-- **With no level left nothing is evaluated.** -/
theorem eval_zero (config : Config) (e : Expr) (env : EnvId) :
    eval config 0 e env = limitReached config e.span := by
  rw [eval]

/-- **A level is spent on one step.** -/
theorem eval_succ (config : Config) (depth : Nat) :
    eval config (depth + 1) = step (eval config depth) (equal config depth) := by
  funext e env
  rw [eval]

/-- **A comparison demands values with the levels it has left.** -/
theorem equal_succ (config : Config) (depth : Nat) (span : Span) :
    equal config (depth + 1) span =
      compareWith config (force (eval config (depth + 1))) (equal config depth span) span
        (config.spineLimit + 1) := by
  funext x y
  rw [equal, eval_succ]

/-- The value of an expression in the root. -/
def evaluate (config : Config) (e : Expr) : Eval Value :=
  eval config config.maxDepth e Environments.root

/-- The value of a suspension. -/
def demand (config : Config) (t : ThunkId) : Eval Value :=
  force (eval config config.maxDepth) t

end CallByNeed.Eval

import CallByNeed.Render

/-!
# Evaluation by name

The same language without memory.  An environment holds suspended expressions, each with the
environment it belongs to, and every use of a name evaluates its expression once more.  There is
neither a record of values found before nor a mark on what is being evaluated, and the nesting is
not bounded.

The rules are written as plans (`Plan`).  A plan ends with an outcome, or it asks a question and
goes on with the answer: the value of an expression, the result of a comparison, the cells of a
list, or the text of a value.  `Question.plan` is the rule for each question, and a derivation
(`Derives`) is a finite tree in which every question asked is answered by its own plan.
-/

namespace CallByNeed.ByName

/-! ### Environments and values -/

/-- Environments.  A frame binds names to expressions with their environments.  The frame of a
recursive `let` binds one name, whose expression belongs to the frame itself. -/
inductive Env where
  | root
  | frame (bindings : List (String × Expr × Env)) (parent : Env)
  | recursive (name : String) (value : Expr) (parent : Env)

/-- An expression with the environment it belongs to. -/
abbrev Suspension :=
  Expr × Env

/-- What a name stands for. -/
def Env.lookup : Env → String → Option Suspension
  | root, _ => none
  | frame bindings parent, name =>
    match Bindings.find? bindings name with
    | some s => some s
    | none => parent.lookup name
  | recursive x value parent, name =>
    if name == x then some (value, recursive x value parent) else parent.lookup name

/-- Values in weak head normal form. -/
inductive Value where
  | integer (value : Int)
  | boolean (value : Bool)
  | closure (param : Pattern) (body : Expr) (env : Env)
  | tuple (elems : List Suspension)
  | cons (head tail : Suspension)
  | nil

/-- The word for a value's kind in messages. -/
def Value.typeName : Value → String
  | integer _ => "integer"
  | boolean _ => "boolean"
  | closure .. => "function"
  | tuple _ => "tuple"
  | cons .. | nil => "list"

/-! ### Questions and plans -/

/-- What can be asked for, with the type of the answer. -/
inductive Question : Type → Type where
  /-- The value of an expression. -/
  | eval (e : Expr) (env : Env) : Question Value
  /-- Whether two values are equal, for the `==` at `span`. -/
  | equal (span : Span) (x y : Value) : Question Bool
  /-- The heads of the first cells of a list, of all cells if there is no bound, and the value
  behind them. -/
  | spine (room : Option Nat) (v : Value) : Question (List Suspension × Value)
  /-- The text of a value, with at most `limit` elements of a list or a tuple. -/
  | render (limit : Nat) (v : Value) : Question String

/-- What is to be done for a result of type `α`. -/
inductive Plan (α : Type) : Type 1 where
  | done (outcome : Except EvalError α)
  | ask {β : Type} (question : Question β) (next : β → Plan α)

namespace Plan

variable {α β : Type}

/-- The result of a plan goes to the next one; an error ends both. -/
def andThen : Plan α → (α → Plan β) → Plan β
  | done (.ok a), f => f a
  | done (.error e), _ => done (.error e)
  | ask question next, f => ask question fun b => (next b).andThen f

instance : Monad Plan where
  pure a := done (.ok a)
  bind := andThen

/-- Ends with an error. -/
def fail (e : EvalError) : Plan α :=
  done (.error e)

/-- Asks a question and hands on the answer. -/
def query (question : Question α) : Plan α :=
  ask question fun a => done (.ok a)

/-- The value of a suspension, which is evaluated at every demand. -/
def demand (s : Suspension) : Plan Value :=
  query (.eval s.1 s.2)

/-! ### Patterns -/

mutual

/-- Matches a suspension against a pattern and adds the names bound to those bound before, unless
it does not fit. -/
def matchOne : Pattern → Suspension → Bindings Suspension → Plan (Option (Bindings Suspension))
  | .bind span name, s, bindings =>
    if bindings.binds name then fail (.duplicateBinding name span)
    else return some ((name, s) :: bindings)
  | .wildcard _, _, bindings => return some bindings
  | .integer _ value, s, bindings => do
    match ← demand s with
    | .integer n => return if n == value then some bindings else none
    | _ => return none
  | .boolean _ value, s, bindings => do
    match ← demand s with
    | .boolean b => return if b == value then some bindings else none
    | _ => return none
  | .tuple _ ps, s, bindings => do
    match ← demand s with
    | .tuple elems =>
      if elems.length = ps.length then matchAll ps elems bindings else return none
    | _ => return none
  | .cons _ p q, s, bindings => do
    match ← demand s with
    | .cons head tail =>
      match ← matchOne p head bindings with
      | some bindings => matchOne q tail bindings
      | none => return none
    | _ => return none
  | .nil _, s, bindings => do
    match ← demand s with
    | .nil => return some bindings
    | _ => return none

/-- Matches suspensions against as many patterns, from left to right. -/
def matchAll :
    List Pattern → List Suspension → Bindings Suspension → Plan (Option (Bindings Suspension))
  | p :: ps, s :: ss, bindings => do
    match ← matchOne p s bindings with
    | some bindings => matchAll ps ss bindings
    | none => return none
  | _, _, bindings => return some bindings

end

/-- The first option whose pattern fits, as its body and the names bound. -/
def firstMatch (s : Suspension) :
    List (Pattern × Expr) → Plan (Option (Expr × Bindings Suspension))
  | [] => return none
  | (p, body) :: options => do
    match ← matchOne p s [] with
    | some bindings => return some (body, bindings)
    | none => firstMatch s options

/-! ### Expressions -/

/-- A pure result as a plan. -/
def ofExcept (outcome : Except EvalError α) : Plan α :=
  done outcome

/-- An integer operand, found at `span`. -/
def expectInteger (span : Span) : Value → Plan Int
  | .integer n => return n
  | v => fail (.typeMismatch "integer" v.typeName span)

/-- The result of a built-in operation on two integers. -/
def arithmetic (span : Span) (op : BinaryOp) (a b : Int) : Plan Value :=
  match op with
  | .pow => return .integer (← ofExcept (Arithmetic.power span a b))
  | .mul => return .integer (← ofExcept (Arithmetic.checked span (a * b)))
  | .add => return .integer (← ofExcept (Arithmetic.checked span (a + b)))
  | .sub => return .integer (← ofExcept (Arithmetic.checked span (a - b)))
  | .lt => return .boolean (a < b)
  | .eq => return .boolean (a == b)

/-- The value of an expression in an environment. -/
def value : Expr → Env → Plan Value
  | .integer _ n, _ => return .integer n
  | .boolean _ b, _ => return .boolean b
  | .identifier span name, env =>
    match env.lookup name with
    | some s => demand s
    | none => fail (.unboundVariable name span)
  | .condition _ test yes no, env => do
    match ← query (.eval test env) with
    | .boolean true => query (.eval yes env)
    | .boolean false => query (.eval no env)
    | v => fail (.typeMismatch "boolean" v.typeName test.span)
  | .binary span .eq lhs rhs, env => do
    let x ← query (.eval lhs env)
    let y ← query (.eval rhs env)
    return .boolean (← query (.equal span x y))
  | .binary span op lhs rhs, env => do
    let a ← expectInteger lhs.span (← query (.eval lhs env))
    let b ← expectInteger rhs.span (← query (.eval rhs env))
    arithmetic span op a b
  | .lambda _ param body, env => return .closure param body env
  | .apply span func arg, env => do
    match ← query (.eval func env) with
    | .closure param body closureEnv =>
      match ← matchOne param (arg, env) [] with
      | some bindings => query (.eval body (.frame bindings closureEnv))
      | none => fail (.patternMismatch "function argument" span)
    | v => fail (.notAFunction v.typeName func.span)
  | .bind span pattern bound body, env =>
    match pattern.name? with
    | some name => query (.eval body (.recursive name bound env))
    | none => do
      match ← matchOne pattern (bound, env) [] with
      | some bindings => query (.eval body (.frame bindings env))
      | none => fail (.patternMismatch "let" span)
  | .cases span subject options, env => do
    match ← firstMatch (subject, env) options with
    | some (body, bindings) => query (.eval body (.frame bindings env))
    | none => fail (.nonExhaustive span)
  | .tuple _ elems, env => return .tuple (elems.map fun e => (e, env))
  | .cons _ head tail, env => return .cons (head, env) (tail, env)
  | .nil _, _ => return .nil

/-! ### Comparison -/

/-- Compares the values of two suspensions. -/
def compareElement (span : Span) (s t : Suspension) : Plan Bool := do
  let v ← demand s
  let w ← demand t
  query (.equal span v w)

/-- Compares suspended elements pairwise, from left to right, up to the first difference. -/
def compareAll (span : Span) : List Suspension → List Suspension → Plan Bool
  | s :: ss, t :: ts => do
    if ← compareElement span s t then compareAll span ss ts else return false
  | _, _ => return true

/-- Compares two values. -/
def compare (span : Span) : Value → Value → Plan Bool
  | .closure .., _ | _, .closure .. => fail (.typeMismatch "comparable value" "function" span)
  | .integer a, .integer b => return a == b
  | .boolean a, .boolean b => return a == b
  | .nil, .nil => return true
  | .nil, .cons .. | .cons .., .nil => return false
  | .tuple ss, .tuple ts =>
    if ss.length = ts.length then compareAll span ss ts else return false
  | .cons h t, .cons h' t' => do
    if ← compareElement span h h' then compareElement span t t' else return false
  | x, y => fail (.typeMismatch x.typeName y.typeName span)

/-! ### Printing -/

/-- The heads of the first cells of a list and the value behind them. -/
def cells : Option Nat → Value → Plan (List Suspension × Value)
  | some 0, v => return ([], v)
  | room, .cons head tail => do
    let next ← demand tail
    let (heads, last) ← query (.spine (room.map (· - 1)) next)
    return (head :: heads, last)
  | _, v => return ([], v)

/-- The text of a suspended element. -/
def renderElement (limit : Nat) (s : Suspension) : Plan String := do
  let v ← demand s
  query (.render limit v)

/-- The texts of suspended elements, with commas between them. -/
def commaSeparated (limit : Nat) : List Suspension → Plan String
  | [] => return ""
  | [s] => renderElement limit s
  | s :: ss => do
    let first ← renderElement limit s
    let rest ← commaSeparated limit ss
    return first ++ ", " ++ rest

/-- The texts of suspended elements, with a colon behind each. -/
def colonTerminated (limit : Nat) : List Suspension → Plan String
  | [] => return ""
  | s :: ss => do
    let first ← renderElement limit s
    let rest ← colonTerminated limit ss
    return first ++ " : " ++ rest

/-- The text of a value.  The limit `0` holds for tuples only. -/
def text (limit : Nat) : Value → Plan String
  | .integer n => return toString n
  | .boolean b => return toString b
  | .closure .. => return "<function>"
  | .nil => return "[]"
  | .tuple elems => do
    let shown ← commaSeparated limit (elems.take limit)
    let dots := if elems.length ≤ limit then "" else if limit = 0 then "..." else ", ..."
    return "(" ++ shown ++ dots ++ ")"
  | .cons head tail => do
    let room := if limit = 0 then none else some (limit - 1)
    let (heads, last) ← query (.spine room (← demand tail))
    match last with
    | .nil => return "[" ++ (← commaSeparated limit (head :: heads)) ++ "]"
    | .cons .. => return "[" ++ (← commaSeparated limit (head :: heads)) ++ ", ...]"
    | last =>
      let shown ← colonTerminated limit (head :: heads)
      return shown ++ (← query (.render limit last))

end Plan

/-! ### Derivations -/

/-- How a question is answered. -/
def Question.plan {α : Type} : Question α → Plan α
  | eval e env => Plan.value e env
  | equal span x y => Plan.compare span x y
  | spine room v => Plan.cells room v
  | render limit v => Plan.text limit v

/-- The plan has the outcome, by a finite derivation. -/
inductive Derives : {α : Type} → Plan α → Except EvalError α → Prop where
  | done {α : Type} (outcome : Except EvalError α) : Derives (.done outcome) outcome
  | answer {α β : Type} {question : Question β} {next : β → Plan α} {b : β}
      {outcome : Except EvalError α} (hplan : Derives question.plan (.ok b))
      (hnext : Derives (next b) outcome) : Derives (.ask question next) outcome
  | error {α β : Type} {question : Question β} {next : β → Plan α} {e : EvalError}
      (hplan : Derives question.plan (.error e)) : Derives (.ask question next) (.error e)

/-- A whole program: the expression is evaluated in the root, and its value printed. -/
def program (limit : Nat) (e : Expr) : Plan String := do
  let v ← Plan.query (.eval e .root)
  Plan.query (.render limit v)

end CallByNeed.ByName

import CallByNeed.Machine
import CallByNeed.Match
import CallByNeed.Evaluator
import CallByNeed.Proofs.Afresh.Plan

/-!
# Evaluation afresh

The language without memory, started from a machine.  What the machine has when it is given is
referred to by its addresses; whatever is suspended or bound from then on is kept as a tree, so that
nothing is ever changed, and every demand evaluates once more.  Of the given machine only the values
are used that had been found before.

The evaluation of a suspension that was being evaluated when the machine was given cannot be
answered: it asks a question that asks itself (`Question.never`).

The plans follow the evaluator rule by rule, so that a suspension has the same value whenever it is
demanded.
-/

namespace CallByNeed.Afresh

/-! ### Environments and values -/

mutual

/-- Environments: those of a given machine, and frames that have been added to others.  The frame of
a recursive `let` binds one name, whose expression belongs to the frame itself. -/
inductive Env where
  | given (m : Machine) (id : EnvId)
  | frame (bindings : List (String × Suspension)) (parent : Env)
  | recursive (name : String) (value : Expr) (parent : Env)

/-- Suspensions: those of a given machine, and expressions with the environment they belong to. -/
inductive Suspension where
  | given (m : Machine) (t : ThunkId)
  | made (e : Expr) (env : Env)

end

/-- What a name stands for. -/
def Env.lookup : Env → String → Option Suspension
  | given m id, name => (m.environments.lookup id name).map (.given m)
  | frame bindings parent, name =>
    match Bindings.find? bindings name with
    | some s => some s
    | none => parent.lookup name
  | recursive x value parent, name =>
    if name == x then some (.made value (recursive x value parent)) else parent.lookup name

/-- Values in weak head normal form. -/
inductive Value where
  | integer (value : Int)
  | boolean (value : Bool)
  | closure (param : Pattern) (body : Expr) (env : Env)
  | tuple (elems : List Suspension)
  | cons (head tail : Suspension)
  | nil

/-- The word for a value's kind in messages. -/
def Value.typeName : Value → String
  | integer _ => "integer"
  | boolean _ => "boolean"
  | closure .. => "function"
  | tuple _ => "tuple"
  | cons .. | nil => "list"

/-- A value of a given machine. -/
def Value.given (m : Machine) : CallByNeed.Value → Value
  | .integer n => integer n
  | .boolean b => boolean b
  | .closure param body id => closure param body (.given m id)
  | .tuple ts => tuple (ts.map (.given m))
  | .cons head tail => cons (.given m head) (.given m tail)
  | .nil => nil

/-! ### Questions and plans -/

/-- What can be asked for, with the type of the answer. -/
inductive Question : Type → Type where
  /-- The value of an expression. -/
  | eval (e : Expr) (env : Env) : Question Value
  /-- Whether two values are equal, for the `==` at `span`. -/
  | equal (span : Span) (x y : Value) : Question Bool
  /-- A value that is never found. -/
  | never : Question Value

/-- What is to be done for a result of type `α`. -/
abbrev Inquiry (α : Type) :=
  Plan Question α

/-- The value of a suspension, which is evaluated at every demand. -/
def demand : Suspension → Inquiry Value
  | .made e env => Plan.query (.eval e env)
  | .given m t =>
    match m.cell t with
    | .pending e id => Plan.query (.eval e (.given m id))
    | .forcing .. => Plan.query .never
    | .evaluated v => return .given m v

namespace Inquiry

open Plan (query fail)

variable {α : Type}

/-! ### Patterns -/

mutual

/-- Matches a suspension against a pattern and adds the names bound to those bound before, unless
it does not fit. -/
def matchOne : Pattern → Suspension → Bindings Suspension → Inquiry (Option (Bindings Suspension))
  | .bind span name, s, bindings =>
    if bindings.binds name then fail (.duplicateBinding name span)
    else return some ((name, s) :: bindings)
  | .wildcard _, _, bindings => return some bindings
  | .integer _ value, s, bindings => do
    match ← demand s with
    | .integer n => return if n == value then some bindings else none
    | _ => return none
  | .boolean _ value, s, bindings => do
    match ← demand s with
    | .boolean b => return if b == value then some bindings else none
    | _ => return none
  | .tuple _ ps, s, bindings => do
    match ← demand s with
    | .tuple elems =>
      if elems.length = ps.length then matchAll ps elems bindings else return none
    | _ => return none
  | .cons _ p q, s, bindings => do
    match ← demand s with
    | .cons head tail =>
      match ← matchOne p head bindings with
      | some bindings => matchOne q tail bindings
      | none => return none
    | _ => return none
  | .nil _, s, bindings => do
    match ← demand s with
    | .nil => return some bindings
    | _ => return none

/-- Matches suspensions against as many patterns, from left to right. -/
def matchAll :
    List Pattern → List Suspension → Bindings Suspension → Inquiry (Option (Bindings Suspension))
  | p :: ps, s :: ss, bindings => do
    match ← matchOne p s bindings with
    | some bindings => matchAll ps ss bindings
    | none => return none
  | _, _, bindings => return some bindings

end

/-- The first option whose pattern fits, as its body and the names bound. -/
def firstMatch (s : Suspension) :
    List (Pattern × Expr) → Inquiry (Option (Expr × Bindings Suspension))
  | [] => return none
  | (p, body) :: options => do
    match ← matchOne p s [] with
    | some bindings => return some (body, bindings)
    | none => firstMatch s options

/-! ### Expressions -/

/-- A pure result as a plan. -/
def ofExcept (outcome : Except EvalError α) : Inquiry α :=
  .done outcome

/-- An integer operand, found at `span`. -/
def expectInteger (span : Span) : Value → Inquiry Int
  | .integer n => return n
  | v => fail (.typeMismatch "integer" v.typeName span)

/-- The result of a built-in operation on two integers. -/
def arithmetic (span : Span) (op : BinaryOp) (a b : Int) : Inquiry Value :=
  match op with
  | .pow => return .integer (← ofExcept (Arithmetic.power span a b))
  | .mul => return .integer (← ofExcept (Arithmetic.checked span (a * b)))
  | .add => return .integer (← ofExcept (Arithmetic.checked span (a + b)))
  | .sub => return .integer (← ofExcept (Arithmetic.checked span (a - b)))
  | .lt => return .boolean (a < b)
  | .eq => return .boolean (a == b)

/-- The value of an expression in an environment. -/
def value : Expr → Env → Inquiry Value
  | .integer _ n, _ => return .integer n
  | .boolean _ b, _ => return .boolean b
  | .identifier span name, env =>
    match env.lookup name with
    | some s => demand s
    | none => fail (.unboundVariable name span)
  | .condition _ test yes no, env => do
    match ← query (.eval test env) with
    | .boolean true => query (.eval yes env)
    | .boolean false => query (.eval no env)
    | v => fail (.typeMismatch "boolean" v.typeName test.span)
  | .binary span .eq lhs rhs, env => do
    let x ← query (.eval lhs env)
    let y ← query (.eval rhs env)
    return .boolean (← query (.equal span x y))
  | .binary span op lhs rhs, env => do
    let a ← expectInteger lhs.span (← query (.eval lhs env))
    let b ← expectInteger rhs.span (← query (.eval rhs env))
    arithmetic span op a b
  | .lambda _ param body, env => return .closure param body env
  | .apply span func arg, env => do
    match ← query (.eval func env) with
    | .closure param body closureEnv =>
      match ← matchOne param (.made arg env) [] with
      | some bindings => query (.eval body (.frame bindings closureEnv))
      | none => fail (.patternMismatch "function argument" span)
    | v => fail (.notAFunction v.typeName func.span)
  | .bind span pattern bound body, env =>
    match pattern.name? with
    | some name => query (.eval body (.recursive name bound env))
    | none => do
      match ← matchOne pattern (.made bound env) [] with
      | some bindings => query (.eval body (.frame bindings env))
      | none => fail (.patternMismatch "let" span)
  | .cases span subject options, env => do
    match ← firstMatch (.made subject env) options with
    | some (body, bindings) => query (.eval body (.frame bindings env))
    | none => fail (.nonExhaustive span)
  | .tuple _ elems, env => return .tuple (elems.map fun e => .made e env)
  | .cons _ head tail, env => return .cons (.made head env) (.made tail env)
  | .nil _, _ => return .nil

/-! ### Comparison -/

/-- Compares the values of two suspensions. -/
def compareElement (span : Span) (s t : Suspension) : Inquiry Bool := do
  let v ← demand s
  let w ← demand t
  query (.equal span v w)

/-- Compares suspended elements pairwise, from left to right, up to the first difference. -/
def compareAll (span : Span) : List Suspension → List Suspension → Inquiry Bool
  | s :: ss, t :: ts => do
    if ← compareElement span s t then compareAll span ss ts else return false
  | _, _ => return true

/-- Compares two values. -/
def compare (span : Span) : Value → Value → Inquiry Bool
  | .closure .., _ | _, .closure .. => fail (.typeMismatch "comparable value" "function" span)
  | .integer a, .integer b => return a == b
  | .boolean a, .boolean b => return a == b
  | .nil, .nil => return true
  | .nil, .cons .. | .cons .., .nil => return false
  | .tuple ss, .tuple ts =>
    if ss.length = ts.length then compareAll span ss ts else return false
  | .cons h t, .cons h' t' => do
    if ← compareElement span h h' then compareElement span t t' else return false
  | x, y => fail (.typeMismatch x.typeName y.typeName span)

end Inquiry

/-- How the questions are answered. -/
instance : Rules Question where
  plan
    | .eval e env => Inquiry.value e env
    | .equal span x y => Inquiry.compare span x y
    | .never => Plan.query .never

end CallByNeed.Afresh

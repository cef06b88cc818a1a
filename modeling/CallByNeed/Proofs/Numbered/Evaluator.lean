import CallByNeed.Evaluator
import CallByNeed.Proofs.Building.Growth
import CallByNeed.Render

/-!
# Evaluation by number

The evaluator hands trees from call to call, and its functions and suspensions hold trees.  An
interpreter of an arena hands numbers: a function holds the numbers of its parameter and of its
body, and a suspension that of its expression.  This module evaluates in that way.  Every access is
checked, to a node or its span, to a frame and to a cell, and one that finds nothing stops the run
(`Stop.dangling`), as does a search for a name that does not come to the end of its chain.

Each call of the interpreter notes the machine when it begins and when it ends, whichever way it
ends, together with what it has been given and what it yields (`Moment`).
-/

namespace CallByNeed

/-- Looks a name up frame by frame, in as many frames as the number says.  Every index has to be
that of a frame, and the chain has to end: otherwise there is no answer. -/
def Environments.search {α : Type} (envs : Environments α) (name : String) :
    Nat → EnvId → Option (Option α)
  | 0, _ => none
  | room + 1, env =>
    match envs.frames[env]? with
    | none => none
    | some frame =>
      match frame.bindings.find? name, frame.parent with
      | some value, _ => some (some value)
      | none, none => some none
      | none, some parent => envs.search name room parent

namespace Numbered

/-! ### Machines -/

/-- Values in weak head normal form.  A function is known by the numbers of its parts. -/
inductive Value where
  | integer (value : Int)
  | boolean (value : Bool)
  | closure (param : PatternId) (body : ExprId) (env : EnvId)
  | tuple (elems : List ThunkId)
  | cons (head tail : ThunkId)
  | nil

/-- The word for a value's kind in messages. -/
def Value.typeName : Value → String
  | integer _ => "integer"
  | boolean _ => "boolean"
  | closure .. => "function"
  | tuple _ => "tuple"
  | cons .. | nil => "list"

/-- The state of a suspension. -/
inductive Cell where
  | pending (expr : ExprId) (env : EnvId)
  | forcing (expr : ExprId) (env : EnvId)
  | evaluated (value : Value)

/-- All environments and all suspensions, and the counters. -/
structure Machine where
  environments : Environments ThunkId
  cells : Array Cell
  created : Nat
  evaluated : Nat
  hits : Nat

/-- What a call is given, or what it yields. -/
inductive Event where
  | evaluation (id : ExprId) (env : EnvId)
  | demand (t : ThunkId)
  | matching (id : PatternId) (t : ThunkId)
  | comparison (x y : Value)
  | printing (v : Value)
  | value (v : Value)
  | bindings (found : Option (Bindings ThunkId))
  /-- The call yields a truth value or a text. -/
  | result
  | failure

/-- The machine when a call begins or ends. -/
structure Moment where
  event : Event
  machine : Machine

/-- A machine, and all moments so far, the latest last. -/
structure State where
  machine : Machine
  history : List Moment

/-- Why a run yields nothing. -/
inductive Stop where
  | error (e : EvalError)
  /-- There is nothing at an index. -/
  | dangling

/-- Computations with numbers. -/
abbrev Run (α : Type) :=
  EStateM Stop State α

namespace Machine

/-- The machine before a run. -/
def initial : Machine :=
  ⟨.initial, #[], 0, 0, 0⟩

/-- Replaces the cell at an address. -/
def setCell (m : Machine) (t : ThunkId) (c : Cell) : Machine :=
  { m with cells := m.cells.setIfInBounds t c }

/-- Allocates a cell at the next address. -/
def allocate (m : Machine) (c : Cell) : Machine :=
  { m with cells := m.cells.push c }

/-- Pushes a frame. -/
def push (m : Machine) (parent : EnvId) (bindings : Bindings ThunkId) : Machine :=
  { m with environments := (m.environments.push parent bindings).2 }

/-- Binds a name in the root to a value that needs no evaluation. -/
def define (m : Machine) (name : String) (v : Value) : Machine :=
  { m.allocate (.evaluated v) with environments := m.environments.define name m.cells.size }

end Machine

namespace State

/-- The state before a run. -/
def initial : State :=
  ⟨.initial, []⟩

/-- Notes the machine. -/
def note (s : State) (event : Event) : State :=
  { s with history := s.history ++ [⟨event, s.machine⟩] }

/-- Changes the machine. -/
def onMachine (s : State) (f : Machine → Machine) : State :=
  { s with machine := f s.machine }

end State

section Basics

variable {α : Type}

/-- A call, noted when it begins and when it ends. -/
def noted (enter : Event) (leave : α → Event) (x : Run α) : Run α := fun s =>
  match x (s.note enter) with
  | .ok v s => .ok v (s.note (leave v))
  | .error why s => .error why (s.note .failure)

/-- Fails with an error of the program. -/
def fail (e : EvalError) : Run α :=
  throw (.error e)

/-- What stands at an index. -/
def fetch (xs : Array α) (i : Nat) : Run α :=
  match xs[i]? with
  | some x => pure x
  | none => throw .dangling

end Basics

/-- Counts a demand that was answered by a value found before. -/
def countHit : Run Unit :=
  modify (·.onMachine fun m => { m with hits := m.hits + 1 })

/-- Suspends an expression. -/
def suspend (id : ExprId) (env : EnvId) : Run ThunkId :=
  modifyGet fun s =>
    (s.machine.cells.size,
      s.onMachine fun m => { m.allocate (.pending id env) with created := m.created + 1 })

/-- Suspends several expressions, from left to right. -/
def suspendAll (env : EnvId) : List ExprId → Run (List ThunkId)
  | [] => return []
  | id :: ids => do
    let t ← suspend id env
    let ts ← suspendAll env ids
    return t :: ts

/-- Pushes a frame on an environment. -/
def pushFrame (parent : EnvId) (bindings : Bindings ThunkId) : Run EnvId :=
  modifyGet fun s => (s.machine.environments.fresh, s.onMachine (·.push parent bindings))

/-- Pushes a frame that binds a name to the suspension of an expression in that very frame.  The
suspension and the frame are made in one step. -/
def pushRecursive (parent : EnvId) (name : String) (id : ExprId) : Run EnvId :=
  modifyGet fun s =>
    let env := s.machine.environments.fresh
    let t := s.machine.cells.size
    (env, s.onMachine fun m =>
      { (m.allocate (.pending id env)).push parent [(name, t)] with created := m.created + 1 })

/-- What a name stands for.  A chain has no more frames than there are. -/
def lookup (env : EnvId) (name : String) : Run (Option ThunkId) := fun s =>
  let envs := s.machine.environments
  match envs.search name envs.size env with
  | some found => .ok found s
  | none => .error .dangling s

section Nodes

variable (a : Arena)

/-- The node of an expression. -/
def exprNode (id : ExprId) : Run ExprNode := do
  return (← fetch a.exprs id).value

/-- Where an expression was read. -/
def exprSpan (id : ExprId) : Run Span := do
  return (← fetch a.exprs id).span

/-- The node of a pattern. -/
def patternNode (id : PatternId) : Run PatternNode := do
  return (← fetch a.patterns id).value

/-- Where a pattern was read. -/
def patternSpan (id : PatternId) : Run Span := do
  return (← fetch a.patterns id).span

/-! ### Demands and matches -/

/-- What a demand does with the cell that it finds.  The cell is marked while its expression is
evaluated, and the mark goes away with the value or with the failure. -/
def answer (eval : ExprId → EnvId → Run Value) (t : ThunkId) : Cell → Run Value
  | .evaluated v => do
    countHit
    return v
  | .forcing id _ => do fail (.infiniteLoop (← exprSpan a id))
  | .pending id env => do
    modify (·.onMachine (·.setCell t (.forcing id env)))
    fun s =>
      match eval id env s with
      | .ok v s => .ok v (s.onMachine fun m =>
          { m.setCell t (.evaluated v) with evaluated := m.evaluated + 1 })
      | .error why s => .error why (s.onMachine (·.setCell t (.pending id env)))

/-- The value of a suspension, found with `eval` at the first demand. -/
def force (eval : ExprId → EnvId → Run Value) (t : ThunkId) : Run Value :=
  noted (.demand t) .value do answer a eval t (← fetch (← get).machine.cells t)

/-- How a suspension is matched against a pattern when some names are bound already. -/
abbrev Matcher :=
  PatternId → ThunkId → Bindings ThunkId → Run (Option (Bindings ThunkId))

/-- Matches suspensions against as many patterns, from left to right. -/
def matchAll (one : Matcher) :
    List PatternId → List ThunkId → Bindings ThunkId → Run (Option (Bindings ThunkId))
  | p :: ps, t :: ts, bindings => do
    match ← one p t bindings with
    | some bindings => matchAll one ps ts bindings
    | none => return none
  | _, _, bindings => return some bindings

/-- Matches a suspension against a pattern that is nested less deeply than the number says, and
yields all names bound if it fits. -/
def matchOne (force : ThunkId → Run Value) : Nat → Matcher
  | 0, _, _, _ => throw .dangling
  | room + 1, p, t, bindings => noted (.matching p t) .bindings do
    match ← patternNode a p with
    | .bind name =>
      if bindings.binds name then fail (.duplicateBinding name (← patternSpan a p))
      else return some ((name, t) :: bindings)
    | .wildcard => return some bindings
    | .integer value =>
      match ← force t with
      | .integer n => return if n == value then some bindings else none
      | _ => return none
    | .boolean value =>
      match ← force t with
      | .boolean b => return if b == value then some bindings else none
      | _ => return none
    | .tuple ps =>
      match ← force t with
      | .tuple ts =>
        if ts.length = ps.length then matchAll (matchOne force room) ps ts bindings
        else return none
      | _ => return none
    | .cons p q =>
      match ← force t with
      | .cons head tail =>
        match ← matchOne force room p head bindings with
        | some bindings => matchOne force room q tail bindings
        | none => return none
      | _ => return none
    | .nil =>
      match ← force t with
      | .nil => return some bindings
      | _ => return none

/-- Matches a suspension against a pattern.  In an arena without cycles patterns are nested less
deeply than there are nodes. -/
def bindMatch (force : ThunkId → Run Value) : Matcher :=
  matchOne a force a.patterns.size

/-- The first option whose pattern fits, as its body and the names bound. -/
def firstMatch (one : Matcher) (t : ThunkId) :
    List (PatternId × ExprId) → Run (Option (ExprId × Bindings ThunkId))
  | [] => return none
  | (p, body) :: options => do
    match ← one p t [] with
    | some bindings => return some (body, bindings)
    | none => firstMatch one t options

/-! ### Evaluation -/

/-- An integer operand. -/
def expectInteger (id : ExprId) : Value → Run Int
  | .integer n => return n
  | v => do fail (.typeMismatch "integer" v.typeName (← exprSpan a id))

/-- The result of a built-in operation on two integers. -/
def arithmetic (span : Span) (op : BinaryOp) (x y : Int) : Run Value :=
  match op with
  | .pow => ofExcept (Arithmetic.power span x y)
  | .mul => ofExcept (Arithmetic.checked span (x * y))
  | .add => ofExcept (Arithmetic.checked span (x + y))
  | .sub => ofExcept (Arithmetic.checked span (x - y))
  | .lt => return .boolean (x < y)
  | .eq => return .boolean (x == y)
where
  /-- An integer or an error. -/
  ofExcept : Except EvalError Int → Run Value
    | .ok n => return .integer n
    | .error e => fail e

/-- One step of the evaluation of an expression, with `eval` for what it needs and `equal` for
comparisons. -/
def step (eval : ExprId → EnvId → Run Value) (equal : Span → Value → Value → Run Bool)
    (id : ExprId) (env : EnvId) : Run Value := do
  let one := bindMatch a (force a eval)
  match ← exprNode a id with
  | .integer value => return .integer value
  | .boolean value => return .boolean value
  | .identifier name =>
    match ← lookup env name with
    | some t => force a eval t
    | none => fail (.unboundVariable name (← exprSpan a id))
  | .condition test yes no =>
    match ← eval test env with
    | .boolean true => eval yes env
    | .boolean false => eval no env
    | v => fail (.typeMismatch "boolean" v.typeName (← exprSpan a test))
  | .binary op lhs rhs =>
    let span ← exprSpan a id
    if op = .eq then
      let x ← eval lhs env
      let y ← eval rhs env
      return .boolean (← equal span x y)
    else
      let x ← expectInteger a lhs (← eval lhs env)
      let y ← expectInteger a rhs (← eval rhs env)
      arithmetic span op x y
  | .lambda param body => return .closure param body env
  | .apply func arg =>
    match ← eval func env with
    | .closure param body closureEnv =>
      let t ← suspend arg env
      match ← one param t [] with
      | some bindings => eval body (← pushFrame closureEnv bindings)
      | none => fail (.patternMismatch "function argument" (← exprSpan a id))
    | v => fail (.notAFunction v.typeName (← exprSpan a func))
  | .bind pattern value body =>
    match ← patternNode a pattern with
    | .bind name => eval body (← pushRecursive env name value)
    | _ =>
      let t ← suspend value env
      match ← one pattern t [] with
      | some bindings => eval body (← pushFrame env bindings)
      | none => fail (.patternMismatch "let" (← exprSpan a id))
  | .cases subject options =>
    let t ← suspend subject env
    match ← firstMatch one t options with
    | some (body, bindings) => eval body (← pushFrame env bindings)
    | none => fail (.nonExhaustive (← exprSpan a id))
  | .tuple elems => return .tuple (← suspendAll env elems)
  | .cons head tail =>
    let h ← suspend head env
    let t ← suspend tail env
    return .cons h t
  | .nil => return .nil

end Nodes

/-! ### Comparison and printing -/

section Values

variable (config : Config)

/-- Compares suspended elements pairwise, up to the first difference. -/
def compareAll (element : ThunkId → ThunkId → Run Bool) : List ThunkId → List ThunkId → Run Bool
  | x :: xs, y :: ys => do if ← element x y then compareAll element xs ys else return false
  | _, _ => return true

/-- Compares two values, walking along two lists for at most as many cells as the last number
says. -/
def compareWith (force : ThunkId → Run Value) (nested : Value → Value → Run Bool) (span : Span) :
    Nat → Value → Value → Run Bool
  | 0, _, _ => fail (.spineLimit config.spineLimit span)
  | room + 1, x, y => do
    let element (s t : ThunkId) : Run Bool := do
      let v ← force s
      let w ← force t
      nested v w
    match x, y with
    | .closure .., _ | _, .closure .. =>
      fail (.typeMismatch "comparable value" "function" span)
    | .integer a, .integer b => return a == b
    | .boolean a, .boolean b => return a == b
    | .nil, .nil => return true
    | .nil, .cons .. | .cons .., .nil => return false
    | .tuple xs, .tuple ys =>
      if xs.length = ys.length then compareAll element xs ys else return false
    | .cons h t, .cons h' t' =>
      if ← element h h' then
        let v ← force t
        let w ← force t'
        compareWith force nested span room v w
      else return false
    | x, y => fail (.typeMismatch x.typeName y.typeName span)

/-- The texts of suspended elements, with commas between them. -/
def commaSeparated (element : ThunkId → Run String) : List ThunkId → Run String
  | [] => return ""
  | [t] => element t
  | t :: ts => do
    let first ← element t
    let rest ← commaSeparated element ts
    return first ++ ", " ++ rest

/-- The text of a tuple that shows at most `limit` elements. -/
def renderTuple (limit : Nat) (element : ThunkId → Run String) (ts : List ThunkId) :
    Run String := do
  let shown ← commaSeparated element (ts.take limit)
  let dots := if ts.length ≤ limit then "" else if limit = 0 then "..." else ", ..."
  return "(" ++ shown ++ dots ++ ")"

/-- Walks along a list for at most `room` cells.  Yields their heads and the value behind them. -/
def spine (force : ThunkId → Run Value) : Nat → Value → Run (List ThunkId × Value)
  | room + 1, .cons head tail => do
    let next ← force tail
    let (heads, last) ← spine force room next
    return (head :: heads, last)
  | _, v => return ([], v)

/-- The texts of suspended elements, with a colon behind each. -/
def colonTerminated (element : ThunkId → Run String) : List ThunkId → Run String
  | [] => return ""
  | t :: ts => do
    let first ← element t
    let rest ← colonTerminated element ts
    return first ++ " : " ++ rest

/-- The text of a value. -/
def renderWith (force : ThunkId → Run Value) (nested : Value → Run String) :
    Value → Run String
  | .integer n => return toString n
  | .boolean b => return toString b
  | .closure .. => return "<function>"
  | .nil => return "[]"
  | .tuple ts => renderTuple config.renderLimit (fun t => do nested (← force t)) ts
  | .cons head tail => do
    let element (t : ThunkId) : Run String := do nested (← force t)
    let room := if config.renderLimit = 0 then config.spineLimit else config.renderLimit - 1
    let (heads, last) ← spine force room (← force tail)
    match last with
    | .nil => return "[" ++ (← commaSeparated element (head :: heads)) ++ "]"
    | .cons .. =>
      if config.renderLimit = 0 then fail (.spineLimit config.spineLimit .unknown)
      else return "[" ++ (← commaSeparated element (head :: heads)) ++ ", ...]"
    | last =>
      let shown ← colonTerminated element (head :: heads)
      countHit
      return shown ++ (← nested last)

end Values

/-! ### Levels -/

section Levels

variable (a : Arena) (config : Config)

/-- What can be done with a number of levels left. -/
structure Level where
  eval : ExprId → EnvId → Run Value
  equal : Span → Value → Value → Run Bool

/-- Evaluation and comparison with the given number of levels left.  The span of an expression is
read at every call. -/
def level : Nat → Level
  | 0 =>
    let eval id env := noted (.evaluation id env) .value do
      fail (.recursionLimit config.maxDepth (← exprSpan a id))
    { eval
      equal span x y := noted (.comparison x y) (fun _ => .result)
        (compareWith config (force a eval)
          (fun _ _ => fail (.recursionLimit config.maxDepth span)) span (config.spineLimit + 1)
          x y) }
  | n + 1 =>
    let eval id env := noted (.evaluation id env) .value do
      discard <| exprSpan a id
      step a (level n).eval (level n).equal id env
    { eval
      equal span x y := noted (.comparison x y) (fun _ => .result)
        (compareWith config (force a eval) ((level n).equal span) span (config.spineLimit + 1)
          x y) }

/-- The text of a value, with the given number of levels left. -/
def renderAt : Nat → Value → Run String
  | 0, v => noted (.printing v) (fun _ => .result)
      (renderWith config (force a (level a config 0).eval)
        (fun _ => fail (.recursionLimit config.maxDepth .unknown)) v)
  | n + 1, v => noted (.printing v) (fun _ => .result)
      (renderWith config (force a (level a config (n + 1)).eval) (renderAt n) v)

/-! ### Calls -/

/-- What can be asked of an interpreter. -/
inductive Call where
  | evaluate (id : ExprId)
  | force (t : ThunkId)
  | bindMatch (p : PatternId) (t : ThunkId) (bindings : Bindings ThunkId)
  | render (v : Value)

/-- What it answers. -/
inductive Answer where
  | value (v : Value)
  | bindings (found : Option (Bindings ThunkId))
  | text (s : String)

/-- The value of a suspension. -/
def demand (t : ThunkId) : Run Value :=
  force a (level a config config.maxDepth).eval t

/-- A call as a computation. -/
def Call.run : Call → Run Answer
  | evaluate id => do
    return .value (← (level a config config.maxDepth).eval id Environments.root)
  | force t => do return .value (← demand a config t)
  | bindMatch p t bindings => do
    return .bindings (← Numbered.bindMatch a (demand a config) p t bindings)
  | render v => do return .text (← renderAt a config config.maxDepth v)

end Levels

end Numbered

end CallByNeed

import CallByNeed.Proofs.ByName.Evaluation
import CallByNeed.Render

/-!
# The evaluator over any monad

Matching, one step of the evaluation, comparison and printing are open in how values are demanded
and in how deeper evaluations are made: these are parameters of theirs.  Nothing else in them
depends on what a computation is, so that they can be read in any monad into which evaluations
lift.  This module gives that reading (`Scheme.step`, `Scheme.compareWith`, `Scheme.renderWith`).

A relation between the computations of such a monad and evaluations that is closed under sequencing
(`Correspondence`) therefore extends from the parameters to the whole step: this is proved once for
each function (`Correspondence.step`, …).  Equality is such a relation, and shows that the scheme
read in the monad of evaluations is the evaluator.  What a run with another limit does, and what a
run that counts its nesting does, are two more.
-/

namespace CallByNeed

/-! ### What a step does to the machine by itself -/

/-- The evaluation is made of reading the machine, failing, counting, suspending and pushing
frames.  It demands no value. -/
inductive Eval.Basic : {α : Type} → Eval α → Prop where
  | pure {α : Type} (a : α) : Basic (pure a : Eval α)
  | bind {α β : Type} {x : Eval α} {f : α → Eval β} (hx : Basic x) (hf : ∀ a, Basic (f a)) :
    Basic (x >>= f)
  | read {α : Type} (f : Machine → α) : Basic (do return f (← get))
  | throw {α : Type} (e : EvalError) : Basic (throw e : Eval α)
  | countHit : Basic countHit
  | suspend (e : Expr) (env : EnvId) : Basic (suspend e env)
  | pushFrame (parent : EnvId) (bindings : Bindings ThunkId) : Basic (pushFrame parent bindings)
  | pushRecursive (parent : EnvId) (name : String) (e : Expr) :
    Basic (pushRecursive parent name e)

namespace Eval

theorem basic_suspendAll (env : EnvId) (es : List Expr) : Basic (suspendAll env es) := by
  induction es with
  | nil => exact .pure []
  | cons e es ih => exact .bind (.suspend e env) fun t => .bind ih fun ts => .pure (t :: ts)

theorem basic_expectInteger (span : Span) (v : Value) : Basic (expectInteger span v) := by
  cases v with
  | integer n => exact .pure n
  | _ => exact .throw _

theorem basic_ofExcept {α : Type} (x : Except EvalError α) : Basic (ofExcept x) := by
  cases x with
  | ok a => exact .pure a
  | error e => exact .throw e

theorem basic_arithmetic (span : Span) (op : BinaryOp) (a b : Int) :
    Basic (arithmetic span op a b) := by
  cases op with
  | lt => exact .pure _
  | eq => exact .pure _
  | _ => exact .bind (basic_ofExcept _) fun n => .pure (Value.integer n)

/-- A name stands for what its binding is evaluated to. -/
theorem step_identifier (eval : Expr → EnvId → Eval Value)
    (equal : Span → Value → Value → Eval Bool) (span : Span) (name : String) (env : EnvId) :
    step eval equal (.identifier span name) env = get >>= fun m =>
      (m.environments.lookup env name).elim (throw (.unboundVariable name span)) (force eval) := by
  rw [step]
  congr 1
  funext m
  cases m.environments.lookup env name <;> rfl

/-- **With no level left a comparison makes no evaluation and compares no elements.** -/
theorem equal_zero (config : Config) (span : Span) :
    equal config 0 span =
      compareWith config (force (eval config 0)) (fun _ _ => limitReached config span) span
        (config.spineLimit + 1) := by
  have heval : eval config 0 = fun e _ => limitReached config e.span := by
    funext e env
    exact eval_zero config e env
  funext x y
  rw [equal, heval]

end Eval

/-! ### The scheme -/

namespace Scheme

variable {M : Type → Type} [Monad M] [MonadLiftT Eval M]

/-- Fails with an error. -/
def fail {α : Type} (e : EvalError) : M α :=
  liftM (throw e : Eval α)

mutual

/-- Matches a suspension against a pattern when some names are bound already, and yields all names
bound if it fits. -/
def matchOne (force : ThunkId → M Value) :
    Pattern → ThunkId → Bindings ThunkId → M (Option (Bindings ThunkId))
  | .bind span name, t, bindings =>
    if bindings.binds name then fail (.duplicateBinding name span)
    else return some ((name, t) :: bindings)
  | .wildcard _, _, bindings => return some bindings
  | .integer _ value, t, bindings => do
    match ← force t with
    | .integer n => return if n == value then some bindings else none
    | _ => return none
  | .boolean _ value, t, bindings => do
    match ← force t with
    | .boolean b => return if b == value then some bindings else none
    | _ => return none
  | .tuple _ ps, t, bindings => do
    match ← force t with
    | .tuple ts => if ts.length = ps.length then matchAll force ps ts bindings else return none
    | _ => return none
  | .cons _ p q, t, bindings => do
    match ← force t with
    | .cons head tail =>
      match ← matchOne force p head bindings with
      | some bindings => matchOne force q tail bindings
      | none => return none
    | _ => return none
  | .nil _, t, bindings => do
    match ← force t with
    | .nil => return some bindings
    | _ => return none

/-- Matches suspensions against as many patterns, from left to right. -/
def matchAll (force : ThunkId → M Value) :
    List Pattern → List ThunkId → Bindings ThunkId → M (Option (Bindings ThunkId))
  | p :: ps, t :: ts, bindings => do
    match ← matchOne force p t bindings with
    | some bindings => matchAll force ps ts bindings
    | none => return none
  | _, _, bindings => return some bindings

end

/-- The first option whose pattern fits, as its body and the names bound. -/
def firstMatch (force : ThunkId → M Value) (t : ThunkId) :
    List (Pattern × Expr) → M (Option (Expr × Bindings ThunkId))
  | [] => return none
  | (p, body) :: options => do
    match ← matchOne force p t [] with
    | some bindings => return some (body, bindings)
    | none => firstMatch force t options

/-- One step of the evaluation of an expression. -/
def step (force : ThunkId → M Value) (eval : Expr → EnvId → M Value)
    (equal : Span → Value → Value → M Bool) : Expr → EnvId → M Value
  | .integer _ value, _ => return .integer value
  | .boolean _ value, _ => return .boolean value
  | .identifier span name, env => do
    let found ← liftM (do return (← get).environments.lookup env name : Eval (Option ThunkId))
    match found with
    | some t => force t
    | none => fail (.unboundVariable name span)
  | .condition _ test yes no, env => do
    match ← eval test env with
    | .boolean true => eval yes env
    | .boolean false => eval no env
    | v => fail (.typeMismatch "boolean" v.typeName test.span)
  | .binary span .eq lhs rhs, env => do
    let x ← eval lhs env
    let y ← eval rhs env
    return .boolean (← equal span x y)
  | .binary span op lhs rhs, env => do
    let a ← liftM (Eval.expectInteger lhs.span (← eval lhs env))
    let b ← liftM (Eval.expectInteger rhs.span (← eval rhs env))
    liftM (Eval.arithmetic span op a b)
  | .lambda _ param body, env => return .closure param body env
  | .apply span func arg, env => do
    match ← eval func env with
    | .closure param body closureEnv =>
      let t ← liftM (Eval.suspend arg env)
      match ← matchOne force param t [] with
      | some bindings => eval body (← liftM (Eval.pushFrame closureEnv bindings))
      | none => fail (.patternMismatch "function argument" span)
    | v => fail (.notAFunction v.typeName func.span)
  | .bind span pattern value body, env => do
    match pattern.name? with
    | some name => eval body (← liftM (Eval.pushRecursive env name value))
    | none =>
      let t ← liftM (Eval.suspend value env)
      match ← matchOne force pattern t [] with
      | some bindings => eval body (← liftM (Eval.pushFrame env bindings))
      | none => fail (.patternMismatch "let" span)
  | .cases span subject options, env => do
    let t ← liftM (Eval.suspend subject env)
    match ← firstMatch force t options with
    | some (body, bindings) => eval body (← liftM (Eval.pushFrame env bindings))
    | none => fail (.nonExhaustive span)
  | .tuple _ elems, env => return .tuple (← liftM (Eval.suspendAll env elems))
  | .cons _ head tail, env => do
    let h ← liftM (Eval.suspend head env)
    let t ← liftM (Eval.suspend tail env)
    return .cons h t
  | .nil _, _ => return .nil

/-- Compares suspended elements pairwise, up to the first difference. -/
def compareAll (element : ThunkId → ThunkId → M Bool) : List ThunkId → List ThunkId → M Bool
  | x :: xs, y :: ys => do if ← element x y then compareAll element xs ys else return false
  | _, _ => return true

/-- Compares two values, walking along two lists for at most as many cells as the last number
says. -/
def compareWith (config : Config) (force : ThunkId → M Value) (nested : Value → Value → M Bool)
    (span : Span) : Nat → Value → Value → M Bool
  | 0, _, _ => fail (.spineLimit config.spineLimit span)
  | room + 1, x, y => do
    let element (s t : ThunkId) : M Bool := do
      let v ← force s
      let w ← force t
      nested v w
    match x, y with
    | .closure .., _ | _, .closure .. =>
      fail (.typeMismatch "comparable value" "function" span)
    | .integer a, .integer b => return a == b
    | .boolean a, .boolean b => return a == b
    | .nil, .nil => return true
    | .nil, .cons .. | .cons .., .nil => return false
    | .tuple xs, .tuple ys =>
      if xs.length = ys.length then compareAll element xs ys else return false
    | .cons h t, .cons h' t' =>
      if ← element h h' then
        let v ← force t
        let w ← force t'
        compareWith config force nested span room v w
      else return false
    | x, y => fail (.typeMismatch x.typeName y.typeName span)

/-- The texts of suspended elements, with commas between them. -/
def commaSeparated (element : ThunkId → M String) : List ThunkId → M String
  | [] => return ""
  | [t] => element t
  | t :: ts => do
    let first ← element t
    let rest ← commaSeparated element ts
    return first ++ ", " ++ rest

/-- The text of a tuple that shows at most `limit` elements. -/
def renderTuple (limit : Nat) (element : ThunkId → M String) (ts : List ThunkId) : M String := do
  let shown ← commaSeparated element (ts.take limit)
  let dots := if ts.length ≤ limit then "" else if limit = 0 then "..." else ", ..."
  return "(" ++ shown ++ dots ++ ")"

/-- Walks along a list for at most `room` cells.  Yields their heads and the value behind them. -/
def spine (force : ThunkId → M Value) : Nat → Value → M (List ThunkId × Value)
  | room + 1, .cons head tail => do
    let next ← force tail
    let (heads, last) ← spine force room next
    return (head :: heads, last)
  | _, v => return ([], v)

/-- The texts of suspended elements, with a colon behind each. -/
def colonTerminated (element : ThunkId → M String) : List ThunkId → M String
  | [] => return ""
  | t :: ts => do
    let first ← element t
    let rest ← colonTerminated element ts
    return first ++ " : " ++ rest

/-- The text of a value. -/
def renderWith (config : Config) (force : ThunkId → M Value) (nested : Value → M String) :
    Value → M String
  | .integer n => return toString n
  | .boolean b => return toString b
  | .closure .. => return "<function>"
  | .nil => return "[]"
  | .tuple ts => renderTuple config.renderLimit (fun t => do nested (← force t)) ts
  | .cons head tail => do
    let element (t : ThunkId) : M String := do nested (← force t)
    let room := if config.renderLimit = 0 then config.spineLimit else config.renderLimit - 1
    let (heads, last) ← spine force room (← force tail)
    match last with
    | .nil => return "[" ++ (← commaSeparated element (head :: heads)) ++ "]"
    | .cons .. =>
      if config.renderLimit = 0 then fail (.spineLimit config.spineLimit .unknown)
      else return "[" ++ (← commaSeparated element (head :: heads)) ++ ", ...]"
    | last =>
      let shown ← colonTerminated element (head :: heads)
      liftM Eval.countHit
      return shown ++ (← nested last)

end Scheme

/-! ### Relations closed under sequencing -/

/-- A relation between the computations of a monad and evaluations that sequencing keeps, and that
holds between an evaluation without demands and itself. -/
structure Correspondence (M : Type → Type) [Monad M] [MonadLiftT Eval M] where
  Related {α : Type} : M α → Eval α → Prop
  pure {α : Type} (a : α) : Related (pure a) (pure a)
  bind {α β : Type} {x : M α} {y : Eval α} {f : α → M β} {g : α → Eval β} :
    Related x y → (∀ a, Related (f a) (g a)) → Related (x >>= f) (y >>= g)
  basic {α : Type} {x : Eval α} : x.Basic → Related (liftM x) x

namespace Correspondence

variable {M : Type → Type} [Monad M] [MonadLiftT Eval M] (C : Correspondence M)

theorem fail {α : Type} (e : EvalError) : C.Related (Scheme.fail e : M α) (throw e) :=
  C.basic (.throw e)

section Demands

variable {force : ThunkId → M Value} {force' : ThunkId → Eval Value}

mutual

/-- **Matches correspond if demands do.** -/
theorem matchOne (hforce : ∀ t, C.Related (force t) (force' t)) :
    ∀ (p : Pattern) (t : ThunkId) (bindings : Bindings ThunkId),
    C.Related (Scheme.matchOne force p t bindings) ((Matching.one force' p t).outcome bindings)
  | .bind span name, t, bindings => by
    rw [Scheme.matchOne, Matching.one, Matching.outcome_bindName]
    by_cases hname : bindings.binds name
    · rw [if_pos hname, if_pos hname]
      exact C.fail _
    · rw [if_neg hname, if_neg hname]
      exact C.pure _
  | .wildcard _, t, bindings => by
    rw [Scheme.matchOne, Matching.one, Matching.outcome_pure]
    exact C.pure _
  | .integer _ value, t, bindings => by
    rw [Scheme.matchOne, Matching.one, Matching.outcome_ofEval_bind]
    refine C.bind (hforce t) fun v => ?_
    cases v <;> rw [Matching.outcome_pure] <;> exact C.pure _
  | .boolean _ value, t, bindings => by
    rw [Scheme.matchOne, Matching.one, Matching.outcome_ofEval_bind]
    refine C.bind (hforce t) fun v => ?_
    cases v <;> rw [Matching.outcome_pure] <;> exact C.pure _
  | .tuple _ ps, t, bindings => by
    -- the number of elements decides, before any of them is matched
    rw [Scheme.matchOne, Matching.one, Matching.outcome_ofEval_bind]
    refine C.bind (hforce t) fun v => ?_
    cases v with
    | tuple ts =>
      simp only
      by_cases hlen : ts.length = ps.length
      · rw [if_pos hlen, if_pos hlen]
        exact matchAll hforce ps ts bindings
      · rw [if_neg hlen, if_neg hlen]
        exact C.pure none
    | _ => exact C.pure none
  | .cons _ p q, t, bindings => by
    rw [Scheme.matchOne, Matching.one, Matching.outcome_ofEval_bind]
    refine C.bind (hforce t) fun v => ?_
    cases v with
    | cons head tail =>
      simp only
      rw [Matching.outcome_ite_bind]
      -- the head comes first, and its names are handed on to the tail
      refine C.bind (matchOne hforce p head bindings) fun found => ?_
      cases found with
      | none => exact C.pure none
      | some bindings => exact matchOne hforce q tail bindings
    | _ => exact C.pure none
  | .nil _, t, bindings => by
    rw [Scheme.matchOne, Matching.one, Matching.outcome_ofEval_bind]
    refine C.bind (hforce t) fun v => ?_
    cases v <;> rw [Matching.outcome_pure] <;> exact C.pure _

theorem matchAll (hforce : ∀ t, C.Related (force t) (force' t)) :
    ∀ (ps : List Pattern) (ts : List ThunkId) (bindings : Bindings ThunkId),
    C.Related (Scheme.matchAll force ps ts bindings) ((Matching.all force' ps ts).outcome bindings)
  | p :: ps, t :: ts, bindings => by
    rw [Scheme.matchAll, Matching.all, Matching.outcome_ite_bind]
    refine C.bind (matchOne hforce p t bindings) fun found => ?_
    cases found with
    | none => exact C.pure none
    | some bindings => exact matchAll hforce ps ts bindings
  | [], ts, bindings => by
    rw [Scheme.matchAll, Matching.all, Matching.outcome_pure]
    · exact C.pure _
    all_goals simp
  | _ :: _, [], bindings => by
    rw [Scheme.matchAll, Matching.all, Matching.outcome_pure]
    · exact C.pure _
    all_goals simp

end

/-- **The same option is chosen.** -/
theorem firstMatch (hforce : ∀ t, C.Related (force t) (force' t)) (t : ThunkId)
    (options : List (Pattern × Expr)) :
    C.Related (Scheme.firstMatch force t options) (Eval.firstMatch force' t options) := by
  induction options with
  | nil => exact C.pure none
  | cons option options ih =>
    obtain ⟨p, body⟩ := option
    rw [Scheme.firstMatch, Eval.firstMatch]
    refine C.bind (C.matchOne hforce p t []) fun found => ?_
    cases found with
    | none => exact ih
    | some bindings => exact C.pure _

/-- **Walks along a list correspond.** -/
theorem spine (hforce : ∀ t, C.Related (force t) (force' t)) (room : Nat) (v : Value) :
    C.Related (Scheme.spine force room v) (Eval.spine force' room v) := by
  induction room generalizing v with
  | zero => exact C.pure _
  | succ room ih =>
    cases v with
    | cons head tail =>
      refine C.bind (hforce tail) fun next => C.bind (ih next) fun found => ?_
      exact C.pure _
    | _ => exact C.pure _

/-- A suspension is matched, and the body is evaluated with the names bound. -/
theorem inMatch (hforce : ∀ t, C.Related (force t) (force' t)) {eval : Expr → EnvId → M Value}
    {eval' : Expr → EnvId → Eval Value} (heval : ∀ e env, C.Related (eval e env) (eval' e env))
    (p : Pattern) (arg body : Expr) (env parent : EnvId) (failure : EvalError) :
    C.Related
      (do
        let t ← liftM (Eval.suspend arg env)
        match ← Scheme.matchOne force p t [] with
        | some bindings => eval body (← liftM (Eval.pushFrame parent bindings))
        | none => Scheme.fail failure)
      (do
        let t ← Eval.suspend arg env
        match ← Eval.bindingsOf force' p t with
        | some bindings => eval' body (← Eval.pushFrame parent bindings)
        | none => throw failure) := by
  refine C.bind (C.basic (.suspend arg env)) fun t => ?_
  refine C.bind (C.matchOne hforce p t []) fun found => ?_
  cases found with
  | none => exact C.fail _
  | some bindings => exact C.bind (C.basic (.pushFrame parent bindings)) (heval body)

end Demands

/-- **Steps correspond if demands, evaluations and comparisons do.** -/
theorem step {force : ThunkId → M Value} {eval : Expr → EnvId → M Value}
    {eval' : Expr → EnvId → Eval Value} {equal : Span → Value → Value → M Bool}
    {equal' : Span → Value → Value → Eval Bool}
    (hforce : ∀ t, C.Related (force t) (Eval.force eval' t))
    (heval : ∀ e env, C.Related (eval e env) (eval' e env))
    (hequal : ∀ span x y, C.Related (equal span x y) (equal' span x y)) (e : Expr) (env : EnvId) :
    C.Related (Scheme.step force eval equal e env) (Eval.step eval' equal' e env) := by
  cases e with
  | integer => exact C.pure _
  | boolean => exact C.pure _
  | identifier span name =>
    -- the machine is only read, and what is found decides on both sides
    have hlookup := C.basic (.read fun m => m.environments.lookup env name)
    refine C.bind hlookup (g := fun
      | some t => Eval.force eval' t
      | none => throw (.unboundVariable name span)) fun found => ?_
    cases found with
    | none => exact C.fail _
    | some t => exact hforce t
  | condition _ test yes no =>
    refine C.bind (heval test env) fun v => ?_
    cases v with
    | boolean b =>
      cases b with
      | true => exact heval yes env
      | false => exact heval no env
    | _ => exact C.fail _
  | binary span op lhs rhs =>
    cases op with
    | eq =>
      refine C.bind (heval lhs env) fun x => C.bind (heval rhs env) fun y => ?_
      exact C.bind (hequal span x y) fun b => C.pure _
    | _ =>
      refine C.bind (heval lhs env) fun x => ?_
      refine C.bind (C.basic (Eval.basic_expectInteger lhs.span x)) fun a => ?_
      refine C.bind (heval rhs env) fun y => ?_
      refine C.bind (C.basic (Eval.basic_expectInteger rhs.span y)) fun b => ?_
      exact C.basic (Eval.basic_arithmetic span _ a b)
  | lambda => exact C.pure _
  | apply span func arg =>
    refine C.bind (heval func env) fun v => ?_
    cases v with
    | closure param body closureEnv =>
      exact C.inMatch hforce heval param arg body env closureEnv _
    | _ => exact C.fail _
  | bind span pattern value body =>
    -- a name binds itself, and every other pattern is matched with the suspended value
    rw [Scheme.step, Eval.step]
    cases pattern.name? with
    | some name => exact C.bind (C.basic (.pushRecursive env name value)) (heval body)
    | none => exact C.inMatch hforce heval pattern value body env env _
  | cases span subject options =>
    refine C.bind (C.basic (.suspend subject env)) fun t => ?_
    refine C.bind (C.firstMatch hforce t options) fun found => ?_
    cases found with
    | none => exact C.fail _
    | some found => exact C.bind (C.basic (.pushFrame env found.2)) (heval found.1)
  | tuple _ elems =>
    exact C.bind (C.basic (Eval.basic_suspendAll env elems)) fun ts => C.pure _
  | cons _ head tail =>
    refine C.bind (C.basic (.suspend head env)) fun h => ?_
    exact C.bind (C.basic (.suspend tail env)) fun t => C.pure _
  | nil => exact C.pure _

/-! ### Comparison -/

theorem compareAll {element : ThunkId → ThunkId → M Bool} {element' : ThunkId → ThunkId → Eval Bool}
    (helement : ∀ s t, C.Related (element s t) (element' s t)) (xs ys : List ThunkId) :
    C.Related (Scheme.compareAll element xs ys) (Eval.compareAll element' xs ys) := by
  induction xs generalizing ys with
  | nil => exact C.pure true
  | cons x xs ih =>
    cases ys with
    | nil => exact C.pure true
    | cons y ys =>
      refine C.bind (helement x y) fun same => ?_
      cases same with
      | true => exact ih ys
      | false => exact C.pure false

/-- **Comparisons correspond if demands and the comparisons of elements do.** -/
theorem compareWith (config : Config) {force : ThunkId → M Value} {force' : ThunkId → Eval Value}
    {nested : Value → Value → M Bool} {nested' : Value → Value → Eval Bool}
    (hforce : ∀ t, C.Related (force t) (force' t))
    (hnested : ∀ v w, C.Related (nested v w) (nested' v w)) (span : Span) (room : Nat)
    (x y : Value) :
    C.Related (Scheme.compareWith config force nested span room x y)
      (Eval.compareWith config force' nested' span room x y) := by
  have helement (s t : ThunkId) :
      C.Related (do nested (← force s) (← force t)) (do nested' (← force' s) (← force' t)) :=
    C.bind (hforce s) fun v => C.bind (hforce t) fun w => hnested v w
  induction room generalizing x y with
  | zero => exact C.fail _
  | succ room ih =>
    cases x with
    | cons h t =>
      cases y with
      | cons h' t' =>
        -- the tails are only compared behind equal heads
        refine C.bind (helement h h') fun same => ?_
        cases same with
        | true => exact C.bind (hforce t) fun v => C.bind (hforce t') fun w => ih v w
        | false => exact C.pure false
      | nil => exact C.pure false
      | _ => exact C.fail _
    | tuple xs =>
      cases y with
      | tuple ys =>
        rw [Scheme.compareWith, Eval.compareWith]
        by_cases hlen : xs.length = ys.length
        · rw [if_pos hlen, if_pos hlen]
          exact C.compareAll helement xs ys
        · rw [if_neg hlen, if_neg hlen]
          exact C.pure false
      | _ => exact C.fail _
    | _ => cases y <;> first | exact C.pure _ | exact C.fail _

/-! ### Printing -/

section Print

variable {element : ThunkId → M String} {element' : ThunkId → Eval String}
  (helement : ∀ t, C.Related (element t) (element' t))

include helement

theorem commaSeparated (ts : List ThunkId) :
    C.Related (Scheme.commaSeparated element ts) (Eval.commaSeparated element' ts) := by
  induction ts with
  | nil => exact C.pure ""
  | cons t ts ih =>
    cases ts with
    | nil => exact helement t
    | cons u ts => exact C.bind (helement t) fun first => C.bind ih fun rest => C.pure _

theorem colonTerminated (ts : List ThunkId) :
    C.Related (Scheme.colonTerminated element ts) (Eval.colonTerminated element' ts) := by
  induction ts with
  | nil => exact C.pure ""
  | cons t ts ih => exact C.bind (helement t) fun first => C.bind ih fun rest => C.pure _

end Print

/-- **Printing corresponds if demands and the printing of elements do.** -/
theorem renderWith (config : Config) {force : ThunkId → M Value} {force' : ThunkId → Eval Value}
    {nested : Value → M String} {nested' : Value → Eval String}
    (hforce : ∀ t, C.Related (force t) (force' t))
    (hnested : ∀ v, C.Related (nested v) (nested' v)) (v : Value) :
    C.Related (Scheme.renderWith config force nested v)
      (Eval.renderWith config force' nested' v) := by
  have helement (t : ThunkId) :
      C.Related (do nested (← force t)) (do nested' (← force' t)) :=
    C.bind (hforce t) hnested
  cases v with
  | tuple ts => exact C.bind (C.commaSeparated helement _) fun shown => C.pure _
  | cons head tail =>
    refine C.bind (hforce tail) fun next => C.bind (C.spine hforce _ next) ?_
    -- what the walk ends with decides how the cells before it are written
    rintro ⟨heads, last⟩
    have hlist := C.commaSeparated helement (head :: heads)
    have hchain := C.bind (C.colonTerminated helement (head :: heads)) fun shown =>
      C.bind (C.basic .countHit) fun _ =>
        C.bind (hnested last) fun text => C.pure (shown ++ text)
    cases last with
    | nil => exact C.bind hlist fun shown => C.pure _
    | cons =>
      simp only
      by_cases hlimit : config.renderLimit = 0
      · rw [if_pos hlimit, if_pos hlimit]
        exact C.fail _
      · rw [if_neg hlimit, if_neg hlimit]
        exact C.bind hlist fun shown => C.pure _
    | _ => exact hchain
  | _ => exact C.pure _

end Correspondence

/-! ### The scheme in the monad of evaluations -/

namespace Scheme

/-- Equality is a correspondence. -/
def equality : Correspondence Eval where
  Related := Eq
  pure _ := rfl
  bind := by
    rintro _ _ x _ f g rfl hf
    rw [funext hf]
  basic _ := rfl

variable {force : ThunkId → Eval Value}

/-- **The scheme read in the monad of evaluations is the evaluator.** -/
theorem step_eq (eval : Expr → EnvId → Eval Value) (equal : Span → Value → Value → Eval Bool) :
    step (Eval.force eval) eval equal = Eval.step eval equal := by
  funext e env
  exact equality.step (fun _ => rfl) (fun _ _ => rfl) (fun _ _ _ => rfl) e env

theorem compareWith_eq (config : Config) (nested : Value → Value → Eval Bool) (span : Span)
    (room : Nat) :
    compareWith config force nested span room = Eval.compareWith config force nested span room := by
  funext x y
  exact equality.compareWith config (fun _ => rfl) (fun _ _ => rfl) span room x y

theorem renderWith_eq (config : Config) (nested : Value → Eval String) :
    renderWith config force nested = Eval.renderWith config force nested := by
  funext v
  exact equality.renderWith config (fun _ => rfl) (fun _ => rfl) v

end Scheme

end CallByNeed

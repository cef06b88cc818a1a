import CallByNeed.Proofs.Interpretation.Scheme
import CallByNeed.Proofs.Relocation.Machines

/-!
# Evaluation in another place

Each part of the evaluator ends alike on two machines of which one holds what the other holds in
other places: matching against a pattern, one step of the evaluation of an expression, comparison
and printing.  None of them looks at an address other than to demand its value.  So a program that
is evaluated and printed yields the same text or the same error in both places
(`Relocation.runs_program`).
-/

namespace CallByNeed.Relocation

variable {ρ : Relocation}

/-! ### Patterns -/

section Matching

variable {force : ThunkId → Eval Value}

/-- A literal fits or not in both places, and binds nothing. -/
theorem runs_test (b : Bool) (bs : Bindings ThunkId) :
    ρ.Runs (Option.map ρ.bindings) (pure (if b then some bs else none))
      (pure (if b then some (ρ.bindings bs) else none)) := by
  cases b with
  | true => exact runs_pure (some bs)
  | false => exact runs_pure none

mutual

/-- **A match ends alike if demands do.** -/
theorem runs_matchOne (hforce : ρ.Forces force) :
    ∀ (p : Pattern) (t : Nat) (bs : Bindings ThunkId),
    ρ.Runs (Option.map ρ.bindings) (Scheme.matchOne force p t bs)
      (Scheme.matchOne force p (ρ.thunk t) (ρ.bindings bs))
  | .bind span name, t, bs => by
    rw [Scheme.matchOne, Scheme.matchOne, ρ.binds_bindings]
    split
    · exact runs_throw _
    · exact runs_pure (some ((name, t) :: bs))
  | .wildcard _, t, bs => by
    rw [Scheme.matchOne, Scheme.matchOne]
    exact runs_pure (some bs)
  | .integer _ value, t, bs => by
    rw [Scheme.matchOne, Scheme.matchOne]
    -- the value is the same up to the addresses in it, and literals have none
    refine (hforce t).bind fun v => ?_
    cases v with
    | integer n => exact runs_test (n == value) bs
    | _ => exact runs_pure none
  | .boolean _ value, t, bs => by
    rw [Scheme.matchOne, Scheme.matchOne]
    refine (hforce t).bind fun v => ?_
    cases v with
    | boolean b => exact runs_test (b == value) bs
    | _ => exact runs_pure none
  | .tuple _ ps, t, bs => by
    rw [Scheme.matchOne, Scheme.matchOne]
    refine (hforce t).bind fun v => ?_
    cases v with
    | tuple ts =>
      -- the addresses are moved one by one, so that their number stays
      simp only [value, List.length_map]
      split
      · exact runs_matchAll hforce ps ts bs
      · exact runs_pure none
    | _ => exact runs_pure none
  | .cons _ p q, t, bs => by
    rw [Scheme.matchOne, Scheme.matchOne]
    refine (hforce t).bind fun v => ?_
    cases v with
    | cons head tail =>
      refine (runs_matchOne hforce p head bs).bind fun found => ?_
      cases found with
      | none => exact runs_pure none
      | some bs => exact runs_matchOne hforce q tail bs
    | _ => exact runs_pure none
  | .nil _, t, bs => by
    rw [Scheme.matchOne, Scheme.matchOne]
    refine (hforce t).bind fun v => ?_
    cases v with
    | nil => exact runs_pure (some bs)
    | _ => exact runs_pure none

theorem runs_matchAll (hforce : ρ.Forces force) :
    ∀ (ps : List Pattern) (ts : List Nat) (bs : Bindings ThunkId),
    ρ.Runs (Option.map ρ.bindings) (Scheme.matchAll force ps ts bs)
      (Scheme.matchAll force ps (ts.map ρ.thunk) (ρ.bindings bs))
  | p :: ps, t :: ts, bs => by
    rw [List.map_cons, Scheme.matchAll, Scheme.matchAll]
    refine (runs_matchOne hforce p t bs).bind fun found => ?_
    cases found with
    | none => exact runs_pure none
    | some bs => exact runs_matchAll hforce ps ts bs
  | [], ts, bs => by
    rw [Scheme.matchAll, Scheme.matchAll]
    · exact runs_pure (some bs)
    all_goals simp
  | _ :: _, [], bs => by
    rw [List.map_nil, Scheme.matchAll, Scheme.matchAll]
    · exact runs_pure (some bs)
    all_goals simp

end

theorem runs_bindingsOf (hforce : ρ.Forces force) (p : Pattern) (t : Nat) :
    ρ.Runs (Option.map ρ.bindings) (Eval.bindingsOf force p t)
      (Eval.bindingsOf force p (ρ.thunk t)) := by
  have heq (u : ThunkId) : Eval.bindingsOf force p u = Scheme.matchOne force p u [] :=
    (Scheme.equality.matchOne (fun _ => rfl) p u []).symm
  rw [heq, heq]
  exact runs_matchOne hforce p t []

theorem runs_firstMatch (hforce : ρ.Forces force) (t : Nat) (options : List (Pattern × Expr)) :
    ρ.Runs (Option.map fun r => (r.1, ρ.bindings r.2)) (Eval.firstMatch force t options)
      (Eval.firstMatch force (ρ.thunk t) options) := by
  induction options with
  | nil => exact runs_pure none
  | cons option options ih =>
    obtain ⟨p, body⟩ := option
    rw [Eval.firstMatch, Eval.firstMatch]
    refine (runs_bindingsOf hforce p t).bind fun found => ?_
    cases found with
    | none => exact ih
    | some bs => exact runs_pure (some (body, bs))

end Matching

/-! ### Expressions -/

variable (ρ) in
/-- Comparisons end alike in both places. -/
def Compares (equal : Value → Value → Eval Bool) : Prop :=
  ∀ v w, ρ.Runs id (equal v w) (equal (ρ.value v) (ρ.value w))

theorem runs_expectInteger (span : Span) (v : Value) :
    ρ.Runs id (Eval.expectInteger span v) (Eval.expectInteger span (ρ.value v)) := by
  cases v with
  | integer n => exact runs_pure n
  | _ => exact runs_throw _

theorem runs_arithmetic (span : Span) (op : BinaryOp) (a b : Int) :
    ρ.Runs ρ.value (Eval.arithmetic span op a b) (Eval.arithmetic span op a b) := by
  have hchecked (r : Except EvalError Int) : ρ.Runs ρ.value
      (do return Value.integer (← Eval.ofExcept r))
      (do return Value.integer (← Eval.ofExcept r)) := by
    cases r with
    | ok n => exact runs_pure (Value.integer n)
    | error e => exact runs_throw e
  cases op with
  | lt => exact runs_pure (Value.boolean _)
  | eq => exact runs_pure (Value.boolean _)
  | _ => exact hchecked _

section Step

variable {eval : Expr → EnvId → Eval Value} {equal : Span → Value → Value → Eval Bool}

/-- The body of a function, a `let` or an option is evaluated in a new frame. -/
theorem Evaluates.inFrame (heval : ρ.Evaluates eval) (parent : Nat) (body : Expr)
    (bs : Bindings ThunkId) :
    ρ.Runs ρ.value (do eval body (← Eval.pushFrame parent bs))
      (do eval body (← Eval.pushFrame (ρ.env parent) (ρ.bindings bs))) :=
  (runs_pushFrame parent bs).bind fun id => heval body id

/-- A suspension is matched, and the body is evaluated with the names bound. -/
theorem Evaluates.inMatch (heval : ρ.Evaluates eval) (p : Pattern) (arg body : Expr)
    (env parent : Nat) (failure : EvalError) :
    ρ.Runs ρ.value
      (do
        let t ← Eval.suspend arg env
        match ← Eval.bindingsOf (Eval.force eval) p t with
        | some bs => eval body (← Eval.pushFrame parent bs)
        | none => throw failure)
      (do
        let t ← Eval.suspend arg (ρ.env env)
        match ← Eval.bindingsOf (Eval.force eval) p t with
        | some bs => eval body (← Eval.pushFrame (ρ.env parent) bs)
        | none => throw failure) := by
  -- what is suspended gets an address in either place, one moved to the other
  refine (runs_suspend arg env).bind fun t => ?_
  refine (runs_bindingsOf heval.force p t).bind fun found => ?_
  cases found with
  | none => exact runs_throw _
  | some bs => exact heval.inFrame parent body bs

/-- **One step of the evaluation ends alike in both places.** -/
theorem runs_step (heval : ρ.Evaluates eval) (hequal : ∀ span, ρ.Compares (equal span)) :
    ρ.Evaluates (Eval.step eval equal) := by
  intro e id
  have hforce := heval.force
  cases e with
  | integer _ value => exact runs_pure (Value.integer value)
  | boolean _ value => exact runs_pure (Value.boolean value)
  | identifier span name =>
    rw [Eval.step_identifier, Eval.step_identifier]
    -- the same binding is found, with its address moved
    refine runs_lookup id name (k := fun found =>
      found.elim (throw (.unboundVariable name span)) (Eval.force eval)) fun found => ?_
    cases found with
    | none => exact runs_throw _
    | some t => exact hforce t
  | condition _ test yes no =>
    refine (heval test id).bind fun v => ?_
    cases v with
    | boolean b =>
      cases b with
      | true => exact heval yes id
      | false => exact heval no id
    | _ => exact runs_throw _
  | binary span op lhs rhs =>
    cases op with
    | eq =>
      refine (heval lhs id).bind fun v => (heval rhs id).bind fun w => ?_
      exact (hequal span v w).bind fun b => runs_pure (Value.boolean b)
    | _ =>
      refine (heval lhs id).bind fun v => (runs_expectInteger lhs.span v).bind fun a => ?_
      refine (heval rhs id).bind fun w => (runs_expectInteger rhs.span w).bind fun b => ?_
      exact runs_arithmetic span _ a b
  | lambda _ param body => exact runs_pure (Value.closure param body id)
  | apply span func arg =>
    refine (heval func id).bind fun v => ?_
    cases v with
    | closure param body closureEnv => exact heval.inMatch param arg body id closureEnv _
    | _ => exact runs_throw _
  | bind span pattern value body =>
    rw [Eval.step, Eval.step]
    cases pattern.name? with
    | some name => exact (runs_pushRecursive id name value).bind fun inner => heval body inner
    | none => exact heval.inMatch pattern value body id id _
  | cases span subject options =>
    refine (runs_suspend subject id).bind fun t => ?_
    refine (runs_firstMatch hforce t options).bind fun found => ?_
    cases found with
    | none => exact runs_throw _
    | some found => exact heval.inFrame id found.1 found.2
  | tuple _ elems => exact (runs_suspendAll id elems).bind fun ts => runs_pure (Value.tuple ts)
  | cons _ head tail =>
    refine (runs_suspend head id).bind fun h => (runs_suspend tail id).bind fun t => ?_
    exact runs_pure (Value.cons h t)
  | nil => exact runs_pure Value.nil

end Step

/-! ### Comparison -/

section Compare

variable {force : ThunkId → Eval Value}

theorem runs_compareAll {element : ThunkId → ThunkId → Eval Bool}
    (helement : ∀ t u : Nat, ρ.Runs id (element t u) (element (ρ.thunk t) (ρ.thunk u)))
    (ts us : List Nat) :
    ρ.Runs id (Eval.compareAll element ts us)
      (Eval.compareAll element (ts.map ρ.thunk) (us.map ρ.thunk)) := by
  induction ts generalizing us with
  | nil => exact runs_pure true
  | cons t ts ih =>
    cases us with
    | nil => exact runs_pure true
    | cons u us =>
      refine (helement t u).bind fun same => ?_
      cases same with
      | true => exact ih us
      | false => exact runs_pure false

/-- **Comparisons end alike** if demands and the comparisons of elements do. -/
theorem compares_compareWith (config : Config) (span : Span)
    {nested : Value → Value → Eval Bool} (hforce : ρ.Forces force) (hnested : ρ.Compares nested)
    (room : Nat) : ρ.Compares (Eval.compareWith config force nested span room) := by
  have helement (t u : Nat) : ρ.Runs id (do nested (← force t) (← force u))
      (do nested (← force (ρ.thunk t)) (← force (ρ.thunk u))) :=
    (hforce t).bind fun v => (hforce u).bind fun w => hnested v w
  induction room with
  | zero => exact fun v w => runs_throw _
  | succ room ih =>
    intro v w
    cases v with
    | cons h t =>
      cases w with
      | cons h' t' =>
        -- whether the heads are equal does not depend on addresses
        refine (helement h h').bind fun same => ?_
        cases same with
        | true => exact (hforce t).bind fun v => (hforce t').bind fun w => ih v w
        | false => exact runs_pure false
      | nil => exact runs_pure false
      | _ => exact runs_throw _
    | tuple ts =>
      cases w with
      | tuple us =>
        rw [value, value, Eval.compareWith, Eval.compareWith, List.length_map, List.length_map]
        split
        · exact runs_compareAll helement ts us
        · exact runs_pure false
      | _ => exact runs_throw _
    | integer a =>
      cases w with
      | integer b => exact runs_pure (a == b)
      | _ => exact runs_throw _
    | boolean a =>
      cases w with
      | boolean b => exact runs_pure (a == b)
      | _ => exact runs_throw _
    | nil =>
      cases w with
      | nil => exact runs_pure true
      | cons => exact runs_pure false
      | _ => exact runs_throw _
    | closure => cases w <;> exact runs_throw _

end Compare

/-! ### The evaluator -/

/-- **The evaluator ends alike in both places**, and so do its comparisons. -/
theorem evaluates_eval (config : Config) (n : Nat) :
    ρ.Evaluates (Eval.eval config n) ∧ ∀ span, ρ.Compares (Eval.equal config n span) := by
  induction n with
  | zero =>
    have heval : ρ.Evaluates (Eval.eval config 0) := by
      intro e id
      rw [Eval.eval_zero, Eval.eval_zero]
      exact runs_throw _
    refine ⟨heval, fun span => ?_⟩
    rw [Eval.equal_zero]
    exact compares_compareWith config span heval.force (fun _ _ => runs_throw _) _
  | succ n ih =>
    obtain ⟨heval, hequal⟩ := ih
    have heval' : ρ.Evaluates (Eval.eval config (n + 1)) := by
      rw [Eval.eval_succ]
      exact runs_step heval hequal
    refine ⟨heval', fun span => ?_⟩
    rw [Eval.equal_succ]
    exact compares_compareWith config span heval'.force (hequal span) _

/-! ### Printing -/

variable (ρ) in
/-- Values print alike in both places. -/
def Renders (render : Value → Eval String) : Prop :=
  ∀ v, ρ.Runs id (render v) (render (ρ.value v))

section Render

variable {force : ThunkId → Eval Value} {nested : Value → Eval String}
  {element : ThunkId → Eval String}

theorem runs_commaSeparated (helement : ∀ t : Nat, ρ.Runs id (element t) (element (ρ.thunk t)))
    (ts : List Nat) :
    ρ.Runs id (Eval.commaSeparated element ts)
      (Eval.commaSeparated element (ts.map ρ.thunk)) := by
  induction ts with
  | nil => exact runs_pure ""
  | cons t ts ih =>
    cases ts with
    | nil => exact helement t
    | cons u ts =>
      exact (helement t).bind fun first => ih.bind fun rest => runs_pure (first ++ ", " ++ rest)

theorem runs_colonTerminated (helement : ∀ t : Nat, ρ.Runs id (element t) (element (ρ.thunk t)))
    (ts : List Nat) :
    ρ.Runs id (Eval.colonTerminated element ts)
      (Eval.colonTerminated element (ts.map ρ.thunk)) := by
  induction ts with
  | nil => exact runs_pure ""
  | cons t ts ih =>
    exact (helement t).bind fun first => ih.bind fun rest => runs_pure (first ++ " : " ++ rest)

theorem runs_spine (hforce : ρ.Forces force) (room : Nat) (v : Value) :
    ρ.Runs (fun r => (r.1.map ρ.thunk, ρ.value r.2)) (Eval.spine force room v)
      (Eval.spine force room (ρ.value v)) := by
  induction room generalizing v with
  | zero => exact runs_pure ([], v)
  | succ room ih =>
    cases v with
    | cons head tail =>
      refine (hforce tail).bind fun next => (ih next).bind fun found => ?_
      exact runs_pure (head :: found.1, found.2)
    | integer n => exact runs_pure ([], Value.integer n)
    | boolean b => exact runs_pure ([], Value.boolean b)
    | closure param body id => exact runs_pure ([], Value.closure param body id)
    | tuple ts => exact runs_pure ([], Value.tuple ts)
    | nil => exact runs_pure ([], Value.nil)

/-- **Values print alike** if demands and the printing of elements end alike. -/
theorem renders_renderWith (config : Config) (hforce : ρ.Forces force)
    (hnested : ρ.Renders nested) : ρ.Renders (Eval.renderWith config force nested) := by
  have helement (t : Nat) :
      ρ.Runs id (do nested (← force t)) (do nested (← force (ρ.thunk t))) :=
    (hforce t).bind fun v => hnested v
  intro v
  cases v with
  | integer n => exact runs_pure (toString n)
  | boolean b => exact runs_pure (toString b)
  | closure => exact runs_pure "<function>"
  | nil => exact runs_pure "[]"
  | tuple ts =>
    rw [value, Eval.renderWith, Eval.renderWith, Eval.renderTuple, Eval.renderTuple,
      List.length_map, ← List.map_take]
    exact (runs_commaSeparated helement _).bind fun shown => runs_pure _
  | cons head tail =>
    refine (hforce tail).bind fun next => (runs_spine hforce _ next).bind ?_
    -- the walk passes as many cells in either place
    rintro ⟨heads, last⟩
    have hlist := runs_commaSeparated helement (head :: heads)
    have hchain : ρ.Runs id
        (do
          let shown ← Eval.colonTerminated (fun t => do nested (← force t)) (head :: heads)
          Eval.countHit
          return shown ++ (← nested last))
        (do
          let shown ← Eval.colonTerminated (fun t => do nested (← force t))
            ((head :: heads).map ρ.thunk)
          Eval.countHit
          return shown ++ (← nested (ρ.value last))) :=
      (runs_colonTerminated helement (head :: heads)).bind fun shown =>
        runs_countHit.bind fun _ => (hnested last).bind fun text => runs_pure (shown ++ text)
    cases last with
    | nil => exact hlist.bind fun shown => runs_pure _
    | cons =>
      simp only [value]
      split
      · exact runs_throw _
      · exact hlist.bind fun shown => runs_pure _
    | _ => exact hchain

end Render

theorem renders_renderAt (config : Config) (n : Nat) : ρ.Renders (Eval.renderAt config n) := by
  have hforce (k : Nat) : ρ.Forces (Eval.force (Eval.eval config k)) :=
    (evaluates_eval config k).1.force
  induction n with
  | zero => exact renders_renderWith config (hforce 0) fun _ => runs_throw _
  | succ n ih => exact renders_renderWith config (hforce (n + 1)) ih

/-- **A program that is evaluated and printed ends alike in both places.** -/
theorem runs_program (config : Config) (e : Expr) :
    ρ.Runs id (do Eval.render config (← Eval.evaluate config e))
      (do Eval.render config (← Eval.evaluate config e)) :=
  ((evaluates_eval config config.maxDepth).1 e Environments.root).bind fun v =>
    renders_renderAt config config.maxDepth v

end CallByNeed.Relocation

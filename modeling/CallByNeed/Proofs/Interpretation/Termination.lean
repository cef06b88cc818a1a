import CallByNeed.Proofs.Interpretation.Unbounded

/-!
# Programs without comparisons end

The limit on the nesting bounds how deep evaluations and the printing of elements go, and the limit
on printing how far a list is walked along.  Only a comparison of two lists is bounded by neither.
So a program in which no `==` occurs ends under every limit on the nesting, also one with infinite
lists, with endless recursion or with a value that needs itself (`Unbounded.terminates`).

The evaluator gives up only in a comparison, and makes one only for an expression with an `==` in
it.  In a program without `==` no such expression ever gets into the machine: it would stand in a
cell or in the body of a function (`Machine.ComparisonFree`), and all that gets there are parts of
the program (`Spares`).
-/

namespace CallByNeed

/-! ### Expressions without comparisons -/

namespace Expr

mutual

/-- There is no `==` in the expression. -/
def comparisonFree : Expr → Bool
  | boolean .. | integer .. | identifier .. | nil _ => true
  | condition _ test yes no => test.comparisonFree && yes.comparisonFree && no.comparisonFree
  | binary _ op lhs rhs => op ≠ .eq && lhs.comparisonFree && rhs.comparisonFree
  | lambda _ _ body => body.comparisonFree
  | apply _ func arg => func.comparisonFree && arg.comparisonFree
  | bind _ _ value body => value.comparisonFree && body.comparisonFree
  | cases _ subject options => subject.comparisonFree && comparisonFreeOptions options
  | tuple _ elems => comparisonFreeAll elems
  | cons _ head tail => head.comparisonFree && tail.comparisonFree

/-- There is no `==` in any of the expressions. -/
def comparisonFreeAll : List Expr → Bool
  | [] => true
  | e :: es => e.comparisonFree && comparisonFreeAll es

/-- There is no `==` in the bodies of the options. -/
def comparisonFreeOptions : List (Pattern × Expr) → Bool
  | [] => true
  | (_, e) :: options => e.comparisonFree && comparisonFreeOptions options

end

end Expr

/-- A value without comparisons: there is none in the body of a function. -/
def Value.ComparisonFree : Value → Prop
  | closure _ body _ => body.comparisonFree = true
  | _ => True

/-- A cell without comparisons, in its expression or in its value. -/
def Cell.ComparisonFree : Cell → Prop
  | pending e _ | forcing e _ => e.comparisonFree = true
  | evaluated v => v.ComparisonFree

/-- There is no comparison in any cell. -/
def Machine.ComparisonFree (m : Machine) : Prop :=
  ∀ t, (m.cell t).ComparisonFree

namespace Machine.ComparisonFree

variable {m : Machine} {c : Cell}

theorem initial : Machine.initial.ComparisonFree :=
  fun _ => trivial

theorem setCell (hm : m.ComparisonFree) (hc : c.ComparisonFree) (t : ThunkId) :
    (m.setCell t c).ComparisonFree := by
  intro u
  by_cases hu : u = t
  · obtain rfl := hu
    by_cases hlt : u < m.cells.size
    · rwa [cell_setCell_self hlt]
    · -- a cell that is not there stays as it is
      have hsame : m.setCell u c = m := by
        unfold Machine.setCell
        rw [Array.setIfInBounds_eq_of_size_le (Nat.le_of_not_lt hlt)]
      rw [hsame]
      exact hm u
  · rw [cell_setCell_of_ne hu]
    exact hm u

theorem allocate (hm : m.ComparisonFree) (hc : c.ComparisonFree) :
    (m.allocate c).2.ComparisonFree := by
  intro u
  by_cases hu : u = m.cells.size
  · rwa [hu, cell_allocate_self]
  · rw [cell_allocate_of_ne hu]
    exact hm u

end Machine.ComparisonFree

/-! ### Evaluations that compare nothing -/

namespace Eval

variable {α β : Type} {P : α → Prop} {Q : β → Prop}

/-- The evaluation has not given up and has left a machine without comparisons, and `P` holds of
what it has yielded. -/
inductive Spared (P : α → Prop) : EStateM.Result EvalError Machine α → Prop where
  | ok {a : α} {m : Machine} (hm : m.ComparisonFree) (ha : P a) : Spared P (.ok a m)
  | error {e : EvalError} {m : Machine} (hm : m.ComparisonFree)
    (he : ∀ limit span, e ≠ .spineLimit limit span) : Spared P (.error e m)

/-- The evaluation compares nothing, if there are no comparisons in the machine. -/
def Spares (P : α → Prop) (x : Eval α) : Prop :=
  ∀ m, m.ComparisonFree → Spared P (x m)

theorem spares_pure {a : α} (h : P a) : Spares P (pure a) :=
  fun _ hm => .ok hm h

theorem spares_throw {e : EvalError} (h : ∀ limit span, e ≠ .spineLimit limit span) :
    Spares P (throw e) :=
  fun _ hm => .error hm h

theorem spares_get : Spares (fun _ => True) (get : Eval Machine) :=
  fun _ hm => .ok hm trivial

/-- A change of the machine that always succeeds. -/
theorem spares_modifyGet {f : Machine → α × Machine}
    (h : ∀ m, m.ComparisonFree → (f m).2.ComparisonFree ∧ P (f m).1) :
    Spares P (modifyGet f : Eval α) :=
  fun m hm => .ok (h m hm).1 (h m hm).2

theorem Spares.bind {x : Eval α} {f : α → Eval β} (hx : Spares P x)
    (hf : ∀ a, P a → Spares Q (f a)) : Spares Q (x >>= f) := by
  intro m hm
  have hspared := hx m hm
  show Spared Q (EStateM.bind x f m)
  unfold EStateM.bind
  generalize x m = r at hspared
  cases hspared with
  | ok hm' ha => exact hf _ ha _ hm'
  | error hm' he => exact .error hm' he

theorem spares_countHit : Spares (fun _ => True) countHit :=
  spares_modifyGet fun _ hm => ⟨hm, trivial⟩

theorem spares_suspend {e : Expr} (he : e.comparisonFree = true) (env : EnvId) :
    Spares (fun _ => True) (suspend e env) :=
  spares_modifyGet fun _ hm => ⟨hm.allocate he, trivial⟩

theorem spares_pushFrame (parent : EnvId) (bindings : Bindings ThunkId) :
    Spares (fun _ => True) (pushFrame parent bindings) :=
  spares_modifyGet fun _ hm => ⟨hm, trivial⟩

theorem spares_pushRecursive {e : Expr} (he : e.comparisonFree = true) (parent : EnvId)
    (name : String) : Spares (fun _ => True) (pushRecursive parent name e) := by
  refine spares_get.bind fun m _ => (spares_suspend he m.environments.fresh).bind fun t _ => ?_
  exact spares_modifyGet fun _ hm => ⟨hm, trivial⟩

theorem spares_suspendAll (env : EnvId) {es : List Expr} (hes : Expr.comparisonFreeAll es = true) :
    Spares (fun _ => True) (suspendAll env es) := by
  induction es with
  | nil => exact spares_pure trivial
  | cons e es ih =>
    rw [Expr.comparisonFreeAll, Bool.and_eq_true] at hes
    refine (spares_suspend hes.1 env).bind fun t _ => (ih hes.2).bind fun ts _ => ?_
    exact spares_pure trivial

theorem spares_expectInteger (span : Span) (v : Value) :
    Spares (fun _ => True) (expectInteger span v) := by
  cases v with
  | integer n => exact spares_pure trivial
  | _ => exact spares_throw (by simp)

theorem spares_ofExcept {x : Except EvalError α}
    (h : ∀ limit span, x ≠ .error (.spineLimit limit span)) :
    Spares (fun _ => True) (ofExcept x) := by
  cases x with
  | ok a => exact spares_pure trivial
  | error e => exact spares_throw fun limit span he => h limit span (by rw [he])

theorem spares_arithmetic (span : Span) (op : BinaryOp) (a b : Int) :
    Spares Value.ComparisonFree (arithmetic span op a b) := by
  -- arithmetic fails for other reasons than a list that is too long
  have hchecked (n : Int) : ∀ limit span', Arithmetic.checked span n ≠
      .error (.spineLimit limit span') := by
    intro limit span'
    unfold Arithmetic.checked
    split <;> simp
  have hpower : ∀ limit span', Arithmetic.power span a b ≠ .error (.spineLimit limit span') := by
    intro limit span'
    unfold Arithmetic.power
    split
    · simp
    · exact hchecked _ limit span'
  cases op with
  | lt => exact spares_pure trivial
  | eq => exact spares_pure trivial
  | pow => exact (spares_ofExcept hpower).bind fun n _ => spares_pure trivial
  | _ => exact (spares_ofExcept (hchecked _)).bind fun n _ => spares_pure trivial

/-! ### Demands and matches -/

/-- **A demand yields a value without comparisons if the evaluation it makes does.** -/
theorem Spares.force {eval : Expr → EnvId → Eval Value}
    (h : ∀ e env, e.comparisonFree = true → Spares Value.ComparisonFree (eval e env))
    (t : ThunkId) : Spares Value.ComparisonFree (force eval t) := by
  intro m hm
  have ht := hm t
  cases hcell : m.cell t with
  | evaluated v =>
    rw [hcell] at ht
    rw [ByName.force_of_evaluated hcell]
    exact .ok hm ht
  | forcing e env =>
    rw [ByName.force_of_forcing hcell]
    exact .error hm (by simp)
  | pending e env =>
    -- a pending cell holds an expression without comparisons, and so does a marked one
    rw [hcell] at ht
    have he : e.comparisonFree = true := ht
    have hspared := h e env he _ (hm.setCell (c := .forcing e env) he t)
    rw [ByName.force_of_pending hcell]
    generalize eval e env (m.setCell t (.forcing e env)) = r at hspared
    cases hspared with
    | @ok v m' hm' hv => exact .ok (hm'.setCell (c := .evaluated v) hv t) hv
    | @error err m' hm' herr => exact .error (hm'.setCell (c := .pending e env) he t) herr

section Demands

variable {force : ThunkId → Eval Value}

mutual

theorem spares_matchOne (hforce : ∀ t, Spares Value.ComparisonFree (force t)) :
    ∀ (p : Pattern) (t : ThunkId) (bindings : Bindings ThunkId),
    Spares (fun _ => True) (Scheme.matchOne force p t bindings)
  | .bind span name, t, bindings => by
    -- matching demands values and compares none
    rw [Scheme.matchOne]
    split
    · exact spares_throw (by simp)
    · exact spares_pure trivial
  | .wildcard _, t, bindings => by
    rw [Scheme.matchOne]
    exact spares_pure trivial
  | .integer _ value, t, bindings => by
    rw [Scheme.matchOne]
    refine (hforce t).bind fun v _ => ?_
    cases v <;> exact spares_pure trivial
  | .boolean _ value, t, bindings => by
    rw [Scheme.matchOne]
    refine (hforce t).bind fun v _ => ?_
    cases v <;> exact spares_pure trivial
  | .tuple _ ps, t, bindings => by
    rw [Scheme.matchOne]
    refine (hforce t).bind fun v _ => ?_
    cases v with
    | tuple ts =>
      dsimp only
      split
      · exact spares_matchAll hforce ps ts bindings
      · exact spares_pure trivial
    | _ => exact spares_pure trivial
  | .cons _ p q, t, bindings => by
    rw [Scheme.matchOne]
    refine (hforce t).bind fun v _ => ?_
    cases v with
    | cons head tail =>
      refine (spares_matchOne hforce p head bindings).bind fun found _ => ?_
      cases found with
      | none => exact spares_pure trivial
      | some bindings => exact spares_matchOne hforce q tail bindings
    | _ => exact spares_pure trivial
  | .nil _, t, bindings => by
    rw [Scheme.matchOne]
    refine (hforce t).bind fun v _ => ?_
    cases v <;> exact spares_pure trivial

theorem spares_matchAll (hforce : ∀ t, Spares Value.ComparisonFree (force t)) :
    ∀ (ps : List Pattern) (ts : List ThunkId) (bindings : Bindings ThunkId),
    Spares (fun _ => True) (Scheme.matchAll force ps ts bindings)
  | p :: ps, t :: ts, bindings => by
    rw [Scheme.matchAll]
    refine (spares_matchOne hforce p t bindings).bind fun found _ => ?_
    cases found with
    | none => exact spares_pure trivial
    | some bindings => exact spares_matchAll hforce ps ts bindings
  | [], ts, bindings => by
    simp only [Scheme.matchAll]
    exact spares_pure trivial
  | _ :: _, [], bindings => by
    simp only [Scheme.matchAll]
    exact spares_pure trivial

end

/-- **An option without comparisons is chosen.** -/
theorem spares_firstMatch (hforce : ∀ t, Spares Value.ComparisonFree (force t)) (t : ThunkId)
    {options : List (Pattern × Expr)} (h : Expr.comparisonFreeOptions options = true) :
    Spares (fun found => ∀ choice ∈ found, choice.1.comparisonFree = true)
      (Scheme.firstMatch force t options) := by
  induction options with
  | nil => exact spares_pure (by simp)
  | cons option options ih =>
    obtain ⟨p, body⟩ := option
    rw [Expr.comparisonFreeOptions, Bool.and_eq_true] at h
    refine (spares_matchOne hforce p t []).bind fun found _ => ?_
    cases found with
    | none => exact ih h.2
    | some bindings => exact spares_pure (by simpa using h.1)

end Demands

/-! ### Evaluation and printing -/

/-- A suspension is matched, and the body is evaluated with the names bound. -/
theorem spares_inMatch {eval : Expr → EnvId → Eval Value}
    (heval : ∀ e env, e.comparisonFree = true → Spares Value.ComparisonFree (eval e env))
    (p : Pattern) {arg body : Expr} (harg : arg.comparisonFree = true)
    (hbody : body.comparisonFree = true) (env parent : EnvId) {failure : EvalError}
    (hfailure : ∀ limit span, failure ≠ .spineLimit limit span) :
    Spares Value.ComparisonFree
      (do
        let t ← suspend arg env
        match ← Scheme.matchOne (force eval) p t [] with
        | some bindings => eval body (← pushFrame parent bindings)
        | none => throw failure) := by
  refine (spares_suspend harg env).bind fun t _ => ?_
  refine (spares_matchOne (Spares.force heval) p t []).bind fun found _ => ?_
  cases found with
  | none => exact spares_throw hfailure
  | some bindings =>
    exact (spares_pushFrame parent bindings).bind fun inner _ => heval body inner hbody

/-- **One step of the evaluation of an expression without comparisons.** -/
theorem spares_step {eval : Expr → EnvId → Eval Value} (equal : Span → Value → Value → Eval Bool)
    (heval : ∀ e env, e.comparisonFree = true → Spares Value.ComparisonFree (eval e env))
    {e : Expr} (he : e.comparisonFree = true) (env : EnvId) :
    Spares Value.ComparisonFree (step eval equal e env) := by
  have hforce := Spares.force heval
  rw [← Scheme.step_eq]
  cases e with
  | integer => exact spares_pure trivial
  | boolean => exact spares_pure trivial
  | identifier span name =>
    have hlookup : Spares (fun _ => True)
        (do return (← get).environments.lookup env name : Eval (Option ThunkId)) :=
      spares_get.bind fun m _ => spares_pure trivial
    refine hlookup.bind fun found _ => ?_
    cases found with
    | none => exact spares_throw (by simp)
    -- the suspension holds an expression without comparisons, like all others
    | some t => exact hforce t
  | condition _ test yes no =>
    simp only [Expr.comparisonFree, Bool.and_eq_true] at he
    obtain ⟨⟨htest, hyes⟩, hno⟩ := he
    refine (heval test env htest).bind fun v _ => ?_
    cases v with
    | boolean b =>
      cases b with
      | true => exact heval yes env hyes
      | false => exact heval no env hno
    | _ => exact spares_throw (by simp)
  | binary span op lhs rhs =>
    simp only [Expr.comparisonFree, Bool.and_eq_true, decide_eq_true_eq] at he
    obtain ⟨⟨hop, hlhs⟩, hrhs⟩ := he
    cases op with
    -- this operator is the one that is excluded
    | eq => exact absurd rfl hop
    | _ =>
      refine (heval lhs env hlhs).bind fun x _ => ?_
      refine (spares_expectInteger lhs.span x).bind fun a _ => ?_
      refine (heval rhs env hrhs).bind fun y _ => ?_
      refine (spares_expectInteger rhs.span y).bind fun b _ => ?_
      exact spares_arithmetic span _ a b
  | lambda _ param body =>
    rw [Expr.comparisonFree] at he
    exact spares_pure he
  | apply span func arg =>
    simp only [Expr.comparisonFree, Bool.and_eq_true] at he
    refine (heval func env he.1).bind fun v hv => ?_
    cases v with
    -- the body belongs to a value, and values have no comparisons either
    | closure param body closureEnv =>
      exact spares_inMatch heval param he.2 hv env closureEnv (by simp)
    | _ => exact spares_throw (by simp)
  | bind span pattern value body =>
    simp only [Expr.comparisonFree, Bool.and_eq_true] at he
    rw [Scheme.step]
    cases pattern.name? with
    | some name =>
      exact (spares_pushRecursive he.1 env name).bind fun inner _ => heval body inner he.2
    | none => exact spares_inMatch heval pattern he.1 he.2 env env (by simp)
  | cases span subject options =>
    simp only [Expr.comparisonFree, Bool.and_eq_true] at he
    refine (spares_suspend he.1 env).bind fun t _ => ?_
    refine (spares_firstMatch hforce t he.2).bind fun found hfound => ?_
    cases found with
    | none => exact spares_throw (by simp)
    | some choice =>
      exact (spares_pushFrame env choice.2).bind fun inner _ =>
        heval choice.1 inner (hfound choice rfl)
  | tuple _ elems =>
    rw [Expr.comparisonFree] at he
    exact (spares_suspendAll env he).bind fun ts _ => spares_pure trivial
  | cons _ head tail =>
    simp only [Expr.comparisonFree, Bool.and_eq_true] at he
    refine (spares_suspend he.1 env).bind fun h _ => (spares_suspend he.2 env).bind fun t _ => ?_
    exact spares_pure trivial
  | nil => exact spares_pure trivial

theorem spares_eval (config : Config) (n : Nat) {e : Expr} (he : e.comparisonFree = true)
    (env : EnvId) : Spares Value.ComparisonFree (eval config n e env) := by
  induction n generalizing e env with
  | zero =>
    rw [eval_zero]
    exact spares_throw (by simp)
  | succ n ih =>
    rw [eval_succ]
    exact spares_step _ (fun e env he => ih he env) he env

section Print

variable {element : ThunkId → Eval String} (helement : ∀ t, Spares (fun _ => True) (element t))

include helement

theorem spares_commaSeparated (ts : List ThunkId) :
    Spares (fun _ => True) (commaSeparated element ts) := by
  induction ts with
  | nil => exact spares_pure trivial
  | cons t ts ih =>
    cases ts with
    | nil => exact helement t
    | cons u ts => exact (helement t).bind fun _ _ => ih.bind fun _ _ => spares_pure trivial

theorem spares_colonTerminated (ts : List ThunkId) :
    Spares (fun _ => True) (colonTerminated element ts) := by
  induction ts with
  | nil => exact spares_pure trivial
  | cons t ts ih => exact (helement t).bind fun _ _ => ih.bind fun _ _ => spares_pure trivial

end Print

theorem spares_spine {force : ThunkId → Eval Value}
    (hforce : ∀ t, Spares Value.ComparisonFree (force t)) (room : Nat) {v : Value}
    (hv : v.ComparisonFree) :
    Spares (fun found => found.2.ComparisonFree) (spine force room v) := by
  induction room generalizing v with
  | zero => exact spares_pure hv
  | succ room ih =>
    cases v with
    | cons head tail =>
      refine (hforce tail).bind fun next hnext => (ih hnext).bind fun found hfound => ?_
      exact spares_pure hfound
    | _ => exact spares_pure hv

/-- **Printing compares nothing**, and gives up nothing if only some elements are printed. -/
theorem spares_renderWith {config : Config} (hlimit : 1 ≤ config.renderLimit)
    {force : ThunkId → Eval Value} (hforce : ∀ t, Spares Value.ComparisonFree (force t))
    {nested : Value → Eval String}
    (hnested : ∀ v, v.ComparisonFree → Spares (fun _ => True) (nested v)) {v : Value} :
    Spares (fun _ => True) (renderWith config force nested v) := by
  have helement (t : ThunkId) : Spares (fun _ => True) (do nested (← force t)) :=
    (hforce t).bind hnested
  cases v with
  | tuple ts => exact (spares_commaSeparated helement _).bind fun _ _ => spares_pure trivial
  | cons head tail =>
    -- with a render limit the walk ends where the printer does
    have hne : config.renderLimit ≠ 0 := by omega
    refine (hforce tail).bind fun next hnext => (spares_spine hforce _ hnext).bind ?_
    rintro ⟨heads, last⟩ hlast
    have hlist := spares_commaSeparated helement (head :: heads)
    have hchain := (spares_colonTerminated helement (head :: heads)).bind fun shown _ =>
      spares_countHit.bind fun _ _ => (hnested last hlast).bind fun text _ =>
        spares_pure (P := fun _ => True) (a := shown ++ text) trivial
    cases last with
    | nil => exact hlist.bind fun _ _ => spares_pure trivial
    | cons =>
      dsimp only
      rw [if_neg hne]
      exact hlist.bind fun _ _ => spares_pure trivial
    | _ => exact hchain
  | _ => exact spares_pure trivial

theorem spares_renderAt {config : Config} (hlimit : 1 ≤ config.renderLimit) (n : Nat) (v : Value) :
    Spares (fun _ => True) (renderAt config n v) := by
  have hforce (n : Nat) := Spares.force fun e env he => spares_eval config n he env
  induction n generalizing v with
  | zero => exact spares_renderWith hlimit (hforce 0) fun _ _ => spares_throw (by simp)
  | succ n ih => exact spares_renderWith hlimit (hforce (n + 1)) fun v _ => ih v

end Eval

namespace Unbounded

/-! ### Whole programs without comparisons -/

/-- The interpreter does not look at the limit on the cells of a list. -/
theorem run_setSpineLimit (config : Config) (limit : Nat) :
    run { config with spineLimit := limit } = run config := by
  have hturn : turn { config with spineLimit := limit } = turn config := by
    funext run task
    cases task <;> rfl
  funext fuel
  induction fuel with
  | zero => rfl
  | succ fuel ih =>
    funext task
    rw [run, run, hturn, ih]

/-- Enough turns, in terms of the limit on the cells of a list. -/
theorem outcome_of_comparisonFree (config : Config) (hlimit : 1 ≤ config.renderLimit) {e : Expr}
    (he : e.comparisonFree = true) (fuel : Nat)
    (hfuel : evalTurns config config.maxDepth + config.renderLimit + 1 < fuel) :
    outcome config fuel e = some (e.outcome config) := by
  have hspares : Eval.Spares (fun _ => True) (do Eval.render config (← Eval.evaluate config e)) :=
    (Eval.spares_eval config config.maxDepth he Environments.root).bind fun v _ =>
      Eval.spares_renderAt hlimit config.maxDepth v
  rcases outcome_cases config hlimit fuel hfuel e with ⟨limit, span, m, hgives⟩ | houtcome
  · have hspared := hspares _ Machine.ComparisonFree.initial
    rw [hgives] at hspared
    cases hspared with
    | error _ herr => exact absurd rfl (herr limit span)
  · exact houtcome

/-- **The limit on the nesting makes programs without comparisons end.**  If there is no `==` in a
program, and a limit on the elements of a list that are printed, then the interpreter without bounds
on its loops ends with the outcome that the evaluator computes.  It nests no more than two turns for
each level of the limit on the nesting, and one for each element of a list that is printed. -/
theorem terminates (config : Config) (hlimit : 1 ≤ config.renderLimit) (e : Expr)
    (he : e.comparisonFree = true) (fuel : Nat)
    (hfuel : 2 * config.maxDepth + config.renderLimit + 1 < fuel) :
    outcome config fuel e = some (e.outcome config) := by
  -- nothing is compared, so that the evaluator might as well walk along no list at all
  let short : Config := { config with spineLimit := 0 }
  have hsame (fuel : Nat) : outcome short fuel e = outcome config fuel e := by
    unfold outcome
    rw [run_setSpineLimit]
  have hshort {fuel : Nat} (h : 2 * config.maxDepth + config.renderLimit + 1 < fuel) :
      outcome config fuel e = some (e.outcome short) := by
    rw [← hsame]
    refine outcome_of_comparisonFree short hlimit he fuel ?_
    show config.maxDepth * (0 + 2) + config.renderLimit + 1 < fuel
    omega
  -- with turns enough for both, the two outcomes of the evaluator are the same
  have houtcome : e.outcome short = e.outcome config := by
    let enough := evalTurns config config.maxDepth + 2 * config.maxDepth + config.renderLimit + 2
    have hconfig := outcome_of_comparisonFree config hlimit he enough (by omega)
    rw [hshort (by omega)] at hconfig
    exact Option.some.inj hconfig
  rw [hshort hfuel, houtcome]

/-- An infinite list, an endless recursion and a value that needs itself. -/
theorem terminates_endless :
    let config : Config := { maxDepth := 20, renderLimit := 3 }
    let number (n : Int) : Expr := .integer .unknown n
    let name (x : String) : Expr := .identifier .unknown x
    let define (x : String) (value body : Expr) : Expr :=
      .bind .unknown (.bind .unknown x) value body
    let next (x : String) : Expr := .binary .unknown .add (name x) (number 1)
    let ones := define "ones" (.cons .unknown (number 1) (name "ones")) (name "ones")
    let climb := define "climb"
      (.lambda .unknown (.bind .unknown "n") (.apply .unknown (name "climb") (next "n")))
      (.apply .unknown (name "climb") (number 0))
    let self := define "x" (next "x") (name "x")
    (ones.comparisonFree = true ∧
        (outcome config 100 ones).map (·.1) = some (.ok "[1, 1, 1, ...]")) ∧
      (climb.comparisonFree = true ∧
        (outcome config 100 climb).map (·.1) = some (.error (.recursionLimit 20 .unknown))) ∧
      (self.comparisonFree = true ∧
        (outcome config 100 self).map (·.1) = some (.error (.infiniteLoop .unknown))) := by
  intro config number name define next ones climb self
  have hlimit : 1 ≤ config.renderLimit := by decide
  have hfuel : 2 * config.maxDepth + config.renderLimit + 1 < 100 := by decide
  refine ⟨⟨rfl, ?_⟩, ⟨rfl, ?_⟩, rfl, ?_⟩
  · rw [terminates config hlimit ones rfl 100 hfuel]
    decide +kernel
  · rw [terminates config hlimit climb rfl 100 hfuel]
    decide +kernel
  · rw [terminates config hlimit self rfl 100 hfuel]
    decide +kernel

end Unbounded

end CallByNeed

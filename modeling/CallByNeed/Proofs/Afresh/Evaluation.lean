import CallByNeed.Proofs.Afresh.Simulation
import CallByNeed.Proofs.Interpretation.Scheme

/-!
# Evaluation follows its plans after a given machine

Each part of the evaluator follows the plan that evaluation afresh has for it: matching against a
pattern, one step of the evaluation of an expression, and the comparison of values.  The evaluator
itself follows by induction on the levels that are left (`evaluates_eval`).
-/

namespace CallByNeed.Afresh

/-! ### Patterns -/

/-- Both matches fail, or both bind the same names to suspensions that stand for each other. -/
def ReadsMatch (w : World) : Option (Bindings ThunkId) → Option (Bindings Suspension) → Prop :=
  Option.Rel w.ReadsBindings

section Matching

variable {budget : Nat} {force : ThunkId → Eval CallByNeed.Value}

/-- A literal fits or not, and binds nothing. -/
theorem simulates_test {w : World} {bindings : Bindings ThunkId} {bindings' : Bindings Suspension}
    (b : Bool) (h : w.ReadsBindings bindings bindings') :
    Simulates budget w ReadsMatch (Matching.outcome (pure b) bindings)
      (pure (if b then some bindings' else none)) := by
  rw [Matching.outcome_pure]
  cases b with
  | true => exact simulates_pure (Option.Rel.some h)
  | false => exact simulates_pure Option.Rel.none

mutual

theorem simulates_matchOne (hforce : Forces budget force) :
    ∀ (p : Pattern) {w : World} {t : ThunkId} {s : Suspension} {bindings : Bindings ThunkId}
      {bindings' : Bindings Suspension}, w.HasSuspension t s →
      w.ReadsBindings bindings bindings' →
      Simulates budget w ReadsMatch ((Matching.one force p t).outcome bindings)
        (Inquiry.matchOne p s bindings')
  | .bind span name, w, t, s, bindings, bindings', hs, hbindings => by
    -- nothing is demanded: both sides look at the names alone
    rw [Matching.one, Matching.outcome_bindName, Inquiry.matchOne, ← hbindings.binds name]
    by_cases hname : bindings.binds name
    · rw [if_pos hname, if_pos hname]
      exact simulates_throw _
    · rw [if_neg hname, if_neg hname]
      exact simulates_pure (.some (.cons ⟨rfl, hs⟩ hbindings))
  | .wildcard _, w, t, s, bindings, bindings', hs, hbindings => by
    rw [Matching.one, Inquiry.matchOne]
    exact simulates_test true hbindings
  | .integer _ value, w, t, s, bindings, bindings', hs, hbindings => by
    rw [Matching.one, Matching.outcome_ofEval_bind, Inquiry.matchOne]
    -- the value of the suspension decides, and both sides find the same one
    refine (hforce w t s hs).bind fun w₁ v v' hw₁ hv => ?_
    cases hv with
    | integer n => exact simulates_test (n == value) (hbindings.mono hw₁)
    | _ => exact simulates_pure .none
  | .boolean _ value, w, t, s, bindings, bindings', hs, hbindings => by
    rw [Matching.one, Matching.outcome_ofEval_bind, Inquiry.matchOne]
    refine (hforce w t s hs).bind fun w₁ v v' hw₁ hv => ?_
    cases hv with
    | boolean b => exact simulates_test (b == value) (hbindings.mono hw₁)
    | _ => exact simulates_pure .none
  | .tuple _ ps, w, t, s, bindings, bindings', hs, hbindings => by
    rw [Matching.one, Matching.outcome_ofEval_bind, Inquiry.matchOne]
    refine (hforce w t s hs).bind fun w₁ v v' hw₁ hv => ?_
    cases hv with
    | @tuple ts ss hts =>
      simp only
      -- the number of suspensions is the same on both sides
      rw [← hts.length_eq]
      by_cases hlen : ts.length = ps.length
      · rw [if_pos hlen, if_pos hlen]
        exact simulates_matchAll hforce ps hts (hbindings.mono hw₁)
      · rw [if_neg hlen, if_neg hlen]
        exact simulates_pure .none
    | _ => exact simulates_pure .none
  | .cons _ p q, w, t, s, bindings, bindings', hs, hbindings => by
    rw [Matching.one, Matching.outcome_ofEval_bind, Inquiry.matchOne]
    refine (hforce w t s hs).bind fun w₁ v v' hw₁ hv => ?_
    cases hv with
    | cons hhead htail =>
      simp only
      rw [Matching.outcome_ite_bind]
      -- the head comes first, and its names are handed on to the tail
      refine (simulates_matchOne hforce p hhead (hbindings.mono hw₁)).bind
        fun w₂ r r' hw₂ hr => ?_
      cases hr with
      | none => exact simulates_pure .none
      | some hbindings₂ => exact simulates_matchOne hforce q (hw₂.1 _ _ htail) hbindings₂
    | _ => exact simulates_pure .none
  | .nil _, w, t, s, bindings, bindings', hs, hbindings => by
    rw [Matching.one, Matching.outcome_ofEval_bind, Inquiry.matchOne]
    refine (hforce w t s hs).bind fun w₁ v v' hw₁ hv => ?_
    cases hv with
    | nil => exact simulates_test true (hbindings.mono hw₁)
    | _ => exact simulates_pure .none

theorem simulates_matchAll (hforce : Forces budget force) :
    ∀ (ps : List Pattern) {w : World} {ts : List ThunkId} {ss : List Suspension}
      {bindings : Bindings ThunkId} {bindings' : Bindings Suspension},
      List.Forall₂ w.HasSuspension ts ss → w.ReadsBindings bindings bindings' →
      Simulates budget w ReadsMatch ((Matching.all force ps ts).outcome bindings)
        (Inquiry.matchAll ps ss bindings')
  | [], w, ts, ss, bindings, bindings', hts, hbindings => by
    rw [Matching.all, Inquiry.matchAll]
    · exact simulates_test true hbindings
    all_goals simp
  | p :: ps, w, ts, ss, bindings, bindings', hts, hbindings => by
    cases hts with
    | nil =>
      rw [Matching.all, Inquiry.matchAll]
      · exact simulates_test true hbindings
      all_goals simp
    | cons hs hts =>
      rw [Matching.all, Inquiry.matchAll, Matching.outcome_ite_bind]
      refine (simulates_matchOne hforce p hs hbindings).bind fun w₁ r r' hw₁ hr => ?_
      cases hr with
      -- the first pattern that does not fit ends the matching on both sides
      | none => exact simulates_pure .none
      | some hbindings₁ => exact simulates_matchAll hforce ps (hts.imp hw₁.1) hbindings₁

end

theorem simulates_firstMatch {w : World} (hforce : Forces budget force)
    (options : List (Pattern × Expr)) {t : ThunkId} {s : Suspension} (hs : w.HasSuspension t s) :
    Simulates budget w
      (fun w' => Option.Rel fun r r' => r.1 = r'.1 ∧ w'.ReadsBindings r.2 r'.2)
      (Eval.firstMatch force t options) (Inquiry.firstMatch s options) := by
  induction options generalizing w with
  | nil => exact simulates_pure Option.Rel.none
  | cons option options ih =>
    obtain ⟨p, body⟩ := option
    rw [Eval.firstMatch, Inquiry.firstMatch]
    refine Simulates.bind (simulates_matchOne hforce p hs .nil) fun w₁ r r' hw₁ hr => ?_
    cases hr with
    | none => exact ih (hw₁.1 _ _ hs)
    | some hbindings => exact simulates_pure (Option.Rel.some ⟨rfl, hbindings⟩)

end Matching

/-! ### Expressions -/

section Step

variable {budget : Nat} {w : World}

theorem simulates_expectInteger (span : Span) {v : CallByNeed.Value} {v' : Value}
    (hv : w.Reads v v') :
    Simulates budget w (fun _ => Eq) (Eval.expectInteger span v)
      (Inquiry.expectInteger span v') := by
  cases hv with
  | integer n => exact simulates_pure rfl
  | _ => exact simulates_throw _

theorem simulates_arithmetic (span : Span) (op : BinaryOp) (a b : Int) :
    Simulates budget w World.Reads (Eval.arithmetic span op a b)
      (Inquiry.arithmetic span op a b) := by
  have hinteger (r : Except EvalError Int) : Simulates budget w World.Reads
      (do return .integer (← Eval.ofExcept r)) (do return .integer (← Inquiry.ofExcept r)) := by
    cases r with
    | ok n => exact simulates_pure (.integer n)
    | error e => exact simulates_throw e
  cases op with
  | lt => exact simulates_pure (.boolean _)
  | eq => exact simulates_pure (.boolean _)
  | _ => exact hinteger _

/-- Comparisons for the `==` at `span` follow the plans for them. -/
def Compares (budget : Nat) (span : Span)
    (equal : CallByNeed.Value → CallByNeed.Value → Eval Bool) : Prop :=
  ∀ w v v' u u', w.Reads v v' → w.Reads u u' →
    Simulates budget w (fun _ => Eq) (equal v u) (Rules.plan (.equal span v' u'))

variable {eval : Expr → EnvId → Eval CallByNeed.Value}
  {equal : Span → CallByNeed.Value → CallByNeed.Value → Eval Bool}

theorem Evaluates.query (heval : Evaluates budget eval) (e : Expr) {id : EnvId} {env : Env}
    (henv : w.HasEnv id env) :
    Simulates (budget + 1) w World.Reads (eval e id) (Plan.query (.eval e env)) :=
  (heval w e id env henv).query

/-- The body of a function or a `let` is evaluated in a new frame. -/
theorem Evaluates.inFrame (heval : Evaluates budget eval) (body : Expr) {parent : EnvId}
    {env : Env} {bindings : Bindings ThunkId} {bindings' : Bindings Suspension}
    (hparent : w.HasEnv parent env) (hbindings : w.ReadsBindings bindings bindings') :
    Simulates (budget + 1) w World.Reads (do eval body (← Eval.pushFrame parent bindings))
      (Plan.query (.eval body (.frame bindings' env))) :=
  (simulates_pushFrame hparent hbindings).bind_left fun _ _ _ henv => heval.query body henv

/-- A suspension is matched, and the body is evaluated with the names bound. -/
theorem Evaluates.inMatch (heval : Evaluates budget eval) (p : Pattern) (arg body : Expr)
    {id parent : EnvId} {env outer : Env} (henv : w.HasEnv id env) (hparent : w.HasEnv parent outer)
    (failure : EvalError) :
    Simulates (budget + 1) w World.Reads
      (do
        let t ← Eval.suspend arg id
        match ← Eval.bindingsOf (Eval.force eval) p t with
        | some bindings => eval body (← Eval.pushFrame parent bindings)
        | none => throw failure)
      (Inquiry.matchOne p (.made arg env) [] >>= fun
        | some bindings => Plan.query (.eval body (.frame bindings outer))
        | none => Plan.fail failure) := by
  refine (simulates_suspend arg henv).bind_left fun w₁ t hw₁ ht => ?_
  refine Simulates.bind (simulates_matchOne heval.forces p ht .nil) fun w₂ r r' hw₂ hr => ?_
  cases hr with
  | none => exact simulates_throw failure
  | some hbindings => exact heval.inFrame body (hw₂.2 _ _ (hw₁.2 _ _ hparent)) hbindings

/-- **One step of the evaluation follows the rule for the expression.** -/
theorem simulates_step (heval : Evaluates budget eval)
    (hequal : ∀ span, Compares budget span (equal span)) (e : Expr) {id : EnvId} {env : Env}
    (henv : w.HasEnv id env) :
    Simulates (budget + 1) w World.Reads (Eval.step eval equal e id) (Inquiry.value e env) := by
  cases e with
  | integer span n => exact simulates_pure (.integer n)
  | boolean span b => exact simulates_pure (.boolean b)
  | identifier span name =>
    rw [Eval.step, Inquiry.value]
    refine simulates_get fun m hm => ?_
    rcases ByName.World.cases_rel (hm.finds id env henv name) with
      ⟨hx, hy⟩ | ⟨t, s, hx, hy, hs⟩
    · rw [hx, hy]
      exact simulates_throw _
    · rw [hx, hy]
      exact heval.forces w t s hs
  | condition span test yes no =>
    rw [Eval.step, Inquiry.value]
    refine (heval.query test henv).bind fun w₁ v v' hw₁ hv => ?_
    have henv₁ := hw₁.2 _ _ henv
    cases hv with
    | boolean b =>
      cases b with
      | true => exact heval.query yes henv₁
      | false => exact heval.query no henv₁
    | _ => exact simulates_throw _
  | binary span op lhs rhs =>
    by_cases hop : op = .eq
    · -- `==` compares values of all kinds
      rw [hop, Eval.step, Inquiry.value]
      refine (heval.query lhs henv).bind fun w₁ v v' hw₁ hv => ?_
      refine (heval.query rhs (hw₁.2 _ _ henv)).bind fun w₂ u u' hw₂ hu => ?_
      refine (hequal span w₂ v v' u u' (hv.mono hw₂) hu).query.bind ?_
      rintro w₃ b _ _ rfl
      exact simulates_pure (.boolean b)
    · rw [Eval.step, Inquiry.value]
      · refine (heval.query lhs henv).bind fun w₁ v v' hw₁ hv => ?_
        refine (simulates_expectInteger lhs.span hv).bind ?_
        rintro w₂ a _ hw₂ rfl
        refine (heval.query rhs (hw₂.2 _ _ (hw₁.2 _ _ henv))).bind fun w₃ u u' hw₃ hu => ?_
        refine (simulates_expectInteger rhs.span hu).bind ?_
        rintro w₄ b _ hw₄ rfl
        exact simulates_arithmetic span op a b
      all_goals exact hop
  | lambda span param body => exact simulates_pure (.closure param body henv)
  | apply span func arg =>
    rw [Eval.step, Inquiry.value]
    refine (heval.query func henv).bind fun w₁ v v' hw₁ hv => ?_
    cases hv with
    -- the argument belongs to the environment of the call, the body to that of the function
    | closure param body hclosure =>
      exact heval.inMatch param arg body (hw₁.2 _ _ henv) hclosure _
    | _ => exact simulates_throw _
  | bind span pattern value body =>
    rw [Eval.step, Inquiry.value]
    cases pattern.name? with
    | some name =>
      exact (simulates_pushRecursive name value henv).bind_left
        fun _ _ _ hframe => heval.query body hframe
    | none => exact heval.inMatch pattern value body henv henv _
  | cases span subject options =>
    rw [Eval.step, Inquiry.value]
    -- all options are matched against one suspension, which is what the plan does with its subject
    refine (simulates_suspend subject henv).bind_left fun w₁ t hw₁ ht => ?_
    refine (simulates_firstMatch heval.forces options ht).bind fun w₂ r r' hw₂ hr => ?_
    cases hr with
    | none => exact simulates_throw _
    | @some r r' hr =>
      obtain ⟨body, bindings⟩ := r
      obtain ⟨body', bindings'⟩ := r'
      obtain ⟨rfl, hbindings⟩ : body = body' ∧ w₂.ReadsBindings bindings bindings' := hr
      exact heval.inFrame body (hw₂.2 _ _ (hw₁.2 _ _ henv)) hbindings
  | tuple span elems =>
    rw [Eval.step, Inquiry.value]
    exact (simulates_suspendAll elems henv).bind_left
      fun _ _ _ hts => simulates_pure (.tuple hts)
  | cons span head tail =>
    rw [Eval.step, Inquiry.value]
    refine (simulates_suspend head henv).bind_left fun w₁ h hw₁ hh => ?_
    refine (simulates_suspend tail (hw₁.2 _ _ henv)).bind_left fun w₂ t hw₂ ht => ?_
    exact simulates_pure (.cons (hw₂.1 _ _ hh) ht)
  | nil span => exact simulates_pure .nil

end Step

/-! ### Comparison -/

section Compare

variable {budget : Nat} {w : World} {span : Span}

/-- The values of two suspensions are found and compared. -/
theorem simulates_compareElement {force : ThunkId → Eval CallByNeed.Value}
    {equal : CallByNeed.Value → CallByNeed.Value → Eval Bool} (hforce : Forces (budget + 1) force)
    (hequal : Compares budget span equal) {w : World} {t u : ThunkId} {s r : Suspension}
    (ht : w.HasSuspension t s) (hu : w.HasSuspension u r) :
    Simulates (budget + 1) w (fun _ => Eq) (do equal (← force t) (← force u))
      (Inquiry.compareElement span s r) := by
  refine (hforce w t s ht).bind fun w₁ v v' hw₁ hv => ?_
  refine (hforce w₁ u r (hw₁.1 _ _ hu)).bind fun w₂ x x' hw₂ hx => ?_
  exact (hequal w₂ v v' x x' (hv.mono hw₂) hx).query

theorem simulates_compareAll {element : ThunkId → ThunkId → Eval Bool}
    (helement : ∀ {w : World} {t u : ThunkId} {s r : Suspension}, w.HasSuspension t s →
      w.HasSuspension u r →
      Simulates budget w (fun _ => Eq) (element t u) (Inquiry.compareElement span s r))
    {ts us : List ThunkId} {ss rs : List Suspension} (hts : List.Forall₂ w.HasSuspension ts ss)
    (hus : List.Forall₂ w.HasSuspension us rs) :
    Simulates budget w (fun _ => Eq) (Eval.compareAll element ts us)
      (Inquiry.compareAll span ss rs) := by
  induction ts generalizing w us ss rs with
  | nil =>
    cases hts
    exact simulates_pure rfl
  | cons t ts ih =>
    cases hts with
    | cons ht hts =>
      cases hus with
      | nil => exact simulates_pure rfl
      | cons hu hus =>
        -- the first elements that differ decide
        rw [Eval.compareAll, Inquiry.compareAll]
        refine (helement ht hu).bind ?_
        rintro w₁ b _ hw₁ rfl
        cases b with
        | true => exact ih (hts.imp hw₁.1) (hus.imp hw₁.1)
        | false => exact simulates_pure rfl

/-- **A comparison follows its rule**, with one level more than its elements have.  It gives up
after `room` cells, and the plan asks one more question for each of them. -/
theorem compares_compareWith {config : Config} {force : ThunkId → Eval CallByNeed.Value}
    {nested : CallByNeed.Value → CallByNeed.Value → Eval Bool} (hforce : Forces (budget + 1) force)
    (hnested : Compares budget span nested) (room : Nat) :
    Compares (min room (budget + 1)) span (Eval.compareWith config force nested span room) := by
  induction room with
  | zero =>
    rw [Nat.zero_min]
    exact fun _ _ _ _ _ _ _ => simulates_limit_zero rfl
  | succ room ih =>
    -- each cell takes a turn, and the question behind it a level: what is left is the smaller one
    obtain ⟨rest, hrest, hle, hle'⟩ : ∃ rest, min (room + 1) (budget + 1) = rest + 1 ∧
        rest ≤ budget ∧ rest ≤ min room (budget + 1) := ⟨min room budget, by omega⟩
    rw [hrest]
    have hforce' : Forces (rest + 1) force := hforce.weaken (Nat.succ_le_succ hle)
    have hnested' : Compares rest span nested :=
      fun w v v' u u' hv hu => (hnested w v v' u u' hv hu).weaken hle
    have hnext : Compares rest span (Eval.compareWith config force nested span room) :=
      fun w v v' u u' hv hu => (ih w v v' u u' hv hu).weaken hle'
    intro w v v' u u' hv hu
    cases hv with
    | closure param body henv => cases hu <;> exact simulates_throw _
    | integer a =>
      cases hu with
      | integer b => exact simulates_pure rfl
      | _ => exact simulates_throw _
    | boolean a =>
      cases hu with
      | boolean b => exact simulates_pure rfl
      | _ => exact simulates_throw _
    | nil =>
      cases hu with
      | nil => exact simulates_pure rfl
      | cons _ _ => exact simulates_pure rfl
      | _ => exact simulates_throw _
    | tuple hts =>
      cases hu with
      -- tuples of different lengths are unequal without a look at their elements
      | tuple hus =>
        change Simulates _ w _ _ (Inquiry.compare span _ _)
        rw [Eval.compareWith, Inquiry.compare, ← hts.length_eq, ← hus.length_eq]
        split
        · exact simulates_compareAll (simulates_compareElement hforce' hnested') hts hus
        · exact simulates_pure rfl
      | _ => exact simulates_throw _
    | cons hh ht =>
      cases hu with
      | nil => exact simulates_pure rfl
      | cons hh' ht' =>
        change Simulates _ w _ _ (Inquiry.compare span _ _)
        rw [Eval.compareWith, Inquiry.compare]
        refine (simulates_compareElement hforce' hnested' hh hh').bind ?_
        rintro w₁ b _ hw₁ rfl
        -- behind equal heads the tails are compared with the same levels, but with one turn less
        cases b with
        | true => exact simulates_compareElement hforce' hnext (hw₁.1 _ _ ht) (hw₁.1 _ _ ht')
        | false => exact simulates_pure rfl
      | _ => exact simulates_throw _

/-! ### The evaluator -/

/-- **The evaluator follows the plans of evaluation afresh**, and so do its comparisons. -/
theorem evaluates_eval (config : Config) (levels : Nat) :
    Evaluates (min levels config.spineLimit) (Eval.eval config levels) ∧
      ∀ span, Compares (min levels config.spineLimit) span (Eval.equal config levels span) := by
  induction levels with
  | zero =>
    rw [Nat.zero_min]
    have heval : Evaluates 0 (Eval.eval config 0) := by
      intro w e id env henv
      rw [Eval.eval_zero]
      exact simulates_limit_zero rfl
    refine ⟨heval, fun span => ?_⟩
    have hnested : Compares 0 span fun _ _ => Eval.limitReached config span :=
      fun _ _ _ _ _ _ _ => simulates_limit_zero rfl
    rw [Eval.equal_zero]
    exact fun w v v' u u' hv hu =>
      (compares_compareWith heval.forces hnested _ w v v' u u' hv hu).weaken (Nat.zero_le _)
  | succ levels ih =>
    obtain ⟨heval, hequal⟩ := ih
    have heval' : Evaluates (min (levels + 1) config.spineLimit)
        (Eval.eval config (levels + 1)) := by
      intro w e id env henv
      rw [Eval.eval_succ]
      exact (simulates_step heval hequal e henv).weaken (by omega)
    refine ⟨heval', fun span => ?_⟩
    -- a comparison demands at its own level, but compares what it finds one level below
    have hforce : Forces (min levels config.spineLimit + 1)
        (Eval.force (Eval.eval config (levels + 1))) := heval'.forces.weaken (by omega)
    rw [Eval.equal_succ]
    exact fun w v v' u u' hv hu =>
      (compares_compareWith hforce (hequal span) _ w v v' u u' hv hu).weaken (by omega)

end Compare

end CallByNeed.Afresh

import CallByNeed.Proofs.ByName.Simulation

/-!
# Evaluation follows its rules by name

Each part of the evaluator follows the plan that evaluation by name has for it: matching against a
pattern, one step of the evaluation of an expression, and the comparison of values.  The evaluator
itself follows by induction on the levels that are left (`evaluates_eval`, `compares_equal`).  A
budget of as many levels suffices, as long as it does not exceed the bound on the cells walked.
-/

namespace CallByNeed

/-! ### Matching as an evaluation -/

namespace Matching

/-- A match, started with the given names bound, as an evaluation that yields the names bound at its
end, if the pattern fits. -/
def outcome (x : Matching Bool) (bindings : Bindings ThunkId) :
    Eval (Option (Bindings ThunkId)) := fun m =>
  match x ⟨m, bindings⟩ with
  | .ok true s => .ok (some s.bindings) s.machine
  | .ok false s => .ok none s.machine
  | .error e s => .error e s.machine

variable {α : Type}

@[simp]
theorem outcome_pure (b : Bool) (bindings : Bindings ThunkId) :
    outcome (pure b) bindings = pure (if b then some bindings else none) := by
  funext m
  cases b <;> rfl

/-- **Evaluations come out of a match.** -/
theorem outcome_ofEval_bind (x : Eval α) (f : α → Matching Bool) (bindings : Bindings ThunkId) :
    outcome (ofEval x >>= f) bindings = x >>= fun a => outcome (f a) bindings := by
  funext m
  change _ = EStateM.bind x (fun a => outcome (f a) bindings) m
  simp only [outcome, bind, EStateM.bind, ofEval]
  rcases x m with ⟨a, m'⟩ | ⟨e, m'⟩ <;> rfl

/-- **Of two matches the second sees the names of the first.** -/
theorem outcome_ite_bind (x y : Matching Bool) (bindings : Bindings ThunkId) :
    outcome (do if ← x then y else return false) bindings =
      outcome x bindings >>= fun found =>
        match found with
        | some bindings => outcome y bindings
        | none => pure none := by
  funext m
  simp only [outcome, bind, EStateM.bind]
  rcases x ⟨m, bindings⟩ with ⟨_ | _, s⟩ | ⟨e, s⟩ <;> rfl

theorem outcome_bindName (span : Span) (name : String) (t : ThunkId)
    (bindings : Bindings ThunkId) :
    outcome (do bindName span name t; return true) bindings =
      if bindings.binds name then throw (.duplicateBinding name span)
      else pure (some ((name, t) :: bindings)) := by
  funext m
  simp only [outcome, bindName, bind, EStateM.bind, ByName.get_apply]
  cases bindings.binds name <;> rfl

end Matching

namespace ByName

/-! ### Patterns -/

/-- Both matches fail, or both bind the same names to suspensions that stand for each other. -/
def ReadsMatch (w : World) : Option (Bindings ThunkId) → Option (Bindings Suspension) → Prop :=
  Option.Rel w.ReadsBindings

section Matching

variable {budget : Nat} {force : ThunkId → Eval CallByNeed.Value}

/-- A literal fits or not, and binds nothing. -/
theorem simulates_test {w : World} {bindings : Bindings ThunkId}
    {bindings' : Bindings Suspension} (b : Bool) (h : w.ReadsBindings bindings bindings') :
    Simulates 0 budget w ReadsMatch (Matching.outcome (pure b) bindings)
      (pure (if b then some bindings' else none)) := by
  rw [Matching.outcome_pure]
  cases b with
  | true => exact simulates_pure (Option.Rel.some h)
  | false => exact simulates_pure Option.Rel.none

mutual

theorem simulates_one (hforce : Forces budget force) :
    ∀ (p : Pattern) {w : World} {t : ThunkId} {s : Suspension} {bindings : Bindings ThunkId}
      {bindings' : Bindings Suspension}, w.HasSuspension t s →
      w.ReadsBindings bindings bindings' →
      Simulates 0 budget w ReadsMatch ((Matching.one force p t).outcome bindings)
        (Plan.matchOne p s bindings')
  | .bind span name, w, t, s, bindings, bindings', hs, hbindings => by
    -- nothing is demanded: both sides look at the names alone
    rw [Matching.one, Matching.outcome_bindName, Plan.matchOne, ← hbindings.binds name]
    by_cases hname : bindings.binds name
    · rw [if_pos hname, if_pos hname]
      exact simulates_throw rfl
    · rw [if_neg hname, if_neg hname]
      exact simulates_pure (.some (.cons ⟨rfl, hs⟩ hbindings))
  | .wildcard _, w, t, s, bindings, bindings', hs, hbindings => by
    rw [Matching.one, Plan.matchOne]
    exact simulates_test true hbindings
  | .integer _ value, w, t, s, bindings, bindings', hs, hbindings => by
    rw [Matching.one, Matching.outcome_ofEval_bind, Plan.matchOne]
    -- the value of the suspension decides, and both sides find the same one
    refine (hforce w t s hs).bind fun w₁ v v' hw₁ hv => ?_
    cases hv with
    | integer n => exact simulates_test (n == value) (hbindings.mono hw₁)
    | _ => exact simulates_pure .none
  | .boolean _ value, w, t, s, bindings, bindings', hs, hbindings => by
    rw [Matching.one, Matching.outcome_ofEval_bind, Plan.matchOne]
    refine (hforce w t s hs).bind fun w₁ v v' hw₁ hv => ?_
    cases hv with
    | boolean b => exact simulates_test (b == value) (hbindings.mono hw₁)
    | _ => exact simulates_pure .none
  | .tuple _ ps, w, t, s, bindings, bindings', hs, hbindings => by
    rw [Matching.one, Matching.outcome_ofEval_bind, Plan.matchOne]
    refine (hforce w t s hs).bind fun w₁ v v' hw₁ hv => ?_
    cases hv with
    | @tuple ts ss hts =>
      simp only
      -- the number of suspensions is the same on both sides
      rw [← hts.length_eq]
      by_cases hlen : ts.length = ps.length
      · rw [if_pos hlen, if_pos hlen]
        exact simulates_all hforce ps hts (hbindings.mono hw₁)
      · rw [if_neg hlen, if_neg hlen]
        exact simulates_pure .none
    | _ => exact simulates_pure .none
  | .cons _ p q, w, t, s, bindings, bindings', hs, hbindings => by
    rw [Matching.one, Matching.outcome_ofEval_bind, Plan.matchOne]
    refine (hforce w t s hs).bind fun w₁ v v' hw₁ hv => ?_
    cases hv with
    | cons hhead htail =>
      simp only
      rw [Matching.outcome_ite_bind]
      -- the head comes first, and its names are handed on to the tail
      refine (simulates_one hforce p hhead (hbindings.mono hw₁)).bind fun w₂ r r' hw₂ hr => ?_
      cases hr with
      | none => exact simulates_pure .none
      | some hbindings₂ => exact simulates_one hforce q (hw₂.1 _ _ htail) hbindings₂
    | _ => exact simulates_pure .none
  | .nil _, w, t, s, bindings, bindings', hs, hbindings => by
    rw [Matching.one, Matching.outcome_ofEval_bind, Plan.matchOne]
    refine (hforce w t s hs).bind fun w₁ v v' hw₁ hv => ?_
    cases hv with
    | nil => exact simulates_test true (hbindings.mono hw₁)
    | _ => exact simulates_pure .none

theorem simulates_all (hforce : Forces budget force) :
    ∀ (ps : List Pattern) {w : World} {ts : List ThunkId} {ss : List Suspension}
      {bindings : Bindings ThunkId} {bindings' : Bindings Suspension},
      List.Forall₂ w.HasSuspension ts ss → w.ReadsBindings bindings bindings' →
      Simulates 0 budget w ReadsMatch ((Matching.all force ps ts).outcome bindings)
        (Plan.matchAll ps ss bindings')
  | [], w, ts, ss, bindings, bindings', hts, hbindings => by
    rw [Matching.all, Plan.matchAll]
    · exact simulates_test true hbindings
    all_goals simp
  | p :: ps, w, ts, ss, bindings, bindings', hts, hbindings => by
    cases hts with
    | nil =>
      rw [Matching.all, Plan.matchAll]
      · exact simulates_test true hbindings
      all_goals simp
    | cons hs hts =>
      rw [Matching.all, Plan.matchAll, Matching.outcome_ite_bind]
      refine (simulates_one hforce p hs hbindings).bind fun w₁ r r' hw₁ hr => ?_
      -- the first pattern that does not fit ends the matching on both sides
      cases hr with
      | none => exact simulates_pure .none
      | some hbindings₁ => exact simulates_all hforce ps (hts.imp hw₁.1) hbindings₁

end

end Matching

/-! ### Expressions -/

/-- Comparisons for the `==` at `span` follow the plans for them. -/
def Compares (budget : Nat) (span : Span)
    (equal : CallByNeed.Value → CallByNeed.Value → Eval Bool) : Prop :=
  ∀ w v v' u u', w.Reads v v' → w.Reads u u' →
    Simulates 0 budget w (fun _ => Eq) (equal v u) (Plan.query (.equal span v' u'))

section Step

variable {budget : Nat} {w : World}

theorem simulates_firstMatch {force : ThunkId → Eval CallByNeed.Value}
    (hforce : Forces budget force) (options : List (Pattern × Expr)) {t : ThunkId}
    {s : Suspension} (hs : w.HasSuspension t s) :
    Simulates 0 budget w
      (fun w' => Option.Rel fun r r' => r.1 = r'.1 ∧ w'.ReadsBindings r.2 r'.2)
      (Eval.firstMatch force t options) (Plan.firstMatch s options) := by
  induction options generalizing w with
  | nil => exact simulates_pure Option.Rel.none
  | cons option options ih =>
    obtain ⟨p, body⟩ := option
    rw [Eval.firstMatch, Plan.firstMatch]
    refine Simulates.bind (simulates_one hforce p hs .nil) fun w₁ r r' hw₁ hr => ?_
    cases hr with
    | none => exact ih (hw₁.1 _ _ hs)
    | some hbindings => exact simulates_pure (Option.Rel.some ⟨rfl, hbindings⟩)

theorem simulates_expectInteger (span : Span) {v : CallByNeed.Value} {v' : Value}
    (hv : w.Reads v v') :
    Simulates 0 budget w (fun _ => Eq) (Eval.expectInteger span v)
      (Plan.expectInteger span v') := by
  cases hv with
  | integer n => exact simulates_pure rfl
  | _ => exact simulates_throw rfl

theorem simulates_ofExcept {α : Type} {r : Except EvalError α}
    (h : ∀ e, r = .error e → e.isOrdinary) :
    Simulates 0 budget w (fun _ => Eq) (Eval.ofExcept r) (Plan.ofExcept r) := by
  cases r with
  | ok a => exact simulates_pure rfl
  | error e => exact simulates_throw (h e rfl)

theorem isOrdinary_of_checked {span : Span} {n : Int} {e : EvalError}
    (h : Arithmetic.checked span n = .error e) : e.isOrdinary := by
  unfold Arithmetic.checked at h
  by_cases hn : Arithmetic.inRange n
  · rw [if_pos hn] at h
    cases h
  · rw [if_neg hn] at h
    obtain rfl := Except.error.inj h
    rfl

theorem isOrdinary_of_power {span : Span} {a b : Int} {e : EvalError}
    (h : Arithmetic.power span a b = .error e) : e.isOrdinary := by
  unfold Arithmetic.power at h
  by_cases hb : b < 0
  · rw [if_pos hb] at h
    obtain rfl := Except.error.inj h
    rfl
  · rw [if_neg hb] at h
    exact isOrdinary_of_checked h

theorem simulates_arithmetic (span : Span) (op : BinaryOp) (a b : Int) :
    Simulates 0 budget w World.Reads (Eval.arithmetic span op a b)
      (Plan.arithmetic span op a b) := by
  have hinteger : ∀ {r : Except EvalError Int}, (∀ e, r = .error e → e.isOrdinary) →
      Simulates 0 budget w World.Reads
        (do return .integer (← Eval.ofExcept r)) (do return .integer (← Plan.ofExcept r)) := by
    intro r hr
    refine (simulates_ofExcept hr).bind ?_
    rintro w₁ n _ _ rfl
    exact simulates_pure (.integer n)
  cases op with
  | pow => exact hinteger fun e => isOrdinary_of_power
  | mul => exact hinteger fun e => isOrdinary_of_checked
  | add => exact hinteger fun e => isOrdinary_of_checked
  | sub => exact hinteger fun e => isOrdinary_of_checked
  | lt => exact simulates_pure (.boolean _)
  | eq => exact simulates_pure (.boolean _)

variable {eval : Expr → EnvId → Eval CallByNeed.Value}
  {equal : Span → CallByNeed.Value → CallByNeed.Value → Eval Bool}

theorem Evaluates.query (heval : Evaluates budget eval) (e : Expr) {id : EnvId} {env : Env}
    (henv : w.HasEnv id env) :
    Simulates 0 budget w World.Reads (eval e id) (Plan.query (.eval e env)) :=
  (heval w e id env henv).weaken (Nat.zero_le 1) (Nat.le_refl budget)

/-- The body of a function or a `let` is evaluated in a new frame. -/
theorem Evaluates.inFrame (heval : Evaluates budget eval) (body : Expr) {parent : EnvId}
    {env : Env} {bindings : Bindings ThunkId} {bindings' : Bindings Suspension}
    (hparent : w.HasEnv parent env) (hbindings : w.ReadsBindings bindings bindings') :
    Simulates 0 budget w World.Reads (do eval body (← Eval.pushFrame parent bindings))
      (Plan.query (.eval body (.frame bindings' env))) :=
  (simulates_pushFrame hparent hbindings).bind_left fun _ _ _ henv => heval.query body henv

/-- A suspension is matched, and the body is evaluated with the names bound. -/
theorem Evaluates.inMatch (heval : Evaluates budget eval) (p : Pattern) (arg body : Expr)
    {id parent : EnvId} {env outer : Env} (henv : w.HasEnv id env) (hparent : w.HasEnv parent outer)
    {failure : EvalError} (hfailure : failure.isOrdinary) :
    Simulates 0 budget w World.Reads
      (do
        let t ← Eval.suspend arg id
        match ← Eval.bindingsOf (Eval.force eval) p t with
        | some bindings => eval body (← Eval.pushFrame parent bindings)
        | none => throw failure)
      (Plan.matchOne p (arg, env) [] >>= fun
        | some bindings => Plan.query (.eval body (.frame bindings outer))
        | none => Plan.fail failure) := by
  refine (simulates_suspend arg henv).bind_left fun w₁ t hw₁ ht => ?_
  refine Simulates.bind (simulates_one heval.force p ht .nil) fun w₂ r r' hw₂ hr => ?_
  cases hr with
  | none => exact simulates_throw hfailure
  | some hbindings => exact heval.inFrame body (hw₂.2 _ _ (hw₁.2 _ _ hparent)) hbindings

/-- **One step of the evaluation follows the rule for the expression.** -/
theorem simulates_step (heval : Evaluates budget eval)
    (hequal : ∀ span, Compares budget span (equal span)) (e : Expr) {id : EnvId} {env : Env}
    (henv : w.HasEnv id env) :
    Simulates 0 budget w World.Reads (Eval.step eval equal e id) (Plan.value e env) := by
  cases e with
  | integer span n => exact simulates_pure (.integer n)
  | boolean span b => exact simulates_pure (.boolean b)
  | identifier span name =>
    rw [Eval.step, Plan.value]
    refine simulates_get fun m hm => ?_
    rcases World.cases_rel (hm.finds id env henv name) with ⟨hx, hy⟩ | ⟨t, s, hx, hy, hs⟩
    · rw [hx, hy]
      exact simulates_throw rfl
    · rw [hx, hy]
      exact heval.force w t s hs
  | condition span test yes no =>
    rw [Eval.step, Plan.value]
    refine (heval.query test henv).bind fun w₁ v v' hw₁ hv => ?_
    have henv₁ := hw₁.2 _ _ henv
    cases hv with
    | boolean b =>
      cases b with
      | true => exact heval.query yes henv₁
      | false => exact heval.query no henv₁
    | _ => exact simulates_throw rfl
  | binary span op lhs rhs =>
    by_cases hop : op = .eq
    · -- `==` compares values of all kinds
      rw [hop, Eval.step, Plan.value]
      refine (heval.query lhs henv).bind fun w₁ v v' hw₁ hv => ?_
      refine (heval.query rhs (hw₁.2 _ _ henv)).bind fun w₂ u u' hw₂ hu => ?_
      refine (hequal span w₂ v v' u u' (hv.mono hw₂) hu).bind ?_
      rintro w₃ b _ _ rfl
      exact simulates_pure (.boolean b)
    · rw [Eval.step, Plan.value]
      · refine (heval.query lhs henv).bind fun w₁ v v' hw₁ hv => ?_
        refine (simulates_expectInteger lhs.span hv).bind ?_
        rintro w₂ a _ hw₂ rfl
        refine (heval.query rhs (hw₂.2 _ _ (hw₁.2 _ _ henv))).bind fun w₃ u u' hw₃ hu => ?_
        refine (simulates_expectInteger rhs.span hu).bind ?_
        rintro w₄ b _ hw₄ rfl
        exact simulates_arithmetic span op a b
      all_goals exact hop
  | lambda span param body => exact simulates_pure (.closure param body henv)
  | apply span func arg =>
    rw [Eval.step, Plan.value]
    refine (heval.query func henv).bind fun w₁ v v' hw₁ hv => ?_
    cases hv with
    -- the argument belongs to the environment of the call, the body to that of the function
    | closure param body hclosure =>
      exact heval.inMatch param arg body (hw₁.2 _ _ henv) hclosure rfl
    | _ => exact simulates_throw rfl
  | bind span pattern value body =>
    rw [Eval.step, Plan.value]
    cases pattern.name? with
    | some name =>
      exact (simulates_pushRecursive name value henv).bind_left
        fun _ _ _ hframe => heval.query body hframe
    | none => exact heval.inMatch pattern value body henv henv rfl
  | cases span subject options =>
    rw [Eval.step, Plan.value]
    -- all options are matched against one suspension, which is what the plan does with its subject
    refine (simulates_suspend subject henv).bind_left fun w₁ t hw₁ ht => ?_
    refine (simulates_firstMatch heval.force options ht).bind fun w₂ r r' hw₂ hr => ?_
    cases hr with
    | none => exact simulates_throw rfl
    | @some r r' hr =>
      obtain ⟨body, bindings⟩ := r
      obtain ⟨body', bindings'⟩ := r'
      obtain ⟨rfl, hbindings⟩ : body = body' ∧ w₂.ReadsBindings bindings bindings' := hr
      exact heval.inFrame body (hw₂.2 _ _ (hw₁.2 _ _ henv)) hbindings
  | tuple span elems =>
    rw [Eval.step, Plan.value]
    exact (simulates_suspendAll elems henv).bind_left
      fun _ _ _ hts => simulates_pure (.tuple hts)
  | cons span head tail =>
    rw [Eval.step, Plan.value]
    refine (simulates_suspend head henv).bind_left fun w₁ h hw₁ hh => ?_
    refine (simulates_suspend tail (hw₁.2 _ _ henv)).bind_left fun w₂ t hw₂ ht => ?_
    exact simulates_pure (.cons (hw₂.1 _ _ hh) ht)
  | nil span => exact simulates_pure .nil

end Step

/-! ### Comparison -/

section Compare

variable {budget : Nat} {w : World} {span : Span}

theorem Forces.weaken {budget' : Nat} {force : ThunkId → Eval CallByNeed.Value}
    (h : Forces budget force) (hle : budget' ≤ budget) : Forces budget' force :=
  fun w t s hs => (h w t s hs).weaken (Nat.le_refl 0) hle

theorem Compares.weaken {budget' : Nat}
    {equal : CallByNeed.Value → CallByNeed.Value → Eval Bool} (h : Compares budget span equal)
    (hle : budget' ≤ budget) : Compares budget' span equal :=
  fun w v v' u u' hv hu => (h w v v' u u' hv hu).weaken (Nat.le_refl 0) hle

/-- The values of two suspensions are found and compared. -/
theorem simulates_compareElement {force : ThunkId → Eval CallByNeed.Value}
    {equal : CallByNeed.Value → CallByNeed.Value → Eval Bool} (hforce : Forces budget force)
    (hequal : Compares budget span equal) {w : World} {t u : ThunkId} {s r : Suspension}
    (ht : w.HasSuspension t s) (hu : w.HasSuspension u r) :
    Simulates 0 budget w (fun _ => Eq) (do equal (← force t) (← force u))
      (Plan.compareElement span s r) := by
  refine (hforce w t s ht).bind fun w₁ v v' hw₁ hv => ?_
  refine (hforce w₁ u r (hw₁.1 _ _ hu)).bind fun w₂ x x' hw₂ hx => ?_
  exact hequal w₂ v v' x x' (hv.mono hw₂) hx

theorem simulates_compareAll {element : ThunkId → ThunkId → Eval Bool}
    (helement : ∀ {w : World} {t u : ThunkId} {s r : Suspension}, w.HasSuspension t s →
      w.HasSuspension u r →
      Simulates 0 budget w (fun _ => Eq) (element t u) (Plan.compareElement span s r))
    {ts us : List ThunkId} {ss rs : List Suspension} (hts : List.Forall₂ w.HasSuspension ts ss)
    (hus : List.Forall₂ w.HasSuspension us rs) :
    Simulates 0 budget w (fun _ => Eq) (Eval.compareAll element ts us)
      (Plan.compareAll span ss rs) := by
  induction ts generalizing w us ss rs with
  | nil =>
    cases hts
    exact simulates_pure rfl
  | cons t ts ih =>
    cases hts with
    | cons ht hts =>
      cases hus with
      | nil => exact simulates_pure rfl
      | cons hu hus =>
        -- the first elements that differ decide
        rw [Eval.compareAll, Plan.compareAll]
        refine (helement ht hu).bind ?_
        rintro w₁ b _ hw₁ rfl
        cases b with
        | true => exact ih (hts.imp hw₁.1) (hus.imp hw₁.1)
        | false => exact simulates_pure rfl

/-- **A comparison follows its rule.**  It gives up after `room` cells, and then the plan gives up
at that height: each cell takes a level. -/
theorem simulates_compareWith {config : Config} {force : ThunkId → Eval CallByNeed.Value}
    {nested : CallByNeed.Value → CallByNeed.Value → Eval Bool} (hforce : Forces budget force)
    (hnested : Compares budget span nested) (room : Nat) :
    ∀ {budget' : Nat} {w : World} {v u : CallByNeed.Value} {v' u' : Value}, budget' ≤ room →
      budget' ≤ budget + 1 → w.Reads v v' → w.Reads u u' →
      Simulates 0 budget' w (fun _ => Eq) (Eval.compareWith config force nested span room v u)
        (Plan.query (.equal span v' u')) := by
  induction room with
  | zero =>
    intro budget' w v u v' u' hroom _ _ _
    obtain rfl : budget' = 0 := Nat.le_zero.mp hroom
    exact simulates_limit rfl (Plan.run_query_zero _)
  | succ room ih =>
    intro budget' w v u v' u' hroom hbudget hv hu
    -- the question takes one of the levels, and the plan behind it may use the others
    suffices hplan : Simulates 0 (budget' - 1) w (fun _ => Eq)
        (Eval.compareWith config force nested span (room + 1) v u)
        (Question.equal span v' u').plan from
      (simulates_query hplan).weaken (Nat.zero_le 1) (by omega)
    have hforce' : Forces (budget' - 1) force := hforce.weaken (by omega)
    have hnested' : Compares (budget' - 1) span nested := hnested.weaken (by omega)
    cases hv with
    | closure param body henv => cases hu <;> exact simulates_throw rfl
    | integer a =>
      cases hu with
      | integer b => exact simulates_pure rfl
      | _ => exact simulates_throw rfl
    | boolean a =>
      cases hu with
      | boolean b => exact simulates_pure rfl
      | _ => exact simulates_throw rfl
    | nil =>
      cases hu with
      | nil => exact simulates_pure rfl
      | cons _ _ => exact simulates_pure rfl
      | _ => exact simulates_throw rfl
    | tuple hts =>
      cases hu with
      | tuple hus =>
        rw [Eval.compareWith, Question.plan, Plan.compare, ← hts.length_eq, ← hus.length_eq]
        split
        · exact simulates_compareAll (simulates_compareElement hforce' hnested') hts hus
        · exact simulates_pure rfl
      | _ => exact simulates_throw rfl
    | cons hh ht =>
      cases hu with
      | nil => exact simulates_pure rfl
      | cons hh' ht' =>
        rw [Eval.compareWith, Question.plan, Plan.compare]
        refine (simulates_compareElement hforce' hnested' hh hh').bind ?_
        rintro w₁ b _ hw₁ rfl
        cases b with
        | true =>
          -- the rest of the lists is compared at the same level, but the plan asks once more
          have hrest : Compares (budget' - 1) span
              (Eval.compareWith config force nested span room) :=
            fun w v v' u u' hv hu => ih (by omega) (by omega) hv hu
          exact simulates_compareElement hforce' hrest (hw₁.1 _ _ ht) (hw₁.1 _ _ ht')
        | false => exact simulates_pure rfl
      | _ => exact simulates_throw rfl

/-! ### The evaluator -/

/-- With no level left nothing is evaluated, and no question is answered. -/
theorem evaluates_limit (config : Config) :
    Evaluates 0 fun e _ => Eval.limitReached config e.span :=
  fun _ _ _ _ _ => simulates_limit rfl (Plan.run_query_zero _)

/-- **The evaluator follows the plans of evaluation by name**, and so do its comparisons. -/
theorem evaluates_eval (config : Config) (depth : Nat) :
    Evaluates (min depth config.spineLimit) (Eval.eval config depth) ∧
      ∀ span, Compares (min depth config.spineLimit) span (Eval.equal config depth span) := by
  induction depth with
  | zero =>
    rw [Nat.zero_min]
    refine ⟨?_, fun span => ?_⟩
    · intro w e id env henv
      rw [Eval.eval_zero]
      exact evaluates_limit config w e id env henv
    · intro w v v' u u' hv hu
      have hnested : Compares 0 span fun _ _ => Eval.limitReached config span :=
        fun _ _ _ _ _ _ _ => simulates_limit rfl (Plan.run_query_zero _)
      rw [Eval.equal]
      exact simulates_compareWith (evaluates_limit config).force hnested _ (by omega) (by omega)
        hv hu
  | succ depth ih =>
    obtain ⟨heval, hequal⟩ := ih
    have heval' : Evaluates (min (depth + 1) config.spineLimit)
        (Eval.eval config (depth + 1)) := by
      intro w e id env henv
      rw [Eval.eval_succ]
      have hplan : Simulates 0 (min depth config.spineLimit) w World.Reads
          (Eval.step (Eval.eval config depth) (Eval.equal config depth) e id)
          (Question.eval e env).plan := simulates_step heval hequal e henv
      exact (simulates_query hplan).weaken (Nat.le_refl 1) (by omega)
    refine ⟨heval', fun span => ?_⟩
    intro w v v' u u' hv hu
    -- a comparison forces at its own level, but compares what it finds one level below
    rw [Eval.equal_succ]
    exact simulates_compareWith (heval'.force.weaken (by omega)) (hequal span) _ (by omega)
      (by omega) hv hu

end Compare

end ByName

end CallByNeed

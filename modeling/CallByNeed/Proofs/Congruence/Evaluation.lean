import CallByNeed.Proofs.Congruence.Matching
import CallByNeed.Proofs.Interpretation.DepthLimit

/-!
# Evaluation of congruent programs

One step of the evaluation runs alike on congruent expressions (`runs_step`).  It is put together
from one lemma for each form of expression, which says what the form demands and in which
environments: the parts that are evaluated now are so in the environments of the whole, which stay
open, and those that are suspended belong to them.  Comparisons run alike too
(`compares_compareWith`), and the evaluator follows by induction on the levels that are left
(`evaluates_eval`).

All forms of a binding do the same once the function of an application has been evaluated
(`matchBody`), which takes a level but makes no suspension and no frame.  With no level left for it
the other forms do not get to their body either (`limited_form`).  Where the name of a binding is
not used, the suspension made for it is left outside the addresses that may be demanded.
-/

namespace CallByNeed.Congruence

variable {l : Leeway} {w : World}

/-! ### What the forms of a binding do -/

/-- A suspension is matched against a pattern, and the body evaluated with the names that it
binds. -/
def matchBody (eval : Expr → EnvId → Eval Value) (p : Pattern) (v b : Expr) (env parent : EnvId)
    (failure : EvalError) : Eval Value := do
  let t ← Eval.suspend v env
  match ← Eval.bindingsOf (Eval.force eval) p t with
  | some bindings => eval b (← Eval.pushFrame parent bindings)
  | none => throw failure

section Forms

variable {config : Config} {s r : Span} {p : Pattern} {v b : Expr} {env : EnvId}

theorem step_definition (eval : Expr → EnvId → Eval Value)
    (equal : Span → Value → Value → Eval Bool) (hp : p.name? = none) :
    Eval.step eval equal (.bind s p v b) env =
      matchBody eval p v b env env (.patternMismatch "let" s) := by
  rw [Eval.step, hp]
  rfl

theorem step_selection (eval : Expr → EnvId → Eval Value)
    (equal : Span → Value → Value → Eval Bool) :
    Eval.step eval equal (.cases s v [(p, b)]) env =
      matchBody eval p v b env env (.nonExhaustive s) := by
  rw [Eval.step, matchBody]
  simp only [Eval.firstMatch, bind_assoc]
  congr 1
  funext t
  congr 1
  funext found
  cases found <;> rfl

/-- **Every form of a binding matches its pattern in the same way**, if there is a level left for
the function of an application. -/
theorem step_form {form : BindingForm} (hform : form.Matches p) (n : Nat) :
    Eval.step (Eval.eval config (n + 1)) (Eval.equal config (n + 1)) (form.expr s r p v b) env =
      matchBody (Eval.eval config (n + 1)) p v b env env (form.failure s) := by
  cases form with
  | definition => exact step_definition _ _ (hform rfl)
  | selection => exact step_selection _ _
  | application =>
    have hlambda : Eval.eval config (n + 1) (.lambda r p b) env = pure (.closure p b env) := by
      rw [Eval.eval_succ]
      rfl
    rw [BindingForm.expr, Eval.step, hlambda, pure_bind]
    rfl

/-- The evaluation reaches the limit on the nesting, on every machine. -/
def Limited (config : Config) (x : Eval Value) : Prop :=
  ∀ m, ∃ span m', x m = .error (.recursionLimit config.maxDepth span) m'

theorem limited_eval_zero (e : Expr) (env : EnvId) : Limited config (Eval.eval config 0 e env) := by
  intro m
  rw [Eval.eval_zero]
  exact ⟨e.span, m, rfl⟩

/-- A pattern that demands the value has no level left for it, and another one none for the
body. -/
theorem limited_matchBody (failure : EvalError) :
    Limited config (matchBody (Eval.eval config 0) p v b env env failure) := by
  intro m
  let t := m.cells.size
  -- the value is suspended, and both its demand and the body fail with no level left
  let m₁ : Machine := { (m.allocate (.pending v env)).2 with created := m.created + 1 }
  have hcell : m₁.cell t = .pending v env := Machine.cell_allocate_self
  obtain ⟨span, m₂, hforce⟩ : ∃ span m₂, Eval.force (Eval.eval config 0) t m₁ =
      .error (.recursionLimit config.maxDepth span) m₂ := by
    rw [ByName.force_of_pending hcell, Eval.eval_zero]
    exact ⟨_, _, rfl⟩
  have hbody (bs : Bindings ThunkId) :
      ∃ span m', (do Eval.eval config 0 b (← Eval.pushFrame env bs) : Eval Value) m₁ =
        .error (.recursionLimit config.maxDepth span) m' :=
    limited_eval_zero b m₁.environments.fresh _
  have hdemand {α β : Type} (f : Value → Eval α) (g : α → Eval β) :
      ∃ span m', ((Eval.force (Eval.eval config 0) t >>= f) >>= g) m₁ =
        .error (.recursionLimit config.maxDepth span) m' := by
    refine ⟨span, m₂, ?_⟩
    show EStateM.bind (EStateM.bind _ f) g m₁ = _
    unfold EStateM.bind
    rw [hforce]
  show ∃ span m', (Eval.bindingsOf (Eval.force (Eval.eval config 0)) p t >>= fun
    | some bindings => do Eval.eval config 0 b (← Eval.pushFrame env bindings)
    | none => throw failure) m₁ = .error (.recursionLimit config.maxDepth span) m'
  have heq : Eval.bindingsOf (Eval.force (Eval.eval config 0)) p t =
      Scheme.matchOne (Eval.force (Eval.eval config 0)) p t [] :=
    (Scheme.equality.matchOne (fun _ => rfl) p t []).symm
  rw [heq]
  -- a name or a wildcard does not demand the value, so that the body is what fails
  cases p with
  | bind s x =>
    rw [Scheme.matchOne]
    exact hbody [(x, t)]
  | wildcard s =>
    rw [Scheme.matchOne]
    exact hbody []
  | integer s value =>
    rw [Scheme.matchOne]
    exact hdemand _ _
  | boolean s value =>
    rw [Scheme.matchOne]
    exact hdemand _ _
  | tuple s ps =>
    rw [Scheme.matchOne]
    exact hdemand _ _
  | cons s p q =>
    rw [Scheme.matchOne]
    exact hdemand _ _
  | nil s =>
    rw [Scheme.matchOne]
    exact hdemand _ _

/-- **With no level left every form of a binding reaches the limit.** -/
theorem limited_form (form : BindingForm) : Limited config
    (Eval.step (Eval.eval config 0) (Eval.equal config 0) (form.expr s r p v b) env) := by
  cases form with
  | application =>
    intro m
    have hzero : Limited config (Eval.eval config 0 (.lambda r p b) env) := limited_eval_zero _ env
    -- the function is evaluated first, and that fails
    obtain ⟨span, m', hfunc⟩ := hzero m
    refine ⟨span, m', ?_⟩
    rw [BindingForm.expr, Eval.step]
    show EStateM.bind _ _ m = _
    unfold EStateM.bind
    rw [hfunc]
  | selection =>
    rw [BindingForm.expr, step_selection]
    exact limited_matchBody _
  | definition =>
    rw [BindingForm.expr]
    cases hp : p.name? with
    | none =>
      rw [step_definition _ _ hp]
      exact limited_matchBody _
    | some x =>
      -- a plain name is bound in a frame of its own, without a match
      rw [Eval.step, hp]
      exact fun m => limited_eval_zero b m.environments.fresh _

end Forms

/-! ### Operations on values -/

variable (l) in
/-- Comparisons of congruent values run alike. -/
def Compares (equal equal' : Value → Value → Eval Bool) : Prop :=
  ∀ ⦃w : World⦄ ⦃v v' u u' : Value⦄, w.Values l v v' → w.Values l u u' →
    Runs l w (fun _ => Eq) (equal v u) (equal' v' u')

theorem runs_expectInteger {s s' : Span} (hs : l.spans s s') {v v' : Value}
    (hv : w.Values l v v') :
    Runs l w (fun _ => Eq) (Eval.expectInteger s v) (Eval.expectInteger s' v') := by
  cases hv with
  | integer n => exact runs_pure rfl
  | _ => exact runs_throw (.same rfl hs)

theorem runs_arithmetic {s s' : Span} (hs : l.spans s s') (op : BinaryOp) (a b : Int) :
    Runs l w (World.Values l) (Eval.arithmetic s op a b) (Eval.arithmetic s' op a b) := by
  -- the result is checked on both sides, and an overflow is where the operator stands
  have hchecked (n : Int) : Runs l w (World.Values l)
      (do return .integer (← Eval.ofExcept (Arithmetic.checked s n)))
      (do return .integer (← Eval.ofExcept (Arithmetic.checked s' n))) := by
    unfold Arithmetic.checked
    split
    · exact runs_pure (.integer n)
    · exact runs_throw (.same rfl hs)
  cases op with
  | pow =>
    unfold Eval.arithmetic Arithmetic.power
    simp only
    split
    · exact runs_throw (.same rfl hs)
    · exact hchecked _
  | mul => exact hchecked _
  | add => exact hchecked _
  | sub => exact hchecked _
  | lt => exact runs_pure (.boolean _)
  | eq => exact runs_pure (.boolean _)

/-! ### Expressions -/

section Step

variable {outer : Naming} {env env' : EnvId} {eval : Expr → EnvId → Eval Value}
  {equal : Span → Value → Value → Eval Bool}

theorem runs_suspendAll {es es' : List Expr} (henv : w.Opens outer env env')
    (hes : Expr.CongruentAll l outer es es') :
    Runs l w (fun w' ts ts' => ts = ts' ∧ ∀ t ∈ ts, t ∈ w'.live)
      (Eval.suspendAll env es) (Eval.suspendAll env' es') := by
  induction es generalizing w es' with
  | nil =>
    cases hes
    exact runs_pure ⟨rfl, by simp⟩
  | cons e es ih =>
    cases hes with
    | cons he hes =>
      refine (runs_suspend henv he).bind ?_
      rintro w₁ t _ hw₁ ⟨rfl, ht⟩
      refine (ih (henv.mono hw₁) hes).bind ?_
      rintro w₂ ts _ hw₂ ⟨rfl, hts⟩
      exact runs_pure ⟨rfl, List.forall_mem_cons.2 ⟨hw₂.1 t ht, hts⟩⟩

/-- The body of a function, a `let` or an option is evaluated in new frames. -/
theorem Evaluates.inFrame (heval : Evaluates l eval) {inner : Naming} {parent parent' : EnvId}
    {b b' : Expr} {bs bs' : Bindings ThunkId} (hparent : w.Opens outer parent parent')
    (hb : Expr.Congruent l inner b b') (hcovers : w.Covers inner outer bs bs') :
    Runs l w (World.Values l) (do eval b (← Eval.pushFrame parent bs))
      (do eval b' (← Eval.pushFrame parent' bs')) :=
  (runs_pushFrame hparent hcovers).bind fun _ _ _ _ henv => heval henv hb

/-- **Values are matched alike**, and the bodies run alike with the names that are bound. -/
theorem Evaluates.matchBody (heval : Evaluates l eval) {ρ scope : Naming} {p p' : Pattern}
    {v v' b b' : Expr} {parent parent' : EnvId} {e e' : EvalError}
    (henv : w.Opens scope env env') (hparent : w.Opens outer parent parent')
    (hp : Expr.BindingPatterns l ρ p p') (hv : Expr.Congruent l scope v v')
    (hb : Expr.Congruent l (ρ.under p.names p'.names outer) b b') (he : l.Errors e e') :
    Runs l w (World.Values l) (matchBody eval p v b env parent e)
      (matchBody eval p' v' b' env' parent' e') := by
  refine (runs_suspend henv hv).bind ?_
  rintro w₁ t _ hw₁ ⟨rfl, ht⟩
  refine (runs_bindingsOf heval.force hp ht).bind fun w₂ r r' hw₂ hr => ?_
  cases hr with
  | none => exact runs_throw he
  | some hbinds =>
    exact heval.inFrame ((hparent.mono hw₁).mono hw₂) hb (hbinds.covers hp.oneToOne outer)

/-- **A name stands for the same suspension on both sides.**  A name that is not bound stands for
itself, so that the error is the same. -/
theorem Evaluates.identifier (heval : Evaluates l eval) {s s' : Span} {x x' : String}
    (henv : w.Opens outer env env') (hs : l.spans s s') (hx : outer x x') :
    Runs l w (World.Values l) (Eval.step eval equal (.identifier s x) env)
      (Eval.step eval equal (.identifier s' x') env') := by
  rw [Eval.step, Eval.step]
  refine runs_get fun m m' hm => ?_
  rw [hm.left, hm.right, ← henv.same x x' hx]
  have hfound := henv.found x x' hx
  cases hlookup : w.left.lookup env x with
  | some t => exact heval.force (henv.live x x' hx t hlookup)
  | none =>
    have hsame : x = x' := by
      by_contra hne
      rw [hlookup] at hfound
      cases hfound hne
    exact runs_throw (.same (congrArg (EvalError.unboundVariable · _) hsame) hs)

/-- The test yields the same truth value on both sides, so that the same branch is taken. -/
theorem Evaluates.condition (heval : Evaluates l eval) {s s' : Span} {a a' b b' c c' : Expr}
    (henv : w.Opens outer env env') (ha : Expr.Congruent l outer a a')
    (hb : Expr.Congruent l outer b b') (hc : Expr.Congruent l outer c c') :
    Runs l w (World.Values l) (Eval.step eval equal (.condition s a b c) env)
      (Eval.step eval equal (.condition s' a' b' c') env') := by
  rw [Eval.step, Eval.step]
  refine (heval henv ha).bind fun w₁ v v' hw₁ hv => ?_
  have henv₁ := henv.mono hw₁
  cases hv with
  | boolean b =>
    cases b with
    | true => exact heval henv₁ hb
    | false => exact heval henv₁ hc
  | _ => exact runs_throw (.same rfl ha.span)

/-- Unlike the other operators, `==` takes values of all kinds. -/
theorem Evaluates.equality (heval : Evaluates l eval) {s s' : Span} {a a' b b' : Expr}
    (hequal : Compares l (equal s) (equal s')) (henv : w.Opens outer env env')
    (ha : Expr.Congruent l outer a a') (hb : Expr.Congruent l outer b b') :
    Runs l w (World.Values l) (Eval.step eval equal (.binary s .eq a b) env)
      (Eval.step eval equal (.binary s' .eq a' b') env') := by
  rw [Eval.step, Eval.step]
  refine (heval henv ha).bind fun w₁ v v' hw₁ hv => ?_
  refine (heval (henv.mono hw₁) hb).bind fun w₂ u u' hw₂ hu => ?_
  refine (hequal (hv.mono hw₂) hu).bind ?_
  rintro w₃ b _ _ rfl
  exact runs_pure (.boolean b)

theorem Evaluates.operation (heval : Evaluates l eval) {s s' : Span} {op : BinaryOp}
    (hop : op ≠ .eq) {a a' b b' : Expr} (henv : w.Opens outer env env') (hs : l.spans s s')
    (ha : Expr.Congruent l outer a a') (hb : Expr.Congruent l outer b b') :
    Runs l w (World.Values l) (Eval.step eval equal (.binary s op a b) env)
      (Eval.step eval equal (.binary s' op a' b') env') := by
  rw [Eval.step, Eval.step]
  · refine (heval henv ha).bind fun w₁ v v' hw₁ hv => ?_
    refine (runs_expectInteger ha.span hv).bind ?_
    rintro w₂ i _ hw₂ rfl
    refine (heval ((henv.mono hw₁).mono hw₂) hb).bind fun w₃ u u' hw₃ hu => ?_
    refine (runs_expectInteger hb.span hu).bind ?_
    rintro w₄ j _ hw₄ rfl
    exact runs_arithmetic hs op i j
  all_goals exact hop

/-- The argument belongs to the environments of the application, and the body to those of the
function. -/
theorem Evaluates.apply (heval : Evaluates l eval) {s s' : Span} {f f' a a' : Expr}
    (henv : w.Opens outer env env') (hs : l.spans s s') (hf : Expr.Congruent l outer f f')
    (ha : Expr.Congruent l outer a a') :
    Runs l w (World.Values l) (Eval.step eval equal (.apply s f a) env)
      (Eval.step eval equal (.apply s' f' a') env') := by
  rw [Eval.step, Eval.step]
  refine (heval henv hf).bind fun w₁ v v' hw₁ hv => ?_
  cases hv with
  | closure hclosure hp hb =>
    exact heval.matchBody (henv.mono hw₁) hclosure hp ha hb (.same rfl hs)
  | _ => exact runs_throw (.same rfl hf.span)

/-- New frames in which names that stand for each other are bound to a new cell. -/
theorem World.Opens.single {ρ : Naming} (henv : w.Opens outer env env') (hρ : ρ.OneToOne)
    {x x' : String} (hx : ρ x x') {m m' : Machine} (hm : w.Consistent l m m') :
    (w.bindCell m.cells.size env x env' x').Opens (ρ.under [x] [x'] outer) m.environments.size
      m'.environments.size :=
  (henv.bindCell (covers_single hρ hx (w.mem_live_enliven m.cells.size) outer)).fresh hm

/-- **A `let` of a plain name on both sides**: its value belongs to the new frame. -/
theorem runs_pushRecursive {ρ : Naming} (hρ : ρ.OneToOne) {x x' : String} (hx : ρ x x')
    {v v' : Expr} (henv : w.Opens outer env env')
    (hv : Expr.Congruent l (ρ.under [x] [x'] outer) v v') :
    Runs l w (World.Opens (ρ.under [x] [x'] outer)) (Eval.pushRecursive env x v)
      (Eval.pushRecursive env' x' v') := by
  intro m m' hm
  have hopens := henv.single hρ hx hm
  exact .ok (w.le_bindCell m.cells.size env x env' x') (hm.pushCell hopens hv) hopens

theorem Evaluates.bind (heval : Evaluates l eval) {ρ : Naming} {s s' : Span} {p p' : Pattern}
    {v v' b b' : Expr} (henv : w.Opens outer env env') (hs : l.spans s s')
    (hp : Expr.BindingPatterns l ρ p p')
    (hv : Expr.Congruent l (ρ.under p.ownNames p'.ownNames outer) v v')
    (hb : Expr.Congruent l (ρ.under p.names p'.names outer) b b') :
    Runs l w (World.Values l) (Eval.step eval equal (.bind s p v b) env)
      (Eval.step eval equal (.bind s' p' v' b') env') := by
  have hother (hname : p.name? = none) (hname' : p'.name? = none) :
      Runs l w (World.Values l) (Eval.step eval equal (.bind s p v b) env)
        (Eval.step eval equal (.bind s' p' v' b') env') := by
    -- such a pattern binds nothing in its value
    have hv' : Expr.Congruent l outer v v' := hv.mono fun x x' hx => by
      simpa [Naming.under, Pattern.ownNames, hname, hname'] using hx
    rw [step_definition _ _ hname, step_definition _ _ hname']
    exact heval.matchBody henv henv hp hv' hb (.same rfl hs)
  cases hp.congruent with
  | bind ht hx =>
    rw [Eval.step, Eval.step]
    exact (runs_pushRecursive hp.oneToOne hx henv hv).bind fun _ _ _ _ hinner => heval hinner hb
  | _ => exact hother rfl rfl

theorem Evaluates.cases (heval : Evaluates l eval) {s s' : Span} {e e' : Expr}
    {options options' : List (Pattern × Expr)} (henv : w.Opens outer env env')
    (hs : l.spans s s') (he : Expr.Congruent l outer e e')
    (hoptions : Expr.CongruentOptions l outer options options') :
    Runs l w (World.Values l) (Eval.step eval equal (.cases s e options) env)
      (Eval.step eval equal (.cases s' e' options') env') := by
  rw [Eval.step, Eval.step]
  refine (runs_suspend henv he).bind ?_
  rintro w₁ t _ hw₁ ⟨rfl, ht⟩
  refine (runs_firstMatch heval.force hoptions ht).bind fun w₂ r r' hw₂ hr => ?_
  cases hr with
  | none => exact runs_throw (.same rfl hs)
  | some hr =>
    obtain ⟨inner, hb, hcovers⟩ := hr
    exact heval.inFrame ((henv.mono hw₁).mono hw₂) hb hcovers

theorem runs_tuple {s s' : Span} {es es' : List Expr} (henv : w.Opens outer env env')
    (hes : Expr.CongruentAll l outer es es') :
    Runs l w (World.Values l) (Eval.step eval equal (.tuple s es) env)
      (Eval.step eval equal (.tuple s' es') env') := by
  rw [Eval.step, Eval.step]
  refine (runs_suspendAll henv hes).bind ?_
  rintro w₁ ts _ hw₁ ⟨rfl, hts⟩
  exact runs_pure (.tuple hts)

theorem runs_cons {s s' : Span} {a a' b b' : Expr} (henv : w.Opens outer env env')
    (ha : Expr.Congruent l outer a a') (hb : Expr.Congruent l outer b b') :
    Runs l w (World.Values l) (Eval.step eval equal (.cons s a b) env)
      (Eval.step eval equal (.cons s' a' b') env') := by
  rw [Eval.step, Eval.step]
  refine (runs_suspend henv ha).bind ?_
  rintro w₁ t _ hw₁ ⟨rfl, ht⟩
  refine (runs_suspend (henv.mono hw₁) hb).bind ?_
  rintro w₂ u _ hw₂ ⟨rfl, hu⟩
  exact runs_pure (.cons (hw₂.1 t ht) hu)

/-! ### Bindings of which the forms or the values differ -/

/-- **A `let` of a plain name on one side only.**  Its value belongs to the new frame, but has no
use for the name that is bound there. -/
theorem runs_pushRecursive_suspend {x : String} {v v' : Expr} (henv : w.Opens outer env env')
    (hv : Expr.Congruent l (fun y y' => y ≠ x ∧ outer y y') v v') :
    Runs l w (World.Opens (Naming.under Eq [x] [x] outer)) (Eval.pushRecursive env x v)
      (do
        let t ← Eval.suspend v' env'
        Eval.pushFrame env' [(x, t)]) := by
  intro m m' hm
  let w' := w.bindCell m.cells.size env x env' x
  have hle : w ≤ w' := w.le_bindCell m.cells.size env x env' x
  have hinner : w'.Opens (Naming.under Eq [x] [x] outer) m.environments.size
      m'.environments.size := henv.single Naming.oneToOne_eq rfl hm
  have houter : w'.Opens outer env env' := henv.mono hle
  -- behind the name that is bound there, the new frame is like its parent
  have hleft (y : String) (hy : y ≠ x) :
      w'.left.lookup m.environments.size y = w'.left.lookup env y := by
    have hlt : env < w.left.size := henv.left_lt
    rw [hm.left]
    show (w.left.push env _).2.lookup w.left.size y = (w.left.push env _).2.lookup env y
    rw [Environments.lookup_push_size hlt, Environments.lookup_push_of_lt hlt,
      Bindings.find?_single, if_neg hy]
  have hvalue : w'.Opens (fun y y' => y ≠ x ∧ outer y y') m.environments.size env' := by
    refine ⟨hinner.left_lt, houter.right_lt, fun y y' hy => ?_, fun y y' hy => ?_,
      fun y y' hy hne => ?_⟩
    · rw [hleft y hy.1]
      exact houter.same y y' hy.2
    · rw [hleft y hy.1]
      exact houter.live y y' hy.2
    · rw [hleft y hy.1]
      exact houter.found y y' hy.2 hne
  exact .ok hle (hm.pushCell hvalue hv) hinner

/-- The name of a `let` that is not used on either side. -/
theorem runs_pushRecursive_unused (henv : w.Opens outer env env') (x : String) (v v' : Expr) :
    Runs l w (World.Opens fun y y' => y ≠ x ∧ y' ≠ x ∧ outer y y')
      (Eval.pushRecursive env x v) (Eval.pushRecursive env' x v') := by
  intro m m' hm
  exact .ok (w.le_push env [(x, m.cells.size)] env' [(x, m.cells.size)])
    (hm.pushCell_unused v v' _ _) ((henv.push (covers_unused outer x _ _)).fresh hm)

/-- A plain name matches whatever it is bound to, which nobody will demand. -/
theorem Evaluates.matchBody_unused (heval : Evaluates l eval) {t t' : Span} {x : String}
    {b b' : Expr} (v v' : Expr) (failure failure' : EvalError) (henv : w.Opens outer env env')
    (hb : Expr.Congruent l (fun y y' => y ≠ x ∧ y' ≠ x ∧ outer y y') b b') :
    Runs l w (World.Values l) (Congruence.matchBody eval (.bind t x) v b env env failure)
      (Congruence.matchBody eval (.bind t' x) v' b' env' env' failure') := by
  refine (runs_suspend_unused v v' env env').bind ?_
  rintro w₁ u _ hw₁ rfl
  simp only [bindingsOf_bind, pure_bind]
  exact heval.inFrame (henv.mono hw₁) hb (covers_unused outer x u u)

variable {config : Config} {n : Nat}

/-- Evaluations that both reach the limit run alike where forms of bindings may differ. -/
theorem Limited.runs {x y : Eval Value} (hx : Limited config x) (hy : Limited config y)
    (hspans : ∀ s s', l.spans s s') (hexact : ¬l.Exact) :
    Runs l w (World.Values l) x y := by
  intro m m' _
  obtain ⟨span, m₁, hxm⟩ := hx m
  obtain ⟨span', m₁', hym⟩ := hy m'
  rw [hxm, hym]
  exact .error (.same rfl (hspans _ _)) fun h => absurd h hexact

/-- **Two forms of a binding whose pattern is matched.**  Only an application takes a level for its
function; if there is none, both reach the limit. -/
theorem runs_form (heval : Evaluates l (Eval.eval config n)) {form form' : BindingForm}
    {s s' r r' : Span} {p : Pattern} {v v' b b' : Expr} (hform : form.Matches p)
    (hform' : form'.Matches p) (hspans : ∀ t t', l.spans t t') (hnames : ∀ x, l.names x x)
    (hfailures : l.failures (form.failure s) (form'.failure s'))
    (henv : w.Opens outer env env') (hv : Expr.Congruent l outer v v')
    (hb : Expr.Congruent l (Naming.under Eq p.names p.names outer) b b') :
    Runs l w (World.Values l)
      (Eval.step (Eval.eval config n) (Eval.equal config n) (form.expr s r p v b) env)
      (Eval.step (Eval.eval config n) (Eval.equal config n) (form'.expr s' r' p v' b') env') := by
  cases n with
  | zero => exact (limited_form _).runs (limited_form _) hspans fun h => h _ _ hfailures
  | succ n =>
    rw [step_form hform, step_form hform']
    exact heval.matchBody henv henv (.refl (fun s => hspans s s) hnames _) hv hb
      (.failure hfailures)

/-- **A `let` of a plain name that its value does not need, and another form of the binding.** -/
theorem runs_plain (heval : Evaluates l (Eval.eval config n)) {form' : BindingForm}
    {s s' r' t : Span} {x : String} {v v' b b' : Expr} (hform' : form'.Matches (.bind t x))
    (hspans : ∀ t t', l.spans t t')
    (hfailures : l.failures (BindingForm.definition.failure s) (form'.failure s'))
    (henv : w.Opens outer env env')
    (hv : Expr.Congruent l (fun y y' => y ≠ x ∧ outer y y') v v')
    (hb : Expr.Congruent l (Naming.under Eq [x] [x] outer) b b') :
    Runs l w (World.Values l)
      (Eval.step (Eval.eval config n) (Eval.equal config n) (.bind s (.bind t x) v b) env)
      (Eval.step (Eval.eval config n) (Eval.equal config n)
        (form'.expr s' r' (.bind t x) v' b') env') := by
  cases n with
  | zero =>
    -- with no level left both forms fail at the limit, at spans that may differ
    exact (limited_form (r := s) .definition).runs (limited_form _) hspans
      fun h => h _ _ hfailures
  | succ n =>
    rw [step_form hform', Eval.step, matchBody]
    -- the value does not see the name, so that it may be suspended inside or outside of the frame
    simp only [bindingsOf_bind, pure_bind]
    have hbody := (runs_pushRecursive_suspend henv hv).bind fun _ _ _ _ hinner => heval hinner hb
    rw [bind_assoc] at hbody
    exact hbody

/-- **A binding of a name that the body does not use**, in the same form on both sides. -/
theorem runs_unused (heval : Evaluates l (Eval.eval config n)) (form : BindingForm)
    {s s' r r' t t' : Span} {x : String} {b b' : Expr} (v v' : Expr) (hr : l.spans r r')
    (henv : w.Opens outer env env')
    (hb : Expr.Congruent l (fun y y' => y ≠ x ∧ y' ≠ x ∧ outer y y') b b') :
    Runs l w (World.Values l)
      (Eval.step (Eval.eval config n) (Eval.equal config n)
        (form.expr s r (.bind t x) v b) env)
      (Eval.step (Eval.eval config n) (Eval.equal config n)
        (form.expr s' r' (.bind t' x) v' b') env') := by
  cases form with
  | definition =>
    rw [BindingForm.expr, BindingForm.expr, Eval.step, Eval.step]
    exact (runs_pushRecursive_unused henv x v v').bind fun _ _ _ _ hinner => heval hinner hb
  | selection =>
    rw [BindingForm.expr, BindingForm.expr, step_selection, step_selection]
    exact heval.matchBody_unused v v' _ _ henv hb
  | application =>
    cases n with
    | zero =>
      -- there is no level for the function, before anything has been suspended
      rw [BindingForm.expr, BindingForm.expr, Eval.step, Eval.step, Eval.eval_zero, Eval.eval_zero]
      exact runs_throw (R := World.Values l) (.same rfl hr)
    | succ n =>
      have hform (q : Pattern) : BindingForm.application.Matches q := by
        intro hdefinition
        cases hdefinition
      rw [step_form (hform _), step_form (hform _)]
      exact heval.matchBody_unused v v' _ _ henv hb

/-! ### A step -/

/-- **One step of the evaluation runs alike** on congruent expressions. -/
theorem runs_step (heval : Evaluates l (Eval.eval config n))
    (hequal : ∀ ⦃s s' : Span⦄, l.spans s s' →
      Compares l (Eval.equal config n s) (Eval.equal config n s'))
    {e e' : Expr} (henv : w.Opens outer env env') (he : Expr.Congruent l outer e e') :
    Runs l w (World.Values l) (Eval.step (Eval.eval config n) (Eval.equal config n) e env)
      (Eval.step (Eval.eval config n) (Eval.equal config n) e' env') := by
  cases he with
  | boolean value hs => exact runs_pure (.boolean value)
  | integer value hs => exact runs_pure (.integer value)
  | identifier hs hx => exact heval.identifier henv hs hx
  | condition hs ha hb hc => exact heval.condition henv ha hb hc
  | binary op hs ha hb =>
    by_cases hop : op = .eq
    · subst hop
      exact heval.equality (hequal hs) henv ha hb
    · exact heval.operation hop henv hs ha hb
  | lambda hs hp hb => exact runs_pure (.closure henv hp hb)
  | apply hs hf ha => exact heval.apply henv hs hf ha
  | bind hs hp hv hb => exact heval.bind henv hs hp hv hb
  | cases hs he hoptions => exact heval.cases henv hs he hoptions
  | tuple hs hes => exact runs_tuple henv hes
  | cons hs ha hb => exact runs_cons henv ha hb
  | nil hs => exact runs_pure .nil
  | form hform hform' hspans hnames hfailures hv hb =>
    exact runs_form heval hform hform' hspans hnames hfailures henv hv hb
  | plain hform' hspans hfailures hv hb =>
    exact runs_plain heval hform' hspans hfailures henv hv hb
  | unused form v v' hs hr hb => exact runs_unused heval form v v' hr henv hb

end Step

/-! ### Comparison -/

section Compare

variable {force : ThunkId → Eval Value}

theorem runs_compareElement {nested nested' : Value → Value → Eval Bool} (hforce : Forces l force)
    (hnested : Compares l nested nested') ⦃w : World⦄ ⦃t u : ThunkId⦄ (ht : t ∈ w.live)
    (hu : u ∈ w.live) :
    Runs l w (fun _ => Eq) (do nested (← force t) (← force u))
      (do nested' (← force t) (← force u)) := by
  refine (hforce ht).bind fun w₁ v v' hw₁ hv => ?_
  refine (hforce (hw₁.1 u hu)).bind fun w₂ x x' hw₂ hx => ?_
  exact hnested (hv.mono hw₂) hx

theorem runs_compareAll {element element' : ThunkId → ThunkId → Eval Bool}
    (helement : ∀ ⦃w : World⦄ ⦃t u : ThunkId⦄, t ∈ w.live → u ∈ w.live →
      Runs l w (fun _ => Eq) (element t u) (element' t u)) {ts us : List ThunkId}
    (hts : ∀ t ∈ ts, t ∈ w.live) (hus : ∀ u ∈ us, u ∈ w.live) :
    Runs l w (fun _ => Eq) (Eval.compareAll element ts us) (Eval.compareAll element' ts us) := by
  induction ts generalizing w us with
  | nil => exact runs_pure rfl
  | cons t ts ih =>
    cases us with
    | nil => exact runs_pure rfl
    | cons u us =>
      obtain ⟨ht, hts⟩ := List.forall_mem_cons.1 hts
      obtain ⟨hu, hus⟩ := List.forall_mem_cons.1 hus
      refine (helement ht hu).bind ?_
      rintro w₁ b _ hw₁ rfl
      cases b with
      | true => exact ih (fun x hx => hw₁.1 x (hts x hx)) fun x hx => hw₁.1 x (hus x hx)
      | false => exact runs_pure rfl

/-- **Comparisons run alike** if demands and the comparisons of elements do. -/
theorem compares_compareWith (config : Config) {s s' : Span} (hs : l.spans s s')
    {nested nested' : Value → Value → Eval Bool} (hforce : Forces l force)
    (hnested : Compares l nested nested') (room : Nat) :
    Compares l (Eval.compareWith config force nested s room)
      (Eval.compareWith config force nested' s' room) := by
  induction room with
  | zero =>
    intro w v v' u u' _ _
    exact runs_throw (.same rfl hs)
  | succ room ih =>
    intro w v v' u u' hv hu
    cases hv with
    | closure henv hp hb => cases hu <;> exact runs_throw (.same rfl hs)
    | integer a =>
      cases hu with
      | integer b => exact runs_pure rfl
      | _ => exact runs_throw (.same rfl hs)
    | boolean a =>
      cases hu with
      | boolean b => exact runs_pure rfl
      | _ => exact runs_throw (.same rfl hs)
    | nil =>
      cases hu with
      | nil => exact runs_pure rfl
      | cons _ _ => exact runs_pure rfl
      | _ => exact runs_throw (.same rfl hs)
    | tuple hts =>
      cases hu with
      | tuple hus =>
        rw [Eval.compareWith, Eval.compareWith]
        split
        · exact runs_compareAll (runs_compareElement hforce hnested) hts hus
        · exact runs_pure rfl
      | _ => exact runs_throw (.same rfl hs)
    | cons hh ht =>
      cases hu with
      | nil => exact runs_pure rfl
      | cons hh' ht' =>
        -- the heads take a level, and the tails a place along the lists
        rw [Eval.compareWith, Eval.compareWith]
        refine (runs_compareElement hforce hnested hh hh').bind ?_
        rintro w₁ b _ hw₁ rfl
        cases b with
        | true => exact runs_compareElement hforce ih (hw₁.1 _ ht) (hw₁.1 _ ht')
        | false => exact runs_pure rfl
      | _ => exact runs_throw (.same rfl hs)

/-! ### The evaluator -/

/-- **The evaluator runs alike on congruent expressions**, and so do its comparisons. -/
theorem evaluates_eval (config : Config) (n : Nat) :
    Evaluates l (Eval.eval config n) ∧ ∀ ⦃s s' : Span⦄, l.spans s s' →
      Compares l (Eval.equal config n s) (Eval.equal config n s') := by
  induction n with
  | zero =>
    have heval : Evaluates l (Eval.eval config 0) := by
      intro w outer env env' e e' _ he
      rw [Eval.eval_zero, Eval.eval_zero]
      exact runs_throw (.same rfl he.span)
    refine ⟨heval, fun s s' hs => ?_⟩
    have hnested : Compares l (fun _ _ => Eval.limitReached config s)
        (fun _ _ => Eval.limitReached config s') :=
      fun _ _ _ _ _ _ _ => runs_throw (.same rfl hs)
    rw [Eval.equal_zero, Eval.equal_zero]
    exact compares_compareWith config hs heval.force hnested _
  | succ n ih =>
    obtain ⟨heval, hequal⟩ := ih
    have heval' : Evaluates l (Eval.eval config (n + 1)) := by
      intro w outer env env' e e' henv he
      rw [Eval.eval_succ]
      exact runs_step heval hequal henv he
    refine ⟨heval', fun s s' hs => ?_⟩
    rw [Eval.equal_succ, Eval.equal_succ]
    exact compares_compareWith config hs heval'.force (hequal hs) _

end Compare

end CallByNeed.Congruence

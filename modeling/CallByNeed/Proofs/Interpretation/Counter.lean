import CallByNeed.Proofs.Interpretation.Scheme

/-!
# The interpreter with a counter

The evaluator hands the levels that are left from call to call.  An interpreter can also keep the
nesting in its state: `nested` compares the counter with the limit, raises it, and lowers it again
however the computation inside ends.  This module reads the evaluator in that way (`evaluate`,
`demand`, `bindMatch`, `render`) and keeps a trail of all values that the counter takes.

The two agree (`Tracks`).  Where the counter and the levels left add up to the limit, a counted
computation has the result of the evaluation, leaves its machine, puts the counter back and has kept
it within the limit.
-/

namespace CallByNeed

/-- The state of an interpreter that counts its nesting. -/
structure Interpreter where
  machine : Machine
  /-- The nested computations under way. -/
  depth : Nat
  /-- The values that the counter has taken, the latest first, each with the machine at that
  moment. -/
  trail : List (Nat × Machine)

/-- Computations that count their nesting. -/
abbrev Counted (α : Type) :=
  EStateM EvalError Interpreter α

namespace Interpreter

variable {α β : Type}

/-- Sets the counter. -/
def moveTo (s : Interpreter) (depth : Nat) : Interpreter :=
  { s with depth, trail := (depth, s.machine) :: s.trail }

/-- Replaces the machine. -/
def onMachine (s : Interpreter) (f : Machine → Machine) : Interpreter :=
  { s with machine := f s.machine }

/-- An evaluation that nests nothing. -/
def lift (x : Eval α) : Counted α := fun s =>
  match x s.machine with
  | .ok a machine => .ok a { s with machine }
  | .error e machine => .error e { s with machine }

instance : MonadLift Eval Counted :=
  ⟨lift⟩

/-- Runs a computation one level deeper, unless the limit is reached. -/
def nested (config : Config) (span : Span) (x : Counted α) : Counted α := fun s =>
  if config.maxDepth ≤ s.depth then .error (.recursionLimit config.maxDepth span) s
  else
    match x (s.moveTo (s.depth + 1)) with
    | .ok a s => .ok a (s.moveTo (s.depth - 1))
    | .error e s => .error e (s.moveTo (s.depth - 1))

/-- The value of a suspension, found with `eval` at the first demand. -/
def force (eval : Expr → EnvId → Counted Value) (t : ThunkId) : Counted Value := fun s =>
  match s.machine.cell t with
  | .evaluated v => .ok v (s.onMachine fun m => { m with hits := m.hits + 1 })
  | .forcing e _ => .error (.infiniteLoop e.span) s
  | .pending e env =>
    match eval e env (s.onMachine (·.setCell t (.forcing e env))) with
    | .ok v s => .ok v (s.onMachine (·.settle t v))
    | .error err s => .error err (s.onMachine (·.setCell t (.pending e env)))

/-! ### Nested computations

The number is one more than the levels that a call can still nest.  It stands for the recursion of
the interpreter and is never used up, since the counter stops a call before. -/

/-- The comparison that `==` at `span` makes. -/
def equal (config : Config) (force : ThunkId → Counted Value) :
    Nat → Span → Value → Value → Counted Bool
  | 0, _, _, _ => Scheme.fail (.stackUnavailable config.evalStackSize)
  | fuel + 1, span, x, y =>
    Scheme.compareWith config force
      (fun v w => nested config span (equal config force fuel span v w)) span
      (config.spineLimit + 1) x y

/-- The value of an expression in an environment. -/
def eval (config : Config) : Nat → Expr → EnvId → Counted Value
  | 0, _, _ => Scheme.fail (.stackUnavailable config.evalStackSize)
  | fuel + 1, e, env =>
    nested config e.span
      (Scheme.step (force (eval config fuel)) (eval config fuel)
        (equal config (force (eval config fuel)) fuel) e env)

/-- The text of a value. -/
def renderAt (config : Config) (force : ThunkId → Counted Value) : Nat → Value → Counted String
  | 0, _ => Scheme.fail (.stackUnavailable config.evalStackSize)
  | fuel + 1, v =>
    Scheme.renderWith config force
      (fun v => nested config .unknown (renderAt config force fuel v)) v

/-! ### Calls -/

/-- The value of an expression in the root. -/
def evaluate (config : Config) (e : Expr) : Counted Value :=
  eval config (config.maxDepth + 1) e Environments.root

/-- The value of a suspension. -/
def demand (config : Config) (t : ThunkId) : Counted Value :=
  force (eval config (config.maxDepth + 1)) t

/-- Matches a suspension against a pattern when some names are bound already. -/
def bindMatch (config : Config) (p : Pattern) (t : ThunkId) (bindings : Bindings ThunkId) :
    Counted (Option (Bindings ThunkId)) :=
  Scheme.matchOne (demand config) p t bindings

/-- The text of a value. -/
def render (config : Config) (v : Value) : Counted String :=
  renderAt config (demand config) (config.maxDepth + 1) v

/-! ### Agreement with the evaluator -/

/-- The result of an evaluation from the machine of an interpreter, as one of the interpreter: the
counter is back and the trail has grown. -/
def resume (s : Interpreter) (trail : List (Nat × Machine)) :
    EStateM.Result EvalError Machine α → EStateM.Result EvalError Interpreter α
  | .ok a machine => .ok a { s with machine, trail := trail ++ s.trail }
  | .error e machine => .error e { s with machine, trail := trail ++ s.trail }

/-- The counted computation does what the evaluation does when `n` levels are left, and its counter
stays within the limit. -/
def Tracks (config : Config) (n : Nat) (x : Counted α) (y : Eval α) : Prop :=
  ∀ s, s.depth + n = config.maxDepth →
    ∃ trail, (∀ point ∈ trail, point.1 ≤ config.maxDepth) ∧ x s = s.resume trail (y s.machine)

section Rules

variable {config : Config} {n : Nat}

/-- An evaluation that nests nothing leaves no trail. -/
theorem tracks_lift (x : Eval α) : Tracks config n (lift x) x := by
  intro s _
  refine ⟨[], by simp, ?_⟩
  unfold lift
  rcases x s.machine with ⟨a, m⟩ | ⟨e, m⟩ <;> rfl

theorem tracks_pure (a : α) : Tracks config n (pure a) (pure a) :=
  tracks_lift (pure a)

/-- **Trails of a sequence follow each other.** -/
theorem Tracks.bind {x : Counted α} {y : Eval α} {f : α → Counted β} {g : α → Eval β}
    (hx : Tracks config n x y) (hf : ∀ a, Tracks config n (f a) (g a)) :
    Tracks config n (x >>= f) (y >>= g) := by
  intro s hs
  obtain ⟨trail, htrail, heq⟩ := hx s hs
  change ∃ trail, _ ∧ EStateM.bind x f s = s.resume trail (EStateM.bind y g s.machine)
  unfold EStateM.bind
  rw [heq]
  -- the second evaluation goes on with the trail of the first, unless that has failed
  rcases y s.machine with ⟨a, m⟩ | ⟨e, m⟩
  · obtain ⟨trail', htrail', heq'⟩ := hf a { s with machine := m, trail := trail ++ s.trail } hs
    refine ⟨trail' ++ trail, ?_, ?_⟩
    · intro point hpoint
      rcases List.mem_append.mp hpoint with hpoint | hpoint
      · exact htrail' point hpoint
      · exact htrail point hpoint
    · simp only [resume] at heq' ⊢
      rw [heq']
      rcases g a m with ⟨b, m'⟩ | ⟨e, m'⟩ <;> simp only [List.append_assoc]
  · exact ⟨trail, htrail, rfl⟩

/-- Counting is a correspondence, whatever number of levels is left. -/
def tracking (config : Config) (n : Nat) : Correspondence Counted where
  Related := Tracks config n
  pure := tracks_pure
  bind := Tracks.bind
  basic _ := tracks_lift _

/-- **A demand leaves the trail of the evaluation it makes.** -/
theorem Tracks.force {eval : Expr → EnvId → Counted Value} {eval' : Expr → EnvId → Eval Value}
    (h : ∀ e env, Tracks config n (eval e env) (eval' e env)) (t : ThunkId) :
    Tracks config n (force eval t) (Eval.force eval' t) := by
  intro s hs
  unfold Interpreter.force
  -- only a pending cell makes an evaluation, and that leaves the whole trail
  cases hcell : s.machine.cell t with
  | evaluated v =>
    rw [ByName.force_of_evaluated hcell]
    exact ⟨[], by simp, rfl⟩
  | forcing e env =>
    rw [ByName.force_of_forcing hcell]
    exact ⟨[], by simp, rfl⟩
  | pending e env =>
    rw [ByName.force_of_pending hcell]
    obtain ⟨trail, htrail, heq⟩ := h e env (s.onMachine (·.setCell t (.forcing e env))) hs
    refine ⟨trail, htrail, ?_⟩
    simp only
    rw [heq]
    simp only [onMachine]
    rcases eval' e env (s.machine.setCell t (.forcing e env)) with ⟨v, m⟩ | ⟨err, m⟩ <;> rfl

/-- **No level left**: the counter stands at the limit. -/
theorem tracks_nested_zero (span : Span) (x : Counted α) :
    Tracks config 0 (nested config span x) (Eval.limitReached config span) := by
  intro s hs
  have hlimit : config.maxDepth ≤ s.depth := by omega
  refine ⟨[], by simp, ?_⟩
  rw [nested, if_pos hlimit]
  rfl

/-- **One level deeper**: the counter is raised for the computation and lowered behind it. -/
theorem Tracks.nested_succ {x : Counted α} {y : Eval α} (h : Tracks config n x y) (span : Span) :
    Tracks config (n + 1) (nested config span x) y := by
  intro s hs
  have hlimit : ¬ config.maxDepth ≤ s.depth := by omega
  have hinside : s.depth + 1 ≤ config.maxDepth := by omega
  obtain ⟨trail, htrail, heq⟩ := h (s.moveTo (s.depth + 1)) (by simp only [moveTo]; omega)
  rw [nested, if_neg hlimit, heq]
  -- the machine at the end is known only with the result
  have hpoints (m : Machine) :
      ∀ point ∈ (s.depth, m) :: trail ++ [(s.depth + 1, s.machine)],
        point.1 ≤ config.maxDepth := by
    intro point hpoint
    simp only [List.cons_append, List.mem_cons, List.mem_append, List.not_mem_nil, or_false]
      at hpoint
    rcases hpoint with rfl | hpoint | rfl
    · exact Nat.le_of_succ_le hinside
    · exact htrail point hpoint
    · exact hinside
  simp only [moveTo]
  rcases y s.machine with ⟨a, m⟩ | ⟨e, m⟩
  · refine ⟨_, hpoints m, ?_⟩
    simp [resume]
  · refine ⟨_, hpoints m, ?_⟩
    simp [resume]

end Rules

section Calls

variable (config : Config)

theorem tracks_equal {force : ThunkId → Counted Value} (n : Nat)
    (hforce : ∀ k ≤ n, ∀ t, Tracks config k (force t) (Eval.force (Eval.eval config k) t)) :
    ∀ fuel, n < fuel → ∀ span x y,
      Tracks config n (equal config force fuel span x y) (Eval.equal config n span x y) := by
  induction n with
  | zero =>
    intro fuel hfuel span x y
    obtain ⟨fuel, rfl⟩ := Nat.exists_eq_add_one_of_ne_zero (Nat.ne_of_gt hfuel)
    rw [Eval.equal_zero]
    exact (tracking config 0).compareWith config (hforce 0 (Nat.le_refl 0))
      (fun v w => tracks_nested_zero span _) span _ x y
  | succ n ih =>
    intro fuel hfuel span x y
    obtain ⟨fuel, rfl⟩ := Nat.exists_eq_add_one_of_ne_zero (Nat.ne_of_gt (Nat.zero_lt_of_lt hfuel))
    -- an element is compared one level below, and its own value demanded at this level
    have hnested := ih (fun k hk => hforce k (Nat.le_succ_of_le hk)) fuel
      (Nat.lt_of_succ_lt_succ hfuel) span
    rw [Eval.equal_succ]
    exact (tracking config (n + 1)).compareWith config (hforce (n + 1) (Nat.le_refl _))
      (fun v w => (hnested v w).nested_succ span) span _ x y

/-- **The counted evaluator agrees with the evaluator.** -/
theorem tracks_eval (n : Nat) : ∀ fuel, n < fuel → ∀ e env,
    Tracks config n (eval config fuel e env) (Eval.eval config n e env) := by
  induction n using Nat.strongRecOn with
  | _ n ih =>
    intro fuel hfuel e env
    obtain ⟨fuel, rfl⟩ := Nat.exists_eq_add_one_of_ne_zero (Nat.ne_of_gt (Nat.zero_lt_of_lt hfuel))
    rw [eval]
    cases n with
    | zero =>
      rw [Eval.eval_zero]
      exact tracks_nested_zero e.span _
    | succ n =>
      -- comparisons go deeper with the evaluator that is at hand here
      have heval : ∀ k ≤ n, ∀ e env,
          Tracks config k (eval config fuel e env) (Eval.eval config k e env) :=
        fun k hk => ih k (Nat.lt_succ_of_le hk) fuel (by omega)
      have hequal := tracks_equal config n (fun k hk => Tracks.force (heval k hk)) fuel
        (Nat.lt_of_succ_lt_succ hfuel)
      rw [Eval.eval_succ]
      refine Tracks.nested_succ ?_ e.span
      exact (tracking config n).step (Tracks.force (heval n (Nat.le_refl n)))
        (heval n (Nat.le_refl n)) hequal e env

theorem tracks_demand {n : Nat} (hn : n ≤ config.maxDepth) (t : ThunkId) :
    Tracks config n (demand config t) (Eval.force (Eval.eval config n) t) :=
  Tracks.force (tracks_eval config n _ (Nat.lt_succ_of_le hn)) t

theorem tracks_renderAt (n : Nat) (hn : n ≤ config.maxDepth) : ∀ fuel, n < fuel → ∀ v,
    Tracks config n (renderAt config (demand config) fuel v) (Eval.renderAt config n v) := by
  induction n with
  | zero =>
    intro fuel hfuel v
    obtain ⟨fuel, rfl⟩ := Nat.exists_eq_add_one_of_ne_zero (Nat.ne_of_gt hfuel)
    exact (tracking config 0).renderWith config (tracks_demand config hn)
      (fun v => tracks_nested_zero .unknown _) v
  | succ n ih =>
    intro fuel hfuel v
    obtain ⟨fuel, rfl⟩ := Nat.exists_eq_add_one_of_ne_zero (Nat.ne_of_gt (Nat.zero_lt_of_lt hfuel))
    have hnested := ih (Nat.le_of_succ_le hn) fuel (Nat.lt_of_succ_lt_succ hfuel)
    exact (tracking config (n + 1)).renderWith config (tracks_demand config hn)
      (fun v => (hnested v).nested_succ .unknown) v

end Calls

end Interpreter

end CallByNeed

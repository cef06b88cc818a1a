import CallByNeed.Proofs.Congruence.Programs
import CallByNeed.Proofs.Interpretation.Scheme

/-!
# The interpreter without bounds on its loops

The evaluator is a total function.  It hands the levels that are left from call to call, and where a
list is too long to be compared or printed it gives up (`EvalError.spineLimit`).  An interpreter
need not do so: the one of this module counts its nesting in its state, compares the counter with
the limit, and calls itself and repeats its loops as long as it takes, each time in one more turn
(`Unbounded.turn`).  So it is a partial function, and it ends where some number of turns nested in
each other is enough (`Unbounded.run`).

Where the evaluator does not give up, the interpreter ends, with the same result, on the same
machine and with its counter back (`Completes`).  With `n` levels left the induction is on `n`; the
walk along a list that is to be printed ends since the elements passed are counted up to the limit,
and that along two lists that are compared since the evaluator has counted their cells.
-/

namespace CallByNeed

/-- The state of an interpreter: its machine, and how many nested computations are under way. -/
structure Running where
  machine : Machine
  depth : Nat

/-- Computations that may never end. -/
abbrev Unbounded (α : Type) :=
  ExceptT EvalError (StateT Running Option) α

namespace Unbounded

variable {α β : Type}

/-- Replaces the machine. -/
def onMachine (s : Running) (f : Machine → Machine) : Running :=
  { s with machine := f s.machine }

/-- The result of an evaluation, as one of an interpreter whose counter is back. -/
def resume (s : Running) : EStateM.Result EvalError Machine α → Except EvalError α × Running
  | .ok a machine => (.ok a, { s with machine })
  | .error e machine => (.error e, { s with machine })

/-- An evaluation that nests nothing. -/
def lift (x : Eval α) : Unbounded α := fun s =>
  some (resume s (x s.machine))

instance : MonadLift Eval Unbounded :=
  ⟨lift⟩

/-- Runs a computation one level deeper, unless the limit is reached. -/
def nested (config : Config) (span : Span) (x : Unbounded α) : Unbounded α := fun s =>
  if config.maxDepth ≤ s.depth then some (.error (.recursionLimit config.maxDepth span), s)
  else
    (x { s with depth := s.depth + 1 }).map fun (r, s) => (r, { s with depth := s.depth - 1 })

/-- What becomes of a suspension behind its evaluation. -/
def conclude (t : ThunkId) (e : Expr) (env : EnvId) :
    Except EvalError Value × Running → Except EvalError Value × Running
  | (.ok v, s) => (.ok v, onMachine s (·.settle t v))
  | (.error err, s) => (.error err, onMachine s (·.setCell t (.pending e env)))

/-- The value of a suspension, found with `eval` at the first demand. -/
def force (eval : Expr → EnvId → Unbounded Value) (t : ThunkId) : Unbounded Value := fun s =>
  match s.machine.cell t with
  | .evaluated v => some (.ok v, onMachine s fun m => { m with hits := m.hits + 1 })
  | .forcing e _ => some (.error (.infiniteLoop e.span), s)
  | .pending e env =>
    (eval e env (onMachine s (·.setCell t (.forcing e env)))).map (conclude t e env)

/-- One turn of a comparison: `next` goes on along two lists. -/
def compareTurn (force : ThunkId → Unbounded Value) (nested next : Value → Value → Unbounded Bool)
    (span : Span) (x y : Value) : Unbounded Bool := do
  let element (s t : ThunkId) : Unbounded Bool := do
    let v ← force s
    let w ← force t
    nested v w
  match x, y with
  | .closure .., _ | _, .closure .. =>
    Scheme.fail (.typeMismatch "comparable value" "function" span)
  | .integer a, .integer b => return a == b
  | .boolean a, .boolean b => return a == b
  | .nil, .nil => return true
  | .nil, .cons .. | .cons .., .nil => return false
  | .tuple xs, .tuple ys =>
    if xs.length = ys.length then Scheme.compareAll element xs ys else return false
  | .cons h t, .cons h' t' =>
    if ← element h h' then
      let v ← force t
      let w ← force t'
      next v w
    else return false
  | x, y => Scheme.fail (.typeMismatch x.typeName y.typeName span)

/-- What a list looks like whose first cells have been walked along: the elements `items`, the value
behind them, and whether there are more. -/
def renderList (nested : Value → Unbounded String) (element : ThunkId → Unbounded String)
    (items : List ThunkId) (rest : Value) : Unbounded String := do
  match rest with
  | .nil => return "[" ++ (← Scheme.commaSeparated element items) ++ "]"
  | .cons .. => return "[" ++ (← Scheme.commaSeparated element items) ++ ", ...]"
  | rest =>
    let shown ← Scheme.colonTerminated element items
    liftM Eval.countHit
    return shown ++ (← nested rest)

/-- One turn of the walk along a list that is to be printed.  The elements `items` have been passed
and `rest` is behind them; `next` goes on, unless there are as many elements as are printed. -/
def walkTurn (config : Config) (force : ThunkId → Unbounded Value)
    (next : List ThunkId → Value → Unbounded (List ThunkId × Value)) (items : List ThunkId)
    (rest : Value) : Unbounded (List ThunkId × Value) := do
  match rest with
  | .cons head tail =>
    if items.length = config.renderLimit then return (items, rest)
    else next (items ++ [head]) (← force tail)
  | rest => return (items, rest)

/-- One turn of printing: `walk` goes along a list, and `nested` prints an element. -/
def renderTurn (config : Config) (force : ThunkId → Unbounded Value)
    (walk : List ThunkId → Value → Unbounded (List ThunkId × Value))
    (nested : Value → Unbounded String) (v : Value) : Unbounded String := do
  let element (t : ThunkId) : Unbounded String := do nested (← force t)
  match v with
  | .integer n => return toString n
  | .boolean b => return toString b
  | .closure .. => return "<function>"
  | .nil => return "[]"
  | .tuple ts => Scheme.renderTuple config.renderLimit element ts
  | .cons head tail =>
    let (items, rest) ← walk [head] (← force tail)
    renderList nested element items rest

/-! ### Sequences -/

section Bind

variable {x : Unbounded α} {f : α → Unbounded β} {s s' : Running}

theorem bind_of_ok {a : α} (h : x s = some (.ok a, s')) : (x >>= f) s = f a s' := by
  show (x s).bind _ = _
  rw [h]
  rfl

theorem bind_of_error {e : EvalError} (h : x s = some (.error e, s')) :
    (x >>= f) s = some (.error e, s') := by
  show (x s).bind _ = _
  rw [h]
  rfl

end Bind

/-! ### The interpreter -/

/-- What an interpreter calls itself for. -/
inductive Task where
  /-- The value of an expression in an environment. -/
  | eval (e : Expr) (env : EnvId)
  /-- Whether two values are equal, for the `==` at `span`. -/
  | equal (span : Span) (x y : Value)
  /-- The elements of a list that are to be printed, and the value behind them. -/
  | walk (items : List ThunkId) (rest : Value)
  /-- The text of a value. -/
  | render (v : Value)

/-- What comes out of a task. -/
def Task.Answer : Task → Type
  | eval .. => Value
  | equal .. => Bool
  | walk .. => List ThunkId × Value
  | render _ => String

/-- One turn on a task, when `run` does all other tasks. -/
def turn (config : Config) (run : (task : Task) → Unbounded task.Answer) :
    (task : Task) → Unbounded task.Answer
  | .eval e env =>
    nested config e.span
      (Scheme.step (force fun e env => run (.eval e env)) (fun e env => run (.eval e env))
        (fun span x y => run (.equal span x y)) e env)
  | .equal span x y =>
    compareTurn (force fun e env => run (.eval e env))
      (fun v w => nested config span (run (.equal span v w)))
      (fun v w => run (.equal span v w)) span x y
  | .walk items rest =>
    walkTurn config (force fun e env => run (.eval e env))
      (fun items rest => run (.walk items rest)) items rest
  | .render v =>
    renderTurn config (force fun e env => run (.eval e env))
      (fun items rest => run (.walk items rest))
      (fun v => nested config .unknown (run (.render v))) v

/-- The interpreter, with at most `fuel` turns nested in each other: there is no result if it would
take more.  A task ends if it has a result for some `fuel`, and for every larger one the same. -/
def run (config : Config) : Nat → (task : Task) → Unbounded task.Answer
  | 0, _ => fun _ => none
  | fuel + 1, task => turn config (run config fuel) task

/-- The value of a suspension. -/
def demand (config : Config) (fuel : Nat) : ThunkId → Unbounded Value :=
  force fun e env => run config fuel (.eval e env)

theorem run_walk (config : Config) (fuel : Nat) (items : List ThunkId) (rest : Value) :
    run config (fuel + 1) (.walk items rest) =
      walkTurn config (demand config fuel) (fun items rest => run config fuel (.walk items rest))
        items rest :=
  rfl

/-! ### Agreement with the evaluator -/

/-- The evaluation gives up because a list is too long. -/
def GivesUp (y : Eval α) (m : Machine) : Prop :=
  ∃ limit span m', y m = .error (.spineLimit limit span) m'

/-- With `n` levels left, the evaluation gives up or the computation ends, and does what the
evaluation does. -/
def Completes (config : Config) (n : Nat) (x : Unbounded α) (y : Eval α) : Prop :=
  ∀ s, s.depth + n = config.maxDepth → GivesUp y s.machine ∨ x s = some (resume s (y s.machine))

section Rules

variable {config : Config} {n : Nat}

theorem completes_lift (x : Eval α) : Completes config n (lift x) x :=
  fun _ _ => .inr rfl

theorem completes_pure (a : α) : Completes config n (pure a) (pure a) :=
  completes_lift (pure a)

/-- **A sequence ends if its parts do.** -/
theorem Completes.bind {x : Unbounded α} {y : Eval α} {f : α → Unbounded β} {g : α → Eval β}
    (hx : Completes config n x y) (hf : ∀ a, Completes config n (f a) (g a)) :
    Completes config n (x >>= f) (y >>= g) := by
  intro s hs
  show (∃ limit span m', EStateM.bind y g s.machine = .error (.spineLimit limit span) m') ∨
    (x >>= f) s = some (resume s (EStateM.bind y g s.machine))
  unfold EStateM.bind
  rcases hx s hs with ⟨limit, span, m, hy⟩ | hend
  · rw [hy]
    exact .inl ⟨limit, span, m, rfl⟩
  · rcases hy : y s.machine with ⟨a, m⟩ | ⟨e, m⟩
    · rw [hy] at hend
      rw [bind_of_ok hend]
      exact hf a { s with machine := m } hs
    · rw [hy] at hend
      rw [bind_of_error hend]
      exact .inr rfl

/-- A sequence whose first part yields what the evaluation yields in another form. -/
theorem Completes.bindMap {γ : Type} {x : Unbounded β} {y : Eval α} {h : α → β}
    {f : β → Unbounded γ} {g : α → Eval γ} (hx : Completes config n x (do return h (← y)))
    (hf : ∀ a, Completes config n (f (h a)) (g a)) : Completes config n (x >>= f) (y >>= g) := by
  intro s hs
  have hend : (∃ limit span m',
        EStateM.bind y (fun a => pure (h a)) s.machine = .error (.spineLimit limit span) m') ∨
      x s = some (resume s (EStateM.bind y (fun a => pure (h a)) s.machine)) := hx s hs
  show (∃ limit span m', EStateM.bind y g s.machine = .error (.spineLimit limit span) m') ∨
    (x >>= f) s = some (resume s (EStateM.bind y g s.machine))
  unfold EStateM.bind at hend ⊢
  -- the evaluation either gives up or leaves the same behind, and the next part goes on from there
  rcases hy : y s.machine with ⟨a, m⟩ | ⟨e, m⟩
  · rw [hy] at hend
    rcases hend with ⟨limit, span, m', herror⟩ | hend
    · cases herror
    · rw [bind_of_ok hend]
      exact hf a { s with machine := m } hs
  · rw [hy] at hend
    rcases hend with ⟨limit, span, m', herror⟩ | hend
    · cases herror
      exact .inl ⟨limit, span, _, rfl⟩
    · rw [bind_of_error hend]
      exact .inr rfl

/-- Ending alike is a correspondence, whatever number of levels is left. -/
def completing (config : Config) (n : Nat) : Correspondence Unbounded where
  Related := Completes config n
  pure := completes_pure
  bind := Completes.bind
  basic _ := completes_lift _

/-- **A demand ends if the evaluation it makes does.** -/
theorem Completes.force {eval : Expr → EnvId → Unbounded Value} {eval' : Expr → EnvId → Eval Value}
    (h : ∀ e env, Completes config n (eval e env) (eval' e env)) (t : ThunkId) :
    Completes config n (force eval t) (Eval.force eval' t) := by
  intro s hs
  unfold GivesUp Unbounded.force
  cases hcell : s.machine.cell t with
  | evaluated v =>
    rw [ByName.force_of_evaluated hcell]
    exact .inr rfl
  | forcing e env =>
    rw [ByName.force_of_forcing hcell]
    exact .inr rfl
  -- giving up inside of a demand is giving up; otherwise the cell is settled alike
  | pending e env =>
    rw [ByName.force_of_pending hcell]
    rcases h e env (onMachine s (·.setCell t (.forcing e env))) hs with ⟨limit, span, m, hy⟩ | hend
    · have hy : eval' e env (s.machine.setCell t (.forcing e env)) =
          .error (.spineLimit limit span) m := hy
      rw [hy]
      exact .inl ⟨limit, span, _, rfl⟩
    · simp only
      rw [hend]
      simp only [onMachine]
      rcases eval' e env (s.machine.setCell t (.forcing e env)) with ⟨v, m⟩ | ⟨err, m⟩ <;>
        exact .inr rfl

/-- **No level left**: the counter stands at the limit. -/
theorem completes_nested_zero (span : Span) (x : Unbounded α) :
    Completes config 0 (nested config span x) (Eval.limitReached config span) := by
  intro s hs
  have hlimit : config.maxDepth ≤ s.depth := by omega
  right
  rw [nested, if_pos hlimit]
  rfl

/-- **One level deeper**: the counter is raised for the computation and lowered behind it. -/
theorem Completes.nested_succ {x : Unbounded α} {y : Eval α} (h : Completes config n x y)
    (span : Span) : Completes config (n + 1) (nested config span x) y := by
  intro s hs
  have hlimit : ¬config.maxDepth ≤ s.depth := by omega
  have hinside : s.depth + 1 + n = config.maxDepth := by omega
  rcases h { s with depth := s.depth + 1 } hinside with hgives | hend
  · exact .inl hgives
  · right
    rw [nested, if_neg hlimit, hend]
    rcases y s.machine with ⟨a, m⟩ | ⟨e, m⟩ <;> simp [resume]

/-- **A turn of a comparison ends if the next one does**, which has one cell less to go. -/
theorem completes_compareTurn {force : ThunkId → Unbounded Value} {force' : ThunkId → Eval Value}
    {nested next : Value → Value → Unbounded Bool} {nested' : Value → Value → Eval Bool}
    (hforce : ∀ t, Completes config n (force t) (force' t))
    (hnested : ∀ v w, Completes config n (nested v w) (nested' v w)) (span : Span) (room : Nat)
    (hnext : ∀ v w,
      Completes config n (next v w) (Eval.compareWith config force' nested' span room v w))
    (x y : Value) :
    Completes config n (compareTurn force nested next span x y)
      (Eval.compareWith config force' nested' span (room + 1) x y) := by
  let C := completing config n
  have helement (s t : ThunkId) : C.Related (do nested (← force s) (← force t))
      (do nested' (← force' s) (← force' t)) :=
    C.bind (hforce s) fun v => C.bind (hforce t) fun w => hnested v w
  show C.Related _ _
  cases x with
  | cons h t =>
    cases y with
    | cons h' t' =>
      refine C.bind (helement h h') fun same => ?_
      cases same with
      -- behind equal heads the next turn has one cell less to go
      | true => exact C.bind (hforce t) fun v => C.bind (hforce t') fun w => hnext v w
      | false => exact C.pure false
    | nil => exact C.pure false
    | _ => exact C.fail _
  | tuple xs =>
    cases y with
    | tuple ys =>
      rw [compareTurn, Eval.compareWith]
      by_cases hlen : xs.length = ys.length
      · rw [if_pos hlen, if_pos hlen]
        exact C.compareAll helement xs ys
      · rw [if_neg hlen, if_neg hlen]
        exact C.pure false
    | _ => exact C.fail _
  | _ => cases y <;> first | exact C.pure _ | exact C.fail _

end Rules

section Calls

variable (config : Config)

/-- Turns that an evaluation with `n` levels left nests in each other at most: on each level it may
compare two lists. -/
def evalTurns (n : Nat) : Nat :=
  n * (config.spineLimit + 2)

theorem evalTurns_succ (n : Nat) :
    evalTurns config (n + 1) = evalTurns config n + config.spineLimit + 2 := by
  unfold evalTurns
  rw [Nat.succ_mul, Nat.add_assoc]

/-- As far as the evaluator goes along two lists, the interpreter goes too: it takes one turn for
each cell. -/
theorem completes_compareWith {n : Nat} {span : Span} {nested' : Value → Value → Eval Bool}
    {bound : Nat} (hforce : ∀ fuel, bound ≤ fuel → ∀ t,
      Completes config n (demand config fuel t) (Eval.force (Eval.eval config n) t))
    (hnested : ∀ fuel, bound ≤ fuel → ∀ v w,
      Completes config n (nested config span (run config fuel (.equal span v w))) (nested' v w))
    (room fuel : Nat) (hfuel : bound + room ≤ fuel) (x y : Value) :
    Completes config n (run config fuel (.equal span x y))
      (Eval.compareWith config (Eval.force (Eval.eval config n)) nested' span room x y) := by
  induction room generalizing fuel x y with
  | zero => exact fun s _ => .inl ⟨config.spineLimit, span, s.machine, rfl⟩
  | succ room ih =>
    obtain ⟨fuel, rfl⟩ : ∃ k, fuel = k + 1 := ⟨fuel - 1, by omega⟩
    have hbound : bound ≤ fuel := by omega
    exact completes_compareTurn (hforce fuel hbound) (hnested fuel hbound) span room
      (ih fuel (by omega)) x y

/-- **A comparison ends unless the evaluator gives it up.** -/
theorem completes_equal (n : Nat)
    (hforce : ∀ k ≤ n, ∀ fuel, evalTurns config k < fuel → ∀ t,
      Completes config k (demand config fuel t) (Eval.force (Eval.eval config k) t))
    (fuel : Nat) (hfuel : evalTurns config n + config.spineLimit + 1 < fuel) (span : Span)
    (x y : Value) :
    Completes config n (run config fuel (.equal span x y)) (Eval.equal config n span x y) := by
  induction n generalizing fuel x y with
  | zero =>
    rw [Eval.equal_zero]
    exact completes_compareWith config (hforce 0 (Nat.le_refl 0))
      (fun _ _ _ _ => completes_nested_zero span _) _ fuel (by omega) x y
  | succ n ih =>
    have hsucc := evalTurns_succ config n
    -- an element is compared one level below, where demands are at most as deep
    have hnested := ih fun k hk => hforce k (Nat.le_succ_of_le hk)
    rw [Eval.equal_succ]
    refine completes_compareWith config (hforce (n + 1) (Nat.le_refl _))
      (fun fuel hfuel v w => ?_) _ fuel (by omega) x y
    exact (hnested fuel (by omega) v w).nested_succ span

/-- **An evaluation ends unless the evaluator gives it up.** -/
theorem completes_eval (n fuel : Nat) (hfuel : evalTurns config n < fuel) (e : Expr)
    (env : EnvId) :
    Completes config n (run config fuel (.eval e env)) (Eval.eval config n e env) := by
  induction n using Nat.strongRecOn generalizing fuel e env with
  | _ n ih =>
    obtain ⟨fuel, rfl⟩ : ∃ k, fuel = k + 1 := ⟨fuel - 1, by omega⟩
    cases n with
    | zero =>
      rw [Eval.eval_zero]
      exact completes_nested_zero e.span _
    | succ n =>
      have hsucc := evalTurns_succ config n
      -- the turns that are left are enough for the demands of all lower levels
      have hforce : ∀ k ≤ n, ∀ fuel, evalTurns config k < fuel → ∀ t,
          Completes config k (demand config fuel t) (Eval.force (Eval.eval config k) t) :=
        fun k hk fuel hfuel => Completes.force (ih k (Nat.lt_succ_of_le hk) fuel hfuel)
      rw [Eval.eval_succ]
      refine Completes.nested_succ ?_ e.span
      exact (completing config n).step (hforce n (Nat.le_refl n) fuel (by omega))
        (ih n (Nat.lt_succ_self n) fuel (by omega))
        (completes_equal config n hforce fuel (by omega)) e env

theorem completes_demand (n fuel : Nat) (hfuel : evalTurns config n < fuel) (t : ThunkId) :
    Completes config n (demand config fuel t) (Eval.force (Eval.eval config n) t) :=
  Completes.force (completes_eval config n fuel hfuel) t

/-- **The walk along a list ends**: with `room` the elements that may still be passed, the number of
elements passed is never beyond the limit, so that the test for equality stops the walk. -/
theorem completes_walk (n : Nat) {room : Nat} {items : List ThunkId}
    (hroom : items.length + room = config.renderLimit) (fuel : Nat)
    (hfuel : evalTurns config n + room + 1 < fuel) (rest : Value) :
    Completes config n (run config fuel (.walk items rest)) (do
      let found ← Eval.spine (Eval.force (Eval.eval config n)) room rest
      return (items ++ found.1, found.2)) := by
  let C := completing config n
  show C.Related _ _
  induction room generalizing items rest fuel with
  -- no room is left: the test for equality holds just now, and ends the walk
  | zero =>
    obtain ⟨fuel, rfl⟩ : ∃ k, fuel = k + 1 := ⟨fuel - 1, by omega⟩
    have hstop : C.Related (pure (items, rest)) (pure (items ++ [], rest)) := by
      rw [List.append_nil]
      exact C.pure _
    have hlimit : items.length = config.renderLimit := hroom
    rw [run_walk]
    unfold walkTurn
    cases rest with
    | cons head tail =>
      dsimp only
      rw [if_pos hlimit]
      exact hstop
    | _ => exact hstop
  | succ room ih =>
    obtain ⟨fuel, rfl⟩ : ∃ k, fuel = k + 1 := ⟨fuel - 1, by omega⟩
    have hstop : C.Related (pure (items, rest)) (pure (items ++ [], rest)) := by
      rw [List.append_nil]
      exact C.pure _
    rw [run_walk]
    unfold walkTurn
    -- one more cell is passed, and the next value demanded
    cases rest with
    | cons head tail =>
      have hlimit : items.length ≠ config.renderLimit := by omega
      have hroom' : (items ++ [head]).length + room = config.renderLimit := by
        rw [List.length_append, List.length_singleton]
        omega
      dsimp only
      rw [if_neg hlimit, Eval.spine, bind_assoc]
      refine C.bind (completes_demand config n fuel (by omega) tail) fun next => ?_
      have hnext := ih hroom' fuel (by omega) next
      simp only [List.append_assoc, List.singleton_append] at hnext
      simp only [bind_assoc, pure_bind]
      exact hnext
    | _ => exact hstop

/-- **Printing ends unless the evaluator gives up**, if only so many elements of a list are printed
and not all of them. -/
theorem completes_renderTurn (hlimit : 1 ≤ config.renderLimit) {n fuel : Nat}
    (hfuel : evalTurns config n + config.renderLimit < fuel)
    {nested : Value → Unbounded String} {nested' : Value → Eval String}
    (hnested : ∀ v, Completes config n (nested v) (nested' v)) (v : Value) :
    Completes config n
      (renderTurn config (demand config fuel) (fun items rest => run config fuel (.walk items rest))
        nested v)
      (Eval.renderWith config (Eval.force (Eval.eval config n)) nested' v) := by
  let C := completing config n
  have hforce := completes_demand config n fuel (by omega)
  have helement (t : ThunkId) : C.Related (do nested (← demand config fuel t))
      (do nested' (← Eval.force (Eval.eval config n) t)) :=
    C.bind (hforce t) hnested
  show C.Related _ _
  unfold renderTurn
  cases v with
  | tuple ts => exact C.bind (C.commaSeparated helement _) fun shown => C.pure _
  | cons head tail =>
    have hne : config.renderLimit ≠ 0 := by omega
    have hroom : [head].length + (config.renderLimit - 1) = config.renderLimit := by
      rw [List.length_singleton]
      omega
    rw [Eval.renderWith, if_neg hne]
    refine C.bind (hforce tail) fun next => ?_
    refine Completes.bindMap (completes_walk config n hroom fuel (by omega) next) fun found => ?_
    obtain ⟨heads, last⟩ := found
    have hlist := C.commaSeparated helement (head :: heads)
    have hchain := C.bind (C.colonTerminated helement (head :: heads)) fun shown =>
      C.bind (C.basic .countHit) fun _ =>
        C.bind (hnested last) fun text => C.pure (shown ++ text)
    show C.Related _ _
    cases last with
    | nil => exact C.bind hlist fun shown => C.pure _
    | cons =>
      dsimp only
      rw [if_neg hne]
      exact C.bind hlist fun shown => C.pure _
    | _ => exact hchain
  | _ => exact C.pure _

theorem completes_render (hlimit : 1 ≤ config.renderLimit) (n fuel : Nat)
    (hfuel : evalTurns config n + config.renderLimit + 1 < fuel) (v : Value) :
    Completes config n (run config fuel (.render v)) (Eval.renderAt config n v) := by
  induction n generalizing fuel v with
  | zero =>
    obtain ⟨fuel, rfl⟩ : ∃ k, fuel = k + 1 := ⟨fuel - 1, by omega⟩
    exact completes_renderTurn config hlimit (by omega)
      (fun v => completes_nested_zero .unknown _) v
  | succ n ih =>
    obtain ⟨fuel, rfl⟩ : ∃ k, fuel = k + 1 := ⟨fuel - 1, by omega⟩
    have hsucc := evalTurns_succ config n
    exact completes_renderTurn config hlimit (by omega)
      (fun v => (ih fuel (by omega) v).nested_succ .unknown) v

end Calls

/-! ### Whole programs -/

/-- The text of an expression's value, found by a fresh interpreter, and the work done for it.
There is none if more than `fuel` turns would be nested in each other. -/
def outcome (config : Config) (fuel : Nat) (e : Expr) :
    Option (Except EvalError String × Stats) :=
  let program : Unbounded String := do
    let v ← run config fuel (.eval e Environments.root)
    run config fuel (.render v)
  (program ⟨.initial, 0⟩).map fun (result, s) => (result, s.machine.stats)

/-- **The interpreter ends unless the evaluator gives up**, and has the same outcome. -/
theorem outcome_cases (config : Config) (hlimit : 1 ≤ config.renderLimit) (fuel : Nat)
    (hfuel : evalTurns config config.maxDepth + config.renderLimit + 1 < fuel) (e : Expr) :
    GivesUp (do Eval.render config (← Eval.evaluate config e)) Machine.initial ∨
      outcome config fuel e = some (e.outcome config) := by
  have hprogram : Completes config config.maxDepth
      (do
        let v ← run config fuel (.eval e Environments.root)
        run config fuel (.render v))
      (do Eval.render config (← Eval.evaluate config e)) :=
    (completes_eval config config.maxDepth fuel (by omega) e Environments.root).bind
      (completes_render config hlimit config.maxDepth fuel hfuel)
  refine (hprogram ⟨.initial, 0⟩ (Nat.zero_add _)).imp id fun hend => ?_
  unfold outcome Expr.outcome Expr.valueText Expr.valueStats
  simp only
  rw [hend]
  rcases (do Eval.render config (← Eval.evaluate config e) : Eval String) Machine.initial with
    ⟨text, m⟩ | ⟨err, m⟩ <;> rfl

end Unbounded

end CallByNeed

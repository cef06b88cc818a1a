import CallByNeed.Proofs.Interpretation.Counter

/-!
# What a call leaves behind

However a call of the interpreter ends, it leaves a state from which the next call can start.  A
machine evolves during a call (`Machine.Evolves`): frames and values stay, a pending cell stays or
gets its value, and the cells that are being evaluated are the same before and after, since a demand
takes its mark away again, with the value or with the error.  The interpreter puts its counter back
in the same way.  So an interpreter that is idle before a call is idle after it
(`Interpreter.call_leaves_idle`).
-/

namespace CallByNeed

/-! ### How a machine evolves -/

/-- What a computation may do to the frames and cells of a machine, seen from outside. -/
structure Machine.Evolves (m m' : Machine) : Prop where
  /-- Frames do not change. -/
  frames : ∀ (id : EnvId) frame, m.environments.frames[id]? = some frame →
    m'.environments.frames[id]? = some frame
  /-- A value that has been found stays. -/
  evaluated : ∀ (t : ThunkId) v, m.cells[t]? = some (.evaluated v) →
    m'.cells[t]? = some (.evaluated v)
  /-- A pending cell stays or gets a value. -/
  pending : ∀ (t : ThunkId) e env, m.cells[t]? = some (.pending e env) →
    m'.cells[t]? = some (.pending e env) ∨ ∃ v, m'.cells[t]? = some (.evaluated v)
  /-- The cells under evaluation are the same. -/
  forcing : ∀ (t : ThunkId) e env,
    m'.cells[t]? = some (.forcing e env) ↔ m.cells[t]? = some (.forcing e env)

namespace Machine

variable {m m' m'' : Machine} {t : ThunkId} {e : Expr} {env : EnvId}

/-- Counters do not matter. -/
theorem evolves_of_eq (hframes : m'.environments = m.environments) (hcells : m'.cells = m.cells) :
    Evolves m m' := by
  constructor
  · rw [hframes]
    exact fun _ _ h => h
  · rw [hcells]
    exact fun _ _ h => h
  · rw [hcells]
    exact fun _ _ _ h => .inl h
  · rw [hcells]
    exact fun _ _ _ => .rfl

theorem Evolves.refl (m : Machine) : Evolves m m :=
  evolves_of_eq rfl rfl

theorem Evolves.trans (h : Evolves m m') (h' : Evolves m' m'') : Evolves m m'' where
  frames id frame hframe := h'.frames id frame (h.frames id frame hframe)
  evaluated t v ht := h'.evaluated t v (h.evaluated t v ht)
  pending t e env ht := by
    rcases h.pending t e env ht with ht | ⟨v, ht⟩
    · exact h'.pending t e env ht
    · exact .inr ⟨v, h'.evaluated t v ht⟩
  forcing t e env := (h'.forcing t e env).trans (h.forcing t e env)

/-- **A new cell is pending**, and the others stay. -/
theorem evolves_allocate (m : Machine) (e : Expr) (env : EnvId) :
    Evolves m (m.allocate (.pending e env)).2 := by
  have hold {t : ThunkId} {c : Cell} (ht : m.cells[t]? = some c) :
      (m.cells.push (.pending e env))[t]? = some c := by
    have hlt : t < m.cells.size := (Array.getElem?_eq_some_iff.mp ht).1
    rw [Array.getElem?_push_lt hlt, ← Array.getElem?_eq_getElem hlt, ht]
  refine ⟨fun _ _ h => h, fun _ _ => hold, fun _ _ _ h => .inl (hold h), fun t e' env' => ?_⟩
  refine ⟨fun ht => ?_, hold⟩
  -- the new cell is not under evaluation
  rw [allocate, Array.getElem?_push] at ht
  by_cases hnew : t = m.cells.size
  · rw [if_pos hnew] at ht
    cases ht
  · rwa [if_neg hnew] at ht

/-- **A new frame leaves the others as they are.** -/
theorem evolves_push (m : Machine) (parent : EnvId) (bindings : Bindings ThunkId) :
    Evolves m { m with environments := (m.environments.push parent bindings).2 } := by
  refine ⟨fun id frame hframe => ?_, fun _ _ h => h, fun _ _ _ h => .inl h, fun _ _ _ => .rfl⟩
  have hlt : id < m.environments.frames.size := (Array.getElem?_eq_some_iff.mp hframe).1
  change (m.environments.frames.push _)[id]? = _
  rw [Array.getElem?_push_lt hlt, ← Array.getElem?_eq_getElem hlt, hframe]

/-- **A demand takes its mark away.**  If the machine evolves while the cell at `t` is marked, and
the cell then gets a value or is pending again, the machine has evolved. -/
theorem Evolves.unmark {c : Cell} (ht : m.cells[t]? = some (.pending e env))
    (h : Evolves (m.setCell t (.forcing e env)) m')
    (hc : c = .pending e env ∨ ∃ v, c = .evaluated v) : Evolves m (m'.setCell t c) := by
  have hlt : t < m.cells.size := (Array.getElem?_eq_some_iff.mp ht).1
  -- the cell is still marked, so that it is a cell of the machine
  have hmark : m'.cells[t]? = some (.forcing e env) := by
    rw [h.forcing]
    simp [setCell, hlt]
  have hlt' : t < m'.cells.size := (Array.getElem?_eq_some_iff.mp hmark).1
  have hself : (m'.setCell t c).cells[t]? = some c := by
    simp [setCell, hlt']
  have hother {u : ThunkId} (hu : t ≠ u) : (m'.setCell t c).cells[u]? = m'.cells[u]? := by
    simp [setCell, hu]
  have hbefore {u : ThunkId} (hu : t ≠ u) :
      (m.setCell t (.forcing e env)).cells[u]? = m.cells[u]? := by
    simp [setCell, hu]
  refine ⟨h.frames, fun u v hv => ?_, fun u e' env' hp => ?_, fun u e' env' => ?_⟩
  · have hu : t ≠ u := by
      rintro rfl
      rw [ht] at hv
      cases hv
    rw [hother hu]
    exact h.evaluated u v ((hbefore hu).trans hv)
  · by_cases hu : t = u
    · obtain rfl := hu
      rw [ht] at hp
      obtain ⟨rfl, rfl⟩ := Cell.pending.inj (Option.some.inj hp)
      rw [hself]
      rcases hc with rfl | ⟨v, rfl⟩
      · exact .inl rfl
      · exact .inr ⟨v, rfl⟩
    · rw [hother hu]
      exact h.pending u e' env' ((hbefore hu).trans hp)
  · by_cases hu : t = u
    · obtain rfl := hu
      rw [hself, ht]
      rcases hc with rfl | ⟨v, rfl⟩ <;> simp
    · rw [hother hu, h.forcing, hbefore hu]

end Machine

/-! ### How the evaluator lets it evolve -/

namespace Eval

variable {α β : Type}

/-- A value or an error, and the state that is left in either case. -/
def split {σ : Type} : EStateM.Result EvalError σ α → Except EvalError α × σ
  | .ok a s => (.ok a, s)
  | .error e s => (.error e, s)

/-- An evaluation that has a value succeeds. -/
theorem exists_of_split {σ : Type} {r : EStateM.Result EvalError σ α} {a : α}
    (h : (split r).1.toOption = some a) : ∃ s, r = .ok a s := by
  cases r with
  | ok b s =>
    obtain rfl : b = a := Option.some.inj h
    exact ⟨s, rfl⟩
  | error e s => cases h

/-- Every machine evolves during the evaluation, whether or not it fails. -/
def Keeps (x : Eval α) : Prop :=
  ∀ m : Machine, m.Evolves (split (x m)).2

theorem Keeps.bind {x : Eval α} {f : α → Eval β} (hx : Keeps x) (hf : ∀ a, Keeps (f a)) :
    Keeps (x >>= f) := by
  intro m
  have h := hx m
  change m.Evolves (split (EStateM.bind x f m)).2
  unfold EStateM.bind
  generalize x m = r at h ⊢
  cases r with
  | ok a m' => exact h.trans (hf a m')
  | error e m' => exact h

theorem keeps_pure (a : α) : Keeps (pure a) :=
  fun m => .refl m

theorem keeps_throw (e : EvalError) : Keeps (throw e : Eval α) :=
  fun m => .refl m

theorem keeps_pushRecursive (parent : EnvId) (name : String) (e : Expr) :
    Keeps (pushRecursive parent name e) := by
  intro m
  have h := (m.evolves_allocate e m.environments.fresh).trans
    (Machine.evolves_push _ parent [(name, m.cells.size)])
  exact h.trans (Machine.evolves_of_eq rfl rfl)

theorem keeps_of_basic {x : Eval α} (h : x.Basic) : Keeps x := by
  induction h with
  | pure a => exact keeps_pure a
  | bind _ _ hx hf => exact hx.bind hf
  | read f => exact fun m => .refl m
  | throw e => exact keeps_throw e
  | countHit => exact fun m => Machine.evolves_of_eq rfl rfl
  | suspend e env =>
    exact fun m => (m.evolves_allocate e env).trans (Machine.evolves_of_eq rfl rfl)
  | pushFrame parent bindings => exact fun m => m.evolves_push parent bindings
  | pushRecursive parent name e => exact keeps_pushRecursive parent name e

/-- Letting machines evolve is a correspondence that asks nothing of the other computation. -/
def keeping : Correspondence Eval where
  Related _ y := Keeps y
  pure := keeps_pure
  bind := Keeps.bind
  basic := keeps_of_basic

/-- **A demand lets the machine evolve if the evaluation it makes does.** -/
theorem Keeps.force {eval : Expr → EnvId → Eval Value} (h : ∀ e env, Keeps (eval e env))
    (t : ThunkId) : Keeps (force eval t) := by
  intro m
  cases hcell : m.cell t with
  | evaluated v =>
    rw [ByName.force_of_evaluated hcell]
    exact Machine.evolves_of_eq rfl rfl
  | forcing e env =>
    rw [ByName.force_of_forcing hcell]
    exact .refl m
  | pending e env =>
    -- a cell that is pending is one of the machine
    have ht : m.cells[t]? = some (.pending e env) := by
      by_cases hlt : t < m.cells.size
      · simpa [Machine.cell, hlt] using hcell
      · simp [Machine.cell, hlt] at hcell
    have hinside := h e env (m.setCell t (.forcing e env))
    rw [ByName.force_of_pending hcell]
    generalize eval e env (m.setCell t (.forcing e env)) = r at hinside ⊢
    cases r with
    -- the mark is taken off in either case: the cell gets its value, or is pending again
    | ok v m' =>
      have hvalue := hinside.unmark (c := .evaluated v) ht (.inr ⟨v, rfl⟩)
      exact hvalue.trans (Machine.evolves_of_eq rfl rfl)
    | error err m' => exact hinside.unmark (c := .pending e env) ht (.inl rfl)

variable (config : Config)

theorem keeps_compareWith {eval : Expr → EnvId → Eval Value} {nested : Value → Value → Eval Bool}
    (heval : ∀ e env, Keeps (eval e env)) (hnested : ∀ v w, Keeps (nested v w)) (span : Span)
    (room : Nat) (x y : Value) :
    Keeps (compareWith config (Eval.force eval) nested span room x y) :=
  @Correspondence.compareWith _ _ _ keeping config (Eval.force eval) _ nested _
    (Keeps.force heval) hnested span room x y

/-- **Machines evolve during an evaluation**, with whatever number of levels left. -/
theorem keeps_eval (n : Nat) :
    (∀ e env, Keeps (eval config n e env)) ∧ ∀ span x y, Keeps (equal config n span x y) := by
  induction n with
  | zero =>
    have heval (e : Expr) (env : EnvId) : Keeps (eval config 0 e env) := by
      rw [eval_zero]
      exact keeps_throw _
    refine ⟨heval, fun span x y => ?_⟩
    rw [equal_zero]
    exact keeps_compareWith config heval (fun _ _ => keeps_throw _) span _ x y
  | succ n ih =>
    obtain ⟨heval, hequal⟩ := ih
    have heval' (e : Expr) (env : EnvId) : Keeps (eval config (n + 1) e env) := by
      rw [eval_succ]
      exact @Correspondence.step _ _ _ keeping (force (eval config n)) (eval config n) _
        (equal config n) _ (Keeps.force heval) heval hequal e env
    refine ⟨heval', fun span x y => ?_⟩
    rw [equal_succ]
    exact keeps_compareWith config heval' (hequal span) span _ x y

theorem keeps_renderAt (n : Nat) (v : Value) : Keeps (renderAt config n v) := by
  have hwith (k : Nat) {nested : Value → Eval String} (hnested : ∀ v, Keeps (nested v))
      (v : Value) : Keeps (renderWith config (force (eval config k)) nested v) :=
    @Correspondence.renderWith _ _ _ keeping config (force (eval config k)) _ nested _
      (Keeps.force (keeps_eval config k).1) hnested v
  induction n generalizing v with
  | zero => exact hwith 0 (fun _ => keeps_throw _) v
  | succ n ih => exact hwith (n + 1) ih v

end Eval

/-! ### Calls of the interpreter -/

/-- What can be asked of an interpreter. -/
inductive Call where
  | evaluate (e : Expr)
  | force (t : ThunkId)
  | bindMatch (p : Pattern) (t : ThunkId) (bindings : Bindings ThunkId)
  | render (v : Value)

/-- What it answers. -/
inductive Answer where
  | value (v : Value)
  /-- The names bound, if the pattern fits. -/
  | bindings (found : Option (Bindings ThunkId))
  | text (s : String)

namespace Call

/-- A call as a computation that counts its nesting. -/
def counted (config : Config) : Call → Counted Answer
  | evaluate e => do return .value (← Interpreter.evaluate config e)
  | force t => do return .value (← Interpreter.demand config t)
  | bindMatch p t bindings => do
    return .bindings (← Interpreter.bindMatch config p t bindings)
  | render v => do return .text (← Interpreter.render config v)

/-- A call as an evaluation. -/
def eval (config : Config) : Call → Eval Answer
  | evaluate e => do return .value (← Eval.evaluate config e)
  | force t => do return .value (← Eval.demand config t)
  | bindMatch p t bindings => do
    return .bindings (← (Matching.one (Eval.demand config) p t).outcome bindings)
  | render v => do return .text (← Eval.render config v)

/-- The answer of the interpreter or an error, and the state left behind. -/
def run (config : Config) (call : Call) (s : Interpreter) :
    Except EvalError Answer × Interpreter :=
  Eval.split (call.counted config s)

theorem tracks_counted (config : Config) (call : Call) :
    Interpreter.Tracks config config.maxDepth (call.counted config) (call.eval config) := by
  have hdemand := Interpreter.tracks_demand config (Nat.le_refl config.maxDepth)
  cases call with
  | evaluate e =>
    have heval := Interpreter.tracks_eval config config.maxDepth _ (Nat.lt_succ_self _)
    exact (heval e Environments.root).bind fun v => Interpreter.tracks_pure _
  | force t => exact (hdemand t).bind fun v => Interpreter.tracks_pure _
  | bindMatch p t bindings =>
    have hmatch := (Interpreter.tracking config config.maxDepth).matchOne hdemand p t bindings
    exact Interpreter.Tracks.bind hmatch fun found => Interpreter.tracks_pure _
  | render v =>
    have hrender := Interpreter.tracks_renderAt config config.maxDepth (Nat.le_refl _) _
      (Nat.lt_succ_self _)
    exact (hrender v).bind fun text => Interpreter.tracks_pure _

theorem keeps_eval (config : Config) (call : Call) : Eval.Keeps (call.eval config) := by
  have hdemand := Eval.Keeps.force (Eval.keeps_eval config config.maxDepth).1
  cases call with
  | evaluate e =>
    exact ((Eval.keeps_eval config config.maxDepth).1 e _).bind fun v => Eval.keeps_pure _
  | force t => exact (hdemand t).bind fun v => Eval.keeps_pure _
  | bindMatch p t bindings =>
    have hmatch := @Correspondence.matchOne _ _ _ Eval.keeping (Eval.demand config) _ hdemand p t
      bindings
    exact Eval.Keeps.bind hmatch fun found => Eval.keeps_pure _
  | render v => exact (Eval.keeps_renderAt config _ v).bind fun text => Eval.keeps_pure _

end Call

namespace Interpreter

/-- Nothing is under way: the counter stands at zero and no cell is being evaluated. -/
structure Idle (s : Interpreter) : Prop where
  depth : s.depth = 0
  forcing : ∀ (t : ThunkId) e env, s.machine.cells[t]? ≠ some (.forcing e env)

/-- **A call leaves the interpreter idle**, with an answer or with an error, however deep it was
raised.  Frames, values and pending expressions are kept as `Machine.Evolves` says, the counter
never exceeds the limit in between, and answer, error and machine are those of the evaluator. -/
theorem call_leaves_idle (config : Config) (call : Call) (s : Interpreter) (hs : s.Idle) :
    let after := (call.run config s).2
    after.Idle ∧ s.machine.Evolves after.machine ∧
      (∃ trail, after.trail = trail ++ s.trail ∧ ∀ point ∈ trail, point.1 ≤ config.maxDepth) ∧
      ((call.run config s).1, after.machine) = Eval.split (call.eval config s.machine) := by
  intro after
  obtain ⟨trail, htrail, hrun⟩ := call.tracks_counted config s (by rw [hs.depth, Nat.zero_add])
  have hkeeps := call.keeps_eval config s.machine
  have hafter : call.run config s = Eval.split (s.resume trail (call.eval config s.machine)) :=
    congrArg Eval.split hrun
  have hidle {m : Machine} (hm : s.machine.Evolves m) (trail : List (Nat × Machine)) :
      Idle ⟨m, s.depth, trail⟩ :=
    ⟨hs.depth, fun t e env ht => hs.forcing t e env ((hm.forcing t e env).mp ht)⟩
  simp only [after]
  rw [hafter]
  -- a call that succeeds and one that fails leave the same behind
  generalize call.eval config s.machine = r at hkeeps ⊢
  cases r with
  | ok a m => exact ⟨hidle hkeeps _, hkeeps, ⟨trail, rfl, htrail⟩, rfl⟩
  | error e m => exact ⟨hidle hkeeps _, hkeeps, ⟨trail, rfl, htrail⟩, rfl⟩

/-- A demand for the value of `(\x -> x + true) 1`, which fails inside the body. -/
theorem call_leaves_idle_failure :
    let body : Expr := .binary .unknown .add (.identifier .unknown "x") (.boolean .unknown true)
    let e : Expr := .apply .unknown (.lambda .unknown (.bind .unknown "x") body)
      (.integer .unknown 1)
    let s : Interpreter := ⟨{ Machine.initial with cells := #[.pending e 0] }, 0, []⟩
    let after := ((Call.force 0).run {} s).2
    (s.Idle ∧ after.trail.map (·.1) = [0, 1, 2, 3, 2, 3, 4, 3, 2, 1, 2, 1]) ∧
      after.Idle ∧ s.machine.Evolves after.machine := by
  intro body e s after
  have hs : s.Idle := by
    refine ⟨rfl, fun t e' env' ht => ?_⟩
    rcases t with _ | t <;> simp [s] at ht
  have hafter := call_leaves_idle {} (.force 0) s hs
  exact ⟨⟨hs, by decide +kernel⟩, hafter.1, hafter.2.1⟩

end Interpreter

end CallByNeed

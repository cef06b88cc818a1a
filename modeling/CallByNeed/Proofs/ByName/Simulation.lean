import CallByNeed.Proofs.ByName.World

/-!
# Evaluation by need follows plans

An evaluation on a machine follows a plan (`Simulates`) if, started on a machine that is consistent
with a world,

* a result is one of the plan, read in a larger world with which the machine is then consistent,
* an error of the program is the outcome of the plan,
* a limit is reached only if the plan gives up at the height `budget`, and
* a loop is reported only if the plan gives up at each height, or a little above it, at which all
  suspensions give up that are being evaluated.

The last condition speaks of heights, since the suspension that a loop comes back to is itself being
evaluated.  When the evaluation of that suspension is complete, an induction on the height removes
it from the condition (`Evaluates.force`); in the end none is left, and the plan has no outcome.
-/

namespace CallByNeed

namespace EvalError

/-- The error says that a limit has been reached. -/
def isLimit : EvalError → Bool
  | recursionLimit .. | spineLimit .. => true
  | _ => false

/-- The error is one of the program: neither a limit nor a loop. -/
def isOrdinary : EvalError → Bool
  | recursionLimit .. | spineLimit .. | infiniteLoop _ => false
  | _ => true

theorem isOrdinary_of_isLimit {e : EvalError} (h : e.isLimit) : e.isOrdinary = false := by
  cases e <;> first | rfl | cases h

end EvalError

namespace ByName

variable {α β γ δ : Type}

/-! ### Suspensions that are being evaluated -/

/-- All suspensions that are being evaluated give up at the height. -/
def World.Stuck (w : World) (m : Machine) (n : Nat) : Prop :=
  ∀ t e id s, m.cell t = .forcing e id → w.HasSuspension t s → (Plan.demand s).run n = none

/-- Only those cells are marked in the second machine that were in the first. -/
def MarksFewer (m m' : Machine) : Prop :=
  ∀ t e id, m'.cell t = .forcing e id → m.cell t = .forcing e id

theorem World.Stuck.of_succ {w : World} {m : Machine} {n : Nat} (h : w.Stuck m (n + 1)) :
    w.Stuck m n :=
  fun t e id s ht hs => Plan.run_eq_none_of_le (Nat.le_succ n) (h t e id s ht hs)

/-- A marked cell is one of the machine, so that it has a suspension. -/
theorem World.Consistent.exists_hasSuspension {w : World} {m : Machine} (hm : w.Consistent m)
    {t : ThunkId} {e : Expr} {id : EnvId} (ht : m.cell t = .forcing e id) :
    ∃ s, w.HasSuspension t s := by
  have hlt : t < w.suspensions.length := by
    rw [hm.length_suspensions]
    by_contra hge
    simp [Machine.cell, hge] at ht
  exact ⟨_, List.getElem?_eq_getElem hlt⟩

theorem World.Stuck.mono {w w' : World} {m m' : Machine} {n : Nat} (h : w.Stuck m n)
    (hm : w.Consistent m) (hw : w ≤ w') (hmarks : MarksFewer m m') : w'.Stuck m' n := by
  intro t e id s ht hs
  have ht' := hmarks t e id ht
  obtain ⟨s', hs'⟩ := hm.exists_hasSuspension ht'
  obtain rfl : s' = s := Option.some.inj ((hw.1 t s' hs').symm.trans hs)
  exact h t e id s' ht' hs'

/-! ### The relation -/

/-- The result of an evaluation agrees with a plan. -/
inductive Agrees (lag budget : Nat) (w : World) (m : Machine) (R : World → α → β → Prop)
    (y : Plan β) : EStateM.Result EvalError Machine α → Prop where
  | ok {w' : World} {m' : Machine} {a : α} {b : β} (hw : w ≤ w') (hm : w'.Consistent m')
    (hmarks : MarksFewer m m') (hab : R w' a b) (hy : Derives y (.ok b)) :
    Agrees lag budget w m R y (.ok a m')
  | error {e : EvalError} {m' : Machine} (he : e.isOrdinary) (hy : Derives y (.error e)) :
    Agrees lag budget w m R y (.error e m')
  | limit {e : EvalError} {m' : Machine} (he : e.isLimit) (hy : y.run budget = none) :
    Agrees lag budget w m R y (.error e m')
  | loop {span : Span} {m' : Machine} (hy : ∀ n, w.Stuck m n → y.run (n + lag) = none) :
    Agrees lag budget w m R y (.error (.infiniteLoop span) m')

/-- The evaluation follows the plan. -/
def Simulates (lag budget : Nat) (w : World) (R : World → α → β → Prop) (x : Eval α)
    (y : Plan β) : Prop :=
  ∀ m, w.Consistent m → Agrees lag budget w m R y (x m)

section Rules

variable {lag budget : Nat} {w : World} {R : World → α → β → Prop} {S : World → γ → δ → Prop}
  {x : Eval α} {y : Plan β}

theorem simulates_pure {a : α} {b : β} (h : R w a b) :
    Simulates lag budget w R (pure a) (pure b) := by
  intro m hm
  exact .ok w.le_refl hm (fun _ _ _ ht => ht) h (derives_pure b)

theorem simulates_throw {e : EvalError} (he : e.isOrdinary) :
    Simulates lag budget w R (throw e) (Plan.fail e) := by
  intro m _
  exact .error he (derives_fail e)

/-- A limit may be reached where the plan gives up. -/
theorem simulates_limit {e : EvalError} (he : e.isLimit) (hy : y.run budget = none) :
    Simulates lag budget w R (throw e) y := by
  intro m _
  exact .limit he hy

/-- What an evaluation sees of the machine does not matter. -/
theorem simulates_get {f : Machine → Eval α} (h : ∀ m, w.Consistent m →
    Simulates lag budget w R (f m) y) : Simulates lag budget w R (get >>= f) y :=
  fun m hm => h m hm m hm

theorem Simulates.weaken {lag' budget' : Nat} (h : Simulates lag budget w R x y)
    (hlag : lag' ≤ lag) (hbudget : budget' ≤ budget) : Simulates lag' budget' w R x y := by
  intro m hm
  have hxm := h m hm
  generalize x m = r at hxm ⊢
  cases hxm with
  | ok hw hm' hmarks hab hy => exact .ok hw hm' hmarks hab hy
  | error he hy => exact .error he hy
  | limit he hy => exact .limit he (Plan.run_eq_none_of_le hbudget hy)
  | loop hy =>
    exact .loop fun n hn => Plan.run_eq_none_of_le (Nat.add_le_add_left hlag n) (hy n hn)

/-- **Evaluations compose as plans do.** -/
theorem Simulates.bind {f : α → Eval γ} {g : β → Plan δ} (hx : Simulates 0 budget w R x y)
    (hf : ∀ w' a b, w ≤ w' → R w' a b → Simulates 0 budget w' S (f a) (g b)) :
    Simulates 0 budget w S (x >>= f) (y >>= g) := by
  intro m hm
  have hxm := hx m hm
  change Agrees 0 budget w m S (y >>= g) (EStateM.bind x f m)
  unfold EStateM.bind
  generalize x m = r at hxm ⊢
  cases hxm with
  -- an end of the first part is an end of both, on the machine and in the plan
  | error he hy => exact .error he hy.bind_error
  | limit he hy => exact .limit he (Plan.run_bind_eq_none g hy)
  | loop hy => exact .loop fun n hn => Plan.run_bind_eq_none g (hy n hn)
  | @ok w' m' a b hw hm' hmarks hab hy =>
    have hfm := hf w' a b hw hab m' hm'
    change Agrees 0 budget w m S (y >>= g) (f a m')
    generalize f a m' = r at hfm ⊢
    cases hfm with
    | ok hw' hm'' hmarks' hcd hg =>
      -- what is still being evaluated after both parts was so before the first
      refine .ok (World.le_trans hw hw') hm'' ?_ hcd (hy.bind hg)
      exact fun t e id ht => hmarks t e id (hmarks' t e id ht)
    | error he hg => exact .error he (hy.bind hg)
    | limit he hg => exact .limit he (hy.run_bind_eq_none hg)
    | loop hg => exact .loop fun n hn => hy.run_bind_eq_none (hg n (hn.mono hm hw hmarks))

/-- A step that only the machine makes comes before the plan. -/
theorem Simulates.bind_left {b : β} {f : α → Eval γ} {z : Plan δ}
    (hx : Simulates 0 budget w R x (pure b))
    (hf : ∀ w' a, w ≤ w' → R w' a b → Simulates 0 budget w' S (f a) z) :
    Simulates 0 budget w S (x >>= f) z := by
  -- the plan has no other outcome, which is what the step has to be remembered by
  have hx' : Simulates 0 budget w (fun w' a b' => R w' a b' ∧ b' = b) x (pure b) := by
    intro m hm
    have hxm := hx m hm
    generalize x m = r at hxm ⊢
    cases hxm with
    | ok hw hm' hmarks hab hy =>
      refine .ok hw hm' hmarks ⟨hab, ?_⟩ hy
      exact Except.ok.inj (hy.unique (derives_pure b))
    | error he hy => exact .error he hy
    | limit he hy => exact .limit he hy
    | loop hy => exact .loop hy
  refine hx'.bind (g := fun _ => z) ?_
  rintro w' a b' hw ⟨hab, rfl⟩
  exact hf w' a hw hab

/-- **A question takes one level more than its plan.** -/
theorem simulates_query {question : Question β}
    (h : Simulates 0 budget w R x question.plan) :
    Simulates 1 (budget + 1) w R x (Plan.query question) := by
  intro m hm
  have hxm := h m hm
  generalize x m = r at hxm ⊢
  cases hxm with
  | ok hw hm' hmarks hab hy => exact .ok hw hm' hmarks hab (derives_query.mpr hy)
  | error he hy => exact .error he (derives_query.mpr hy)
  | limit he hy => exact .limit he (by rwa [Plan.run_query_succ])
  | loop hy =>
    refine .loop fun n hn => ?_
    rw [Plan.run_query_succ]
    exact hy n hn

end Rules

/-! ### Steps of the machine -/

section Machine

variable {budget : Nat} {w : World}

/-- A new cell is not marked. -/
theorem marksFewer_allocate (m : Machine) (e : Expr) (id : EnvId) :
    MarksFewer m (m.allocate (.pending e id)).2 := by
  intro t e' id' ht
  by_cases hne : t = m.cells.size
  · rw [hne, Machine.cell_allocate_self] at ht
    cases ht
  · rwa [Machine.cell_allocate_of_ne hne] at ht

theorem simulates_countHit : Simulates 0 budget w (fun _ _ _ => True) Eval.countHit (pure ()) := by
  intro m hm
  exact .ok w.le_refl (hm.congr rfl rfl) (fun _ _ _ ht => ht) trivial (derives_pure ())

theorem simulates_suspend {id : EnvId} {env : Env} (e : Expr) (henv : w.HasEnv id env) :
    Simulates 0 budget w World.HasSuspension (Eval.suspend e id) (pure (e, env)) := by
  intro m hm
  refine .ok (w.le_addSuspension (e, env)) ((hm.allocate e henv).congr rfl rfl)
    (marksFewer_allocate m e id) ?_ (derives_pure _)
  exact World.hasSuspension_addSuspension.mpr (.inr ⟨hm.length_suspensions.symm, rfl⟩)

theorem simulates_pushFrame {parent : EnvId} {env : Env} {bindings : Bindings ThunkId}
    {bindings' : Bindings Suspension} (hparent : w.HasEnv parent env)
    (hbindings : w.ReadsBindings bindings bindings') :
    Simulates 0 budget w World.HasEnv (Eval.pushFrame parent bindings)
      (pure (.frame bindings' env)) := by
  intro m hm
  refine .ok (w.le_addEnv (.frame bindings' env)) (hm.pushFrame hparent hbindings)
    (fun _ _ _ ht => ht) ?_ (derives_pure _)
  exact World.hasEnv_addEnv.mpr (.inr ⟨hm.length_environments.symm, rfl⟩)

theorem simulates_pushRecursive {parent : EnvId} {env : Env} (name : String) (e : Expr)
    (hparent : w.HasEnv parent env) :
    Simulates 0 budget w World.HasEnv (Eval.pushRecursive parent name e)
      (pure (.recursive name e env)) := by
  intro m hm
  -- the suspension comes first, although its environment is the one that is pushed for it
  have hw := World.le_trans (w.le_addSuspension (e, .recursive name e env))
    (World.le_addEnv _ (.recursive name e env))
  refine .ok hw ((hm.pushRecursive name e hparent).congr rfl rfl) ?_ ?_ (derives_pure _)
  · exact marksFewer_allocate m e m.environments.size
  · exact World.hasEnv_addEnv.mpr (.inr ⟨hm.length_environments.symm, rfl⟩)

/-- Fields of data are suspended, from left to right. -/
theorem simulates_suspendAll {id : EnvId} {env : Env} (es : List Expr) (henv : w.HasEnv id env) :
    Simulates 0 budget w (fun w' => List.Forall₂ w'.HasSuspension) (Eval.suspendAll id es)
      (pure (es.map fun e => (e, env))) := by
  induction es generalizing w with
  | nil => exact simulates_pure .nil
  | cons e es ih =>
    refine (simulates_suspend e henv).bind_left fun w₁ t hw₁ ht => ?_
    refine (ih (hw₁.2 _ _ henv)).bind_left fun w₂ ts hw₂ hts => ?_
    exact simulates_pure (.cons (hw₂.1 _ _ ht) hts)

end Machine

/-! ### Demands -/

/-- The evaluator follows the plans for expressions. -/
def Evaluates (budget : Nat) (eval : Expr → EnvId → Eval CallByNeed.Value) : Prop :=
  ∀ w e id env, w.HasEnv id env →
    Simulates 1 budget w World.Reads (eval e id) (Plan.query (.eval e env))

/-- Demands for the values of suspensions follow the plans for them. -/
def Forces (budget : Nat) (force : ThunkId → Eval CallByNeed.Value) : Prop :=
  ∀ w t s, w.HasSuspension t s → Simulates 0 budget w World.Reads (force t) (Plan.demand s)

section Force

variable {eval : Expr → EnvId → Eval CallByNeed.Value} {m : Machine} {t : ThunkId} {e : Expr}
  {id : EnvId}

theorem get_apply {ε σ : Type} (s : σ) : (get : EStateM ε σ σ) s = .ok s s :=
  rfl

theorem force_of_evaluated {v : CallByNeed.Value} (h : m.cell t = .evaluated v) :
    Eval.force eval t m = .ok v { m with hits := m.hits + 1 } := by
  unfold Eval.force
  simp only [bind, EStateM.bind, get_apply, h]
  rfl

theorem force_of_forcing (h : m.cell t = .forcing e id) :
    Eval.force eval t m = .error (.infiniteLoop e.span) m := by
  unfold Eval.force
  simp only [bind, EStateM.bind, get_apply, h]
  rfl

theorem force_of_pending (h : m.cell t = .pending e id) :
    Eval.force eval t m =
      match eval e id (m.setCell t (.forcing e id)) with
      | .ok v m' => .ok v (m'.settle t v)
      | .error err m' => .error err (m'.setCell t (.pending e id)) := by
  unfold Eval.force
  simp only [bind, EStateM.bind, get_apply, h]
  rfl

/-- When a value has been recorded, the mark on its cell is gone. -/
theorem marksFewer_settle {m' : Machine} {v : CallByNeed.Value} (ht : t < m'.cells.size)
    (h : MarksFewer (m.setCell t (.forcing e id)) m') : MarksFewer m (m'.settle t v) := by
  intro u e' id' hu
  change (m'.setCell t (.evaluated v)).cell u = _ at hu
  by_cases hut : u = t
  · rw [hut, Machine.cell_setCell_self ht] at hu
    cases hu
  · rw [Machine.cell_setCell_of_ne hut] at hu
    have hu' := h u e' id' hu
    rwa [Machine.cell_setCell_of_ne hut] at hu'

/-- **A loop ends at the suspension that it comes back to.**  If a suspension gives up above each
height at which it gives up itself, along with the others, then it gives up wherever they do. -/
theorem stuck_of_loop {w : World} {s : Suspension} (hs : w.HasSuspension t s)
    (h : ∀ n, w.Stuck (m.setCell t (.forcing e id)) n → (Plan.demand s).run (n + 1) = none) :
    ∀ n, w.Stuck m n → (Plan.demand s).run n = none := by
  intro n
  induction n with
  | zero =>
    intro _
    exact Plan.run_query_zero _
  | succ n ih =>
    intro hn
    -- with the suspension itself, one level below, all that are marked are stuck
    have hself := ih hn.of_succ
    refine h n fun u e' id' s' hu hs' => ?_
    by_cases hut : u = t
    · rw [hut] at hs'
      obtain rfl : s = s' := Option.some.inj (hs.symm.trans hs')
      exact hself
    · rw [Machine.cell_setCell_of_ne hut] at hu
      exact hn.of_succ u e' id' s' hu hs'

/-- **A suspension is evaluated at most once, and what it yields is what evaluation by name
yields at every demand.** -/
theorem Evaluates.force {budget : Nat} (h : Evaluates budget eval) :
    Forces budget (Eval.force eval) := by
  intro w t s hs m hm
  have hholds := hm.holds t s hs
  cases hcell : m.cell t with
  | evaluated v =>
    rw [hcell] at hholds
    rw [force_of_evaluated hcell]
    cases hholds with
    | evaluated hread hder =>
      exact .ok w.le_refl (hm.congr rfl rfl) (fun _ _ _ ht => ht) hread hder
  | forcing e id =>
    -- the suspension is among those of which the relation assumes that they are stuck
    rw [force_of_forcing hcell]
    exact .loop fun n hn => hn t e id s hcell hs
  | pending e id =>
    rw [hcell] at hholds
    rw [force_of_pending hcell]
    cases hholds with
    | @pending _ env _ henv =>
      -- the evaluation runs with the cell marked
      have hmarked := h w e id env henv _ (hm.setCell hs (.forcing e henv))
      generalize eval e id (m.setCell t (.forcing e id)) = r at hmarked ⊢
      cases hmarked with
      | ok hw hm' hmarks hread hder =>
        have hs' := hw.1 _ _ hs
        exact .ok hw ((hm'.setCell hs' (.evaluated hread hder)).congr rfl rfl)
          (marksFewer_settle (hm'.lt_size hs') hmarks) hread hder
      | error he hder => exact .error he hder
      | limit he hrun => exact .limit he hrun
      | loop hrun => exact .loop (stuck_of_loop hs hrun)

end Force

end ByName

end CallByNeed

import CallByNeed.Proofs.Afresh.World
import CallByNeed.Proofs.ByName.Simulation

/-!
# Evaluation by need follows the plans of evaluation afresh

Started on a machine that is consistent with a world, an evaluation that follows a plan
(`Simulates`) comes to a result or an error that the plan yields, unless it is blocked: at a limit,
or at a suspension that is being evaluated already.  Then the plan gives up as well.  Below which
height it does so is said by the `budget` in the case of a limit; and if a loop is reported, it
gives up wherever all suspensions do that are being evaluated (`Blocks`).

The suspension that a loop comes back to is itself being evaluated.  When its evaluation is
complete, an induction on the height removes it from the condition (`Evaluates.forces`).
-/

namespace CallByNeed.Afresh

open ByName (MarksFewer marksFewer_allocate marksFewer_settle force_of_evaluated force_of_forcing
  force_of_pending)

variable {α β γ δ : Type}

/-! ### Suspensions that are being evaluated -/

/-- All suspensions that are being evaluated give up at the height. -/
def World.Stuck (w : World) (m : Machine) (n : Nat) : Prop :=
  ∀ t e id s, m.cell t = .forcing e id → w.HasSuspension t s → (demand s).run n = none

theorem World.Stuck.of_succ {w : World} {m : Machine} {n : Nat} (h : w.Stuck m (n + 1)) :
    w.Stuck m n :=
  fun t e id s ht hs => Plan.run_eq_none_of_le (Nat.le_succ n) (h t e id s ht hs)

theorem World.Stuck.mono {w w' : World} {m m' : Machine} {n : Nat} (h : w.Stuck m n)
    (hm : w.Consistent m) (hw : w ≤ w') (hmarks : MarksFewer m m') : w'.Stuck m' n := by
  intro t e id s ht hs
  have ht' := hmarks t e id ht
  -- a marked cell is one of the machine, so that it has a suspension
  have hlt : t < w.suspensions.length := by
    rw [hm.length_suspensions]
    by_contra hge
    simp [Machine.cell, hge] at ht'
  have hs' : w.HasSuspension t w.suspensions[t] := List.getElem?_eq_getElem hlt
  obtain rfl : w.suspensions[t] = s := Option.some.inj ((hw.1 t _ hs').symm.trans hs)
  exact h t e id _ ht' hs'

/-- The error, which ended an evaluation started on the machine, lets plans give up there. -/
def Blocks (e : EvalError) (budget : Nat) (w : World) (m : Machine) (n : Nat) : Prop :=
  if e.isLimit then n < budget else w.Stuck m n

theorem Blocks.imp {e : EvalError} {budget budget' n n' : Nat} {w w' : World} {m m' : Machine}
    (h : Blocks e budget w m n) (hlimit : n < budget → n' < budget')
    (hstuck : w.Stuck m n → w'.Stuck m' n') : Blocks e budget' w' m' n' := by
  unfold Blocks at h ⊢
  by_cases he : e.isLimit
  · rw [if_pos he] at h ⊢
    exact hlimit h
  · rw [if_neg he] at h ⊢
    exact hstuck h

/-! ### The relation -/

/-- The result of an evaluation agrees with a plan. -/
inductive Agrees (budget : Nat) (w : World) (m : Machine) (R : World → α → β → Prop)
    (y : Inquiry β) : EStateM.Result EvalError Machine α → Prop where
  | ok {w' : World} {m' : Machine} {a : α} {b : β} (hw : w ≤ w') (hm : w'.Consistent m')
    (hmarks : MarksFewer m m') (hab : R w' a b) (hy : y.Yields (.ok b)) :
    Agrees budget w m R y (.ok a m')
  | error {e : EvalError} {m' : Machine} (hy : y.Yields (.error e)) :
    Agrees budget w m R y (.error e m')
  | blocked {e : EvalError} {m' : Machine}
    (hy : ∀ n, Blocks e budget w m n → y.run n = none) : Agrees budget w m R y (.error e m')

/-- The evaluation follows the plan. -/
def Simulates (budget : Nat) (w : World) (R : World → α → β → Prop) (x : Eval α)
    (y : Inquiry β) : Prop :=
  ∀ m, w.Consistent m → Agrees budget w m R y (x m)

section Rules

variable {budget : Nat} {w : World} {R : World → α → β → Prop} {S : World → γ → δ → Prop}
  {x : Eval α} {y : Inquiry β}

theorem simulates_pure {a : α} {b : β} (h : R w a b) : Simulates budget w R (pure a) (pure b) :=
  fun _ hm => .ok w.le_refl hm (fun _ _ _ ht => ht) h (Plan.yields_pure b)

theorem simulates_throw (e : EvalError) : Simulates budget w R (throw e) (Plan.fail e) :=
  fun _ _ => .error (Plan.yields_fail e)

/-- A limit may be reached where the plan gives up. -/
theorem simulates_limit {e : EvalError} (he : e.isLimit)
    (hy : ∀ n, n < budget → y.run n = none) : Simulates budget w R (throw e) y := by
  refine fun m _ => .blocked fun n hn => hy n ?_
  rwa [Blocks, if_pos he] at hn

/-- With nothing left to spend any limit may be reached. -/
theorem simulates_limit_zero {e : EvalError} (he : e.isLimit) : Simulates 0 w R (throw e) y :=
  simulates_limit he fun n hn => absurd hn (Nat.not_lt_zero n)

/-- What an evaluation sees of the machine does not matter. -/
theorem simulates_get {f : Machine → Eval α} (h : ∀ m, w.Consistent m →
    Simulates budget w R (f m) y) : Simulates budget w R (get >>= f) y :=
  fun m hm => h m hm m hm

theorem Simulates.weaken {budget' : Nat} (h : Simulates budget w R x y)
    (hbudget : budget' ≤ budget) : Simulates budget' w R x y := by
  intro m hm
  have hxm := h m hm
  generalize x m = r at hxm ⊢
  cases hxm with
  | ok hw hm' hmarks hab hy => exact .ok hw hm' hmarks hab hy
  | error hy => exact .error hy
  | blocked hy =>
    exact .blocked fun n hn => hy n (hn.imp (Nat.lt_of_lt_of_le · hbudget) id)

/-- **Evaluations compose as plans do.** -/
theorem Simulates.bind {f : α → Eval γ} {g : β → Inquiry δ} (hx : Simulates budget w R x y)
    (hf : ∀ w' a b, w ≤ w' → R w' a b → Simulates budget w' S (f a) (g b)) :
    Simulates budget w S (x >>= f) (y >>= g) := by
  intro m hm
  have hxm := hx m hm
  change Agrees budget w m S (y >>= g) (EStateM.bind x f m)
  unfold EStateM.bind
  generalize x m = r at hxm ⊢
  cases hxm with
  | error hy => exact .error hy.bind_error
  | blocked hy => exact .blocked fun n hn => Plan.run_bind_eq_none g (hy n hn)
  | @ok w' m' a b hw hm' hmarks hab hy =>
    have hfm := hf w' a b hw hab m' hm'
    change Agrees budget w m S (y >>= g) (f a m')
    generalize f a m' = r at hfm ⊢
    cases hfm with
    | ok hw' hm'' hmarks' hcd hg =>
      refine .ok (World.le_trans hw hw') hm'' ?_ hcd (hy.bind hg)
      exact fun t e id ht => hmarks t e id (hmarks' t e id ht)
    | error hg => exact .error (hy.bind hg)
    | blocked hg =>
      -- no more suspensions are being evaluated after the first part than before
      exact .blocked fun n hn =>
        hy.run_bind_eq_none (hg n (hn.imp id fun hstuck => hstuck.mono hm hw hmarks))

/-- A step that only the machine makes comes before the plan. -/
theorem Simulates.bind_left {b : β} {f : α → Eval γ} {z : Inquiry δ}
    (hx : Simulates budget w R x (pure b))
    (hf : ∀ w' a, w ≤ w' → R w' a b → Simulates budget w' S (f a) z) :
    Simulates budget w S (x >>= f) z := by
  -- the plan has no other outcome, which is what the step has to be remembered by
  have hx' : Simulates budget w (fun w' a b' => R w' a b' ∧ b' = b) x (pure b) := by
    intro m hm
    have hxm := hx m hm
    generalize x m = r at hxm ⊢
    cases hxm with
    | ok hw hm' hmarks hab hy =>
      exact .ok hw hm' hmarks ⟨hab, Except.ok.inj (hy.unique (Plan.yields_pure b))⟩ hy
    | error hy => exact .error hy
    | blocked hy => exact .blocked hy
  refine hx'.bind (g := fun _ => z) ?_
  rintro w' a b' hw ⟨hab, rfl⟩
  exact hf w' a hw hab

/-- **A question takes one level more than its plan.** -/
theorem Simulates.query {question : Question β}
    (h : Simulates budget w R x (Rules.plan question)) :
    Simulates (budget + 1) w R x (Plan.query question) := by
  intro m hm
  have hxm := h m hm
  generalize x m = r at hxm ⊢
  cases hxm with
  | ok hw hm' hmarks hab hy => exact .ok hw hm' hmarks hab (Plan.yields_query.mpr hy)
  | error hy => exact .error (Plan.yields_query.mpr hy)
  | blocked hy =>
    refine .blocked fun n hn => ?_
    cases n with
    | zero => exact Plan.run_query_zero question
    | succ n =>
      rw [Plan.run_query_succ]
      exact hy n (hn.imp Nat.lt_of_succ_lt_succ World.Stuck.of_succ)

end Rules

/-! ### Steps of the machine -/

section Steps

variable {budget : Nat} {w : World} {id : EnvId} {env : Env}

theorem simulates_suspend (e : Expr) (henv : w.HasEnv id env) :
    Simulates budget w World.HasSuspension (Eval.suspend e id) (pure (.made e env)) := by
  intro m hm
  refine .ok (w.le_addSuspension (.made e env)) ((hm.allocate e henv).congr rfl rfl)
    (marksFewer_allocate m e id) ?_ (Plan.yields_pure _)
  exact World.hasSuspension_addSuspension.mpr (.inr ⟨hm.length_suspensions.symm, rfl⟩)

theorem simulates_pushFrame {bindings : Bindings ThunkId} {bindings' : Bindings Suspension}
    (hparent : w.HasEnv id env) (hbindings : w.ReadsBindings bindings bindings') :
    Simulates budget w World.HasEnv (Eval.pushFrame id bindings)
      (pure (.frame bindings' env)) := by
  intro m hm
  refine .ok (w.le_addEnv (.frame bindings' env)) (hm.pushFrame hparent hbindings)
    (fun _ _ _ ht => ht) ?_ (Plan.yields_pure _)
  exact World.hasEnv_addEnv.mpr (.inr ⟨hm.length_environments.symm, rfl⟩)

theorem simulates_pushRecursive (name : String) (e : Expr) (hparent : w.HasEnv id env) :
    Simulates budget w World.HasEnv (Eval.pushRecursive id name e)
      (pure (.recursive name e env)) := by
  intro m hm
  -- the suspension comes first, although its environment is the one that is pushed for it
  have hw := World.le_trans (w.le_addSuspension (.made e (.recursive name e env)))
    (World.le_addEnv _ (.recursive name e env))
  refine .ok hw ((hm.pushRecursive name e hparent).congr rfl rfl) ?_ ?_ (Plan.yields_pure _)
  · exact marksFewer_allocate m e m.environments.size
  · exact World.hasEnv_addEnv.mpr (.inr ⟨hm.length_environments.symm, rfl⟩)

/-- Fields of data are suspended, from left to right. -/
theorem simulates_suspendAll (es : List Expr) (henv : w.HasEnv id env) :
    Simulates budget w (fun w' => List.Forall₂ w'.HasSuspension) (Eval.suspendAll id es)
      (pure (es.map fun e => .made e env)) := by
  induction es generalizing w with
  | nil => exact simulates_pure .nil
  | cons e es ih =>
    refine (simulates_suspend e henv).bind_left fun w₁ t hw₁ ht => ?_
    refine (ih (hw₁.2 _ _ henv)).bind_left fun w₂ ts hw₂ hts => ?_
    exact simulates_pure (.cons (hw₂.1 _ _ ht) hts)

end Steps

/-! ### Demands -/

/-- The evaluator follows the plans for expressions. -/
def Evaluates (budget : Nat) (eval : Expr → EnvId → Eval CallByNeed.Value) : Prop :=
  ∀ w e id env, w.HasEnv id env →
    Simulates budget w World.Reads (eval e id) (Rules.plan (.eval e env))

/-- Demands for the values of suspensions follow the plans for them. -/
def Forces (budget : Nat) (force : ThunkId → Eval CallByNeed.Value) : Prop :=
  ∀ w t s, w.HasSuspension t s → Simulates budget w World.Reads (force t) (demand s)

section Force

variable {budget : Nat} {eval : Expr → EnvId → Eval CallByNeed.Value} {m : Machine} {t : ThunkId}
  {e : Expr} {id : EnvId}

theorem Forces.weaken {budget' : Nat} {force : ThunkId → Eval CallByNeed.Value}
    (h : Forces budget force) (hle : budget' ≤ budget) : Forces budget' force :=
  fun w t s hs => (h w t s hs).weaken hle

/-- **A loop ends at the suspension that it comes back to.**  If the plan of a suspension gives up
wherever the suspension gives up itself, along with the others, it gives up wherever they do. -/
theorem run_eq_none_of_loop {w : World} {s : Suspension} {q : Question Value}
    (hs : w.HasSuspension t s) (hq : demand s = Plan.query q)
    (h : ∀ n, w.Stuck (m.setCell t (.forcing e id)) n → (Rules.plan q).run n = none) :
    ∀ n, w.Stuck m n → (demand s).run n = none := by
  intro n
  rw [hq]
  induction n with
  | zero => exact fun _ => Plan.run_query_zero q
  | succ n ih =>
    intro hn
    rw [Plan.run_query_succ]
    -- with the suspension itself, one level below, all that are marked are stuck
    refine h n fun u e' id' s' hu hs' => ?_
    by_cases hut : u = t
    · rw [hut] at hs'
      obtain rfl : s = s' := Option.some.inj (hs.symm.trans hs')
      rw [hq]
      exact ih hn.of_succ
    · rw [Machine.cell_setCell_of_ne hut] at hu
      exact hn.of_succ u e' id' s' hu hs'

/-- **A suspension is evaluated at most once, and what it yields is what evaluation afresh yields
at every demand.** -/
theorem Evaluates.forces (h : Evaluates budget eval) : Forces (budget + 1) (Eval.force eval) := by
  intro w t s hs m hm
  have hholds := hm.holds t s hs
  cases hcell : m.cell t with
  | evaluated v =>
    rw [hcell] at hholds
    rw [force_of_evaluated hcell]
    cases hholds with
    | evaluated hread hy => exact .ok w.le_refl (hm.congr rfl rfl) (fun _ _ _ ht => ht) hread hy
  | forcing e id =>
    -- the suspension is among those that are being evaluated
    rw [force_of_forcing hcell]
    exact .blocked fun n hn => hn t e id s hcell hs
  | pending e id =>
    rw [hcell] at hholds
    rw [force_of_pending hcell]
    cases hholds with
    | @pending _ env _ _ henv hdemand =>
      -- the evaluation runs with the cell marked
      have hmarked := h w e id env henv _ (hm.setCell hs (.forcing e id s))
      generalize eval e id (m.setCell t (.forcing e id)) = r at hmarked ⊢
      cases hmarked with
      | ok hw hm' hmarks hread hy =>
        have hs' := hw.1 _ _ hs
        have hyields : (demand s).Yields (.ok _) := hdemand ▸ Plan.yields_query.mpr hy
        exact .ok hw ((hm'.setCell hs' (.evaluated hread hyields)).congr rfl rfl)
          (marksFewer_settle (hm'.lt_size hs') hmarks) hread hyields
      | error hy => exact .error (hdemand ▸ Plan.yields_query.mpr hy)
      | @blocked err _ hy =>
        refine .blocked fun n hn => ?_
        unfold Blocks at hy hn
        by_cases he : err.isLimit
        · simp only [if_pos he] at hy hn
          rw [hdemand]
          cases n with
          | zero => exact Plan.run_query_zero _
          | succ n =>
            rw [Plan.run_query_succ]
            exact hy n (Nat.lt_of_succ_lt_succ hn)
        · simp only [if_neg he] at hy hn
          exact run_eq_none_of_loop hs hdemand hy n hn

end Force

end CallByNeed.Afresh

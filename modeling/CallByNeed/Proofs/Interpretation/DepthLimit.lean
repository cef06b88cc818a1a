import CallByNeed.Program
import CallByNeed.Proofs.Interpretation.Scheme

/-!
# The limit on the nesting

The limit on the nesting of evaluations is only ever compared with the nesting, and the error that
it raises is never caught.  A run under a smaller limit is therefore the run under the larger one,
cut off where the nesting is used up (`CutsOff`): it fails for that reason, or it does the very same
as the other run, with the same result, on the same machine and with the same work.
-/

namespace CallByNeed

namespace Eval

variable {α β : Type}

/-- Whatever machine it starts on, `x` runs into the limit on the nesting or does the same as
`y`. -/
def CutsOff (x y : Eval α) : Prop :=
  ∀ m, (∃ limit span m', x m = .error (.recursionLimit limit span) m') ∨ y m = x m

theorem CutsOff.refl (x : Eval α) : CutsOff x x :=
  fun _ => .inr rfl

theorem cutsOff_limitReached (config : Config) (span : Span) (y : Eval α) :
    CutsOff (limitReached config span) y :=
  fun m => .inl ⟨config.maxDepth, span, m, rfl⟩

/-- **A sequence is cut off in its first part or in its second.** -/
theorem CutsOff.bind {x y : Eval α} {f g : α → Eval β} (h : CutsOff x y)
    (hf : ∀ a, CutsOff (f a) (g a)) : CutsOff (x >>= f) (y >>= g) := by
  intro m
  change (∃ limit span m', EStateM.bind x f m = .error (.recursionLimit limit span) m') ∨
    EStateM.bind y g m = EStateM.bind x f m
  unfold EStateM.bind
  rcases h m with ⟨limit, span, m', hx⟩ | heq
  · rw [hx]
    exact .inl ⟨limit, span, m', rfl⟩
  · rw [heq]
    rcases x m with ⟨a, m'⟩ | ⟨e, m'⟩
    · exact hf a m'
    · exact .inr rfl

/-- Cutting off is a correspondence of evaluations. -/
def cutOff : Correspondence Eval where
  Related := CutsOff
  pure a := .refl (pure a)
  bind := CutsOff.bind
  basic _ := .refl _

/-- **A demand is cut off where the evaluation of its suspension is.** -/
theorem CutsOff.force {eval eval' : Expr → EnvId → Eval Value}
    (h : ∀ e env, CutsOff (eval e env) (eval' e env)) (t : ThunkId) :
    CutsOff (force eval t) (force eval' t) := by
  intro m
  cases hcell : m.cell t with
  | evaluated v =>
    rw [ByName.force_of_evaluated hcell, ByName.force_of_evaluated hcell]
    exact .inr rfl
  | forcing e env =>
    rw [ByName.force_of_forcing hcell, ByName.force_of_forcing hcell]
    exact .inr rfl
  | pending e env =>
    rw [ByName.force_of_pending hcell, ByName.force_of_pending hcell]
    -- the evaluation that is cut off leaves the cell pending, and the error is the same
    rcases h e env (m.setCell t (.forcing e env)) with ⟨limit, span, m', hx⟩ | heq
    · rw [hx]
      exact .inl ⟨limit, span, _, rfl⟩
    · rw [heq]
      exact .inr rfl

/-! ### The evaluator under two limits -/

section Limits

variable (config : Config) (d : Nat)

/-- A comparison does not look at the limit on the nesting. -/
theorem compareWith_setMaxDepth (force : ThunkId → Eval Value)
    (nested : Value → Value → Eval Bool) (span : Span) (room : Nat) :
    compareWith { config with maxDepth := d } force nested span room =
      compareWith config force nested span room := by
  induction room with
  | zero => rfl
  | succ room ih =>
    funext x y
    unfold compareWith
    rw [ih]

/-- Comparisons are cut off where evaluations and comparisons of elements are. -/
theorem cutsOff_compareWith {eval eval' : Expr → EnvId → Eval Value}
    {nested nested' : Value → Value → Eval Bool}
    (heval : ∀ e env, CutsOff (eval e env) (eval' e env))
    (hnested : ∀ v w, CutsOff (nested v w) (nested' v w)) (span : Span) (room : Nat)
    (x y : Value) :
    CutsOff (compareWith config (force eval) nested span room x y)
      (compareWith { config with maxDepth := d } (force eval') nested' span room x y) := by
  rw [compareWith_setMaxDepth config d (force eval'), ← Scheme.compareWith_eq]
  exact cutOff.compareWith config (CutsOff.force heval) hnested span room x y

/-- **An evaluation with fewer levels left is cut off.** -/
theorem cutsOff_eval (n : Nat) : ∀ n', n ≤ n' →
    (∀ e env, CutsOff (eval config n e env) (eval { config with maxDepth := d } n' e env)) ∧
      ∀ span x y,
        CutsOff (equal config n span x y) (equal { config with maxDepth := d } n' span x y) := by
  induction n with
  | zero =>
    intro n' _
    -- with no level left the smaller run is cut off at once, whatever the larger one does
    have heval (e : Expr) (env : EnvId) :
        CutsOff (eval config 0 e env) (eval { config with maxDepth := d } n' e env) := by
      rw [eval_zero]
      exact cutsOff_limitReached config e.span _
    refine ⟨heval, fun span x y => ?_⟩
    rw [equal_zero]
    cases n' with
    | zero =>
      rw [equal_zero]
      exact cutsOff_compareWith config d heval
        (fun _ _ => cutsOff_limitReached config span _) span _ x y
    | succ n' =>
      rw [equal_succ]
      exact cutsOff_compareWith config d heval
        (fun _ _ => cutsOff_limitReached config span _) span _ x y
  | succ n ih =>
    intro n' hn
    -- a larger run has at least one level left, so that the steps can be compared
    obtain ⟨k, rfl⟩ := Nat.exists_eq_add_one_of_ne_zero (Nat.ne_of_gt (Nat.zero_lt_of_lt hn))
    obtain ⟨heval, hequal⟩ := ih k (Nat.le_of_succ_le_succ hn)
    have heval' (e : Expr) (env : EnvId) : CutsOff (eval config (n + 1) e env)
        (eval { config with maxDepth := d } (k + 1) e env) := by
      rw [eval_succ, eval_succ, ← Scheme.step_eq (eval config n)]
      exact cutOff.step (CutsOff.force heval) heval hequal e env
    refine ⟨heval', fun span x y => ?_⟩
    rw [equal_succ, equal_succ]
    exact cutsOff_compareWith config d heval' (hequal span) span _ x y

/-- **Printing with fewer levels left is cut off.** -/
theorem cutsOff_renderAt (n : Nat) : ∀ n', n ≤ n' → ∀ v,
    CutsOff (renderAt config n v) (renderAt { config with maxDepth := d } n' v) := by
  have hwith {k k' : Nat} (hk : k ≤ k') {nested nested' : Value → Eval String}
      (hnested : ∀ v, CutsOff (nested v) (nested' v)) (v : Value) :
      CutsOff (renderWith config (force (eval config k)) nested v)
        (renderWith { config with maxDepth := d }
          (force (eval { config with maxDepth := d } k')) nested' v) := by
    rw [← Scheme.renderWith_eq]
    exact cutOff.renderWith config (CutsOff.force (cutsOff_eval config d k k' hk).1) hnested v
  induction n with
  | zero =>
    intro n' hn v
    -- with no level left the parts of the value cannot be printed
    have hnested (nested' : Value → Eval String) (v : Value) :
        CutsOff (limitReached config .unknown) (nested' v) :=
      cutsOff_limitReached config .unknown _
    cases n' with
    | zero => exact hwith hn (hnested _) v
    | succ n' => exact hwith hn (hnested _) v
  | succ n ih =>
    intro n' hn v
    obtain ⟨k, rfl⟩ := Nat.exists_eq_add_one_of_ne_zero (Nat.ne_of_gt (Nat.zero_lt_of_lt hn))
    exact hwith hn (ih k (Nat.le_of_succ_le_succ hn)) v

end Limits

end Eval

/-! ### Whole programs -/

namespace Expr

/-- The work done for the text of an expression's value, whether or not it is found. -/
def valueStats (config : Config) (e : Expr) : Stats :=
  let run : Eval String := do Eval.render config (← Eval.evaluate config e)
  match run Machine.initial with
  | .ok _ m => m.stats
  | .error _ m => m.stats

/-- **A program under a smaller limit is cut off.** -/
theorem cutsOff_program (config : Config) (e : Expr) {d d' : Nat} (hd : d ≤ d') :
    Eval.CutsOff
      (do
        let v ← Eval.evaluate { config with maxDepth := d } e
        Eval.render { config with maxDepth := d } v)
      (do
        let v ← Eval.evaluate { config with maxDepth := d' } e
        Eval.render { config with maxDepth := d' } v) := by
  have heval := (Eval.cutsOff_eval { config with maxDepth := d } d' d d' hd).1
  have hrender := Eval.cutsOff_renderAt { config with maxDepth := d } d' d d' hd
  exact (heval e Environments.root).bind hrender

/-- **The limit on the nesting cuts a run off and never changes it.**  If a run under the limit `d`
ends with a text or with an error other than that the limit was reached, then every run under a
larger limit ends with the same text or the same error, and with the same work done. -/
theorem valueText_of_le_maxDepth (config : Config) (e : Expr) {d d' : Nat} (hd : d ≤ d')
    (h : ∀ limit span,
      e.valueText { config with maxDepth := d } ≠ .error (.recursionLimit limit span)) :
    e.valueText { config with maxDepth := d' } = e.valueText { config with maxDepth := d } ∧
      e.valueStats { config with maxDepth := d' } =
        e.valueStats { config with maxDepth := d } := by
  rcases cutsOff_program config e hd Machine.initial with ⟨limit, span, m, herror⟩ | heq
  · refine absurd ?_ (h limit span)
    unfold valueText
    simp only
    rw [herror]
  · unfold valueText valueStats
    simp only
    rw [heq]
    exact ⟨rfl, rfl⟩

/-- A list that is walked twice, and a sum that overflows, under the limits `8` and `2000`. -/
theorem valueText_of_le_maxDepth_list_overflow :
    let list : Expr := .bind .unknown (.bind .unknown "xs")
      (.cons .unknown (.integer .unknown 1) (.cons .unknown (.integer .unknown 2) (.nil .unknown)))
      (.tuple .unknown [.identifier .unknown "xs",
        .binary .unknown .eq (.identifier .unknown "xs") (.identifier .unknown "xs")])
    let sum : Expr := .binary .unknown .add (.integer .unknown 9223372036854775807)
      (.integer .unknown 1)
    (list.valueText { maxDepth := 2000 } = .ok "([1, 2], true)" ∧
        list.valueStats { maxDepth := 2000 } = list.valueStats { maxDepth := 8 }) ∧
      sum.valueText { maxDepth := 2000 } = .error (.overflow .unknown) ∧
        sum.valueStats { maxDepth := 2000 } = sum.valueStats { maxDepth := 8 } := by
  intro list sum
  have hlist : list.valueText { maxDepth := 8 } = .ok "([1, 2], true)" := by decide +kernel
  have hsum : sum.valueText { maxDepth := 8 } = .error (.overflow .unknown) := by decide +kernel
  have hle : 8 ≤ 2000 := by decide
  have h := valueText_of_le_maxDepth {} list hle
    (by rw [hlist]; intro _ _ h; cases h)
  have h' := valueText_of_le_maxDepth {} sum hle
    (by rw [hsum]; intro _ _ h; cases h)
  exact ⟨⟨h.1.trans hlist, h.2⟩, h'.1.trans hsum, h'.2⟩

end Expr

end CallByNeed

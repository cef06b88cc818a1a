import CallByNeed.Program
import CallByNeed.Proofs.ByName.Evaluation

/-!
# Evaluation by need agrees with evaluation by name

Printing follows its rules by name as evaluation does, so a whole program follows its plan
(`simulates_program`).  The outcomes of the two therefore agree (`Expr.valueText_agrees_byName`): a
text or an error of the program is what evaluation by name derives if and only if evaluation by need
comes to it under all large limits, and a program that is found to loop has no outcome by name.
-/

namespace CallByNeed.ByName

/-! ### Printing -/

/-- The text of a value follows the plan for it. -/
def Renders (budget limit : Nat) (render : CallByNeed.Value → Eval String) : Prop :=
  ∀ w v v', w.Reads v v' →
    Simulates 0 budget w (fun _ => Eq) (render v) (Plan.query (.render limit v'))

/-- The heads of cells and the value behind them are read by name. -/
def World.ReadsSpine (w : World) (r : List ThunkId × CallByNeed.Value)
    (r' : List Suspension × Value) : Prop :=
  List.Forall₂ w.HasSuspension r.1 r'.1 ∧ w.Reads r.2 r'.2

section Render

variable {budget limit : Nat} {w : World} {force : ThunkId → Eval CallByNeed.Value}
  {nested : CallByNeed.Value → Eval String}

/-- The value of a suspension is found and printed. -/
theorem simulates_renderElement (hforce : Forces budget force)
    (hnested : Renders budget limit nested) {w : World} {t : ThunkId} {s : Suspension}
    (hs : w.HasSuspension t s) :
    Simulates 0 budget w (fun _ => Eq) (do nested (← force t)) (Plan.renderElement limit s) :=
  (hforce w t s hs).bind fun w₁ v v' _ hv => hnested w₁ v v' hv

theorem simulates_commaSeparated (hforce : Forces budget force)
    (hnested : Renders budget limit nested) {ts : List ThunkId} {ss : List Suspension}
    (hts : List.Forall₂ w.HasSuspension ts ss) :
    Simulates 0 budget w (fun _ => Eq)
      (Eval.commaSeparated (fun t => do nested (← force t)) ts)
      (Plan.commaSeparated limit ss) := by
  induction ts generalizing w ss with
  | nil =>
    cases hts
    exact simulates_pure rfl
  | cons t ts ih =>
    cases hts with
    | cons hs hts =>
      -- no comma follows the last text, so that the last element is a case of its own
      cases hts with
      | nil => exact simulates_renderElement hforce hnested hs
      | cons hs' hts =>
        refine (simulates_renderElement hforce hnested hs).bind ?_
        rintro w₁ first _ hw₁ rfl
        refine (ih (.cons (hw₁.1 _ _ hs') (hts.imp hw₁.1))).bind ?_
        rintro w₂ rest _ hw₂ rfl
        exact simulates_pure rfl

theorem simulates_colonTerminated (hforce : Forces budget force)
    (hnested : Renders budget limit nested) {ts : List ThunkId} {ss : List Suspension}
    (hts : List.Forall₂ w.HasSuspension ts ss) :
    Simulates 0 budget w (fun _ => Eq)
      (Eval.colonTerminated (fun t => do nested (← force t)) ts)
      (Plan.colonTerminated limit ss) := by
  induction ts generalizing w ss with
  | nil =>
    cases hts
    exact simulates_pure rfl
  | cons t ts ih =>
    cases hts with
    | cons hs hts =>
      refine (simulates_renderElement hforce hnested hs).bind ?_
      rintro w₁ first _ hw₁ rfl
      refine (ih (hts.imp hw₁.1)).bind ?_
      rintro w₂ rest _ hw₂ rfl
      exact simulates_pure rfl

/-- Both values are list cells, or neither is. -/
theorem World.Reads.cons_or {v : CallByNeed.Value} {v' : Value} (hv : w.Reads v v') :
    (∃ t u s r, v = .cons t u ∧ v' = .cons s r ∧ w.HasSuspension t s ∧ w.HasSuspension u r) ∨
      (∀ t u, v ≠ .cons t u) ∧ ∀ s r, v' ≠ .cons s r := by
  cases hv with
  | cons hs hr => exact .inl ⟨_, _, _, _, rfl, rfl, hs, hr⟩
  | _ => exact .inr ⟨by simp, by simp⟩

theorem spine_of_ne_cons {v : CallByNeed.Value} (hv : ∀ t u, v ≠ .cons t u) (room : Nat) :
    Eval.spine force room v = pure ([], v) := by
  cases room with
  | zero => rfl
  | succ room =>
    cases v with
    | cons t u => exact absurd rfl (hv t u)
    | _ => rfl

theorem cells_of_ne_cons {v : Value} (hv : ∀ s r, v ≠ .cons s r) (room : Option Nat) :
    Plan.cells room v = pure ([], v) := by
  rcases room with _ | _ | room <;> cases v with
  | cons s r => first | rfl | exact absurd rfl (hv s r)
  | _ => rfl

/-- **A walk of bounded length follows its rule.** -/
theorem simulates_spine (hforce : Forces budget force) (room : Nat) :
    ∀ {w : World} {v : CallByNeed.Value} {v' : Value}, w.Reads v v' →
      Simulates 0 budget w World.ReadsSpine (Eval.spine force room v)
        (Plan.query (.spine (some room) v')) := by
  induction room with
  | zero =>
    intro w v v' hv
    have hplan : Simulates 0 budget w World.ReadsSpine (Eval.spine force 0 v)
        (Question.spine (some 0) v').plan := simulates_pure ⟨.nil, hv⟩
    exact (simulates_query hplan).weaken (Nat.zero_le 1) (Nat.le_succ budget)
  | succ room ih =>
    intro w v v' hv
    suffices hplan : Simulates 0 budget w World.ReadsSpine (Eval.spine force (room + 1) v)
        (Question.spine (some (room + 1)) v').plan from
      (simulates_query hplan).weaken (Nat.zero_le 1) (Nat.le_succ budget)
    -- the walk goes on at a cell and ends at every other value
    rcases hv.cons_or with ⟨t, u, s, r, rfl, rfl, hs, hr⟩ | ⟨hne, hne'⟩
    · refine (hforce w u r hr).bind fun w₁ next next' hw₁ hnext => ?_
      refine (ih hnext).bind fun w₂ rest rest' hw₂ hrest => ?_
      exact simulates_pure ⟨.cons (hw₂.1 _ _ (hw₁.1 _ _ hs)) hrest.1, hrest.2⟩
    · rw [spine_of_ne_cons hne, Question.plan, cells_of_ne_cons hne']
      exact simulates_pure ⟨.nil, hv⟩

/-- A walk along all cells, which fails if there are more than `room`. -/
def wholeSpine (config : Config) (force : ThunkId → Eval CallByNeed.Value) (room : Nat)
    (v : CallByNeed.Value) : Eval (List ThunkId × CallByNeed.Value) := do
  let r ← Eval.spine force room v
  match r.2 with
  | .cons .. => throw (.spineLimit config.spineLimit .unknown)
  | _ => return r

/-- A walk ends at once where there is no cell. -/
theorem simulates_wholeSpine_end {config : Config} {room : Nat} {v : CallByNeed.Value}
    {v' : Value} (hne : ∀ t u, v ≠ .cons t u) (hne' : ∀ s r, v' ≠ .cons s r)
    (hv : w.Reads v v') :
    Simulates 0 budget w (fun w' r r' => w'.ReadsSpine r r' ∧ ∀ t u, r.2 ≠ .cons t u)
      (wholeSpine config force room v) (Plan.query (.spine none v')) := by
  have hend : wholeSpine config force room v = pure ([], v) := by
    unfold wholeSpine
    rw [spine_of_ne_cons hne, pure_bind]
    cases v with
    | cons t u => exact absurd rfl (hne t u)
    | _ => rfl
  have hplan : Simulates 0 budget w
      (fun w' r r' => w'.ReadsSpine r r' ∧ ∀ t u, r.2 ≠ .cons t u)
      (wholeSpine config force room v) (Question.spine none v').plan := by
    rw [hend, Question.plan, cells_of_ne_cons hne']
    exact simulates_pure ⟨⟨.nil, hv⟩, hne⟩
  exact (simulates_query hplan).weaken (Nat.zero_le 1) (Nat.le_succ budget)

theorem wholeSpine_cons (config : Config) (room : Nat) (t u : ThunkId) :
    wholeSpine config force (room + 1) (.cons t u) = do
      let r ← wholeSpine config force room (← force u)
      return (t :: r.1, r.2) := by
  unfold wholeSpine
  rw [Eval.spine]
  simp only [bind_assoc, pure_bind]
  congr 1
  funext next
  congr 1
  funext r
  obtain ⟨heads, last⟩ := r
  cases last <;> rfl

/-- A chain of cells prints its elements, and then what it ends in. -/
theorem simulates_chain (hforce : Forces budget force) (hnested : Renders budget limit nested)
    {ts : List ThunkId} {ss : List Suspension} {v : CallByNeed.Value} {v' : Value}
    (hts : List.Forall₂ w.HasSuspension ts ss) (hv : w.Reads v v') :
    Simulates 0 budget w (fun _ => Eq)
      (do
        let shown ← Eval.colonTerminated (fun t => do nested (← force t)) ts
        Eval.countHit
        return shown ++ (← nested v))
      (do
        let shown ← Plan.colonTerminated limit ss
        return shown ++ (← Plan.query (.render limit v'))) := by
  refine (simulates_colonTerminated hforce hnested hts).bind ?_
  rintro w₁ shown _ hw₁ rfl
  refine simulates_countHit.bind_left fun w₂ _ hw₂ _ => ?_
  refine (hnested w₂ v v' (hv.mono (World.le_trans hw₁ hw₂))).bind ?_
  rintro w₃ last _ hw₃ rfl
  exact simulates_pure rfl

/-- A walk that fails at more than `room` cells does so before anything else. -/
theorem spine_bind_eq_wholeSpine_bind {α : Type} (config : Config) (room : Nat)
    (v : CallByNeed.Value) (k : List ThunkId × CallByNeed.Value → Eval α)
    (hk : ∀ heads t u, k (heads, .cons t u) = throw (.spineLimit config.spineLimit .unknown)) :
    Eval.spine force room v >>= k = wholeSpine config force room v >>= k := by
  unfold wholeSpine
  rw [bind_assoc]
  congr 1
  funext r
  obtain ⟨heads, last⟩ := r
  cases last with
  | cons t u => exact hk heads t u
  | _ => rfl

/-- **A walk along all cells follows its rule.**  If it gives up, so does the plan at a height that
is not greater than the number of cells walked. -/
theorem simulates_wholeSpine (config : Config) (hforce : Forces budget force) (room : Nat) :
    ∀ {budget' : Nat} {w : World} {v : CallByNeed.Value} {v' : Value}, budget' ≤ room →
      budget' ≤ budget + 1 → w.Reads v v' →
      Simulates 0 budget' w (fun w' r r' => w'.ReadsSpine r r' ∧ ∀ t u, r.2 ≠ .cons t u)
        (wholeSpine config force room v) (Plan.query (.spine none v')) := by
  induction room with
  | zero =>
    intro budget' w v v' hroom hbudget hv
    obtain rfl : budget' = 0 := Nat.le_zero.mp hroom
    -- with no turn left a cell is too many, and at height zero no question is answered
    rcases hv.cons_or with ⟨t, u, s, r, rfl, rfl, hs, hr⟩ | ⟨hne, hne'⟩
    · exact simulates_limit rfl (Plan.run_query_zero _)
    · exact simulates_wholeSpine_end hne hne' hv
  | succ room ih =>
    intro budget' w v v' hroom hbudget hv
    -- as for a bounded walk, but a cell costs the plan one level of its height
    rcases hv.cons_or with ⟨t, u, s, r, rfl, rfl, hs, hr⟩ | ⟨hne, hne'⟩
    · suffices hplan : Simulates 0 (budget' - 1) w
          (fun w' r r' => w'.ReadsSpine r r' ∧ ∀ t u, r.2 ≠ .cons t u)
          (wholeSpine config force (room + 1) (.cons t u))
          (Question.spine none (.cons s r)).plan from
        (simulates_query hplan).weaken (Nat.zero_le 1) (by omega)
      rw [wholeSpine_cons]
      have hforce' : Forces (budget' - 1) force := hforce.weaken (by omega)
      refine (hforce' w u r hr).bind fun w₁ next next' hw₁ hnext => ?_
      refine (ih (by omega) (by omega) hnext).bind fun w₂ rest rest' hw₂ hrest => ?_
      exact simulates_pure
        ⟨⟨.cons (hw₂.1 _ _ (hw₁.1 _ _ hs)) hrest.1.1, hrest.1.2⟩, hrest.2⟩
    · exact simulates_wholeSpine_end hne hne' hv

/-- The cells that are printed are found by a walk with or without a bound.  In the second case the
walk gives up at a cell behind them. -/
theorem simulates_spine_bind {config : Config} (hbudget : budget ≤ config.spineLimit)
    (hforce : Forces budget force) {v : CallByNeed.Value} {v' : Value} (hv : w.Reads v v')
    {k : List ThunkId × CallByNeed.Value → Eval String}
    {k' : List Suspension × Value → Plan String}
    (hk : config.renderLimit = 0 → ∀ heads t u,
      k (heads, .cons t u) = throw (.spineLimit config.spineLimit .unknown))
    (hbind : ∀ w' r r', w ≤ w' → w'.ReadsSpine r r' →
      (config.renderLimit = 0 → ∀ t u, r.2 ≠ .cons t u) →
      Simulates 0 budget w' (fun _ => Eq) (k r) (k' r')) :
    Simulates 0 budget w (fun _ => Eq)
      (Eval.spine force
        (if config.renderLimit = 0 then config.spineLimit else config.renderLimit - 1) v >>= k)
      (Plan.query (.spine
        (if config.renderLimit = 0 then none else some (config.renderLimit - 1)) v') >>= k') := by
  -- without a render limit the walk is bounded by the spine limit, which the plan does not have
  by_cases hlimit : config.renderLimit = 0
  · rw [if_pos hlimit, if_pos hlimit, spine_bind_eq_wholeSpine_bind config _ _ _ (hk hlimit)]
    refine (simulates_wholeSpine config hforce _ hbudget (Nat.le_succ budget) hv).bind ?_
    rintro w' r r' hw ⟨hr, hne⟩
    exact hbind w' r r' hw hr fun _ => hne
  · rw [if_neg hlimit, if_neg hlimit]
    refine (simulates_spine hforce _ hv).bind fun w' r r' hw hr => ?_
    exact hbind w' r r' hw hr fun h => absurd h hlimit

/-- **Printing a value follows its rule.** -/
theorem simulates_renderWith {config : Config} (hbudget : budget ≤ config.spineLimit)
    (hforce : Forces budget force) (hnested : Renders budget config.renderLimit nested)
    {v : CallByNeed.Value} {v' : Value} (hv : w.Reads v v') :
    Simulates 0 budget w (fun _ => Eq) (Eval.renderWith config force nested v)
      (Plan.text config.renderLimit v') := by
  cases hv with
  | integer n => exact simulates_pure rfl
  | boolean b => exact simulates_pure rfl
  | closure param body henv => exact simulates_pure rfl
  | nil => exact simulates_pure rfl
  | @tuple ts ss hts =>
    rw [Eval.renderWith, Eval.renderTuple, Plan.text, hts.length_eq]
    refine (simulates_commaSeparated hforce hnested (List.forall₂_take _ hts)).bind ?_
    rintro w₁ shown _ hw₁ rfl
    exact simulates_pure rfl
  | cons hhead htail =>
    rw [Eval.renderWith, Plan.text]
    refine (hforce w _ _ htail).bind fun w₁ next next' hw₁ hnext => ?_
    refine simulates_spine_bind hbudget hforce hnext ?_ ?_
    · intro hlimit heads t u
      exact if_pos hlimit
    · rintro w₂ ⟨heads, last⟩ ⟨heads', last'⟩ hw₂ ⟨hheads, hlast⟩ hcons
      have helems := List.Forall₂.cons (hw₂.1 _ _ (hw₁.1 _ _ hhead)) hheads
      have hchain := simulates_chain hforce hnested helems hlast
      cases hlast with
      | nil =>
        refine (simulates_commaSeparated hforce hnested helems).bind ?_
        rintro w₃ shown _ hw₃ rfl
        exact simulates_pure rfl
      | @cons t u s r hs hr =>
        -- more cells than are printed: only a walk with a bound stops in front of one
        have hlimit : config.renderLimit ≠ 0 := fun h => hcons h t u rfl
        simp only
        rw [if_neg hlimit]
        refine (simulates_commaSeparated hforce hnested helems).bind ?_
        rintro w₃ shown _ hw₃ rfl
        exact simulates_pure rfl
      | _ => exact hchain

/-- **The printer follows the plans of evaluation by name.** -/
theorem renders_renderAt (config : Config) (depth : Nat) :
    Renders (min depth config.spineLimit) config.renderLimit (Eval.renderAt config depth) := by
  induction depth with
  | zero =>
    intro w v v' hv
    -- values are demanded one level above the one at which their parts are printed
    have hforce : Forces 0 (Eval.force (Eval.eval config 0)) :=
      (evaluates_eval config 0).1.force.weaken (Nat.zero_le _)
    have hnested : Renders 0 config.renderLimit fun _ => Eval.limitReached config .unknown :=
      fun _ _ _ _ => simulates_limit rfl (Plan.run_query_zero _)
    have hplan : Simulates 0 0 w (fun _ => Eq) (Eval.renderAt config 0 v)
        (Question.render config.renderLimit v').plan :=
      simulates_renderWith (Nat.zero_le _) hforce hnested hv
    exact (simulates_query hplan).weaken (Nat.zero_le 1) (by omega)
  | succ depth ih =>
    intro w v v' hv
    have hforce : Forces (min depth config.spineLimit)
        (Eval.force (Eval.eval config (depth + 1))) :=
      (evaluates_eval config (depth + 1)).1.force.weaken (by omega)
    have hplan : Simulates 0 (min depth config.spineLimit) w (fun _ => Eq)
        (Eval.renderAt config (depth + 1) v) (Question.render config.renderLimit v').plan :=
      simulates_renderWith (Nat.min_le_right _ _) hforce ih hv
    exact (simulates_query hplan).weaken (Nat.zero_le 1) (by omega)

end Render

/-! ### Whole programs -/

/-- The root alone. -/
def World.initial : World :=
  ⟨[], [.root]⟩

theorem World.consistent_initial : World.initial.Consistent Machine.initial where
  length_suspensions := rfl
  length_environments := rfl
  holds t s hs := by
    cases hs
  finds id env henv := by
    -- the root is the only environment, and it binds nothing
    have hlt : id < 1 := (List.getElem?_eq_some_iff.mp henv).1
    obtain rfl : id = 0 := Nat.lt_one_iff.mp hlt
    obtain rfl : Env.root = env := Option.some.inj henv
    intro name
    unfold Environments.lookup
    exact .none

/-- **A program follows its plan.** -/
theorem simulates_program (config : Config) (e : Expr) :
    Simulates 0 (min config.maxDepth config.spineLimit) World.initial (fun _ => Eq)
      (do Eval.render config (← Eval.evaluate config e)) (program config.renderLimit e) := by
  have heval := (evaluates_eval config config.maxDepth).1
  have hroot : World.initial.HasEnv Environments.root .root := rfl
  refine (heval.query e hroot).bind fun w v v' _ hv => ?_
  exact renders_renderAt config config.maxDepth w v v' hv

/-- The outcome is a text or an error of the program: no limit was reached and no loop found. -/
def IsDefinite : Except EvalError String → Bool
  | .ok _ => true
  | .error e => e.isOrdinary

/-- **The outcome of a program** is definite and the one by name, or a limit was reached and
evaluation by name gives up at a height, or a loop was found and there is no outcome by name. -/
theorem valueText_cases (config : Config) (e : Expr) :
    IsDefinite (e.valueText config) ∧
        Derives (program config.renderLimit e) (e.valueText config) ∨
      (∃ err, e.valueText config = .error err ∧ err.isLimit ∧
        (program config.renderLimit e).run (min config.maxDepth config.spineLimit) = none) ∨
      ∃ span, e.valueText config = .error (.infiniteLoop span) ∧
        ∀ outcome, ¬ Derives (program config.renderLimit e) outcome := by
  have hagrees := simulates_program config e Machine.initial World.consistent_initial
  unfold Expr.valueText
  simp only
  generalize (do Eval.render config (← Eval.evaluate config e) : Eval String) Machine.initial = r
    at hagrees ⊢
  cases hagrees with
  | @ok w m text _ _ _ _ htext hder =>
    obtain rfl := htext
    exact .inl ⟨rfl, hder⟩
  | error he hder => exact .inl ⟨he, hder⟩
  | limit he hrun => exact .inr (.inl ⟨_, rfl, he, hrun⟩)
  | loop hrun =>
    refine .inr (.inr ⟨_, rfl, fun outcome hder => ?_⟩)
    obtain ⟨n, hn⟩ := hder.exists_run
    -- before a run nothing is being evaluated
    have hstuck : World.initial.Stuck Machine.initial n := by
      intro t e id s ht hs
      cases hs
    have hnone : (program config.renderLimit e).run n = none := hrun n hstuck
    rw [hnone] at hn
    cases hn

end CallByNeed.ByName

namespace CallByNeed.Expr

open ByName

/-- **A definite outcome is one by name**, under whatever limits it was found. -/
theorem derives_of_isDefinite {config : Config} {e : Expr}
    (h : IsDefinite (e.valueText config)) :
    Derives (program config.renderLimit e) (e.valueText config) := by
  rcases valueText_cases config e with ⟨_, hder⟩ | ⟨err, heq, herr, _⟩ | ⟨span, heq, _⟩
  · exact hder
  · -- a limit is no error of the program
    rw [heq, IsDefinite, EvalError.isOrdinary_of_isLimit herr] at h
    cases h
  · rw [heq] at h
    cases h

/-- **An outcome by name is found under large limits.** -/
theorem valueText_of_run {config : Config} {e : Expr} {n : Nat}
    {outcome : Except EvalError String}
    (h : (program config.renderLimit e).run n = some outcome) (hdepth : n ≤ config.maxDepth)
    (hcells : n ≤ config.spineLimit) : e.valueText config = outcome := by
  have hder := derives_of_run h
  rcases valueText_cases config e with ⟨_, hder'⟩ | ⟨err, _, _, hrun⟩ | ⟨span, _, hnone⟩
  · exact hder'.unique hder
  · -- the plan does not give up at a greater height
    have hmin := Plan.run_mono (Nat.le_min.mpr ⟨hdepth, hcells⟩) h
    rw [hrun] at hmin
    cases hmin
  · exact absurd hder (hnone outcome)

/-- **A program that is found to loop has no outcome by name.** -/
theorem not_derives_of_loop {config : Config} {e : Expr} {span : Span}
    (h : e.valueText config = .error (.infiniteLoop span)) (outcome : Except EvalError String) :
    ¬ Derives (program config.renderLimit e) outcome := by
  rcases valueText_cases config e with ⟨hdefinite, _⟩ | ⟨err, heq, herr, _⟩ | ⟨_, _, hnone⟩
  · rw [h] at hdefinite
    cases hdefinite
  · rw [h] at heq
    obtain rfl := Except.error.inj heq
    cases herr
  · exact hnone outcome

/-- **Evaluation by need agrees with evaluation by name.**  A text or an error of the program has a
derivation by name if and only if evaluation by need comes to it under all large limits on the
nesting and on the lists walked; what evaluation by need comes to under any limits has a derivation;
and where evaluation by need finds a loop, no outcome has one. -/
theorem valueText_agrees_byName (config : Config) (e : Expr) :
    (∀ outcome, IsDefinite outcome →
      (Derives (program config.renderLimit e) outcome ↔
        ∃ D K, ∀ d k, D ≤ d → K ≤ k →
          e.valueText { config with maxDepth := d, spineLimit := k } = outcome)) ∧
      (∀ d k, IsDefinite (e.valueText { config with maxDepth := d, spineLimit := k }) →
        Derives (program config.renderLimit e)
          (e.valueText { config with maxDepth := d, spineLimit := k })) ∧
      ∀ d k span,
        e.valueText { config with maxDepth := d, spineLimit := k } = .error (.infiniteLoop span) →
        ∀ outcome, ¬ Derives (program config.renderLimit e) outcome := by
  refine ⟨fun outcome hdefinite => ⟨fun hder => ?_, ?_⟩, ?_, ?_⟩
  · -- the height of the derivation bounds both limits
    obtain ⟨n, hn⟩ := hder.exists_run
    exact ⟨n, n, fun d k hd hk => valueText_of_run hn hd hk⟩
  · -- large limits give the outcome at some limits, which is what soundness needs
    rintro ⟨D, K, hlarge⟩
    have heq := hlarge D K (Nat.le_refl D) (Nat.le_refl K)
    rw [← heq] at hdefinite ⊢
    exact derives_of_isDefinite hdefinite
  · intro d k hdefinite
    exact derives_of_isDefinite hdefinite
  · intro d k span heq outcome
    exact not_derives_of_loop heq outcome

/-- A name that is used twice, and a name that stands for itself. -/
theorem valueText_agrees_byName_square_loop :
    Derives (program 1000 (.bind .unknown (.bind .unknown "x")
        (.binary .unknown .add (.integer .unknown 1) (.integer .unknown 2))
        (.binary .unknown .mul (.identifier .unknown "x") (.identifier .unknown "x"))))
      (.ok "9") ∧
      ∀ outcome, ¬ Derives (program 1000 (.bind .unknown (.bind .unknown "x")
        (.identifier .unknown "x") (.identifier .unknown "x"))) outcome := by
  constructor
  · convert (valueText_agrees_byName {} _).2.1 5 5 ?_ using 1
    · decide +kernel
    · decide +kernel
  · exact (valueText_agrees_byName {} _).2.2 5 5 .unknown (by decide +kernel)

end CallByNeed.Expr

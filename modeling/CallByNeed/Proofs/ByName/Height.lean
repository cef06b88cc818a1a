import CallByNeed.Proofs.ByName.Semantics

/-!
# Derivations of bounded height

Evaluation by name can be run up to a height: `Question.answer n` follows the rules, but gives up on
a question that is nested more than `n` deep.  A plan has an outcome by some derivation exactly when
it has it at some height (`derives_of_run`, `Derives.exists_run`), and then at every greater height
(`Plan.run_mono`); since a run has at most one outcome, so has a plan (`Derives.unique`).

A plan without an outcome is one that gives up at every height.  How a plan gives up is said by
`Plan.run_bind_eq_none` and `Plan.run_query_eq_none`.
-/

namespace CallByNeed.ByName

variable {α β : Type}

/-! ### Running a plan -/

/-- Follows a plan, with the questions answered by `answer`.  There is no outcome if a question has
no answer. -/
def Plan.runWith (answer : (β : Type) → Question β → Option (Except EvalError β)) :
    Plan α → Option (Except EvalError α)
  | done outcome => some outcome
  | @ask _ β question next =>
    match answer β question with
    | none => none
    | some (.error e) => some (.error e)
    | some (.ok b) => (next b).runWith answer

/-- The answer to a question, if it takes at most `n` nested questions, itself included. -/
def Question.answer : Nat → (α : Type) → Question α → Option (Except EvalError α)
  | 0, _, _ => none
  | n + 1, _, question => question.plan.runWith (answer n)

/-- The outcome of a plan, if it takes at most `n` nested questions. -/
def Plan.run (n : Nat) (x : Plan α) : Option (Except EvalError α) :=
  x.runWith (Question.answer n)

namespace Plan

theorem run_ask (n : Nat) (question : Question β) (next : β → Plan α) :
    (ask question next).run n =
      match Question.answer n _ question with
      | none => none
      | some (.error e) => some (.error e)
      | some (.ok b) => (next b).run n := by
  unfold run
  rw [runWith]

@[simp]
theorem run_query_zero (question : Question α) : (query question).run 0 = none := rfl

/-- **A question is answered by its plan, one level below.** -/
@[simp]
theorem run_query_succ (n : Nat) (question : Question α) :
    (query question).run (n + 1) = question.plan.run n := by
  unfold query
  rw [run_ask]
  have hanswer : Question.answer (n + 1) _ question = question.plan.run n := rfl
  rw [hanswer]
  rcases question.plan.run n with _ | _ | b <;> rfl

/-- **Plans run one after the other.** -/
theorem run_bind (n : Nat) (x : Plan α) (f : α → Plan β) :
    (x >>= f).run n =
      match x.run n with
      | none => none
      | some (.error e) => some (.error e)
      | some (.ok a) => (f a).run n := by
  change (x.andThen f).run n = _
  induction x with
  | done outcome => cases outcome <;> rfl
  | ask question next ih =>
    rw [andThen, run_ask, run_ask]
    rcases Question.answer n _ question with _ | _ | b
    · rfl
    · rfl
    · exact ih b

/-! ### Greater heights -/

/-- An outcome is kept when more questions have answers. -/
theorem runWith_mono {answer answer' : (β : Type) → Question β → Option (Except EvalError β)}
    (h : ∀ β (question : Question β) r, answer β question = some r →
      answer' β question = some r)
    {x : Plan α} {outcome : Except EvalError α} (hx : x.runWith answer = some outcome) :
    x.runWith answer' = some outcome := by
  induction x with
  | done _ => exact hx
  | ask question next ih =>
    rw [runWith] at hx ⊢
    cases hq : answer _ question with
    | none => simp [hq] at hx
    | some r =>
      rw [h _ question r hq]
      rw [hq] at hx
      cases r with
      | error e => exact hx
      | ok b => exact ih b hx

theorem answer_succ_of_answer (n : Nat) :
    ∀ (α : Type) (question : Question α) (r : Except EvalError α),
      Question.answer n _ question = some r → Question.answer (n + 1) _ question = some r := by
  induction n with
  | zero =>
    intro α question r h
    cases h
  | succ n ih =>
    intro α question r h
    exact runWith_mono ih h

/-- **An outcome is found at every greater height too.** -/
theorem run_mono {x : Plan α} {outcome : Except EvalError α} {m n : Nat} (hmn : m ≤ n)
    (hx : x.run m = some outcome) : x.run n = some outcome := by
  induction hmn with
  | refl => exact hx
  | step _ ih => exact runWith_mono (answer_succ_of_answer _) ih

/-- A plan that gives up at a height gives up at every smaller one. -/
theorem run_eq_none_of_le {x : Plan α} {m n : Nat} (hmn : m ≤ n) (hx : x.run n = none) :
    x.run m = none := by
  cases hm : x.run m with
  | none => rfl
  | some outcome =>
    rw [run_mono hmn hm] at hx
    cases hx

end Plan

/-! ### Heights and derivations -/

/-- **What is found at some height has a derivation.** -/
theorem derives_of_run {n : Nat} {x : Plan α} {outcome : Except EvalError α}
    (hx : x.run n = some outcome) : Derives x outcome := by
  induction n generalizing α with
  | zero =>
    -- at height `0` a plan that asks anything gives up
    cases x with
    | done r =>
      obtain rfl : r = outcome := Option.some.inj hx
      exact .done r
    | ask question next => cases hx
  | succ n ih =>
    induction x with
    | done r =>
      obtain rfl : r = outcome := Option.some.inj hx
      exact .done r
    | ask question next ihnext =>
      rw [Plan.run_ask] at hx
      cases hq : Question.answer (n + 1) _ question with
      | none => simp [hq] at hx
      | some r =>
        have hplan : question.plan.run n = some r := hq
        rw [hq] at hx
        cases r with
        | error e =>
          obtain rfl : .error e = outcome := Option.some.inj hx
          exact .error (ih hplan)
        | ok b => exact .answer (ih hplan) (ihnext b hx)

/-- **What has a derivation is found at some height.** -/
theorem Derives.exists_run {x : Plan α} {outcome : Except EvalError α}
    (hx : Derives x outcome) : ∃ n, x.run n = some outcome := by
  induction hx with
  | done outcome => exact ⟨0, rfl⟩
  | @answer α β question next b outcome _ _ ihplan ihnext =>
    obtain ⟨m, hm⟩ := ihplan
    obtain ⟨n, hn⟩ := ihnext
    refine ⟨max m n + 1, ?_⟩
    have hq : Question.answer (max m n + 1) _ question = some (.ok b) :=
      Plan.run_mono (Nat.le_max_left m n) hm
    rw [Plan.run_ask, hq]
    exact Plan.run_mono (by omega) hn
  | @error α β question next e _ ihplan =>
    obtain ⟨n, hn⟩ := ihplan
    have hq : Question.answer (n + 1) _ question = some (.error e) := hn
    exact ⟨n + 1, by rw [Plan.run_ask, hq]⟩

/-- **A plan has at most one outcome.** -/
theorem Derives.unique {x : Plan α} {r r' : Except EvalError α} (h : Derives x r)
    (h' : Derives x r') : r = r' := by
  obtain ⟨m, hm⟩ := h.exists_run
  obtain ⟨n, hn⟩ := h'.exists_run
  have hmax := Plan.run_mono (Nat.le_max_left m n) hm
  rw [Plan.run_mono (Nat.le_max_right m n) hn] at hmax
  exact (Option.some.inj hmax).symm

/-- At each height a plan gives up or finds the outcome that it has. -/
theorem Derives.run_eq {x : Plan α} {outcome : Except EvalError α} (hx : Derives x outcome)
    (n : Nat) : x.run n = none ∨ x.run n = some outcome := by
  cases hn : x.run n with
  | none => exact .inl rfl
  | some r =>
    rw [(derives_of_run hn).unique hx]
    exact .inr rfl

/-! ### Derivations compose -/

theorem derives_pure (a : α) : Derives (pure a) (.ok a) :=
  .done _

theorem derives_fail (e : EvalError) : Derives (Plan.fail e : Plan α) (.error e) :=
  .done _

theorem derives_query {question : Question α} {outcome : Except EvalError α} :
    Derives (Plan.query question) outcome ↔ Derives question.plan outcome := by
  constructor
  · intro h
    obtain ⟨n, hn⟩ := h.exists_run
    cases n with
    | zero => cases hn
    | succ n =>
      rw [Plan.run_query_succ] at hn
      exact derives_of_run hn
  · intro h
    obtain ⟨n, hn⟩ := h.exists_run
    rw [← Plan.run_query_succ] at hn
    exact derives_of_run hn

theorem Derives.bind {x : Plan α} {f : α → Plan β} {a : α} {outcome : Except EvalError β}
    (hx : Derives x (.ok a)) (hf : Derives (f a) outcome) : Derives (x >>= f) outcome := by
  obtain ⟨m, hm⟩ := hx.exists_run
  obtain ⟨n, hn⟩ := hf.exists_run
  have hrun : (x >>= f).run (max m n) = some outcome := by
    rw [Plan.run_bind, Plan.run_mono (Nat.le_max_left m n) hm]
    exact Plan.run_mono (Nat.le_max_right m n) hn
  exact derives_of_run hrun

theorem Derives.bind_error {x : Plan α} {f : α → Plan β} {e : EvalError}
    (hx : Derives x (.error e)) : Derives (x >>= f) (.error e) := by
  obtain ⟨n, hn⟩ := hx.exists_run
  have hrun : (x >>= f).run n = some (.error e) := by
    rw [Plan.run_bind, hn]
  exact derives_of_run hrun

/-- **A plan gives up where its first part does.** -/
theorem Plan.run_bind_eq_none {n : Nat} {x : Plan α} (f : α → Plan β) (hx : x.run n = none) :
    (x >>= f).run n = none := by
  rw [run_bind, hx]

/-- **A plan gives up where what follows its first part does.** -/
theorem Derives.run_bind_eq_none {n : Nat} {x : Plan α} {f : α → Plan β} {a : α}
    (hx : Derives x (.ok a)) (hf : (f a).run n = none) : (x >>= f).run n = none := by
  rw [Plan.run_bind]
  rcases hx.run_eq n with hn | hn
  · rw [hn]
  · rw [hn]
    exact hf

end CallByNeed.ByName

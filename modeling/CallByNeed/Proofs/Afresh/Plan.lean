import CallByNeed.Error

/-!
# Plans

A plan for a result ends with an outcome, or asks a question and goes on with the answer.  The rules
give a plan for each question, so that plans can be run: up to a height, which is the number of
questions that may be nested in each other (`Plan.run`).  What is found at some height is found at
every greater one, and so a plan yields at most one outcome (`Plan.Yields.unique`).  Where it gives
up is said by `Plan.run_bind_eq_none` and `Plan.run_query_succ`.
-/

namespace CallByNeed.Afresh

/-- What is to be done for a result of type `α`, with questions of the kind `Q`. -/
inductive Plan (Q : Type → Type) (α : Type) : Type 1 where
  | done (outcome : Except EvalError α)
  | ask {β : Type} (question : Q β) (next : β → Plan Q α)

/-- How the questions of a kind are answered. -/
class Rules (Q : Type → Type) where
  plan {α : Type} : Q α → Plan Q α

namespace Plan

variable {Q : Type → Type} {α β : Type}

/-- The result of a plan goes to the next one; an error ends both. -/
def andThen : Plan Q α → (α → Plan Q β) → Plan Q β
  | done (.ok a), f => f a
  | done (.error e), _ => done (.error e)
  | ask question next, f => ask question fun b => (next b).andThen f

instance : Monad (Plan Q) where
  pure a := done (.ok a)
  bind := andThen

/-- Ends with an error. -/
def fail (e : EvalError) : Plan Q α :=
  done (.error e)

/-- Asks a question and hands on the answer. -/
def query (question : Q α) : Plan Q α :=
  ask question fun a => done (.ok a)

/-! ### Running a plan -/

/-- Follows a plan, with the questions answered by `answer`.  There is no outcome if a question has
no answer. -/
def runWith (answer : (β : Type) → Q β → Option (Except EvalError β)) :
    Plan Q α → Option (Except EvalError α)
  | done outcome => some outcome
  | @ask _ _ β question next =>
    match answer β question with
    | none => none
    | some (.error e) => some (.error e)
    | some (.ok b) => (next b).runWith answer

/-- An outcome is kept when more questions have answers. -/
theorem runWith_mono {answer answer' : (β : Type) → Q β → Option (Except EvalError β)}
    (h : ∀ β (question : Q β) r, answer β question = some r → answer' β question = some r)
    {x : Plan Q α} {outcome : Except EvalError α} (hx : x.runWith answer = some outcome) :
    x.runWith answer' = some outcome := by
  induction x with
  | done _ => exact hx
  | ask question next ih =>
    rw [runWith] at hx ⊢
    cases hq : answer _ question with
    | none => simp [hq] at hx
    | some r =>
      rw [h _ question r hq]
      rw [hq] at hx
      cases r with
      | error e => exact hx
      | ok b => exact ih b hx

section Run

variable [Rules Q]

/-- The answer to a question, if it takes at most `n` nested questions, itself included. -/
def answer : Nat → (α : Type) → Q α → Option (Except EvalError α)
  | 0, _, _ => none
  | n + 1, _, question => (Rules.plan question).runWith (answer n)

/-- The outcome of a plan, if it takes at most `n` nested questions. -/
def run (n : Nat) (x : Plan Q α) : Option (Except EvalError α) :=
  x.runWith (answer n)

/-- The plan has the outcome, at some height. -/
def Yields (x : Plan Q α) (outcome : Except EvalError α) : Prop :=
  ∃ n, x.run n = some outcome

@[simp]
theorem run_query_zero (question : Q α) : (query question).run 0 = none := rfl

/-- **A question is answered by its plan, one level below.** -/
@[simp]
theorem run_query_succ (n : Nat) (question : Q α) :
    (query question).run (n + 1) = (Rules.plan question).run n := by
  have hanswer : answer (n + 1) _ question = (Rules.plan question).run n := rfl
  rw [query, run, runWith, hanswer]
  rcases (Rules.plan question).run n with _ | _ | b <;> rfl

/-- **Plans run one after the other.** -/
theorem run_bind (n : Nat) (x : Plan Q α) (f : α → Plan Q β) :
    (x >>= f).run n =
      match x.run n with
      | none => none
      | some (.error e) => some (.error e)
      | some (.ok a) => (f a).run n := by
  change (x.andThen f).run n = _
  induction x with
  | done outcome => cases outcome <;> rfl
  | ask question next ih =>
    rw [andThen, run, runWith, run, runWith]
    rcases answer n _ question with _ | _ | b
    · rfl
    · rfl
    · exact ih b

/-! ### Greater heights -/

theorem answer_succ (n : Nat) : ∀ (α : Type) (question : Q α) (r : Except EvalError α),
    answer n _ question = some r → answer (n + 1) _ question = some r := by
  induction n with
  | zero =>
    intro α question r h
    cases h
  | succ n ih =>
    intro α question r h
    exact runWith_mono ih h

/-- **An outcome is found at every greater height too.** -/
theorem run_mono {x : Plan Q α} {outcome : Except EvalError α} {m n : Nat} (hmn : m ≤ n)
    (hx : x.run m = some outcome) : x.run n = some outcome := by
  induction hmn with
  | refl => exact hx
  | step _ ih => exact runWith_mono (answer_succ _) ih

/-- A plan that gives up at a height gives up at every smaller one. -/
theorem run_eq_none_of_le {x : Plan Q α} {m n : Nat} (hmn : m ≤ n) (hx : x.run n = none) :
    x.run m = none := by
  cases hm : x.run m with
  | none => rfl
  | some outcome =>
    rw [run_mono hmn hm] at hx
    cases hx

/-! ### Outcomes -/

variable {x : Plan Q α} {f : α → Plan Q β} {r r' : Except EvalError α}

/-- **A plan has at most one outcome.** -/
theorem Yields.unique (h : x.Yields r) (h' : x.Yields r') : r = r' := by
  obtain ⟨m, hm⟩ := h
  obtain ⟨n, hn⟩ := h'
  have hmax := run_mono (Nat.le_max_left m n) hm
  rw [run_mono (Nat.le_max_right m n) hn] at hmax
  exact (Option.some.inj hmax).symm

/-- At each height a plan gives up or finds the outcome that it has. -/
theorem Yields.run_eq (h : x.Yields r) (n : Nat) : x.run n = none ∨ x.run n = some r := by
  cases hn : x.run n with
  | none => exact .inl rfl
  | some r' =>
    rw [Yields.unique ⟨n, hn⟩ h]
    exact .inr rfl

theorem yields_pure (a : α) : (pure a : Plan Q α).Yields (.ok a) :=
  ⟨0, rfl⟩

theorem yields_fail (e : EvalError) : (fail e : Plan Q α).Yields (.error e) :=
  ⟨0, rfl⟩

theorem yields_query {question : Q α} :
    (query question).Yields r ↔ (Rules.plan question).Yields r := by
  constructor
  · rintro ⟨_ | n, hn⟩
    · cases hn
    · exact ⟨n, by rwa [run_query_succ] at hn⟩
  · rintro ⟨n, hn⟩
    exact ⟨n + 1, by rwa [run_query_succ]⟩

theorem Yields.bind {a : α} {r : Except EvalError β} (hx : x.Yields (.ok a))
    (hf : (f a).Yields r) : (x >>= f).Yields r := by
  obtain ⟨m, hm⟩ := hx
  obtain ⟨n, hn⟩ := hf
  refine ⟨max m n, ?_⟩
  rw [run_bind, run_mono (Nat.le_max_left m n) hm]
  exact run_mono (Nat.le_max_right m n) hn

theorem Yields.bind_error {e : EvalError} (hx : x.Yields (.error e)) :
    (x >>= f).Yields (.error e) := by
  obtain ⟨n, hn⟩ := hx
  exact ⟨n, by rw [run_bind, hn]⟩

/-- **A plan gives up where its first part does.** -/
theorem run_bind_eq_none {n : Nat} (f : α → Plan Q β) (hx : x.run n = none) :
    (x >>= f).run n = none := by
  rw [run_bind, hx]

/-- **A plan gives up where what follows its first part does.** -/
theorem Yields.run_bind_eq_none {n : Nat} {a : α} (hx : x.Yields (.ok a))
    (hf : (f a).run n = none) : (x >>= f).run n = none := by
  rw [run_bind]
  rcases hx.run_eq n with hn | hn
  · rw [hn]
  · rw [hn]
    exact hf

end Run

end Plan

end CallByNeed.Afresh

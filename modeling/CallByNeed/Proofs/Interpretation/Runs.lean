import CallByNeed.Machine

/-!
# Runs that succeed

A sequence of evaluations succeeds if its parts do, each on the machine that the one before has left
(`Eval.bind_eq_ok`).  For a list of suspensions this is said by `Eval.Each`.
-/

namespace CallByNeed.Eval

variable {α β : Type} {m n : Machine}

/-- **A sequence succeeds if its parts do.** -/
theorem bind_eq_ok {x : Eval α} {f : α → Eval β} {b : β} :
    (x >>= f) m = .ok b n ↔ ∃ a k, x m = .ok a k ∧ f a k = .ok b n := by
  change EStateM.bind x f m = _ ↔ _
  unfold EStateM.bind
  rcases x m with ⟨a, k⟩ | ⟨e, k⟩
  · constructor
    · exact fun h => ⟨a, k, rfl, h⟩
    · rintro ⟨a', k', h, hf⟩
      obtain ⟨rfl, rfl⟩ := EStateM.Result.ok.inj h
      exact hf
  · constructor <;> simp

theorem pure_eq_ok {a b : α} : (pure a : Eval α) m = .ok b n ↔ a = b ∧ m = n := by
  constructor
  · rintro ⟨⟩
    exact ⟨rfl, rfl⟩
  · rintro ⟨rfl, rfl⟩
    rfl

/-- What follows a success starts on the machine it leaves. -/
theorem bind_apply_ok {x : Eval α} {a : α} (h : x m = .ok a n) (f : α → Eval β) :
    (x >>= f) m = f a n := by
  change EStateM.bind x f m = _
  rw [EStateM.bind, h]

/-- Nothing follows a failure. -/
theorem bind_apply_error {x : Eval α} {e : EvalError} (h : x m = .error e n) (f : α → Eval β) :
    (x >>= f) m = .error e n := by
  change EStateM.bind x f m = _
  rw [EStateM.bind, h]

/-! ### One after the other -/

/-- The evaluation succeeds for each of the suspensions, one after the other. -/
inductive Each (x : ThunkId → Eval α) : Machine → List ThunkId → List α → Machine → Prop where
  | nil (m : Machine) : Each x m [] [] m
  | cons {m n k : Machine} {t : ThunkId} {ts : List ThunkId} {a : α} {as : List α}
    (ht : x t m = .ok a n) (hts : Each x n ts as k) : Each x m (t :: ts) (a :: as) k

theorem Each.length_eq {x : ThunkId → Eval α} {as : List α} (h : Each x m ts as n) :
    as.length = ts.length := by
  induction h with
  | nil => rfl
  | cons _ _ ih => rw [List.length_cons, List.length_cons, ih]

theorem Each.ne_nil {x : ThunkId → Eval α} {t : ThunkId} {as : List α}
    (h : Each x m (t :: ts) as n) : as ≠ [] := by
  cases h
  exact List.cons_ne_nil _ _

/-- **An evaluation for each suspension succeeds if all of them do.** -/
theorem mapM_eq_ok {x : ThunkId → Eval α} {ts : List ThunkId} {as : List α} :
    ts.mapM x m = .ok as n ↔ Each x m ts as n := by
  induction ts generalizing m n as with
  | nil =>
    rw [List.mapM_nil, pure_eq_ok]
    constructor
    · rintro ⟨rfl, rfl⟩
      exact .nil m
    · rintro ⟨⟩
      exact ⟨rfl, rfl⟩
  | cons t ts ih =>
    simp only [List.mapM_cons, bind_eq_ok, pure_eq_ok, ih]
    constructor
    · rintro ⟨a, k, ht, as, k', hts, rfl, rfl⟩
      exact .cons ht hts
    · rintro (_ | ⟨ht, hts⟩)
      exact ⟨_, _, ht, _, _, hts, rfl, rfl⟩

end CallByNeed.Eval

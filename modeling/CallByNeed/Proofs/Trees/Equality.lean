import CallByNeed.Proofs.Interpretation.Cleanup
import CallByNeed.Proofs.Trees.Unfolding

/-!
# Comparison decides equality

The evaluator compares two values by walking along lists, recursing into elements, and demanding
what it needs as it goes.  What it comes to is what the comparison of their trees comes to
(`Eval.equal_eq_compare`): evaluation afresh compares values as their trees are compared
(`Afresh.yields_compare`), and the evaluator follows its plan.
-/

namespace CallByNeed

namespace Afresh

/-! ### Comparison afresh -/

section Compare

variable {span : Span} {s r : Suspension}

/-- What two suspensions are compared to is what their values are. -/
theorem yields_compareElement {t u : Tree} {outcome : Except EvalError Bool}
    (hs : s.HasTree t) (hr : r.HasTree u)
    (h : ∀ {x y : Value}, x.HasTree t → y.HasTree u →
      (Inquiry.compare span x y).Yields outcome) :
    (Inquiry.compareElement span s r).Yields outcome := by
  obtain ⟨hs, hx⟩ := hs
  obtain ⟨hr, hy⟩ := hr
  exact hs.bind (hr.bind (Plan.yields_query.2 (h hx hy)))

/-- The second of two comparisons is made if the first finds no difference. -/
theorem yields_ite {x y : Inquiry Bool} {outcome outcome' : Except EvalError Bool}
    (hx : x.Yields outcome) (hy : y.Yields outcome') :
    (do if ← x then y else return false : Inquiry Bool).Yields
      (do if ← outcome then outcome' else return false) := by
  rcases outcome with e | b
  · exact hx.bind_error
  · refine hx.bind ?_
    cases b with
    | true => exact hy
    | false => exact Plan.yields_pure false

mutual

/-- **Values are compared as their trees are.** -/
theorem yields_compare (span : Span) : ∀ (t u : Tree) {x y : Value}, x.HasTree t → y.HasTree u →
    (Inquiry.compare span x y).Yields (t.compare span u)
  | .function, u, _, _, .closure .., hy => by
    rw [Tree.compare, Inquiry.compare]
    exact Plan.yields_fail _
  | .integer a, u, _, _, .integer _, hy => by
    cases hy with
    | integer b => exact Plan.yields_pure _
    | _ => exact Plan.yields_fail _
  | .boolean a, u, _, _, .boolean _, hy => by
    cases hy with
    | boolean b => exact Plan.yields_pure _
    | _ => exact Plan.yields_fail _
  | .nil, u, _, _, .nil, hy => by
    cases hy with
    | nil => exact Plan.yields_pure _
    | cons => exact Plan.yields_pure _
    | _ => exact Plan.yields_fail _
  | .tuple ts, u, _, _, .tuple hts, hy => by
    cases hy with
    | tuple hus =>
      rw [Inquiry.compare, Tree.compare, hts.length_eq, hus.length_eq]
      -- elements are compared just if there are equally many
      split
      · exact yields_compareAll span ts _ hts hus
      · exact Plan.yields_pure _
    | _ => exact Plan.yields_fail _
  | .cons h t, u, _, _, .cons hh ht, hy => by
    cases hy with
    | @cons _ _ h' t' hh' ht' =>
      rw [Inquiry.compare, Tree.compare]
      -- the tails are compared behind equal heads only
      exact yields_ite (yields_compareElement hh hh' (yields_compare span h h'))
        (yields_compareElement ht ht' (yields_compare span t t'))
    | nil => exact Plan.yields_pure _
    | _ => exact Plan.yields_fail _

theorem yields_compareAll (span : Span) : ∀ (ts us : List Tree) {ss rs : List Suspension},
    List.Forall₂ Suspension.HasTree ss ts → List.Forall₂ Suspension.HasTree rs us →
    (Inquiry.compareAll span ss rs).Yields (Tree.compareAll span ts us)
  | [], us, _, _, .nil, hus => by
    cases hus <;> exact Plan.yields_pure _
  | t :: ts, us, _, _, .cons ht hts, hus => by
    cases hus with
    | nil => exact Plan.yields_pure _
    | @cons _ u _ us hu hus =>
      rw [Inquiry.compareAll, Tree.compareAll]
      exact yields_ite (yields_compareElement ht hu (yields_compare span t u))
        (yields_compareAll span ts us hts hus)

end

end Compare

/-! ### The evaluator's comparison -/

/-- A question that asks itself has no answer. -/
theorem run_never (n : Nat) : (Plan.query Question.never).run n = none := by
  induction n with
  | zero => exact Plan.run_query_zero _
  | succ n ih => exact (Plan.run_query_succ n _).trans ih

/-- What was being evaluated when the machine was given is never answered. -/
theorem World.stuck_given (m : Machine) (n : Nat) : (World.given m).Stuck m n := by
  intro t e id s ht hs
  obtain ⟨-, rfl⟩ := World.hasSuspension_given.1 hs
  simp only [demand, ht]
  exact run_never n

/-- An evaluation from a given machine comes to the outcome of its plan, if there is one, or reaches
a limit, which needs a height of at least the budget. -/
theorem Simulates.split_eq {α : Type} {budget : Nat} {m : Machine} {x : Eval α} {y : Inquiry α}
    {outcome : Except EvalError α} (h : Simulates budget (World.given m) (fun _ => Eq) x y)
    (hm : m.Closed) {n : Nat} (hy : y.run n = some outcome) :
    (Eval.split (x m)).1 = outcome ∨
      n ≥ budget ∧ ∃ e, (Eval.split (x m)).1 = .error e ∧ e.isLimit = true := by
  have hyields : y.Yields outcome := ⟨n, hy⟩
  have hxm := h m (World.consistent_given hm)
  generalize x m = r at hxm ⊢
  cases hxm with
  | ok _ _ _ hab hy' =>
    -- a plan has one outcome at most, so that the evaluation has come to this one
    subst hab
    exact .inl (hy'.unique hyields)
  | error hy' => exact .inl (hy'.unique hyields)
  -- the plan gives up where a limit lets it, and at this height it does not
  | @blocked e _ hnone =>
    right
    have hnone : ¬Blocks e budget (World.given m) m n := by
      intro hblocks
      rw [hnone n hblocks] at hy
      cases hy
    unfold Blocks at hnone
    by_cases he : e.isLimit
    · rw [if_pos he] at hnone
      exact ⟨Nat.le_of_not_lt hnone, e, rfl, he⟩
    · rw [if_neg he] at hnone
      exact absurd (World.stuck_given m n) hnone

end Afresh

namespace Tree

/-! ### Outcomes of the comparison of trees -/

section Outcomes

variable (span : Span) (t u : Tree)

/-- **Equal are trees that are the same** and free of functions. -/
theorem compare_eq_true_iff : t.compare span u = .ok true ↔ t = u ∧ t.isData = true := by
  rw [compare_eq, ← discords_eq_nil_iff]
  rcases t.discords u with _ | ⟨d, ds⟩
  · exact iff_of_true rfl rfl
  · refine iff_of_false ?_ (List.cons_ne_nil d ds)
    cases d <;> simp [verdict, Discord.verdict]

/-- **Different are trees whose first discord is a difference.** -/
theorem compare_eq_false_iff :
    t.compare span u = .ok false ↔ (t.discords u).head? = some .difference := by
  rw [compare_eq]
  rcases t.discords u with _ | ⟨d, ds⟩
  · exact iff_of_false (by simp [verdict]) (by simp)
  · cases d <;> simp [verdict, Discord.verdict]

/-- **Otherwise they cannot be compared**: the first discord is a function or a clash of kinds. -/
theorem compare_eq_error_iff (e : EvalError) :
    t.compare span u = .error e ↔
      (t.discords u).head? = some .function ∧
          e = .typeMismatch "comparable value" "function" span ∨
        ∃ lhs rhs, (t.discords u).head? = some (.clash lhs rhs) ∧
          e = .typeMismatch lhs rhs span := by
  rw [compare_eq]
  rcases t.discords u with _ | ⟨d, ds⟩
  · simp [verdict]
  · cases d <;> simp [verdict, Discord.verdict, eq_comm]

/-- **Exchanging the sides keeps the answer**, if there is one. -/
theorem compare_swap {b : Bool} (h : t.compare span u = .ok b) : u.compare span t = .ok b := by
  rw [compare_eq] at h ⊢
  rw [discords_swap t u]
  generalize t.discords u = ds at h ⊢
  rcases ds with _ | ⟨d, ds⟩
  · exact h
  · cases d with
    | difference => exact h
    | _ => cases h

end Outcomes

end Tree

namespace Eval

/-- **`==` decides structural equality.** Two values are given that unfold to trees.  Under whatever
limits they are compared, the outcome is that of the comparison of their trees, unless a limit is
reached, and under all large limits none is.  It is `true` for the same trees without functions,
`false` if the first discord is a difference, and otherwise an error of types.

So whenever the comparison has an answer, it has the same one with the operands exchanged. -/
theorem equal_eq_compare (m : Machine) (hm : m.Closed) (x y : Value) (hx : m.HasPartsOf x)
    (hy : m.HasPartsOf y) (t u : Tree) (ht : m.HasTree x t) (hu : m.HasTree y u) (span : Span) :
    let outcome (config : Config) (levels : Nat) (x y : Value) :=
      (split (equal config levels span x y m)).1
    let reachesLimit (r : Except EvalError Bool) := ∃ e, r = .error e ∧ e.isLimit = true
    (∀ config levels, outcome config levels x y = t.compare span u ∨
        reachesLimit (outcome config levels x y)) ∧
      (∃ D, ∀ config levels, D ≤ levels → D ≤ config.spineLimit →
        outcome config levels x y = t.compare span u) ∧
      (t.compare span u = .ok true ↔ t = u ∧ t.isData = true) ∧
      (t.compare span u = .ok false ↔ (t.discords u).head? = some .difference) ∧
      (∀ e, t.compare span u = .error e ↔
        (t.discords u).head? = some .function ∧
            e = .typeMismatch "comparable value" "function" span ∨
          ∃ lhs rhs, (t.discords u).head? = some (.clash lhs rhs) ∧
            e = .typeMismatch lhs rhs span) ∧
      ∀ config levels b, outcome config levels x y = .ok b →
        (∀ config levels, outcome config levels y x = .ok b ∨
            reachesLimit (outcome config levels y x)) ∧
          ∃ D, ∀ config levels, D ≤ levels → D ≤ config.spineLimit →
            outcome config levels y x = .ok b := by
  intro outcome reachesLimit
  -- the given machine is read by evaluation afresh, which compares the trees
  have hsplit : ∀ {x y : Value} {t u : Tree}, m.HasPartsOf x → m.HasPartsOf y → m.HasTree x t →
      m.HasTree y u → ∃ n, ∀ config levels, outcome config levels x y = t.compare span u ∨
        n ≥ min levels config.spineLimit ∧ reachesLimit (outcome config levels x y) := by
    intro x y t u hx hy ht hu
    obtain ⟨n, hn⟩ := Afresh.yields_compare span t u (ht.given hm hx) (hu.given hm hy)
    exact ⟨n, fun config levels => ((Afresh.evaluates_eval config levels).2 span _ x _ y _
      (Afresh.World.reads_given hx) (Afresh.World.reads_given hy)).split_eq hm hn⟩
  obtain ⟨n, hn⟩ := hsplit hx hy ht hu
  obtain ⟨n', hn'⟩ := hsplit hy hx hu ht
  refine ⟨fun config levels => (hn config levels).imp id And.right,
    ⟨n + 1, fun config levels hlevels hcells => ?_⟩, t.compare_eq_true_iff span u,
    t.compare_eq_false_iff span u, t.compare_eq_error_iff span u, fun config levels b hb => ?_⟩
  · exact (hn config levels).resolve_right fun h => by omega
  · -- an answer is the outcome of the trees, which have the same one from the other side
    have hcompare : t.compare span u = .ok b := by
      rcases hn config levels with heq | ⟨-, e, he, -⟩
      · exact heq.symm.trans hb
      · cases hb.symm.trans he
    have hswap := t.compare_swap span u hcompare
    rw [hswap] at hn'
    refine ⟨fun config levels => (hn' config levels).imp id And.right,
      n' + 1, fun config levels hlevels hcells => ?_⟩
    exact (hn' config levels).resolve_right fun h => by omega

/-- Two pairs with a function as their second part, of which the first parts already differ. -/
theorem equal_eq_compare_pairs :
    let cells : Array Cell := #[.pending (.integer .unknown 1) 0, .pending (.integer .unknown 2) 0,
      .pending (.lambda .unknown (.bind .unknown "x") (.identifier .unknown "x")) 0]
    let m : Machine := { Machine.initial with cells }
    let x : Value := .tuple [0, 2]
    let y : Value := .tuple [1, 2]
    let t : Tree := .tuple [.integer 1, .function]
    let u : Tree := .tuple [.integer 2, .function]
    ((m.Closed ∧ m.HasPartsOf x ∧ m.HasPartsOf y) ∧ m.HasTree x t ∧ m.HasTree y u) ∧
      ∃ D, ∀ config levels, D ≤ levels → D ≤ config.spineLimit →
        (split (equal config levels .unknown x y m)).1 = .ok false := by
  intro cells m x y t u
  have hm : m.Closed :=
    Machine.closed_of_cells (by simp [cells, Machine.HasContentOf, Machine.initial,
      Environments.initial, Environments.size])
  have hx : m.HasPartsOf x := by simp [x, m, cells, Machine.HasPartsOf]
  have hy : m.HasPartsOf y := by simp [y, m, cells, Machine.HasPartsOf]
  have ht : m.HasTree x t := ⟨{}, 1, 2, _, rfl⟩
  have hu : m.HasTree y u := ⟨{}, 1, 2, _, rfl⟩
  refine ⟨⟨⟨hm, hx, hy⟩, ht, hu⟩, ?_⟩
  obtain ⟨-, hlarge, -, hfalse, -⟩ := equal_eq_compare m hm x y hx hy t u ht hu .unknown
  rw [hfalse.2 rfl] at hlarge
  exact hlarge

end Eval

end CallByNeed

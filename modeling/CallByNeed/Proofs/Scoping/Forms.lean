import CallByNeed.Proofs.Congruence.Programs

/-!
# The forms of a binding agree

It makes no difference in which of its three forms a binding is written, except for how it is
reported that the pattern does not fit (`Expr.forms_agree`).  A `let` of a plain name is apart from
this if its value uses the name: there it stands for the value itself, and in the other forms for
whatever it is outside.
-/

namespace CallByNeed

namespace Expr

/-- The outcomes of two programs agree: the same text and the same work, or the same error up to its
span, or else the two ways in which a failure is reported. -/
def OutcomesAgree (config : Config) (failure failure' : EvalError) (e e' : Expr) : Prop :=
  (∃ text, e.valueText config = .ok text ∧ e'.valueText config = .ok text ∧
      e.valueStats config = e'.valueStats config) ∨
    ∃ err err', e.valueText config = .error err ∧ e'.valueText config = .error err' ∧
      (err.bare = err'.bare ∨ err = failure ∧ err' = failure')

theorem OutcomesAgree.symm {config : Config} {failure failure' : EvalError} {e e' : Expr}
    (h : OutcomesAgree config failure failure' e e') :
    OutcomesAgree config failure' failure e' e := by
  rcases h with ⟨text, he, he', hstats⟩ | ⟨err, err', he, he', herr⟩
  · exact .inl ⟨text, he', he, hstats.symm⟩
  · exact .inr ⟨err', err, he', he, herr.imp Eq.symm And.symm⟩

section Forms

variable {config : Config} {place : Place} {p : Pattern} {v b : Expr} {s r s' r' : Span}
  {form form' : BindingForm}

/-- How far two programs differ that have a binding in two forms. -/
def formLeeway (failure failure' : EvalError) : Leeway where
  spans _ _ := True
  names := Eq
  failures e e' := e = failure ∧ e' = failure'

theorem outcomesAgree_of_congruent {failure failure' : EvalError} {e e' : Expr}
    (h : Congruent (formLeeway failure failure') Eq e e') :
    OutcomesAgree config failure failure' (place.fill e) (place.fill e') := by
  have hfill := h.fill (fun _ => trivial) (fun _ => rfl) place fun _ => rfl
  rcases hfill.outcome_cases trivial config with htext | ⟨err, err', he, he', herr, -⟩
  · exact .inl htext
  · refine .inr ⟨err, err', he, he', ?_⟩
    cases herr with
    | same hbare _ => exact .inl hbare
    | duplicate hname _ => exact .inl (congrArg (EvalError.duplicateBinding · _) hname)
    | failure h => exact .inr h

/-- In whatever scope an expression is congruent to itself if its names stand for themselves. -/
theorem congruent_self (failure failure' : EvalError) {outer : Naming} (e : Expr)
    (h : ∀ x ∈ e.free, outer x x) : Congruent (formLeeway failure failure') outer e e :=
  .refl (fun _ => trivial) (fun _ => rfl) e h

theorem under_eq_self (xs : List String) (x : String) : Naming.under Eq xs xs Eq x x :=
  Naming.under_self (fun _ _ => rfl) x (List.mem_singleton_self x)

/-- Forms in which the pattern is matched. -/
theorem outcomesAgree_of_matches (hform : form.Matches p) (hform' : form'.Matches p) :
    OutcomesAgree config (form.failure s) (form'.failure s') (place.fill (form.expr s r p v b))
      (place.fill (form'.expr s' r' p v b)) :=
  outcomesAgree_of_congruent <|
    .form hform hform' (fun _ _ => trivial) (fun _ => rfl) ⟨rfl, rfl⟩
      (congruent_self _ _ v fun _ _ => rfl)
      (congruent_self _ _ b fun x _ => under_eq_self p.names x)

/-- A `let` of a plain name that its value does not use, and another form. -/
theorem outcomesAgree_of_plain {t : Span} {x : String} (hform' : form'.Matches (.bind t x))
    (hx : x ∉ v.free) :
    OutcomesAgree config (BindingForm.definition.failure s) (form'.failure s')
      (place.fill (BindingForm.definition.expr s r (.bind t x) v b))
      (place.fill (form'.expr s' r' (.bind t x) v b)) := by
  have hvalue (y : String) (hy : y ∈ v.free) : y ≠ x ∧ y = y :=
    ⟨fun h => hx (h ▸ hy), rfl⟩
  exact outcomesAgree_of_congruent <|
    .plain hform' (fun _ _ => trivial) ⟨rfl, rfl⟩ (congruent_self _ _ v hvalue)
      (congruent_self _ _ b fun y _ => under_eq_self [x] y)

/-- One form with other spans. -/
theorem outcomesAgree_of_spans :
    OutcomesAgree config (BindingForm.definition.failure s) (BindingForm.definition.failure s')
      (place.fill (.bind s p v b)) (place.fill (.bind s' p v b)) :=
  outcomesAgree_of_congruent <|
    .bind trivial (.refl (fun _ => trivial) (fun _ => rfl) p)
      (congruent_self _ _ v fun x _ => under_eq_self p.ownNames x)
      (congruent_self _ _ b fun x _ => under_eq_self p.names x)

end Forms

/-- **The forms of a binding agree.**  For every program, every place in it, every pattern and any
two expressions, it makes no difference whether the place is filled with `let p = v in b`, with
`(\p -> b) v` or with `case v of p -> b`: the texts and the work are the same, or the errors are the
same up to their spans, at the limit on the nesting too, or each form reports in its own way that
this very match has failed.  Only if one of them is a `let` of a plain name, its value must not use
the name.

What a form reports when the match fails is its own failure, at its own span. -/
theorem forms_agree (config : Config) (place : Place) (p : Pattern) (v b : Expr)
    (form form' : BindingForm) (s r s' r' : Span)
    (h : form = .definition ∨ form' = .definition → ∀ x ∈ p.ownNames, x ∉ v.free) :
    OutcomesAgree config (form.failure s) (form'.failure s') (place.fill (form.expr s r p v b))
        (place.fill (form'.expr s' r' p v b)) ∧
      ∀ (n : Nat) (env : EnvId) (m m' : Machine), form.Matches p →
        (do
          let t ← Eval.suspend v env
          Eval.bindingsOf (Eval.force (Eval.eval config (n + 1))) p t) m = .ok none m' →
        Eval.eval config (n + 2) (form.expr s r p v b) env m = .error (form.failure s) m' := by
  refine ⟨?_, fun n env m m' hform hmatch => ?_⟩
  · -- only a `let` of a plain name does not match: it binds the name without a match
    have hplain (form : BindingForm) (hform : ¬form.Matches p) :
        form = .definition ∧ ∃ t x, p = .bind t x := by
      obtain ⟨hdefinition, hname⟩ := Classical.not_imp.1 hform
      cases p with
      | bind t x => exact ⟨hdefinition, t, x, rfl⟩
      | _ => exact absurd rfl hname
    by_cases hform : form.Matches p
    · by_cases hform' : form'.Matches p
      · exact outcomesAgree_of_matches hform hform'
      · obtain ⟨rfl, t, x, rfl⟩ := hplain form' hform'
        exact (outcomesAgree_of_plain hform (h (.inr rfl) x (List.mem_singleton_self x))).symm
    · obtain ⟨rfl, t, x, rfl⟩ := hplain form hform
      by_cases hform' : form'.Matches (.bind t x)
      · exact outcomesAgree_of_plain hform' (h (.inl rfl) x (List.mem_singleton_self x))
      · obtain ⟨rfl, -⟩ := hplain form' hform'
        exact outcomesAgree_of_spans
  · -- the failure is that of the form, behind the same suspension and the same match
    rw [Eval.eval_succ, Congruence.step_form hform]
    unfold Congruence.matchBody
    rw [← bind_assoc]
    show EStateM.bind _ _ m = _
    unfold EStateM.bind
    rw [hmatch]
    rfl

/-- In `1 + HOLE` a pair is taken apart, and a number cannot be.  The `let` and the `case` of a name
agree although the value is an unbound name. -/
theorem forms_agree_pair :
    let number (n : Int) : Expr := .integer .unknown n
    let name (x : String) : Expr := .identifier .unknown x
    let s (line : Nat) : Span := ⟨⟨0, line, 1⟩, ⟨0, line, 2⟩⟩
    let place : Place := .inRhs .unknown .add (number 1) .hole
    let pair : Pattern := .tuple .unknown [.bind .unknown "x", .wildcard .unknown]
    let run (form : BindingForm) (line : Nat) (p : Pattern) (v : Expr) :=
      place.fill (form.expr (s line) .unknown p v (name "x"))
    let value : Expr := .tuple .unknown [number 2, name "y"]
    let x : Pattern := .bind .unknown "x"
    ((run .definition 1 pair value).valueText {} = .ok "3" ∧
        OutcomesAgree {} (BindingForm.definition.failure (s 1))
          (BindingForm.application.failure (s 2)) (run .definition 1 pair value)
          (run .application 2 pair value)) ∧
      ((run .application 1 pair (number 5)).valueText {} =
          .error (BindingForm.application.failure (s 1)) ∧
        (run .selection 2 pair (number 5)).valueText {} =
          .error (BindingForm.selection.failure (s 2)) ∧
        OutcomesAgree {} (BindingForm.application.failure (s 1))
          (BindingForm.selection.failure (s 2)) (run .application 1 pair (number 5))
          (run .selection 2 pair (number 5))) ∧
      ("x" ∉ (name "y").free ∧ OutcomesAgree {} (BindingForm.definition.failure (s 1))
        (BindingForm.selection.failure (s 2)) (run .definition 1 x (name "y"))
        (run .selection 2 x (name "y"))) := by
  intro number name s place pair run value x
  -- the pair has no names of its own, so that nothing is asked of the value
  have hpair (v : Expr) (form form' : BindingForm) := (forms_agree {} place pair v (name "x") form
    form' (s 1) .unknown (s 2) .unknown fun _ x hx => absurd hx List.not_mem_nil).1
  have hname := (forms_agree {} place x (name "y") (name "x") .definition .selection (s 1)
    .unknown (s 2) .unknown (by decide)).1
  exact ⟨⟨by decide +kernel, hpair value _ _⟩,
    ⟨by decide +kernel, by decide +kernel, hpair (number 5) _ _⟩, by decide, hname⟩

end Expr

end CallByNeed

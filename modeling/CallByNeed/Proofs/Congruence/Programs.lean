import CallByNeed.Proofs.Congruence.Evaluation

/-!
# Congruent programs do the same

Printing runs alike as evaluation does (`renders_renderAt`).  So congruent programs print the same
text and do the same work, or fail with errors that differ no more than the programs may
(`Expr.Congruent.outcome_cases`).

Programs that differ in their spans only are congruent, and so are those that differ in the value of
a binding that is not used.  Hence nothing but the place that an error points at depends on spans
(`Expr.outcome_eq_of_same`), and it makes no difference what is bound to an unused name
(`Expr.outcome_fill_of_unused`).  A program is congruent to itself under every relation that holds
between the span of each of its parts and the same span: two runs of one program show that an
evaluation error points at a part of the program, or nowhere (`Expr.span_of_valueText`).
-/

namespace CallByNeed

namespace Congruence

variable {l : Leeway} {w : World}

/-! ### Printing -/

variable (l) in
/-- Congruent values print alike. -/
def Renders (render : Value → Eval String) : Prop :=
  ∀ ⦃w : World⦄ ⦃v v' : Value⦄, w.Values l v v' →
    Runs l w (fun _ => Eq) (render v) (render v')

section Render

variable {force : ThunkId → Eval Value} {nested : Value → Eval String}

section Elements

variable {element : ThunkId → Eval String}
  (helement : ∀ ⦃w : World⦄ ⦃t : ThunkId⦄, t ∈ w.live →
    Runs l w (fun _ => Eq) (element t) (element t))

include helement

theorem runs_commaSeparated {ts : List ThunkId} (hts : ∀ t ∈ ts, t ∈ w.live) :
    Runs l w (fun _ => Eq) (Eval.commaSeparated element ts) (Eval.commaSeparated element ts) := by
  induction ts generalizing w with
  | nil => exact runs_pure rfl
  | cons t ts ih =>
    obtain ⟨ht, hts⟩ := List.forall_mem_cons.1 hts
    cases ts with
    | nil => exact helement ht
    | cons u ts =>
      refine (helement ht).bind ?_
      rintro w₁ first _ hw₁ rfl
      refine (ih fun x hx => hw₁.1 x (hts x hx)).bind ?_
      rintro w₂ rest _ hw₂ rfl
      exact runs_pure rfl

theorem runs_colonTerminated {ts : List ThunkId} (hts : ∀ t ∈ ts, t ∈ w.live) :
    Runs l w (fun _ => Eq) (Eval.colonTerminated element ts)
      (Eval.colonTerminated element ts) := by
  induction ts generalizing w with
  | nil => exact runs_pure rfl
  | cons t ts ih =>
    obtain ⟨ht, hts⟩ := List.forall_mem_cons.1 hts
    refine (helement ht).bind ?_
    rintro w₁ first _ hw₁ rfl
    refine (ih fun x hx => hw₁.1 x (hts x hx)).bind ?_
    rintro w₂ rest _ hw₂ rfl
    exact runs_pure rfl

/-- A chain of cells that ends in something else shows its end. -/
theorem runs_improper (hnested : Renders l nested) {ts : List ThunkId}
    (hts : ∀ t ∈ ts, t ∈ w.live) {last last' : Value} (hlast : w.Values l last last') :
    Runs l w (fun _ => Eq)
      (do
        let shown ← Eval.colonTerminated element ts
        Eval.countHit
        return shown ++ (← nested last))
      (do
        let shown ← Eval.colonTerminated element ts
        Eval.countHit
        return shown ++ (← nested last')) := by
  refine (runs_colonTerminated helement hts).bind ?_
  rintro w₁ shown _ hw₁ rfl
  refine runs_countHit.bind fun w₂ _ _ hw₂ _ => ?_
  refine (hnested (hlast.mono (World.le_trans hw₁ hw₂))).bind ?_
  rintro w₃ text _ hw₃ rfl
  exact runs_pure rfl

end Elements

variable (l) in
/-- The same heads, which may be demanded, and congruent values behind them. -/
structure World.Spines (w : World) (r r' : List ThunkId × Value) : Prop where
  heads_eq : r.1 = r'.1
  live : ∀ t ∈ r.1, t ∈ w.live
  values : w.Values l r.2 r'.2

theorem runs_spine (hforce : Forces l force) (room : Nat) {v v' : Value}
    (hv : w.Values l v v') :
    Runs l w (World.Spines l) (Eval.spine force room v) (Eval.spine force room v') := by
  have hend {w : World} {v v' : Value} (hv : w.Values l v v') :
      Runs l w (World.Spines l) (pure ([], v)) (pure ([], v')) :=
    runs_pure ⟨rfl, by simp, hv⟩
  induction room generalizing w v v' with
  | zero => exact hend hv
  | succ room ih =>
    cases hv with
    | cons ht hu =>
      refine (hforce hu).bind fun w₁ next next' hw₁ hnext => ?_
      refine (ih hnext).bind ?_
      rintro w₂ ⟨heads, last⟩ ⟨_, last'⟩ hw₂ ⟨rfl, hheads, hlast⟩
      exact runs_pure ⟨rfl, List.forall_mem_cons.2 ⟨hw₂.1 _ (hw₁.1 _ ht), hheads⟩, hlast⟩
    | integer n => exact hend (.integer n)
    | boolean b => exact hend (.boolean b)
    | closure henv hp hb => exact hend (.closure henv hp hb)
    | tuple hts => exact hend (.tuple hts)
    | nil => exact hend .nil

/-- **Congruent values print alike** if demands and the printing of elements run alike. -/
theorem renders_renderWith (hunknown : l.spans .unknown .unknown) (config : Config)
    (hforce : Forces l force) (hnested : Renders l nested) :
    Renders l (Eval.renderWith config force nested) := by
  intro w v v' hv
  have helement ⦃w : World⦄ ⦃t : ThunkId⦄ (ht : t ∈ w.live) :
      Runs l w (fun _ => Eq) (do nested (← force t)) (do nested (← force t)) :=
    (hforce ht).bind fun _ _ _ _ hv => hnested hv
  cases hv with
  | integer n => exact runs_pure rfl
  | boolean b => exact runs_pure rfl
  | closure henv hp hb => exact runs_pure rfl
  | nil => exact runs_pure rfl
  | tuple hts =>
    refine (runs_commaSeparated helement fun t ht => hts t (List.mem_of_mem_take ht)).bind ?_
    rintro w₁ shown _ hw₁ rfl
    exact runs_pure rfl
  | cons hhead htail =>
    -- the tail is demanded before any of the elements, and how the list ends decides what is shown
    refine (hforce htail).bind fun w₁ next next' hw₁ hnext => ?_
    refine (runs_spine hforce _ hnext).bind ?_
    rintro w₂ ⟨heads, last⟩ ⟨_, last'⟩ hw₂ ⟨rfl, hheads, hlast⟩
    have helems := List.forall_mem_cons.2 ⟨hw₂.1 _ (hw₁.1 _ hhead), hheads⟩
    have hlist := runs_commaSeparated (w := w₂) helement helems
    have himproper := @runs_improper l w₂ nested _ helement hnested _ helems
    cases hlast with
    | nil =>
      refine hlist.bind ?_
      rintro w₃ shown _ hw₃ rfl
      exact runs_pure rfl
    | cons _ _ =>
      simp only
      split
      · exact runs_throw (.same rfl hunknown)
      · refine hlist.bind ?_
        rintro w₃ shown _ hw₃ rfl
        exact runs_pure rfl
    | integer n => exact himproper (.integer n)
    | boolean b => exact himproper (.boolean b)
    | closure henv hp hb => exact himproper (.closure henv hp hb)
    | tuple hts => exact himproper (.tuple hts)

end Render

/-- **Congruent values print alike**, with whatever number of levels left. -/
theorem renders_renderAt (hunknown : l.spans .unknown .unknown) (config : Config) (n : Nat) :
    Renders l (Eval.renderAt config n) := by
  have hforce (k : Nat) : Forces l (Eval.force (Eval.eval config k)) :=
    (evaluates_eval config k).1.force
  induction n with
  | zero =>
    have hlimit : Renders l fun _ => Eval.limitReached config .unknown :=
      fun _ _ _ _ => runs_throw (.same rfl hunknown)
    exact renders_renderWith hunknown config (hforce 0) hlimit
  | succ n ih => exact renders_renderWith hunknown config (hforce (n + 1)) ih

/-! ### Whole programs -/

/-- What two fresh machines know of each other. -/
def World.initial : World :=
  ⟨∅, Machine.initial.environments, Machine.initial.environments⟩

theorem World.consistent_initial :
    World.initial.Consistent l Machine.initial Machine.initial where
  left := rfl
  right := rfl
  frames := rfl
  size := rfl
  work := ⟨rfl, rfl, rfl⟩
  lt_size _ h := h.elim
  cells _ h := h.elim

/-- Nothing is bound in the root of a fresh machine. -/
theorem World.opens_initial : World.initial.Opens Eq Environments.root Environments.root where
  left_lt := by decide
  right_lt := by decide
  same x _ hx := hx ▸ rfl
  live x x' _ t ht := by
    change Environments.initial.lookup Environments.root x = some t at ht
    rw [Environments.lookup] at ht
    cases ht
  found _ _ hx hne := absurd hx hne

end Congruence

namespace Expr

/-- What a run of a program shows: the text of its value or the error, and the work done. -/
def outcome (config : Config) (e : Expr) : Except EvalError String × Stats :=
  (e.valueText config, e.valueStats config)

/-- **Congruent programs have the same outcome**: they print the same text and do the same work, or
fail with errors that differ no more than the programs may.  Errors of the printer point nowhere. -/
theorem Congruent.outcome_cases {l : Leeway} (hunknown : l.spans .unknown .unknown)
    (config : Config) {e e' : Expr} (h : Congruent l Eq e e') :
    (∃ text, e.valueText config = .ok text ∧ e'.valueText config = .ok text ∧
        e.valueStats config = e'.valueStats config) ∨
      ∃ err err', e.valueText config = .error err ∧ e'.valueText config = .error err' ∧
        l.Errors err err' ∧ (l.Exact → e.valueStats config = e'.valueStats config) := by
  have hrun : Congruence.Runs l .initial (fun _ => Eq)
      (do Eval.render config (← Eval.evaluate config e))
      (do Eval.render config (← Eval.evaluate config e')) := by
    refine ((Congruence.evaluates_eval config config.maxDepth).1
      Congruence.World.opens_initial h).bind fun w v v' _ hv => ?_
    exact Congruence.renders_renderAt hunknown config config.maxDepth hv
  have hagree := hrun _ _ Congruence.World.consistent_initial
  unfold valueText valueStats
  simp only
  generalize (do Eval.render config (← Eval.evaluate config e) : Eval String) Machine.initial = r
    at hagree ⊢
  generalize (do Eval.render config (← Eval.evaluate config e') : Eval String) Machine.initial = r'
    at hagree ⊢
  cases hagree with
  | ok _ hm htext => exact .inl ⟨_, rfl, congrArg Except.ok htext.symm, hm.stats_eq⟩
  | error herror hstats => exact .inr ⟨_, _, rfl, rfl, herror, hstats⟩

/-! ### Spans -/

/-- **A program does the same without its spans.** -/
theorem outcome_bare (config : Config) (e : Expr) :
    (e.valueText config).mapError EvalError.bare =
        (e.bare.valueText config).mapError EvalError.bare ∧
      e.valueStats config = e.bare.valueStats config := by
  let l := Leeway.onlySpans fun _ _ => True
  have hbare : Congruent l Eq e e.bare :=
    congruent_bare (fun _ => trivial) (fun _ => rfl) e fun _ => rfl
  obtain ⟨text, he, hf, hstats⟩ | ⟨err, err', he, hf, herr, hstats⟩ :=
    hbare.outcome_cases trivial config
  · exact ⟨by rw [he, hf], hstats⟩
  · refine ⟨?_, hstats (Leeway.exact_onlySpans _)⟩
    rw [he, hf]
    exact congrArg Except.error (Leeway.errors_onlySpans_iff.1 herr).1

/-- **Evaluation depends only on the tree.**  Programs that are the same up to spans print the same
text or fail with the same error up to its span, and do the same work. -/
theorem outcome_eq_of_same (config : Config) {e f : Expr} (h : e.same f = true) :
    (e.valueText config).mapError EvalError.bare = (f.valueText config).mapError EvalError.bare ∧
      e.valueStats config = f.valueStats config := by
  have hbare : e.bare = f.bare := (same_iff e f).1 h
  rw [(outcome_bare config e).1, (outcome_bare config e).2, hbare]
  exact ⟨(outcome_bare config f).1.symm, (outcome_bare config f).2.symm⟩

/-- Two programs on other lines, of which the first prints a pair and the second adds a truth
value. -/
theorem outcome_eq_of_same_lines :
    let span (line : Nat) : Span := ⟨⟨line, line, 1⟩, ⟨line + 1, line, 2⟩⟩
    let pair (line : Nat) : Expr := .bind (span line) (.bind (span line) "x")
      (.integer (span line) 1) (.tuple (span line) [.identifier (span line) "x", .nil (span line)])
    let sum (line : Nat) : Expr := .binary (span line) .add (.boolean (span line) true)
      (.integer (span line) 1)
    ((pair 1).same (pair 2) = true ∧ (pair 1).valueText {} = .ok "(1, [])" ∧
        (pair 1).valueStats {} = (pair 2).valueStats {}) ∧
      (sum 1).same (sum 2) = true ∧
        (sum 1).valueText {} = .error (.typeMismatch "integer" "boolean" (span 1)) ∧
        ((sum 2).valueText {}).mapError EvalError.bare =
          .error (.typeMismatch "integer" "boolean" .unknown) := by
  intro span pair sum
  have hpair : (pair 1).same (pair 2) = true := by decide +kernel
  have hsum : (sum 1).same (sum 2) = true := by decide +kernel
  have hfail : (sum 1).valueText {} = .error (.typeMismatch "integer" "boolean" (span 1)) := by
    decide +kernel
  have h := outcome_eq_of_same {} hpair
  have h' := outcome_eq_of_same {} hsum
  exact ⟨⟨hpair, by decide +kernel, h.2⟩, hsum, hfail, by rw [← h'.1, hfail]; rfl⟩

/-- **An evaluation error points at a part of the program, or nowhere.** -/
theorem span_of_valueText {config : Config} {e : Expr} {err : EvalError}
    (h : e.valueText config = .error err) :
    err.span = .unknown ∨ ∃ n : Node, n.Within (.expr e) ∧ n.span = err.span := by
  let Blamed (span : Span) : Prop :=
    span = .unknown ∨ ∃ n : Node, n.Within (.expr e) ∧ n.span = span
  let l := Leeway.onlySpans fun s s' => s = s' ∧ Blamed s
  have hself : Congruent l Eq e e :=
    .self (fun _ => rfl) (fun n hn => ⟨rfl, .inr ⟨n, hn, rfl⟩⟩) fun _ _ => rfl
  have hunknown : l.spans .unknown .unknown := ⟨rfl, .inl rfl⟩
  obtain ⟨text, hok, -⟩ | ⟨_, _, herr, -, herrors, -⟩ := hself.outcome_cases hunknown config
  · rw [h] at hok
    cases hok
  · obtain rfl : err = _ := by simpa [h] using herr
    exact (Leeway.errors_onlySpans_iff.1 herrors).2.2

/-! ### Bindings that are not used -/

/-- **What is bound to an unused name makes no difference.**  At any place of any program the value
of a `let`, the argument of a function and the subject of a `case` may be replaced by any other
expression, provided that the name they are bound to does not occur free in the body: text or
error, the span of the error and the work done stay the same. -/
theorem outcome_fill_of_unused (config : Config) (place : Place) {x : String} {b : Expr}
    (hx : x ∉ b.free) (v v' : Expr) (s r t : Span) :
    (place.fill (.bind s (.bind t x) v b)).outcome config =
        (place.fill (.bind s (.bind t x) v' b)).outcome config ∧
      (place.fill (.apply s (.lambda r (.bind t x) b) v)).outcome config =
          (place.fill (.apply s (.lambda r (.bind t x) b) v')).outcome config ∧
        (place.fill (.cases s v [(.bind t x, b)])).outcome config =
          (place.fill (.cases s v' [(.bind t x, b)])).outcome config := by
  let l := Leeway.onlySpans Eq
  have hbody : Congruent l (fun y y' => y ≠ x ∧ y' ≠ x ∧ y = y') b b :=
    .refl (fun _ => rfl) (fun _ => rfl) b fun y hy =>
      have hne : y ≠ x := fun h => hx (h ▸ hy)
      ⟨hne, hne, rfl⟩
  have hform (form : BindingForm) :
      (place.fill (form.expr s r (.bind t x) v b)).outcome config =
        (place.fill (form.expr s r (.bind t x) v' b)).outcome config := by
    have hsame : Congruent l Eq (form.expr s r (.bind t x) v b) (form.expr s r (.bind t x) v' b) :=
      .unused form v v' rfl rfl hbody
    have hplace := hsame.fill (fun _ => rfl) (fun _ => rfl) place fun _ => rfl
    unfold outcome
    obtain ⟨text, he, hf, hstats⟩ | ⟨err, err', he, hf, herr, hstats⟩ :=
      hplace.outcome_cases rfl config
    · rw [he, hf, hstats]
    · obtain ⟨hbare, hspan⟩ := Leeway.errors_onlySpans_iff.1 herr
      rw [he, hf, hstats (Leeway.exact_onlySpans _), EvalError.eq_of_bare_eq hbare hspan]
  exact ⟨hform .definition, hform .application, hform .selection⟩

/-- In `(\z -> HOLE) 1` the value of `x` in `let x = ... in (\x -> x) z` may be a number, an
unbound name or a demand that never ends. -/
theorem outcome_fill_of_unused_shadowed :
    let name (x : String) : Expr := .identifier .unknown x
    let place : Place := .inFunc .unknown (.inLambda .unknown (.bind .unknown "z") .hole)
      (.integer .unknown 1)
    let body : Expr := .apply .unknown (.lambda .unknown (.bind .unknown "x") (name "x")) (name "z")
    let program (v : Expr) : Expr := place.fill (.bind .unknown (.bind .unknown "x") v body)
    "x" ∉ body.free ∧ ((program (.integer .unknown 5)).valueText {} = .ok "1" ∧
      (program (name "y")).outcome {} = (program (.integer .unknown 5)).outcome {}) ∧
        (program (name "x")).outcome {} = (program (.integer .unknown 5)).outcome {} := by
  intro name place body program
  have hx : "x" ∉ body.free := by decide
  have h (v : Expr) := (outcome_fill_of_unused {} place hx v (.integer .unknown 5) .unknown .unknown
    .unknown).1
  exact ⟨hx, ⟨by decide +kernel, h (name "y")⟩, h (name "x")⟩

end Expr

end CallByNeed

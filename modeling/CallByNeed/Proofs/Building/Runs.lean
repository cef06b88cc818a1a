import CallByNeed.Proofs.Building.Builder
import CallByNeed.Proofs.Building.Legible
import CallByNeed.Proofs.Reading.Expr

/-!
# A builder and a parser side by side

A builder and the parser that it follows are run on the same stream (`Builder.Runs`).  Both end with
the same error, or with a number and the tree that it stands for; and in both cases the arena has
grown, so that the old nodes are as they were.  There is one rule for each way to put a reader
together: steps that both make (`Runs.bind`), steps that only the builder makes (`Runs.bindPure`),
tokens (`runs_read_bind`, `runs_peek_bind`) and nodes (`runs_pattern`, `runs_expr`).

What a reader yields stays what it is while later readers add their nodes, since these change no
node that was there when they began (`Reads.runs`).
-/

namespace CallByNeed

/-- Whether a pattern can be printed does not depend on its span. -/
theorem Pattern.printable_withSpan {p : Pattern} (h : p.Printable) (span : Span) :
    (p.withSpan span).Printable := by
  cases p <;> exact h

/-- Whether an expression can be printed does not depend on its span. -/
theorem Expr.printable_withSpan {e : Expr} (h : e.Printable) (span : Span) :
    (e.withSpan span).Printable := by
  cases e <;> exact h

namespace Builder

variable {α β γ δ : Type} {table : OperatorTable} {base a b : Arena}

/-! ### Rules -/

/-- The results correspond, and the arena has grown. -/
inductive Outcome (base : Arena) (R : Arena → α → β → Prop) :
    EStateM.Result Failure (TokenStream × Arena) α → Except Failure (β × TokenStream) → Prop where
  | ok {s : TokenStream} {a : Arena} {x : α} {y : β} (hs : s.Legible) (ha : base.Grown a)
    (hxy : R a x y) : Outcome base R (.ok x (s, a)) (.ok (y, s))
  | error {s : TokenStream} {a : Arena} {why : Failure} (ha : base.Grown a) :
    Outcome base R (.error why (s, a)) (.error why)

/-- From an arena that has grown out of `base` the builder does what the parser does. -/
def Runs (base a : Arena) (R : Arena → α → β → Prop) (x : Builder α) (y : Parser β) : Prop :=
  base.Grown a → ∀ s : TokenStream, s.Legible → Outcome base R (x (s, a)) (y.run s)

section Rules

variable {R R' : Arena → α → β → Prop} {S : Arena → γ → δ → Prop} {x : Builder α} {y : Parser β}
  {f : α → Builder γ}

theorem runs_pure {v : α} {w : β} (h : R a v w) : Runs base a R (pure v) (pure w) :=
  fun ha _ hs => .ok hs ha h

theorem runs_stop (why : Failure) : Runs base a R (read (.stop why)) (.stop why) :=
  fun ha _ _ => .error ha

theorem runs_throw (why : Failure) : Runs base a R (throw why) (.stop why) :=
  fun ha _ _ => .error ha

/-- Less may be said about the results. -/
theorem Runs.imp (h : Runs base a R x y) (hR : ∀ b v w, R b v w → R' b v w) :
    Runs base a R' x y := by
  intro ha s hs
  have hxy := h ha s hs
  generalize x (s, a) = r at hxy ⊢
  generalize y.run s = r' at hxy ⊢
  cases hxy with
  | ok hs' hb hvw => exact .ok hs' hb (hR _ _ _ hvw)
  | error hb => exact .error hb

theorem Runs.right (h : Runs base a (fun b v w => R b v w ∧ R' b v w) x y) :
    Runs base a R' x y :=
  h.imp fun _ _ _ hvw => hvw.2

/-- **Runs follow each other.** -/
theorem Runs.bind {g : β → Parser δ} (hx : Runs base a R x y)
    (hf : ∀ b v w, R b v w → Runs base b S (f v) (g w)) :
    Runs base a S (x >>= f) (y >>= g) := by
  intro ha s hs
  have h := hx ha s hs
  change Outcome base S (EStateM.bind x f (s, a)) ((Parser.andThen y g).run s)
  rw [Parser.run]
  unfold EStateM.bind
  generalize x (s, a) = r at h ⊢
  generalize y.run s = r' at h ⊢
  cases h with
  | ok hs' hb hvw => exact hf _ _ _ hvw hb _ hs'
  | error hb => exact .error hb

/-- **A step of the builder alone**, where the parser has its value without reading. -/
theorem Runs.bindPure {w : β} {z : Parser δ} (hx : Runs base a R x (pure w))
    (hf : ∀ b v, R b v w → Runs base b S (f v) z) : Runs base a S (x >>= f) z := by
  intro ha s hs
  have h : Outcome base R (x (s, a)) (.ok (w, s)) := hx ha s hs
  change Outcome base S (EStateM.bind x f (s, a)) (z.run s)
  unfold EStateM.bind
  generalize x (s, a) = r at h ⊢
  cases h with
  | ok hs' hb hvw => exact hf _ _ hvw hb _ hs'

/-- Nothing follows an error. -/
theorem Runs.bindStop {why : Failure} (hx : Runs base a R x (.stop why)) :
    Runs base a S (x >>= f) (.stop why) := by
  intro ha s hs
  have h : Outcome base R (x (s, a)) (.error why) := hx ha s hs
  change Outcome base S (EStateM.bind x f (s, a)) (.error why)
  unfold EStateM.bind
  generalize x (s, a) = r at h ⊢
  cases h with
  | error hb => exact .error hb

theorem read_apply (p : Parser α) (s : TokenStream) (a : Arena) :
    read p (s, a) = match p.run s with
      | .ok (v, s) => .ok v (s, a)
      | .error why => .error why (s, a) := rfl

/-- **Tokens are read**, and the arena is left alone. -/
theorem runs_read_bind (p : Parser α) {f : α → Builder γ} {g : α → Parser δ}
    (h : ∀ v, Runs base a S (f v) (g v)) : Runs base a S (read p >>= f) (p >>= g) := by
  have hread : Runs base a (fun b v w => a = b ∧ v = w) (read p) p := by
    intro ha s hs
    rw [read_apply]
    cases hrun : p.run s with
    | ok result => exact .ok (p.legible_of_run hs hrun) ha ⟨rfl, rfl⟩
    | error why => exact .error ha
  refine hread.bind ?_
  rintro _ v _ ⟨rfl, rfl⟩
  exact h v

/-- **A token is looked at.**  It is legible. -/
theorem runs_peek_bind {f : Located Token → Builder γ} {g : Located Token → Parser δ}
    (h : ∀ t, t.value.Legible → Runs base a S (f t) (g t)) :
    Runs base a S (read .peek >>= f) (.peek >>= g) := by
  have hpeek : Runs base a (fun b t u => a = b ∧ t = u ∧ t.value.Legible) (read .peek) .peek := by
    intro ha s hs
    rw [read_apply, Parser.run]
    cases hpeek : s.peek with
    | ok result =>
      obtain ⟨ht, hs'⟩ := hs.peek hpeek
      exact .ok hs' ha ⟨rfl, rfl, ht⟩
    | error e => exact .error ha
  refine hpeek.bind ?_
  rintro _ t _ ⟨rfl, rfl, ht⟩
  exact h t ht

/-- A node is looked up that is there, which the parser does not see. -/
theorem runs_withNode {view : Arena → Option γ} {use : Arena → γ → α × Arena} {v : γ} {w : β}
    (hview : view a = some v) (hgrown : base.Grown a → base.Grown (use a v).2)
    (h : R (use a v).2 (use a v).1 w) : Runs base a R (withNode view use) (pure w) := by
  intro ha s hs
  have happly : withNode view use (s, a) = .ok (use a v).1 (s, (use a v).2) := by
    simp only [withNode, hview]
  rw [happly]
  exact .ok hs (hgrown ha) h

end Rules

/-! ### Readers -/

/-- The relation between numbers and trees stays when nodes are added, and when more nodes count as
new. -/
structure Stable (R : Arena → Arena → α → β → Prop) : Prop where
  mono : ∀ {base a b : Arena} {v : α} {w : β}, R base a v w → a.Extends b → R base b v w
  weaken : ∀ {base a b : Arena} {v : α} {w : β}, R a b v w → base.Grown a → R base b v w

/-- The builder reads what the parser reads, and all that it yields is new. -/
def Reads (R : Arena → Arena → α → β → Prop) (x : Builder α) (y : Parser β) : Prop :=
  ∀ a, Runs a a (R a) x y

/-- **A reader is called.**  The arena that it leaves goes on from the one that it was given. -/
theorem Reads.runs {R : Arena → Arena → α → β → Prop} {x : Builder α} {y : Parser β}
    (h : Reads R x y) (hR : Stable R) :
    Runs base a (fun b v w => a.Extends b ∧ R base b v w) x y := by
  intro ha s hs
  -- the reader counts from `a`; what is new there is new for `base` as well
  have hxy := h a (.refl a) s hs
  generalize x (s, a) = r at hxy ⊢
  generalize y.run s = r' at hxy ⊢
  cases hxy with
  | ok hs' hb hvw => exact .ok hs' (ha.trans hb) ⟨hb.extends, hR.weaken hvw ha⟩
  | error hb => exact .error (ha.trans hb)

/-- A pattern that has been read. -/
structure PatternRead (base a : Arena) (id : PatternId) (p : Pattern) : Prop extends
    base.NewPattern a id p where
  printable : p.Printable

/-- An expression that has been read with the operators of a table.  It can be printed if these
make nothing else. -/
structure ExprRead (table : OperatorTable) (base a : Arena) (id : ExprId) (e : Expr) : Prop extends
    base.NewExpr a id e where
  printable : table.Basic → e.Printable

/-- An option that has been read. -/
structure OptionRead (table : OperatorTable) (base a : Arena) (ids : PatternId × ExprId)
    (option : Pattern × Expr) : Prop where
  pattern : PatternRead base a ids.1 option.1
  body : ExprRead table base a ids.2 option.2

/-- Several things that have been read. -/
def AllRead (R : Arena → Arena → α → β → Prop) (base a : Arena) : List α → List β → Prop :=
  List.Forall₂ (R base a)

theorem stable_pattern : Stable PatternRead where
  mono h hb := ⟨h.toNewPattern.mono hb, h.printable⟩
  weaken h ha := ⟨h.toNewPattern.weaken ha, h.printable⟩

theorem stable_expr : Stable (ExprRead table) where
  mono h hb := ⟨h.toNewExpr.mono hb, h.printable⟩
  weaken h ha := ⟨h.toNewExpr.weaken ha, h.printable⟩

theorem stable_option : Stable (OptionRead table) where
  mono h hb := ⟨stable_pattern.mono h.pattern hb, stable_expr.mono h.body hb⟩
  weaken h ha := ⟨stable_pattern.weaken h.pattern ha, stable_expr.weaken h.body ha⟩

theorem Stable.all {R : Arena → Arena → α → β → Prop} (hR : Stable R) : Stable (AllRead R) where
  mono h hb := h.imp fun _ _ hvw => hR.mono hvw hb
  weaken h ha := h.imp fun _ _ hvw => hR.weaken hvw ha

section Printable

theorem printableAll_of_patterns {ids : List PatternId} {ps : List Pattern}
    (h : AllRead PatternRead base a ids ps) : Pattern.PrintableAll ps := by
  induction h with
  | nil => trivial
  | cons hp _ ih => exact ⟨hp.printable, ih⟩

theorem printableAll_of_exprs {ids : List ExprId} {es : List Expr}
    (h : AllRead (ExprRead table) base a ids es) (htable : table.Basic) : Expr.PrintableAll es := by
  induction h with
  | nil => trivial
  | cons he _ ih => exact ⟨he.printable htable, ih⟩

theorem printableOptions_of_options {ids : List (PatternId × ExprId)}
    {options : List (Pattern × Expr)} (h : AllRead (OptionRead table) base a ids options)
    (htable : table.Basic) : Expr.PrintableOptions options := by
  induction h with
  | nil => trivial
  | cons ho _ ih => exact ⟨ho.pattern.printable, ho.body.printable htable, ih⟩

end Printable

/-! ### Nodes -/

/-- A span that a node gets right after it was added is the span that it was added with. -/
theorem respan_push {N : Type} (nodes : Array (Located N)) (node : N) (before span : Span) :
    respan (nodes.push ⟨node, before⟩) nodes.size span = nodes.push ⟨node, span⟩ := by
  apply Array.ext_getElem?
  intro i
  rw [respan, Array.getElem?_modify, Array.getElem?_push, Array.getElem?_push]
  grind

theorem pattern_apply (node : PatternNode) (span : Span) (s : TokenStream) (a : Arena) :
    pattern node span (s, a) =
      .ok (a.pushPattern span node).1 (s, (a.pushPattern span node).2) := by
  have hset : setPatternSpan a.patterns.size span (s, (a.pushPattern .unknown node).2) =
      .ok () (s, (a.pushPattern span node).2) := by
    have hspan : (a.pushPattern .unknown node).2.patternSpan? a.patterns.size = some .unknown := by
      simp [Arena.pushPattern, Arena.patternSpan?]
    have hpush : (a.pushPattern .unknown node).2.respanPattern a.patterns.size span =
        (a.pushPattern span node).2 := by
      rw [Arena.respanPattern, Arena.pushPattern, respan_push]
      rfl
    simp only [setPatternSpan, withNode, hspan, hpush]
  change EStateM.bind (setPatternSpan a.patterns.size span) (fun _ => pure a.patterns.size)
    (s, (a.pushPattern .unknown node).2) = _
  simp only [EStateM.bind, hset]
  rfl

theorem expr_apply (node : ExprNode) (span : Span) (s : TokenStream) (a : Arena) :
    expr node span (s, a) = .ok (a.pushExpr span node).1 (s, (a.pushExpr span node).2) := by
  have hset : setSpan a.exprs.size span (s, (a.pushExpr .unknown node).2) =
      .ok () (s, (a.pushExpr span node).2) := by
    have hspan : (a.pushExpr .unknown node).2.exprSpan? a.exprs.size = some .unknown := by
      simp [Arena.pushExpr, Arena.exprSpan?]
    have hpush : (a.pushExpr .unknown node).2.respanExpr a.exprs.size span =
        (a.pushExpr span node).2 := by
      rw [Arena.respanExpr, Arena.pushExpr, respan_push]
      rfl
    simp only [setSpan, withNode, hspan, hpush]
  change EStateM.bind (setSpan a.exprs.size span) (fun _ => pure a.exprs.size)
    (s, (a.pushExpr .unknown node).2) = _
  simp only [EStateM.bind, hset]
  rfl

/-- **A pattern is made of patterns that have been read.** -/
theorem runs_pattern {node : PatternNode} {p : Span → Pattern} (h : base.MakesPattern a node p)
    (span : Span) (hprintable : (p span).Printable) :
    Runs base a (fun b id p => a.Extends b ∧ PatternRead base b id p) (pattern node span)
      (pure (p span)) := by
  intro ha s hs
  rw [pattern_apply]
  obtain ⟨hgrown, hnew⟩ := h.push ha span
  exact .ok hs hgrown ⟨Arena.extends_pushPattern .., hnew, hprintable⟩

/-- **An expression is made of what has been read.** -/
theorem runs_expr {node : ExprNode} {e : Span → Expr} (h : base.MakesExpr a node e)
    (span : Span) (hprintable : table.Basic → (e span).Printable) :
    Runs base a (fun b id e => a.Extends b ∧ ExprRead table base b id e) (expr node span)
      (pure (e span)) := by
  intro ha s hs
  rw [expr_apply]
  obtain ⟨hgrown, hnew⟩ := h.push ha span
  exact .ok hs hgrown ⟨Arena.extends_pushExpr .., hnew, hprintable⟩

theorem runs_patternSpan_bind {S : Arena → γ → δ → Prop} {f : Span → Builder γ} {z : Parser δ}
    {id : PatternId} {p : Pattern} (hp : PatternRead base a id p)
    (h : Runs base a S (f p.span) z) : Runs base a S (patternSpan id >>= f) z := by
  have hspan : Runs base a (fun b span _ => b = a ∧ span = p.span) (patternSpan id) (pure ()) :=
    runs_withNode (Arena.patternSpan?_eq hp.tree) (fun ha => ha) ⟨rfl, rfl⟩
  refine hspan.bindPure ?_
  rintro _ _ ⟨rfl, rfl⟩
  exact h

theorem runs_exprSpan_bind {S : Arena → γ → δ → Prop} {f : Span → Builder γ} {z : Parser δ}
    {id : ExprId} {e : Expr} (he : ExprRead table base a id e) (h : Runs base a S (f e.span) z) :
    Runs base a S (exprSpan id >>= f) z := by
  have hspan : Runs base a (fun b span _ => b = a ∧ span = e.span) (exprSpan id) (pure ()) :=
    runs_withNode (Arena.exprSpan?_eq he.tree) (fun ha => ha) ⟨rfl, rfl⟩
  refine hspan.bindPure ?_
  rintro _ _ ⟨rfl, rfl⟩
  exact h

/-- **A pattern that has been read is given another span.** -/
theorem runs_setPatternSpan {id : PatternId} {p : Pattern} (h : PatternRead base a id p)
    (span : Span) :
    Runs base a (fun b _ _ => PatternRead base b id (p.withSpan span)) (setPatternSpan id span)
      (pure ()) :=
  runs_withNode (Arena.patternSpan?_eq h.tree) (fun ha => ha.respanPattern h.le span)
    ⟨⟨h.le, Arena.pattern?_respanPattern h.tree span⟩,
      Pattern.printable_withSpan h.printable span⟩

/-- **An expression that has been read is given another span.** -/
theorem runs_setSpan {id : ExprId} {e : Expr} (h : ExprRead table base a id e) (span : Span) :
    Runs base a (fun b _ _ => ExprRead table base b id (e.withSpan span)) (setSpan id span)
      (pure ()) :=
  runs_withNode (Arena.exprSpan?_eq h.tree) (fun ha => ha.respanExpr h.le span)
    ⟨⟨h.le, Arena.expr?_respanExpr h.tree span⟩,
      fun htable => Expr.printable_withSpan (h.printable htable) span⟩

end Builder

end CallByNeed

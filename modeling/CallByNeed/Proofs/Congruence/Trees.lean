import CallByNeed.Error
import CallByNeed.Proofs.Names

/-!
# Programs with the same structure of bindings

What a name is called does not matter, nor by which form it is bound, nor where an expression
stands.  Two programs are congruent (`Expr.Congruent`) if they have the same structure up to that.
The relation carries which names of the first program stand for which names of the second
(`Naming`): below a pattern those of the pattern do, as far as they are in the same places, and hide
what the names stood for outside.  Names that stand for nothing are not used; what is bound to such
a name may be any expression.

How far the two programs may differ is a parameter (`Leeway`): in their spans, in the names that
their patterns bind, and in the form of a binding.  A binding has one of three forms, of which a
`let` of a plain name is special in that the name is bound in its value too.
-/

namespace CallByNeed

/-! ### Errors without spans -/

namespace EvalError

/-- An error with its span forgotten. -/
def bare : EvalError → EvalError
  | unboundVariable name _ => unboundVariable name .unknown
  | notAFunction found _ => notAFunction found .unknown
  | typeMismatch expected found _ => typeMismatch expected found .unknown
  | nonExhaustive _ => nonExhaustive .unknown
  | patternMismatch place _ => patternMismatch place .unknown
  | duplicateBinding name _ => duplicateBinding name .unknown
  | overflow _ => overflow .unknown
  | negativeExponent _ => negativeExponent .unknown
  | infiniteLoop _ => infiniteLoop .unknown
  | recursionLimit limit _ => recursionLimit limit .unknown
  | stackUnavailable size => stackUnavailable size
  | spineLimit limit _ => spineLimit limit .unknown

/-- **An error is known by its span and by what it is without it.** -/
theorem eq_of_bare_eq {e e' : EvalError} (hbare : e.bare = e'.bare) (hspan : e.span = e'.span) :
    e = e' := by
  cases e <;> cases e' <;> simp_all [bare, span]

end EvalError

/-! ### Forms of bindings -/

/-- The forms in which a pattern is matched against one expression, for one body. -/
inductive BindingForm where
  /-- `let p = v in b` -/
  | definition
  /-- `(\p -> b) v` -/
  | application
  /-- `case v of p -> b` -/
  | selection
deriving DecidableEq

namespace BindingForm

/-- The binding as an expression.  The second span is that of the function, if there is one. -/
def expr (s r : Span) (p : Pattern) (v b : Expr) : BindingForm → Expr
  | definition => .bind s p v b
  | application => .apply s (.lambda r p b) v
  | selection => .cases s v [(p, b)]

/-- How it is reported that the pattern does not fit. -/
def failure (s : Span) : BindingForm → EvalError
  | definition => .patternMismatch "let" s
  | application => .patternMismatch "function argument" s
  | selection => .nonExhaustive s

/-- The pattern is matched against the value.  A `let` of a plain name does not match: it makes a
frame in which the name is bound to the value. -/
def Matches (p : Pattern) (form : BindingForm) : Prop :=
  form = definition → p.name? = none

end BindingForm

/-! ### Names -/

/-- Which names on one side stand for which names on the other side. -/
abbrev Naming :=
  String → String → Prop

namespace Naming

/-- A name stands for one name, and one name stands for it. -/
structure OneToOne (ρ : Naming) : Prop where
  left : ∀ {x y x' : String}, ρ x x' → ρ y x' → x = y
  right : ∀ {x x' y' : String}, ρ x x' → ρ x y' → x' = y'

theorem oneToOne_eq : OneToOne Eq :=
  ⟨fun h h' => h.trans h'.symm, fun h h' => h.symm.trans h'⟩

/-- The names below a binding of `xs` on one side and of `xs'` on the other, which stand for each
other as `ρ` says, and outside of it as `outer` says. -/
def under (ρ : Naming) (xs xs' : List String) (outer : Naming) : Naming := fun x x' =>
  x ∈ xs ∧ ρ x x' ∨ x ∉ xs ∧ x' ∉ xs' ∧ outer x x'

variable {ρ outer outer' : Naming} {xs xs' : List String}

theorem under_mono (h : ∀ x x', outer x x' → outer' x x') {x x' : String}
    (hx : under ρ xs xs' outer x x') : under ρ xs xs' outer' x x' :=
  hx.imp_right fun hx => ⟨hx.1, hx.2.1, h x x' hx.2.2⟩

/-- The same names are bound, and a name that is not among them stands for itself outside. -/
theorem under_self {names : List String} (h : ∀ x ∈ names.filter (· ∉ xs), outer x x) :
    ∀ x ∈ names, under Eq xs xs outer x x := by
  intro x hx
  by_cases hbound : x ∈ xs
  · exact .inl ⟨hbound, rfl⟩
  · exact .inr ⟨hbound, hbound, h x (List.mem_filter.2 ⟨hx, decide_eq_true hbound⟩)⟩

/-- All names stand for themselves if they do so outside. -/
theorem under_refl (hxs : xs' = xs) (h : ∀ x, outer x x) (x : String) :
    under Eq xs xs' outer x x :=
  hxs ▸ under_self (fun x _ => h x) x (List.mem_singleton_self x)

end Naming

/-! ### What may differ -/

/-- How far two programs may differ. -/
structure Leeway where
  /-- The spans in the same places. -/
  spans : Span → Span → Prop
  /-- The names that are bound in the same places. -/
  names : Naming
  /-- The ways in which forms of a binding that stand for each other report that their pattern does
  not fit. -/
  failures : EvalError → EvalError → Prop

namespace Leeway

/-- Programs that differ in their spans only. -/
def onlySpans (spans : Span → Span → Prop) : Leeway :=
  ⟨spans, Eq, fun _ _ => False⟩

/-- Bindings have the same form on both sides. -/
def Exact (l : Leeway) : Prop :=
  ∀ e e', ¬l.failures e e'

/-- The errors differ no more than the programs. -/
inductive Errors (l : Leeway) : EvalError → EvalError → Prop where
  | same {e e' : EvalError} (hbare : e.bare = e'.bare) (hspan : l.spans e.span e'.span) :
    Errors l e e'
  | duplicate {x x' : String} {s s' : Span} (hname : l.names x x') (hs : l.spans s s') :
    Errors l (.duplicateBinding x s) (.duplicateBinding x' s')
  | failure {e e' : EvalError} (h : l.failures e e') : Errors l e e'

theorem exact_onlySpans (spans : Span → Span → Prop) : (onlySpans spans).Exact :=
  fun _ _ h => h

/-- **Errors of programs that differ in their spans only differ in their spans only.** -/
theorem errors_onlySpans_iff {spans : Span → Span → Prop} {e e' : EvalError} :
    (onlySpans spans).Errors e e' ↔ e.bare = e'.bare ∧ spans e.span e'.span := by
  constructor
  · rintro (⟨hbare, hspan⟩ | ⟨hname, hs⟩ | h)
    · exact ⟨hbare, hspan⟩
    · obtain rfl := hname
      exact ⟨rfl, hs⟩
    · exact h.elim
  · exact fun h => .same h.1 h.2

end Leeway

variable {l : Leeway}

/-! ### Patterns -/

namespace Pattern

variable (l) (ρ : Naming)

mutual

/-- The patterns bind names that stand for each other in the same places. -/
inductive Congruent : Pattern → Pattern → Prop where
  | bind {s s' : Span} {x x' : String} (hs : l.spans s s') (hx : ρ x x') :
    Congruent (.bind s x) (.bind s' x')
  | wildcard {s s' : Span} (hs : l.spans s s') : Congruent (.wildcard s) (.wildcard s')
  | integer {s s' : Span} (value : Int) (hs : l.spans s s') :
    Congruent (.integer s value) (.integer s' value)
  | boolean {s s' : Span} (value : Bool) (hs : l.spans s s') :
    Congruent (.boolean s value) (.boolean s' value)
  | tuple {s s' : Span} {ps ps' : List Pattern} (hs : l.spans s s')
    (hps : CongruentAll ps ps') : Congruent (.tuple s ps) (.tuple s' ps')
  | cons {s s' : Span} {p p' q q' : Pattern} (hs : l.spans s s') (hp : Congruent p p')
    (hq : Congruent q q') : Congruent (.cons s p q) (.cons s' p' q')
  | nil {s s' : Span} (hs : l.spans s s') : Congruent (.nil s) (.nil s')

/-- The patterns are as many and pairwise congruent. -/
inductive CongruentAll : List Pattern → List Pattern → Prop where
  | nil : CongruentAll [] []
  | cons {p p' : Pattern} {ps ps' : List Pattern} (hp : Congruent p p')
    (hps : CongruentAll ps ps') : CongruentAll (p :: ps) (p' :: ps')

end

variable {l} {ρ}

mutual

theorem Congruent.self : ∀ {p : Pattern}, (Node.pattern p).All (fun s => l.spans s s) →
    Congruent l Eq p p
  | .bind _ _, h => .bind h.self rfl
  | .wildcard _, h => .wildcard h.self
  | .integer _ value, h => .integer value h.self
  | .boolean _ value, h => .boolean value h.self
  | .tuple _ _, h =>
    .tuple h.self (CongruentAll.self fun _ hp => h.child (List.mem_map_of_mem hp))
  | .cons _ _ _, h =>
    .cons h.self (Congruent.self (h.child (by simp [Node.children])))
      (Congruent.self (h.child (by simp [Node.children])))
  | .nil _, h => .nil h.self

theorem CongruentAll.self : ∀ {ps : List Pattern},
    (∀ p ∈ ps, (Node.pattern p).All fun s => l.spans s s) → CongruentAll l Eq ps ps
  | [], _ => .nil
  | _ :: _, h =>
    .cons (Congruent.self (h _ List.mem_cons_self))
      (CongruentAll.self fun _ hp => h _ (List.mem_cons_of_mem _ hp))

end

mutual

theorem congruent_bare (hspans : ∀ s, l.spans s .unknown) :
    ∀ p : Pattern, Congruent l Eq p p.bare
  | .bind s _ => .bind (hspans s) rfl
  | .wildcard s => .wildcard (hspans s)
  | .integer s value => .integer value (hspans s)
  | .boolean s value => .boolean value (hspans s)
  | .tuple s ps => .tuple (hspans s) (congruentAll_bare hspans ps)
  | .cons s p q => .cons (hspans s) (congruent_bare hspans p) (congruent_bare hspans q)
  | .nil s => .nil (hspans s)

theorem congruentAll_bare (hspans : ∀ s, l.spans s .unknown) :
    ∀ ps : List Pattern, CongruentAll l Eq ps (bareAll ps)
  | [] => .nil
  | p :: ps => .cons (congruent_bare hspans p) (congruentAll_bare hspans ps)

end

theorem CongruentAll.length_eq {ps ps' : List Pattern} (h : CongruentAll l ρ ps ps') :
    ps.length = ps'.length := by
  match h with
  | .nil => rfl
  | .cons _ hps => rw [List.length_cons, List.length_cons, hps.length_eq]

end Pattern

/-! ### Expressions -/

namespace Expr

variable (l) in
/-- The patterns of a binding on two sides. -/
structure BindingPatterns (ρ : Naming) (p p' : Pattern) : Prop where
  oneToOne : ρ.OneToOne
  names : ∀ x x', ρ x x' → l.names x x'
  congruent : p.Congruent l ρ p'

theorem BindingPatterns.self (hnames : ∀ x, l.names x x) {p : Pattern}
    (h : (Node.pattern p).All fun s => l.spans s s) : BindingPatterns l Eq p p :=
  ⟨Naming.oneToOne_eq, fun x _ hx => hx ▸ hnames x, .self h⟩

theorem BindingPatterns.refl (hspans : ∀ s, l.spans s s) (hnames : ∀ x, l.names x x)
    (p : Pattern) : BindingPatterns l Eq p p :=
  .self hnames fun _ _ => hspans _

variable (l)

mutual

/-- The expressions have the same structure, where names from outside stand for each other. -/
inductive Congruent : Naming → Expr → Expr → Prop where
  | boolean {outer : Naming} {s s' : Span} (value : Bool) (hs : l.spans s s') :
    Congruent outer (.boolean s value) (.boolean s' value)
  | integer {outer : Naming} {s s' : Span} (value : Int) (hs : l.spans s s') :
    Congruent outer (.integer s value) (.integer s' value)
  | identifier {outer : Naming} {s s' : Span} {x x' : String} (hs : l.spans s s')
    (hx : outer x x') : Congruent outer (.identifier s x) (.identifier s' x')
  | condition {outer : Naming} {s s' : Span} {a a' b b' c c' : Expr} (hs : l.spans s s')
    (ha : Congruent outer a a') (hb : Congruent outer b b') (hc : Congruent outer c c') :
    Congruent outer (.condition s a b c) (.condition s' a' b' c')
  | binary {outer : Naming} {s s' : Span} {a a' b b' : Expr} (op : BinaryOp)
    (hs : l.spans s s') (ha : Congruent outer a a') (hb : Congruent outer b b') :
    Congruent outer (.binary s op a b) (.binary s' op a' b')
  | lambda {outer ρ : Naming} {s s' : Span} {p p' : Pattern} {b b' : Expr} (hs : l.spans s s')
    (hp : BindingPatterns l ρ p p') (hb : Congruent (ρ.under p.names p'.names outer) b b') :
    Congruent outer (.lambda s p b) (.lambda s' p' b')
  | apply {outer : Naming} {s s' : Span} {f f' a a' : Expr} (hs : l.spans s s')
    (hf : Congruent outer f f') (ha : Congruent outer a a') :
    Congruent outer (.apply s f a) (.apply s' f' a')
  | bind {outer ρ : Naming} {s s' : Span} {p p' : Pattern} {v v' b b' : Expr}
    (hs : l.spans s s') (hp : BindingPatterns l ρ p p')
    (hv : Congruent (ρ.under p.ownNames p'.ownNames outer) v v')
    (hb : Congruent (ρ.under p.names p'.names outer) b b') :
    Congruent outer (.bind s p v b) (.bind s' p' v' b')
  | cases {outer : Naming} {s s' : Span} {e e' : Expr}
    {options options' : List (Pattern × Expr)} (hs : l.spans s s') (he : Congruent outer e e')
    (hoptions : CongruentOptions outer options options') :
    Congruent outer (.cases s e options) (.cases s' e' options')
  | tuple {outer : Naming} {s s' : Span} {es es' : List Expr} (hs : l.spans s s')
    (hes : CongruentAll outer es es') : Congruent outer (.tuple s es) (.tuple s' es')
  | cons {outer : Naming} {s s' : Span} {a a' b b' : Expr} (hs : l.spans s s')
    (ha : Congruent outer a a') (hb : Congruent outer b b') :
    Congruent outer (.cons s a b) (.cons s' a' b')
  | nil {outer : Naming} {s s' : Span} (hs : l.spans s s') :
    Congruent outer (.nil s) (.nil s')
  /-- Two forms of a binding whose pattern is matched. -/
  | form {outer : Naming} {s s' r r' : Span} {form form' : BindingForm} {p : Pattern}
    {v v' b b' : Expr} (hform : form.Matches p) (hform' : form'.Matches p)
    (hspans : ∀ t t', l.spans t t') (hnames : ∀ x, l.names x x)
    (hfailures : l.failures (form.failure s) (form'.failure s')) (hv : Congruent outer v v')
    (hb : Congruent (Naming.under Eq p.names p.names outer) b b') :
    Congruent outer (form.expr s r p v b) (form'.expr s' r' p v' b')
  /-- A `let` of a plain name that its value does not need, and another form of the binding. -/
  | plain {outer : Naming} {s s' r' t : Span} {x : String} {form' : BindingForm}
    {v v' b b' : Expr} (hform' : form'.Matches (.bind t x)) (hspans : ∀ t t', l.spans t t')
    (hfailures : l.failures (BindingForm.definition.failure s) (form'.failure s'))
    (hv : Congruent (fun y y' => y ≠ x ∧ outer y y') v v')
    (hb : Congruent (Naming.under Eq [x] [x] outer) b b') :
    Congruent outer (.bind s (.bind t x) v b) (form'.expr s' r' (.bind t x) v' b')
  /-- A binding of a name that the body does not use: its value may be anything. -/
  | unused {outer : Naming} {s s' r r' t t' : Span} {x : String} {b b' : Expr}
    (form : BindingForm) (v v' : Expr) (hs : l.spans s s') (hr : l.spans r r')
    (hb : Congruent (fun y y' => y ≠ x ∧ y' ≠ x ∧ outer y y') b b') :
    Congruent outer (form.expr s r (.bind t x) v b) (form.expr s' r' (.bind t' x) v' b')

/-- The expressions are as many and pairwise congruent. -/
inductive CongruentAll : Naming → List Expr → List Expr → Prop where
  | nil {outer : Naming} : CongruentAll outer [] []
  | cons {outer : Naming} {e e' : Expr} {es es' : List Expr} (he : Congruent outer e e')
    (hes : CongruentAll outer es es') : CongruentAll outer (e :: es) (e' :: es')

/-- The options are as many and pairwise congruent. -/
inductive CongruentOptions : Naming → List (Pattern × Expr) → List (Pattern × Expr) → Prop where
  | nil {outer : Naming} : CongruentOptions outer [] []
  | cons {outer ρ : Naming} {p p' : Pattern} {e e' : Expr}
    {options options' : List (Pattern × Expr)} (hp : BindingPatterns l ρ p p')
    (he : Congruent (ρ.under p.names p'.names outer) e e')
    (hoptions : CongruentOptions outer options options') :
    CongruentOptions outer ((p, e) :: options) ((p', e') :: options')

end

variable {l} {outer : Naming}

theorem Congruent.span {e e' : Expr} (h : Congruent l outer e e') : l.spans e.span e'.span := by
  cases h with
  | form hform hform' hspans => exact hspans _ _
  | plain hform' hspans => exact hspans _ _
  | unused form _ _ hs => cases form <;> exact hs
  | _ => assumption

mutual

/-- **More names may stand for each other outside.** -/
theorem Congruent.mono {outer outer' : Naming} (h : ∀ x x', outer x x' → outer' x x') :
    ∀ {e e' : Expr}, Congruent l outer e e' → Congruent l outer' e e'
  | _, _, .boolean value hs => .boolean value hs
  | _, _, .integer value hs => .integer value hs
  | _, _, .identifier hs hx => .identifier hs (h _ _ hx)
  | _, _, .condition hs ha hb hc => .condition hs (ha.mono h) (hb.mono h) (hc.mono h)
  | _, _, .binary op hs ha hb => .binary op hs (ha.mono h) (hb.mono h)
  | _, _, .lambda hs hp hb => .lambda hs hp (hb.mono fun _ _ => Naming.under_mono h)
  | _, _, .apply hs hf ha => .apply hs (hf.mono h) (ha.mono h)
  | _, _, .bind hs hp hv hb =>
    .bind hs hp (hv.mono fun _ _ => Naming.under_mono h)
      (hb.mono fun _ _ => Naming.under_mono h)
  | _, _, .cases hs he hoptions => .cases hs (he.mono h) (hoptions.mono h)
  | _, _, .tuple hs hes => .tuple hs (hes.mono h)
  | _, _, .cons hs ha hb => .cons hs (ha.mono h) (hb.mono h)
  | _, _, .nil hs => .nil hs
  | _, _, .form hform hform' hspans hnames hfailures hv hb =>
    .form hform hform' hspans hnames hfailures (hv.mono h)
      (hb.mono fun _ _ => Naming.under_mono h)
  | _, _, .plain hform' hspans hfailures hv hb =>
    .plain hform' hspans hfailures (hv.mono fun x x' hx => ⟨hx.1, h x x' hx.2⟩)
      (hb.mono fun _ _ => Naming.under_mono h)
  | _, _, .unused form v v' hs hr hb =>
    .unused form v v' hs hr (hb.mono fun y y' hy => ⟨hy.1, hy.2.1, h y y' hy.2.2⟩)

theorem CongruentAll.mono {outer outer' : Naming} (h : ∀ x x', outer x x' → outer' x x') :
    ∀ {es es' : List Expr}, CongruentAll l outer es es' → CongruentAll l outer' es es'
  | _, _, .nil => .nil
  | _, _, .cons he hes => .cons (he.mono h) (hes.mono h)

theorem CongruentOptions.mono {outer outer' : Naming} (h : ∀ x x', outer x x' → outer' x x') :
    ∀ {options options' : List (Pattern × Expr)}, CongruentOptions l outer options options' →
      CongruentOptions l outer' options options'
  | _, _, .nil => .nil
  | _, _, .cons hp he hoptions =>
    .cons hp (he.mono fun _ _ => Naming.under_mono h) (hoptions.mono h)

end

/-! ### Every program is congruent to itself -/

mutual

/-- **A program is congruent to itself** if its free names stand for themselves, and its spans are
related to themselves. -/
theorem Congruent.self (hnames : ∀ x, l.names x x) {outer : Naming} :
    ∀ {e : Expr}, (Node.expr e).All (fun s => l.spans s s) → (∀ x ∈ e.free, outer x x) →
      Congruent l outer e e
  | .boolean _ value, hspans, _ => .boolean value hspans.self
  | .integer _ value, hspans, _ => .integer value hspans.self
  | .identifier _ x, hspans, h => .identifier hspans.self (h x (List.mem_singleton_self x))
  | .condition _ _ _ _, hspans, h =>
    have h := List.forall_mem_append.1 h
    have h' := List.forall_mem_append.1 h.1
    .condition hspans.self (.self hnames (hspans.child (by simp [Node.children])) h'.1)
      (.self hnames (hspans.child (by simp [Node.children])) h'.2)
      (.self hnames (hspans.child (by simp [Node.children])) h.2)
  | .binary _ op _ _, hspans, h =>
    have h := List.forall_mem_append.1 h
    .binary op hspans.self (.self hnames (hspans.child (by simp [Node.children])) h.1)
      (.self hnames (hspans.child (by simp [Node.children])) h.2)
  | .lambda _ _ _, hspans, h =>
    .lambda hspans.self (.self hnames (hspans.child (by simp [Node.children])))
      (.self hnames (hspans.child (by simp [Node.children])) (Naming.under_self h))
  | .apply _ _ _, hspans, h =>
    have h := List.forall_mem_append.1 h
    .apply hspans.self (.self hnames (hspans.child (by simp [Node.children])) h.1)
      (.self hnames (hspans.child (by simp [Node.children])) h.2)
  | .bind _ _ _ _, hspans, h =>
    have h := List.forall_mem_append.1 h
    .bind hspans.self (.self hnames (hspans.child (by simp [Node.children])))
      (.self hnames (hspans.child (by simp [Node.children])) (Naming.under_self h.1))
      (.self hnames (hspans.child (by simp [Node.children])) (Naming.under_self h.2))
  | .cases _ _ _, hspans, h =>
    have h := List.forall_mem_append.1 h
    .cases hspans.self (.self hnames (hspans.child (by simp [Node.children])) h.1)
      (.self hnames (fun _ hc => hspans.child (List.mem_cons_of_mem _ hc)) h.2)
  | .tuple _ _, hspans, h =>
    .tuple hspans.self (.self hnames (fun _ he => hspans.child (List.mem_map_of_mem he)) h)
  | .cons _ _ _, hspans, h =>
    have h := List.forall_mem_append.1 h
    .cons hspans.self (.self hnames (hspans.child (by simp [Node.children])) h.1)
      (.self hnames (hspans.child (by simp [Node.children])) h.2)
  | .nil _, hspans, _ => .nil hspans.self

theorem CongruentAll.self (hnames : ∀ x, l.names x x) {outer : Naming} :
    ∀ {es : List Expr}, (∀ e ∈ es, (Node.expr e).All fun s => l.spans s s) →
      (∀ x ∈ freeAll es, outer x x) → CongruentAll l outer es es
  | [], _, _ => .nil
  | _ :: _, hspans, h =>
    have h := List.forall_mem_append.1 h
    .cons (.self hnames (hspans _ List.mem_cons_self) h.1)
      (.self hnames (fun _ he => hspans _ (List.mem_cons_of_mem _ he)) h.2)

theorem CongruentOptions.self (hnames : ∀ x, l.names x x) {outer : Naming} :
    ∀ {options : List (Pattern × Expr)},
      (∀ c ∈ options.flatMap fun option => [Node.pattern option.1, Node.expr option.2],
        c.All fun s => l.spans s s) →
      (∀ x ∈ freeOptions options, outer x x) → CongruentOptions l outer options options
  | [], _, _ => .nil
  | (_, _) :: _, hspans, h =>
    have h := List.forall_mem_append.1 h
    .cons (.self hnames (hspans _ (by simp)))
      (.self hnames (hspans _ (by simp)) (Naming.under_self h.1))
      (.self hnames (fun c hc => hspans c (List.mem_append_right _ hc)) h.2)

end

section Refl

variable (hspans : ∀ s, l.spans s s) (hnames : ∀ x, l.names x x)

include hspans hnames

theorem Congruent.refl (e : Expr) (h : ∀ x ∈ e.free, outer x x) : Congruent l outer e e :=
  .self hnames (fun _ _ => hspans _) h

theorem CongruentAll.refl (houter : ∀ x, outer x x) (es : List Expr) :
    CongruentAll l outer es es :=
  .self hnames (fun _ _ _ _ => hspans _) fun x _ => houter x

theorem CongruentOptions.refl (houter : ∀ x, outer x x) (options : List (Pattern × Expr)) :
    CongruentOptions l outer options options :=
  .self hnames (fun _ _ _ _ => hspans _) fun x _ => houter x

end Refl

/-! ### Programs without their spans -/

theorem bindingPatterns_bare (hspans : ∀ s, l.spans s .unknown) (hnames : ∀ x, l.names x x)
    (p : Pattern) : BindingPatterns l Eq p p.bare :=
  ⟨Naming.oneToOne_eq, fun x _ hx => hx ▸ hnames x, p.congruent_bare hspans⟩

mutual

/-- **A program is congruent to itself without its spans.** -/
theorem congruent_bare (hspans : ∀ s, l.spans s .unknown) (hnames : ∀ x, l.names x x)
    {outer : Naming} : ∀ e : Expr, (∀ x, outer x x) → Congruent l outer e e.bare
  | .boolean s value, _ => .boolean value (hspans s)
  | .integer s value, _ => .integer value (hspans s)
  | .identifier s x, h => .identifier (hspans s) (h x)
  | .condition s a b c, h =>
    .condition (hspans s) (congruent_bare hspans hnames a h) (congruent_bare hspans hnames b h)
      (congruent_bare hspans hnames c h)
  | .binary s op a b, h =>
    .binary op (hspans s) (congruent_bare hspans hnames a h) (congruent_bare hspans hnames b h)
  | .lambda s p b, h =>
    .lambda (hspans s) (bindingPatterns_bare hspans hnames p)
      (congruent_bare hspans hnames b (Naming.under_refl p.names_bare h))
  | .apply s f a, h =>
    .apply (hspans s) (congruent_bare hspans hnames f h) (congruent_bare hspans hnames a h)
  | .bind s p v b, h =>
    .bind (hspans s) (bindingPatterns_bare hspans hnames p)
      (congruent_bare hspans hnames v (Naming.under_refl p.ownNames_bare h))
      (congruent_bare hspans hnames b (Naming.under_refl p.names_bare h))
  | .cases s e options, h =>
    .cases (hspans s) (congruent_bare hspans hnames e h)
      (congruentOptions_bare hspans hnames options h)
  | .tuple s es, h => .tuple (hspans s) (congruentAll_bare hspans hnames es h)
  | .cons s a b, h =>
    .cons (hspans s) (congruent_bare hspans hnames a h) (congruent_bare hspans hnames b h)
  | .nil s, _ => .nil (hspans s)

theorem congruentAll_bare (hspans : ∀ s, l.spans s .unknown) (hnames : ∀ x, l.names x x)
    {outer : Naming} :
    ∀ es : List Expr, (∀ x, outer x x) → CongruentAll l outer es (bareAll es)
  | [], _ => .nil
  | e :: es, h =>
    .cons (congruent_bare hspans hnames e h) (congruentAll_bare hspans hnames es h)

theorem congruentOptions_bare (hspans : ∀ s, l.spans s .unknown) (hnames : ∀ x, l.names x x)
    {outer : Naming} :
    ∀ options : List (Pattern × Expr), (∀ x, outer x x) →
      CongruentOptions l outer options (bareOptions options)
  | [], _ => .nil
  | (p, e) :: options, h =>
    .cons (bindingPatterns_bare hspans hnames p)
      (congruent_bare hspans hnames e (Naming.under_refl p.names_bare h))
      (congruentOptions_bare hspans hnames options h)

end

/-! ### Programs that differ in one place -/

section Fill

variable (hspans : ∀ s, l.spans s s) (hnames : ∀ x, l.names x x) {a a' : Expr}

include hspans hnames

theorem CongruentAll.fill (houter : ∀ x, outer x x) (h : Congruent l outer a a')
    (before after : List Expr) :
    CongruentAll l outer (before ++ a :: after) (before ++ a' :: after) := by
  induction before with
  | nil => exact .cons h (CongruentAll.refl hspans hnames houter after)
  | cons e before ih =>
    exact .cons (Congruent.refl hspans hnames e fun x _ => houter x) ih

theorem CongruentOptions.fill (houter : ∀ x, outer x x) {ρ : Naming} {p p' : Pattern}
    (hp : BindingPatterns l ρ p p') (h : Congruent l (ρ.under p.names p'.names outer) a a')
    (before after : List (Pattern × Expr)) :
    CongruentOptions l outer (before ++ (p, a) :: after) (before ++ (p', a') :: after) := by
  induction before with
  | nil => exact .cons hp h (CongruentOptions.refl hspans hnames houter after)
  | cons option before ih =>
    refine .cons (.refl hspans hnames option.1) ?_ ih
    exact Congruent.refl hspans hnames option.2 (Naming.under_self fun x _ => houter x)

/-- **Programs are congruent if what stands in one place is**, and the rest is the same. -/
theorem Congruent.fill (h : Congruent l Eq a a') (place : Place) (houter : ∀ x, outer x x) :
    Congruent l outer (place.fill a) (place.fill a') := by
  have hrefl {outer : Naming} (houter : ∀ x, outer x x) (e : Expr) : Congruent l outer e e :=
    Congruent.refl hspans hnames e fun x _ => houter x
  have hunder {outer : Naming} (houter : ∀ x, outer x x) (xs : List String) (x : String) :
      Naming.under Eq xs xs outer x x := Naming.under_refl rfl houter x
  have hpattern (p : Pattern) : BindingPatterns l Eq p p := .refl hspans hnames p
  induction place generalizing outer with
  | hole => exact h.mono fun x x' hx => hx ▸ houter x
  | inTest s place b c ih =>
    exact .condition (hspans s) (ih houter) (hrefl houter b) (hrefl houter c)
  | inYes s a place c ih =>
    exact .condition (hspans s) (hrefl houter a) (ih houter) (hrefl houter c)
  | inNo s a b place ih =>
    exact .condition (hspans s) (hrefl houter a) (hrefl houter b) (ih houter)
  | inLhs s op place b ih => exact .binary op (hspans s) (ih houter) (hrefl houter b)
  | inRhs s op a place ih => exact .binary op (hspans s) (hrefl houter a) (ih houter)
  | inLambda s p place ih =>
    exact .lambda (hspans s) (hpattern p) (ih (hunder houter p.names))
  | inFunc s place a ih => exact .apply (hspans s) (ih houter) (hrefl houter a)
  | inArg s f place ih => exact .apply (hspans s) (hrefl houter f) (ih houter)
  | inValue s p place b ih =>
    exact .bind (hspans s) (hpattern p) (ih (hunder houter p.ownNames))
      (hrefl (hunder houter p.names) b)
  | inBody s p v place ih =>
    exact .bind (hspans s) (hpattern p) (hrefl (hunder houter p.ownNames) v)
      (ih (hunder houter p.names))
  | inSubject s place options ih =>
    exact .cases (hspans s) (ih houter)
      (CongruentOptions.refl hspans hnames houter options)
  | inOption s e before p place after ih =>
    exact .cases (hspans s) (hrefl houter e) (CongruentOptions.fill hspans hnames houter
      (hpattern p) (ih (hunder houter p.names)) before after)
  | inElem s before place after ih =>
    exact .tuple (hspans s) (CongruentAll.fill hspans hnames houter (ih houter) before after)
  | inHead s place b ih => exact .cons (hspans s) (ih houter) (hrefl houter b)
  | inTail s a place ih => exact .cons (hspans s) (hrefl houter a) (ih houter)

end Fill

end Expr

end CallByNeed

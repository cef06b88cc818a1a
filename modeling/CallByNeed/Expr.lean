import CallByNeed.Source

/-!
# Expressions and patterns

Programs are trees.  Every node carries the span of the text it was read from, so an error at a
node can point at the text; a tree that was built by hand has unknown spans.  Nothing but error
messages depends on spans: `Expr.bare` forgets them, and two trees are the same program
(`Expr.same`) exactly when they agree without them (`Expr.same_iff`).
-/

namespace CallByNeed

/-- The built-in operators on integers, and equality on all data. -/
inductive BinaryOp where
  | pow
  | mul
  | add
  | sub
  | lt
  | eq
deriving DecidableEq, Repr

/-- The symbol of a built-in operator. -/
def BinaryOp.text : BinaryOp → String
  | pow => "^"
  | mul => "*"
  | add => "+"
  | sub => "-"
  | lt => "<"
  | eq => "=="

/-- Patterns: parameters of functions, left-hand sides of `let`, and options of `case`. -/
inductive Pattern where
  | bind (span : Span) (name : String)
  | wildcard (span : Span)
  | integer (span : Span) (value : Int)
  | boolean (span : Span) (value : Bool)
  | tuple (span : Span) (elems : List Pattern)
  | cons (span : Span) (head tail : Pattern)
  | nil (span : Span)
deriving Repr, Inhabited

/-- Expressions. -/
inductive Expr where
  | boolean (span : Span) (value : Bool)
  | integer (span : Span) (value : Int)
  | identifier (span : Span) (name : String)
  | condition (span : Span) (test yes no : Expr)
  | binary (span : Span) (op : BinaryOp) (lhs rhs : Expr)
  | lambda (span : Span) (param : Pattern) (body : Expr)
  | apply (span : Span) (func arg : Expr)
  | bind (span : Span) (pattern : Pattern) (value body : Expr)
  | cases (span : Span) (subject : Expr) (options : List (Pattern × Expr))
  | tuple (span : Span) (elems : List Expr)
  | cons (span : Span) (head tail : Expr)
  | nil (span : Span)
deriving Repr, Inhabited

namespace Pattern

/-- Where a pattern was read. -/
def span : Pattern → Span
  | bind span _ | wildcard span | integer span _ | boolean span _ | tuple span _ | cons span _ _
  | nil span => span

/-- The same pattern, read elsewhere. -/
def withSpan (span : Span) : Pattern → Pattern
  | bind _ name => bind span name
  | wildcard _ => wildcard span
  | integer _ value => integer span value
  | boolean _ value => boolean span value
  | tuple _ elems => tuple span elems
  | cons _ head tail => cons span head tail
  | nil _ => nil span

/-- The name that a plain variable binds.  Only such a pattern lets a `let` refer to itself. -/
def name? : Pattern → Option String
  | bind _ name => some name
  | _ => none

end Pattern

namespace Expr

/-- Where an expression was read. -/
def span : Expr → Span
  | boolean span _ | integer span _ | identifier span _ | condition span _ _ _
  | binary span _ _ _ | lambda span _ _ | apply span _ _ | bind span _ _ _ | cases span _ _
  | tuple span _ | cons span _ _ | nil span => span

/-- The same expression, read elsewhere. -/
def withSpan (span : Span) : Expr → Expr
  | boolean _ value => boolean span value
  | integer _ value => integer span value
  | identifier _ name => identifier span name
  | condition _ test yes no => condition span test yes no
  | binary _ op lhs rhs => binary span op lhs rhs
  | lambda _ param body => lambda span param body
  | apply _ func arg => apply span func arg
  | bind _ pattern value body => bind span pattern value body
  | cases _ subject options => cases span subject options
  | tuple _ elems => tuple span elems
  | cons _ head tail => cons span head tail
  | nil _ => nil span

end Expr

/-! ### Trees without spans -/

namespace Pattern

mutual

/-- A pattern with all spans forgotten. -/
def bare : Pattern → Pattern
  | bind _ name => bind .unknown name
  | wildcard _ => wildcard .unknown
  | integer _ value => integer .unknown value
  | boolean _ value => boolean .unknown value
  | tuple _ elems => tuple .unknown (bareAll elems)
  | cons _ head tail => cons .unknown head.bare tail.bare
  | nil _ => nil .unknown

/-- Patterns with all spans forgotten. -/
def bareAll : List Pattern → List Pattern
  | [] => []
  | p :: ps => p.bare :: bareAll ps

end

mutual

/-- The patterns are equal up to spans. -/
def same : Pattern → Pattern → Bool
  | bind _ x, bind _ y => x == y
  | wildcard _, wildcard _ => true
  | integer _ x, integer _ y => x == y
  | boolean _ x, boolean _ y => x == y
  | tuple _ xs, tuple _ ys => sameAll xs ys
  | cons _ x xs, cons _ y ys => x.same y && xs.same ys
  | nil _, nil _ => true
  | _, _ => false

/-- The patterns are as many and pairwise equal up to spans. -/
def sameAll : List Pattern → List Pattern → Bool
  | [], [] => true
  | p :: ps, q :: qs => p.same q && sameAll ps qs
  | _, _ => false

end

mutual

/-- **Sameness is equality without spans.** -/
theorem same_iff (p q : Pattern) : p.same q = true ↔ p.bare = q.bare := by
  cases p <;> cases q <;> simp [same, bare]
  · rw [sameAll_iff]
  · rw [same_iff, same_iff]

/-- Sameness of several patterns is equality without spans. -/
theorem sameAll_iff (ps qs : List Pattern) : sameAll ps qs = true ↔ bareAll ps = bareAll qs := by
  cases ps <;> cases qs <;> simp [sameAll, bareAll]
  rw [same_iff, sameAll_iff]

end

end Pattern

namespace Expr

mutual

/-- An expression with all spans forgotten. -/
def bare : Expr → Expr
  | boolean _ value => boolean .unknown value
  | integer _ value => integer .unknown value
  | identifier _ name => identifier .unknown name
  | condition _ test yes no => condition .unknown test.bare yes.bare no.bare
  | binary _ op lhs rhs => binary .unknown op lhs.bare rhs.bare
  | lambda _ param body => lambda .unknown param.bare body.bare
  | apply _ func arg => apply .unknown func.bare arg.bare
  | bind _ pattern value body => bind .unknown pattern.bare value.bare body.bare
  | cases _ subject options => cases .unknown subject.bare (bareOptions options)
  | tuple _ elems => tuple .unknown (bareAll elems)
  | cons _ head tail => cons .unknown head.bare tail.bare
  | nil _ => nil .unknown

/-- Expressions with all spans forgotten. -/
def bareAll : List Expr → List Expr
  | [] => []
  | e :: es => e.bare :: bareAll es

/-- Options with all spans forgotten. -/
def bareOptions : List (Pattern × Expr) → List (Pattern × Expr)
  | [] => []
  | (p, e) :: options => (p.bare, e.bare) :: bareOptions options

end

mutual

/-- The expressions are equal up to spans. -/
def same : Expr → Expr → Bool
  | boolean _ x, boolean _ y => x == y
  | integer _ x, integer _ y => x == y
  | identifier _ x, identifier _ y => x == y
  | condition _ a b c, condition _ a' b' c' => a.same a' && b.same b' && c.same c'
  | binary _ op a b, binary _ op' a' b' => op == op' && a.same a' && b.same b'
  | lambda _ p e, lambda _ p' e' => p.same p' && e.same e'
  | apply _ f a, apply _ f' a' => f.same f' && a.same a'
  | bind _ p v b, bind _ p' v' b' => p.same p' && v.same v' && b.same b'
  | cases _ s options, cases _ s' options' => s.same s' && sameOptions options options'
  | tuple _ es, tuple _ es' => sameAll es es'
  | cons _ a b, cons _ a' b' => a.same a' && b.same b'
  | nil _, nil _ => true
  | _, _ => false

/-- The expressions are as many and pairwise equal up to spans. -/
def sameAll : List Expr → List Expr → Bool
  | [], [] => true
  | a :: as, b :: bs => a.same b && sameAll as bs
  | _, _ => false

/-- The options are as many and pairwise equal up to spans. -/
def sameOptions : List (Pattern × Expr) → List (Pattern × Expr) → Bool
  | [], [] => true
  | (p, e) :: as, (q, f) :: bs => p.same q && e.same f && sameOptions as bs
  | _, _ => false

end

mutual

/-- **Sameness is equality without spans.** -/
theorem same_iff (a b : Expr) : a.same b = true ↔ a.bare = b.bare := by
  cases a <;> cases b <;> simp [same, bare, Pattern.same_iff, and_assoc]
  · rw [same_iff, same_iff, same_iff]
  · rw [same_iff, same_iff]
    exact fun _ => Iff.rfl
  · rw [same_iff]
    exact fun _ => Iff.rfl
  · rw [same_iff, same_iff]
  · rw [same_iff, same_iff]
    exact fun _ => Iff.rfl
  · rw [same_iff, sameOptions_iff]
  · rw [sameAll_iff]
  · rw [same_iff, same_iff]

/-- Sameness of several expressions is equality without spans. -/
theorem sameAll_iff (as bs : List Expr) : sameAll as bs = true ↔ bareAll as = bareAll bs := by
  cases as <;> cases bs <;> simp [sameAll, bareAll]
  rw [same_iff, sameAll_iff]

/-- Sameness of options is equality without spans. -/
theorem sameOptions_iff (as bs : List (Pattern × Expr)) :
    sameOptions as bs = true ↔ bareOptions as = bareOptions bs := by
  match as, bs with
  | [], [] => simp [sameOptions, bareOptions]
  | [], _ :: _ => simp [sameOptions, bareOptions]
  | _ :: _, [] => simp [sameOptions, bareOptions]
  | (p, e) :: as, (q, f) :: bs =>
    simp [sameOptions, bareOptions, Pattern.same_iff, same_iff e f, sameOptions_iff as bs,
      and_assoc]

end

end Expr

end CallByNeed

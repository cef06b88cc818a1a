import CallByNeed.Expr

/-!
# Names, places and parts

A pattern binds names, and an expression uses those that it does not bind itself (`Expr.free`).
The names of a pattern are bound in the body of its function, `let` or option; a `let` of a plain
name binds it in its value as well.

A place of a program (`Expr.Place`) is the program with a hole in it, which any expression can fill.
The parts of a program are its nodes, which are expressions and patterns (`Node`).
-/

namespace CallByNeed

namespace Pattern

mutual

/-- The names that a pattern binds, from left to right. -/
def names : Pattern → List String
  | bind _ name => [name]
  | wildcard _ | integer _ _ | boolean _ _ | nil _ => []
  | tuple _ elems => namesAll elems
  | cons _ head tail => head.names ++ tail.names

/-- The names that several patterns bind. -/
def namesAll : List Pattern → List String
  | [] => []
  | p :: ps => p.names ++ namesAll ps

end

mutual

theorem names_bare : ∀ p : Pattern, p.bare.names = p.names
  | bind _ _ | wildcard _ | integer _ _ | boolean _ _ | nil _ => rfl
  | tuple _ ps => namesAll_bare ps
  | cons _ p q => by rw [bare, names, names, names_bare p, names_bare q]

theorem namesAll_bare : ∀ ps : List Pattern, namesAll (bareAll ps) = namesAll ps
  | [] => rfl
  | p :: ps => by rw [bareAll, namesAll, namesAll, names_bare p, namesAll_bare ps]

end

/-- The names that a `let` of the pattern binds in its value. -/
def ownNames (p : Pattern) : List String :=
  p.name?.toList

theorem ownNames_bare (p : Pattern) : p.bare.ownNames = p.ownNames := by
  cases p <;> rfl

end Pattern

namespace Expr

mutual

/-- The names that occur free in an expression. -/
def free : Expr → List String
  | boolean _ _ | integer _ _ | nil _ => []
  | identifier _ name => [name]
  | condition _ test yes no => test.free ++ yes.free ++ no.free
  | binary _ _ lhs rhs => lhs.free ++ rhs.free
  | lambda _ param body => body.free.filter (· ∉ param.names)
  | apply _ func arg => func.free ++ arg.free
  | bind _ pattern value body =>
    value.free.filter (· ∉ pattern.ownNames) ++ body.free.filter (· ∉ pattern.names)
  | cases _ subject options => subject.free ++ freeOptions options
  | tuple _ elems => freeAll elems
  | cons _ head tail => head.free ++ tail.free

/-- The names that occur free in some of the expressions. -/
def freeAll : List Expr → List String
  | [] => []
  | e :: es => e.free ++ freeAll es

/-- The names that occur free in some of the options. -/
def freeOptions : List (Pattern × Expr) → List String
  | [] => []
  | (p, e) :: options => e.free.filter (· ∉ p.names) ++ freeOptions options

end

/-! ### Places -/

/-- A program with a hole in it. -/
inductive Place where
  | hole
  | inTest (span : Span) (place : Place) (yes no : Expr)
  | inYes (span : Span) (test : Expr) (place : Place) (no : Expr)
  | inNo (span : Span) (test yes : Expr) (place : Place)
  | inLhs (span : Span) (op : BinaryOp) (place : Place) (rhs : Expr)
  | inRhs (span : Span) (op : BinaryOp) (lhs : Expr) (place : Place)
  | inLambda (span : Span) (param : Pattern) (place : Place)
  | inFunc (span : Span) (place : Place) (arg : Expr)
  | inArg (span : Span) (func : Expr) (place : Place)
  | inValue (span : Span) (pattern : Pattern) (place : Place) (body : Expr)
  | inBody (span : Span) (pattern : Pattern) (value : Expr) (place : Place)
  | inSubject (span : Span) (place : Place) (options : List (Pattern × Expr))
  | inOption (span : Span) (subject : Expr) (before : List (Pattern × Expr)) (pattern : Pattern)
      (place : Place) (after : List (Pattern × Expr))
  | inElem (span : Span) (before : List Expr) (place : Place) (after : List Expr)
  | inHead (span : Span) (place : Place) (tail : Expr)
  | inTail (span : Span) (head : Expr) (place : Place)

/-- The program with an expression in the hole. -/
def Place.fill (e : Expr) : Place → Expr
  | hole => e
  | inTest span place yes no => .condition span (place.fill e) yes no
  | inYes span test place no => .condition span test (place.fill e) no
  | inNo span test yes place => .condition span test yes (place.fill e)
  | inLhs span op place rhs => .binary span op (place.fill e) rhs
  | inRhs span op lhs place => .binary span op lhs (place.fill e)
  | inLambda span param place => .lambda span param (place.fill e)
  | inFunc span place arg => .apply span (place.fill e) arg
  | inArg span func place => .apply span func (place.fill e)
  | inValue span pattern place body => .bind span pattern (place.fill e) body
  | inBody span pattern value place => .bind span pattern value (place.fill e)
  | inSubject span place options => .cases span (place.fill e) options
  | inOption span subject before pattern place after =>
    .cases span subject (before ++ (pattern, place.fill e) :: after)
  | inElem span before place after => .tuple span (before ++ place.fill e :: after)
  | inHead span place tail => .cons span (place.fill e) tail
  | inTail span head place => .cons span head (place.fill e)

end Expr

/-! ### Nodes -/

/-- A part of a program. -/
inductive Node where
  | expr (e : Expr)
  | pattern (p : Pattern)

namespace Node

/-- Where a node was read. -/
def span : Node → Span
  | expr e => e.span
  | pattern p => p.span

/-- The parts that a node is made of. -/
def children : Node → List Node
  | expr (.condition _ test yes no) => [expr test, expr yes, expr no]
  | expr (.binary _ _ lhs rhs) => [expr lhs, expr rhs]
  | expr (.lambda _ param body) => [pattern param, expr body]
  | expr (.apply _ func arg) => [expr func, expr arg]
  | expr (.bind _ p value body) => [pattern p, expr value, expr body]
  | expr (.cases _ subject options) =>
    expr subject :: options.flatMap fun option => [pattern option.1, expr option.2]
  | expr (.tuple _ elems) => elems.map expr
  | expr (.cons _ head tail) => [expr head, expr tail]
  | expr (.boolean ..) | expr (.integer ..) | expr (.identifier ..) | expr (.nil _) => []
  | pattern (.tuple _ elems) => elems.map pattern
  | pattern (.cons _ head tail) => [pattern head, pattern tail]
  | pattern (.bind ..) | pattern (.wildcard _) | pattern (.integer ..) | pattern (.boolean ..)
  | pattern (.nil _) => []

/-- The first node is the second one, or a part of it, however deep. -/
inductive Within : Node → Node → Prop where
  | self (n : Node) : Within n n
  | child {n c m : Node} (hc : c ∈ m.children) (h : Within n c) : Within n m

/-- `P` holds of the spans of a node and of all its parts. -/
def All (P : Span → Prop) (n : Node) : Prop :=
  ∀ m : Node, m.Within n → P m.span

variable {P : Span → Prop} {n c : Node}

theorem All.self (h : n.All P) : P n.span :=
  h n (.self n)

theorem All.child (h : n.All P) (hc : c ∈ n.children) : c.All P :=
  fun m hm => h m (.child hc hm)

end Node

end CallByNeed

import CallByNeed.TokenStream

/-!
# Operator sequences

Operands with operators between them form one tree, and which one is decided from left to right.
The operators that still wait for their right operand are kept on one stack, and the operands that
no operator has taken yet on another, the top of both first.  When an operator comes in, those on
the stack that bind tighter take their operands first (`Sequence.reduceFor`), and at the end all do
(`Sequence.close`).  An operator takes the two operands on top, the right one first.

Two operators of the same precedence have to agree on how they group.  The conflict is found when
the second one comes in, before its right operand is read.

What the operands are does not matter for that, only what an operator makes of two of them:
`complete` is `Waiting.complete` for expressions.
-/

namespace CallByNeed

/-- An operator that waits for its right operand. -/
structure Waiting where
  symbol : String
  operator : Operator
  /-- Where the operator stands. -/
  span : Span

/-- The node of an operator with its operands. -/
def Waiting.complete (w : Waiting) (left right : Expr) : Expr :=
  w.operator.combine.build (left.span.merge right.span) left right

namespace Sequence

/-- The waiting operator takes its operands before the incoming one is pushed. -/
def takesFirst (top : Waiting) (symbol : String) (op : Operator) : Except ParseError Bool :=
  let prev := top.operator
  if prev.precedence ≠ op.precedence then .ok (op.precedence < prev.precedence)
  else if prev.associativity ≠ op.associativity then
    .error (.mixedAssociativity top.symbol prev.associativity symbol op.associativity
      prev.precedence top.span)
  else
    match prev.associativity with
    | .left => .ok true
    | .right => .ok false
    | .none => .error (.nonAssociative top.symbol symbol top.span)

variable {α : Type} (complete : Waiting → α → α → α)

/-- Puts what an operator makes of its operands in their place. -/
def reduce (w : Waiting) : List α → Except Failure (List α)
  | right :: left :: operands => .ok (complete w left right :: operands)
  | _ => .error .outOfStep

/-- Completes the operators on the stack that take their operands before the incoming one.  Yields
what is left of both stacks. -/
def reduceFor (symbol : String) (op : Operator) :
    List Waiting → List α → Except Failure (List Waiting × List α)
  | [], operands => .ok ([], operands)
  | top :: operators, operands =>
    match takesFirst top symbol op with
    | .error e => .error (.error e)
    | .ok false => .ok (top :: operators, operands)
    | .ok true =>
      match reduce complete top operands with
      | .error why => .error why
      | .ok operands => reduceFor symbol op operators operands

/-- Completes all operators on the stack, and yields the one operand that is left. -/
def close : List Waiting → List α → Except Failure α
  | [], [x] => .ok x
  | [], _ => .error .outOfStep
  | top :: operators, operands =>
    match reduce complete top operands with
    | .error why => .error why
    | .ok operands => close operators operands

end Sequence

end CallByNeed

import CallByNeed.Expr

/-!
# Printing trees

The canonical text of a tree puts brackets around every compound expression, so that it can be
read back without knowing what binds tighter than what.  Lists are printed as cells, and the
options of a `case` stand on one line with pipes between them.
-/

namespace CallByNeed

namespace Pattern

mutual

/-- The canonical text of a pattern. -/
def text : Pattern → String
  | bind _ name => name
  | wildcard _ => "_"
  | integer _ value => toString value
  | boolean _ value => toString value
  | tuple _ elems => "(" ++ textAll elems ++ ")"
  | cons _ head tail => "(" ++ head.text ++ " : " ++ tail.text ++ ")"
  | nil _ => "[]"

/-- The texts of several patterns, with commas between them. -/
def textAll : List Pattern → String
  | [] => ""
  | p :: ps => p.text ++ textMore ps

/-- The texts of further patterns, with a comma in front of each. -/
def textMore : List Pattern → String
  | [] => ""
  | p :: ps => ", " ++ p.text ++ textMore ps

end

end Pattern

namespace Expr

mutual

/-- The canonical text of an expression. -/
def text : Expr → String
  | boolean _ value => toString value
  | integer _ value => toString value
  | identifier _ name => name
  | condition _ test yes no =>
    "(if " ++ test.text ++ " then " ++ yes.text ++ " else " ++ no.text ++ ")"
  | binary _ op lhs rhs => "(" ++ lhs.text ++ " " ++ op.text ++ " " ++ rhs.text ++ ")"
  | lambda _ param body => "(\\" ++ param.text ++ " -> " ++ body.text ++ ")"
  | apply _ func arg => "(" ++ func.text ++ " " ++ arg.text ++ ")"
  | bind _ pattern value body =>
    "(let " ++ pattern.text ++ " = " ++ value.text ++ " in " ++ body.text ++ ")"
  | cases _ subject options => "(case " ++ subject.text ++ " of" ++ textOptions options ++ ")"
  | tuple _ elems => "(" ++ textAll elems ++ ")"
  | cons _ head tail => "(" ++ head.text ++ " : " ++ tail.text ++ ")"
  | nil _ => "[]"

/-- The texts of several expressions, with commas between them. -/
def textAll : List Expr → String
  | [] => ""
  | e :: es => e.text ++ textMore es

/-- The texts of further expressions, with a comma in front of each. -/
def textMore : List Expr → String
  | [] => ""
  | e :: es => ", " ++ e.text ++ textMore es

/-- The texts of the options of a `case`, a space in front and pipes between them. -/
def textOptions : List (Pattern × Expr) → String
  | [] => ""
  | (p, e) :: options => " " ++ p.text ++ " -> " ++ e.text ++ textMoreOptions options

/-- The texts of further options, with a pipe in front of each. -/
def textMoreOptions : List (Pattern × Expr) → String
  | [] => ""
  | (p, e) :: options => " | " ++ p.text ++ " -> " ++ e.text ++ textMoreOptions options

end

end Expr

end CallByNeed

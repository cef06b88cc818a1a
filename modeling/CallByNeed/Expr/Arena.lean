import CallByNeed.Expr.Parser

/-!
# Trees as numbered nodes

A tree can be given as a list of nodes, each of which refers to the nodes it is made of by their
numbers.  A node refers to nodes that were added before it, and several nodes may refer to the same
one.  An arena holds such nodes, patterns and expressions apart, and only ever grows: a number that
has been given out keeps its meaning.

`Arena.expr?` follows the references and yields the tree that a number stands for, and
`Arena.insertExpr` adds all nodes of a tree.  `Arena.read` adds the tree of a text, so that many
texts can share one arena.
-/

namespace CallByNeed

/-- Patterns by number. -/
abbrev PatternId :=
  Nat

/-- Expressions by number. -/
abbrev ExprId :=
  Nat

/-- A pattern whose parts are given by number. -/
inductive PatternNode where
  | bind (name : String)
  | wildcard
  | integer (value : Int)
  | boolean (value : Bool)
  | tuple (elems : List PatternId)
  | cons (head tail : PatternId)
  | nil
deriving DecidableEq, Repr

/-- An expression whose parts are given by number. -/
inductive ExprNode where
  | boolean (value : Bool)
  | integer (value : Int)
  | identifier (name : String)
  | condition (test yes no : ExprId)
  | binary (op : BinaryOp) (lhs rhs : ExprId)
  | lambda (param : PatternId) (body : ExprId)
  | apply (func arg : ExprId)
  | bind (pattern : PatternId) (value body : ExprId)
  | cases (subject : ExprId) (options : List (PatternId × ExprId))
  | tuple (elems : List ExprId)
  | cons (head tail : ExprId)
  | nil
deriving DecidableEq, Repr

/-- The pattern of a node, given those that the numbers of its parts stand for. -/
def PatternNode.tree? (part : PatternId → Option Pattern) (span : Span) :
    PatternNode → Option Pattern
  | .bind name => some (.bind span name)
  | .wildcard => some (.wildcard span)
  | .integer value => some (.integer span value)
  | .boolean value => some (.boolean span value)
  | .tuple elems => return .tuple span (← elems.mapM part)
  | .cons head tail => return .cons span (← part head) (← part tail)
  | .nil => some (.nil span)

/-- The expression of a node, given what the numbers of its parts stand for. -/
def ExprNode.tree? (pattern : PatternId → Option Pattern) (part : ExprId → Option Expr)
    (span : Span) : ExprNode → Option Expr
  | .boolean value => some (.boolean span value)
  | .integer value => some (.integer span value)
  | .identifier name => some (.identifier span name)
  | .condition test yes no => return .condition span (← part test) (← part yes) (← part no)
  | .binary op lhs rhs => return .binary span op (← part lhs) (← part rhs)
  | .lambda param body => return .lambda span (← pattern param) (← part body)
  | .apply func arg => return .apply span (← part func) (← part arg)
  | .bind param value body => return .bind span (← pattern param) (← part value) (← part body)
  | .cases subject options => do
    let subject ← part subject
    let options ← options.mapM fun (param, body) => return (← pattern param, ← part body)
    return .cases span subject options
  | .tuple elems => return .tuple span (← elems.mapM part)
  | .cons head tail => return .cons span (← part head) (← part tail)
  | .nil => some (.nil span)

/-- Nodes by number. -/
structure Arena where
  patterns : Array (Located PatternNode)
  exprs : Array (Located ExprNode)

namespace Arena

/-- The arena without nodes. -/
def empty : Arena :=
  ⟨#[], #[]⟩

/-- Adds a node of a pattern under the next number. -/
def pushPattern (arena : Arena) (span : Span) (node : PatternNode) : PatternId × Arena :=
  (arena.patterns.size, { arena with patterns := arena.patterns.push ⟨node, span⟩ })

/-- Adds a node of an expression under the next number. -/
def pushExpr (arena : Arena) (span : Span) (node : ExprNode) : ExprId × Arena :=
  (arena.exprs.size, { arena with exprs := arena.exprs.push ⟨node, span⟩ })

/-! ### From numbers to trees -/

/-- What `f` says about an earlier number. -/
def earlier {α : Type} (id : Nat) (f : (i : Nat) → i < id → Option α) (i : Nat) : Option α :=
  if h : i < id then f i h else none

/-- The pattern that a number stands for.  A node that refers to itself or to a later one stands
for nothing. -/
def pattern? (arena : Arena) (id : PatternId) : Option Pattern :=
  match arena.patterns[id]? with
  | none => none
  | some ⟨node, span⟩ => node.tree? (earlier id fun i _ => arena.pattern? i) span
termination_by id

/-- The expression that a number stands for.  A node that refers to itself or to a later one stands
for nothing. -/
def expr? (arena : Arena) (id : ExprId) : Option Expr :=
  match arena.exprs[id]? with
  | none => none
  | some ⟨node, span⟩ => node.tree? arena.pattern? (earlier id fun i _ => arena.expr? i) span
termination_by id

/-! ### From trees to numbers -/

mutual

/-- Adds all nodes of a pattern, the parts of a node before the node itself. -/
def insertPattern : Pattern → Arena → PatternId × Arena
  | .bind span name, arena => arena.pushPattern span (.bind name)
  | .wildcard span, arena => arena.pushPattern span .wildcard
  | .integer span value, arena => arena.pushPattern span (.integer value)
  | .boolean span value, arena => arena.pushPattern span (.boolean value)
  | .tuple span elems, arena =>
    let (elems, arena) := insertPatterns elems arena
    arena.pushPattern span (.tuple elems)
  | .cons span head tail, arena =>
    let (head, arena) := insertPattern head arena
    let (tail, arena) := insertPattern tail arena
    arena.pushPattern span (.cons head tail)
  | .nil span, arena => arena.pushPattern span .nil

/-- Adds all nodes of several patterns. -/
def insertPatterns : List Pattern → Arena → List PatternId × Arena
  | [], arena => ([], arena)
  | p :: ps, arena =>
    let (id, arena) := insertPattern p arena
    let (ids, arena) := insertPatterns ps arena
    (id :: ids, arena)

end

mutual

/-- Adds all nodes of an expression, the parts of a node before the node itself. -/
def insertExpr : Expr → Arena → ExprId × Arena
  | .boolean span value, arena => arena.pushExpr span (.boolean value)
  | .integer span value, arena => arena.pushExpr span (.integer value)
  | .identifier span name, arena => arena.pushExpr span (.identifier name)
  | .condition span test yes no, arena =>
    let (test, arena) := insertExpr test arena
    let (yes, arena) := insertExpr yes arena
    let (no, arena) := insertExpr no arena
    arena.pushExpr span (.condition test yes no)
  | .binary span op lhs rhs, arena =>
    let (lhs, arena) := insertExpr lhs arena
    let (rhs, arena) := insertExpr rhs arena
    arena.pushExpr span (.binary op lhs rhs)
  | .lambda span param body, arena =>
    let (param, arena) := insertPattern param arena
    let (body, arena) := insertExpr body arena
    arena.pushExpr span (.lambda param body)
  | .apply span func arg, arena =>
    let (func, arena) := insertExpr func arena
    let (arg, arena) := insertExpr arg arena
    arena.pushExpr span (.apply func arg)
  | .bind span pattern value body, arena =>
    let (pattern, arena) := insertPattern pattern arena
    let (value, arena) := insertExpr value arena
    let (body, arena) := insertExpr body arena
    arena.pushExpr span (.bind pattern value body)
  | .cases span subject options, arena =>
    let (subject, arena) := insertExpr subject arena
    let (options, arena) := insertOptions options arena
    arena.pushExpr span (.cases subject options)
  | .tuple span elems, arena =>
    let (elems, arena) := insertExprs elems arena
    arena.pushExpr span (.tuple elems)
  | .cons span head tail, arena =>
    let (head, arena) := insertExpr head arena
    let (tail, arena) := insertExpr tail arena
    arena.pushExpr span (.cons head tail)
  | .nil span, arena => arena.pushExpr span .nil

/-- Adds all nodes of several expressions. -/
def insertExprs : List Expr → Arena → List ExprId × Arena
  | [], arena => ([], arena)
  | e :: es, arena =>
    let (id, arena) := insertExpr e arena
    let (ids, arena) := insertExprs es arena
    (id :: ids, arena)

/-- Adds all nodes of the options of a `case`. -/
def insertOptions : List (Pattern × Expr) → Arena → List (PatternId × ExprId) × Arena
  | [], arena => ([], arena)
  | (p, e) :: options, arena =>
    let (p, arena) := insertPattern p arena
    let (e, arena) := insertExpr e arena
    let (ids, arena) := insertOptions options arena
    ((p, e) :: ids, arena)

end

/-- Adds the tree of a text that is one expression.  An arena that is given a text with an error
stays as it is. -/
def read (arena : Arena) (table : OperatorTable) (s : String) :
    Except ParseError ExprId × Arena :=
  match Expr.parseWith table s with
  | .error err => (.error err, arena)
  | .ok e =>
    let (id, arena) := insertExpr e arena
    (.ok id, arena)

/-- Adds the pattern of a text, read as the parameter of a function. -/
def readPattern (arena : Arena) (s : String) : Except ParseError PatternId × Arena :=
  match arena.read .standard ("\\" ++ s ++ " -> 0") with
  | (.error err, arena) => (.error err, arena)
  | (.ok id, arena) =>
    match arena.exprs[id]? with
    | some ⟨.lambda param _, _⟩ => (.ok param, arena)
    | _ => (.error (.unexpected "pattern" ⟨.eof, .unknown⟩), arena)

end Arena

end CallByNeed

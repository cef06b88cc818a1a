import CallByNeed.Expr

/-!
# Operators

An operator is known by its symbol and comes with a precedence, an associativity and the node
that it builds from its two operands.  Which operators a program may use is a table, not part of
the grammar: `OperatorTable.standard` holds those of the language, and further ones can be added.
-/

namespace CallByNeed

/-- How operators of one precedence group when they follow each other. -/
inductive Associativity where
  | left
  | right
  /-- They do not follow each other without brackets. -/
  | none
deriving DecidableEq, Repr

/-- The word that declares an associativity. -/
def Associativity.text : Associativity → String
  | left => "infixl"
  | right => "infixr"
  | none => "infix"

/-- One of the two operands of an operator. -/
inductive Operand where
  | left
  | right
deriving DecidableEq, Repr

/-- What stands for the operand, when `lhs` stands for the left one and `rhs` for the right one. -/
def Operand.pick {α : Type} (lhs rhs : α) : Operand → α
  | left => lhs
  | right => rhs

/-- Operands may be picked before or behind a function. -/
theorem Operand.map_pick {α β : Type} (f : α → β) (lhs rhs : α) (o : Operand) :
    f (o.pick lhs rhs) = o.pick (f lhs) (f rhs) := by
  cases o <;> rfl

/-- What an operator makes of its operands: a node of any kind, the parts of which are operands.
Each of them may be used once, several times or not at all.  An operator is given no pattern, so
that its node binds no names. -/
inductive Combinator where
  | boolean (value : Bool)
  | integer (value : Int)
  | identifier (name : String)
  | condition (test yes no : Operand)
  | operation (op : BinaryOp) (lhs rhs : Operand)
  | application (func arg : Operand)
  | cases (subject : Operand)
  | tuple (elems : List Operand)
  | cell (head tail : Operand)
  | nil
deriving DecidableEq, Repr

namespace Combinator

/-- A built-in operation. -/
def binary (op : BinaryOp) : Combinator :=
  operation op .left .right

/-- A list cell with the left operand as its head. -/
def cons : Combinator :=
  cell .left .right

/-- The left operand applied to the right one. -/
def apply : Combinator :=
  application .left .right

/-- The right operand applied to the left one. -/
def flippedApply : Combinator :=
  application .right .left

/-- A tuple of both. -/
def pair : Combinator :=
  tuple [.left, .right]

/-- The operands that are parts of the node, from left to right. -/
def parts : Combinator → List Operand
  | boolean _ | integer _ | identifier _ | nil => []
  | condition test yes no => [test, yes, no]
  | operation _ lhs rhs => [lhs, rhs]
  | application func arg => [func, arg]
  | cases subject => [subject]
  | tuple elems => elems
  | cell head tail => [head, tail]

/-- The node that a combinator makes of two operands. -/
def build (span : Span) (lhs rhs : Expr) : Combinator → Expr
  | boolean value => .boolean span value
  | integer value => .integer span value
  | identifier name => .identifier span name
  | condition test yes no =>
    .condition span (test.pick lhs rhs) (yes.pick lhs rhs) (no.pick lhs rhs)
  | operation op l r => .binary span op (l.pick lhs rhs) (r.pick lhs rhs)
  | application func arg => .apply span (func.pick lhs rhs) (arg.pick lhs rhs)
  | cases subject => .cases span (subject.pick lhs rhs) []
  | tuple elems => .tuple span (elems.map (·.pick lhs rhs))
  | cell head tail => .cons span (head.pick lhs rhs) (tail.pick lhs rhs)
  | nil => .nil span

section Build

variable (span : Span) (lhs rhs : Expr)

@[simp]
theorem build_binary (op : BinaryOp) : (binary op).build span lhs rhs = .binary span op lhs rhs :=
  rfl

@[simp]
theorem build_cons : cons.build span lhs rhs = .cons span lhs rhs :=
  rfl

@[simp]
theorem span_build (c : Combinator) : (c.build span lhs rhs).span = span := by
  cases c <;> rfl

/-- **Spans play no part in what a combinator makes.** -/
theorem bare_build (c : Combinator) :
    (c.build span lhs rhs).bare = c.build .unknown lhs.bare rhs.bare := by
  have hall (os : List Operand) : Expr.bareAll (os.map (·.pick lhs rhs)) =
      os.map (·.pick lhs.bare rhs.bare) := by
    induction os with
    | nil => rfl
    | cons o os ih =>
      rw [List.map_cons, List.map_cons, Expr.bareAll, ih, Operand.map_pick Expr.bare]
  cases c <;> simp only [build, Expr.bare, Expr.bareOptions, Operand.map_pick Expr.bare, hall]

end Build

end Combinator

/-- An operator without its symbol. -/
structure Operator where
  precedence : Nat
  associativity : Associativity
  combine : Combinator
deriving DecidableEq, Repr

/-- The declaration of an operator, as `infixr 8`. -/
def Operator.text (op : Operator) : String :=
  op.associativity.text ++ " " ++ toString op.precedence

/-- The operators that a program may use, by symbol. -/
structure OperatorTable where
  entries : List (String × Operator)
deriving DecidableEq, Repr

namespace OperatorTable

/-- The table without operators. -/
def empty : OperatorTable :=
  ⟨[]⟩

/-- The operator with the given symbol. -/
def get? (table : OperatorTable) (symbol : String) : Option Operator :=
  table.entries.lookup symbol

/-- Adds an operator in place of the one that had its symbol. -/
def insert (table : OperatorTable) (symbol : String) (op : Operator) : OperatorTable :=
  ⟨(symbol, op) :: table.entries.filter (·.1 != symbol)⟩

/-- The number of operators. -/
def size (table : OperatorTable) : Nat :=
  table.entries.length

/-- The operators of the language. -/
def standard : OperatorTable :=
  ⟨[("^", ⟨8, .right, .binary .pow⟩), ("*", ⟨7, .left, .binary .mul⟩),
    ("+", ⟨6, .left, .binary .add⟩), ("-", ⟨6, .left, .binary .sub⟩), (":", ⟨5, .right, .cons⟩),
    ("<", ⟨4, .none, .binary .lt⟩), ("==", ⟨4, .none, .binary .eq⟩)]⟩

/-- **The operator that was added is found.** -/
@[simp]
theorem get?_insert_self (table : OperatorTable) (symbol : String) (op : Operator) :
    (table.insert symbol op).get? symbol = some op := by
  simp [get?, insert]

/-- **Other symbols keep their operators.** -/
theorem get?_insert_of_ne (table : OperatorTable) {symbol other : String} (op : Operator)
    (h : other ≠ symbol) : (table.insert symbol op).get? other = table.get? other := by
  have lookup_filter (entries : List (String × Operator)) :
      (entries.filter (·.1 != symbol)).lookup other = entries.lookup other := by
    induction entries with
    | nil => rfl
    | cons entry entries ih =>
      obtain ⟨s, o⟩ := entry
      by_cases hs : s = symbol
      · subst hs
        simp [ih, List.lookup_cons, beq_false_of_ne h]
      · simp [hs, ih, List.lookup_cons]
  simp [get?, insert, List.lookup_cons, beq_false_of_ne h, lookup_filter]

end OperatorTable

end CallByNeed

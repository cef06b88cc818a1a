import CallByNeed.Proofs.Building.Growth
import CallByNeed.Proofs.Reading.Expr

/-!
# What operators make of numbers

A combinator makes a node of two numbers as it makes a tree of two trees (`Combinator.node`,
`Combinator.makesExpr_node`).  It sees its operands only as numbers to hand on: what it makes of
other numbers is the same node with these in their places.  All functions with this property are
combinators (`Combinator.exists_node_eq_iff`), so that nothing an operator could do without looking
into its operands is left out.

Most combinators do not keep to what a text can say, since they may yield a negative integer or a
tuple of one element.  Those that do are an operation, a list cell, a pair and an application either
way round (`Combinator.Basic`).
-/

namespace CallByNeed

/-- The node with other numbers in the places of its own. -/
def ExprNode.map (expr : ExprId → ExprId) (pattern : PatternId → PatternId) : ExprNode → ExprNode
  | .boolean value => .boolean value
  | .integer value => .integer value
  | .identifier name => .identifier name
  | .condition test yes no => .condition (expr test) (expr yes) (expr no)
  | .binary op lhs rhs => .binary op (expr lhs) (expr rhs)
  | .lambda param body => .lambda (pattern param) (expr body)
  | .apply func arg => .apply (expr func) (expr arg)
  | .bind p value body => .bind (pattern p) (expr value) (expr body)
  | .cases subject options =>
    .cases (expr subject) (options.map fun option => (pattern option.1, expr option.2))
  | .tuple elems => .tuple (elems.map expr)
  | .cons head tail => .cons (expr head) (expr tail)
  | .nil => .nil

namespace Combinator

/-- The node that a combinator makes of two operands. -/
def node (lhs rhs : ExprId) : Combinator → ExprNode
  | boolean value => .boolean value
  | integer value => .integer value
  | identifier name => .identifier name
  | condition test yes no => .condition (test.pick lhs rhs) (yes.pick lhs rhs) (no.pick lhs rhs)
  | operation op l r => .binary op (l.pick lhs rhs) (r.pick lhs rhs)
  | application func arg => .apply (func.pick lhs rhs) (arg.pick lhs rhs)
  | cases subject => .cases (subject.pick lhs rhs) []
  | tuple elems => .tuple (elems.map (·.pick lhs rhs))
  | cell head tail => .cons (head.pick lhs rhs) (tail.pick lhs rhs)
  | nil => .nil

/-! ### Functions that hand numbers on -/

theorem node_map (c : Combinator) (expr : ExprId → ExprId) (pattern : PatternId → PatternId)
    (lhs rhs : ExprId) : c.node (expr lhs) (expr rhs) = (c.node lhs rhs).map expr pattern := by
  cases c with
  | tuple elems =>
    simp only [node, ExprNode.map, List.map_map, ExprNode.tuple.injEq]
    exact List.map_congr_left fun o _ => (Operand.map_pick expr lhs rhs o).symm
  | _ => simp only [node, ExprNode.map, List.map_nil, Operand.map_pick expr lhs rhs]

/-- The operand that a number stands for, if the left one is zero. -/
def operandOf (id : ExprId) : Operand :=
  if id = 0 then .left else .right

/-- **Combinators are the functions that hand numbers on**: whatever other numbers stand in the
place of the operands, and of all patterns, the node is the same with those in their places. -/
theorem exists_node_eq_iff (f : ExprId → ExprId → ExprNode) :
    (∃ c : Combinator, ∀ lhs rhs, c.node lhs rhs = f lhs rhs) ↔
      ∀ (expr : ExprId → ExprId) (pattern : PatternId → PatternId) (lhs rhs : ExprId),
        f (expr lhs) (expr rhs) = (f lhs rhs).map expr pattern := by
  constructor
  · rintro ⟨c, hc⟩ expr pattern lhs rhs
    rw [← hc, ← hc, c.node_map expr pattern]
  intro h
  -- what becomes of the operands zero and one tells what becomes of any two
  have hpicked (lhs rhs : ExprId) :
      f lhs rhs = (f 0 1).map (fun i => (operandOf i).pick lhs rhs) id :=
    h (fun i => (operandOf i).pick lhs rhs) id 0 1
  -- a pattern would have to be its own successor
  have hshifted : f 0 1 = (f 0 1).map id Nat.succ := h id Nat.succ 0 1
  generalize f 0 1 = n at hpicked hshifted
  cases n with
  | boolean value => exact ⟨.boolean value, fun lhs rhs => (hpicked lhs rhs).symm⟩
  | integer value => exact ⟨.integer value, fun lhs rhs => (hpicked lhs rhs).symm⟩
  | identifier name => exact ⟨.identifier name, fun lhs rhs => (hpicked lhs rhs).symm⟩
  | condition test yes no =>
    exact ⟨.condition (operandOf test) (operandOf yes) (operandOf no),
      fun lhs rhs => (hpicked lhs rhs).symm⟩
  | binary op l r =>
    exact ⟨.operation op (operandOf l) (operandOf r), fun lhs rhs => (hpicked lhs rhs).symm⟩
  | lambda param body => simp [ExprNode.map] at hshifted
  | apply func arg =>
    exact ⟨.application (operandOf func) (operandOf arg), fun lhs rhs => (hpicked lhs rhs).symm⟩
  | bind pattern value body => simp [ExprNode.map] at hshifted
  | cases subject options =>
    cases options with
    | nil => exact ⟨.cases (operandOf subject), fun lhs rhs => (hpicked lhs rhs).symm⟩
    | cons option options =>
      obtain ⟨p, body⟩ := option
      simp [ExprNode.map] at hshifted
  | tuple elems =>
    refine ⟨.tuple (elems.map operandOf), fun lhs rhs => ?_⟩
    rw [hpicked, node, ExprNode.map, List.map_map]
    rfl
  | cons head tail =>
    exact ⟨.cell (operandOf head) (operandOf tail), fun lhs rhs => (hpicked lhs rhs).symm⟩
  | nil => exact ⟨.nil, fun lhs rhs => (hpicked lhs rhs).symm⟩

/-! ### Trees -/

/-- **The node of two operands** stands for what the combinator makes of their trees. -/
theorem makesExpr_node {base a : Arena} {i j : ExprId} {e f : Expr} (c : Combinator)
    (he : base.NewExpr a i e) (hf : base.NewExpr a j f) :
    base.MakesExpr a (c.node i j) (c.build · e f) := by
  -- an operand is picked alike on both sides, so that each kind of node rests on its own lemma
  have hpick (o : Operand) : base.NewExpr a (o.pick i j) (o.pick e f) := by
    cases o with
    | left => exact he
    | right => exact hf
  cases c with
  | condition test yes no => exact Arena.makesExpr_condition (hpick test) (hpick yes) (hpick no)
  | operation op l r => exact Arena.makesExpr_binary op (hpick l) (hpick r)
  | application func arg => exact Arena.makesExpr_apply (hpick func) (hpick arg)
  | cases subject => exact Arena.makesExpr_cases (hpick subject) .nil
  | tuple elems =>
    refine Arena.makesExpr_tuple ?_
    rw [List.forall₂_map_left_iff, List.forall₂_map_right_iff]
    exact List.forall₂_same.2 fun o _ => hpick o
  | cell head tail => exact Arena.makesExpr_cons (hpick head) (hpick tail)
  | _ => exact Arena.makesExpr_leaf _ _ rfl rfl fun _ _ _ => rfl

/-! ### Combinators that a text can spell -/

/-- The combinators of the language, applications and pairs. -/
inductive Basic : Combinator → Prop where
  | binary (op : BinaryOp) : Basic (binary op)
  | cons : Basic cons
  | apply : Basic apply
  | flippedApply : Basic flippedApply
  | pair : Basic pair

/-- **What a basic combinator makes of expressions that can be printed can be printed.** -/
theorem Basic.printable_build {c : Combinator} (hc : c.Basic) (span : Span) {e f : Expr}
    (he : e.Printable) (hf : f.Printable) : (c.build span e f).Printable := by
  cases hc with
  | binary op => exact ⟨he, hf⟩
  | cons => exact ⟨he, hf⟩
  | apply => exact ⟨he, hf⟩
  | flippedApply => exact ⟨hf, he⟩
  | pair => exact ⟨by simp, he, hf, trivial⟩

end Combinator

/-- All operators of the table have basic combinators. -/
def OperatorTable.Basic (table : OperatorTable) : Prop :=
  ∀ symbol op, table.get? symbol = some op → op.combine.Basic

theorem OperatorTable.basic_standard : standard.Basic := by
  intro symbol op h
  have hmem : (symbol, op) ∈ standard.entries := mem_of_lookup_eq_some h
  simp only [standard, List.mem_cons, List.not_mem_nil, or_false, Prod.mk.injEq] at hmem
  rcases hmem with ⟨-, rfl⟩ | ⟨-, rfl⟩ | ⟨-, rfl⟩ | ⟨-, rfl⟩ | ⟨-, rfl⟩ | ⟨-, rfl⟩ | ⟨-, rfl⟩ <;>
    constructor

end CallByNeed

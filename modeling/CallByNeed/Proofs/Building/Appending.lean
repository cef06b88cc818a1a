import CallByNeed.Proofs.Building.Agreement
import CallByNeed.Proofs.Building.Insertion

/-!
# Reading only appends

Whatever is in an arena when a text is read, whether there is an error in the text or not, it stays
there.  The tree of the text consists of nodes that were not there before, and each of them refers
to nodes with smaller numbers.  What is read does not depend on what was there
(`Arena.reading_appends`).  All of this holds for reading node by node, where brackets change spans
and an error leaves nodes behind, and for reading a tree and adding it as a whole.
-/

namespace CallByNeed.Arena

variable {base a : Arena} {root : ExprId}

/-! ### The nodes of a tree -/

/-- The expressions that the tree of a node is made of. -/
inductive ReachesExpr (a : Arena) (root : ExprId) : ExprId → Prop where
  | root : ReachesExpr a root root
  | part {i j : ExprId} {node : Located ExprNode} (hi : ReachesExpr a root i)
    (hnode : a.exprs[i]? = some node) (hj : j ∈ node.value.parts) : ReachesExpr a root j

/-- The patterns that the tree of a node is made of. -/
inductive ReachesPattern (a : Arena) (root : ExprId) : PatternId → Prop where
  | within {i : ExprId} {p : PatternId} {node : Located ExprNode} (hi : a.ReachesExpr root i)
    (hnode : a.exprs[i]? = some node) (hp : p ∈ node.value.patterns) : ReachesPattern a root p
  | part {p q : PatternId} {node : Located PatternNode} (hp : ReachesPattern a root p)
    (hnode : a.patterns[p]? = some node) (hq : q ∈ node.value.parts) : ReachesPattern a root q

/-- The expression is a node that is not in the first arena.  It refers to expressions with smaller
numbers, and to patterns. -/
def IsNewExpr (base a : Arena) (i : ExprId) : Prop :=
  base.exprs.size ≤ i ∧ ∃ node, a.exprs[i]? = some node ∧ (∀ j ∈ node.value.parts, j < i) ∧
    ∀ p ∈ node.value.patterns, p < a.patterns.size

/-- The pattern is a node that is not in the first arena.  It refers to patterns with smaller
numbers. -/
def IsNewPattern (base a : Arena) (p : PatternId) : Prop :=
  base.patterns.size ≤ p ∧ ∃ node, a.patterns[p]? = some node ∧ ∀ q ∈ node.value.parts, q < p

theorem Grown.isNewExpr (h : base.Grown a) {i : ExprId} (hle : base.exprs.size ≤ i)
    (hlt : i < a.exprs.size) : base.IsNewExpr a i := by
  have hnode := Array.getElem?_eq_getElem hlt
  exact ⟨hle, _, hnode, fun j hj => (h.exprs.new i _ hle hnode j hj).2,
    fun p hp => (h.within i _ hle hnode p hp).2⟩

theorem Grown.isNewPattern (h : base.Grown a) {p : PatternId} (hle : base.patterns.size ≤ p)
    (hlt : p < a.patterns.size) : base.IsNewPattern a p := by
  have hnode := Array.getElem?_eq_getElem hlt
  exact ⟨hle, _, hnode, fun q hq => (h.patterns.new p _ hle hnode q hq).2⟩

/-- The expressions of a new tree are within the bounds of the new nodes. -/
theorem Grown.bounds_of_reachesExpr (h : base.Grown a) (hroot : base.exprs.size ≤ root)
    (hlt : root < a.exprs.size) {i : ExprId} (hi : a.ReachesExpr root i) :
    base.exprs.size ≤ i ∧ i < a.exprs.size := by
  induction hi with
  | root => exact ⟨hroot, hlt⟩
  | part hi hnode hj ih =>
    obtain ⟨hle, hji⟩ := h.exprs.new _ _ ih.1 hnode _ hj
    exact ⟨hle, Nat.lt_trans hji ih.2⟩

/-- The patterns of a new tree are within the bounds of the new nodes. -/
theorem Grown.bounds_of_reachesPattern (h : base.Grown a) (hroot : base.exprs.size ≤ root)
    (hlt : root < a.exprs.size) {p : PatternId} (hp : a.ReachesPattern root p) :
    base.patterns.size ≤ p ∧ p < a.patterns.size := by
  induction hp with
  | within hi hnode hp =>
    exact h.within _ _ (h.bounds_of_reachesExpr hroot hlt hi).1 hnode _ hp
  | part hp hnode hq ih =>
    obtain ⟨hle, hqp⟩ := h.patterns.new _ _ ih.1 hnode _ hq
    exact ⟨hle, Nat.lt_trans hqp ih.2⟩

/-- The tree of a number consists of nodes that are not in the first arena. -/
structure IsNewTree (base a : Arena) (root : ExprId) : Prop where
  exprs : ∀ i, a.ReachesExpr root i → base.IsNewExpr a i
  patterns : ∀ p, a.ReachesPattern root p → base.IsNewPattern a p

theorem Grown.isNewTree (h : base.Grown a) {e : Expr} (he : base.NewExpr a root e) :
    base.IsNewTree a root where
  exprs i hi := by
    obtain ⟨hle, hlt⟩ := h.bounds_of_reachesExpr he.le (lt_of_expr? he.tree) hi
    exact h.isNewExpr hle hlt
  patterns p hp := by
    obtain ⟨hle, hlt⟩ := h.bounds_of_reachesPattern he.le (lt_of_expr? he.tree) hp
    exact h.isNewPattern hle hlt

/-! ### Both ways to read -/

/-- What is read with basic operators can be printed. -/
theorem printable_of_parseWith {table : OperatorTable} {s : String} {e : Expr}
    (h : Expr.parseWith table s = .ok e) (htable : table.Basic) : e.Printable := by
  have hadds := adds_build .empty table s
  rw [h] at hadds
  generalize build .empty table s = result at hadds
  cases hadds with
  | ok _ he => exact he.printable htable

/-- Adding the tree of a text as a whole. -/
theorem adds_read (a : Arena) (table : OperatorTable) (s : String) :
    a.Adds table (Expr.parseWith table s) (a.read table s) := by
  unfold read
  cases h : Expr.parseWith table s with
  | error err => exact .error (.refl a)
  | ok e =>
    obtain ⟨hgrown, hnew⟩ := insertExpr_new e a
    exact .ok hgrown ⟨hnew, printable_of_parseWith h⟩

/-- The outcome of reading a text into an arena: the tree that the number stands for, with all of
its spans, or the error. -/
def outcome (result : Except ParseError ExprId × Arena) : Except ParseError (Option Expr) :=
  result.1.map result.2.expr?

section Adds

variable {table : OperatorTable} {parsed : Except ParseError Expr}
  {result : Except ParseError ExprId × Arena}

theorem Adds.extends (h : a.Adds table parsed result) : a.Extends result.2 := by
  cases h with
  | ok hb _ => exact hb.extends
  | error hb => exact hb.extends

/-- The number that is given out stands for a new tree. -/
theorem Adds.isNewTree (h : a.Adds table parsed result) {id : ExprId} (hid : result.1 = .ok id) :
    a.IsNewTree result.2 id ∧
      ∃ e, result.2.expr? id = some e ∧ (table.Basic → e.Printable) := by
  cases h with
  | ok hb he =>
    obtain rfl := Except.ok.inj hid
    exact ⟨hb.isNewTree he.toNewExpr, _, he.tree, he.printable⟩
  | error _ => cases hid

theorem Adds.outcome_eq (h : a.Adds table parsed result) : outcome result = parsed.map some := by
  cases h with
  | ok _ he => exact congrArg Except.ok he.tree
  | error _ => rfl

end Adds

/-- **Reading only appends, and does not depend on what is there.**  For every arena, every table of
operators and every text, node by node or as a whole, with an error or without: all nodes of the
arena keep their numbers, contents and spans.  The tree of the number that is given out consists of
new nodes, each of which refers to nodes with smaller numbers.  If the operators are basic, then no
integer in it is negative, no tuple has exactly one element, and every name is one.  The tree with
its spans, or the error, is the one that an empty arena yields. -/
theorem reading_appends (a : Arena) (table : OperatorTable) (s : String) :
    ∀ read ∈ [build, Arena.read],
      a.Extends (read a table s).2 ∧
        (∀ id, (read a table s).1 = .ok id → a.IsNewTree (read a table s).2 id ∧
          ∃ e, (read a table s).2.expr? id = some e ∧ (table.Basic → e.Printable)) ∧
        outcome (read a table s) = (Expr.parseWith table s).map some ∧
        outcome (read a table s) = outcome (read .empty table s) := by
  intro read hread
  have hadds (a : Arena) : a.Adds table (Expr.parseWith table s) (read a table s) := by
    rcases List.mem_cons.1 hread with rfl | hread
    · exact adds_build a table s
    · obtain rfl := List.mem_singleton.1 hread
      exact adds_read a table s
  have h := hadds a
  exact ⟨h.extends, fun id hid => h.isNewTree hid, h.outcome_eq,
    h.outcome_eq.trans (hadds .empty).outcome_eq.symm⟩

/-- Brackets around a name, read node by node into an arena with one node: the name gets the number
behind it, and the span of the brackets.  Without the closing bracket there is an error, and the
name stays behind. -/
theorem reading_appends_brackets :
    let a := (Arena.empty.pushExpr .unknown (.integer 7)).2
    let result := a.build .standard "(x)"
    let failed := a.build .standard "(x"
    (result.1 = .ok 1 ∧ result.2.exprs[1]? = some ⟨.identifier "x", ⟨0, 1, 1⟩, ⟨3, 1, 3⟩⟩ ∧
        a.Extends result.2 ∧ a.IsNewTree result.2 1 ∧
        (∃ e, result.2.expr? 1 = some e ∧ e.Printable) ∧
        outcome result = outcome (Arena.empty.build .standard "(x)")) ∧
      failed.1.isOk = false ∧ failed.2.exprs.size = 2 ∧ a.Extends failed.2 := by
  intro a result failed
  have hresult : result.1 = .ok 1 := by decide +kernel
  obtain ⟨hextends, hnew, -, hempty⟩ := reading_appends a .standard "(x)" build (by simp)
  obtain ⟨hfailed, -⟩ := reading_appends a .standard "(x" build (by simp)
  obtain ⟨htree, e, he, hprintable⟩ := hnew 1 hresult
  have hprinted := hprintable OperatorTable.basic_standard
  exact ⟨⟨hresult, by decide +kernel, hextends, htree, ⟨e, he, hprinted⟩, hempty⟩,
    by decide +kernel, by decide +kernel, hfailed⟩

end CallByNeed.Arena

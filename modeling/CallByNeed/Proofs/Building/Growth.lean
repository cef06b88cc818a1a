import CallByNeed.Proofs.Arena

/-!
# How an arena grows

While a text is read, nodes are added one by one, and the span of a node that has just been added
may still be changed.  What was in the arena before stays as it is, and a new node refers only to
new nodes with smaller numbers (`Arena.Grown`).  Hence giving a node another span changes the trees
of this node and of later ones, but of no earlier one (`Arena.expr?_respanExpr`), and a node whose
parts are new stands for a new tree (`Arena.MakesExpr.push`).
-/

namespace CallByNeed

/-! ### What a node refers to -/

/-- The patterns that a pattern is made of. -/
def PatternNode.parts : PatternNode → List PatternId
  | bind _ | wildcard | integer _ | boolean _ | nil => []
  | tuple elems => elems
  | cons head tail => [head, tail]

/-- The expressions that an expression is made of. -/
def ExprNode.parts : ExprNode → List ExprId
  | boolean _ | integer _ | identifier _ | nil => []
  | condition test yes no => [test, yes, no]
  | binary _ lhs rhs => [lhs, rhs]
  | lambda _ body => [body]
  | apply func arg => [func, arg]
  | bind _ value body => [value, body]
  | cases subject options => subject :: options.map (·.2)
  | tuple elems => elems
  | cons head tail => [head, tail]

/-- The patterns that an expression contains itself. -/
def ExprNode.patterns : ExprNode → List PatternId
  | lambda param _ => [param]
  | bind pattern _ _ => [pattern]
  | cases _ options => options.map (·.1)
  | _ => []

section Span

variable {pattern : PatternId → Option Pattern} {part : ExprId → Option Expr} {span : Span}

/-- The span of a node is that of its pattern. -/
theorem PatternNode.span_of_tree? {node : PatternNode} {p : Pattern}
    (h : node.tree? pattern span = some p) : p.span = span := by
  cases node <;> simp only [tree?, Option.pure_def, Option.bind_eq_bind, Option.bind_eq_some_iff,
    Option.some.injEq] at h <;> grind [Pattern.span]

/-- The span of a node is that of its expression. -/
theorem ExprNode.span_of_tree? {node : ExprNode} {e : Expr}
    (h : node.tree? pattern part span = some e) : e.span = span := by
  cases node <;> simp only [tree?, Option.pure_def, Option.bind_eq_bind, Option.bind_eq_some_iff,
    Option.some.injEq] at h <;> grind [Expr.span]

/-- The rest of a pattern does not depend on its span. -/
theorem PatternNode.tree?_withSpan {node : PatternNode} {p : Pattern}
    (h : node.tree? pattern span = some p) (span' : Span) :
    node.tree? pattern span' = some (p.withSpan span') := by
  cases node <;> simp only [tree?, Option.pure_def, Option.bind_eq_bind, Option.bind_eq_some_iff,
    Option.some.injEq] at h ⊢ <;> grind [Pattern.withSpan]

/-- The rest of an expression does not depend on its span. -/
theorem ExprNode.tree?_withSpan {node : ExprNode} {e : Expr}
    (h : node.tree? pattern part span = some e) (span' : Span) :
    node.tree? pattern part span' = some (e.withSpan span') := by
  cases node <;> simp only [tree?, Option.pure_def, Option.bind_eq_bind, Option.bind_eq_some_iff,
    Option.some.injEq] at h ⊢ <;> grind [Expr.withSpan]

end Span

/-! ### Nodes of one kind -/

section Nodes

variable {N : Type} {parts : N → List Nat} {base now later : Array (Located N)} {id : Nat}
  {span : Span}

variable (parts) in
/-- The first nodes are still there, and a node behind them refers to such nodes with smaller
numbers. -/
structure Grows (base now : Array (Located N)) : Prop where
  old : ∀ (i : Nat) node, base[i]? = some node → now[i]? = some node
  new : ∀ (i : Nat) node, base.size ≤ i → now[i]? = some node →
    ∀ j ∈ parts node.value, base.size ≤ j ∧ j < i

/-- The nodes with another span for one of them. -/
def respan (nodes : Array (Located N)) (id : Nat) (span : Span) : Array (Located N) :=
  nodes.modify id fun node => { node with span }

theorem getElem?_respan_of_ne {i : Nat} (h : i ≠ id) : (respan now id span)[i]? = now[i]? := by
  rw [respan, Array.getElem?_modify, if_neg h.symm]

theorem getElem?_respan_self {value : N} {before : Span} (h : now[id]? = some ⟨value, before⟩) :
    (respan now id span)[id]? = some ⟨value, span⟩ := by
  rw [respan, Array.getElem?_modify, if_pos rfl, h]
  rfl

/-- Only spans differ. -/
theorem exists_of_getElem?_respan {i : Nat} {node : Located N}
    (h : (respan now id span)[i]? = some node) : ∃ before, now[i]? = some ⟨node.value, before⟩ := by
  by_cases hne : i = id
  · subst hne
    rw [respan, Array.getElem?_modify, if_pos rfl] at h
    obtain ⟨node', hnode', rfl⟩ := Option.map_eq_some_iff.1 h
    exact ⟨node'.span, hnode'⟩
  · rw [getElem?_respan_of_ne hne] at h
    exact ⟨node.span, h⟩

theorem size_respan : (respan now id span).size = now.size :=
  Array.size_modify

theorem Grows.refl (nodes : Array (Located N)) : Grows parts nodes nodes where
  old _ _ h := h
  new _ _ hle h := absurd (Array.getElem?_eq_some_iff.1 h).1 (Nat.not_lt.2 hle)

theorem Grows.size_le (h : Grows parts base now) : base.size ≤ now.size := by
  by_contra hlt
  have hlast : now.size < base.size := Nat.lt_of_not_le hlt
  have hold := h.old now.size base[now.size] (Array.getElem?_eq_getElem hlast)
  exact Nat.lt_irrefl _ (Array.getElem?_eq_some_iff.1 hold).1

theorem Grows.trans (h : Grows parts base now) (h' : Grows parts now later) :
    Grows parts base later where
  old i node hi := h'.old i node (h.old i node hi)
  new i node hle hi j hj := by
    by_cases hlt : i < now.size
    · -- the node was there in between, and is the same
      have hmid := Array.getElem?_eq_getElem hlt
      have hsame : now[i] = node := by
        have hlater := h'.old i now[i] hmid
        exact Option.some.inj (hlater.symm.trans hi)
      exact h.new i node hle (hsame ▸ hmid) j hj
    · obtain ⟨hbase, hji⟩ := h'.new i node (Nat.le_of_not_lt hlt) hi j hj
      exact ⟨Nat.le_trans h.size_le hbase, hji⟩

/-- **A node is added** that refers to new nodes. -/
theorem Grows.push (h : Grows parts base now) {node : Located N}
    (hnode : ∀ j ∈ parts node.value, base.size ≤ j ∧ j < now.size) :
    Grows parts base (now.push node) where
  old i node' hi := by
    have hnow := h.old i node' hi
    have hlt := (Array.getElem?_eq_some_iff.1 hnow).1
    rw [Array.getElem?_push_lt hlt, ← hnow, Array.getElem?_eq_getElem hlt]
  new i node' hle hi j hj := by
    by_cases hlt : i < now.size
    · rw [Array.getElem?_push_lt hlt, ← Array.getElem?_eq_getElem hlt] at hi
      exact h.new i node' hle hi j hj
    · have hbound := (Array.getElem?_eq_some_iff.1 hi).1
      rw [Array.size_push] at hbound
      obtain rfl : i = now.size := by omega
      rw [Array.getElem?_push_size] at hi
      obtain rfl := Option.some.inj hi
      exact hnode j hj

/-- **A new node is given another span.** -/
theorem Grows.respan (h : Grows parts base now) (hid : base.size ≤ id) (span : Span) :
    Grows parts base (respan now id span) where
  old i node hi := by
    have hlt := (Array.getElem?_eq_some_iff.1 hi).1
    rw [getElem?_respan_of_ne (by omega)]
    exact h.old i node hi
  new i node hle hi := by
    obtain ⟨before, hi⟩ := exists_of_getElem?_respan hi
    exact h.new i ⟨node.value, before⟩ hle hi

end Nodes

namespace Arena

variable {base a b c : Arena} {id : Nat} {span : Span}

/-! ### Arenas -/

/-- The nodes of the first arena are still there, and the others refer to each other, each to such
with smaller numbers. -/
structure Grown (base a : Arena) : Prop where
  patterns : Grows PatternNode.parts base.patterns a.patterns
  exprs : Grows ExprNode.parts base.exprs a.exprs
  within : ∀ (i : ExprId) node, base.exprs.size ≤ i → a.exprs[i]? = some node →
    ∀ p ∈ node.value.patterns, base.patterns.size ≤ p ∧ p < a.patterns.size

theorem Grown.refl (a : Arena) : a.Grown a where
  patterns := .refl _
  exprs := .refl _
  within _ _ hle h := absurd (Array.getElem?_eq_some_iff.1 h).1 (Nat.not_lt.2 hle)

theorem Grown.extends (h : base.Grown a) : base.Extends a :=
  ⟨h.patterns.old, h.exprs.old⟩

theorem Grown.trans (h : a.Grown b) (h' : b.Grown c) : a.Grown c where
  patterns := h.patterns.trans h'.patterns
  exprs := h.exprs.trans h'.exprs
  within i node hle hi p hp := by
    by_cases hlt : i < b.exprs.size
    · have hmid := Array.getElem?_eq_getElem hlt
      have hsame : b.exprs[i] = node :=
        Option.some.inj ((h'.exprs.old i b.exprs[i] hmid).symm.trans hi)
      obtain ⟨hbase, hp⟩ := h.within i node hle (hsame ▸ hmid) p hp
      exact ⟨hbase, Nat.lt_of_lt_of_le hp h'.patterns.size_le⟩
    · obtain ⟨hbase, hp⟩ := h'.within i node (Nat.le_of_not_lt hlt) hi p hp
      exact ⟨Nat.le_trans h.patterns.size_le hbase, hp⟩

theorem Grown.pushPattern (h : base.Grown a) (span : Span) {node : PatternNode}
    (hparts : ∀ j ∈ node.parts, base.patterns.size ≤ j ∧ j < a.patterns.size) :
    base.Grown (a.pushPattern span node).2 where
  patterns := h.patterns.push hparts
  exprs := h.exprs
  within i node' hle hi p hp := by
    obtain ⟨hbase, hlt⟩ := h.within i node' hle hi p hp
    refine ⟨hbase, ?_⟩
    rw [Arena.pushPattern, Array.size_push]
    exact Nat.lt_succ_of_lt hlt

theorem Grown.pushExpr (h : base.Grown a) (span : Span) {node : ExprNode}
    (hparts : ∀ j ∈ node.parts, base.exprs.size ≤ j ∧ j < a.exprs.size)
    (hpatterns : ∀ p ∈ node.patterns, base.patterns.size ≤ p ∧ p < a.patterns.size) :
    base.Grown (a.pushExpr span node).2 where
  patterns := h.patterns
  exprs := h.exprs.push hparts
  within i node' hle hi := by
    change (a.exprs.push _)[i]? = _ at hi
    rw [Array.getElem?_push] at hi
    split at hi
    · obtain rfl := Option.some.inj hi
      exact hpatterns
    · exact h.within i node' hle hi

/-- The arena with another span for a pattern. -/
def respanPattern (a : Arena) (id : PatternId) (span : Span) : Arena :=
  { a with patterns := respan a.patterns id span }

/-- The arena with another span for an expression. -/
def respanExpr (a : Arena) (id : ExprId) (span : Span) : Arena :=
  { a with exprs := respan a.exprs id span }

theorem Grown.respanPattern (h : base.Grown a) (hid : base.patterns.size ≤ id) (span : Span) :
    base.Grown (a.respanPattern id span) where
  patterns := h.patterns.respan hid span
  exprs := h.exprs
  within i node hle hi p hp := by
    rw [Arena.respanPattern, size_respan]
    exact h.within i node hle hi p hp

theorem Grown.respanExpr (h : base.Grown a) (hid : base.exprs.size ≤ id) (span : Span) :
    base.Grown (a.respanExpr id span) where
  patterns := h.patterns
  exprs := h.exprs.respan hid span
  within i node hle hi := by
    obtain ⟨before, hi⟩ := exists_of_getElem?_respan hi
    exact h.within i ⟨node.value, before⟩ hle hi

/-! ### Trees -/

theorem earlier_congr {α : Type} {f g : (i : Nat) → i < id → Option α}
    (h : ∀ i hi, f i hi = g i hi) : earlier id f = earlier id g := by
  have hfg : f = g := by
    funext i hi
    exact h i hi
  rw [hfg]

/-- The pattern of a number depends on the nodes up to it. -/
theorem pattern?_congr (h : ∀ i ≤ id, b.patterns[i]? = a.patterns[i]?) :
    b.pattern? id = a.pattern? id := by
  induction id using Nat.strongRecOn with
  | _ id ih =>
    have hparts : earlier id (fun i _ => b.pattern? i) = earlier id fun i _ => a.pattern? i :=
      earlier_congr fun i hi => ih i hi fun j hj => h j (Nat.le_trans hj (Nat.le_of_lt hi))
    rw [Arena.pattern?, Arena.pattern?, h id (Nat.le_refl id), hparts]

/-- The expression of a number depends on the patterns and on the nodes up to it. -/
theorem expr?_congr (hpatterns : b.patterns = a.patterns)
    (h : ∀ i ≤ id, b.exprs[i]? = a.exprs[i]?) : b.expr? id = a.expr? id := by
  have hpattern : b.pattern? = a.pattern? := by
    funext p
    exact pattern?_congr fun i _ => by rw [hpatterns]
  induction id using Nat.strongRecOn with
  | _ id ih =>
    have hparts : earlier id (fun i _ => b.expr? i) = earlier id fun i _ => a.expr? i :=
      earlier_congr fun i hi => ih i hi fun j hj => h j (Nat.le_trans hj (Nat.le_of_lt hi))
    rw [Arena.expr?, Arena.expr?, h id (Nat.le_refl id), hpattern, hparts]

/-- **A pattern with another span.** -/
theorem pattern?_respanPattern {p : Pattern} (h : a.pattern? id = some p) (span : Span) :
    (a.respanPattern id span).pattern? id = some (p.withSpan span) := by
  rw [Arena.pattern?] at h ⊢
  split at h
  · cases h
  · rename_i node before hnode
    have hparts : earlier id (fun i _ => (a.respanPattern id span).pattern? i) =
        earlier id fun i _ => a.pattern? i :=
      earlier_congr fun i hi => pattern?_congr fun j hj =>
        getElem?_respan_of_ne (Nat.ne_of_lt (Nat.lt_of_le_of_lt hj hi))
    have hrespanned : (a.respanPattern id span).patterns[id]? = some ⟨node, span⟩ :=
      getElem?_respan_self hnode
    rw [hparts]
    simp only [hrespanned]
    exact PatternNode.tree?_withSpan h span

/-- **An expression with another span.** -/
theorem expr?_respanExpr {e : Expr} (h : a.expr? id = some e) (span : Span) :
    (a.respanExpr id span).expr? id = some (e.withSpan span) := by
  rw [Arena.expr?] at h ⊢
  split at h
  · cases h
  · rename_i node before hnode
    -- the parts come before the node, so that they do not see its new span
    have hparts : earlier id (fun i _ => (a.respanExpr id span).expr? i) =
        earlier id fun i _ => a.expr? i :=
      earlier_congr fun i hi => expr?_congr rfl fun j hj =>
        getElem?_respan_of_ne (Nat.ne_of_lt (Nat.lt_of_le_of_lt hj hi))
    have hpattern : (a.respanExpr id span).pattern? = a.pattern? := by
      funext p
      exact pattern?_congr fun _ _ => rfl
    have hrespanned : (a.respanExpr id span).exprs[id]? = some ⟨node, span⟩ :=
      getElem?_respan_self hnode
    rw [hparts, hpattern]
    simp only [hrespanned]
    exact ExprNode.tree?_withSpan h span

/-- The span of a pattern, if there is one with the number. -/
def patternSpan? (a : Arena) (id : PatternId) : Option Span :=
  a.patterns[id]?.map (·.span)

/-- The span of an expression, if there is one with the number. -/
def exprSpan? (a : Arena) (id : ExprId) : Option Span :=
  a.exprs[id]?.map (·.span)

theorem patternSpan?_eq {p : Pattern} (h : a.pattern? id = some p) :
    a.patternSpan? id = some p.span := by
  rw [Arena.pattern?] at h
  unfold patternSpan?
  split at h
  · cases h
  · rename_i node span hnode
    rw [hnode, Option.map_some, PatternNode.span_of_tree? h]

theorem exprSpan?_eq {e : Expr} (h : a.expr? id = some e) : a.exprSpan? id = some e.span := by
  rw [Arena.expr?] at h
  unfold exprSpan?
  split at h
  · cases h
  · rename_i node span hnode
    rw [hnode, Option.map_some, ExprNode.span_of_tree? h]

/-! ### New trees -/

/-- The number is new and stands for the pattern. -/
structure NewPattern (base a : Arena) (id : PatternId) (p : Pattern) : Prop where
  le : base.patterns.size ≤ id
  tree : a.pattern? id = some p

/-- The number is new and stands for the expression. -/
structure NewExpr (base a : Arena) (id : ExprId) (e : Expr) : Prop where
  le : base.exprs.size ≤ id
  tree : a.expr? id = some e

/-- The numbers of an option are new and stand for its pattern and its body. -/
structure NewOption (base a : Arena) (ids : PatternId × ExprId) (option : Pattern × Expr) : Prop
    where
  pattern : NewPattern base a ids.1 option.1
  body : NewExpr base a ids.2 option.2

theorem NewPattern.mono {p : Pattern} (h : NewPattern base a id p) (hb : a.Extends b) :
    NewPattern base b id p :=
  ⟨h.le, hb.pattern? h.tree⟩

theorem NewExpr.mono {e : Expr} (h : NewExpr base a id e) (hb : a.Extends b) :
    NewExpr base b id e :=
  ⟨h.le, hb.expr? h.tree⟩

/-- What is new in a larger arena is new in a smaller one. -/
theorem NewPattern.weaken {p : Pattern} (h : NewPattern a b id p) (ha : base.Grown a) :
    NewPattern base b id p :=
  ⟨Nat.le_trans ha.patterns.size_le h.le, h.tree⟩

theorem NewExpr.weaken {e : Expr} (h : NewExpr a b id e) (ha : base.Grown a) :
    NewExpr base b id e :=
  ⟨Nat.le_trans ha.exprs.size_le h.le, h.tree⟩

theorem NewOption.weaken {ids : PatternId × ExprId} {option : Pattern × Expr}
    (h : NewOption a b ids option) (ha : base.Grown a) : NewOption base b ids option :=
  ⟨h.pattern.weaken ha, h.body.weaken ha⟩

theorem NewPattern.bounds {p : Pattern} (h : NewPattern base a id p) :
    base.patterns.size ≤ id ∧ id < a.patterns.size :=
  ⟨h.le, lt_of_pattern? h.tree⟩

theorem NewExpr.bounds {e : Expr} (h : NewExpr base a id e) :
    base.exprs.size ≤ id ∧ id < a.exprs.size :=
  ⟨h.le, lt_of_expr? h.tree⟩

/-- The node refers to new patterns, and they make up the pattern `p` around any span. -/
structure MakesPattern (base a : Arena) (node : PatternNode) (p : Span → Pattern) : Prop where
  parts : ∀ j ∈ node.parts, base.patterns.size ≤ j ∧ j < a.patterns.size
  tree : ∀ span, node.tree? a.pattern? span = some (p span)

/-- The node refers to new nodes, and they make up the expression `e` around any span. -/
structure MakesExpr (base a : Arena) (node : ExprNode) (e : Span → Expr) : Prop where
  parts : ∀ j ∈ node.parts, base.exprs.size ≤ j ∧ j < a.exprs.size
  patterns : ∀ p ∈ node.patterns, base.patterns.size ≤ p ∧ p < a.patterns.size
  tree : ∀ span, node.tree? a.pattern? a.expr? span = some (e span)

/-- **A node that makes a pattern is added.** -/
theorem MakesPattern.push {node : PatternNode} {p : Span → Pattern}
    (h : MakesPattern base a node p) (ha : base.Grown a) (span : Span) :
    base.Grown (a.pushPattern span node).2 ∧
      NewPattern base (a.pushPattern span node).2 (a.pushPattern span node).1 (p span) :=
  ⟨ha.pushPattern span h.parts, ha.patterns.size_le, pattern?_pushPattern (h.tree span)⟩

/-- **A node that makes an expression is added.** -/
theorem MakesExpr.push {node : ExprNode} {e : Span → Expr}
    (h : MakesExpr base a node e) (ha : base.Grown a) (span : Span) :
    base.Grown (a.pushExpr span node).2 ∧
      NewExpr base (a.pushExpr span node).2 (a.pushExpr span node).1 (e span) :=
  ⟨ha.pushExpr span h.parts h.patterns, ha.exprs.size_le, expr?_pushExpr (h.tree span)⟩

/-- What holds of the first of two related elements holds of a whole list of them. -/
theorem forall_mem_of_forall₂ {α β : Type} {R : α → β → Prop} {P : α → Prop}
    (hP : ∀ x y, R x y → P x) {xs : List α} {ys : List β} (h : List.Forall₂ R xs ys) :
    ∀ x ∈ xs, P x := by
  induction h with
  | nil => simp
  | cons hxy _ ih => exact List.forall_mem_cons.2 ⟨hP _ _ hxy, ih⟩

section Makes

variable {i j k : ExprId} {e f g : Expr} {p q : PatternId} {u v : Pattern}

theorem makesPattern_tuple {ids : List PatternId} {ps : List Pattern}
    (h : List.Forall₂ (NewPattern base a) ids ps) :
    MakesPattern base a (.tuple ids) (.tuple · ps) where
  parts := forall_mem_of_forall₂ (fun _ _ hp => hp.bounds) h
  tree span := by
    have hps := mapM_eq_some_iff.2 (h.imp fun _ _ hp => hp.tree)
    simp [PatternNode.tree?, hps]

theorem makesPattern_cons (hu : NewPattern base a p u) (hv : NewPattern base a q v) :
    MakesPattern base a (.cons p q) (.cons · u v) where
  parts := by simp [PatternNode.parts, hu.bounds, hv.bounds]
  tree span := by simp [PatternNode.tree?, hu.tree, hv.tree]

/-- A node without parts. -/
theorem makesPattern_leaf (node : PatternNode) (leaf : Span → Pattern) (hparts : node.parts = [])
    (htree : ∀ part span, node.tree? part span = some (leaf span)) :
    MakesPattern base a node leaf where
  parts := by simp [hparts]
  tree := htree _

/-- A node without parts. -/
theorem makesExpr_leaf (node : ExprNode) (leaf : Span → Expr) (hparts : node.parts = [])
    (hpatterns : node.patterns = [])
    (htree : ∀ pattern part span, node.tree? pattern part span = some (leaf span)) :
    MakesExpr base a node leaf where
  parts := by simp [hparts]
  patterns := by simp [hpatterns]
  tree := htree _ _

theorem makesExpr_condition (he : NewExpr base a i e) (hf : NewExpr base a j f)
    (hg : NewExpr base a k g) :
    MakesExpr base a (.condition i j k) (.condition · e f g) where
  parts := by simp [ExprNode.parts, he.bounds, hf.bounds, hg.bounds]
  patterns := by simp [ExprNode.patterns]
  tree span := by simp [ExprNode.tree?, he.tree, hf.tree, hg.tree]

theorem makesExpr_binary (op : BinaryOp) (he : NewExpr base a i e) (hf : NewExpr base a j f) :
    MakesExpr base a (.binary op i j) (.binary · op e f) where
  parts := by simp [ExprNode.parts, he.bounds, hf.bounds]
  patterns := by simp [ExprNode.patterns]
  tree span := by simp [ExprNode.tree?, he.tree, hf.tree]

theorem makesExpr_lambda (hu : NewPattern base a p u) (he : NewExpr base a i e) :
    MakesExpr base a (.lambda p i) (.lambda · u e) where
  parts := by simp [ExprNode.parts, he.bounds]
  patterns := by simp [ExprNode.patterns, hu.bounds]
  tree span := by simp [ExprNode.tree?, hu.tree, he.tree]

theorem makesExpr_apply (he : NewExpr base a i e) (hf : NewExpr base a j f) :
    MakesExpr base a (.apply i j) (.apply · e f) where
  parts := by simp [ExprNode.parts, he.bounds, hf.bounds]
  patterns := by simp [ExprNode.patterns]
  tree span := by simp [ExprNode.tree?, he.tree, hf.tree]

theorem makesExpr_bind (hu : NewPattern base a p u) (he : NewExpr base a i e)
    (hf : NewExpr base a j f) : MakesExpr base a (.bind p i j) (.bind · u e f) where
  parts := by simp [ExprNode.parts, he.bounds, hf.bounds]
  patterns := by simp [ExprNode.patterns, hu.bounds]
  tree span := by simp [ExprNode.tree?, hu.tree, he.tree, hf.tree]

theorem makesExpr_cases {ids : List (PatternId × ExprId)} {options : List (Pattern × Expr)}
    (he : NewExpr base a i e) (h : List.Forall₂ (NewOption base a) ids options) :
    MakesExpr base a (.cases i ids) (.cases · e options) where
  parts := by
    refine List.forall_mem_cons.2 ⟨he.bounds, List.forall_mem_map.2 ?_⟩
    exact forall_mem_of_forall₂ (fun _ _ ho => ho.body.bounds) h
  patterns := by
    refine List.forall_mem_map.2 ?_
    exact forall_mem_of_forall₂ (fun _ _ ho => ho.pattern.bounds) h
  tree span := by
    refine Option.bind_eq_some_iff.2 ⟨e, he.tree, ?_⟩
    refine Option.bind_eq_some_iff.2 ⟨options, mapM_eq_some_iff.2 (h.imp ?_), rfl⟩
    rintro ⟨p, i⟩ ⟨u, f⟩ ho
    exact Option.bind_eq_some_iff.2 ⟨u, ho.pattern.tree,
      Option.bind_eq_some_iff.2 ⟨f, ho.body.tree, rfl⟩⟩

theorem makesExpr_tuple {ids : List ExprId} {es : List Expr}
    (h : List.Forall₂ (NewExpr base a) ids es) :
    MakesExpr base a (.tuple ids) (.tuple · es) where
  parts := forall_mem_of_forall₂ (fun _ _ he => he.bounds) h
  patterns := by simp [ExprNode.patterns]
  tree span := by
    have hes := mapM_eq_some_iff.2 (h.imp fun _ _ he => he.tree)
    simp [ExprNode.tree?, hes]

theorem makesExpr_cons (he : NewExpr base a i e) (hf : NewExpr base a j f) :
    MakesExpr base a (.cons i j) (.cons · e f) where
  parts := by simp [ExprNode.parts, he.bounds, hf.bounds]
  patterns := by simp [ExprNode.patterns]
  tree span := by simp [ExprNode.tree?, he.tree, hf.tree]

end Makes

end Arena

end CallByNeed

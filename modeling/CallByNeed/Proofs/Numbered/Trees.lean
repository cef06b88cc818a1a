import CallByNeed.Proofs.Building.Agreement

/-!
# The trees of an arena without cycles

A number stands for a tree if following the references of its node ends in one (`Arena.PatternAt`,
`Arena.ExprAt`).  In what order the nodes were added does not matter for that.  In an arena without
cycles every number of a node stands for a tree (`Arena.Acyclic.exists_exprAt`), and reading a text
into such an arena leaves it without cycles (`Arena.Acyclic.of_adds`).
-/

namespace CallByNeed

namespace Arena

/-- Nodes can be put in a row in which each one stands behind its parts. -/
def AcyclicNodes {N : Type} (parts : N → List Nat) (nodes : Array (Located N)) : Prop :=
  ∃ place : Nat → Nat, ∀ (i : Nat) node, nodes[i]? = some node →
    place i < nodes.size ∧ ∀ j ∈ parts node.value, j < nodes.size ∧ place j < place i

/-- No node leads back to itself, and all references are to nodes. -/
structure Acyclic (a : Arena) : Prop where
  patterns : AcyclicNodes PatternNode.parts a.patterns
  exprs : AcyclicNodes ExprNode.parts a.exprs
  within : ∀ (i : ExprId) node, a.exprs[i]? = some node →
    ∀ p ∈ node.value.patterns, p < a.patterns.size

variable (a : Arena)

mutual

/-- The number stands for the pattern. -/
inductive PatternAt : PatternId → Pattern → Prop where
  | bind {id : PatternId} {span : Span} {name : String}
    (h : a.patterns[id]? = some ⟨.bind name, span⟩) : PatternAt id (.bind span name)
  | wildcard {id : PatternId} {span : Span} (h : a.patterns[id]? = some ⟨.wildcard, span⟩) :
    PatternAt id (.wildcard span)
  | integer {id : PatternId} {span : Span} {value : Int}
    (h : a.patterns[id]? = some ⟨.integer value, span⟩) : PatternAt id (.integer span value)
  | boolean {id : PatternId} {span : Span} {value : Bool}
    (h : a.patterns[id]? = some ⟨.boolean value, span⟩) : PatternAt id (.boolean span value)
  | tuple {id : PatternId} {span : Span} {ids : List PatternId} {ps : List Pattern}
    (h : a.patterns[id]? = some ⟨.tuple ids, span⟩) (hps : PatternsAt ids ps) :
    PatternAt id (.tuple span ps)
  | cons {id i j : PatternId} {span : Span} {p q : Pattern}
    (h : a.patterns[id]? = some ⟨.cons i j, span⟩) (hp : PatternAt i p) (hq : PatternAt j q) :
    PatternAt id (.cons span p q)
  | nil {id : PatternId} {span : Span} (h : a.patterns[id]? = some ⟨.nil, span⟩) :
    PatternAt id (.nil span)

/-- The numbers stand for the patterns. -/
inductive PatternsAt : List PatternId → List Pattern → Prop where
  | nil : PatternsAt [] []
  | cons {id : PatternId} {p : Pattern} {ids : List PatternId} {ps : List Pattern}
    (hp : PatternAt id p) (hps : PatternsAt ids ps) : PatternsAt (id :: ids) (p :: ps)

end

mutual

/-- The number stands for the expression. -/
inductive ExprAt : ExprId → Expr → Prop where
  | boolean {id : ExprId} {span : Span} {value : Bool}
    (h : a.exprs[id]? = some ⟨.boolean value, span⟩) : ExprAt id (.boolean span value)
  | integer {id : ExprId} {span : Span} {value : Int}
    (h : a.exprs[id]? = some ⟨.integer value, span⟩) : ExprAt id (.integer span value)
  | identifier {id : ExprId} {span : Span} {name : String}
    (h : a.exprs[id]? = some ⟨.identifier name, span⟩) : ExprAt id (.identifier span name)
  | condition {id i j k : ExprId} {span : Span} {e f g : Expr}
    (h : a.exprs[id]? = some ⟨.condition i j k, span⟩) (he : ExprAt i e) (hf : ExprAt j f)
    (hg : ExprAt k g) : ExprAt id (.condition span e f g)
  | binary {id i j : ExprId} {span : Span} {op : BinaryOp} {e f : Expr}
    (h : a.exprs[id]? = some ⟨.binary op i j, span⟩) (he : ExprAt i e) (hf : ExprAt j f) :
    ExprAt id (.binary span op e f)
  | lambda {id i : ExprId} {p : PatternId} {span : Span} {param : Pattern} {e : Expr}
    (h : a.exprs[id]? = some ⟨.lambda p i, span⟩) (hp : a.PatternAt p param) (he : ExprAt i e) :
    ExprAt id (.lambda span param e)
  | apply {id i j : ExprId} {span : Span} {e f : Expr}
    (h : a.exprs[id]? = some ⟨.apply i j, span⟩) (he : ExprAt i e) (hf : ExprAt j f) :
    ExprAt id (.apply span e f)
  | bind {id i j : ExprId} {p : PatternId} {span : Span} {pattern : Pattern} {e f : Expr}
    (h : a.exprs[id]? = some ⟨.bind p i j, span⟩) (hp : a.PatternAt p pattern) (he : ExprAt i e)
    (hf : ExprAt j f) : ExprAt id (.bind span pattern e f)
  | cases {id i : ExprId} {span : Span} {ids : List (PatternId × ExprId)} {e : Expr}
    {options : List (Pattern × Expr)} (h : a.exprs[id]? = some ⟨.cases i ids, span⟩)
    (he : ExprAt i e) (hoptions : OptionsAt ids options) : ExprAt id (.cases span e options)
  | tuple {id : ExprId} {span : Span} {ids : List ExprId} {es : List Expr}
    (h : a.exprs[id]? = some ⟨.tuple ids, span⟩) (hes : ExprsAt ids es) :
    ExprAt id (.tuple span es)
  | cons {id i j : ExprId} {span : Span} {e f : Expr}
    (h : a.exprs[id]? = some ⟨.cons i j, span⟩) (he : ExprAt i e) (hf : ExprAt j f) :
    ExprAt id (.cons span e f)
  | nil {id : ExprId} {span : Span} (h : a.exprs[id]? = some ⟨.nil, span⟩) : ExprAt id (.nil span)

/-- The numbers stand for the expressions. -/
inductive ExprsAt : List ExprId → List Expr → Prop where
  | nil : ExprsAt [] []
  | cons {id : ExprId} {e : Expr} {ids : List ExprId} {es : List Expr} (he : ExprAt id e)
    (hes : ExprsAt ids es) : ExprsAt (id :: ids) (e :: es)

/-- The numbers stand for the options. -/
inductive OptionsAt : List (PatternId × ExprId) → List (Pattern × Expr) → Prop where
  | nil : OptionsAt [] []
  | cons {p : PatternId} {id : ExprId} {pattern : Pattern} {e : Expr}
    {ids : List (PatternId × ExprId)} {options : List (Pattern × Expr)}
    (hp : a.PatternAt p pattern) (he : ExprAt id e) (hoptions : OptionsAt ids options) :
    OptionsAt ((p, id) :: ids) ((pattern, e) :: options)

end

variable {a}

/-- The node of a number that stands for a pattern has its span. -/
theorem PatternAt.node {id : PatternId} {p : Pattern} (h : a.PatternAt id p) :
    ∃ node, a.patterns[id]? = some ⟨node, p.span⟩ := by
  cases h <;> exact ⟨_, by assumption⟩

/-- The node of a number that stands for an expression has its span. -/
theorem ExprAt.node {id : ExprId} {e : Expr} (h : a.ExprAt id e) :
    ∃ node, a.exprs[id]? = some ⟨node, e.span⟩ := by
  cases h <;> exact ⟨_, by assumption⟩

theorem PatternAt.lt_size {id : PatternId} {p : Pattern} (h : a.PatternAt id p) :
    id < a.patterns.size := by
  obtain ⟨node, hnode⟩ := h.node
  exact (Array.getElem?_eq_some_iff.1 hnode).1

theorem ExprAt.lt_size {id : ExprId} {e : Expr} (h : a.ExprAt id e) : id < a.exprs.size := by
  obtain ⟨node, hnode⟩ := h.node
  exact (Array.getElem?_eq_some_iff.1 hnode).1

theorem PatternsAt.length_eq {ids : List PatternId} {ps : List Pattern} (h : a.PatternsAt ids ps) :
    ids.length = ps.length := by
  match h with
  | .nil => rfl
  | .cons _ hps => rw [List.length_cons, List.length_cons, hps.length_eq]

theorem exists_patternsAt {ids : List PatternId} (h : ∀ i ∈ ids, ∃ p, a.PatternAt i p) :
    ∃ ps, a.PatternsAt ids ps := by
  induction ids with
  | nil => exact ⟨[], .nil⟩
  | cons id ids ih =>
    obtain ⟨⟨p, hp⟩, hids⟩ := List.forall_mem_cons.1 h
    obtain ⟨ps, hps⟩ := ih hids
    exact ⟨p :: ps, .cons hp hps⟩

theorem exists_exprsAt {ids : List ExprId} (h : ∀ i ∈ ids, ∃ e, a.ExprAt i e) :
    ∃ es, a.ExprsAt ids es := by
  induction ids with
  | nil => exact ⟨[], .nil⟩
  | cons id ids ih =>
    obtain ⟨⟨e, he⟩, hids⟩ := List.forall_mem_cons.1 h
    obtain ⟨es, hes⟩ := ih hids
    exact ⟨e :: es, .cons he hes⟩

theorem exists_optionsAt {ids : List (PatternId × ExprId)}
    (hpatterns : ∀ i ∈ ids.map (·.1), ∃ p, a.PatternAt i p)
    (hexprs : ∀ i ∈ ids.map (·.2), ∃ e, a.ExprAt i e) : ∃ options, a.OptionsAt ids options := by
  induction ids with
  | nil => exact ⟨[], .nil⟩
  | cons id ids ih =>
    obtain ⟨⟨p, hp⟩, hps⟩ := List.forall_mem_cons.1 hpatterns
    obtain ⟨⟨e, he⟩, hes⟩ := List.forall_mem_cons.1 hexprs
    obtain ⟨options, hoptions⟩ := ih hps hes
    exact ⟨(p, e) :: options, .cons hp he hoptions⟩

/-- **Without cycles every node of a pattern stands for one.** -/
theorem Acyclic.exists_patternAt (h : a.Acyclic) {id : PatternId} (hid : id < a.patterns.size) :
    ∃ p, a.PatternAt id p := by
  obtain ⟨place, hplace⟩ := h.patterns
  -- the parts of a node stand further ahead in the row
  induction hn : place id using Nat.strongRecOn generalizing id with
  | _ n ih =>
    obtain ⟨node, hnode⟩ : ∃ node, a.patterns[id]? = some node :=
      ⟨_, Array.getElem?_eq_getElem hid⟩
    have hparts (j : PatternId) (hj : j ∈ node.value.parts) : ∃ p, a.PatternAt j p := by
      obtain ⟨hlt, hless⟩ := (hplace id node hnode).2 j hj
      exact ih (place j) (hn ▸ hless) hlt rfl
    obtain ⟨node, span⟩ := node
    cases node with
    | bind name => exact ⟨_, .bind hnode⟩
    | wildcard => exact ⟨_, .wildcard hnode⟩
    | integer value => exact ⟨_, .integer hnode⟩
    | boolean value => exact ⟨_, .boolean hnode⟩
    | nil => exact ⟨_, .nil hnode⟩
    | tuple ids =>
      obtain ⟨ps, hps⟩ := exists_patternsAt hparts
      exact ⟨_, .tuple hnode hps⟩
    | cons i j =>
      obtain ⟨p, hp⟩ := hparts i (by simp [PatternNode.parts])
      obtain ⟨q, hq⟩ := hparts j (by simp [PatternNode.parts])
      exact ⟨_, .cons hnode hp hq⟩

/-- **Without cycles every node of an expression stands for one.** -/
theorem Acyclic.exists_exprAt (h : a.Acyclic) {id : ExprId} (hid : id < a.exprs.size) :
    ∃ e, a.ExprAt id e := by
  obtain ⟨place, hplace⟩ := h.exprs
  induction hn : place id using Nat.strongRecOn generalizing id with
  | _ n ih =>
    obtain ⟨node, hnode⟩ : ∃ node, a.exprs[id]? = some node :=
      ⟨_, Array.getElem?_eq_getElem hid⟩
    -- parts stand at earlier places, so that they stand for expressions by induction
    have hparts (j : ExprId) (hj : j ∈ node.value.parts) : ∃ e, a.ExprAt j e := by
      obtain ⟨hlt, hless⟩ := (hplace id node hnode).2 j hj
      exact ih (place j) (hn ▸ hless) hlt rfl
    have hpatterns (p : PatternId) (hp : p ∈ node.value.patterns) : ∃ q, a.PatternAt p q :=
      h.exists_patternAt (h.within id node hnode p hp)
    obtain ⟨node, span⟩ := node
    cases node with
    | boolean value => exact ⟨_, .boolean hnode⟩
    | integer value => exact ⟨_, .integer hnode⟩
    | identifier name => exact ⟨_, .identifier hnode⟩
    | nil => exact ⟨_, .nil hnode⟩
    | condition i j k =>
      obtain ⟨e, he⟩ := hparts i (by simp [ExprNode.parts])
      obtain ⟨f, hf⟩ := hparts j (by simp [ExprNode.parts])
      obtain ⟨g, hg⟩ := hparts k (by simp [ExprNode.parts])
      exact ⟨_, .condition hnode he hf hg⟩
    | binary op i j =>
      obtain ⟨e, he⟩ := hparts i (by simp [ExprNode.parts])
      obtain ⟨f, hf⟩ := hparts j (by simp [ExprNode.parts])
      exact ⟨_, .binary hnode he hf⟩
    | lambda p i =>
      obtain ⟨param, hparam⟩ := hpatterns p (by simp [ExprNode.patterns])
      obtain ⟨e, he⟩ := hparts i (by simp [ExprNode.parts])
      exact ⟨_, .lambda hnode hparam he⟩
    | apply i j =>
      obtain ⟨e, he⟩ := hparts i (by simp [ExprNode.parts])
      obtain ⟨f, hf⟩ := hparts j (by simp [ExprNode.parts])
      exact ⟨_, .apply hnode he hf⟩
    | bind p i j =>
      obtain ⟨pattern, hpattern⟩ := hpatterns p (by simp [ExprNode.patterns])
      obtain ⟨e, he⟩ := hparts i (by simp [ExprNode.parts])
      obtain ⟨f, hf⟩ := hparts j (by simp [ExprNode.parts])
      exact ⟨_, .bind hnode hpattern he hf⟩
    | cases i ids =>
      obtain ⟨⟨e, he⟩, hexprs⟩ := List.forall_mem_cons.1 hparts
      obtain ⟨options, hoptions⟩ := exists_optionsAt hpatterns hexprs
      exact ⟨_, .cases hnode he hoptions⟩
    | tuple ids =>
      obtain ⟨es, hes⟩ := exists_exprsAt hparts
      exact ⟨_, .tuple hnode hes⟩
    | cons i j =>
      obtain ⟨e, he⟩ := hparts i (by simp [ExprNode.parts])
      obtain ⟨f, hf⟩ := hparts j (by simp [ExprNode.parts])
      exact ⟨_, .cons hnode he hf⟩

/-! ### Arenas that texts are read into -/

/-- Nodes that only refer to earlier ones have no cycles. -/
theorem acyclicNodes_of_earlier {N : Type} {parts : N → List Nat} {nodes : Array (Located N)}
    (h : ∀ (i : Nat) node, nodes[i]? = some node → ∀ j ∈ parts node.value, j < i) :
    AcyclicNodes parts nodes := by
  refine ⟨id, fun i node hi => ?_⟩
  have hlt : i < nodes.size := (Array.getElem?_eq_some_iff.1 hi).1
  exact ⟨hlt, fun j hj => ⟨Nat.lt_trans (h i node hi j hj) hlt, h i node hi j hj⟩⟩

theorem acyclic_empty : Acyclic .empty where
  patterns := acyclicNodes_of_earlier fun i node h => by simp [empty] at h
  exprs := acyclicNodes_of_earlier fun i node h => by simp [empty] at h
  within i node h := by simp [empty] at h

/-- **Nodes that grow have no cycles if they had none**: the new ones stand behind the old ones. -/
theorem AcyclicNodes.grows {N : Type} {parts : N → List Nat} {base now : Array (Located N)}
    (h : AcyclicNodes parts base) (hgrows : Grows parts base now) : AcyclicNodes parts now := by
  obtain ⟨place, hplace⟩ := h
  have hsize := hgrows.size_le
  refine ⟨fun i => if i < base.size then place i else i, fun i node hi => ?_⟩
  have hlt : i < now.size := (Array.getElem?_eq_some_iff.1 hi).1
  by_cases hbase : i < base.size
  · -- an old node with its old parts
    have hold : base[i]? = some node := by
      have hnode := Array.getElem?_eq_getElem hbase
      rw [hnode, ← Option.some.inj ((hgrows.old i _ hnode).symm.trans hi)]
    obtain ⟨hi', hparts⟩ := hplace i node hold
    simp only [if_pos hbase]
    refine ⟨by omega, fun j hj => ?_⟩
    obtain ⟨hj', hless⟩ := hparts j hj
    rw [if_pos hj']
    exact ⟨by omega, hless⟩
  · have hparts := hgrows.new i node (Nat.le_of_not_lt hbase) hi
    simp only [if_neg hbase]
    refine ⟨hlt, fun j hj => ?_⟩
    obtain ⟨hle, hless⟩ := hparts j hj
    rw [if_neg (Nat.not_lt.2 hle)]
    exact ⟨Nat.lt_trans hless hlt, hless⟩

theorem Acyclic.grown {b : Arena} (h : a.Acyclic) (hgrown : a.Grown b) : b.Acyclic where
  patterns := h.patterns.grows hgrown.patterns
  exprs := h.exprs.grows hgrown.exprs
  within i node hi p hp := by
    by_cases hold : i < a.exprs.size
    · have hnode := Array.getElem?_eq_getElem hold
      have hsame := Option.some.inj ((hgrown.exprs.old i _ hnode).symm.trans hi)
      exact Nat.lt_of_lt_of_le (h.within i node (hsame ▸ hnode) p hp) hgrown.patterns.size_le
    · exact (hgrown.within i node (Nat.le_of_not_lt hold) hi p hp).2

/-- **Reading a text makes no cycles**, whether or not there is an error in it. -/
theorem Acyclic.of_adds {table : OperatorTable} {parsed : Except ParseError Expr}
    {result : Except ParseError ExprId × Arena} (h : a.Acyclic)
    (hadds : a.Adds table parsed result) : result.2.Acyclic := by
  cases hadds with
  | ok hgrown _ => exact h.grown hgrown
  | error hgrown => exact h.grown hgrown

end Arena

end CallByNeed

import CallByNeed.Proofs.Building.Runs

/-!
# Reading node by node agrees with reading trees

Every builder reads what the parser of the same name reads: one lemma for each reader
(`Builder.Reads`), put together as the reader is.  What is read can be printed, since the tokens are
legible and round brackets never make a tuple of one element, unless an operator of the table makes
something else of its operands.
-/

namespace CallByNeed

namespace Builder

variable {α β : Type} {table : OperatorTable} {base a : Arena}

/-! ### Items -/

section Items

variable {R : Arena → Arena → α → β → Prop} {item : Builder α} {item' : Parser β}

/-- An item and the items behind it. -/
theorem reads_cons (hR : Stable R) (hitem : Reads R item item') {items : Builder (List α)}
    {items' : Parser (List β)} (hitems : Reads (AllRead R) items items') :
    Reads (AllRead R) (do let x ← item; let xs ← items; return x :: xs)
      (do let x ← item'; let xs ← items'; return x :: xs) := by
  intro a
  refine (hitem.runs hR).bind ?_
  rintro b v w ⟨-, hvw⟩
  refine (hitems.runs hR.all).bind ?_
  rintro c vs ws ⟨hc, hall⟩
  exact runs_pure (.cons (hR.mono hvw hc) hall)

theorem reads_commaItems (hR : Stable R) (hitem : Reads R item item') (close : Token) (fuel : Nat)
    (first : Bool) :
    Reads (AllRead R) (commaItems item close fuel first)
      (Parser.commaItems item' close fuel first) := by
  induction fuel generalizing first with
  | zero => exact fun a => runs_stop _
  | succ fuel ih =>
    intro a
    have hmore := reads_cons hR hitem (ih false) a
    rw [commaItems, Parser.commaItems]
    refine runs_peek_bind fun t _ => ?_
    split
    · exact runs_pure .nil
    · split
      · refine runs_read_bind _ fun _ => ?_
        exact hmore
      · exact hmore

theorem runs_delimited (hR : Stable R) (hitem : Reads R item item') (fuel : Nat)
    (opening close : Token) :
    Runs base a (fun b x y => AllRead R base b x.1 y.1 ∧ x.2 = y.2)
      (delimited fuel opening close item) (Parser.delimited fuel opening close item') := by
  refine runs_read_bind _ fun left => ?_
  refine ((reads_commaItems hR hitem close fuel true).runs hR.all).bind ?_
  rintro b vs ws ⟨-, hall⟩
  refine runs_read_bind _ fun right => ?_
  exact runs_pure ⟨hall, rfl⟩

theorem reads_blockItems (hR : Stable R) (hitem : Reads R item item') (begins : Token → Bool)
    (fuel : Nat) (first : Bool) :
    Reads (AllRead R) (blockItems item begins fuel first)
      (Parser.blockItems item' begins fuel first) := by
  induction fuel generalizing first with
  | zero => exact fun a => runs_stop _
  | succ fuel ih =>
    intro a
    have hmore := reads_cons hR hitem (ih false) a
    rw [blockItems, Parser.blockItems]
    refine runs_peek_bind fun t _ => ?_
    -- the block ends, a delimiter starts an item, or an item follows without one
    split
    · refine runs_read_bind _ fun _ => ?_
      exact runs_pure .nil
    · split
      · refine runs_read_bind _ fun _ => ?_
        exact hmore
      · split
        · exact hmore
        · refine runs_read_bind _ fun closed => ?_
          split
          · exact runs_pure .nil
          · exact runs_stop _

theorem reads_block (hR : Stable R) (hitem : Reads R item item') (fuel : Nat)
    (begins : Token → Bool) :
    Reads (AllRead R) (block fuel begins item) (Parser.block fuel begins item') := by
  intro a
  refine runs_read_bind _ fun _ => ?_
  exact reads_blockItems hR hitem begins fuel true _

end Items

/-- The last of several things that have been read, and those before it. -/
theorem AllRead.last {R : Arena → Arena → α → β → Prop} {xs : List α} {ys : List β}
    (h : AllRead R base a xs ys) (hx : xs ≠ []) (hy : ys ≠ []) :
    R base a (xs.getLast hx) (ys.getLast hy) ∧ AllRead R base a xs.dropLast ys.dropLast := by
  induction h with
  | nil => exact absurd rfl hx
  | cons hxy hall ih =>
    cases hall with
    | nil => exact ⟨hxy, .nil⟩
    | cons hxy' hall =>
      obtain ⟨hlast, hinit⟩ := ih (by simp) (by simp)
      exact ⟨hlast, .cons hxy hinit⟩

/-! ### Patterns -/

section Patterns

theorem runs_leafPattern {node : PatternNode} {p : Span → Pattern}
    (h : base.MakesPattern a node p) (hprintable : ∀ span, (p span).Printable) :
    Runs base a (PatternRead base) (leafPattern node) (Pattern.Parser.leaf p) := by
  refine runs_read_bind _ fun t => ?_
  exact (runs_pattern h t.span (hprintable _)).right

theorem runs_consPatterns {ids : List PatternId} {ps : List Pattern}
    (h : AllRead PatternRead base a ids ps) {tail : PatternId} {t : Pattern}
    (htail : PatternRead base a tail t) (stop : Position) :
    Runs base a (fun b id p => a.Extends b ∧ PatternRead base b id p)
      (consPatterns stop ids tail) (pure (Pattern.consAll stop ps t)) := by
  induction h with
  | nil => exact runs_pure ⟨.refl a, htail⟩
  | @cons head p heads ps hhead _ ih =>
    refine ih.bindPure ?_
    rintro b rest ⟨hb, hrest⟩
    have hhead' := stable_pattern.mono hhead hb
    refine runs_patternSpan_bind hhead' ?_
    refine (runs_pattern (Arena.makesPattern_cons hhead'.toNewPattern hrest.toNewPattern) _
      ⟨hhead'.printable, hrest.printable⟩).imp ?_
    rintro c id p ⟨hc, hid⟩
    exact ⟨hb.trans hc, hid⟩

/-- Round brackets make no tuple of one element. -/
theorem runs_parenPatterns {ids : List PatternId} {ps : List Pattern}
    (h : AllRead PatternRead base a ids ps) (span : Span) :
    Runs base a (PatternRead base) (parenPatterns span ids) (pure (Pattern.ofParens span ps)) := by
  have htuple (hlength : ps.length ≠ 1) :
      Runs base a (PatternRead base) (pattern (.tuple ids) span) (pure (.tuple span ps)) :=
    (runs_pattern (Arena.makesPattern_tuple (h.imp fun _ _ hp => hp.toNewPattern)) span
      ⟨hlength, printableAll_of_patterns h⟩).right
  cases h with
  | nil => exact htuple (by simp)
  | cons hp hps =>
    cases hps with
    | nil =>
      -- a single pattern is only given the span of the brackets
      refine (runs_setPatternSpan hp span).bindPure ?_
      exact fun b _ hb => runs_pure hb
    | cons _ _ => exact htuple (by simp)

theorem runs_bracketPatterns {ids : List PatternId} {ps : List Pattern}
    (h : AllRead PatternRead base a ids ps) (span : Span) :
    Runs base a (PatternRead base) (bracketPatterns span ids)
      (pure (Pattern.ofBrackets span ps)) := by
  refine (runs_pattern (Arena.makesPattern_leaf .nil .nil rfl fun _ _ => rfl) span
    trivial).bindPure ?_
  rintro b nil ⟨hb, hnil⟩
  exact (runs_consPatterns (stable_pattern.all.mono h hb) hnil span.stop).right

theorem reads_openMore {base : Builder PatternId} {base' : Parser Pattern}
    (hbase : Reads PatternRead base base') (fuel : Nat) :
    Reads (AllRead PatternRead) (openMore base fuel) (Pattern.Parser.openMore base' fuel) := by
  induction fuel with
  | zero => exact fun a => runs_stop _
  | succ fuel ih =>
    intro a
    have hmore := reads_cons stable_pattern hbase ih a
    rw [openMore, Pattern.Parser.openMore]
    refine runs_peek_bind ?_
    rintro ⟨value, span⟩ -
    -- an operator must be the colon; every other token ends the list
    cases value with
    | operator symbol =>
      dsimp only
      split
      · exact runs_stop _
      · refine runs_read_bind _ fun _ => ?_
        exact hmore
    | _ => exact runs_pure .nil

theorem reads_openPattern {base : Builder PatternId} {base' : Parser Pattern}
    (hbase : Reads PatternRead base base') (fuel : Nat) :
    Reads PatternRead (openPattern fuel base) (Pattern.Parser.openPattern fuel base') := by
  intro a
  refine (hbase.runs stable_pattern).bind ?_
  rintro b first p ⟨-, hfirst⟩
  refine ((reads_openMore hbase fuel).runs stable_pattern.all).bind ?_
  rintro c more ps ⟨hc, hmore⟩
  have hall : AllRead PatternRead a c (first :: more) (p :: ps) :=
    .cons (stable_pattern.mono hfirst hc) hmore
  -- the last base pattern is the tail, and the others are put in front of it
  obtain ⟨hlast, hinit⟩ := hall.last (by simp) (by simp)
  refine runs_patternSpan_bind hlast ?_
  exact (runs_consPatterns hinit hlast _).right

/-- **Base patterns**, by induction on the fuel. -/
theorem reads_basePattern (fuel : Nat) :
    Reads PatternRead (basePattern fuel) (Pattern.Parser.basePattern fuel) := by
  induction fuel with
  | zero => exact fun a => runs_stop _
  | succ fuel ih =>
    intro a
    have hitem := reads_openPattern ih fuel
    rw [basePattern, Pattern.Parser.basePattern]
    -- what is next decides, and a leaf takes its text from a legible token
    refine runs_peek_bind ?_
    rintro ⟨value, span⟩ hlegible
    cases value with
    | identifier name =>
      exact runs_leafPattern (Arena.makesPattern_leaf _ _ rfl fun _ _ => rfl) fun _ => hlegible
    | underscore =>
      exact runs_leafPattern (Arena.makesPattern_leaf _ _ rfl fun _ _ => rfl) fun _ => trivial
    | integer value =>
      exact runs_leafPattern (Arena.makesPattern_leaf _ _ rfl fun _ _ => rfl) fun _ =>
        ⟨Int.natCast_nonneg value, Int.ofNat_le.2 hlegible⟩
    | boolean value =>
      exact runs_leafPattern (Arena.makesPattern_leaf _ _ rfl fun _ _ => rfl) fun _ => trivial
    | parenLeft =>
      refine (runs_delimited stable_pattern hitem fuel _ _).bind ?_
      rintro b ⟨ids, span⟩ ⟨ps, _⟩ ⟨hall, rfl⟩
      exact runs_parenPatterns hall span
    | bracketLeft =>
      refine (runs_delimited stable_pattern hitem fuel _ _).bind ?_
      rintro b ⟨ids, span⟩ ⟨ps, _⟩ ⟨hall, rfl⟩
      exact runs_bracketPatterns hall span
    | _ => exact runs_stop _

end Patterns

/-! ### Base expressions -/

section Bases

variable {whole : Builder ExprId} {whole' : Parser Expr}

theorem runs_leaf {node : ExprNode} {e : Span → Expr} (h : base.MakesExpr a node e)
    (hprintable : ∀ span, (e span).Printable) :
    Runs base a (ExprRead table base) (leaf node) (Expr.Parser.leaf e) := by
  refine runs_read_bind _ fun t => ?_
  exact (runs_expr h t.span fun _ => hprintable _).right

theorem runs_consExprs {ids : List ExprId} {es : List Expr}
    (h : AllRead (ExprRead table) base a ids es) {tail : ExprId} {span : Span}
    (htail : ExprRead table base a tail (.nil span)) :
    Runs base a (fun b id e => a.Extends b ∧ ExprRead table base b id e)
      (consExprs span.stop ids tail) (pure (Expr.ofBrackets span es)) := by
  induction h with
  | nil => exact runs_pure ⟨.refl a, htail⟩
  | @cons head e heads es hhead _ ih =>
    refine ih.bindPure ?_
    rintro b rest ⟨hb, hrest⟩
    have hhead' := stable_expr.mono hhead hb
    refine runs_exprSpan_bind hhead' ?_
    refine (runs_expr (Arena.makesExpr_cons hhead'.toNewExpr hrest.toNewExpr) _
      fun htable => ⟨hhead'.printable htable, hrest.printable htable⟩).imp ?_
    rintro c id e ⟨hc, hid⟩
    exact ⟨hb.trans hc, hid⟩

theorem runs_brackets {ids : List ExprId} {es : List Expr}
    (h : AllRead (ExprRead table) base a ids es) (span : Span) :
    Runs base a (ExprRead table base) (brackets span ids) (pure (Expr.ofBrackets span es)) := by
  have hprintable : table.Basic → (Expr.nil span).Printable := fun _ => trivial
  refine (runs_expr (Arena.makesExpr_leaf .nil .nil rfl rfl fun _ _ _ => rfl) span
    hprintable).bindPure ?_
  rintro b nil ⟨hb, hnil⟩
  exact (runs_consExprs (stable_expr.all.mono h hb) hnil).right

/-- Round brackets make no tuple of one element. -/
theorem runs_parens {ids : List ExprId} {es : List Expr}
    (h : AllRead (ExprRead table) base a ids es) (span : Span) :
    Runs base a (ExprRead table base) (parens span ids) (pure (Expr.ofParens span es)) := by
  have htuple (hlength : es.length ≠ 1) :
      Runs base a (ExprRead table base) (expr (.tuple ids) span) (pure (.tuple span es)) :=
    (runs_expr (Arena.makesExpr_tuple (h.imp fun _ _ he => he.toNewExpr)) span
      fun htable => ⟨hlength, printableAll_of_exprs h htable⟩).right
  cases h with
  | nil => exact htuple (by simp)
  | cons he hes =>
    cases hes with
    | nil =>
      -- a single expression is only given the span of the brackets
      refine (runs_setSpan he span).bindPure ?_
      exact fun b _ hb => runs_pure hb
    | cons _ _ => exact htuple (by simp)

theorem reads_baseExpr (hwhole : Reads (ExprRead table) whole whole') (fuel : Nat) :
    Reads (ExprRead table) (baseExpr fuel whole) (Expr.Parser.baseExpr fuel whole') := by
  intro a
  -- the same choice by the token that is next, now for expressions
  refine runs_peek_bind ?_
  rintro ⟨value, span⟩ hlegible
  cases value with
  | integer value =>
    exact runs_leaf (Arena.makesExpr_leaf _ _ rfl rfl fun _ _ _ => rfl) fun _ =>
      ⟨Int.natCast_nonneg value, Int.ofNat_le.2 hlegible⟩
  | boolean value =>
    exact runs_leaf (Arena.makesExpr_leaf _ _ rfl rfl fun _ _ _ => rfl) fun _ => trivial
  | identifier name =>
    exact runs_leaf (Arena.makesExpr_leaf _ _ rfl rfl fun _ _ _ => rfl) fun _ => hlegible
  | parenLeft =>
    refine (runs_delimited stable_expr hwhole fuel _ _).bind ?_
    rintro b ⟨ids, span⟩ ⟨es, _⟩ ⟨hall, rfl⟩
    exact runs_parens hall span
  | bracketLeft =>
    refine (runs_delimited stable_expr hwhole fuel _ _).bind ?_
    rintro b ⟨ids, span⟩ ⟨es, _⟩ ⟨hall, rfl⟩
    exact runs_brackets hall span
  | _ => exact runs_stop _

/-- The function may have been read long before; its number stands for it until it is applied. -/
theorem runs_arguments {arg : Builder ExprId} {arg' : Parser Expr}
    (harg : Reads (ExprRead table) arg arg') (fuel : Nat) {func : ExprId} {f : Expr}
    (hfunc : ExprRead table base a func f) :
    Runs base a (ExprRead table base) (arguments arg fuel func)
      (Expr.Parser.arguments arg' fuel f) := by
  induction fuel generalizing a func f with
  | zero => exact runs_stop _
  | succ fuel ih =>
    rw [arguments, Expr.Parser.arguments]
    refine runs_peek_bind fun t _ => ?_
    split
    · refine (harg.runs stable_expr).bind ?_
      -- the argument may add nodes, which leave the function's number where it is
      rintro b id e ⟨hb, he⟩
      have hfunc' := stable_expr.mono hfunc hb
      refine runs_exprSpan_bind hfunc' ?_
      refine runs_exprSpan_bind he ?_
      refine (runs_expr (Arena.makesExpr_apply hfunc'.toNewExpr he.toNewExpr) _
        fun htable => ⟨hfunc'.printable htable, he.printable htable⟩).bindPure ?_
      rintro c id ⟨-, happly⟩
      exact ih happly
    · exact runs_pure hfunc

theorem reads_application (hwhole : Reads (ExprRead table) whole whole') (fuel : Nat) :
    Reads (ExprRead table) (application fuel whole) (Expr.Parser.application fuel whole') := by
  intro a
  have hbase := reads_baseExpr hwhole fuel
  refine (hbase.runs stable_expr).bind ?_
  rintro b func f ⟨-, hfunc⟩
  exact runs_arguments hbase fuel hfunc

end Bases

/-! ### Operator sequences -/

section Sequences

variable {ids : List ExprId} {es : List Expr}

/-- The operators that wait are those of the table. -/
def AllIn (table : OperatorTable) (operators : List Waiting) : Prop :=
  ∀ w ∈ operators, table.get? w.symbol = some w.operator

theorem runs_reduce {w : Waiting} (hw : table.get? w.symbol = some w.operator)
    (h : AllRead (ExprRead table) base a ids es) :
    Runs base a (AllRead (ExprRead table) base) (reduce w ids)
      (.ofExcept (Sequence.reduce Waiting.complete w es)) := by
  cases h with
  | nil => exact runs_throw _
  | @cons _ f _ _ hright h =>
    cases h with
    | nil => exact runs_throw _
    | @cons _ e _ _ hleft hrest =>
      refine runs_exprSpan_bind hleft ?_
      refine runs_exprSpan_bind hright ?_
      have hmakes := w.operator.combine.makesExpr_node hleft.toNewExpr hright.toNewExpr
      -- only here does it matter which operators the table has
      have hprintable (htable : table.Basic) : (w.complete e f).Printable :=
        (htable _ _ hw).printable_build _ (hleft.printable htable) (hright.printable htable)
      refine (runs_expr hmakes _ hprintable).bindPure ?_
      rintro b id ⟨hb, hid⟩
      exact runs_pure (.cons hid (stable_expr.all.mono hrest hb))

theorem runs_reduceFor (symbol : String) (op : Operator) {operators : List Waiting}
    (hoperators : AllIn table operators) (h : AllRead (ExprRead table) base a ids es) :
    Runs base a
      (fun b x y => x.1 = y.1 ∧ AllIn table x.1 ∧ AllRead (ExprRead table) base b x.2 y.2)
      (reduceFor symbol op operators ids)
      (.ofExcept (Sequence.reduceFor Waiting.complete symbol op operators es)) := by
  induction operators generalizing a ids es with
  | nil => exact runs_pure ⟨rfl, hoperators, h⟩
  | cons top operators ih =>
    obtain ⟨htop, hrest⟩ := List.forall_mem_cons.1 hoperators
    rw [reduceFor, Sequence.reduceFor]
    -- which operators are completed depends on the operators only, and these are the same
    cases Sequence.takesFirst top symbol op with
    | error e => exact runs_throw _
    | ok first =>
      cases first with
      | false => exact runs_pure ⟨rfl, hoperators, h⟩
      | true =>
        have hreduce := runs_reduce htop h
        dsimp only
        cases hresult : Sequence.reduce Waiting.complete top es with
        | error why =>
          rw [hresult] at hreduce
          exact hreduce.bindStop
        | ok rest =>
          rw [hresult] at hreduce
          exact hreduce.bindPure fun b ids' hids' => ih hrest hids'

theorem runs_close {operators : List Waiting} (hoperators : AllIn table operators)
    (h : AllRead (ExprRead table) base a ids es) :
    Runs base a (ExprRead table base) (close operators ids)
      (.ofExcept (Sequence.close Waiting.complete operators es)) := by
  induction operators generalizing a ids es with
  -- without operators a single operand is left
  | nil =>
    match h with
    | .nil => exact runs_throw _
    | .cons he .nil => exact runs_pure he
    | .cons _ (.cons _ _) => exact runs_throw _
  | cons top operators ih =>
    obtain ⟨htop, hrest⟩ := List.forall_mem_cons.1 hoperators
    rw [close, Sequence.close]
    have hreduce := runs_reduce htop h
    -- the operator on top is applied first, and takes two operands off the stack
    cases hresult : Sequence.reduce Waiting.complete top es with
    | error why =>
      rw [hresult] at hreduce
      exact hreduce.bindStop
    | ok rest =>
      rw [hresult] at hreduce
      exact hreduce.bindPure fun b ids' hids' => ih hrest hids'

theorem runs_sequenceMore (table : OperatorTable) {operand whole : Builder ExprId}
    {operand' whole' : Parser Expr} (hoperand : Reads (ExprRead table) operand operand')
    (hwhole : Reads (ExprRead table) whole whole') (fuel : Nat) {operators : List Waiting}
    (hoperators : AllIn table operators) (h : AllRead (ExprRead table) base a ids es) :
    Runs base a (ExprRead table base) (sequenceMore table operand whole fuel operators ids)
      (Expr.Parser.sequenceMore table operand' whole' fuel operators es) := by
  induction fuel generalizing a operators ids es with
  | zero => exact runs_stop _
  | succ fuel ih =>
    rw [sequenceMore, Expr.Parser.sequenceMore]
    refine runs_peek_bind ?_
    rintro ⟨value, span⟩ -
    cases value with
    | operator symbol =>
      dsimp only
      cases hop : table.get? symbol with
      | none => exact runs_stop _
      | some op =>
        refine runs_read_bind _ fun _ => ?_
        refine (runs_reduceFor symbol op hoperators h).bind ?_
        rintro b ⟨operators, ids⟩ ⟨_, es⟩ ⟨rfl, hrest, hids⟩
        -- the operator that was looked up waits behind those that are left
        have hpushed : AllIn table (⟨symbol, op, span⟩ :: operators) :=
          List.forall_mem_cons.2 ⟨hop, hrest⟩
        refine runs_peek_bind fun t _ => ?_
        split
        · refine (hoperand.runs stable_expr).bind ?_
          rintro c id e ⟨hc, he⟩
          exact ih hpushed (.cons he (stable_expr.all.mono hids hc))
        · refine (hwhole.runs stable_expr).bind ?_
          rintro c id e ⟨hc, he⟩
          exact runs_close hpushed (.cons he (stable_expr.all.mono hids hc))
    | _ => exact runs_close hoperators h

/-- **Operator sequences.**  Both sides keep the same operators, and operands that correspond. -/
theorem reads_operatorSequence (table : OperatorTable) {whole : Builder ExprId}
    {whole' : Parser Expr} (hwhole : Reads (ExprRead table) whole whole') (fuel : Nat) :
    Reads (ExprRead table) (operatorSequence table fuel whole)
      (Expr.Parser.operatorSequence table fuel whole') := by
  intro a
  have hoperand := reads_application hwhole fuel
  refine (hoperand.runs stable_expr).bind ?_
  rintro b id e ⟨-, he⟩
  exact runs_sequenceMore table hoperand hwhole fuel (by simp [AllIn]) (.cons he .nil)

end Sequences

/-! ### Expressions -/

section Exprs

variable {whole : Builder ExprId} {whole' : Parser Expr}

theorem reads_letExpr (hwhole : Reads (ExprRead table) whole whole') (fuel : Nat) :
    Reads (ExprRead table) (letExpr fuel whole) (Expr.Parser.letExpr fuel whole') := by
  intro a
  refine runs_read_bind _ fun start => ?_
  refine ((reads_basePattern fuel).runs stable_pattern).bind ?_
  rintro b pattern p ⟨-, hpattern⟩
  refine runs_read_bind _ fun _ => ?_
  refine (hwhole.runs stable_expr).bind ?_
  rintro c value e ⟨hc, hvalue⟩
  refine runs_read_bind _ fun _ => ?_
  refine (hwhole.runs stable_expr).bind ?_
  rintro d body f ⟨hd, hbody⟩
  refine runs_exprSpan_bind hbody ?_
  -- the nodes of the body are behind those of the pattern and of the value, which still stand for
  -- the same trees
  have hpattern' := stable_pattern.mono hpattern (hc.trans hd)
  have hvalue' := stable_expr.mono hvalue hd
  exact (runs_expr (Arena.makesExpr_bind hpattern'.toNewPattern hvalue'.toNewExpr hbody.toNewExpr)
    _ fun htable => ⟨hpattern.printable, hvalue.printable htable, hbody.printable htable⟩).right

theorem reads_condition (hwhole : Reads (ExprRead table) whole whole') :
    Reads (ExprRead table) (condition whole) (Expr.Parser.condition whole') := by
  intro a
  refine runs_read_bind _ fun start => ?_
  refine (hwhole.runs stable_expr).bind ?_
  rintro b test e ⟨-, htest⟩
  refine runs_read_bind _ fun _ => ?_
  refine (hwhole.runs stable_expr).bind ?_
  rintro c yes f ⟨hc, hyes⟩
  refine runs_read_bind _ fun _ => ?_
  refine (hwhole.runs stable_expr).bind ?_
  rintro d no g ⟨hd, hno⟩
  refine runs_exprSpan_bind hno ?_
  have htest' := stable_expr.mono htest (hc.trans hd)
  have hyes' := stable_expr.mono hyes hd
  exact (runs_expr (Arena.makesExpr_condition htest'.toNewExpr hyes'.toNewExpr hno.toNewExpr)
    _ fun htable => ⟨htest.printable htable, hyes.printable htable, hno.printable htable⟩).right

theorem reads_lambda (hwhole : Reads (ExprRead table) whole whole') (fuel : Nat) :
    Reads (ExprRead table) (lambda fuel whole) (Expr.Parser.lambda fuel whole') := by
  intro a
  refine runs_read_bind _ fun start => ?_
  refine ((reads_basePattern fuel).runs stable_pattern).bind ?_
  rintro b param p ⟨-, hparam⟩
  refine runs_read_bind _ fun _ => ?_
  refine (hwhole.runs stable_expr).bind ?_
  rintro c body e ⟨hc, hbody⟩
  refine runs_exprSpan_bind hbody ?_
  have hparam' := stable_pattern.mono hparam hc
  exact (runs_expr (Arena.makesExpr_lambda hparam'.toNewPattern hbody.toNewExpr)
    _ fun htable => ⟨hparam.printable, hbody.printable htable⟩).right

theorem reads_caseOption (hwhole : Reads (ExprRead table) whole whole') (fuel : Nat) :
    Reads (OptionRead table) (caseOption fuel whole) (Expr.Parser.caseOption fuel whole') := by
  intro a
  refine ((reads_openPattern (reads_basePattern fuel) fuel).runs stable_pattern).bind ?_
  rintro b pattern p ⟨-, hpattern⟩
  refine runs_read_bind _ fun _ => ?_
  refine (hwhole.runs stable_expr).bind ?_
  rintro c body e ⟨hc, hbody⟩
  exact runs_pure ⟨stable_pattern.mono hpattern hc, hbody⟩

theorem reads_caseExpr (hwhole : Reads (ExprRead table) whole whole') (fuel : Nat) :
    Reads (ExprRead table) (caseExpr fuel whole) (Expr.Parser.caseExpr fuel whole') := by
  intro a
  refine runs_read_bind _ fun start => ?_
  refine (hwhole.runs stable_expr).bind ?_
  rintro b subject e ⟨-, hsubject⟩
  refine runs_read_bind _ fun ofToken => ?_
  have hoption := reads_caseOption hwhole fuel
  refine ((reads_block stable_option hoption fuel _).runs stable_option.all).bind ?_
  rintro c ids options ⟨hc, hall⟩
  -- the node is the same wherever the `case` ends
  have hnode (span : Span) : Runs a c (ExprRead table a) (expr (.cases subject ids) span)
      (pure (.cases span e options)) :=
    (runs_expr (Arena.makesExpr_cases (hsubject.toNewExpr.mono hc)
      (hall.imp fun _ _ ho => ⟨ho.pattern.toNewPattern, ho.body.toNewExpr⟩)) span
      fun htable => ⟨hsubject.printable htable, printableOptions_of_options hall htable⟩).right
  by_cases hnil : ids = []
  · subst hnil
    obtain rfl := List.forall₂_nil_left_iff.1 hall
    exact hnode _
  · have hnil' : options ≠ [] := by
      rintro rfl
      exact hnil (List.forall₂_nil_right_iff.1 hall)
    rw [List.getLast?_eq_some_getLast hnil, List.getLast?_eq_some_getLast hnil']
    refine runs_exprSpan_bind (hall.last hnil hnil').1.body ?_
    exact hnode _

/-- **Expressions**, by induction on the fuel: the parts of an expression are read with one less. -/
theorem reads_wholeExpr (table : OperatorTable) (fuel : Nat) :
    Reads (ExprRead table) (wholeExpr table fuel) (Expr.Parser.expr table fuel) := by
  induction fuel with
  | zero => exact fun a => runs_stop _
  | succ fuel ih =>
    intro a
    rw [wholeExpr, Expr.Parser.expr]
    refine runs_peek_bind ?_
    rintro ⟨value, span⟩ -
    -- every token that starts none of the four keyword expressions has to start a sequence
    have hsequence : Runs a a (ExprRead table a)
        (if value.beginsBase then operatorSequence table fuel (wholeExpr table fuel)
          else read (.failUnexpected "expression" ⟨value, span⟩))
        (if value.beginsBase then Expr.Parser.operatorSequence table fuel
            (Expr.Parser.expr table fuel)
          else .failUnexpected "expression" ⟨value, span⟩) := by
      split
      · exact reads_operatorSequence table ih fuel a
      · exact runs_stop _
    cases value with
    | keyword word =>
      cases word with
      | letWord => exact reads_letExpr ih fuel a
      | ifWord => exact reads_condition ih a
      | caseWord => exact reads_caseExpr ih fuel a
      | _ => exact hsequence
    | backslash => exact reads_lambda ih fuel a
    | _ => exact hsequence

theorem reads_wholeText (table : OperatorTable) (fuel : Nat) :
    Reads (ExprRead table) (wholeText table fuel) (Expr.Parser.whole table fuel) := by
  intro a
  refine ((reads_wholeExpr table fuel).runs stable_expr).bind ?_
  rintro b id e ⟨-, he⟩
  refine runs_read_bind _ fun _ => ?_
  exact runs_pure he

end Exprs

end Builder

namespace Arena

/-- The arena has grown, and the number that was given out stands for the tree; or the errors are
the same. -/
inductive Adds (table : OperatorTable) (a : Arena) :
    Except ParseError Expr → Except ParseError ExprId × Arena → Prop where
  | ok {b : Arena} {id : ExprId} {e : Expr} (hb : a.Grown b)
    (he : Builder.ExprRead table a b id e) : Adds table a (.ok e) (.ok id, b)
  | error {b : Arena} {err : ParseError} (hb : a.Grown b) :
    Adds table a (.error err) (.error err, b)

/-- **Reading node by node agrees with reading trees.** -/
theorem adds_build (a : Arena) (table : OperatorTable) (s : String) :
    a.Adds table (Expr.parseWith table s) (a.build table s) := by
  have h := Builder.reads_wholeText table ((TokenStream.ofString s).size + 1) a (.refl a)
    (.ofString s) (TokenStream.legible_ofString s)
  unfold build Expr.parseWith
  dsimp only
  generalize Builder.wholeText table _ (.ofString s, a) = r at h ⊢
  generalize (Expr.Parser.whole table _).run (.ofString s) = r' at h ⊢
  cases h with
  | ok _ hgrown he => exact .ok hgrown he
  | @error _ _ why hgrown =>
    cases why with
    | error err => exact .error hgrown
    | exhausted => exact .error hgrown
    | outOfStep => exact .error hgrown

end Arena

end CallByNeed

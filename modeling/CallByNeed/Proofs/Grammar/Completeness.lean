import CallByNeed.Proofs.Grammar.Soundness
import CallByNeed.Proofs.Reading.Expr

/-!
# What follows the grammar is read

Each parser reads all the tokens from which the rule of the same name derives a value, and yields
that value (`Parser.Complete`).  Two things are asked for.  The parser needs fuel for the tokens:
the readers of parts have one less to spend than the reader of the whole, but a part is shorter.
And what is behind the tokens must not go on with them, since the parsers take as much as they can:
an application stops in front of anything but a base expression, a sequence in front of anything
but that and an operator.

A parser that yields everything a rule derives shows that the rule derives one value at most.
-/

namespace CallByNeed

/-- An open pattern ends in front of the token. -/
def Token.endsPattern : Token → Bool
  | operator _ => false
  | _ => true

/-- An application ends in front of the token. -/
def Token.endsApplication (t : Token) : Bool :=
  !t.beginsBase

namespace Parser

open Grammar

variable {α β : Type} {rule : List (Located Token) → α → Prop} {stop : Token → Bool}

/-- **The parser reads what the rule derives** from fewer than `n` tokens, if a token of the kind
`stop` is behind them. -/
def Complete (n : Nat) (x : Parser α) (rule : List (Located Token) → α → Prop)
    (stop : Token → Bool) : Prop :=
  ∀ ⦃last : Located Token⦄ ⦃ts : List (Located Token)⦄ ⦃a : α⦄ ⦃rest : List (Located Token)⦄,
    rule ts a → ts.length < n → stop (rest.headD last).value = true →
      x.runOn last (ts ++ rest) = .ok (a, rest)

section Run

variable {last t : Located Token} {ts : List (Located Token)} {expected : Token}

theorem runOn_expect (h : t.value = expected) :
    (expect expected).runOn last (t :: ts) = .ok (t, ts) := by
  rw [expect, runOn_advance_bind, List.headD_cons, if_pos h]
  rfl

theorem runOn_discard_expect (h : t.value = expected) :
    (discard (expect expected) : Parser Unit).runOn last (t :: ts) = .ok ((), ts) :=
  runOn_bind_ok (runOn_expect h)

end Run

/-! ### Items in brackets -/

section Items

variable {item : Parser α} {n fuel : Nat} {last right : Located Token} {closing : Token}
  {ts rest : List (Located Token)} {as : List α}

/-- Behind an item stands a comma or the closing bracket. -/
theorem stop_of_moreItems (h : MoreItems rule ts as) (hcomma : stop .comma = true)
    (hclosing : stop closing = true) (hright : right.value = closing) :
    stop ((ts ++ right :: rest).headD last).value = true := by
  cases h with
  | nil => exact hright ▸ hclosing
  | cons hvalue => exact hvalue ▸ hcomma

theorem runOn_commaItems_more (hitem : item.Complete n rule stop)
    (hcomma : stop .comma = true) (hstop : stop closing = true) (hne : closing ≠ .comma)
    (h : MoreItems rule ts as) (hlength : ts.length < n) (hfuel : as.length < fuel)
    (hright : right.value = closing) :
    (commaItems item closing fuel false).runOn last (ts ++ right :: rest) =
      .ok (as, right :: rest) := by
  induction h generalizing fuel with
  | nil =>
    obtain ⟨fuel, rfl⟩ : ∃ k, fuel = k + 1 := ⟨fuel - 1, by omega⟩
    -- behind the last item the closing bracket is next
    rw [commaItems, runOn_peek_bind, List.nil_append, List.headD_cons, if_pos hright]
    rfl
  | @cons comma us vs a as hvalue ha hmore ih =>
    rw [List.length_cons] at hfuel
    simp only [List.length_cons, List.length_append] at hlength
    obtain ⟨fuel, rfl⟩ : ∃ k, fuel = k + 1 := ⟨fuel - 1, by omega⟩
    -- the fuel that is left is enough for the items behind
    have hrest := ih (by omega) (show as.length < fuel by omega)
    rw [List.cons_append, List.append_assoc, commaItems, runOn_peek_bind, List.headD_cons,
      if_neg (by rw [hvalue]; exact hne.symm)]
    show ((discard (expect .comma) : Parser Unit) >>= _).runOn _ _ = _
    rw [runOn_bind_ok (runOn_discard_expect hvalue),
      runOn_bind_ok (hitem ha (by omega) (stop_of_moreItems hmore hcomma hstop hright)),
      runOn_bind_ok hrest]
    rfl

theorem runOn_commaItems (hitem : item.Complete n rule stop)
    (hcomma : stop .comma = true) (hstop : stop closing = true) (hne : closing ≠ .comma)
    (hbegins : ∀ us a, rule us a → ∃ t vs, us = t :: vs ∧ t.value ≠ closing)
    (h : Items rule ts as) (hlength : ts.length < n) (hfuel : ts.length < fuel)
    (hright : right.value = closing) :
    (commaItems item closing fuel true).runOn last (ts ++ right :: rest) =
      .ok (as, right :: rest) := by
  obtain ⟨fuel, rfl⟩ : ∃ k, fuel = k + 1 := ⟨fuel - 1, by omega⟩
  cases h with
  | nil =>
    -- the list is empty, and the bracket follows at once
    rw [commaItems, runOn_peek_bind, List.nil_append, List.headD_cons, if_pos hright]
    rfl
  | @cons us vs a as ha hmore =>
    obtain ⟨t, us, rfl, ht⟩ := hbegins us a ha
    simp only [List.length_cons, List.length_append] at hlength hfuel
    have hle := hmore.length_le
    -- an item does not begin with the bracket, so that the parser goes on with it
    rw [List.append_assoc, List.cons_append, commaItems, runOn_peek_bind, List.headD_cons,
      if_neg ht, ← List.cons_append]
    have hrest : (commaItems item closing fuel false).runOn last (vs ++ right :: rest) = _ :=
      runOn_commaItems_more hitem hcomma hstop hne hmore (by omega) (by omega) hright
    show (item >>= _).runOn _ _ = _
    rw [runOn_bind_ok (hitem ha (by simp only [List.length_cons]; omega)
      (stop_of_moreItems hmore hcomma hstop hright)), runOn_bind_ok hrest]
    rfl

/-- **Items in brackets are read.** -/
theorem complete_delimited {opening : Token} (hitem : item.Complete fuel rule stop)
    (hcomma : stop .comma = true) (hstop : stop closing = true) (hne : closing ≠ .comma)
    (hbegins : ∀ us a, rule us a → ∃ t vs, us = t :: vs ∧ t.value ≠ closing) :
    (delimited fuel opening closing item).Complete (fuel + 1) (Delimited rule opening closing)
      fun _ => true := by
  intro last ts r rest h hlength _
  obtain ⟨hleft, hitems, hright⟩ := h
  simp only [List.length_cons, List.length_append, List.length_nil] at hlength
  rw [List.cons_append, List.append_assoc, List.singleton_append, delimited,
    runOn_bind_ok (runOn_expect hleft),
    runOn_bind_ok (runOn_commaItems hitem hcomma hstop hne hbegins hitems (by omega) (by omega)
      hright),
    runOn_bind_ok (runOn_expect hright)]
  rfl

end Items

end Parser

/-! ### Patterns -/

namespace Pattern.Parser

open CallByNeed.Parser Grammar

variable {base : CallByNeed.Parser Pattern} {rule : List (Located Token) → Pattern → Prop}

/-- An open pattern is read part by part, and grouped behind the last. -/
theorem runOn_of_openPattern {n fuel : Nat} {last : Located Token} {ts rest : List (Located Token)}
    {p : Pattern} (hbase : base.Complete n rule fun _ => true) (h : OpenPattern rule ts p)
    (hlength : ts.length < n) (hfuel : ts.length < fuel)
    (hstop : (rest.headD last).value.endsPattern = true) :
    ∃ first more us, base.runOn last (ts ++ rest) = .ok (first, us) ∧
      (openMore base fuel).runOn last us = .ok (more, rest) ∧ chain first more = p := by
  induction h generalizing fuel with
  | @base ts p hp =>
    obtain ⟨fuel, rfl⟩ : ∃ k, fuel = k + 1 := ⟨fuel - 1, by omega⟩
    refine ⟨p, [], rest, hbase hp hlength rfl, ?_, rfl⟩
    -- the token behind the pattern ends it, so that no colon follows
    rw [openMore, runOn_peek_bind]
    split
    · rename_i symbol hsymbol
      rw [hsymbol] at hstop
      simp [Token.endsPattern] at hstop
    · rfl
  | @cons colon us vs head tail hhead hcolon htail ih =>
    simp only [List.length_cons, List.length_append] at hlength hfuel
    obtain ⟨fuel, rfl⟩ : ∃ k, fuel = k + 1 := ⟨fuel - 1, by omega⟩
    obtain ⟨first, more, ws, hfirst, hmore, rfl⟩ := ih (by omega) (show vs.length < fuel by omega)
    refine ⟨head, first :: more, colon :: (vs ++ rest), ?_, ?_, chain_cons head first more⟩
    · rw [List.append_assoc, List.cons_append]
      exact hbase hhead (by omega) rfl
    · -- a colon and the patterns behind it, which the induction hypothesis reads
      rw [openMore, runOn_peek_bind, List.headD_cons]
      simp only [hcolon]
      rw [if_neg (by simp), runOn_discard_advance_bind, List.tail_cons, runOn_bind_ok hfirst,
        runOn_bind_ok hmore]
      rfl

theorem complete_openPattern {fuel : Nat} (hbase : base.Complete fuel rule fun _ => true) :
    (openPattern fuel base).Complete fuel (OpenPattern rule) Token.endsPattern := by
  intro last ts p rest h hlength hstop
  obtain ⟨first, more, us, hfirst, hmore, rfl⟩ := runOn_of_openPattern hbase h hlength hlength hstop
  rw [openPattern, runOn_bind_ok hfirst, runOn_bind_ok hmore]
  rfl

/-- **Base patterns are read.** -/
theorem complete_basePattern (fuel : Nat) :
    (basePattern fuel).Complete fuel BasePattern fun _ => true := by
  induction fuel with
  | zero =>
    intro last ts p rest _ hlength
    exact absurd hlength (Nat.not_lt_zero _)
  | succ fuel ih =>
    have hdelimited {opening closing : Token}
        (hclosing : closing ∈ [Token.parenRight, .bracketRight]) :
        (delimited fuel opening closing (openPattern fuel (basePattern fuel))).Complete (fuel + 1)
          (Delimited (OpenPattern BasePattern) opening closing) fun _ => true := by
      -- an item does not begin with a closing bracket
      have hbegins us p (h : OpenPattern BasePattern us p) :
          ∃ t vs, us = t :: vs ∧ t.value ≠ closing := by
        obtain ⟨t, vs, rfl, ht⟩ := h.begins
        refine ⟨t, vs, rfl, ?_⟩
        rintro rfl
        obtain hvalue | hvalue : t.value = .parenRight ∨ t.value = .bracketRight := by
          simpa using hclosing
        all_goals simp [hvalue, Token.beginsPattern, Token.beginsBase] at ht
      obtain rfl | rfl : closing = .parenRight ∨ closing = .bracketRight := by simpa using hclosing
      all_goals exact complete_delimited (complete_openPattern ih) rfl rfl (by simp) hbegins
    intro last ts p rest h hlength _
    cases h with
    | bind ht | wildcard ht | integer ht | boolean ht =>
      rw [List.singleton_append, basePattern, runOn_peek_bind, List.headD_cons]
      simp only [ht]
      exact runOn_leaf ..
    | group hleft hp hright =>
      -- a single pattern in brackets stands for itself, and not for a tuple
      rw [basePattern, runOn_peek_bind]
      simp only [List.cons_append, List.headD_cons, hleft]
      exact runOn_bind_ok (hdelimited (by simp) (.intro hleft (.single hp) hright) hlength rfl)
    | tuple hleft hps hne hright =>
      rw [← ofParens_of_length_ne hne, basePattern, runOn_peek_bind]
      simp only [List.cons_append, List.headD_cons, hleft]
      exact runOn_bind_ok (hdelimited (by simp) (.intro hleft hps hright) hlength rfl)
    | list hleft hps hright =>
      rw [basePattern, runOn_peek_bind]
      simp only [List.cons_append, List.headD_cons, hleft]
      exact runOn_bind_ok (hdelimited (by simp) (.intro hleft hps hright) hlength rfl)

end Pattern.Parser

/-! ### Expressions -/

namespace Expr.Parser

open CallByNeed.Parser Grammar

variable {table : OperatorTable} {expr : CallByNeed.Parser Expr} {fuel : Nat}
  {rule : List (Located Token) → Expr → Prop}

theorem complete_baseExpr (hexpr : expr.Complete fuel rule Token.endsSequence)
    (hbegins : ∀ us e, rule us e →
      ∃ t vs, us = t :: vs ∧ t.value ∉ [Token.parenRight, .bracketRight]) :
    (baseExpr fuel expr).Complete (fuel + 1) (BaseExpr rule) fun _ => true := by
  have hdelimited {opening closing : Token}
      (hclosing : closing ∈ [Token.parenRight, .bracketRight]) :
      (delimited fuel opening closing expr).Complete (fuel + 1) (Delimited rule opening closing)
        fun _ => true := by
    -- no expression begins with a closing bracket
    have hbegins' us e (h : rule us e) : ∃ t vs, us = t :: vs ∧ t.value ≠ closing := by
      obtain ⟨t, vs, rfl, ht⟩ := hbegins us e h
      exact ⟨t, vs, rfl, fun hvalue => ht (hvalue ▸ hclosing)⟩
    obtain rfl | rfl : closing = .parenRight ∨ closing = .bracketRight := by simpa using hclosing
    all_goals exact complete_delimited hexpr rfl rfl (by simp) hbegins'
  intro last ts e rest h hlength _
  cases h with
  | integer ht | boolean ht | identifier ht =>
    rw [List.singleton_append, baseExpr, runOn_peek_bind, List.headD_cons]
    simp only [ht]
    exact runOn_leaf ..
  -- a single expression in brackets stands for itself, and not for a tuple
  | group hleft he hright =>
    rw [baseExpr, runOn_peek_bind]
    simp only [List.cons_append, List.headD_cons, hleft]
    exact runOn_bind_ok (hdelimited (by simp) (.intro hleft (.single he) hright) hlength rfl)
  | tuple hleft hes hne hright =>
    rw [← ofParens_of_length_ne hne, baseExpr, runOn_peek_bind]
    simp only [List.cons_append, List.headD_cons, hleft]
    exact runOn_bind_ok (hdelimited (by simp) (.intro hleft hes hright) hlength rfl)
  | list hleft hes hright =>
    rw [baseExpr, runOn_peek_bind]
    simp only [List.cons_append, List.headD_cons, hleft]
    exact runOn_bind_ok (hdelimited (by simp) (.intro hleft hes hright) hlength rfl)

/-- Arguments are taken from the left, each at the price of one fuel, and fewer than there are
tokens. -/
theorem runOn_of_application {base : CallByNeed.Parser Expr} {n : Nat}
    {ts : List (Located Token)} {e : Expr} (hbase : base.Complete n (BaseExpr rule) fun _ => true)
    (h : Application rule ts e) (hlength : ts.length < n) :
    ∃ m < ts.length, ∀ fuel last rest,
      (base >>= arguments base (fuel + m)).runOn last (ts ++ rest) =
        (arguments base fuel e).runOn last rest := by
  induction h with
  | @base ts e he =>
    obtain ⟨t, us, rfl, -⟩ := he.begins
    exact ⟨0, by simp, fun fuel last rest => runOn_bind_ok (hbase he hlength rfl)⟩
  | @apply ts us func arg hfunc harg ih =>
    -- the rule puts the last argument outermost, but the parser comes to it last
    rw [List.length_append] at hlength
    obtain ⟨m, hm, hrun⟩ := ih (by omega)
    obtain ⟨t, vs, hus, ht⟩ := harg.begins
    refine ⟨m + 1, ?_, fun fuel last rest => ?_⟩
    · rw [List.length_append, hus, List.length_cons]
      omega
    · have hhead : ((us ++ rest).headD last).value.beginsBase = true := by simpa [hus] using ht
      rw [List.append_assoc, ← Nat.add_assoc, Nat.add_right_comm, hrun, arguments, runOn_peek_bind,
        if_pos hhead, runOn_bind_ok (hbase harg (by omega) rfl)]
      rfl

theorem complete_application (hexpr : expr.Complete fuel rule Token.endsSequence)
    (hbegins : ∀ us e, rule us e →
      ∃ t vs, us = t :: vs ∧ t.value ∉ [Token.parenRight, .bracketRight]) :
    (application fuel expr).Complete (fuel + 1) (Application rule) Token.endsApplication := by
  intro last ts e rest h hlength hstop
  obtain ⟨m, hm, hrun⟩ := runOn_of_application (complete_baseExpr hexpr hbegins) h hlength
  obtain ⟨k, rfl⟩ : ∃ k, fuel = k + 1 + m := ⟨fuel - 1 - m, by omega⟩
  rw [application, hrun (k + 1) last rest, arguments, runOn_peek_bind,
    if_neg (by simpa [Token.endsApplication] using hstop)]
  rfl

/-- An application ends in front of an operator, and where the sequence ends. -/
theorem endsApplication_of_operands {last : Located Token} {ts rest : List (Located Token)}
    {more : List (Waiting × Expr)} (h : Operands table rule ts more)
    (hstop : (rest.headD last).value.endsSequence = true) :
    ((ts ++ rest).headD last).value.endsApplication = true := by
  cases h with
  | nil => simpa [Token.endsApplication] using beginsBase_of_endsSequence hstop
  | application ht | keyword ht => simp [ht, Token.endsApplication, Token.beginsBase]

/-- **Operators with their operands are read**, and the two stacks group them. -/
theorem runOn_sequenceMore {operand : CallByNeed.Parser Expr} {n : Nat} {last : Located Token}
    {ts rest : List (Located Token)} {more : List (Waiting × Expr)}
    (hoperand : operand.Complete n (Application rule) Token.endsApplication)
    (hexpr : expr.Complete n rule Token.endsSequence)
    (hkeyword : ∀ ts e, KeywordExpr rule ts e → rule ts e) (h : Operands table rule ts more)
    (hlength : ts.length < n) (hfuel : more.length < fuel)
    (hstop : (rest.headD last).value.endsSequence = true) (operators : List Waiting)
    (operands : List Expr) :
    (sequenceMore table operand expr fuel operators operands).runOn last (ts ++ rest) =
      (Sequence.resolve Waiting.complete operators operands more).map (·, rest) := by
  induction h generalizing fuel operators operands with
  | nil =>
    obtain ⟨fuel, rfl⟩ : ∃ k, fuel = k + 1 := ⟨fuel - 1, by omega⟩
    rw [List.nil_append, sequenceMore, runOn_peek_bind]
    split
    · -- an operator behind the sequence would go on with it
      rename_i symbol hsymbol
      rw [hsymbol] at hstop
      simp [Token.endsSequence] at hstop
    · exact runOn_ofExcept _
  | @application t symbol op us vs e more ht hop he hmore ih =>
    simp only [List.length_cons, List.length_append] at hlength hfuel
    obtain ⟨fuel, rfl⟩ : ∃ k, fuel = k + 1 := ⟨fuel - 1, by omega⟩
    obtain ⟨u, ws, hus, hu⟩ := he.begins
    have hhead : ((us ++ (vs ++ rest)).headD last).value.beginsBase = true := by
      simpa [hus] using hu
    rw [List.cons_append, List.append_assoc, runOn_sequenceMore_operator ht hop, Sequence.resolve]
    -- a conflict ends the parser and the grouping of the stacks alike
    cases Sequence.reduceFor Waiting.complete symbol op operators operands with
    | error why => rfl
    | ok pair =>
      simp only [hhead, if_true]
      rw [runOn_bind_ok (hoperand he (by omega) (endsApplication_of_operands hmore hstop))]
      exact ih (by omega) (by omega) _ _
  | @keyword t symbol op us e ht hop he =>
    simp only [List.length_cons, List.length_nil] at hlength hfuel
    obtain ⟨fuel, rfl⟩ : ∃ k, fuel = k + 1 := ⟨fuel - 1, by omega⟩
    obtain ⟨u, ws, hus, hu⟩ := he.begins
    -- a keyword does not begin an application, so that the parser reads a whole expression
    have hhead : ((us ++ rest).headD last).value.beginsBase = false := by
      simp only [List.mem_cons, List.not_mem_nil, or_false] at hu
      rcases hu with hu | hu | hu <;> simp [hus, hu, Token.beginsBase]
    rw [List.cons_append, runOn_sequenceMore_operator ht hop, Sequence.resolve]
    cases Sequence.reduceFor Waiting.complete symbol op operators operands with
    | error why => rfl
    | ok pair =>
      simp only [hhead, Bool.false_eq_true, if_false]
      rw [runOn_bind_ok (hexpr (hkeyword us e he) (by omega) hstop)]
      exact runOn_ofExcept _

/-- **Operator sequences are read**, if their operators group. -/
theorem complete_operatorSequence (hexpr : expr.Complete fuel rule Token.endsSequence)
    (hbegins : ∀ us e, rule us e →
      ∃ t vs, us = t :: vs ∧ t.value ∉ [Token.parenRight, .bracketRight])
    (hkeyword : ∀ ts e, KeywordExpr rule ts e → rule ts e) :
    (operatorSequence table fuel expr).Complete (fuel + 1) (OperatorSequence table rule)
      Token.endsSequence := by
  intro last ts e rest h hlength hstop
  have hoperand := complete_application hexpr hbegins
  obtain @⟨us, vs, tree, hvalid, hfirst, hmore⟩ := h
  rw [List.length_append] at hlength
  have hle := hmore.length_le
  have hpos : 0 < us.length := by
    obtain ⟨t, ws, rfl, -⟩ := hfirst.begins
    exact Nat.succ_pos _
  -- behind the first operand there is fuel for one token less, as for the parts of an expression
  have hoperand' : (application fuel expr).Complete fuel (Application rule)
      Token.endsApplication := fun _ _ _ _ h hlength => hoperand h (by omega)
  rw [List.append_assoc, operatorSequence,
    runOn_bind_ok (hoperand hfirst (by omega) (endsApplication_of_operands hmore hstop)),
    runOn_sequenceMore hoperand' hexpr hkeyword hmore (by omega) (by omega) hstop, resolve_eq_map]
  have htree : Sequence.resolve OperatorTree.node [] [.operand tree.first]
      (tree.more.map (Prod.map id .operand)) = .ok tree := Sequence.resolve_of_valid hvalid
  rw [htree]
  rfl

/-- **Keyword expressions are read** by the parser of expressions. -/
theorem runOn_keyword {last : Located Token} {ts rest : List (Located Token)} {e : Expr}
    (hexpr : (Parser.expr table fuel).Complete fuel rule Token.endsSequence)
    (h : KeywordExpr rule ts e) (hlength : ts.length < fuel + 1)
    (hstop : (rest.headD last).value.endsSequence = true) :
    (Parser.expr table (fuel + 1)).runOn last (ts ++ rest) = .ok (e, rest) := by
  have hpattern := Pattern.Parser.complete_basePattern fuel
  cases h with
  | bind hstart hp hequals hvalue hin hbody =>
    simp only [List.length_cons, List.length_append] at hlength
    simp only [List.cons_append, List.append_assoc]
    -- each part of the form is read, and ends where the next keyword stands
    rw [Parser.expr, runOn_peek_bind, List.headD_cons]
    simp only [hstart]
    rw [letExpr, runOn_bind_ok (runOn_expect hstart), runOn_bind_ok (hpattern hp (by omega) rfl),
      runOn_bind_ok (runOn_discard_expect hequals),
      runOn_bind_ok (hexpr hvalue (by omega) (by rw [List.headD_cons, hin]; rfl)),
      runOn_bind_ok (runOn_discard_expect hin), runOn_bind_ok (hexpr hbody (by omega) hstop)]
    rfl
  | condition hstart htest hthen hyes helse hno =>
    simp only [List.length_cons, List.length_append] at hlength
    simp only [List.cons_append, List.append_assoc]
    rw [Parser.expr, runOn_peek_bind, List.headD_cons]
    simp only [hstart]
    rw [condition, runOn_bind_ok (runOn_expect hstart),
      runOn_bind_ok (hexpr htest (by omega) (by rw [List.headD_cons, hthen]; rfl)),
      runOn_bind_ok (runOn_discard_expect hthen),
      runOn_bind_ok (hexpr hyes (by omega) (by rw [List.headD_cons, helse]; rfl)),
      runOn_bind_ok (runOn_discard_expect helse), runOn_bind_ok (hexpr hno (by omega) hstop)]
    rfl
  | lambda hstart hp harrow hbody =>
    simp only [List.length_cons, List.length_append] at hlength
    simp only [List.cons_append, List.append_assoc]
    rw [Parser.expr, runOn_peek_bind, List.headD_cons]
    simp only [hstart]
    rw [lambda, runOn_bind_ok (runOn_expect hstart), runOn_bind_ok (hpattern hp (by omega) rfl),
      runOn_bind_ok (runOn_discard_expect harrow), runOn_bind_ok (hexpr hbody (by omega) hstop)]
    rfl

/-- **Expressions are read.** -/
theorem complete_expr (table : OperatorTable) (fuel : Nat) :
    (Parser.expr table fuel).Complete fuel (IsExpr table) Token.endsSequence := by
  induction fuel with
  | zero =>
    intro last ts e rest _ hlength
    exact absurd hlength (Nat.not_lt_zero _)
  | succ fuel ih =>
    intro last ts e rest h hlength hstop
    cases h with
    | keyword h => exact runOn_keyword ih h hlength hstop
    -- the first token of a sequence begins an application and is no keyword
    | sequence h =>
      have hrun : (operatorSequence table fuel _).runOn last (ts ++ rest) = _ :=
        complete_operatorSequence ih (fun _ _ => IsExpr.begins) (fun _ _ => IsExpr.keyword) h
          hlength hstop
      have hhead : ((ts ++ rest).headD last).value.beginsBase = true := by
        obtain ⟨-, hfirst, -⟩ := h
        obtain ⟨t, us, rfl, ht⟩ := hfirst.begins
        exact ht
      rw [Parser.expr, runOn_peek_bind]
      split
      case h_5 =>
        rw [if_pos hhead]
        exact hrun
      all_goals
        rename_i hvalue
        rw [hvalue] at hhead
        simp [Token.beginsBase] at hhead

end Expr.Parser

end CallByNeed

import CallByNeed.Proofs.OperatorSequence
import CallByNeed.Proofs.Grammar.Rules
import CallByNeed.Proofs.Grammar.TokenList

/-!
# What is read follows the grammar

On a list of tokens without `of`, each parser takes a beginning of the list from which the rule of
the same name derives its value (`Parser.Sound`).  A parser that goes on behind a first part, as
those of arguments, of open patterns and of operator sequences do, is described by what it makes of
that part.

A `case` is not read to its end, since nothing stands where `of` should.
-/

namespace CallByNeed

/-- No token of the list is `of`. -/
def OfFree (ts : List (Located Token)) : Prop :=
  ∀ t ∈ ts, t.value ≠ .keyword .ofWord

theorem OfFree.tail {t : Located Token} {ts : List (Located Token)} (h : OfFree (t :: ts)) :
    OfFree ts :=
  fun u hu => h u (List.mem_cons_of_mem t hu)

theorem OfFree.right {us vs : List (Located Token)} (h : OfFree (us ++ vs)) : OfFree vs :=
  fun t ht => h t (List.mem_append_right us ht)

namespace Parser

open Grammar

variable {α β : Type} {rule : List (Located Token) → α → Prop}

/-- **Without `of` the parser yields only what the rule derives** from the tokens that it takes. -/
def Sound (x : Parser α) (rule : List (Located Token) → α → Prop) : Prop :=
  ∀ ⦃last : Located Token⦄ ⦃ts : List (Located Token)⦄ ⦃a : α⦄ ⦃rest : List (Located Token)⦄,
    last.value = .eof → OfFree ts → x.runOn last ts = .ok (a, rest) →
      ∃ used, ts = used ++ rest ∧ rule used a

/-- The first step of a run takes what the rule derives its value from. -/
theorem Sound.step {x : Parser α} (hx : x.Sound rule) {f : α → Parser β} {last : Located Token}
    {ts rest : List (Located Token)} {b : β} (hlast : last.value = .eof) (hfree : OfFree ts)
    (h : (x >>= f).runOn last ts = .ok (b, rest)) :
    ∃ a us vs, ts = us ++ vs ∧ OfFree vs ∧ rule us a ∧ (f a).runOn last vs = .ok (b, rest) := by
  obtain ⟨a, vs, hrun, hnext⟩ := exists_of_runOn_bind h
  obtain ⟨us, rfl, ha⟩ := hx hlast hfree hrun
  exact ⟨a, us, vs, rfl, hfree.right, ha, hnext⟩

theorem Sound.discard {x : Parser α} (hx : x.Sound rule) :
    (discard x).Sound fun ts _ => ∃ a, rule ts a := by
  intro last ts u rest hlast hfree h
  obtain ⟨a, us, vs, rfl, -, ha, h⟩ := hx.step hlast hfree h
  obtain rfl : vs = rest := by simpa [runOn] using h
  exact ⟨us, rfl, a, ha⟩

/-- What is looked at, other than the end of the text, is the first token of the list. -/
theorem eq_cons_of_headD {last t : Located Token} {ts : List (Located Token)}
    (hlast : last.value = .eof) (ht : ts.headD last = t) (heof : t.value ≠ .eof) :
    ∃ us, ts = t :: us := by
  cases ts with
  | nil => exact absurd (ht ▸ hlast) heof
  | cons u us => exact ⟨us, by rw [← ht]; rfl⟩

theorem sound_expect {expected : Token} (hne : expected ≠ .eof) :
    (expect expected).Sound fun ts t => ts = [t] ∧ t.value = expected := by
  intro last ts t rest hlast hfree h
  rw [expect, runOn_advance_bind] at h
  split at h
  · rename_i hvalue
    obtain ⟨ht, htail⟩ : ts.headD last = t ∧ ts.tail = rest := by simpa using h
    rw [ht] at hvalue
    obtain ⟨us, rfl⟩ := eq_cons_of_headD hlast ht (hvalue ▸ hne)
    exact ⟨[t], congrArg _ htail, rfl, hvalue⟩
  · simp at h

/-- A token that is expected stands first. -/
theorem step_expect {expected : Token} (hne : expected ≠ .eof) {f : Located Token → Parser β}
    {last : Located Token} {ts rest : List (Located Token)} {b : β} (hlast : last.value = .eof)
    (hfree : OfFree ts) (h : (expect expected >>= f).runOn last ts = .ok (b, rest)) :
    ∃ t us, ts = t :: us ∧ OfFree us ∧ t.value = expected ∧
      (f t).runOn last us = .ok (b, rest) := by
  obtain ⟨t, us, vs, rfl, hvs, ⟨rfl, ht⟩, hnext⟩ := (sound_expect hne).step hlast hfree h
  exact ⟨t, vs, rfl, hvs, ht, hnext⟩

/-- A token that is expected and not needed stands first. -/
theorem step_discard_expect {expected : Token} (hne : expected ≠ .eof) {f : Unit → Parser β}
    {last : Located Token} {ts rest : List (Located Token)} {b : β} (hlast : last.value = .eof)
    (hfree : OfFree ts)
    (h : ((discard (expect expected) : Parser Unit) >>= f).runOn last ts = .ok (b, rest)) :
    ∃ t us, ts = t :: us ∧ OfFree us ∧ t.value = expected ∧
      (f ()).runOn last us = .ok (b, rest) := by
  obtain ⟨_, us, vs, rfl, hvs, ⟨t, rfl, ht⟩, hnext⟩ :=
    (sound_expect hne).discard.step hlast hfree h
  exact ⟨t, vs, rfl, hvs, ht, hnext⟩

/-! ### Items in brackets -/

section Items

variable {item : Parser α} {closing : Token}

theorem sound_commaItems_more (hitem : item.Sound rule) (fuel : Nat) :
    (commaItems item closing fuel false).Sound (MoreItems rule) := by
  induction fuel with
  | zero =>
    intro last ts as rest hlast hfree h
    simp [commaItems] at h
  | succ fuel ih =>
    intro last ts as rest hlast hfree h
    rw [commaItems, runOn_peek_bind] at h
    split at h
    · obtain ⟨rfl, rfl⟩ : [] = as ∧ ts = rest := by simpa using h
      exact ⟨[], rfl, .nil⟩
    · obtain ⟨comma, ts, rfl, hfree, hcomma, h⟩ := step_discard_expect (by simp) hlast hfree h
      obtain ⟨a, us, ts, rfl, hfree, ha, h⟩ := hitem.step hlast hfree h
      obtain ⟨as', vs, ts, rfl, hfree, has, h⟩ := ih.step hlast hfree h
      obtain ⟨rfl, rfl⟩ : a :: as' = as ∧ ts = rest := by simpa using h
      exact ⟨_, by simp, .cons hcomma ha has⟩

theorem sound_commaItems (hitem : item.Sound rule) (fuel : Nat) :
    (commaItems item closing fuel true).Sound (Items rule) := by
  intro last ts as rest hlast hfree h
  cases fuel with
  | zero => simp [commaItems] at h
  | succ fuel =>
    rw [commaItems, runOn_peek_bind] at h
    split at h
    · obtain ⟨rfl, rfl⟩ : [] = as ∧ ts = rest := by simpa using h
      exact ⟨[], rfl, .nil⟩
    · obtain ⟨a, us, ts, rfl, hfree, ha, h⟩ := hitem.step hlast hfree h
      obtain ⟨as', vs, ts, rfl, hfree, has, h⟩ :=
        (sound_commaItems_more hitem fuel).step hlast hfree h
      obtain ⟨rfl, rfl⟩ : a :: as' = as ∧ ts = rest := by simpa using h
      exact ⟨_, by simp, .cons ha has⟩

theorem sound_delimited {opening : Token} (hopening : opening ≠ .eof) (hclosing : closing ≠ .eof)
    (hitem : item.Sound rule) (fuel : Nat) :
    (delimited fuel opening closing item).Sound (Delimited rule opening closing) := by
  intro last ts r rest hlast hfree h
  obtain ⟨left, ts, rfl, hfree, hleft, h⟩ := step_expect hopening hlast hfree h
  obtain ⟨items, us, ts, rfl, hfree, hitems, h⟩ := (sound_commaItems hitem fuel).step hlast hfree h
  obtain ⟨right, ts, rfl, hfree, hright, h⟩ := step_expect hclosing hlast hfree h
  obtain ⟨rfl, rfl⟩ : _ = r ∧ ts = rest := by simpa using h
  exact ⟨_, by simp, .intro hleft hitems hright⟩

end Items

end Parser

/-! ### Patterns -/

namespace Pattern.Parser

open CallByNeed.Parser Grammar

/-- The cells of an open pattern all end where its last part does. -/
theorem chain_cons (p q : Pattern) (ps : List Pattern) :
    chain p (q :: ps) = .cons ⟨p.span.start, (chain q ps).span.stop⟩ p (chain q ps) := by
  have hstop (heads : List Pattern) (tail : Pattern) :
      (consAll tail.span.stop heads tail).span.stop = tail.span.stop := by
    cases heads <;> rfl
  simp only [chain, hstop]
  rfl

theorem sound_openMore {base : CallByNeed.Parser Pattern}
    {rule : List (Located Token) → Pattern → Prop} (hbase : base.Sound rule) (fuel : Nat) :
    (openMore base fuel).Sound fun used ps =>
      ∀ us p, rule us p → OpenPattern rule (us ++ used) (chain p ps) := by
  induction fuel with
  | zero =>
    intro last ts ps rest hlast hfree h
    simp [openMore] at h
  | succ fuel ih =>
    intro last ts ps rest hlast hfree h
    rw [openMore, runOn_peek_bind] at h
    split at h
    · rename_i symbol hsymbol
      split at h
      · simp at h
      · rename_i hcolon
        obtain rfl : symbol = ":" := by simpa using hcolon
        cases ts with
        -- the end of the text is no operator
        | nil => simp [hlast] at hsymbol
        | cons colon ts =>
          rw [runOn_discard_advance_bind] at h
          obtain ⟨q, us, vs, rfl, hfree, hq, h⟩ := hbase.step hlast hfree.tail h
          -- the patterns behind the colon are read by induction, and grouped with the one in front
          -- of it
          obtain ⟨qs, vs, ws, rfl, hfree, hqs, h⟩ := ih.step hlast hfree h
          obtain ⟨rfl, rfl⟩ : q :: qs = ps ∧ ws = rest := by simpa using h
          refine ⟨colon :: (us ++ vs), by simp, fun ts p hp => ?_⟩
          rw [chain_cons]
          exact .cons hp hsymbol (hqs us q hq)
    · obtain ⟨rfl, rfl⟩ : [] = ps ∧ ts = rest := by simpa using h
      refine ⟨[], rfl, fun us p hp => ?_⟩
      rw [List.append_nil]
      exact .base hp

theorem sound_openPattern {base : CallByNeed.Parser Pattern}
    {rule : List (Located Token) → Pattern → Prop} (hbase : base.Sound rule) (fuel : Nat) :
    (openPattern fuel base).Sound (OpenPattern rule) := by
  intro last ts p rest hlast hfree h
  obtain ⟨first, us, vs, rfl, hfree, hfirst, h⟩ := hbase.step hlast hfree h
  obtain ⟨more, ws, vs, rfl, hfree, hmore, h⟩ := (sound_openMore hbase fuel).step hlast hfree h
  obtain ⟨rfl, rfl⟩ : chain first more = p ∧ vs = rest := by simpa using h
  exact ⟨us ++ ws, by simp, hmore us first hfirst⟩

/-- A pattern of one token is what the token stands for. -/
theorem runOn_leaf (make : Span → Pattern) (last t : Located Token) (ts : List (Located Token)) :
    (leaf make).runOn last (t :: ts) = .ok (make t.span, ts) :=
  rfl

/-- Patterns in round brackets, other than exactly one, are a tuple. -/
theorem ofParens_of_length_ne {ps : List Pattern} (h : ps.length ≠ 1) (span : Span) :
    ofParens span ps = .tuple span ps := by
  match ps with
  | [] | _ :: _ :: _ => rfl
  | [_] => exact absurd rfl h

theorem basePattern_ofParens {ts : List (Located Token)} {r : List Pattern × Span}
    (h : Delimited (OpenPattern BasePattern) .parenLeft .parenRight ts r) :
    BasePattern ts (ofParens r.2 r.1) := by
  obtain ⟨hleft, hitems, hright⟩ := h
  rcases hitems.single_or_length_ne with ⟨p, rfl, hp⟩ | hlength
  · exact .group hleft hp hright
  · rw [ofParens_of_length_ne hlength]
    exact .tuple hleft hitems hlength hright

theorem basePattern_ofBrackets {ts : List (Located Token)} {r : List Pattern × Span}
    (h : Delimited (OpenPattern BasePattern) .bracketLeft .bracketRight ts r) :
    BasePattern ts (ofBrackets r.2 r.1) := by
  obtain ⟨hleft, hitems, hright⟩ := h
  exact .list hleft hitems hright

/-- **Base patterns are read by the rules.** -/
theorem sound_basePattern (fuel : Nat) : (basePattern fuel).Sound BasePattern := by
  induction fuel with
  | zero =>
    intro last ts p rest hlast hfree h
    simp [basePattern] at h
  | succ fuel ih =>
    intro last ts p rest hlast hfree h
    have hitem := sound_openPattern ih fuel
    rw [basePattern, runOn_peek_bind] at h
    cases ts with
    | nil => simp [hlast] at h
    | cons t ts =>
      -- leaves take one token, and make their tree from its span
      have hleaf {make : Span → Pattern} (hrun : (leaf make).runOn last (t :: ts) = .ok (p, rest))
          (hrule : BasePattern [t] (make t.span)) : ∃ used, t :: ts = used ++ rest ∧
            BasePattern used p := by
        obtain ⟨rfl, rfl⟩ : make t.span = p ∧ ts = rest := by simpa [runOn_leaf] using hrun
        exact ⟨[t], rfl, hrule⟩
      rw [List.headD_cons] at h
      split at h
      · exact hleaf h (.bind ‹_›)
      · exact hleaf h (.wildcard ‹_›)
      · exact hleaf h (.integer ‹_›)
      · exact hleaf h (.boolean ‹_›)
      · -- brackets hold patterns between commas; how many there are decides what they stand for
        obtain ⟨r, us, vs, hts, hfree, hr, h⟩ :=
          (sound_delimited (by simp) (by simp) hitem fuel).step hlast hfree h
        obtain ⟨rfl, rfl⟩ : ofParens r.2 r.1 = p ∧ vs = rest := by simpa using h
        exact ⟨us, hts, basePattern_ofParens hr⟩
      · obtain ⟨r, us, vs, hts, hfree, hr, h⟩ :=
          (sound_delimited (by simp) (by simp) hitem fuel).step hlast hfree h
        obtain ⟨rfl, rfl⟩ : ofBrackets r.2 r.1 = p ∧ vs = rest := by simpa using h
        exact ⟨us, hts, basePattern_ofBrackets hr⟩
      · simp at h

end Pattern.Parser

/-! ### Expressions -/

namespace Expr.Parser

open CallByNeed.Parser Grammar

variable {table : OperatorTable} {expr : CallByNeed.Parser Expr}
  {rule : List (Located Token) → Expr → Prop}

/-- An expression of one token is what the token stands for. -/
theorem runOn_leaf (make : Span → Expr) (last t : Located Token) (ts : List (Located Token)) :
    (leaf make).runOn last (t :: ts) = .ok (make t.span, ts) :=
  rfl

/-- Expressions in round brackets, other than exactly one, are a tuple. -/
theorem ofParens_of_length_ne {es : List Expr} (h : es.length ≠ 1) (span : Span) :
    ofParens span es = .tuple span es := by
  match es with
  | [] | _ :: _ :: _ => rfl
  | [_] => exact absurd rfl h

theorem baseExpr_ofParens {ts : List (Located Token)} {r : List Expr × Span}
    (h : Delimited rule .parenLeft .parenRight ts r) : BaseExpr rule ts (ofParens r.2 r.1) := by
  obtain ⟨hleft, hitems, hright⟩ := h
  rcases hitems.single_or_length_ne with ⟨e, rfl, he⟩ | hlength
  · exact .group hleft he hright
  · rw [ofParens_of_length_ne hlength]
    exact .tuple hleft hitems hlength hright

theorem baseExpr_ofBrackets {ts : List (Located Token)} {r : List Expr × Span}
    (h : Delimited rule .bracketLeft .bracketRight ts r) :
    BaseExpr rule ts (ofBrackets r.2 r.1) := by
  obtain ⟨hleft, hitems, hright⟩ := h
  exact .list hleft hitems hright

theorem sound_baseExpr (hexpr : expr.Sound rule) (fuel : Nat) :
    (baseExpr fuel expr).Sound (BaseExpr rule) := by
  intro last ts e rest hlast hfree h
  rw [baseExpr, runOn_peek_bind] at h
  cases ts with
  | nil => simp [hlast] at h
  | cons t ts =>
    have hleaf {make : Span → Expr} (hrun : (leaf make).runOn last (t :: ts) = .ok (e, rest))
        (hrule : BaseExpr rule [t] (make t.span)) : ∃ used, t :: ts = used ++ rest ∧
          BaseExpr rule used e := by
      obtain ⟨rfl, rfl⟩ : make t.span = e ∧ ts = rest := by simpa [runOn_leaf] using hrun
      exact ⟨[t], rfl, hrule⟩
    rw [List.headD_cons] at h
    split at h
    · exact hleaf h (.integer ‹_›)
    · exact hleaf h (.boolean ‹_›)
    · exact hleaf h (.identifier ‹_›)
    · -- brackets hold expressions between commas; how many there are decides what they stand for
      obtain ⟨r, us, vs, hts, hfree, hr, h⟩ :=
        (sound_delimited (by simp) (by simp) hexpr fuel).step hlast hfree h
      obtain ⟨rfl, rfl⟩ : ofParens r.2 r.1 = e ∧ vs = rest := by simpa using h
      exact ⟨us, hts, baseExpr_ofParens hr⟩
    · obtain ⟨r, us, vs, hts, hfree, hr, h⟩ :=
        (sound_delimited (by simp) (by simp) hexpr fuel).step hlast hfree h
      obtain ⟨rfl, rfl⟩ : ofBrackets r.2 r.1 = e ∧ vs = rest := by simpa using h
      exact ⟨us, hts, baseExpr_ofBrackets hr⟩
    · simp at h

theorem sound_arguments {base : CallByNeed.Parser Expr} (hbase : base.Sound (BaseExpr rule))
    (fuel : Nat) (func : Expr) :
    (arguments base fuel func).Sound fun used e =>
      ∀ us, Application rule us func → Application rule (us ++ used) e := by
  induction fuel generalizing func with
  | zero =>
    intro last ts e rest hlast hfree h
    simp [arguments] at h
  | succ fuel ih =>
    intro last ts e rest hlast hfree h
    rw [arguments, runOn_peek_bind] at h
    split at h
    · -- the argument joins the function in front of it, and the rest is read by induction
      obtain ⟨arg, us, vs, rfl, hfree, harg, h⟩ := hbase.step hlast hfree h
      obtain ⟨ws, rfl, he⟩ := ih (func.applyTo arg) hlast hfree h
      refine ⟨us ++ ws, by simp, fun ts hfunc => ?_⟩
      rw [← List.append_assoc]
      exact he _ (.apply hfunc harg)
    · obtain ⟨rfl, rfl⟩ : func = e ∧ ts = rest := by simpa using h
      exact ⟨[], rfl, fun us hfunc => by rwa [List.append_nil]⟩

theorem sound_application (hexpr : expr.Sound rule) (fuel : Nat) :
    (application fuel expr).Sound (Application rule) := by
  intro last ts e rest hlast hfree h
  have hbase := sound_baseExpr hexpr fuel
  obtain ⟨func, us, vs, rfl, hfree, hfunc, h⟩ := hbase.step hlast hfree h
  obtain ⟨ws, rfl, he⟩ := sound_arguments hbase fuel func hlast hfree h
  exact ⟨us ++ ws, by simp, he us (.base hfunc)⟩

/-- An operator of the table comes in: the stacks are reduced, and it waits for the operand behind
it. -/
theorem runOn_sequenceMore_operator {operand : CallByNeed.Parser Expr} {fuel : Nat}
    {last t : Located Token} {ts : List (Located Token)} {symbol : String} {op : Operator}
    (ht : t.value = .operator symbol) (hop : table.get? symbol = some op)
    (operators : List Waiting) (operands : List Expr) :
    (sequenceMore table operand expr (fuel + 1) operators operands).runOn last (t :: ts) =
      match Sequence.reduceFor Waiting.complete symbol op operators operands with
      | .error why => .error why
      | .ok (operators, operands) =>
        (if (ts.headD last).value.beginsBase then do
          let x ← operand
          sequenceMore table operand expr fuel (⟨symbol, op, t.span⟩ :: operators) (x :: operands)
        else do
          let x ← expr
          ofExcept (Sequence.close Waiting.complete (⟨symbol, op, t.span⟩ :: operators)
            (x :: operands))).runOn last ts := by
  rw [sequenceMore, runOn_peek_bind, List.headD_cons]
  simp only [ht, hop]
  rw [runOn_discard_advance_bind, List.tail_cons]
  cases Sequence.reduceFor Waiting.complete symbol op operators operands with
  | error why => exact runOn_bind_error rfl
  | ok pair => exact runOn_bind_ok (a := pair) rfl

/-- **The operators and operands behind the first are read by the rules**, and the two stacks group
them.  An operand that does not begin like an application has to be a keyword expression. -/
theorem sound_sequenceMore {operand : CallByNeed.Parser Expr}
    (hoperand : operand.Sound (Application rule)) (hexpr : expr.Sound rule)
    (hkeyword : ∀ ts e, rule ts e → (∀ t ∈ ts.head?, t.value.beginsBase = false) →
      KeywordExpr rule ts e)
    (fuel : Nat) (operators : List Waiting) (operands : List Expr) :
    (sequenceMore table operand expr fuel operators operands).Sound fun used e =>
      ∃ more, Operands table rule used more ∧
        Sequence.resolve Waiting.complete operators operands more = .ok e := by
  induction fuel generalizing operators operands with
  | zero =>
    intro last ts e rest hlast hfree h
    simp [sequenceMore] at h
  | succ fuel ih =>
    intro last ts e rest hlast hfree h
    cases ts with
    | nil =>
      rw [sequenceMore, runOn_peek_bind, List.headD_nil, hlast] at h
      obtain ⟨hclose, rfl⟩ := runOn_ofExcept_eq_ok.1 h
      exact ⟨[], rfl, [], .nil, hclose⟩
    | cons t ts =>
      by_cases hoperator : ∃ symbol op, t.value = .operator symbol ∧ table.get? symbol = some op
      · obtain ⟨symbol, op, ht, hop⟩ := hoperator
        rw [runOn_sequenceMore_operator ht hop] at h
        split at h
        · simp at h
        rename_i operators' operands' hreduce
        have hfree : OfFree ts := hfree.tail
        -- the operator that comes in is the next of the sequence, for the stacks as they are
        -- reduced
        have hresolve (x : Expr) (more : List (Waiting × Expr)) :
            Sequence.resolve Waiting.complete operators operands
                ((⟨symbol, op, t.span⟩, x) :: more) =
              Sequence.resolve Waiting.complete (⟨symbol, op, t.span⟩ :: operators')
                (x :: operands') more := by
          rw [Sequence.resolve, hreduce]
        split at h
        · obtain ⟨x, us, vs, rfl, hfree, hx, h⟩ := hoperand.step hlast hfree h
          obtain ⟨ws, rfl, more, hmore, he⟩ := ih _ _ hlast hfree h
          -- an application goes on with the sequence
          exact ⟨_, by simp, _, .application ht hop hx hmore, (hresolve x more).trans he⟩
        · rename_i hbegins
          obtain ⟨x, us, vs, rfl, hfree, hx, h⟩ := hexpr.step hlast hfree h
          obtain ⟨hclose, rfl⟩ := runOn_ofExcept_eq_ok.1 h
          -- what does not begin like an application is read whole, and ends the sequence
          have hkey : KeywordExpr rule us x := by
            refine hkeyword us x hx fun u hu => ?_
            cases us with
            | nil => simp at hu
            | cons v us =>
              obtain rfl : v = u := by simpa using hu
              simpa using hbegins
          exact ⟨t :: us, rfl, _, .keyword ht hop hkey, (hresolve x []).trans hclose⟩
      · -- the sequence ends here, unless an unknown operator stands in its way
        rw [sequenceMore, runOn_peek_bind, List.headD_cons] at h
        split at h
        · rename_i symbol ht
          split at h
          · simp at h
          · rename_i op hop
            exact absurd ⟨symbol, op, ht, hop⟩ hoperator
        · obtain ⟨hclose, rfl⟩ := runOn_ofExcept_eq_ok.1 h
          exact ⟨[], rfl, [], .nil, hclose⟩

/-- **Operator sequences are read by the rules**, grouped as a valid tree says. -/
theorem sound_operatorSequence (hexpr : expr.Sound rule)
    (hkeyword : ∀ ts e, rule ts e → (∀ t ∈ ts.head?, t.value.beginsBase = false) →
      KeywordExpr rule ts e) (fuel : Nat) :
    (operatorSequence table fuel expr).Sound (OperatorSequence table rule) := by
  intro last ts e rest hlast hfree h
  have hoperand := sound_application hexpr fuel
  obtain ⟨first, us, vs, rfl, hfree, hfirst, h⟩ := hoperand.step hlast hfree h
  obtain ⟨ws, rfl, more, hmore, hresolve⟩ :=
    sound_sequenceMore hoperand hexpr hkeyword fuel [] [first] hlast hfree h
  rw [resolve_eq_map] at hresolve
  rcases (Sequence.Stacked.one (t := .operand first) trivial).resolve more with
    ⟨tree, htree, hvalid, rfl, rfl⟩ | ⟨err, herr, -⟩
  · obtain rfl : tree.expr = e := by simpa [htree, Except.map] using hresolve
    exact ⟨us ++ ws, by simp, .intro hvalid hfirst hmore⟩
  · simp [herr, Except.map] at hresolve

theorem sound_letExpr (hexpr : expr.Sound rule) (fuel : Nat) :
    (letExpr fuel expr).Sound (KeywordExpr rule) := by
  intro last ts e rest hlast hfree h
  obtain ⟨start, ts, rfl, hfree, hstart, h⟩ := step_expect (by simp) hlast hfree h
  obtain ⟨p, us, ts, rfl, hfree, hp, h⟩ :=
    (Pattern.Parser.sound_basePattern fuel).step hlast hfree h
  obtain ⟨equals, ts, rfl, hfree, hequals, h⟩ := step_discard_expect (by simp) hlast hfree h
  obtain ⟨value, vs, ts, rfl, hfree, hvalue, h⟩ := hexpr.step hlast hfree h
  obtain ⟨inWord, ts, rfl, hfree, hin, h⟩ := step_discard_expect (by simp) hlast hfree h
  obtain ⟨body, ws, ts, rfl, hfree, hbody, h⟩ := hexpr.step hlast hfree h
  obtain ⟨rfl, rfl⟩ : _ = e ∧ ts = rest := by simpa using h
  exact ⟨_, by simp, .bind hstart hp hequals hvalue hin hbody⟩

theorem sound_condition (hexpr : expr.Sound rule) :
    (condition expr).Sound (KeywordExpr rule) := by
  intro last ts e rest hlast hfree h
  obtain ⟨start, ts, rfl, hfree, hstart, h⟩ := step_expect (by simp) hlast hfree h
  obtain ⟨test, us, ts, rfl, hfree, htest, h⟩ := hexpr.step hlast hfree h
  obtain ⟨thenWord, ts, rfl, hfree, hthen, h⟩ := step_discard_expect (by simp) hlast hfree h
  obtain ⟨yes, vs, ts, rfl, hfree, hyes, h⟩ := hexpr.step hlast hfree h
  obtain ⟨elseWord, ts, rfl, hfree, helse, h⟩ := step_discard_expect (by simp) hlast hfree h
  obtain ⟨no, ws, ts, rfl, hfree, hno, h⟩ := hexpr.step hlast hfree h
  obtain ⟨rfl, rfl⟩ : _ = e ∧ ts = rest := by simpa using h
  exact ⟨_, by simp, .condition hstart htest hthen hyes helse hno⟩

theorem sound_lambda (hexpr : expr.Sound rule) (fuel : Nat) :
    (lambda fuel expr).Sound (KeywordExpr rule) := by
  intro last ts e rest hlast hfree h
  obtain ⟨start, ts, rfl, hfree, hstart, h⟩ := step_expect (by simp) hlast hfree h
  obtain ⟨p, us, ts, rfl, hfree, hp, h⟩ :=
    (Pattern.Parser.sound_basePattern fuel).step hlast hfree h
  obtain ⟨arrow, ts, rfl, hfree, harrow, h⟩ := step_discard_expect (by simp) hlast hfree h
  obtain ⟨body, vs, ts, rfl, hfree, hbody, h⟩ := hexpr.step hlast hfree h
  obtain ⟨rfl, rfl⟩ : _ = e ∧ ts = rest := by simpa using h
  exact ⟨_, by simp, .lambda hstart hp harrow hbody⟩

/-- A `case` does not come to its `of`. -/
theorem sound_caseExpr (hexpr : expr.Sound rule) (fuel : Nat) :
    (caseExpr fuel expr).Sound fun _ _ => False := by
  intro last ts e rest hlast hfree h
  obtain ⟨start, ts, rfl, hfree, hstart, h⟩ := step_expect (by simp) hlast hfree h
  obtain ⟨subject, us, ts, rfl, hfree, hsubject, h⟩ := hexpr.step hlast hfree h
  obtain ⟨t, ts, rfl, hfree', ht, h⟩ := step_expect (by simp) hlast hfree h
  exact absurd ht (hfree t (by simp))

/-- **Expressions are read by the rules.** -/
theorem sound_expr (table : OperatorTable) (fuel : Nat) :
    (Parser.expr table fuel).Sound (IsExpr table) := by
  induction fuel with
  | zero =>
    intro last ts e rest hlast hfree h
    simp [Parser.expr] at h
  | succ fuel ih =>
    intro last ts e rest hlast hfree h
    rw [Parser.expr, runOn_peek_bind] at h
    split at h
    · -- each keyword begins one form, and a case cannot be read without its block
      obtain ⟨used, hts, he⟩ := sound_letExpr ih fuel hlast hfree h
      exact ⟨used, hts, .keyword he⟩
    · obtain ⟨used, hts, he⟩ := sound_condition ih hlast hfree h
      exact ⟨used, hts, .keyword he⟩
    · obtain ⟨used, hts, he⟩ := sound_lambda ih fuel hlast hfree h
      exact ⟨used, hts, .keyword he⟩
    · obtain ⟨used, hts, he⟩ := sound_caseExpr ih fuel hlast hfree h
      exact he.elim
    · split at h
      · have hkeyword ts e (h : IsExpr table ts e) := h.keyword_of_head
        obtain ⟨used, hts, he⟩ := sound_operatorSequence ih hkeyword fuel hlast hfree h
        exact ⟨used, hts, .sequence he⟩
      · simp at h

end Expr.Parser

end CallByNeed

import CallByNeed.Proofs.Precedence

/-!
# The grammar without blocks

The rules of the language as relations between token lists and trees, except for `case`, whose
options need a layout.  In the notation of grammars, with `op` an operator of the table:

```text
E    ::= K | S
K    ::= let B = E in E | if E then E else E | \ B -> E
S    ::= A (op A)* | A (op A)* op K             with a valid precedence tree
A    ::= base | A base
base ::= integer | boolean | identifier | ( E,* ) | [ E,* ]
B    ::= identifier | _ | integer | boolean | ( O,* ) | [ O,* ]
O    ::= B | B : O
```

A comma stands between two items and nowhere else.  Round brackets around one item only group, a
list in square brackets ends in the empty list, and applications group to the left.  Trees carry
their spans: a node reaches over its parts, brackets included, and a cell of a list from its head to
the end of the list.

The rules for parts of an expression take the relation for whole expressions as a parameter, and
`IsExpr` is the smallest relation that they are closed under.
-/

namespace CallByNeed.Grammar

/-! ### Items with commas between them -/

section Items

variable {α : Type} (item : List (Located Token) → α → Prop)

/-- Further items, each behind a comma. -/
inductive MoreItems : List (Located Token) → List α → Prop where
  | nil : MoreItems [] []
  | cons {comma : Located Token} {ts us : List (Located Token)} {a : α} {as : List α}
      (hcomma : comma.value = .comma) (hitem : item ts a) (hmore : MoreItems us as) :
      MoreItems (comma :: (ts ++ us)) (a :: as)

/-- Items with commas between them, or none. -/
inductive Items : List (Located Token) → List α → Prop where
  | nil : Items [] []
  | cons {ts us : List (Located Token)} {a : α} {as : List α} (hitem : item ts a)
      (hmore : MoreItems item us as) : Items (ts ++ us) (a :: as)

/-- Items between brackets, and the span from bracket to bracket. -/
inductive Delimited (opening closing : Token) : List (Located Token) → List α × Span → Prop where
  | intro {left right : Located Token} {ts : List (Located Token)} {as : List α}
      (hleft : left.value = opening) (hitems : Items item ts as) (hright : right.value = closing) :
      Delimited opening closing (left :: (ts ++ [right])) (as, left.span.merge right.span)

variable {item}

theorem Items.single {ts : List (Located Token)} {a : α} (h : item ts a) : Items item ts [a] := by
  have hitems : Items item (ts ++ []) [a] := .cons h .nil
  rwa [List.append_nil] at hitems

/-- Exactly one item stands without a comma. -/
theorem Items.single_or_length_ne {ts : List (Located Token)} {as : List α}
    (h : Items item ts as) : (∃ a, as = [a] ∧ item ts a) ∨ as.length ≠ 1 := by
  cases h with
  | nil => exact .inr (by simp)
  | cons hitem hmore =>
    cases hmore with
    | nil =>
      rw [List.append_nil]
      exact .inl ⟨_, rfl, hitem⟩
    | cons => exact .inr (by simp)

/-- Each further item has its comma. -/
theorem MoreItems.length_le {ts : List (Located Token)} {as : List α} (h : MoreItems item ts as) :
    as.length ≤ ts.length := by
  induction h with
  | nil => exact Nat.le_refl _
  | cons _ _ _ ih =>
    simp only [List.length_cons, List.length_append]
    omega

end Items

/-! ### Patterns -/

/-- An open pattern: base patterns with colons between them, grouped to the right. -/
inductive OpenPattern (base : List (Located Token) → Pattern → Prop) :
    List (Located Token) → Pattern → Prop where
  | base {ts : List (Located Token)} {p : Pattern} (hbase : base ts p) : OpenPattern base ts p
  | cons {colon : Located Token} {ts us : List (Located Token)} {head tail : Pattern}
      (hhead : base ts head) (hcolon : colon.value = .operator ":")
      (htail : OpenPattern base us tail) :
      OpenPattern base (ts ++ colon :: us) (.cons ⟨head.span.start, tail.span.stop⟩ head tail)

/-- A base pattern. -/
inductive BasePattern : List (Located Token) → Pattern → Prop where
  | bind {t : Located Token} {name : String} (ht : t.value = .identifier name) :
    BasePattern [t] (.bind t.span name)
  | wildcard {t : Located Token} (ht : t.value = .underscore) : BasePattern [t] (.wildcard t.span)
  | integer {t : Located Token} {value : Nat} (ht : t.value = .integer value) :
    BasePattern [t] (.integer t.span value)
  | boolean {t : Located Token} {value : Bool} (ht : t.value = .boolean value) :
    BasePattern [t] (.boolean t.span value)
  | group {left right : Located Token} {ts : List (Located Token)} {p : Pattern}
      (hleft : left.value = .parenLeft) (hinner : OpenPattern BasePattern ts p)
      (hright : right.value = .parenRight) :
      BasePattern (left :: (ts ++ [right])) (p.withSpan (left.span.merge right.span))
  | tuple {left right : Located Token} {ts : List (Located Token)} {ps : List Pattern}
      (hleft : left.value = .parenLeft) (hinner : Items (OpenPattern BasePattern) ts ps)
      (hlength : ps.length ≠ 1) (hright : right.value = .parenRight) :
      BasePattern (left :: (ts ++ [right])) (.tuple (left.span.merge right.span) ps)
  | list {left right : Located Token} {ts : List (Located Token)} {ps : List Pattern}
      (hleft : left.value = .bracketLeft) (hinner : Items (OpenPattern BasePattern) ts ps)
      (hright : right.value = .bracketRight) :
      BasePattern (left :: (ts ++ [right]))
        (ps.foldr
          (fun head tail => .cons ⟨head.span.start, (left.span.merge right.span).stop⟩ head tail)
          (.nil (left.span.merge right.span)))

/-! ### Expressions -/

section Parts

variable (table : OperatorTable) (expr : List (Located Token) → Expr → Prop)

/-- A base expression. -/
inductive BaseExpr : List (Located Token) → Expr → Prop where
  | integer {t : Located Token} {value : Nat} (ht : t.value = .integer value) :
    BaseExpr [t] (.integer t.span value)
  | boolean {t : Located Token} {value : Bool} (ht : t.value = .boolean value) :
    BaseExpr [t] (.boolean t.span value)
  | identifier {t : Located Token} {name : String} (ht : t.value = .identifier name) :
    BaseExpr [t] (.identifier t.span name)
  | group {left right : Located Token} {ts : List (Located Token)} {e : Expr}
      (hleft : left.value = .parenLeft) (hinner : expr ts e) (hright : right.value = .parenRight) :
      BaseExpr (left :: (ts ++ [right])) (e.withSpan (left.span.merge right.span))
  | tuple {left right : Located Token} {ts : List (Located Token)} {es : List Expr}
      (hleft : left.value = .parenLeft) (hinner : Items expr ts es) (hlength : es.length ≠ 1)
      (hright : right.value = .parenRight) :
      BaseExpr (left :: (ts ++ [right])) (.tuple (left.span.merge right.span) es)
  | list {left right : Located Token} {ts : List (Located Token)} {es : List Expr}
      (hleft : left.value = .bracketLeft) (hinner : Items expr ts es)
      (hright : right.value = .bracketRight) :
      BaseExpr (left :: (ts ++ [right]))
        (es.foldr
          (fun head tail => .cons ⟨head.span.start, (left.span.merge right.span).stop⟩ head tail)
          (.nil (left.span.merge right.span)))

/-- Base expressions side by side, grouped to the left. -/
inductive Application : List (Located Token) → Expr → Prop where
  | base {ts : List (Located Token)} {e : Expr} (hbase : BaseExpr expr ts e) : Application ts e
  | apply {ts us : List (Located Token)} {func arg : Expr} (hfunc : Application ts func)
      (harg : BaseExpr expr us arg) :
      Application (ts ++ us) (.apply (func.span.merge arg.span) func arg)

/-- A `let`, an `if` or a function. -/
inductive KeywordExpr : List (Located Token) → Expr → Prop where
  | bind {start equals inWord : Located Token} {ps vs bs : List (Located Token)}
      {pattern : Pattern} {value body : Expr} (hstart : start.value = .keyword .letWord)
      (hpattern : BasePattern ps pattern) (hequals : equals.value = .equals)
      (hvalue : expr vs value) (hin : inWord.value = .keyword .inWord) (hbody : expr bs body) :
      KeywordExpr (start :: (ps ++ equals :: (vs ++ inWord :: bs)))
        (.bind (start.span.merge body.span) pattern value body)
  | condition {start thenWord elseWord : Located Token} {ts ys ns : List (Located Token)}
      {test yes no : Expr} (hstart : start.value = .keyword .ifWord) (htest : expr ts test)
      (hthen : thenWord.value = .keyword .thenWord) (hyes : expr ys yes)
      (helse : elseWord.value = .keyword .elseWord) (hno : expr ns no) :
      KeywordExpr (start :: (ts ++ thenWord :: (ys ++ elseWord :: ns)))
        (.condition (start.span.merge no.span) test yes no)
  | lambda {start arrow : Located Token} {ps bs : List (Located Token)} {param : Pattern}
      {body : Expr} (hstart : start.value = .backslash) (hparam : BasePattern ps param)
      (harrow : arrow.value = .arrow) (hbody : expr bs body) :
      KeywordExpr (start :: (ps ++ arrow :: bs)) (.lambda (start.span.merge body.span) param body)

/-- Operators of the table, each with an operand behind it, the last of which may be a keyword
expression. -/
inductive Operands : List (Located Token) → List (Waiting × Expr) → Prop where
  | nil : Operands [] []
  | application {t : Located Token} {symbol : String} {op : Operator}
      {ts us : List (Located Token)} {e : Expr} {more : List (Waiting × Expr)}
      (ht : t.value = .operator symbol) (hop : table.get? symbol = some op)
      (hoperand : Application expr ts e) (hmore : Operands us more) :
      Operands (t :: (ts ++ us)) ((⟨symbol, op, t.span⟩, e) :: more)
  | keyword {t : Located Token} {symbol : String} {op : Operator} {ts : List (Located Token)}
      {e : Expr} (ht : t.value = .operator symbol) (hop : table.get? symbol = some op)
      (hoperand : KeywordExpr expr ts e) :
      Operands (t :: ts) [(⟨symbol, op, t.span⟩, e)]

variable {table expr} in
/-- Each operator is a token. -/
theorem Operands.length_le {ts : List (Located Token)} {more : List (Waiting × Expr)}
    (h : Operands table expr ts more) : more.length ≤ ts.length := by
  induction h with
  | nil => exact Nat.le_refl _
  | application _ _ _ _ ih =>
    simp only [List.length_cons, List.length_append]
    omega
  | keyword =>
    simp only [List.length_cons, List.length_nil]
    omega

/-- An operator sequence, grouped as a valid tree says. -/
inductive OperatorSequence : List (Located Token) → Expr → Prop where
  | intro {ts us : List (Located Token)} {tree : OperatorTree} (hvalid : tree.Valid)
      (hfirst : Application expr ts tree.first) (hmore : Operands table expr us tree.more) :
      OperatorSequence (ts ++ us) tree.expr

end Parts

/-- An expression. -/
inductive IsExpr (table : OperatorTable) : List (Located Token) → Expr → Prop where
  | keyword {ts : List (Located Token)} {e : Expr} (h : KeywordExpr (IsExpr table) ts e) :
    IsExpr table ts e
  | sequence {ts : List (Located Token)} {e : Expr}
      (h : OperatorSequence table (IsExpr table) ts e) : IsExpr table ts e

/-! ### First tokens -/

section Begins

variable {table : OperatorTable} {expr : List (Located Token) → Expr → Prop}
  {ts : List (Located Token)} {e : Expr}

theorem BasePattern.begins {p : Pattern} (h : BasePattern ts p) :
    ∃ t us, ts = t :: us ∧ t.value.beginsPattern = true := by
  cases h with
  | bind ht | wildcard ht | integer ht | boolean ht | group ht | tuple ht | list ht =>
    exact ⟨_, _, rfl, by simp [ht, Token.beginsPattern, Token.beginsBase]⟩

theorem OpenPattern.begins {p : Pattern} (h : OpenPattern BasePattern ts p) :
    ∃ t us, ts = t :: us ∧ t.value.beginsPattern = true := by
  cases h with
  | base hbase => exact hbase.begins
  | cons hhead =>
    obtain ⟨t, us, rfl, ht⟩ := hhead.begins
    exact ⟨t, _, rfl, ht⟩

theorem BaseExpr.begins (h : BaseExpr expr ts e) :
    ∃ t us, ts = t :: us ∧ t.value.beginsBase = true := by
  cases h with
  | integer ht | boolean ht | identifier ht | group ht | tuple ht | list ht =>
    exact ⟨_, _, rfl, by simp [ht, Token.beginsBase]⟩

theorem Application.begins (h : Application expr ts e) :
    ∃ t us, ts = t :: us ∧ t.value.beginsBase = true := by
  induction h with
  | base hbase => exact hbase.begins
  | apply _ _ ih =>
    obtain ⟨t, us, rfl, ht⟩ := ih
    exact ⟨t, _, rfl, ht⟩

theorem KeywordExpr.begins (h : KeywordExpr expr ts e) :
    ∃ t us, ts = t :: us ∧ t.value ∈ [.keyword .letWord, .keyword .ifWord, .backslash] := by
  cases h with
  | bind ht | condition ht | lambda ht => exact ⟨_, _, rfl, by simp [ht]⟩

/-- No expression begins with a closing bracket. -/
theorem IsExpr.begins (h : IsExpr table ts e) :
    ∃ t us, ts = t :: us ∧ t.value ∉ [Token.parenRight, .bracketRight] := by
  cases h with
  | keyword h =>
    obtain ⟨t, us, rfl, ht⟩ := h.begins
    refine ⟨t, us, rfl, fun hmem => ?_⟩
    simp only [List.mem_cons, List.not_mem_nil, or_false] at ht hmem
    rcases ht with ht | ht | ht <;> simp [ht] at hmem
  | sequence h =>
    obtain ⟨-, hfirst, -⟩ := h
    obtain ⟨t, us, rfl, ht⟩ := hfirst.begins
    refine ⟨t, _, rfl, fun hmem => ?_⟩
    simp only [List.mem_cons, List.not_mem_nil, or_false] at hmem
    rcases hmem with hmem | hmem <;> simp [hmem, Token.beginsBase] at ht

/-- An expression that begins with no base expression is a keyword expression. -/
theorem IsExpr.keyword_of_head (h : IsExpr table ts e)
    (hhead : ∀ t ∈ ts.head?, t.value.beginsBase = false) : KeywordExpr (IsExpr table) ts e := by
  cases h with
  | keyword h => exact h
  | sequence h =>
    obtain ⟨-, hfirst, -⟩ := h
    obtain ⟨t, us, rfl, ht⟩ := hfirst.begins
    simp [hhead t rfl] at ht

end Begins

end CallByNeed.Grammar

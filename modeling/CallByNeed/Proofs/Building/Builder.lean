import CallByNeed.Proofs.Building.Combinators

/-!
# Reading node by node

`Arena.read` reads the whole tree of a text first and then adds its nodes.  A reader can also add
each node as soon as its parts have been read, so that it hands numbers from one step to the next
and never a tree.  This module reads expressions in that way (`Arena.build`).  A node is added
without a span and gets one right after; round brackets around a single expression give another
span to a node that is already there.  Nodes that were added before an error stay in the arena.
Where a number is looked up that has no node, the reader is out of step, as an operator is that
finds no operands.

The readers follow those of `Pattern.Parser` and `Expr.Parser` step by step, with the same fuel.
-/

namespace CallByNeed

/-- Readers that add nodes to an arena. -/
abbrev Builder (α : Type) :=
  EStateM Failure (TokenStream × Arena) α

namespace Builder

open CallByNeed.Parser (expect)

variable {α β : Type}

/-- Reads tokens without touching the arena. -/
def read (x : Parser α) : Builder α := fun (s, a) =>
  match x.run s with
  | .ok (v, s) => .ok v (s, a)
  | .error why => .error why (s, a)

/-! ### Nodes -/

/-- Adds a pattern without a span. -/
def addPattern (node : PatternNode) : Builder PatternId :=
  modifyGet fun (s, a) =>
    let (id, a) := a.pushPattern .unknown node
    (id, s, a)

/-- Adds an expression without a span. -/
def addExpr (node : ExprNode) : Builder ExprId :=
  modifyGet fun (s, a) =>
    let (id, a) := a.pushExpr .unknown node
    (id, s, a)

/-- Goes on with the arena if there is a node with the number. -/
def withNode (view : Arena → Option β) (use : Arena → β → α × Arena) : Builder α := fun (s, a) =>
  match view a with
  | some x =>
    let (v, a) := use a x
    .ok v (s, a)
  | none => .error .outOfStep (s, a)

/-- Gives a pattern a span. -/
def setPatternSpan (id : PatternId) (span : Span) : Builder Unit :=
  withNode (·.patternSpan? id) fun a _ => ((), a.respanPattern id span)

/-- Gives an expression a span. -/
def setSpan (id : ExprId) (span : Span) : Builder Unit :=
  withNode (·.exprSpan? id) fun a _ => ((), a.respanExpr id span)

/-- The span of a pattern. -/
def patternSpan (id : PatternId) : Builder Span :=
  withNode (·.patternSpan? id) fun a span => (span, a)

/-- The span of an expression. -/
def exprSpan (id : ExprId) : Builder Span :=
  withNode (·.exprSpan? id) fun a span => (span, a)

/-- Adds a pattern with its span. -/
def pattern (node : PatternNode) (span : Span) : Builder PatternId := do
  let id ← addPattern node
  setPatternSpan id span
  return id

/-- Adds an expression with its span. -/
def expr (node : ExprNode) (span : Span) : Builder ExprId := do
  let id ← addExpr node
  setSpan id span
  return id

/-! ### Items -/

/-- Items up to the token `close`, with commas between them; `first` when none has been read. -/
def commaItems (item : Builder α) (close : Token) : Nat → Bool → Builder (List α)
  | 0, _ => read .exhausted
  | fuel + 1, first => do
    if (← read .peek).value = close then return []
    else
      if !first then read (discard (expect .comma))
      let x ← item
      let xs ← commaItems item close fuel false
      return x :: xs

/-- Items between the tokens `opening` and `close`, and the span from bracket to bracket. -/
def delimited (fuel : Nat) (opening close : Token) (item : Builder α) :
    Builder (List α × Span) := do
  let left ← read (expect opening)
  let items ← commaItems item close fuel true
  let right ← read (expect close)
  return (items, left.span.merge right.span)

/-- Items up to the end of the innermost block; `first` when none has been read. -/
def blockItems (item : Builder α) (begins : Token → Bool) : Nat → Bool → Builder (List α)
  | 0, _ => read .exhausted
  | fuel + 1, first => do
    let t ← read .peek
    if t.value = .blockEnd then
      read (discard .advance)
      return []
    else if t.value = .blockDelim && !first then
      read (discard .advance)
      let x ← item
      let xs ← blockItems item begins fuel false
      return x :: xs
    else if first && begins t.value then
      let x ← item
      let xs ← blockItems item begins fuel false
      return x :: xs
    else if ← read .closeInnermost then return []
    else read (.failUnexpected "end of block" t)

/-- The items of a block. -/
def block (fuel : Nat) (begins : Token → Bool) (item : Builder α) : Builder (List α) := do
  read (discard (expect .blockBegin))
  blockItems item begins fuel true

/-! ### Patterns -/

/-- A pattern of one token. -/
def leafPattern (node : PatternNode) : Builder PatternId := do
  let t ← read .advance
  pattern node t.span

/-- Cells for the patterns `heads` in front of `tail`, the last one first. -/
def consPatterns (stop : Position) : List PatternId → PatternId → Builder PatternId
  | [], tail => return tail
  | head :: heads, tail => do
    let tail ← consPatterns stop heads tail
    let span ← patternSpan head
    pattern (.cons head tail) ⟨span.start, stop⟩

/-- The pattern that patterns in round brackets stand for. -/
def parenPatterns (span : Span) : List PatternId → Builder PatternId
  | [p] => do
    setPatternSpan p span
    return p
  | ps => pattern (.tuple ps) span

/-- The pattern that patterns in square brackets stand for. -/
def bracketPatterns (span : Span) (ps : List PatternId) : Builder PatternId := do
  let nil ← pattern .nil span
  consPatterns span.stop ps nil

/-- Further base patterns of an open pattern, each behind a colon. -/
def openMore (base : Builder PatternId) : Nat → Builder (List PatternId)
  | 0 => read .exhausted
  | fuel + 1 => do
    let t ← read .peek
    match t.value with
    | .operator symbol =>
      if symbol ≠ ":" then read (.fail (.operatorInPattern symbol t.span))
      else
        read (discard .advance)
        let p ← base
        let ps ← openMore base fuel
        return p :: ps
    | _ => return []

/-- An open pattern made of base patterns, the last of which is the tail. -/
def openPattern (fuel : Nat) (base : Builder PatternId) : Builder PatternId := do
  let first ← base
  let more ← openMore base fuel
  let last := (first :: more).getLast (by simp)
  let span ← patternSpan last
  consPatterns span.stop (first :: more).dropLast last

/-- A base pattern. -/
def basePattern : Nat → Builder PatternId
  | 0 => read .exhausted
  | fuel + 1 => do
    let t ← read .peek
    match t.value with
    | .identifier name => leafPattern (.bind name)
    | .underscore => leafPattern .wildcard
    | .integer value => leafPattern (.integer value)
    | .boolean value => leafPattern (.boolean value)
    | .parenLeft =>
      let (ps, span) ← delimited fuel .parenLeft .parenRight (openPattern fuel (basePattern fuel))
      parenPatterns span ps
    | .bracketLeft =>
      let (ps, span) ←
        delimited fuel .bracketLeft .bracketRight (openPattern fuel (basePattern fuel))
      bracketPatterns span ps
    | _ => read (.failUnexpected "pattern" t)

/-! ### Expressions -/

/-- An expression of one token. -/
def leaf (node : ExprNode) : Builder ExprId := do
  let t ← read .advance
  expr node t.span

/-- The expression that expressions in round brackets stand for. -/
def parens (span : Span) : List ExprId → Builder ExprId
  | [e] => do
    setSpan e span
    return e
  | es => expr (.tuple es) span

/-- Cells for the expressions `heads` in front of `tail`, the last one first. -/
def consExprs (stop : Position) : List ExprId → ExprId → Builder ExprId
  | [], tail => return tail
  | head :: heads, tail => do
    let tail ← consExprs stop heads tail
    let span ← exprSpan head
    expr (.cons head tail) ⟨span.start, stop⟩

/-- The list of the expressions in square brackets. -/
def brackets (span : Span) (es : List ExprId) : Builder ExprId := do
  let nil ← expr .nil span
  consExprs span.stop es nil

/-- A base expression. -/
def baseExpr (fuel : Nat) (whole : Builder ExprId) : Builder ExprId := do
  let t ← read .peek
  match t.value with
  | .integer value => leaf (.integer value)
  | .boolean value => leaf (.boolean value)
  | .identifier name => leaf (.identifier name)
  | .parenLeft =>
    let (es, span) ← delimited fuel .parenLeft .parenRight whole
    parens span es
  | .bracketLeft =>
    let (es, span) ← delimited fuel .bracketLeft .bracketRight whole
    brackets span es
  | _ => read (.failUnexpected "expression" t)

/-- Applies `func` to all base expressions that follow. -/
def arguments (base : Builder ExprId) : Nat → ExprId → Builder ExprId
  | 0, _ => read .exhausted
  | fuel + 1, func => do
    if (← read .peek).value.beginsBase then
      let arg ← base
      let left ← exprSpan func
      let right ← exprSpan arg
      let func ← expr (.apply func arg) (left.merge right)
      arguments base fuel func
    else return func

/-- A base expression applied to any number of base expressions. -/
def application (fuel : Nat) (whole : Builder ExprId) : Builder ExprId := do
  let func ← baseExpr fuel whole
  arguments (baseExpr fuel whole) fuel func

/-- Puts what an operator makes of its operands in their place. -/
def reduce (w : Waiting) : List ExprId → Builder (List ExprId)
  | right :: left :: operands => do
    let leftSpan ← exprSpan left
    let rightSpan ← exprSpan right
    let id ← expr (w.operator.combine.node left right) (leftSpan.merge rightSpan)
    return id :: operands
  | _ => throw .outOfStep

/-- Completes the operators on the stack that take their operands before the incoming one. -/
def reduceFor (symbol : String) (op : Operator) :
    List Waiting → List ExprId → Builder (List Waiting × List ExprId)
  | [], operands => return ([], operands)
  | top :: operators, operands =>
    match Sequence.takesFirst top symbol op with
    | .error e => throw (.error e)
    | .ok false => return (top :: operators, operands)
    | .ok true => do
      let operands ← reduce top operands
      reduceFor symbol op operators operands

/-- Completes all operators on the stack. -/
def close : List Waiting → List ExprId → Builder ExprId
  | [], [x] => return x
  | [], _ => throw .outOfStep
  | top :: operators, operands => do
    let operands ← reduce top operands
    close operators operands

/-- The rest of an operator sequence, with the operators and the operands that wait. -/
def sequenceMore (table : OperatorTable) (operandReader whole : Builder ExprId) :
    Nat → List Waiting → List ExprId → Builder ExprId
  | 0, _, _ => read .exhausted
  | fuel + 1, operators, operands => do
    let t ← read .peek
    match t.value with
    | .operator symbol =>
      match table.get? symbol with
      | none => read (.fail (.unknownOperator symbol t.span))
      | some op =>
        read (discard .advance)
        let (operators, operands) ← reduceFor symbol op operators operands
        let operators := ⟨symbol, op, t.span⟩ :: operators
        if (← read .peek).value.beginsBase then
          let operand ← operandReader
          sequenceMore table operandReader whole fuel operators (operand :: operands)
        else
          let operand ← whole
          close operators (operand :: operands)
    | _ => close operators operands

/-- An operator sequence. -/
def operatorSequence (table : OperatorTable) (fuel : Nat) (whole : Builder ExprId) :
    Builder ExprId := do
  let operand ← application fuel whole
  sequenceMore table (application fuel whole) whole fuel [] [operand]

/-- A `let`. -/
def letExpr (fuel : Nat) (whole : Builder ExprId) : Builder ExprId := do
  let start ← read (expect (.keyword .letWord))
  let pattern ← basePattern fuel
  read (discard (expect .equals))
  let value ← whole
  read (discard (expect (.keyword .inWord)))
  let body ← whole
  let stop ← exprSpan body
  expr (.bind pattern value body) (start.span.merge stop)

/-- An `if`. -/
def condition (whole : Builder ExprId) : Builder ExprId := do
  let start ← read (expect (.keyword .ifWord))
  let test ← whole
  read (discard (expect (.keyword .thenWord)))
  let yes ← whole
  read (discard (expect (.keyword .elseWord)))
  let no ← whole
  let stop ← exprSpan no
  expr (.condition test yes no) (start.span.merge stop)

/-- A function. -/
def lambda (fuel : Nat) (whole : Builder ExprId) : Builder ExprId := do
  let start ← read (expect .backslash)
  let param ← basePattern fuel
  read (discard (expect .arrow))
  let body ← whole
  let stop ← exprSpan body
  expr (.lambda param body) (start.span.merge stop)

/-- An option of a `case`. -/
def caseOption (fuel : Nat) (whole : Builder ExprId) : Builder (PatternId × ExprId) := do
  let pattern ← openPattern fuel (basePattern fuel)
  read (discard (expect .arrow))
  let body ← whole
  return (pattern, body)

/-- A `case`, which ends with the body of its last option, or with `of` if it has none. -/
def caseExpr (fuel : Nat) (whole : Builder ExprId) : Builder ExprId := do
  let start ← read (expect (.keyword .caseWord))
  let subject ← whole
  let ofToken ← read (expect (.keyword .ofWord))
  let options ← block fuel Token.beginsPattern (caseOption fuel whole)
  let stop ← match options.getLast? with
    | some (_, body) => exprSpan body
    | none => pure ofToken.span
  expr (.cases subject options) (start.span.merge stop)

/-- An expression. -/
def wholeExpr (table : OperatorTable) : Nat → Builder ExprId
  | 0 => read .exhausted
  | fuel + 1 => do
    let t ← read .peek
    match t.value with
    | .keyword .letWord => letExpr fuel (wholeExpr table fuel)
    | .keyword .ifWord => condition (wholeExpr table fuel)
    | .backslash => lambda fuel (wholeExpr table fuel)
    | .keyword .caseWord => caseExpr fuel (wholeExpr table fuel)
    | value =>
      if value.beginsBase then operatorSequence table fuel (wholeExpr table fuel)
      else read (.failUnexpected "expression" t)

/-- An expression that is the whole text. -/
def wholeText (table : OperatorTable) (fuel : Nat) : Builder ExprId := do
  let e ← wholeExpr table fuel
  read (discard (expect .eof))
  return e

end Builder

/-- Adds the tree of a text that is one expression, node by node. -/
def Arena.build (arena : Arena) (table : OperatorTable) (s : String) :
    Except ParseError ExprId × Arena :=
  let stream := TokenStream.ofString s
  match Builder.wholeText table (stream.size + 1) (stream, arena) with
  | .ok id (_, arena) => (.ok id, arena)
  | .error (.error e) (_, arena) => (.error e, arena)
  | .error _ (_, arena) => (.error (.unexpected "expression" ⟨.eof, .unknown⟩), arena)

end CallByNeed

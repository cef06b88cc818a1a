import CallByNeed.Expr.Sequence
import CallByNeed.Pattern.Parser

/-!
# Reading expressions

An expression is a `let`, an `if`, a function, a `case`, or an operator sequence.  The operands of
a sequence are applications, that is base expressions side by side; a base expression is a literal,
a name, or expressions in brackets, and round brackets around a single expression only group.  The
last operand of a sequence may also be one of the four keyword expressions, which then reaches to
the end of the sequence.

Each reader of a part takes the reader `expr` of whole expressions as an argument, and
`Expr.Parser.expr` ties the knot: with `fuel + 1` to spend it hands the reader with `fuel` to its
parts.  `Expr.parse` supplies fuel for every text.
-/

namespace CallByNeed.Expr

/-- The expression that expressions in round brackets stand for: one only groups. -/
def ofParens (span : Span) : List Expr → Expr
  | [e] => e.withSpan span
  | es => .tuple span es

/-- The list of the expressions in square brackets.  Each cell reaches from its head to the closing
bracket. -/
def ofBrackets (span : Span) (es : List Expr) : Expr :=
  es.foldr (fun head tail => .cons ⟨head.span.start, span.stop⟩ head tail) (.nil span)

/-- A function applied to one more argument. -/
def applyTo (func arg : Expr) : Expr :=
  .apply (func.span.merge arg.span) func arg

namespace Parser

open CallByNeed.Parser

/-- An expression of one token. -/
def leaf (e : Span → Expr) : Parser Expr := do
  return e (← advance).span

/-- A base expression. -/
def baseExpr (fuel : Nat) (expr : Parser Expr) : Parser Expr := do
  let t ← peek
  match t.value with
  | .integer value => leaf (.integer · value)
  | .boolean value => leaf (.boolean · value)
  | .identifier name => leaf (.identifier · name)
  | .parenLeft =>
    let (es, span) ← delimited fuel .parenLeft .parenRight expr
    return ofParens span es
  | .bracketLeft =>
    let (es, span) ← delimited fuel .bracketLeft .bracketRight expr
    return ofBrackets span es
  | _ => failUnexpected "expression" t

/-- Applies `func` to all base expressions that follow. -/
def arguments (base : Parser Expr) : Nat → Expr → Parser Expr
  | 0, _ => exhausted
  | fuel + 1, func => do
    if (← peek).value.beginsBase then
      let arg ← base
      arguments base fuel (func.applyTo arg)
    else return func

/-- A base expression applied to any number of base expressions. -/
def application (fuel : Nat) (expr : Parser Expr) : Parser Expr := do
  let func ← baseExpr fuel expr
  arguments (baseExpr fuel expr) fuel func

/-- The rest of an operator sequence, with the operators and the operands that wait. -/
def sequenceMore (table : OperatorTable) (operandParser expr : Parser Expr) :
    Nat → List Waiting → List Expr → Parser Expr
  | 0, _, _ => exhausted
  | fuel + 1, operators, operands => do
    let t ← peek
    match t.value with
    | .operator symbol =>
      match table.get? symbol with
      | none => fail (.unknownOperator symbol t.span)
      | some op =>
        discard advance
        let (operators, operands) ← ofExcept
          (Sequence.reduceFor Waiting.complete symbol op operators operands)
        let operators := ⟨symbol, op, t.span⟩ :: operators
        if (← peek).value.beginsBase then
          let operand ← operandParser
          sequenceMore table operandParser expr fuel operators (operand :: operands)
        else
          -- a keyword expression ends the sequence, as in `1 + if c then 2 else 3`
          let operand ← expr
          ofExcept (Sequence.close Waiting.complete operators (operand :: operands))
    | _ => ofExcept (Sequence.close Waiting.complete operators operands)

/-- An operator sequence. -/
def operatorSequence (table : OperatorTable) (fuel : Nat) (expr : Parser Expr) :
    Parser Expr := do
  let operand ← application fuel expr
  sequenceMore table (application fuel expr) expr fuel [] [operand]

/-- A `let`. -/
def letExpr (fuel : Nat) (expr : Parser Expr) : Parser Expr := do
  let start ← expect (.keyword .letWord)
  let pattern ← Pattern.Parser.basePattern fuel
  discard <| expect .equals
  let value ← expr
  discard <| expect (.keyword .inWord)
  let body ← expr
  return .bind (start.span.merge body.span) pattern value body

/-- An `if`. -/
def condition (expr : Parser Expr) : Parser Expr := do
  let start ← expect (.keyword .ifWord)
  let test ← expr
  discard <| expect (.keyword .thenWord)
  let yes ← expr
  discard <| expect (.keyword .elseWord)
  let no ← expr
  return .condition (start.span.merge no.span) test yes no

/-- A function. -/
def lambda (fuel : Nat) (expr : Parser Expr) : Parser Expr := do
  let start ← expect .backslash
  let param ← Pattern.Parser.basePattern fuel
  discard <| expect .arrow
  let body ← expr
  return .lambda (start.span.merge body.span) param body

/-- An option of a `case`. -/
def caseOption (fuel : Nat) (expr : Parser Expr) : Parser (Pattern × Expr) := do
  let pattern ← Pattern.Parser.openPattern fuel (Pattern.Parser.basePattern fuel)
  discard <| expect .arrow
  let body ← expr
  return (pattern, body)

/-- A `case`, which ends with the body of its last option, or with `of` if it has none. -/
def caseExpr (fuel : Nat) (expr : Parser Expr) : Parser Expr := do
  let start ← expect (.keyword .caseWord)
  let subject ← expr
  let ofToken ← expect (.keyword .ofWord)
  let options ← block fuel Token.beginsPattern (caseOption fuel expr)
  let stop := match options.getLast? with
    | some (_, body) => body.span
    | none => ofToken.span
  return .cases (start.span.merge stop) subject options

/-- An expression. -/
def expr (table : OperatorTable) : Nat → Parser Expr
  | 0 => exhausted
  | fuel + 1 => do
    let t ← peek
    match t.value with
    | .keyword .letWord => letExpr fuel (expr table fuel)
    | .keyword .ifWord => condition (expr table fuel)
    | .backslash => lambda fuel (expr table fuel)
    | .keyword .caseWord => caseExpr fuel (expr table fuel)
    | value =>
      if value.beginsBase then operatorSequence table fuel (expr table fuel)
      else failUnexpected "expression" t

/-- An expression that is the whole text. -/
def whole (table : OperatorTable) (fuel : Nat) : Parser Expr := do
  let e ← expr table fuel
  discard <| expect .eof
  return e

end Parser

/-- Reads a text that is one expression, with the operators of `table`.  Every level of nesting and
every repetition takes a token, so fuel for one more than the stream holds lasts to the end. -/
def parseWith (table : OperatorTable) (s : String) : Except ParseError Expr :=
  let stream := TokenStream.ofString s
  match (Parser.whole table (stream.size + 1)).run stream with
  | .ok (e, _) => .ok e
  | .error (.error e) => .error e
  | .error _ => .error (.unexpected "expression" ⟨.eof, .unknown⟩)

/-- Reads a text that is one expression, with the operators of the language. -/
def parse (s : String) : Except ParseError Expr :=
  parseWith .standard s

end CallByNeed.Expr

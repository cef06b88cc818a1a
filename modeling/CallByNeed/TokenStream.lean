import CallByNeed.Layout
import CallByNeed.Operator

/-!
# Token streams and parsers

A token stream is a layout of which the parser may look one token ahead.  A parser is a program that
looks at the next token, takes it, or closes the innermost block of the layout, and goes on with the
outcome; `Parser.run` performs it on a stream.  It yields a value, or it fails with an error of the
text, or because its fuel is used up: a parser that nests or repeats is given as fuel a bound on the
tokens that are left, and every nested or repeated step takes a token.

A program says which of its parts reads the items of a block (`Parser.within`).  A run does not
depend on that, but it makes known how many blocks are being read at each place of a run.

The parsers of this module know nothing about the grammar.  `delimited` reads items between
brackets and `block` the items of an indented block; both take the parser of a single item as an
argument.
-/

namespace CallByNeed

/-- What can be wrong with a text. -/
inductive ParseError where
  | lexical (error : LexError)
  /-- Another token was expected here, or a token that starts something of the kind. -/
  | unexpected (expected : String) (found : Located Token)
  | unknownOperator (symbol : String) (span : Span)
  /-- An operator other than that of list cells stands in a pattern. -/
  | operatorInPattern (symbol : String) (span : Span)
  /-- Two operators of one precedence follow each other but group differently. -/
  | mixedAssociativity (left : String) (leftAssoc : Associativity) (right : String)
      (rightAssoc : Associativity) (precedence : Nat) (span : Span)
  /-- Two operators of one precedence that do not group follow each other. -/
  | nonAssociative (left right : String) (span : Span)
deriving DecidableEq, Repr

namespace ParseError

/-- Where the error is.  A conflict of operators is at the left one. -/
def span : ParseError → Span
  | lexical error => error.span
  | unexpected _ found => found.span
  | unknownOperator _ span | operatorInPattern _ span | mixedAssociativity _ _ _ _ _ span
  | nonAssociative _ _ span => span

/-- The error in words. -/
def message : ParseError → String
  | lexical error => error.message
  | unexpected expected found => "expected " ++ expected ++ " but got '" ++ found.value.text ++ "'"
  | unknownOperator symbol _ => "unknown operator '" ++ symbol ++ "'"
  | operatorInPattern symbol _ => "unexpected operator '" ++ symbol ++ "' in pattern"
  | mixedAssociativity left leftAssoc right rightAssoc precedence _ =>
    "cannot mix operators '" ++ left ++ "' (" ++ leftAssoc.text ++ " " ++ toString precedence ++
      ") and '" ++ right ++ "' (" ++ rightAssoc.text ++ " " ++ toString precedence ++ ")"
  | nonAssociative left right _ =>
    "cannot mix non-associative operators '" ++ left ++ "' and '" ++ right ++ "'"

/-- The text ended before the expression did, so more text could still make it valid. -/
def isIncomplete : ParseError → Bool
  | unexpected _ found => found.value = .eof
  | _ => false

end ParseError

/-- A layout with at most one token looked at and not yet taken. -/
structure TokenStream where
  layout : Layout
  lookahead : Option (Located Token)
deriving DecidableEq, Repr

namespace TokenStream

/-- The stream of a text. -/
def ofString (s : String) : TokenStream :=
  ⟨.ofString s, none⟩

/-- A bound for the number of tokens up to the end of the text. -/
def size (s : TokenStream) : Nat :=
  s.layout.size + s.lookahead.toList.countP Layout.isInner

/-- Takes the next token off the layout. -/
def pull (s : TokenStream) : Except LexError (Located Token × TokenStream) :=
  match s.layout.next with
  | (.ok t, layout) => .ok (t, { s with layout })
  | (.error e, _) => .error e

/-- Looks at the next token without taking it. -/
def peek (s : TokenStream) : Except LexError (Located Token × TokenStream) :=
  match s.lookahead with
  | some t => .ok (t, s)
  | none => s.pull.map fun (t, s) => (t, { s with lookahead := some t })

/-- Takes the next token. -/
def advance (s : TokenStream) : Except LexError (Located Token × TokenStream) :=
  match s.lookahead with
  | some t => .ok (t, { s with lookahead := none })
  | none => s.pull

/-- Closes the innermost block of the layout, and tells whether there was one. -/
def closeInnermost (s : TokenStream) : Bool × TokenStream :=
  let (closed, layout) := s.layout.closeInnermost
  (closed, { s with layout })

end TokenStream

/-- Why a parser yields no value. -/
inductive Failure where
  /-- The fuel was used up. -/
  | exhausted
  /-- A step did not find what earlier ones should have left: an operator found no operands, or a
  number no node. -/
  | outOfStep
  | error (e : ParseError)
deriving DecidableEq, Repr

/-- Parsers of values of a type. -/
inductive Parser : Type → Type 1 where
  | done {α : Type} (a : α) : Parser α
  | stop {α : Type} (why : Failure) : Parser α
  /-- Looks at the next token without taking it. -/
  | peek : Parser (Located Token)
  /-- Takes the next token. -/
  | advance : Parser (Located Token)
  /-- Closes the innermost block of the layout, and tells whether there was one. -/
  | closeInnermost : Parser Bool
  /-- Reads with `x` the items of a block, behind its first token. -/
  | within {α : Type} (x : Parser α) : Parser α
  /-- Goes on with what `f` makes of the value of `x`. -/
  | andThen {α β : Type} (x : Parser α) (f : α → Parser β) : Parser β

namespace Parser

instance : Monad Parser where
  pure := done
  bind := andThen

/-- An operation on the stream as a step of a parser. -/
def ofStream {α : Type} : Except LexError α → Except Failure α
  | .ok a => .ok a
  | .error e => .error (.error (.lexical e))

/-- Performs a parser on a stream. -/
def run {α : Type} : Parser α → TokenStream → Except Failure (α × TokenStream)
  | done a, s => .ok (a, s)
  | stop why, _ => .error why
  | peek, s => ofStream s.peek
  | advance, s => ofStream s.advance
  | closeInnermost, s => .ok s.closeInnermost
  | within x, s => x.run s
  | andThen x f, s =>
    match x.run s with
    | .ok (a, s) => (f a).run s
    | .error why => .error why

/-- Fails with an error. -/
def fail {α : Type} (e : ParseError) : Parser α :=
  stop (.error e)

/-- Fails because `token` is not what was expected. -/
def failUnexpected {α : Type} (expected : String) (token : Located Token) : Parser α :=
  fail (.unexpected expected token)

/-- Fails because the fuel is used up. -/
def exhausted {α : Type} : Parser α :=
  stop .exhausted

/-- A result that needs no tokens. -/
def ofExcept {α : Type} : Except Failure α → Parser α
  | .ok a => done a
  | .error why => stop why

/-- Takes the next token, which has to be `expected`. -/
def expect (expected : Token) : Parser (Located Token) := do
  let t ← advance
  if t.value = expected then return t
  else failUnexpected ("'" ++ expected.text ++ "'") t

/-- Items up to the token `close`, with commas between them; `first` when none has been read. -/
def commaItems {α : Type} (item : Parser α) (close : Token) : Nat → Bool → Parser (List α)
  | 0, _ => exhausted
  | fuel + 1, first => do
    if (← peek).value = close then return []
    else
      if !first then discard <| expect .comma
      let x ← item
      let xs ← commaItems item close fuel false
      return x :: xs

/-- Items between the tokens `opening` and `close`, with commas between them, and the span from
bracket to bracket. -/
def delimited {α : Type} (fuel : Nat) (opening close : Token) (item : Parser α) :
    Parser (List α × Span) := do
  let left ← expect opening
  let items ← commaItems item close fuel true
  let right ← expect close
  return (items, left.span.merge right.span)

/-- Items up to the end of the innermost block, with delimiters between them; `first` when none
has been read.  A token with which the block can neither go on nor end closes it. -/
def blockItems {α : Type} (item : Parser α) (begins : Token → Bool) :
    Nat → Bool → Parser (List α)
  | 0, _ => exhausted
  | fuel + 1, first => do
    let t ← peek
    if t.value = .blockEnd then
      discard advance
      return []
    else if t.value = .blockDelim && !first then
      discard advance
      let x ← item
      let xs ← blockItems item begins fuel false
      return x :: xs
    else if first && begins t.value then
      let x ← item
      let xs ← blockItems item begins fuel false
      return x :: xs
    else if ← closeInnermost then return []
    else failUnexpected "end of block" t

/-- The items of a block.  Its first token satisfies `begins`, unless the block is empty. -/
def block {α : Type} (fuel : Nat) (begins : Token → Bool) (item : Parser α) :
    Parser (List α) := do
  discard <| expect .blockBegin
  within (blockItems item begins fuel true)

end Parser

end CallByNeed

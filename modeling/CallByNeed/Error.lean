import CallByNeed.Text.Lines
import CallByNeed.TokenStream

/-!
# Errors and their reports

What can go wrong with a program is found in its characters, in its structure or while it is
evaluated, and always at a place of its text.  A report gives the place and the message in one
line and then quotes the lines of the place with carets under the part that is meant:

```text
main.fun:1:3: parse error: unknown operator '+++'
     |
   1 | 1 +++ 2
     |   ^^^
```

The quotation is left out when the place is the end of an incomplete text or is unknown.
-/

namespace CallByNeed

/-- What can go wrong while a program is evaluated. -/
inductive EvalError where
  | unboundVariable (name : String) (span : Span)
  /-- A value of this kind was applied. -/
  | notAFunction (found : String) (span : Span)
  | typeMismatch (expected found : String) (span : Span)
  /-- No option of a `case` matches. -/
  | nonExhaustive (span : Span)
  /-- The only pattern of a `let` or a function does not match. -/
  | patternMismatch (place : String) (span : Span)
  | duplicateBinding (name : String) (span : Span)
  | overflow (span : Span)
  | negativeExponent (span : Span)
  /-- A suspended expression was demanded while it was being evaluated. -/
  | infiniteLoop (span : Span)
  | recursionLimit (limit : Nat) (span : Span)
  /-- The stack for the evaluation could not be reserved. -/
  | stackUnavailable (size : Nat)
  /-- A list was longer than a comparison or a printer without limit walks. -/
  | spineLimit (limit : Nat) (span : Span)
deriving DecidableEq, Repr

namespace EvalError

/-- Where the error is. -/
def span : EvalError → Span
  | unboundVariable _ span | notAFunction _ span | typeMismatch _ _ span | nonExhaustive span
  | patternMismatch _ span | duplicateBinding _ span | overflow span | negativeExponent span
  | infiniteLoop span | recursionLimit _ span | spineLimit _ span => span
  | stackUnavailable _ => .unknown

/-- The error in words. -/
def message : EvalError → String
  | unboundVariable name _ => "unbound variable '" ++ name ++ "'"
  | notAFunction found _ => "cannot apply a value of type " ++ found
  | typeMismatch expected found _ => "expected " ++ expected ++ " but found " ++ found
  | nonExhaustive _ => "non-exhaustive patterns in case"
  | patternMismatch place _ => "pattern match failed in " ++ place
  | duplicateBinding name _ => "name '" ++ name ++ "' is bound more than once in a pattern"
  | overflow _ => "integer overflow"
  | negativeExponent _ => "negative exponent"
  | infiniteLoop _ => "infinite loop"
  | recursionLimit limit _ => "recursion limit of " ++ toString limit ++ " exceeded"
  | stackUnavailable size =>
    "cannot reserve " ++ toString size ++ " bytes of stack for evaluation"
  | spineLimit limit _ => "list of more than " ++ toString limit ++ " cells"

end EvalError

/-- What can go wrong with a program. -/
inductive Error where
  | parse (error : ParseError)
  | eval (error : EvalError)
deriving DecidableEq, Repr

namespace Error

/-- The stage at which an error is found. -/
def kind : Error → String
  | parse (.lexical _) => "lex error"
  | parse _ => "parse error"
  | eval _ => "evaluation error"

/-- Where the error is. -/
def span : Error → Span
  | parse error => error.span
  | eval error => error.span

/-- The error in words. -/
def message : Error → String
  | parse error => error.message
  | eval error => error.message

/-- More text could still make the program valid. -/
def isIncomplete : Error → Bool
  | parse error => error.isIncomplete
  | eval _ => false

/-! ### Reports -/

/-- The first line of a report. -/
def header (e : Error) (name : String) : String :=
  let place := if e.span.start.line = 0 then name else name ++ ":" ++ e.span.text
  place ++ ": " ++ e.kind ++ ": " ++ e.message ++ "\n"

/-- `n` copies of a character. -/
def copies (n : Nat) (c : Char) : String :=
  String.ofList (List.replicate n c)

/-- A line number, right-aligned in four columns. -/
def lineNumber (n : Nat) : String :=
  copies (4 - (toString n).length) ' ' ++ toString n

/-- A quoted source line. -/
def quotedLine (n : Nat) (line : String) : String :=
  lineNumber n ++ " | " ++ line ++ "\n"

/-- A line of carets under columns `first` to `last` of the line above it. -/
def caretLine (first last : Nat) : String :=
  "     | " ++ copies (first - 1) ' ' ++ copies (last + 1 - first) '^' ++ "\n"

/-- The columns of line `n`, which has `length` characters, that a span of several lines covers. -/
def coveredColumns (span : Span) (n length : Nat) : Nat × Nat :=
  if n = span.start.line then (span.start.column, max length span.start.column)
  else if n = span.stop.line then (1, span.stop.column)
  else (1, length)

/-- The quoted lines from number `n` on, carets under each. -/
def quotedLines (span : Span) : Nat → List String → String
  | _, [] => ""
  | n, line :: lines =>
    let (first, last) := coveredColumns span n line.length
    quotedLine n line ++ caretLine first last ++ quotedLines span (n + 1) lines

/-- The quotation of the lines that a span covers, as far as the source has them. -/
def excerpt (span : Span) (source : String) : String :=
  let n := span.start.line
  let lines := ((Text.lines source).drop (n - 1)).take (span.stop.line - n + 1)
  match lines with
  | [] => ""
  | [line] =>
    "     | \n" ++ quotedLine n line ++
      caretLine span.start.column (max span.stop.column span.start.column)
  | lines => "     | \n" ++ quotedLines span n lines

/-- The report of an error in the text `source`, which goes by the name `name`. -/
def report (e : Error) (name source : String) : String :=
  let quotation :=
    if e.span.start.line > 0 && !e.isIncomplete then excerpt e.span source else ""
  e.header name ++ quotation

end Error

end CallByNeed

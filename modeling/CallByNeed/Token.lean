import CallByNeed.Text.Numeral
import CallByNeed.Text.Quoted

/-!
# Tokens

A token is what the lexer reads off the text, or one of the three block tokens that the layout
adds to mark indentation.  The spelling of a token decides which token it is: fixed symbols and
keywords come from tables, a run of operator characters is an operator, a run of digits an
integer, and any other word a name.  `Token.ofLexeme` is that reading, and it looks at nothing but
the spelling.
-/

namespace CallByNeed

/-- The reserved words other than the two truth values. -/
inductive Keyword where
  | letWord
  | inWord
  | ifWord
  | thenWord
  | elseWord
  | caseWord
  | ofWord
deriving DecidableEq, Repr

/-- The spelling of a reserved word. -/
def Keyword.text : Keyword → String
  | letWord => "let"
  | inWord => "in"
  | ifWord => "if"
  | thenWord => "then"
  | elseWord => "else"
  | caseWord => "case"
  | ofWord => "of"

/-- A token.  Integers carry the value of the literal, names and operators their spelling. -/
inductive Token where
  | bracketLeft
  | bracketRight
  | comma
  | equals
  | parenLeft
  | parenRight
  | arrow
  | backslash
  | underscore
  | pipe
  | boolean (value : Bool)
  | integer (value : Nat)
  | identifier (name : String)
  | operator (symbol : String)
  | keyword (word : Keyword)
  | newline
  /-- A block starts with the next token. -/
  | blockBegin
  /-- The next item of the innermost block starts with the next token. -/
  | blockDelim
  /-- The innermost block has ended. -/
  | blockEnd
  | eof
deriving DecidableEq, Repr

namespace Token

/-- How an error message names a token. -/
def text : Token → String
  | bracketLeft => "["
  | bracketRight => "]"
  | comma => ","
  | equals => "="
  | parenLeft => "("
  | parenRight => ")"
  | arrow => "->"
  | backslash => "\\"
  | underscore => "_"
  | pipe => "|"
  | boolean value => toString value
  | integer value => toString value
  | identifier name => name
  | operator symbol => "(" ++ symbol ++ ")"
  | keyword word => word.text
  | newline => "newline"
  | blockBegin => "start of block"
  | blockDelim => "next block item"
  | blockEnd => "end of block"
  | eof => "EOF"

/-- The name of a token's kind in a listing. -/
def kindName : Token → String
  | bracketLeft => "BracketLeft"
  | bracketRight => "BracketRight"
  | comma => "Comma"
  | equals => "Equal"
  | parenLeft => "ParenLeft"
  | parenRight => "ParenRight"
  | arrow => "HyphenGreaterThan"
  | backslash => "Backslash"
  | underscore => "Underscore"
  | pipe => "Pipe"
  | boolean _ => "Boolean"
  | integer _ => "Integer"
  | identifier _ => "Identifier"
  | operator _ => "Operator"
  | keyword .letWord => "Let"
  | keyword .inWord => "In"
  | keyword .ifWord => "If"
  | keyword .thenWord => "Then"
  | keyword .elseWord => "Else"
  | keyword .caseWord => "Case"
  | keyword .ofWord => "Of"
  | newline => "Newline"
  | blockBegin => "BlockBegin"
  | blockDelim => "BlockDelim"
  | blockEnd => "BlockEnd"
  | eof => "Eof"

/-- A token in a listing: its kind, followed by what it carries in round brackets. -/
def listing (t : Token) : String :=
  match t with
  | boolean value => t.kindName ++ "(" ++ toString value ++ ")"
  | integer value => t.kindName ++ "(" ++ toString value ++ ")"
  | identifier name => t.kindName ++ "(" ++ Text.quoted name ++ ")"
  | operator symbol => t.kindName ++ "(" ++ Text.quoted symbol ++ ")"
  | _ => t.kindName

/-- Tokens after which the layout opens a block. -/
def opensBlock : Token → Bool
  | keyword .ofWord => true
  | _ => false

/-- Tokens with which a base expression starts. -/
def beginsBase : Token → Bool
  | integer _ | boolean _ | identifier _ | parenLeft | bracketLeft => true
  | _ => false

/-- Tokens with which a pattern starts. -/
def beginsPattern (t : Token) : Bool :=
  t.beginsBase || t = underscore

/-! ### Reading a token off its spelling -/

/-- The spellings with a fixed meaning that are made of operator characters and brackets. -/
def symbols : List (String × Token) :=
  [("->", arrow), ("(", parenLeft), (")", parenRight), (",", comma), ("=", equals),
   ("[", bracketLeft), ("]", bracketRight), ("\\", backslash), ("|", pipe)]

/-- The words with a fixed meaning. -/
def words : List (String × Token) :=
  [("let", keyword .letWord), ("in", keyword .inWord), ("if", keyword .ifWord),
   ("then", keyword .thenWord), ("else", keyword .elseWord), ("case", keyword .caseWord),
   ("of", keyword .ofWord), ("true", boolean true), ("false", boolean false),
   ("_", underscore)]

/-- The characters that operators are made of. -/
def isOperatorChar (c : Char) : Bool :=
  c ∈ ['!', '#', '$', '%', '&', '*', '+', '-', '.', '/', ':', '<', '=', '>', '?', '@', '^', '|',
    '~']

/-- The characters that are tokens on their own. -/
def isBracketChar (c : Char) : Bool :=
  c ∈ ['(', ')', ',', '[', ']', '\\']

/-- A name starts with a letter or an underscore. -/
def startsWord (c : Char) : Bool :=
  Text.isLetter c || c = '_'

/-- A name goes on with letters, numerals, underscores and apostrophes. -/
def continuesWord (c : Char) : Bool :=
  Text.isAlphanumeric c || c = '_' || c = '\''

/-- The largest integer literal, `2 ^ 63 - 1`. -/
def maxInteger : Nat :=
  9223372036854775807

/-- The number that a run of decimal digits denotes. -/
def digitsValue (digits : List Char) : Nat :=
  digits.foldl (fun n d => 10 * n + (d.toNat - '0'.toNat)) 0

/-- The spelling of the token at the beginning of `cs`, as long as its characters allow: a run of
operator characters, a single bracket, a run of digits or a word.  It is empty if no token starts
with the first character. -/
def lexeme : List Char → List Char
  | [] => []
  | c :: cs =>
    if isOperatorChar c then c :: cs.takeWhile isOperatorChar
    else if isBracketChar c then [c]
    else if c.isDigit then c :: cs.takeWhile Char.isDigit
    else if startsWord c then c :: cs.takeWhile continuesWord
    else []

/-- The token with the given spelling, `none` for an integer literal that is out of range. -/
def ofLexeme (spelling : List Char) : Option Token :=
  let name := String.ofList spelling
  match (symbols ++ words).lookup name, spelling with
  | some t, _ => some t
  | none, [] => some (identifier name)
  | none, c :: _ =>
    if isOperatorChar c then some (operator name)
    else if c.isDigit then
      let n := digitsValue spelling
      if n ≤ maxInteger then some (integer n) else none
    else some (identifier name)

/-- **A spelling is a beginning of the text.** -/
theorem lexeme_append_drop (cs : List Char) :
    lexeme cs ++ cs.drop (lexeme cs).length = cs := by
  have take (p : Char → Bool) (l : List Char) :
      l.takeWhile p ++ l.drop (l.takeWhile p).length = l := by
    induction l with
    | nil => rfl
    | cons a l ih => by_cases h : p a <;> simp [h, ih]
  cases cs with
  | nil => rfl
  | cons c cs =>
    simp only [lexeme]
    repeat' split
    all_goals simp [take]

end Token

end CallByNeed

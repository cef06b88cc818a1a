import CallByNeed.TokenStream

/-!
# Reading patterns

A base pattern is a name, an underscore, a literal, or patterns in brackets; round brackets around
a single pattern only group.  Between brackets and in front of an arrow a pattern is open: base
patterns with colons between them, the last of which matches the tail.
-/

namespace CallByNeed.Pattern

/-- Cells for the patterns `heads` in front of `tail`, each from its head to the place `stop`. -/
def consAll (stop : Position) (heads : List Pattern) (tail : Pattern) : Pattern :=
  heads.foldr (fun head tail => .cons ⟨head.span.start, stop⟩ head tail) tail

/-- The pattern that patterns in round brackets stand for: one only groups. -/
def ofParens (span : Span) : List Pattern → Pattern
  | [p] => p.withSpan span
  | ps => .tuple span ps

/-- The pattern that patterns in square brackets stand for. -/
def ofBrackets (span : Span) (ps : List Pattern) : Pattern :=
  consAll span.stop ps (.nil span)

namespace Parser

open CallByNeed.Parser

/-- Further base patterns of an open pattern, each behind a colon. -/
def openMore (base : Parser Pattern) : Nat → Parser (List Pattern)
  | 0 => exhausted
  | fuel + 1 => do
    let t ← peek
    match t.value with
    | .operator symbol =>
      if symbol ≠ ":" then fail (.operatorInPattern symbol t.span)
      else
        discard advance
        let p ← base
        let ps ← openMore base fuel
        return p :: ps
    | _ => return []

/-- The cells of an open pattern, the last of its base patterns being the tail. -/
def chain (first : Pattern) (more : List Pattern) : Pattern :=
  let last := (first :: more).getLast (by simp)
  consAll last.span.stop (first :: more).dropLast last

/-- An open pattern made of base patterns. -/
def openPattern (fuel : Nat) (base : Parser Pattern) : Parser Pattern := do
  let first ← base
  let more ← openMore base fuel
  return chain first more

/-- A pattern of one token. -/
def leaf (p : Span → Pattern) : Parser Pattern := do
  return p (← advance).span

/-- A base pattern. -/
def basePattern : Nat → Parser Pattern
  | 0 => exhausted
  | fuel + 1 => do
    let t ← peek
    match t.value with
    | .identifier name => leaf (.bind · name)
    | .underscore => leaf .wildcard
    | .integer value => leaf (.integer · value)
    | .boolean value => leaf (.boolean · value)
    | .parenLeft =>
      let (ps, span) ← delimited fuel .parenLeft .parenRight (openPattern fuel (basePattern fuel))
      return ofParens span ps
    | .bracketLeft =>
      let (ps, span) ←
        delimited fuel .bracketLeft .bracketRight (openPattern fuel (basePattern fuel))
      return ofBrackets span ps
    | _ => failUnexpected "pattern" t

end Parser

end CallByNeed.Pattern

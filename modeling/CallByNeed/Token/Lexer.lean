import CallByNeed.Source
import CallByNeed.Text.Blank
import CallByNeed.Token

/-!
# Reading tokens

A cursor is a place in a text together with the characters that are still to be read.  One step,
`Cursor.next`, passes the gap in front of the cursor, then reads one token:

* a gap is a run of blanks on one line, followed by at most one comment, which runs from two or
  more dashes to the end of the line;
* a newline is a token of its own, since the layout needs it, and the end of the text is one too;
* any other token is as long as its characters allow.

A character with which no token starts is an error that leaves the cursor in front of it.  An
integer literal out of range is an error too, but the cursor moves behind its digits.

Every token but the end of the text makes the remaining text shorter (`Cursor.length_next_lt`),
which is why `Cursor.tokens` ends.
-/

namespace CallByNeed

/-- What can be wrong with the characters of a text. -/
inductive LexError where
  /-- No token starts with this character. -/
  | invalidToken (c : Char) (span : Span)
  /-- The digits denote a number that is too large. -/
  | invalidInteger (digits : String) (span : Span)
deriving DecidableEq, Repr

namespace LexError

/-- Where the error is. -/
def span : LexError → Span
  | invalidToken _ span | invalidInteger _ span => span

/-- The error in words. -/
def message : LexError → String
  | invalidToken c _ => "unexpected character '" ++ c.toString ++ "'"
  | invalidInteger digits _ => "integer literal '" ++ digits ++ "' is out of range"

end LexError

/-- The characters that are still to be read, and the position of the first of them. -/
structure Cursor where
  rest : List Char
  position : Position
deriving DecidableEq, Repr

namespace Cursor

/-- The cursor at the beginning of a text. -/
def ofString (s : String) : Cursor :=
  ⟨s.toList, .start⟩

/-- Moves behind the next `n` characters. -/
def skip (c : Cursor) (n : Nat) : Cursor :=
  ⟨c.rest.drop n, c.position.advance (c.rest.take n)⟩

/-- Moves behind the longest run of characters that satisfy `p`. -/
def skipWhile (c : Cursor) (p : Char → Bool) : Cursor :=
  c.skip (c.rest.takeWhile p).length

/-- Blanks that stay on the line. -/
def isInlineBlank (c : Char) : Bool :=
  Text.isBlank c && c != '\n'

/-- A comment starts here: the operator characters at the beginning are two or more dashes and
nothing else. -/
def startsComment (cs : List Char) : Bool :=
  let run := cs.takeWhile Token.isOperatorChar
  2 ≤ run.length && run.all (· == '-')

/-- Moves behind the blanks and the comment in front of the next token. -/
def skipGap (c : Cursor) : Cursor :=
  let c := c.skipWhile isInlineBlank
  if startsComment c.rest then c.skipWhile (· != '\n') else c

/-- Reads the token at the cursor, which stands behind a gap. -/
def token (c : Cursor) : Except LexError (Located Token) × Cursor :=
  match c.rest with
  | [] => (.ok ⟨.eof, .point c.position⟩, c)
  | ch :: _ =>
    if ch = '\n' then (.ok ⟨.newline, .point c.position⟩, c.skip 1)
    else
      let spelling := Token.lexeme c.rest
      if spelling.isEmpty then (.error (.invalidToken ch (.point c.position)), c)
      else
        let next := c.skip spelling.length
        let span := Span.between c.position next.position
        match Token.ofLexeme spelling with
        | some t => (.ok ⟨t, span⟩, next)
        | none => (.error (.invalidInteger (String.ofList spelling) span), next)

/-- Reads the next token. -/
def next (c : Cursor) : Except LexError (Located Token) × Cursor :=
  c.skipGap.token

/-! ### Progress -/

theorem length_skip (c : Cursor) (n : Nat) : (c.skip n).rest.length = c.rest.length - n := by
  simp [skip]

theorem length_skipGap_le (c : Cursor) : c.skipGap.rest.length ≤ c.rest.length := by
  simp only [skipGap]
  split <;> simp only [skipWhile, length_skip] <;> omega

/-- A token other than the end of the text takes at least one character. -/
theorem length_token_lt {c c' : Cursor} {t : Located Token} (h : c.token = (.ok t, c'))
    (ht : t.value ≠ .eof) : c'.rest.length < c.rest.length := by
  rw [token] at h
  split at h
  · simp only [Prod.mk.injEq, Except.ok.injEq] at h
    exact absurd (h.1 ▸ rfl) ht
  · rename_i ch cs hrest
    have pos : 0 < c.rest.length := by simp [hrest]
    split at h
    · simp only [Prod.mk.injEq, Except.ok.injEq] at h
      rw [← h.2, length_skip]
      omega
    · dsimp only at h
      split at h
      · simp at h
      · rename_i hne
        have hlen : (Token.lexeme c.rest).length ≠ 0 := by
          simpa [List.isEmpty_iff, List.length_eq_zero_iff] using hne
        split at h
        · simp only [Prod.mk.injEq, Except.ok.injEq] at h
          rw [← h.2, length_skip]
          omega
        · simp at h

/-- **Reading makes progress**: every token but the end of the text leaves less to read. -/
theorem length_next_lt {c c' : Cursor} {t : Located Token} (h : c.next = (.ok t, c'))
    (ht : t.value ≠ .eof) : c'.rest.length < c.rest.length :=
  Nat.lt_of_lt_of_le (length_token_lt h ht) c.length_skipGap_le

/-- Reading never moves back. -/
theorem length_next_le {c c' : Cursor} {r : Except LexError (Located Token)}
    (h : c.next = (r, c')) : c'.rest.length ≤ c.rest.length := by
  have hgap := c.length_skipGap_le
  have hskip (n : Nat) := c.skipGap.length_skip n
  rw [next, token] at h
  dsimp only at h
  repeat' split at h
  all_goals
    obtain ⟨-, rfl⟩ := Prod.mk.inj h
    first
      | exact hgap
      | (rw [hskip]; omega)

/-! ### Whole texts -/

/-- All tokens from the cursor on, the end of the text last, or the first error. -/
def tokens (c : Cursor) : Except LexError (List (Located Token)) :=
  match h : c.next with
  | (.error e, _) => .error e
  | (.ok t, c') =>
    if ht : t.value = .eof then .ok [t]
    else
      have : c'.rest.length < c.rest.length := length_next_lt h ht
      match c'.tokens with
      | .error e => .error e
      | .ok ts => .ok (t :: ts)
termination_by c.rest.length

end Cursor

/-- All tokens of a text, the end of the text last. -/
def tokenize (s : String) : Except LexError (List (Located Token)) :=
  (Cursor.ofString s).tokens

/-- A cursor that stops for good behind the end of the text or the first error it meets. -/
structure Scanner where
  cursor : Cursor
  finished : Bool
deriving DecidableEq, Repr

namespace Scanner

/-- The scanner at the beginning of a text. -/
def ofString (s : String) : Scanner :=
  ⟨.ofString s, false⟩

/-- Reads a token whether or not the scanner has finished, and leaves open whether it has. -/
def nextToken (s : Scanner) : Except LexError (Located Token) × Scanner :=
  let (result, cursor) := s.cursor.next
  (result, { s with cursor })

/-- Behind this result a scanner yields nothing more. -/
def isLast : Except LexError (Located Token) → Bool
  | .ok t => t.value = .eof
  | .error _ => true

/-- Reads the next token, `none` once the scanner has finished. -/
def next (s : Scanner) : Option (Except LexError (Located Token)) × Scanner :=
  if s.finished then (none, s)
  else
    let (result, cursor) := s.cursor.next
    (some result, ⟨cursor, isLast result⟩)

end Scanner

end CallByNeed

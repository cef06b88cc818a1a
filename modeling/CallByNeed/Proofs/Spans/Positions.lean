import CallByNeed.Proofs.Layout.Parts
import CallByNeed.Proofs.Lexemes
import Mathlib.Data.List.Induction

/-!
# True positions

A position is kept up to date while a text is read, by one step for each character.  Where it
should be can also be told from the text alone: the bytes, the newlines and the characters of the
line in front of a place are counted afresh (`Position.ofIndex?`).  Both agree at every place that a
cursor comes to (`Position.ofIndex?_of_passes`).

So the span of a token either covers a stretch of the text or is a point, and both of its ends are
true positions (`Span.IsStretch`, `Span.IsPoint`).  Which of the two depends on the token
(`Located.Placed`).
-/

namespace CallByNeed

namespace Position

/-- The true position of a byte of a text, if a character starts there or the text ends: a line for
each newline in front of it, and a column for each character behind the last of these. -/
def ofIndex? (text : String) (i : Nat) : Option Position :=
  (Buffer.split? text.toList i).map fun (before, _) =>
    ⟨i, 1 + before.count '\n', 1 + (before.reverse.takeWhile (· != '\n')).length⟩

/-- **Advancing counts lines and columns.** -/
theorem start_advance (before : List Char) :
    start.advance before = ⟨byteLength before, 1 + before.count '\n',
      1 + (before.reverse.takeWhile (· != '\n')).length⟩ := by
  induction before using List.reverseRecOn with
  | nil => rfl
  | append_singleton before c ih =>
    have hlength : byteLength (before ++ [c]) = byteLength before + c.utf8Size := by
      simp [byteLength]
    rw [advance_append, ih, hlength, advance_cons, advance_nil, after, List.reverse_append,
      List.count_append]
    by_cases hc : c = '\n'
    · simp [hc, Nat.add_assoc]
    · simp [hc, Nat.add_assoc, Nat.add_comm 1]

variable {text : String} {c : Cursor} {before : List Char}

/-- **A cursor stands at the true position.** -/
theorem ofIndex?_of_passes (h : (Cursor.ofString text).Passes before c) :
    ofIndex? text c.position.index = some c.position ∧ c.position.index ≤ text.utf8ByteSize := by
  have hrest : text.toList = before ++ c.rest := h.rest
  have hposition : c.position = start.advance before := h.position
  have hindex : c.position.index = byteLength before := by
    rw [hposition, start_advance]
  refine ⟨?_, ?_⟩
  · rw [ofIndex?, hindex, hrest, Buffer.split?_append, hposition, start_advance]
    rfl
  · rw [hindex, ← byteLength_toList, hrest, byteLength_append]
    exact Nat.le_add_right ..

end Position

/-! ### Stretches and points -/

namespace Span

/-- The span covers characters of the text, and both ends are true positions.  The end column is
that of the last character. -/
structure IsStretch (text : String) (span : Span) : Prop where
  start : Position.ofIndex? text span.start.index = some span.start
  stop : Position.ofIndex? text span.stop.index =
    some ⟨span.stop.index, span.stop.line, span.stop.column + 1⟩
  lt : span.start.index < span.stop.index
  le_size : span.stop.index ≤ text.utf8ByteSize

/-- The span is a place of the text. -/
structure IsPoint (text : String) (span : Span) : Prop where
  start : Position.ofIndex? text span.start.index = some span.start
  stop : span.stop = span.start
  le_size : span.start.index ≤ text.utf8ByteSize

/-- The span of what does not come from a text is none of its stretches. -/
theorem IsStretch.ne_unknown {text : String} {span : Span} (h : span.IsStretch text) :
    span ≠ .unknown := by
  rintro rfl
  exact Nat.lt_irrefl 0 h.lt

end Span

/-- The tokens that are spelled out in a text. -/
def Token.isVisible (t : Token) : Bool :=
  t ∉ [newline, eof, blockBegin, blockDelim, blockEnd]

/-- Where a token stands: newlines, the end of the text and block tokens there are points, and any
other token covers a stretch of the text. -/
def Located.Placed (text : String) (t : Located Token) : Prop :=
  if t.value = .newline ∨ t.value = .eof ∨
      t.value.isBlock = true ∧ t.span.start.index = text.utf8ByteSize then
    t.span.IsPoint text
  else t.span.IsStretch text

theorem Token.isVisible_iff {t : Token} :
    t.isVisible = true ↔ t ≠ .newline ∧ t ≠ .eof ∧ t.isBlock = false := by
  simp [isVisible, isBlock]

/-- **What is spelled out covers a stretch of the text.** -/
theorem Located.placed_iff {text : String} {t : Located Token} (ht : t.value.isVisible = true) :
    t.Placed text ↔ t.span.IsStretch text := by
  obtain ⟨hline, heof, hblock⟩ := Token.isVisible_iff.1 ht
  simp [Placed, hline, heof, hblock]

/-- Where an error of the lexer is: at a character, or at the digits of a literal. -/
def LexError.Placed (text : String) : LexError → Prop
  | invalidToken _ span => span.IsPoint text
  | invalidInteger _ span => span.IsStretch text

/-- Where an error of the parser is: at a token, or at an operator. -/
def ParseError.Placed (text : String) : ParseError → Prop
  | lexical e => e.Placed text
  | unexpected _ found => found.Placed text
  | unknownOperator _ span | operatorInPattern _ span | mixedAssociativity _ _ _ _ _ span
  | nonAssociative _ _ span => span.IsStretch text

/-! ### What the lexer reads -/

namespace Cursor

variable {text : String} {c c' : Cursor} {t : Located Token}

/-- The cursor has come to its place by reading the text. -/
def IsIn (text : String) (c : Cursor) : Prop :=
  ∃ before, (ofString text).Passes before c

theorem isIn_ofString (text : String) : (ofString text).IsIn text :=
  ⟨[], .refl _⟩

theorem IsIn.passes {cs : List Char} (h : c.IsIn text) (hc : c.Passes cs c') : c'.IsIn text := by
  obtain ⟨before, hbefore⟩ := h
  exact ⟨before ++ cs, hbefore.trans hc⟩

theorem IsIn.next {r : Except LexError (Located Token)} (h : c.IsIn text) (hc : c.next = (r, c')) :
    c'.IsIn text := by
  obtain ⟨cs, hcs⟩ := passes_next hc
  exact h.passes hcs

theorem IsIn.skipGap (h : c.IsIn text) : c.skipGap.IsIn text := by
  obtain ⟨gap, hgap, -⟩ := c.passes_skipGap
  exact h.passes hgap

/-- A place of the text. -/
theorem IsIn.isPoint (h : c.IsIn text) : (Span.point c.position).IsPoint text := by
  obtain ⟨before, hbefore⟩ := h
  obtain ⟨hindex, hle⟩ := Position.ofIndex?_of_passes hbefore
  exact ⟨hindex, rfl, hle⟩

/-- **A lexeme covers a stretch of the text.** -/
theorem IsIn.isStretch (h : c.IsIn text) (hne : Token.lexeme c.rest ≠ []) :
    (Span.between c.position (c.position.advance (Token.lexeme c.rest))).IsStretch text := by
  have hpasses := c.passes_lexeme
  obtain ⟨after, hafter⟩ := h.passes hpasses
  obtain ⟨hstop, hsize⟩ := Position.ofIndex?_of_passes hafter
  rw [hpasses.position] at hstop hsize
  have hlength := List.length_pos_iff.2 hne
  -- a lexeme stays on its line, so that there is a column to take away
  have hcolumn := Position.column_advance (newline_not_mem_lexeme c.rest) c.position
  have hindex := Position.index_advance c.position (Token.lexeme c.rest)
  have hbytes := length_le_byteLength (Token.lexeme c.rest)
  generalize c.position.advance (Token.lexeme c.rest) = q at hstop hsize hcolumn hindex
  refine ⟨h.isPoint.start, ?_, ?_, hsize⟩
  · have hq : (⟨q.index, q.line, q.column - 1 + 1⟩ : Position) = q := by
      rw [Nat.sub_add_cancel (by omega)]
    exact hstop.trans (congrArg some hq.symm)
  · show c.position.index < q.index
    omega

/-- The end of the text is behind its last byte. -/
theorem IsIn.index_of_rest (h : c.IsIn text) (hrest : c.rest = []) :
    c.position.index = text.utf8ByteSize := by
  obtain ⟨before, hbefore⟩ := h
  have hposition : c.position = Position.start.advance before := hbefore.position
  have htext : text.toList = before := by
    rw [show text.toList = before ++ c.rest from hbefore.rest, hrest, List.append_nil]
  rw [hposition, Position.start_advance, ← htext, byteLength_toList]

/-- **The lexer knows where its tokens are.**  So does the layout, which puts block tokens where a
token other than a newline is. -/
theorem IsIn.placed (h : c.IsIn text) (hc : c.next = (.ok t, c')) :
    t.Placed text ∧ (t.value ≠ .newline → ∀ block : Token, block.isBlock = true →
      (Layout.blockToken t block).Placed text) := by
  have hgap := h.skipGap
  have htoken := hasToken_of_token hc
  generalize c.skipGap = d at htoken hgap
  cases htoken with
  | eof hrest =>
    refine ⟨?_, fun _ block hb => ?_⟩
    · rw [Located.Placed, if_pos (.inr (.inl rfl))]
      exact hgap.isPoint
    · -- a block token in front of the end of the text stands where that does
      rw [Located.Placed, if_pos (.inr (.inr ⟨hb, hgap.index_of_rest hrest⟩))]
      exact hgap.isPoint
  | newline hrest =>
    refine ⟨?_, fun hline => absurd rfl hline⟩
    rw [Located.Placed, if_pos (.inl rfl)]
    exact hgap.isPoint
  | @lexeme t hne ht =>
    have hstretch := hgap.isStretch hne
    have hvisible : t.isVisible = true := by
      simpa [Token.isVisible] using not_mem_of_ofLexeme ht
    refine ⟨(Located.placed_iff hvisible).2 hstretch, fun _ block hb => ?_⟩
    rw [Located.Placed, if_neg]
    · exact hstretch
    · -- a block token is neither a line break nor the end, and the lexeme is not behind the text
      rintro (hline | heof | ⟨-, hindex⟩)
      · rw [show block = .newline from hline] at hb
        cases hb
      · rw [show block = .eof from heof] at hb
        cases hb
      · exact Nat.ne_of_lt (Nat.lt_of_lt_of_le hstretch.lt hstretch.le_size) hindex

/-- **The lexer knows where its errors are.** -/
theorem IsIn.placed_error {e : LexError} (h : c.IsIn text) (hc : c.next = (.error e, c')) :
    e.Placed text := by
  have hgap := h.skipGap
  have herror := hasError_of_token hc
  generalize c.skipGap = d at herror hgap
  cases herror with
  | noLexeme => exact hgap.isPoint
  | lexeme hne => exact hgap.isStretch hne

end Cursor

end CallByNeed

import CallByNeed.Proofs.Spans.Positions

/-!
# Fragments

A stretch of a text may start in the middle of a line's end, or stop there: with the newline, or
with the carriage return in front of it.  No token does that, since both are blank, and so does
nothing that reaches from one token to another.  Such a stretch is a fragment of the text
(`Fragment`); it has something to show on its first line and on its last one.

The lexer finds all its tokens, and all its errors, at fragments or at points (`Span.IsSpot`).
-/

namespace CallByNeed

/-- Characters of a text, the first and the last of which do not belong to the end of a line. -/
structure Fragment (text : String) where
  before : List Char
  inner : List Char
  after : List Char
  toList_eq : text.toList = before ++ (inner ++ after)
  head : ∃ c ∈ inner.head?, c ≠ '\n' ∧ c ≠ '\r'
  last : ∃ c ∈ inner.getLast?, c ≠ '\n' ∧ c ≠ '\r'

namespace Fragment

variable {text : String}

/-- Where a fragment stands. -/
def span (f : Fragment text) : Span :=
  .between (Position.start.advance f.before) (Position.start.advance (f.before ++ f.inner))

theorem inner_ne_nil (f : Fragment text) : f.inner ≠ [] := by
  obtain ⟨c, hc, -⟩ := f.head
  rintro hnil
  simp [hnil] at hc

theorem start_index (f : Fragment text) : f.span.start.index = byteLength f.before := by
  show (Position.start.advance f.before).index = _
  rw [Position.start_advance]

theorem stop_index (f : Fragment text) :
    f.span.stop.index = byteLength (f.before ++ f.inner) := by
  show (Position.start.advance (f.before ++ f.inner)).index = _
  rw [Position.start_advance]

/-- **From one fragment to another there is a fragment**, if the second one ends behind the start of
the first. -/
theorem exists_between (f g : Fragment text) (h : f.span.start.index < g.span.stop.index) :
    ∃ k : Fragment text, k.span = ⟨f.span.start, g.span.stop⟩ := by
  rw [f.start_index, g.stop_index] at h
  have hg : text.toList = (g.before ++ g.inner) ++ g.after := by
    rw [g.toList_eq, List.append_assoc]
  -- what stands in front of the one is a beginning of what stands up to the end of the other
  have hbefore : f.before <+: g.before ++ g.inner := by
    have hf : f.before <+: text.toList := ⟨_, f.toList_eq.symm⟩
    rcases List.prefix_or_prefix_of_prefix hf ⟨_, hg.symm⟩ with hle | ⟨more, hmore⟩
    · exact hle
    · rw [← hmore, byteLength_append] at h
      omega
  obtain ⟨inner, hinner⟩ := hbefore
  have hne : inner ≠ [] := by
    rintro rfl
    rw [← hinner, List.append_nil] at h
    exact Nat.lt_irrefl _ h
  have hstarts : inner ++ g.after = f.inner ++ f.after := by
    have hsame := f.toList_eq.symm.trans hg
    rw [← hinner, List.append_assoc] at hsame
    exact (List.append_cancel_left hsame).symm
  have hhead : inner.head? = f.inner.head? := by
    have hheads := congrArg List.head? hstarts
    rwa [List.head?_append_of_ne_nil _ hne, List.head?_append_of_ne_nil _ f.inner_ne_nil] at hheads
  have hlast : inner.getLast? = g.inner.getLast? := by
    have hlasts := congrArg List.getLast? hinner
    rwa [List.getLast?_append_of_ne_nil _ hne, List.getLast?_append_of_ne_nil _ g.inner_ne_nil]
      at hlasts
  refine ⟨⟨f.before, inner, g.after, ?_, ?_, ?_⟩, ?_⟩
  · rw [hstarts]
    exact f.toList_eq
  · rw [hhead]
    exact f.head
  · rw [hlast]
    exact g.last
  · show Span.between _ (Position.start.advance (f.before ++ inner)) = _
    rw [hinner]
    rfl

end Fragment

namespace Span

/-- The span covers a fragment of the text, or is a point of it. -/
def IsSpot (text : String) (span : Span) : Prop :=
  (∃ f : Fragment text, f.span = span) ∨ span.IsPoint text

end Span

/-- The token knows where it is, and that is a spot. -/
def Located.Stands (text : String) (t : Located Token) : Prop :=
  t.Placed text ∧ t.span.IsSpot text

/-- The error knows where it is, and that is a spot. -/
def LexError.Stands (text : String) (e : LexError) : Prop :=
  e.Placed text ∧ e.span.IsSpot text

/-- The error knows where it is, and that is a spot.  That of an unexpected token stands where the
token does. -/
def ParseError.Stands (text : String) (e : ParseError) : Prop :=
  e.Placed text ∧ e.span.IsSpot text

/-- **What covers a stretch and stands at a spot is a fragment.** -/
theorem Span.IsStretch.exists_fragment {text : String} {span : Span} (h : span.IsStretch text)
    (hspot : span.IsSpot text) : ∃ f : Fragment text, f.span = span := by
  rcases hspot with hfragment | hpoint
  · exact hfragment
  · have hlt := h.lt
    rw [hpoint.stop] at hlt
    exact absurd hlt (Nat.lt_irrefl _)

namespace Cursor

variable {text : String} {c c' : Cursor} {t : Located Token}

/-- **A lexeme is a fragment.** -/
theorem IsIn.exists_fragment (h : c.IsIn text) (hne : Token.lexeme c.rest ≠ []) :
    ∃ f : Fragment text,
      f.span = .between c.position (c.position.advance (Token.lexeme c.rest)) := by
  obtain ⟨before, hbefore⟩ := h
  have hposition : c.position = Position.start.advance before := hbefore.position
  -- no character of a lexeme is blank
  have hinner (d : Char) (hd : d ∈ Token.lexeme c.rest) : d ≠ '\n' ∧ d ≠ '\r' := by
    constructor
    · rintro rfl
      exact newline_not_mem_lexeme _ hd
    · rintro rfl
      exact return_not_mem_lexeme _ hd
  refine ⟨⟨before, Token.lexeme c.rest, c.rest.drop (Token.lexeme c.rest).length, ?_, ?_, ?_⟩, ?_⟩
  · rw [Token.lexeme_append_drop]
    exact hbefore.rest
  · exact ⟨_, List.head?_eq_some_head hne, hinner _ (List.head_mem hne)⟩
  · exact ⟨_, List.getLast?_eq_some_getLast hne, hinner _ (List.getLast_mem hne)⟩
  · show Span.between _ (Position.start.advance (before ++ Token.lexeme c.rest)) = _
    rw [Position.advance_append, ← hposition]

/-- **The lexer's tokens stand at spots**, and so do the block tokens of a layout. -/
theorem IsIn.stands (h : c.IsIn text) (hc : c.next = (.ok t, c')) :
    t.Stands text ∧ (t.value ≠ .newline → ∀ block : Token, block.isBlock = true →
      (Layout.blockToken t block).Stands text) := by
  obtain ⟨hplaced, hblocks⟩ := h.placed hc
  have hspot : t.span.IsSpot text := by
    have hgap := h.skipGap
    have htoken := hasToken_of_token hc
    generalize c.skipGap = d at htoken hgap
    cases htoken with
    | eof => exact .inr hgap.isPoint
    | newline => exact .inr hgap.isPoint
    | lexeme hne => exact .inl (hgap.exists_fragment hne)
  exact ⟨⟨hplaced, hspot⟩, fun hline block hblock => ⟨hblocks hline block hblock, hspot⟩⟩

/-- **The lexer's errors stand at spots.** -/
theorem IsIn.stands_error {e : LexError} (h : c.IsIn text) (hc : c.next = (.error e, c')) :
    e.Stands text := by
  refine ⟨h.placed_error hc, ?_⟩
  have hgap := h.skipGap
  have herror := hasError_of_token hc
  generalize c.skipGap = d at herror hgap
  cases herror with
  | noLexeme => exact .inr hgap.isPoint
  | lexeme hne => exact .inl (hgap.exists_fragment hne)

/-- **All tokens of a text stand at spots.** -/
theorem IsIn.stands_tokens {ts : List (Located Token)} (h : c.IsIn text)
    (hts : c.tokens = .ok ts) : ∀ t ∈ ts, t.Stands text := by
  fun_induction tokens c generalizing ts with
  | case1 => cases hts
  | case2 c t _ hnext _ =>
    obtain rfl : [t] = ts := by simpa using hts
    exact List.forall_mem_singleton.2 (h.stands hnext).1
  | case3 => cases hts
  | case4 c t c' hnext _ _ us hus ih =>
    obtain rfl : t :: us = ts := by simpa using hts
    exact List.forall_mem_cons.2 ⟨(h.stands hnext).1, ih (h.next hnext) hus⟩

end Cursor

end CallByNeed

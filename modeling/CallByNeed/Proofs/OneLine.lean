import CallByNeed.Proofs.Cues
import CallByNeed.Proofs.Spelling

/-!
# The layout of a single line

On a line of its own the off-side rule has little to say: no block ends by indentation, so that the
parser closes every block itself, and the only block tokens are the one behind `of` and the
delimiters that stand for pipes.  `Hands columns cs cues` says that a stream in front of the
characters `cs`, inside blocks with the given columns, yields the cues.  There is one law for each
thing that can come next: a space, a token of the text, `of` with the block that it opens, a pipe
inside a block, the place at which a block is closed, and the end of the text.

The laws read from the back of the text to its front, as the canonical text of a tree is built.
-/

namespace CallByNeed

/-! ### Streams between two tokens -/

/-- The stream stands in front of the characters `cs`, inside blocks with these columns.  Nothing
waits, and a line starts at most outside of all blocks. -/
structure TokenStream.Stands (s : TokenStream) (afterOf : Bool) (columns : List Nat)
    (cs : List Char) : Prop where
  freshLine : s.layout.freshLine = false ∨ columns = [] ∧ afterOf = false
  lookahead : s.lookahead = none
  queue : s.layout.queue = []
  rest : s.layout.cursor.rest = cs
  afterOf : s.layout.afterOf = afterOf
  columns : s.layout.columns = columns

/-- A stream between two tokens in front of `cs` yields the cues, and there are no more of them than
the size of the stream accounts for. -/
structure Hands (columns : List Nat) (cs : List Char) (cues : List Cue) : Prop where
  yields : ∀ s : TokenStream, s.Stands false columns cs → s.Yields cues
  length_le : cues.length ≤ 5 * cs.length + columns.length + 1

/-- The token comes through the layout of a line as it is. -/
def Token.isPlain (t : Token) : Bool :=
  t ≠ .newline && t ≠ .eof && t ≠ .pipe

theorem Spelled.length_lt {cs rest : List Char} {t : Token} (h : Spelled cs t rest)
    (ht : t ≠ .eof) : rest.length < cs.length := by
  obtain ⟨span, q, hnext⟩ := h .start
  exact Cursor.length_next_lt hnext ht

namespace Layout

/-- Inside a line, or outside of all blocks, no block token belongs in front of a token. -/
theorem accept_of_line {s : Layout} {t : Located Token} (hof : s.afterOf = false)
    (hline : s.freshLine = false ∨ s.columns = []) (ht : t.value = .pipe → s.columns = []) :
    s.accept t = s.enqueue t := by
  -- on a fresh line the columns are compared with that of the token, but there are none
  have halign : (if s.freshLine then s.align t.span else s) = s := by
    rcases hline with hline | hline
    · rw [hline, if_neg (by simp)]
    · obtain ⟨cursor, columns, queue, afterOf, freshLine⟩ := s
      obtain rfl : columns = [] := hline
      simp [align, mark]
  rw [accept, if_neg (by simp [hof]), goOn, halign]
  split
  · rename_i h
    rw [Bool.and_eq_true, decide_eq_true_eq] at h
    simp [ht h.1] at h
  · rfl

/-- What is read next depends on the cursor only through the token that it finds. -/
theorem next_congr_cursor {s : Layout} {c : Cursor} (hq : s.queue = [])
    (h : s.cursor.next = c.next) : s.next = { s with cursor := c }.next := by
  have hq' : { s with cursor := c }.queue = [] := hq
  cases hc : c.next with
  | mk result c' =>
    rw [hc] at h
    cases result with
    | error e => rw [next_of_error hq h, next_of_error hq' hc]
    | ok t =>
      by_cases hline : t.value = .newline
      · rw [next_of_newline hq h hline, next_of_newline hq' hc hline]
      · by_cases heof : t.value = .eof
        · rw [next_of_eof hq h heof, next_of_eof hq' hc heof]
        · rw [next_of_token hq h hline heof, next_of_token hq' hc hline heof]

end Layout

namespace TokenStream

variable {s : TokenStream} {columns : List Nat} {cs rest : List Char} {t : Token}

/-- Without a token looked at, what is seen comes off the layout. -/
theorem peek_of_next {u : Located Token} {layout : Layout} (hs : s.lookahead = none)
    (h : s.layout.next = (.ok u, layout)) : s.peek = .ok (u, ⟨layout, some u⟩) := by
  simp [peek, hs, pull, h, Except.map]

/-- **A token of a line is seen as it is**, and behind it the stream stands between two tokens. -/
theorem Stands.peek_token (hs : s.Stands false columns cs) (h : Spelled cs t rest)
    (hline : t ≠ .newline) (heof : t ≠ .eof) (hpipe : t = .pipe → columns = []) :
    ∃ span layout, s.peek = .ok (⟨t, span⟩, ⟨layout, some ⟨t, span⟩⟩) ∧
      Stands ⟨layout, none⟩ t.opensBlock columns rest := by
  obtain ⟨⟨cursor, columns', queue, afterOf, freshLine⟩, lookahead⟩ := s
  obtain ⟨hfresh, rfl, rfl, rfl, rfl, rfl⟩ := hs
  obtain ⟨span, q, hnext⟩ := h cursor.position
  have hstep := Layout.next_of_token (s := ⟨cursor, columns', [], false, freshLine⟩) rfl hnext
    hline heof
  have haccept : Layout.accept ⟨⟨rest, q⟩, columns', [], false, freshLine⟩ ⟨t, span⟩ =
      Layout.enqueue ⟨⟨rest, q⟩, columns', [], false, freshLine⟩ ⟨t, span⟩ :=
    Layout.accept_of_line rfl (hfresh.imp_right And.left) hpipe
  rw [haccept] at hstep
  refine ⟨span, _, peek_of_next rfl hstep, ?_⟩
  exact ⟨.inl rfl, rfl, rfl, rfl, rfl, rfl⟩

end TokenStream

/-! ### The laws of a line -/

section Hands

variable {columns : List Nat} {cs rest : List Char} {t : Token} {cues : List Cue}

/-- **A space changes nothing.** -/
theorem hands_space (h : Hands columns cs cues) : Hands columns (' ' :: cs) cues := by
  have hle := h.length_le
  refine ⟨fun s hs => ?_, by simp only [List.length_cons]; omega⟩
  -- the same stream with its cursor behind the space sees the same token
  let c : Cursor := ⟨cs, s.layout.cursor.position.after ' '⟩
  let s' : TokenStream := { s with layout := { s.layout with cursor := c } }
  have hs' : s'.Stands false columns cs := ⟨hs.freshLine, hs.lookahead, hs.queue, rfl, hs.afterOf,
    hs.columns⟩
  have hcursor : s.layout.cursor.next = c.next := by
    have hblank : Cursor.isInlineBlank ' ' = true := by decide
    obtain ⟨⟨cursor, columns', queue, afterOf, freshLine⟩, lookahead⟩ := s
    have hrest := hs.rest
    obtain ⟨rest, position⟩ := cursor
    obtain rfl : rest = ' ' :: cs := hrest
    simp [c, Cursor.next, Cursor.skipGap, Cursor.skipWhile, Cursor.skip, hblank]
  apply TokenStream.yields_congr _ (h.yields s' hs')
  have hnext : s.layout.next = s'.layout.next := Layout.next_congr_cursor hs.queue hcursor
  simp only [TokenStream.peek, hs.lookahead, hs'.lookahead, TokenStream.pull, hnext]

/-- **A token of the text** is the next cue. -/
theorem hands_token (h : Spelled cs t rest) (hplain : t.isPlain = true)
    (hopens : t.opensBlock = false) (hrest : Hands columns rest cues) :
    Hands columns cs (.token t :: cues) := by
  simp only [Token.isPlain, Bool.and_eq_true, decide_eq_true_eq] at hplain
  obtain ⟨⟨hline, heof⟩, hpipe⟩ := hplain
  have hlength := h.length_lt heof
  have hle := hrest.length_le
  refine ⟨fun s hs => ?_, by simp only [List.length_cons]; omega⟩
  obtain ⟨span, layout, hpeek, hstands⟩ := hs.peek_token h hline heof (absurd · hpipe)
  rw [hopens] at hstands
  exact ⟨span, _, hpeek, hrest.yields _ hstands⟩

/-- **A pipe inside a block** is a delimiter. -/
theorem hands_delim {column : Nat} (h : Spelled cs .pipe rest)
    (hrest : Hands (column :: columns) rest cues) :
    Hands (column :: columns) cs (.token .blockDelim :: cues) := by
  have hlength := h.length_lt (by simp)
  have hle := hrest.length_le
  refine ⟨?_, by simp only [List.length_cons] at hle ⊢; omega⟩
  rintro ⟨⟨cursor, columns', queue, afterOf, freshLine⟩, lookahead⟩
    ⟨hfresh, rfl, rfl, rfl, rfl, rfl⟩
  obtain ⟨span, q, hnext⟩ := h cursor.position
  have hstep := Layout.next_of_token (s := ⟨cursor, column :: columns, [], false, freshLine⟩) rfl
    hnext (by simp) (by simp)
  obtain rfl : freshLine = false := hfresh.resolve_right (by simp)
  refine ⟨span, _, TokenStream.peek_of_next rfl hstep, hrest.yields _ ?_⟩
  exact ⟨.inl rfl, rfl, rfl, rfl, rfl, rfl⟩

/-- **A token that waits** is seen as if it were still to be read. -/
theorem Hands.yields_waiting (h : Hands columns cs cues) {p q : Position} {span : Span}
    (hnext : Cursor.next ⟨cs, p⟩ = (.ok ⟨t, span⟩, ⟨rest, q⟩)) (hplain : t.isPlain = true) :
    TokenStream.Yields ⟨⟨⟨rest, q⟩, columns, [⟨t, span⟩], t.opensBlock, false⟩, none⟩ cues := by
  simp only [Token.isPlain, Bool.and_eq_true, decide_eq_true_eq] at hplain
  obtain ⟨⟨hline, heof⟩, hpipe⟩ := hplain
  let s : TokenStream := ⟨⟨⟨cs, p⟩, columns, [], false, false⟩, none⟩
  have hs : s.Stands false columns cs := ⟨.inl rfl, rfl, rfl, rfl, rfl, rfl⟩
  apply TokenStream.yields_congr _ (h.yields s hs)
  have hseen := Layout.next_of_token (s := s.layout) rfl hnext hline heof
  have haccept : Layout.accept ⟨⟨rest, q⟩, columns, [], false, false⟩ ⟨t, span⟩ =
      Layout.enqueue ⟨⟨rest, q⟩, columns, [], false, false⟩ ⟨t, span⟩ :=
    Layout.accept_of_line rfl (.inl rfl) (absurd · hpipe)
  rw [haccept] at hseen
  rw [TokenStream.peek_of_next rfl hseen, TokenStream.peek_of_next rfl (Layout.next_of_queue rfl)]
  rfl

/-- **The token behind `of` opens a block**, in its own column. -/
theorem hands_of {cs' : List Char} (h : Spelled cs (.keyword .ofWord) cs') (ht : Spelled cs' t rest)
    (hplain : t.isPlain = true) (hrest : ∀ column, Hands (column :: columns) cs' cues) :
    Hands columns cs (.token (.keyword .ofWord) :: .token .blockBegin :: cues) := by
  obtain ⟨⟨hline, heof⟩, -⟩ : (t ≠ .newline ∧ t ≠ .eof) ∧ t ≠ .pipe := by
    simpa [Token.isPlain] using hplain
  have hlength := h.length_lt (by simp)
  have hle := (hrest 0).length_le
  refine ⟨fun s hs => ?_, by simp only [List.length_cons] at hle ⊢; omega⟩
  obtain ⟨span, layout, hpeek, hstands⟩ := hs.peek_token h (by simp) (by simp) (by simp)
  refine ⟨span, _, hpeek, ?_⟩
  obtain ⟨cursor, columns', queue, afterOf, freshLine⟩ := layout
  obtain ⟨hfresh, -, rfl, rfl, rfl, rfl⟩ := hstands
  obtain rfl : freshLine = false := hfresh.resolve_right (by simp [Token.opensBlock])
  obtain ⟨span', q, hnext⟩ := ht cursor.position
  have hstep := Layout.next_of_token (s := ⟨cursor, columns', [], true, false⟩) rfl hnext hline heof
  refine ⟨span', _, TokenStream.peek_of_next rfl hstep, ?_⟩
  exact (hrest span'.start.column).yields_waiting hnext hplain

/-- **A block is closed in front of a token** that is then seen outside of it. -/
theorem hands_close {column : Nat} (h : Spelled cs t rest) (hplain : t.isPlain = true)
    (hnext : Cue.next cues = some t) (hrest : Hands columns cs cues) :
    Hands (column :: columns) cs (.close :: cues) := by
  have hle := hrest.length_le
  refine ⟨fun s hs => ?_, by simp only [List.length_cons]; omega⟩
  simp only [Token.isPlain, Bool.and_eq_true, decide_eq_true_eq] at hplain
  obtain ⟨⟨hline, heof⟩, hpipe⟩ := hplain
  obtain ⟨⟨cursor, columns', queue, afterOf, freshLine⟩, lookahead⟩ := s
  obtain ⟨hfresh, rfl, rfl, rfl, rfl, rfl⟩ := hs
  obtain rfl : freshLine = false := hfresh.resolve_right (by simp)
  obtain ⟨span, q, hcursor⟩ := h cursor.position
  -- the token looks the same inside and outside of the block
  have haccept (columns : List Nat) : Layout.accept ⟨⟨rest, q⟩, columns, [], false, false⟩
      ⟨t, span⟩ = Layout.enqueue ⟨⟨rest, q⟩, columns, [], false, false⟩ ⟨t, span⟩ :=
    Layout.accept_of_line rfl (.inl rfl) (absurd · hpipe)
  have hseen (columns : List Nat) :
      TokenStream.peek ⟨⟨cursor, columns, [], false, false⟩, none⟩ =
        .ok (⟨t, span⟩, ⟨⟨⟨rest, q⟩, columns, [], t.opensBlock, false⟩, some ⟨t, span⟩⟩) := by
    have hstep := Layout.next_of_token (s := ⟨cursor, columns, [], false, false⟩) rfl hcursor hline
      heof
    rw [haccept] at hstep
    exact TokenStream.peek_of_next rfl hstep
  refine ⟨⟨t, span⟩, _, _, hseen _, hnext, rfl, ?_⟩
  have hs' : TokenStream.Stands ⟨⟨cursor, columns, [], false, false⟩, none⟩ false columns
      cursor.rest := ⟨.inl rfl, rfl, rfl, rfl, rfl, rfl⟩
  exact TokenStream.yields_congr (hseen columns) (hrest.yields _ hs')

/-- **The end of the text** comes outside of all blocks. -/
theorem hands_eof : Hands [] [] [.token .eof] := by
  refine ⟨?_, Nat.le_refl 1⟩
  rintro ⟨⟨⟨rest, position⟩, columns, queue, afterOf, freshLine⟩, lookahead⟩
    ⟨hfresh, rfl, rfl, hrest, rfl, rfl⟩
  obtain rfl : rest = [] := hrest
  obtain ⟨span, q, hnext⟩ := spelled_end position
  have hstep := Layout.next_of_eof (s := ⟨⟨[], position⟩, [], [], false, freshLine⟩) rfl hnext rfl
  exact ⟨span, _, TokenStream.peek_of_next rfl hstep, trivial⟩

end Hands

end CallByNeed

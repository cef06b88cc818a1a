import CallByNeed.Layout

/-!
# What the layout makes of one token

The layout reads the text when nothing waits in its queue, and then puts into the queue what it
makes of one token.  This module says what that is.  A token is preceded by block tokens, and three
things decide which: whether it is the first token of a block (`Layout.opensAt`), which blocks are
still open when it is met (`Layout.openAt`), and whether it starts an item of the innermost of them
(`Layout.alignsAt`).  A pipe inside a block is left out, and a delimiter stands for it
(`Layout.swallows`).

Each field of the layout behind a token has one law here (`queue_accept`, `columns_accept`, …), and
later proofs use nothing else about the off-side rule.
-/

namespace CallByNeed.Layout

/-! ### The place of a token -/

/-- The token is the first one of a block. -/
def opensAt (s : Layout) (t : Located Token) : Bool :=
  s.afterOf && !s.opensNothing t.span

/-- The blocks that end in front of the token. -/
def closedAt (s : Layout) (t : Located Token) : List Nat :=
  if s.freshLine then s.columns.takeWhile (t.span.start.column < ·) else []

/-- The blocks that are still open when the token is met, the innermost first. -/
def openAt (s : Layout) (t : Located Token) : List Nat :=
  if s.freshLine then s.columns.dropWhile (t.span.start.column < ·) else s.columns

/-- The token is the first one on its line and stands in the column of the innermost open block. -/
def alignsAt (s : Layout) (t : Located Token) : Bool :=
  s.freshLine && (s.openAt t).head? = some t.span.start.column

/-- The token is a pipe inside an open block, other than its first token. -/
def swallows (s : Layout) (t : Located Token) : Bool :=
  t.value = .pipe && !(s.openAt t).isEmpty && !s.opensAt t

/-- A block token where another token stands. -/
def blockToken (t : Located Token) (block : Token) : Located Token :=
  ⟨block, t.span⟩

/-- What stands for a token outside of the first place of a block: the ends of blocks, a delimiter
if the token starts an item, and then the token itself. -/
def pieceInside (s : Layout) (t : Located Token) : List (Located Token) :=
  (s.closedAt t).map (fun _ => blockToken t .blockEnd) ++
    ((if s.alignsAt t || s.swallows t then [blockToken t .blockDelim] else []) ++
      if s.swallows t then [] else [t])

/-- What stands for a token. -/
def piece (s : Layout) (t : Located Token) : List (Located Token) :=
  if s.opensAt t then [blockToken t .blockBegin, t]
  else if s.afterOf then
    blockToken t .blockBegin :: blockToken t .blockEnd :: s.pieceInside t
  else s.pieceInside t

/-- What stands for the end of the text. -/
def endPiece (s : Layout) (t : Located Token) : List (Located Token) :=
  (if s.afterOf then [blockToken t .blockBegin, blockToken t .blockEnd] else []) ++
    (s.columns.map (fun _ => blockToken t .blockEnd) ++ [t])

theorem closedAt_append_openAt (s : Layout) (t : Located Token) :
    s.closedAt t ++ s.openAt t = s.columns := by
  unfold closedAt openAt
  split
  · exact List.takeWhile_append_dropWhile
  · rfl

/-! ### The layout behind a token -/

section Behind

variable {s : Layout} {t : Located Token}

/-- Aligning a line queues the ends of blocks and perhaps a delimiter. -/
theorem queue_align (h : s.freshLine = true) :
    (s.align t.span).queue = s.queue ++
      ((s.closedAt t).map (fun _ => blockToken t .blockEnd) ++
        if s.alignsAt t then [blockToken t .blockDelim] else []) := by
  have hdelim : (if s.alignsAt t then [blockToken t .blockDelim] else []) =
      (if (s.openAt t).head? = some t.span.start.column then [Token.blockDelim] else []).map
        fun u => (⟨u, t.span⟩ : Located Token) := by
    unfold alignsAt
    rw [h, Bool.true_and]
    by_cases hhead : (s.openAt t).head? = some t.span.start.column
    · simp [hhead, blockToken]
    · simp [hhead]
  rw [hdelim]
  simp [align, mark, closedAt, openAt, h, blockToken]

/-- Nothing waits, or the last token that waits is no delimiter: then the last one behind the
alignment is a delimiter just if the token starts an item. -/
theorem endsWithDelim_append {queue : List (Located Token)} {n : List Nat} {b : Bool}
    (hqueue : s.queue = queue ++ (n.map (fun _ => blockToken t .blockEnd) ++
      if b then [blockToken t .blockDelim] else []))
    (h : queue.getLast?.any (·.value = .blockDelim) = false) : s.endsWithDelim = b := by
  unfold endsWithDelim
  rw [hqueue]
  cases b with
  | true => simp [blockToken]
  | false =>
    rcases List.eq_nil_or_concat n with rfl | ⟨n, m, rfl⟩
    · simpa using h
    · simp [blockToken]

/-- Going on with a token queues the piece inside, unless a delimiter waits already. -/
theorem queue_goOn (hlast : s.queue.getLast?.any (·.value = .blockDelim) = false)
    (hopen : s.opensAt t = false) : (s.goOn t).queue = s.queue ++ s.pieceInside t := by
  -- the layout behind the alignment
  obtain ⟨aligned, haligned, hqueue, hcolumns⟩ : ∃ aligned,
      (if s.freshLine then s.align t.span else s) = aligned ∧
      aligned.queue = s.queue ++ ((s.closedAt t).map (fun _ => blockToken t .blockEnd) ++
        if s.alignsAt t then [blockToken t .blockDelim] else []) ∧
      aligned.columns = s.openAt t := by
    by_cases hfresh : s.freshLine = true
    · refine ⟨s.align t.span, by rw [if_pos hfresh], queue_align hfresh, ?_⟩
      unfold openAt
      rw [if_pos hfresh]
      rfl
    · refine ⟨s, by rw [if_neg hfresh], ?_, ?_⟩
      · simp [closedAt, alignsAt, hfresh]
      · simp [openAt, hfresh]
  have hdelim := endsWithDelim_append hqueue hlast
  have hswallows : s.swallows t = (t.value = .pipe && !aligned.columns.isEmpty) := by
    simp [swallows, hopen, hcolumns]
  rw [goOn, haligned]
  dsimp only
  unfold pieceInside
  rw [← hswallows]
  cases hs : s.swallows t with
  | false => simp [enqueue, hqueue]
  | true =>
    rw [hdelim]
    cases hb : s.alignsAt t with
    | true => simp [hqueue, hb]
    | false => simp [mark, hqueue, hb, blockToken]

/-- **What a token puts into the queue.** -/
theorem queue_accept (hq : s.queue = []) : (s.accept t).queue = s.piece t := by
  unfold accept piece
  by_cases hof : s.afterOf = true
  · rw [if_pos hof, if_pos hof]
    by_cases hnothing : s.opensNothing t.span = true
    · -- an empty block in front of the token
      have hopen : s.opensAt t = false := by simp [opensAt, hnothing]
      have hempty : (s.markEmptyBlock t.span).queue =
          [blockToken t .blockBegin, blockToken t .blockEnd] := by
        simp [markEmptyBlock, mark, hq, blockToken]
      rw [if_pos hnothing, hopen, if_neg (by simp),
        queue_goOn (by simp [hempty, blockToken]) (by simp [opensAt, markEmptyBlock, mark]), hempty]
      have hinside : (s.markEmptyBlock t.span).pieceInside t = s.pieceInside t := by
        have hswallows : (s.markEmptyBlock t.span).swallows t = s.swallows t := by
          simp [swallows, openAt, opensAt, markEmptyBlock, mark, hnothing]
        unfold pieceInside
        rw [hswallows]
        rfl
      rw [hinside]
      rfl
    · have hopen : s.opensAt t = true := by simp [opensAt, hof, hnothing]
      rw [if_neg hnothing, hopen, if_pos rfl]
      simp [openBlock, mark, enqueue, hq, blockToken]
  · have hopen : s.opensAt t = false := by simp [opensAt, hof]
    rw [if_neg hof, hopen, if_neg (by simp), if_neg hof, queue_goOn (by simp [hq]) hopen, hq,
      List.nil_append]

theorem columns_goOn (s : Layout) (t : Located Token) : (s.goOn t).columns = s.openAt t := by
  have hcolumns : (if s.freshLine then s.align t.span else s).columns = s.openAt t := by
    unfold openAt
    split <;> rfl
  rw [← hcolumns, goOn]
  generalize (if s.freshLine then s.align t.span else s) = aligned
  dsimp only
  split
  · split <;> rfl
  · rfl

/-- **The blocks that are open behind a token.** -/
theorem columns_accept (s : Layout) (t : Located Token) :
    (s.accept t).columns =
      if s.opensAt t then t.span.start.column :: s.columns else s.openAt t := by
  unfold accept opensAt
  by_cases hof : s.afterOf = true
  · by_cases hnothing : s.opensNothing t.span = true
    · simp only [hof, hnothing, if_true, Bool.not_true, Bool.and_false, if_neg Bool.false_ne_true,
        columns_goOn]
      rfl
    · simp [hof, hnothing, openBlock, mark, enqueue]
  · simp [hof, columns_goOn]

theorem afterOf_goOn (h : s.afterOf = false) : (s.goOn t).afterOf = t.value.opensBlock := by
  have hof : (if s.freshLine then s.align t.span else s).afterOf = false := by
    split
    · exact h
    · exact h
  rw [goOn]
  generalize (if s.freshLine then s.align t.span else s) = aligned at hof
  dsimp only
  split
  · -- a pipe opens no block
    rename_i hpipe
    have hvalue : t.value = .pipe := by
      simp only [Bool.and_eq_true, decide_eq_true_eq] at hpipe
      exact hpipe.1
    rw [hvalue]
    split <;> exact hof
  · rfl

/-- **A block is to open behind a token if it is `of`.** -/
theorem afterOf_accept (s : Layout) (t : Located Token) :
    (s.accept t).afterOf = t.value.opensBlock := by
  unfold accept
  split
  · split
    · exact afterOf_goOn rfl
    · rfl
  · rename_i hof
    exact afterOf_goOn (by simpa using hof)

theorem freshLine_goOn (s : Layout) (t : Located Token) : (s.goOn t).freshLine = false := by
  rw [goOn]
  generalize (if s.freshLine then s.align t.span else s) = aligned
  dsimp only
  split <;> rfl

theorem freshLine_accept (s : Layout) (t : Located Token) : (s.accept t).freshLine = false := by
  unfold accept
  split
  · split
    · exact freshLine_goOn _ t
    · rfl
  · exact freshLine_goOn s t

theorem cursor_goOn (s : Layout) (t : Located Token) : (s.goOn t).cursor = s.cursor := by
  have hcursor : (if s.freshLine then s.align t.span else s).cursor = s.cursor := by
    split <;> rfl
  rw [goOn]
  generalize (if s.freshLine then s.align t.span else s) = aligned at hcursor
  dsimp only
  split
  · split <;> exact hcursor
  · exact hcursor

theorem cursor_accept (s : Layout) (t : Located Token) : (s.accept t).cursor = s.cursor := by
  unfold accept
  split
  · split
    · exact cursor_goOn _ t
    · rfl
  · exact cursor_goOn s t

/-- **What the end of the text puts into the queue.** -/
theorem queue_acceptEnd (hq : s.queue = []) : (s.acceptEnd t).queue = s.endPiece t := by
  unfold acceptEnd endPiece
  by_cases hof : s.afterOf = true
  · simp [hof, markEmptyBlock, mark, hq, blockToken]
  · simp [hof, mark, hq, blockToken]

@[simp]
theorem columns_acceptEnd (s : Layout) (t : Located Token) : (s.acceptEnd t).columns = [] :=
  rfl

theorem afterOf_acceptEnd (s : Layout) (t : Located Token) : (s.acceptEnd t).afterOf = false := by
  unfold acceptEnd
  split
  · rfl
  · rename_i hof
    simpa [mark] using hof

theorem cursor_acceptEnd (s : Layout) (t : Located Token) :
    (s.acceptEnd t).cursor = s.cursor := by
  unfold acceptEnd
  split <;> rfl

/-- A token puts something into the queue. -/
theorem piece_ne_nil (s : Layout) (t : Located Token) : s.piece t ≠ [] := by
  unfold piece pieceInside
  split
  · simp
  · split
    · simp
    · cases s.swallows t <;> simp

theorem endPiece_ne_nil (s : Layout) (t : Located Token) : s.endPiece t ≠ [] := by
  simp [endPiece]

end Behind

/-! ### Reading on -/

section Next

variable {s : Layout} {t : Located Token} {cursor : Cursor}

/-- The layout behind a token that has been read off the text, whatever token it is. -/
def meet (s : Layout) (t : Located Token) (cursor : Cursor) : Layout :=
  if t.value = .newline then { s with cursor, freshLine := true }
  else if t.value = .eof then { s with cursor }.acceptEnd t
  else { s with cursor }.accept t

theorem meet_of_newline (ht : t.value = .newline) :
    s.meet t cursor = { s with cursor, freshLine := true } := by
  rw [meet, if_pos ht]

theorem meet_of_eof (ht : t.value = .eof) : s.meet t cursor = { s with cursor }.acceptEnd t := by
  rw [meet, if_neg (by simp [ht]), if_pos ht]

theorem meet_of_token (hline : t.value ≠ .newline) (heof : t.value ≠ .eof) :
    s.meet t cursor = { s with cursor }.accept t := by
  rw [meet, if_neg hline, if_neg heof]

/-- What stands for a token, whatever token it is. -/
def share (s : Layout) (t : Located Token) : List (Located Token) :=
  if t.value = .newline then [] else if t.value = .eof then s.endPiece t else s.piece t

theorem queue_meet (hq : s.queue = []) : (s.meet t cursor).queue = s.share t := by
  unfold meet share
  split
  · exact hq
  · split
    · exact queue_acceptEnd hq
    · exact queue_accept hq

theorem cursor_meet (s : Layout) (t : Located Token) (cursor : Cursor) :
    (s.meet t cursor).cursor = cursor := by
  unfold meet
  split
  · rfl
  · split
    · exact cursor_acceptEnd _ t
    · exact cursor_accept _ t

/-- A token other than a newline puts something into the queue. -/
theorem queue_meet_ne_nil (hq : s.queue = []) (ht : t.value ≠ .newline) :
    (s.meet t cursor).queue ≠ [] := by
  rw [queue_meet hq, share, if_neg ht]
  split
  · exact endPiece_ne_nil s t
  · exact piece_ne_nil s t

/-- **With an empty queue a layout reads on**, and goes on from what it has made of the token. -/
theorem next_of_read (hq : s.queue = []) (hc : s.cursor.next = (.ok t, cursor)) :
    s.next = (s.meet t cursor).next := by
  by_cases hline : t.value = .newline
  · rw [next_of_newline hq hc hline, meet_of_newline hline]
  · obtain ⟨u, queue, hqueue⟩ := List.exists_cons_of_ne_nil (queue_meet_ne_nil hq hline)
    rw [next_of_queue hqueue]
    by_cases heof : t.value = .eof
    · rw [next_of_eof hq hc heof, ← meet_of_eof heof]
      simp [dequeue, hqueue]
    · rw [next_of_token hq hc hline heof, ← meet_of_token hline heof]
      simp [dequeue, hqueue]

end Next

end CallByNeed.Layout

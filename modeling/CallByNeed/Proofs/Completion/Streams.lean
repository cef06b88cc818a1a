import CallByNeed.Proofs.Completion.Fillers
import CallByNeed.Proofs.Shift.Lines
import CallByNeed.Proofs.Totality.Parsing

/-!
# Texts that go on

A text can go on behind a newline.  Until its end is met, a cursor, a layout or a stream in the text
does not see what comes behind it (`followedBy`): the same token is read, or the same error.  Where
the text ends, two things differ (`TokenStream.Reading.sees`).

* In the text alone the layout ends all open blocks and hands out the end of the text
  (`TokenStream.Ended`).
* In the text that goes on a new line starts, and the blocks are still open.  If the line stands to
  the right of all of them, the parser meets the tokens of the line, and has to close the blocks
  itself (`Spells`).
-/

namespace CallByNeed

open Text

/-! ### Positions -/

namespace Position

/-- A newline only sets the column back. -/
theorem column_advance_le {p : Position} (h : 0 < p.column) (cs : List Char) :
    (p.advance cs).column ≤ p.column + cs.length := by
  induction cs generalizing p with
  | nil => exact Nat.le_refl _
  | cons c cs ih =>
    have hafter : (p.after c).column ≤ p.column + 1 := by
      unfold after
      split
      · show 1 ≤ p.column + 1
        omega
      · exact Nat.le_refl _
    have hle := ih (p.column_after_pos c)
    rw [advance_cons, List.length_cons]
    omega

end Position

/-! ### Cursors -/

namespace Cursor

variable {text : String} {c c' : Cursor} {t : Located Token}

/-- The same place in the text that goes on, on a new line, with `more`. -/
def followedBy (more : List Char) (c : Cursor) : Cursor :=
  ⟨c.rest ++ '\n' :: more, c.position⟩

theorem skipWhile_followedBy {p : Char → Bool} (hp : p '\n' = false) (more : List Char)
    (c : Cursor) : (c.followedBy more).skipWhile p = (c.skipWhile p).followedBy more := by
  have hmore := skipWhile_behind hp c.rest (pieces more) c.position
  have halone := skipWhile_behind hp c.rest [] c.position
  rw [behind_pieces] at hmore
  rw [behind_nil, List.append_nil, List.append_nil] at halone
  unfold followedBy
  rw [hmore, halone]

/-- **A gap ends where the text ends.** -/
theorem skipGap_followedBy (more : List Char) (c : Cursor) :
    (c.followedBy more).skipGap = c.skipGap.followedBy more := by
  have hcomment (d : Cursor) : startsComment (d.followedBy more).rest = startsComment d.rest := by
    have hbehind := startsComment_append_behind d.rest (pieces more)
    rwa [behind_pieces] at hbehind
  unfold skipGap
  dsimp only
  rw [skipWhile_followedBy (by decide), hcomment]
  split
  · exact skipWhile_followedBy (by simp) more _
  · rfl

theorem skip_followedBy (more : List Char) {n : Nat} (h : n ≤ c.rest.length) :
    (c.followedBy more).skip n = (c.skip n).followedBy more := by
  unfold skip followedBy
  rw [List.drop_append_of_le_length h, List.take_append_of_le_length h]

theorem length_lexeme_le (cs : List Char) : (Token.lexeme cs).length ≤ cs.length := by
  have hlength := congrArg List.length (Token.lexeme_append_drop cs)
  rw [List.length_append] at hlength
  omega

/-- **A token ends where the text ends.** -/
theorem token_followedBy (more : List Char) (hrest : c.rest ≠ []) :
    (c.followedBy more).token = (c.token.1, c.token.2.followedBy more) := by
  obtain ⟨rest, position⟩ := c
  obtain ⟨ch, cs, rfl⟩ := List.exists_cons_of_ne_nil hrest
  -- the line break ends the spelling of the token, so that it does not see what follows
  have hlexeme : Token.lexeme (ch :: (cs ++ '\n' :: more)) = Token.lexeme (ch :: cs) := by
    have hbehind := lexeme_append_behind hrest (pieces more)
    rwa [behind_pieces] at hbehind
  have hskip {n : Nat} (h : n ≤ (ch :: cs).length) :=
    skip_followedBy (c := ⟨ch :: cs, position⟩) more h
  have hone := hskip (Nat.succ_le_succ (Nat.zero_le cs.length))
  have hspelling := hskip (length_lexeme_le (ch :: cs))
  simp only [followedBy, List.cons_append] at hone hspelling ⊢
  simp only [token, hlexeme, hone, hspelling]
  split
  · rfl
  · split
    · rfl
    · split <;> rfl

theorem rest_of_token_eof (h : c.token = (.ok t, c')) (ht : t.value = .eof) : c.rest = [] := by
  rw [token] at h
  split at h
  · assumption
  · split at h
    · obtain ⟨rfl, -⟩ : _ ∧ _ := by simpa using h
      simp at ht
    · dsimp only at h
      split at h
      · simp at h
      · split at h
        · rename_i u hu
          obtain ⟨rfl, -⟩ : _ ∧ _ := by simpa using h
          obtain rfl : u = .eof := ht
          simpa using not_mem_of_ofLexeme hu
        · simp at h

theorem token_of_rest_nil (h : c.rest = []) : c.token = (.ok ⟨.eof, .point c.position⟩, c) := by
  obtain ⟨rest, position⟩ := c
  obtain rfl : rest = [] := h
  rfl

/-- **Before the end the cursor does not see what comes behind it.** -/
theorem next_followedBy {r : Except LexError (Located Token)} (h : c.next = (r, c'))
    (hr : ∀ t, r = .ok t → t.value ≠ .eof) (more : List Char) :
    (c.followedBy more).next = (r, c'.followedBy more) := by
  have hrest : c.skipGap.rest ≠ [] := by
    intro hnil
    rw [next, token_of_rest_nil hnil] at h
    obtain ⟨rfl, -⟩ := Prod.mk.inj h
    exact hr _ rfl rfl
  rw [next] at h ⊢
  rw [skipGap_followedBy, token_followedBy more hrest, h]

/-- **At the end of the text a new line starts.** -/
theorem next_followedBy_of_eof (hc : c.Fits text.toList) (h : c.next = (.ok t, c'))
    (ht : t.value = .eof) :
    t = ⟨.eof, .point (.stop text)⟩ ∧ c' = ⟨[], .stop text⟩ ∧
      ∀ more, (c.followedBy more).next =
        (.ok ⟨.newline, .point (.stop text)⟩, ⟨more, (Position.stop text).after '\n'⟩) := by
  have hrest := rest_of_token_eof h ht
  rw [next, token_of_rest_nil hrest] at h
  obtain ⟨ht, rfl⟩ : _ = t ∧ _ := by simpa using h
  -- the cursor has passed the whole text
  have hstop : c.skipGap = ⟨[], .stop text⟩ := by
    obtain ⟨gap, hgap, -⟩ := c.passes_skipGap
    obtain ⟨cs, hcs⟩ := hc.passes hgap
    have htext := hcs.rest
    have hposition := hcs.position
    generalize c.skipGap = d at hrest htext hposition
    obtain ⟨rest, position⟩ := d
    obtain rfl : rest = [] := hrest
    obtain rfl : text.toList = cs := by simpa using htext
    obtain rfl : position = .stop text := hposition
    rfl
  rw [hstop] at ht
  refine ⟨ht.symm, hstop, fun more => ?_⟩
  rw [next, skipGap_followedBy, hstop]
  rfl

/-- No token stands further to the right than the text is long. -/
theorem column_le_of_next (hc : c.Fits text.toList) (h : c.next = (.ok t, c')) :
    t.span.start.column ≤ text.length + 1 := by
  obtain ⟨gap, hgap, -⟩ := c.passes_skipGap
  obtain ⟨cs, hcs⟩ := hc.passes hgap
  have hle := Position.column_advance_le (p := .start) Nat.one_pos cs
  have hlength := congrArg List.length hcs.rest
  rw [List.length_append, String.length_toList] at hlength
  rw [start_of_token h, hcs.position]
  have hstart : Position.start.column = 1 := rfl
  show (Position.start.advance cs).column ≤ _
  omega

end Cursor

/-! ### Layouts -/

namespace Layout

variable {text : String} {s s' : Layout} {t : Located Token}

/-- The same place in the text that goes on, on a new line, with `more`. -/
def followedBy (more : List Char) (s : Layout) : Layout :=
  { s with cursor := s.cursor.followedBy more }

/-- The layout has not met the end of the text. -/
structure Reading (text : String) (s : Layout) : Prop where
  fits : s.cursor.Fits text.toList
  narrow : ∀ column ∈ s.columns, column ≤ text.length + 1
  inner : ∀ t ∈ s.queue, t.value ≠ .eof

/-- **The off-side rule looks at the token only**, and not at the text behind it. -/
theorem accept_cursor (hq : s.queue = []) (t : Located Token) (c : Cursor) :
    { s with cursor := c }.accept t = { s.accept t with cursor := c } := by
  have hq' : { s with cursor := c }.queue = [] := hq
  have hfields {u v : Layout} (hcursor : u.cursor = v.cursor) (hcolumns : u.columns = v.columns)
      (hqueue : u.queue = v.queue) (hafter : u.afterOf = v.afterOf)
      (hfresh : u.freshLine = v.freshLine) : u = v := by
    cases u
    cases v
    simp_all
  refine hfields (cursor_accept _ t) ?_ ?_ ?_ ?_
  · exact (columns_accept _ t).trans (columns_accept s t).symm
  · exact (queue_accept hq').trans (queue_accept hq).symm
  · exact (afterOf_accept _ t).trans (afterOf_accept s t).symm
  · exact (freshLine_accept _ t).trans (freshLine_accept s t).symm

theorem narrow_accept (hs : ∀ column ∈ s.columns, column ≤ text.length + 1)
    (ht : t.span.start.column ≤ text.length + 1) :
    ∀ column ∈ (s.accept t).columns, column ≤ text.length + 1 := by
  intro column hcolumn
  rw [columns_accept] at hcolumn
  split at hcolumn
  · rcases List.mem_cons.1 hcolumn with rfl | hcolumn
    · exact ht
    · exact hs column hcolumn
  · refine hs column ?_
    rw [← s.closedAt_append_openAt t]
    exact List.mem_append_right _ hcolumn

/-- The end of the text is not among the tokens that stand for another one. -/
theorem inner_piece (ht : t.value ≠ .eof) : ∀ u ∈ s.piece t, u.value ≠ .eof := by
  -- tokens that the layout adds are those of blocks, and the token itself is not the end
  have hinside : ∀ u ∈ s.pieceInside t, u.value ≠ .eof := by
    intro u hu
    unfold pieceInside at hu
    rcases List.mem_append.1 hu with hu | hu
    · obtain ⟨_, -, rfl⟩ := List.mem_map.1 hu
      simp [blockToken]
    · rcases List.mem_append.1 hu with hu | hu
      · split at hu
        · simp_all [blockToken]
        · simp at hu
      · split at hu
        · simp at hu
        · simp_all
  unfold piece
  split
  · simp [blockToken, ht]
  · split
    · simpa [blockToken] using hinside
    · exact hinside

/-- What the layout hands out next, in the text alone and in the text that goes on. -/
inductive Meets (text : String) (s : Layout) : Prop where
  | error {e : LexError} {s' : Layout} (h : s.next = (.error e, s'))
    (hmore : ∀ more, (s.followedBy more).next = (.error e, s'.followedBy more))
  | token {t : Located Token} {s' : Layout} (h : s.next = (.ok t, s')) (ht : t.value ≠ .eof)
    (hs' : s'.Reading text) (hmore : ∀ more, (s.followedBy more).next = (.ok t, s'.followedBy more))
  /-- The text ends here, and a new line starts if it goes on. -/
  | stop {fresh : Bool} (hq : s.queue = [])
    (h : s.next =
      ({ s with cursor := ⟨[], .stop text⟩, freshLine := fresh }.acceptEnd
        ⟨.eof, .point (.stop text)⟩).next)
    (hmore : ∀ more, (s.followedBy more).next =
      { s with cursor := ⟨more, (Position.stop text).after '\n'⟩, freshLine := true }.next)

/-- **Before the end of the text the layout does not see what comes behind it.** -/
theorem Reading.meets (hs : s.Reading text) : s.Meets text := by
  fun_induction next s with
  | case1 s hq e cursor hc =>
    rw [List.isEmpty_iff] at hq
    have hmore (more : List Char) := Cursor.next_followedBy hc (by simp) more
    exact .error (next_of_error hq hc) fun more => next_of_error hq (hmore more)
  | case2 s hq t cursor hc ht _ ih =>
    rw [List.isEmpty_iff] at hq
    have hnewline (more : List Char) : (s.followedBy more).next =
        ({ s with cursor, freshLine := true }.followedBy more).next :=
      next_of_newline hq (Cursor.next_followedBy hc (by simp [ht]) more) ht
    obtain ⟨cs, hcs⟩ := Cursor.passes_next hc
    have hs' : { s with cursor, freshLine := true }.Reading text :=
      ⟨hs.fits.passes hcs, hs.narrow, hs.inner⟩
    -- a newline changes nothing, in both texts
    have hsame := next_of_newline hq hc ht
    cases ih hs' with
    | error h hmore =>
      exact .error (hsame.trans h) fun more => (hnewline more).trans (hmore more)
    | token h hu hs' hmore =>
      exact .token (hsame.trans h) hu hs' fun more => (hnewline more).trans (hmore more)
    | stop _ h hmore =>
      exact .stop hq (hsame.trans h) fun more => (hnewline more).trans (hmore more)
  | case3 s hq t cursor hc ht s₁ t₁ s₂ hd =>
    rw [List.isEmpty_iff] at hq
    by_cases heof : t.value = .eof
    · obtain ⟨rfl, rfl, hmore⟩ := Cursor.next_followedBy_of_eof hs.fits hc heof
      have hnext := next_of_read hq hc
      rw [meet_of_eof rfl] at hnext
      exact .stop hq hnext fun more => next_of_newline hq (hmore more) rfl
    · -- the same token comes to the same layout, but for its cursor
      have hnext := next_of_read hq hc
      rw [meet_of_token ht heof] at hnext
      have hmore (more : List Char) : (s.followedBy more).next =
          (({ s with cursor }.accept t).followedBy more).next := by
        have hfollowed := Cursor.next_followedBy hc (by simpa using heof) more
        rw [next_of_read (s := s.followedBy more) hq hfollowed, meet_of_token ht heof]
        exact congrArg next ((accept_cursor hq t _).trans
          (congrArg (followedBy more) (accept_cursor hq t cursor)).symm)
      obtain ⟨cs, hcs⟩ := Cursor.passes_next hc
      obtain ⟨u, queue, hqueue⟩ := List.exists_cons_of_ne_nil (piece_ne_nil { s with cursor } t)
      have hpiece := queue_accept (s := { s with cursor }) (t := t) hq
      have hinner := inner_piece (s := { s with cursor }) heof
      rw [hqueue] at hinner hpiece
      have hu := next_of_queue hpiece
      refine .token (hnext.trans hu) (hinner u List.mem_cons_self) ⟨?_, ?_, ?_⟩ fun more => ?_
      · show ({ s with cursor }.accept t).cursor.Fits text.toList
        rw [cursor_accept]
        exact hs.fits.passes hcs
      · exact narrow_accept (s := { s with cursor }) hs.narrow (Cursor.column_le_of_next hs.fits hc)
      · exact fun v hv => hinner v (List.mem_cons_of_mem _ hv)
      · rw [hmore more]
        exact next_of_queue (s := ({ s with cursor }.accept t).followedBy more) hpiece
  | case4 s hq t s' hd =>
    cases hqueue : s.queue with
    | nil => simp [hqueue] at hq
    | cons u queue =>
      have hinner := hs.inner
      rw [hqueue] at hinner
      refine .token (next_of_queue hqueue) (hinner u List.mem_cons_self)
        ⟨hs.fits, hs.narrow, fun v hv => hinner v (List.mem_cons_of_mem _ hv)⟩ fun more => ?_
      exact next_of_queue (s := s.followedBy more) hqueue

end Layout

/-! ### Streams -/

namespace TokenStream

variable {text : String} {blocks : List Nat} {s s' : TokenStream} {t : Located Token} {k : Nat}

/-- The same place in the text that goes on, on a new line, with `more`. -/
def followedBy (more : List Char) (s : TokenStream) : TokenStream :=
  { s with layout := s.layout.followedBy more }

/-- The stream has not met the end of the text. -/
structure Before (text : String) (s : TokenStream) : Prop where
  layout : s.layout.Reading text
  lookahead : ∀ t ∈ s.lookahead, t.value ≠ .eof

/-- The stream has not met the end of the text, and these blocks are being read. -/
structure Reading (text : String) (blocks : List Nat) (s : TokenStream) : Prop extends
    s.Before text where
  inStep : s.InStep blocks

/-- What is met at the end of the text inside of `k` blocks. -/
def endToken (text : String) : Nat → Located Token
  | 0 => ⟨.eof, .point (.stop text)⟩
  | _ + 1 => ⟨.blockEnd, .point (.stop text)⟩

/-- The stream has met the end of the text inside of `k` blocks: it hands out an end for each of
them, and then the end of the text. -/
def Ended (text : String) : Nat → TokenStream → Prop
  | 0, s => ∃ s', s.peek = .ok (endToken text 0, s')
  | k + 1, s => ∃ s', s.peek = .ok (endToken text (k + 1), s') ∧
      Ended text k { s' with lookahead := none }

/-- Only what is seen next matters. -/
theorem ended_congr (h : s.peek = s'.peek) (hs : s.Ended text k) : s'.Ended text k := by
  cases k with
  | zero => rwa [Ended, ← h, ← Ended]
  | succ k => rwa [Ended, ← h, ← Ended]

theorem Ended.peek (h : s.Ended text k) :
    ∃ s', s.peek = .ok (endToken text k, s') ∧ s'.Ended text k := by
  have hagain {s' : TokenStream} (hpeek : s.peek = .ok (endToken text k, s')) :
      s'.Ended text k :=
    ended_congr (hpeek.trans (peek_of_lookahead (lookahead_of_peek hpeek)).symm) h
  cases k with
  | zero =>
    obtain ⟨s', hpeek⟩ := id h
    exact ⟨s', hpeek, hagain hpeek⟩
  | succ k =>
    obtain ⟨s', hpeek, -⟩ := id h
    exact ⟨s', hpeek, hagain hpeek⟩

/-- What cannot be looked at cannot be taken. -/
theorem advance_of_peek_error {e : LexError} (h : s.peek = .error e) : s.advance = .error e := by
  rw [peek] at h
  rw [TokenStream.advance]
  split at h
  · simp at h
  · cases hpull : s.pull with
    | error e' => simpa [hpull, Except.map] using h
    | ok result => simp [hpull, Except.map] at h

/-- Taking an end leaves the innermost block. -/
theorem Ended.advance_end (h : s.Ended text (k + 1)) :
    ∃ s', s.advance = .ok (endToken text (k + 1), s') ∧ s'.Ended text k := by
  obtain ⟨s', hpeek, hs'⟩ := h
  exact ⟨_, advance_of_peek hpeek, hs'⟩

theorem ended_of_queue {layout : Layout}
    (hq : layout.queue = List.replicate k (endToken text 1) ++ [endToken text 0]) :
    Ended text k ⟨layout, none⟩ := by
  induction k generalizing layout with
  | zero => exact ⟨_, peek_of_next rfl (Layout.next_of_queue hq)⟩
  | succ k ih => exact ⟨_, peek_of_next rfl (Layout.next_of_queue hq), ih rfl⟩

/-- What is seen next, in the text alone and in the text that goes on. -/
inductive Meets (text : String) (s : TokenStream) : Prop where
  | error {e : LexError} (h : s.peek = .error e)
    (hmore : ∀ more, (s.followedBy more).peek = .error e)
  | token {t : Located Token} {s' : TokenStream} (h : s.peek = .ok (t, s')) (ht : t.value ≠ .eof)
    (hs' : s'.Before text) (hmore : ∀ more, (s.followedBy more).peek = .ok (t, s'.followedBy more))
  /-- The text ends here, and a new line starts if it goes on. -/
  | stop {layout : Layout} (hnone : s.lookahead = none) (hq : s.layout.queue = [])
    (hqueue : layout.queue = s.layout.endPiece (endToken text 0))
    (h : s.peek = peek ⟨layout, none⟩)
    (hmore : ∀ more, ∃ v : TokenStream, v.Behind text more ∧
      v.layout.columns = s.layout.columns ∧ v.layout.afterOf = s.layout.afterOf ∧
        (s.followedBy more).peek = v.peek)

theorem Before.meets (hs : s.Before text) : s.Meets text := by
  obtain ⟨layout, lookahead⟩ := s
  cases lookahead with
  | some t => exact .token rfl (hs.lookahead t rfl) hs fun more => rfl
  | none =>
    cases hs.layout.meets with
    | @error e layout' h hmore =>
      have hpeek {layout layout' : Layout} (h : layout.next = (.error e, layout')) :
          peek ⟨layout, none⟩ = .error e := by
        simp [peek, pull, h, Except.map]
      exact .error (hpeek h) fun more => hpeek (hmore more)
    | @token t layout' h ht hs' hmore =>
      exact .token (peek_of_next rfl h) ht ⟨hs', by simpa using ht⟩ fun more =>
        peek_of_next rfl (hmore more)
    -- the text ends here; when it is continued, a fresh line follows instead
    | @stop fresh hq h hmore =>
      have hpeek {layout layout' : Layout} (h : layout.next = layout'.next) :
          peek ⟨layout, none⟩ = peek ⟨layout', none⟩ := by
        simp only [peek, pull, h]
      let line (more : List Char) : TokenStream :=
        ⟨{ layout with cursor := ⟨more, (Position.stop text).after '\n'⟩, freshLine := true }, none⟩
      have hqueue := Layout.queue_acceptEnd (t := endToken text 0)
        (s := { layout with cursor := ⟨[], .stop text⟩, freshLine := fresh }) hq
      refine .stop rfl hq hqueue (hpeek h) fun more => ?_
      exact ⟨line more, ⟨rfl, hq, rfl, rfl, hs.layout.narrow⟩, rfl, rfl, hpeek (hmore more)⟩

/-- What the reader of some blocks sees next. -/
inductive Sees (text : String) (blocks : List Nat) (s : TokenStream) : Prop where
  | error {e : LexError} (h : s.peek = .error e)
    (hmore : ∀ more, (s.followedBy more).peek = .error e)
  | token {t : Located Token} {s' : TokenStream} (h : s.peek = .ok (t, s')) (ht : t.value ≠ .eof)
    (hs' : s'.Reading text blocks)
    (hmore : ∀ more, (s.followedBy more).peek = .ok (t, s'.followedBy more))
  /-- The text ends, and if a line goes on with it, the blocks have to be closed. -/
  | stop (h : s.Ended text blocks.length)
    (hmore : ∀ more fs, Spells text more fs → (s.followedBy more).Yields
      (List.replicate blocks.length .close ++ Filler.cues fs))

/-- **Before its end a text does not tell how it goes on.**  Where it ends, the blocks that are
being read end too, but if it goes on with fillers, the parser has to close them. -/
theorem Reading.sees (hs : s.Reading text blocks) : s.Sees text blocks := by
  cases hs.toBefore.meets with
  | error h hmore => exact .error h hmore
  | token h ht hs' hmore => exact .token h ht ⟨hs', hs.inStep.peek h⟩ hmore
  | stop hnone hq hqueue h hmore =>
    -- nothing waits, so that all blocks are open
    obtain ⟨hof, hcolumns⟩ : s.layout.afterOf = false ∧ s.layout.columns = blocks := by
      obtain ⟨ends, rest, hwaiting, hrest, -, hcolumns⟩ := hs.inStep
      obtain ⟨rfl, rfl⟩ : ends = 0 ∧ rest = [] := by
        simpa [waiting, Layout.waiting, hnone, hq] using hwaiting
      exact ⟨by simpa using hrest.afterOf.symm, hcolumns⟩
    refine .stop ?_ fun more fs hspells => ?_
    · refine ended_congr h.symm (ended_of_queue ?_)
      rw [hqueue, Layout.endPiece, hof, hcolumns]
      simp [List.map_const', Layout.blockToken, endToken]
    · obtain ⟨v, hv, hvcolumns, hvof, hpeek⟩ := hmore more
      have hyields := hspells v hv
      rw [hvcolumns, hvof, hof, hcolumns] at hyields
      exact yields_congr hpeek.symm hyields

/-- What is seen behind `of`. -/
inductive SeesOf (text : String) (blocks : List Nat) (s : TokenStream) : Prop where
  | error {e : LexError} (h : s.peek = .error e)
    (hmore : ∀ more, (s.followedBy more).peek = .error e)
  /-- A block begins. -/
  | token {t : Located Token} {s' : TokenStream} (column : Nat) (h : s.peek = .ok (t, s'))
    (ht : t.value = .blockBegin)
    (hs' : { s' with lookahead := none }.Reading text (column :: blocks))
    (hmore : ∀ more, (s.followedBy more).peek = .ok (t, s'.followedBy more))
  /-- The text ends: the block is empty, unless a line goes on with the text. -/
  | stop {s' : TokenStream} {span : Span} (h : s.peek = .ok (⟨.blockBegin, span⟩, s'))
    (hs' : { s' with lookahead := none }.Ended text (blocks.length + 1))
    (hmore : ∀ more fs, Spells text more fs → (s.followedBy more).Yields
      (.token .blockBegin :: (List.replicate (blocks.length + 1) .close ++ Filler.cues fs)))

/-- **Behind `of` the text does not tell either how it goes on.** -/
theorem Before.seesOf (hs : s.Before text) (hof : s.BehindOf blocks) : s.SeesOf text blocks := by
  cases hs.meets with
  | error h hmore => exact .error h hmore
  | @token t s' h ht hs' hmore =>
    obtain ⟨hbegin, hinStep⟩ := hof.advance (advance_of_peek h)
    exact .token _ h hbegin ⟨⟨hs'.layout, by simp⟩, hinStep⟩ hmore
  | @stop layout hnone hq hqueue h hmore =>
    have hpiece : layout.queue = Layout.blockToken (endToken text 0) .blockBegin ::
        (List.replicate (blocks.length + 1) (endToken text 1) ++ [endToken text 0]) := by
      rw [hqueue, Layout.endPiece, hof.afterOf, hof.columns, List.replicate_succ]
      simp [List.map_const', Layout.blockToken, endToken]
    refine .stop (h.trans (peek_of_next rfl (Layout.next_of_queue hpiece))) (ended_of_queue rfl)
      fun more fs hspells => ?_
    obtain ⟨v, hv, hvcolumns, hvof, hpeek⟩ := hmore more
    have hyields := hspells v hv
    rw [hvcolumns, hvof, hof.afterOf, hof.columns] at hyields
    exact yields_congr hpeek.symm hyields

end TokenStream

end CallByNeed

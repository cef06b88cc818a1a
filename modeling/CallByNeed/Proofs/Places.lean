import CallByNeed.Proofs.Spelling

/-!
# Where tokens stand

A cursor that reads on passes the characters in front of it one by one, and its position tells how
many it has passed (`Cursor.Passes`).  Two facts about columns follow.  Neither a gap nor the
spelling of a token holds a newline, so that on one line the columns of the tokens rise
(`Cursor.column_of_next`).  And columns count from one (`Cursor.column_pos_of_next`).
-/

namespace CallByNeed

/-! ### Positions -/

namespace Position

/-- **On one line a column counts the characters before it.** -/
theorem column_advance {cs : List Char} (h : '\n' ∉ cs) (p : Position) :
    (p.advance cs).column = p.column + cs.length := by
  induction cs generalizing p with
  | nil => rfl
  | cons c cs ih =>
    obtain ⟨hc, hcs⟩ : '\n' ≠ c ∧ '\n' ∉ cs := by simpa using h
    have hafter : (p.after c).column = p.column + 1 := by
      rw [after, if_neg (Ne.symm hc)]
    rw [advance_cons, ih hcs, hafter, List.length_cons]
    omega

theorem column_after_pos (p : Position) (c : Char) : 0 < (p.after c).column := by
  unfold after
  split
  · exact Nat.one_pos
  · exact Nat.succ_pos _

/-- Columns count from one. -/
theorem column_advance_pos {p : Position} (h : 0 < p.column) (cs : List Char) :
    0 < (p.advance cs).column := by
  induction cs generalizing p with
  | nil => exact h
  | cons c cs ih => exact ih (p.column_after_pos c)

end Position

/-! ### No token runs over the end of its line -/

/-- A run of a class of characters holds none that is outside of the class. -/
theorem not_mem_takeWhile {p : Char → Bool} {d : Char} (hp : p d = false) (cs : List Char) :
    d ∉ cs.takeWhile p := by
  intro hmem
  have hd : p d = true := List.all_eq_true.1 List.all_takeWhile _ hmem
  simp [hp] at hd

/-- A spelling holds no character that is outside of all classes. -/
theorem not_mem_lexeme {d : Char} (hop : Token.isOperatorChar d = false)
    (hbracket : Token.isBracketChar d = false) (hdigit : d.isDigit = false)
    (hstart : Token.startsWord d = false) (hword : Token.continuesWord d = false)
    (cs : List Char) : d ∉ Token.lexeme cs := by
  cases cs with
  | nil => simp [Token.lexeme]
  | cons c cs =>
    -- the first character belongs to a class, and so do those behind it
    have key {p q : Char → Bool} (hp : p d = false) (hq : q d = false) (hc : p c = true) :
        d ∉ c :: cs.takeWhile q := by
      rw [List.mem_cons, not_or]
      refine ⟨?_, not_mem_takeWhile hq cs⟩
      rintro rfl
      simp [hp] at hc
    rw [Token.lexeme]
    split
    · rename_i hc
      exact key hop hop hc
    · split
      · rename_i hc
        rw [List.mem_singleton]
        rintro rfl
        simp [hbracket] at hc
      · split
        · rename_i hc
          exact key hdigit hdigit hc
        · split
          · rename_i hc
            exact key hstart hword hc
          · simp

theorem newline_not_mem_lexeme (cs : List Char) : '\n' ∉ Token.lexeme cs :=
  not_mem_lexeme (by decide) (by decide) (by decide) (by decide) (by decide) cs

theorem return_not_mem_lexeme (cs : List Char) : '\r' ∉ Token.lexeme cs :=
  not_mem_lexeme (by decide) (by decide) (by decide) (by decide) (by decide) cs

namespace Cursor

/-! ### Passing characters -/

/-- The second cursor stands behind the characters `cs`, which are the next ones of the first. -/
structure Passes (c : Cursor) (cs : List Char) (c' : Cursor) : Prop where
  rest : c.rest = cs ++ c'.rest
  position : c'.position = c.position.advance cs

section Passes

variable {c c' c'' : Cursor} {cs ds : List Char}

theorem Passes.refl (c : Cursor) : c.Passes [] c :=
  ⟨rfl, rfl⟩

theorem Passes.trans (h : c.Passes cs c') (h' : c'.Passes ds c'') : c.Passes (cs ++ ds) c'' := by
  refine ⟨?_, ?_⟩
  · rw [h.rest, h'.rest, List.append_assoc]
  · rw [h'.position, h.position, Position.advance_append]

theorem passes_skip (c : Cursor) (n : Nat) : c.Passes (c.rest.take n) (c.skip n) :=
  ⟨(List.take_append_drop n c.rest).symm, rfl⟩

theorem passes_skipWhile (c : Cursor) (p : Char → Bool) :
    c.Passes (c.rest.takeWhile p) (c.skipWhile p) := by
  have htake : c.rest.take (c.rest.takeWhile p).length = c.rest.takeWhile p :=
    (List.prefix_iff_eq_take.1 (List.takeWhile_prefix p)).symm
  have hskip := c.passes_skip (c.rest.takeWhile p).length
  rwa [htake] at hskip

/-- **A gap stays on its line.** -/
theorem passes_skipGap (c : Cursor) : ∃ gap, c.Passes gap c.skipGap ∧ '\n' ∉ gap := by
  have hblanks := c.passes_skipWhile isInlineBlank
  have hblank : '\n' ∉ c.rest.takeWhile isInlineBlank := not_mem_takeWhile (by decide) _
  unfold skipGap
  dsimp only
  split
  · have hcomment := (c.skipWhile isInlineBlank).passes_skipWhile (· != '\n')
    refine ⟨_, hblanks.trans hcomment, ?_⟩
    rw [List.mem_append, not_or]
    exact ⟨hblank, not_mem_takeWhile (by simp) _⟩
  · exact ⟨_, hblanks, hblank⟩

/-- **A token of the text passes its spelling.** -/
theorem passes_lexeme (c : Cursor) :
    c.Passes (Token.lexeme c.rest) (c.skip (Token.lexeme c.rest).length) := by
  have hbegins : Token.lexeme c.rest <+: c.rest := ⟨_, Token.lexeme_append_drop c.rest⟩
  have htake : c.rest.take (Token.lexeme c.rest).length = Token.lexeme c.rest :=
    (List.prefix_iff_eq_take.1 hbegins).symm
  have hskip := c.passes_skip (Token.lexeme c.rest).length
  rwa [htake] at hskip

/-- Whatever is read at the cursor, it passes some characters. -/
theorem passes_token {r : Except LexError (Located Token)} (h : c.token = (r, c')) :
    ∃ cs, c.Passes cs c' := by
  rw [token] at h
  split at h
  · obtain ⟨-, rfl⟩ := Prod.mk.inj h
    exact ⟨_, Passes.refl c⟩
  · split at h
    · obtain ⟨-, rfl⟩ := Prod.mk.inj h
      exact ⟨_, c.passes_skip 1⟩
    · dsimp only at h
      split at h
      · obtain ⟨-, rfl⟩ := Prod.mk.inj h
        exact ⟨_, Passes.refl c⟩
      · split at h <;>
          · obtain ⟨-, rfl⟩ := Prod.mk.inj h
            exact ⟨_, c.passes_lexeme⟩

/-- **Reading on passes some characters**, also if it ends in an error. -/
theorem passes_next {r : Except LexError (Located Token)} (h : c.next = (r, c')) :
    ∃ cs, c.Passes cs c' := by
  obtain ⟨gap, hgap, -⟩ := c.passes_skipGap
  obtain ⟨spelling, hspelling⟩ := passes_token h
  exact ⟨_, hgap.trans hspelling⟩

end Passes

/-! ### Columns -/

section Columns

variable {c c' : Cursor} {t : Located Token}

/-- **A token starts where the cursor stands**, behind a gap. -/
theorem start_of_token (h : c.token = (.ok t, c')) : t.span.start = c.position := by
  rw [token] at h
  split at h
  · obtain ⟨rfl, -⟩ : _ ∧ _ := by simpa using h
    rfl
  · split at h
    · obtain ⟨rfl, -⟩ : _ ∧ _ := by simpa using h
      rfl
    · dsimp only at h
      split at h
      · simp at h
      · split at h
        · obtain ⟨rfl, -⟩ : _ ∧ _ := by simpa using h
          rfl
        · simp at h

/-- Behind a token of the text the cursor has passed its spelling. -/
theorem cursor_of_token (h : c.token = (.ok t, c')) (hline : t.value ≠ .newline)
    (heof : t.value ≠ .eof) : c' = c.skip (Token.lexeme c.rest).length := by
  rw [token] at h
  split at h
  · obtain ⟨rfl, -⟩ : _ ∧ _ := by simpa using h
    exact absurd rfl heof
  · split at h
    · obtain ⟨rfl, -⟩ : _ ∧ _ := by simpa using h
      exact absurd rfl hline
    · dsimp only at h
      split at h
      · simp at h
      · split at h
        · obtain ⟨-, rfl⟩ := Prod.mk.inj h
          rfl
        · simp at h

/-- **On one line the columns rise**: a token starts in the column of the cursor or further to the
right, and leaves the cursor still further to the right. -/
theorem column_of_next (h : c.next = (.ok t, c')) (hline : t.value ≠ .newline)
    (heof : t.value ≠ .eof) :
    c.position.column ≤ t.span.start.column ∧ t.span.start.column < c'.position.column := by
  obtain ⟨gap, hgap, hgapLine⟩ := c.passes_skipGap
  have hstart : t.span.start.column = c.position.column + gap.length := by
    rw [start_of_token h, hgap.position, Position.column_advance hgapLine]
  have hstop : c'.position.column =
      t.span.start.column + (Token.lexeme c.skipGap.rest).length := by
    rw [cursor_of_token h hline heof, c.skipGap.passes_lexeme.position, start_of_token h,
      Position.column_advance (newline_not_mem_lexeme _)]
  have hne : (Token.lexeme c.skipGap.rest).length ≠ 0 := by
    rw [Ne, List.length_eq_zero_iff]
    exact (ofLexeme_of_token h hline heof).1
  omega

/-- **Columns count from one**, those of tokens as those of the cursor. -/
theorem column_pos_of_next (h : c.next = (.ok t, c')) (hc : 0 < c.position.column) :
    0 < t.span.start.column ∧ 0 < c'.position.column := by
  obtain ⟨gap, hgap, -⟩ := c.passes_skipGap
  obtain ⟨cs, hcs⟩ := passes_next h
  rw [start_of_token h, hgap.position, hcs.position]
  exact ⟨Position.column_advance_pos hc gap, Position.column_advance_pos hc cs⟩

end Columns

end Cursor

end CallByNeed

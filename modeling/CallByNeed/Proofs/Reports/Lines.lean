import CallByNeed.Proofs.Spans.Fragments
import CallByNeed.Text.Lines

/-!
# Positions and lines

A position counts the newlines in front of it while the text is read.  The lines of a text are cut
out of it all at once: at the newlines, without the carriage returns in front of these, and without
an empty line at the end.  So a position may have no line, or stand behind the end of its line.

A character that does not belong to the end of a line is found in the line and the column of its
position (`Text.exists_line`).  Therefore fragments lie within their lines, and a point may at worst
be one that has no line (`Span.Fits`).
-/

namespace CallByNeed

namespace Text

/-! ### Pieces -/

/-- What stands behind the last newline. -/
def lastPiece (cs : List Char) : List Char :=
  (cs.reverse.takeWhile (· != '\n')).reverse

theorem lastPiece_newline (cs : List Char) : lastPiece (cs ++ ['\n']) = [] := by
  simp [lastPiece]

theorem lastPiece_concat {c : Char} (hc : c ≠ '\n') (cs : List Char) :
    lastPiece (cs ++ [c]) = lastPiece cs ++ [c] := by
  simp [lastPiece, hc]

theorem exists_pieces (cs : List Char) : ∃ piece rest, pieces cs = piece :: rest := by
  induction cs with
  | nil => exact ⟨[], [], rfl⟩
  | cons c cs ih =>
    obtain ⟨piece, rest, h⟩ := ih
    rw [pieces, h]
    dsimp only
    split
    · exact ⟨[], piece :: rest, rfl⟩
    · exact ⟨c :: piece, rest, rfl⟩

variable {before after piece : List Char} {rest : List (List Char)}

/-- **The pieces from a place on**: the one in which the place is, and those behind it.  A newline
in front of the place is a piece in front of it. -/
theorem drop_pieces (h : pieces after = piece :: rest) :
    (pieces (before ++ after)).drop (before.count '\n') = (lastPiece before ++ piece) :: rest := by
  induction before using List.reverseRecOn generalizing after piece rest with
  | nil => simpa [lastPiece] using h
  | append_singleton before c ih =>
    rw [List.append_assoc, List.singleton_append, List.count_append]
    by_cases hc : c = '\n'
    · have hcons : pieces (c :: after) = [] :: piece :: rest := by
        rw [pieces, h]
        simp [hc]
      have hcount : [c].count '\n' = 1 := by simp [hc]
      rw [hcount, ← List.drop_drop, ih hcons, hc, lastPiece_newline]
      rfl
    · have hcons : pieces (c :: after) = (c :: piece) :: rest := by
        rw [pieces, h]
        simp [hc]
      have hcount : [c].count '\n' = 0 := by simp [hc]
      rw [hcount, Nat.add_zero, ih hcons, lastPiece_concat hc, List.append_assoc]
      rfl

/-! ### Lines -/

/-- Lines are closed one by one. -/
theorem closeLines_drop (n : Nat) (ls : List (List Char)) :
    closeLines (ls.drop n) = (closeLines ls).drop n := by
  induction n generalizing ls with
  | zero => rfl
  | succ n ih =>
    match ls with
    | [] => simp [closeLines]
    | [last] =>
      rw [closeLines]
      split <;> simp [closeLines]
    | line :: next :: rest => simp [closeLines, ih]

/-- A line is not cut off in front of a character that does not end it. -/
theorem le_length_dropReturn {c : Char} (hc : c ≠ '\r') (cs ds : List Char) :
    cs.length + 1 ≤ (dropReturn (cs ++ c :: ds)).length := by
  unfold dropReturn
  split
  · rename_i hreturn
    cases ds with
    | nil => exact absurd (by simpa using hreturn) hc
    | cons d ds =>
      simp only [List.length_dropLast, List.length_append, List.length_cons]
      omega
  · simp only [List.length_append, List.length_cons]
    omega

/-- **A character that does not belong to the end of a line is found in its line and column.** -/
theorem exists_line {text : String} {c : Char} (h : text.toList = before ++ c :: after)
    (hc : c ≠ '\n' ∧ c ≠ '\r') :
    ∃ line, (lines text)[(Position.start.advance before).line - 1]? = some line ∧
      (Position.start.advance before).column ≤ line.length := by
  obtain ⟨piece, rest, hafter⟩ := exists_pieces after
  have hcons : pieces (c :: after) = (c :: piece) :: rest := by
    rw [pieces, hafter]
    simp [hc.1]
  have hdrop : (closeLines (pieces text.toList)).drop (before.count '\n') =
      closeLines ((lastPiece before ++ c :: piece) :: rest) := by
    rw [h, ← closeLines_drop, drop_pieces hcons]
  -- the piece holds the character, so that it is a line also if it is the last one
  obtain ⟨line, hline, hle⟩ : ∃ line, (closeLines (pieces text.toList))[before.count '\n']? =
      some line ∧ (lastPiece before).length + 1 ≤ line.length := by
    rw [← List.head?_drop, hdrop]
    cases rest with
    | nil => exact ⟨lastPiece before ++ c :: piece, by simp [closeLines], by simp⟩
    | cons next rest => exact ⟨_, rfl, le_length_dropReturn hc.2 (lastPiece before) piece⟩
  refine ⟨String.ofList line, ?_, ?_⟩
  · rw [Position.start_advance, lines, List.getElem?_map]
    simp [hline]
  · rw [Position.start_advance, String.length_ofList]
    have hlength : (lastPiece before).length =
        (before.reverse.takeWhile (· != '\n')).length := List.length_reverse
    dsimp only
    omega

end Text

/-! ### Spans within their lines -/

/-- A span can be marked in lines: it starts somewhere, and ends there or behind it.  If it covers
several lines, these are there, and it starts and ends within the first and the last one. -/
structure Span.Fits (lines : List String) (span : Span) : Prop where
  line_pos : 1 ≤ span.start.line
  column_pos : 1 ≤ span.start.column
  line_le : span.start.line ≤ span.stop.line
  column_le : span.start.line = span.stop.line → span.start.column ≤ span.stop.column
  first : span.start.line < span.stop.line →
    ∃ line, lines[span.start.line - 1]? = some line ∧ span.start.column ≤ line.length
  last : span.start.line < span.stop.line →
    ∃ line, lines[span.stop.line - 1]? = some line ∧ span.stop.column ≤ line.length

/-- The line of a place, counted from the place in front of it. -/
theorem Position.line_advance (p : Position) (cs : List Char) :
    (p.advance cs).line = p.line + cs.count '\n' := by
  induction cs generalizing p with
  | nil => rfl
  | cons c cs ih =>
    rw [advance_cons, ih, after]
    by_cases hc : c = '\n'
    · simp [hc]
      omega
    · simp [hc]

variable {text : String}

/-- **Fragments lie within their lines.** -/
theorem Fragment.fits (f : Fragment text) : f.span.Fits (Text.lines text) := by
  obtain ⟨c, hc, hcline⟩ := f.head
  obtain ⟨d, hd, hdline⟩ := f.last
  obtain ⟨more, hmore⟩ := List.head?_eq_some_iff.1 hc
  obtain ⟨front, hfront⟩ := List.getLast?_eq_some_iff.1 hd
  have hfirst : text.toList = f.before ++ c :: (more ++ f.after) := by
    rw [f.toList_eq, hmore, List.cons_append]
  have hlast : text.toList = (f.before ++ front) ++ d :: f.after := by
    rw [f.toList_eq, hfront]
    simp
  -- the last character stands in the line and the column in which the span ends
  have hstop : f.span.stop.line = (Position.start.advance (f.before ++ front)).line ∧
      f.span.stop.column = (Position.start.advance (f.before ++ front)).column := by
    have hadvance : Position.start.advance (f.before ++ f.inner) =
        (Position.start.advance (f.before ++ front)).after d := by
      rw [hfront, ← List.append_assoc, Position.advance_append, Position.advance_cons,
        Position.advance_nil]
    unfold Fragment.span Span.between
    rw [hadvance, Position.after, if_neg hdline.1]
    exact ⟨rfl, Nat.add_sub_cancel ..⟩
  have hstart : f.span.start = Position.start.advance f.before := rfl
  have hline := (Position.start.advance f.before).line_advance front
  refine ⟨?_, ?_, ?_, fun hsame => ?_, fun _ => ?_, fun _ => ?_⟩
  · rw [hstart, Position.start_advance]
    exact Nat.le_add_right ..
  · exact Position.column_advance_pos Nat.one_pos f.before
  · rw [hstop.1, hstart, Position.advance_append, hline]
    exact Nat.le_add_right ..
  · rw [hstop.1, hstart, Position.advance_append, hline] at hsame
    have hfree : '\n' ∉ front := List.count_eq_zero.1 (by omega)
    rw [hstop.2, hstart, Position.advance_append, Position.column_advance hfree]
    exact Nat.le_add_right ..
  · rw [hstart]
    exact Text.exists_line hfirst hcline
  · rw [hstop.1, hstop.2]
    exact Text.exists_line hlast hdline

/-- **So do points**, whose line need not be there. -/
theorem Span.IsPoint.fits {span : Span} (h : span.IsPoint text) :
    span.Fits (Text.lines text) := by
  have htrue := h.start
  unfold Position.ofIndex? at htrue
  obtain ⟨⟨before, after⟩, -, hposition⟩ := Option.map_eq_some_iff.1 htrue
  have hline : 1 ≤ span.start.line := by
    rw [← congrArg Position.line hposition]
    exact Nat.le_add_right ..
  have hcolumn : 1 ≤ span.start.column := by
    rw [← congrArg Position.column hposition]
    exact Nat.le_add_right ..
  have hnever : ¬ span.start.line < span.stop.line := by
    rw [h.stop]
    exact Nat.lt_irrefl _
  exact ⟨hline, hcolumn, by rw [h.stop], fun _ => by rw [h.stop], fun hlt => absurd hlt hnever,
    fun hlt => absurd hlt hnever⟩

theorem Span.IsSpot.fits {span : Span} (h : span.IsSpot text) : span.Fits (Text.lines text) := by
  rcases h with ⟨f, rfl⟩ | hpoint
  · exact f.fits
  · exact hpoint.fits

end CallByNeed

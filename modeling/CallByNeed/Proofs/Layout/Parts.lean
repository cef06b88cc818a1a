import CallByNeed.Proofs.Layout.Pieces
import Mathlib.Data.List.Basic

/-!
# The parts of a piece

What the layout makes of a token has three parts (`Layout.share_eq`): the beginning of a block, if
the last token was `of`; marks, which are ends of blocks and perhaps a delimiter; and the token
itself, or a delimiter in its place.  From this follows where in a piece a block can begin and where
the end of the text can stand, and that a piece balances the blocks that it opens and ends
(`Layout.count_share`).
-/

namespace CallByNeed

/-- The tokens that the layout adds. -/
def Token.isBlock (t : Token) : Bool :=
  t ∈ [blockBegin, blockDelim, blockEnd]

namespace Layout

/-! ### Beginning, marks and token -/

/-- The number of block tokens of one kind. -/
def count (block : Token) (ts : List (Located Token)) : Nat :=
  ts.countP (·.value = block)

theorem count_append (block : Token) (ts us : List (Located Token)) :
    count block (ts ++ us) = count block ts + count block us :=
  List.countP_append ..

/-- What stands for a token itself: a delimiter for a pipe that is left out. -/
def standIn (s : Layout) (t : Located Token) : Located Token :=
  if s.swallows t then blockToken t .blockDelim else t

/-- The block tokens between the beginning of a block and the token. -/
def marks (s : Layout) (t : Located Token) : List (Located Token) :=
  if s.opensAt t && t.value ≠ .eof then []
  else
    (if s.afterOf then [blockToken t .blockEnd] else []) ++
      ((if t.value = .eof then s.columns else s.closedAt t).map (fun _ => blockToken t .blockEnd) ++
        if t.value ≠ .eof && s.alignsAt t && !s.swallows t then [blockToken t .blockDelim] else [])

section Parts

variable {s : Layout} {t : Located Token}

/-- **What stands for a token**: the beginning of a block behind `of`, marks and the token. -/
theorem share_eq (hline : t.value ≠ .newline) :
    s.share t = (if s.afterOf then [blockToken t .blockBegin] else []) ++
      (s.marks t ++ [s.standIn t]) := by
  unfold share marks standIn
  rw [if_neg hline]
  by_cases heof : t.value = .eof
  · have hswallows : s.swallows t = false := by simp [swallows, heof]
    cases hof : s.afterOf <;> simp [heof, hswallows, endPiece, hof]
  · unfold piece pieceInside
    by_cases hopen : s.opensAt t = true
    · have hof : s.afterOf = true := by
        simp only [opensAt, Bool.and_eq_true] at hopen
        exact hopen.1
      have hswallows : s.swallows t = false := by simp [swallows, hopen]
      simp [heof, hopen, hof, hswallows]
    · cases hof : s.afterOf <;> cases hswallows : s.swallows t <;> cases haligns : s.alignsAt t <;>
        simp [heof, hopen]

theorem mem_marks {u : Located Token} (hu : u ∈ s.marks t) :
    u = blockToken t .blockEnd ∨ u = blockToken t .blockDelim ∧ s.swallows t = false := by
  unfold marks at hu
  grind

/-- **Blocks that begin, end and stay open** at a token. -/
theorem count_marks (hline : t.value ≠ .newline) (cursor : Cursor) :
    s.columns.length + s.afterOf.toNat =
      count .blockEnd (s.marks t) + (s.meet t cursor).columns.length := by
  have hends (ms : List Nat) : count .blockEnd (ms.map fun _ => blockToken t .blockEnd) =
      ms.length := by
    rw [count, List.countP_map, List.countP_eq_length.2 (fun _ _ => by simp [blockToken])]
  have hopening : count .blockEnd (if s.afterOf then [blockToken t .blockEnd] else []) =
      s.afterOf.toNat := by
    cases s.afterOf <;> rfl
  unfold marks
  -- the end of the text ends all blocks
  by_cases heof : t.value = .eof
  · simp only [heof, ne_eq, not_true_eq_false, decide_false, Bool.and_false, Bool.false_and,
      Bool.false_eq_true, if_false, if_true, List.append_nil]
    rw [meet_of_eof heof, columns_acceptEnd, count_append, hends, hopening, List.length_nil]
    omega
  · have hcolumns : (s.meet t cursor).columns =
        if s.opensAt t then t.span.start.column :: s.columns else s.openAt t := by
      rw [meet_of_token hline heof]
      exact columns_accept _ t
    rw [hcolumns]
    -- a token that opens a block ends none
    by_cases hopen : s.opensAt t = true
    · have hof : s.afterOf = true := by
        simp only [opensAt, Bool.and_eq_true] at hopen
        exact hopen.1
      simp [heof, hopen, hof, count]
    · -- the columns are split into those that are closed and those that stay
      have hsplit := congrArg List.length (closedAt_append_openAt s t)
      rw [List.length_append] at hsplit
      have hdelim : count .blockEnd (if t.value ≠ .eof && s.alignsAt t && !s.swallows t then
          [blockToken t .blockDelim] else []) = 0 := by
        split <;> rfl
      rw [if_neg (by simp [hopen]), if_neg hopen, if_neg heof, count_append, count_append, hends,
        hdelim, hopening]
      omega

end Parts

/-! ### What every piece is like -/

section Share

variable {s : Layout} {t u : Located Token}

/-- Behind the beginning of a block there is no other one. -/
theorem ne_begin_of_mem (ht : t.value.isBlock = false) (hu : u ∈ s.marks t ++ [s.standIn t]) :
    u.value ≠ .blockBegin := by
  have hblock : t.value ≠ .blockBegin := by
    intro h
    simp [h, Token.isBlock] at ht
  rcases List.mem_append.1 hu with hu | hu
  · rcases mem_marks hu with rfl | ⟨rfl, -⟩ <;> simp [blockToken]
  · obtain rfl := List.mem_singleton.1 hu
    unfold standIn
    split
    · simp [blockToken]
    · exact hblock

/-- A piece starts with the beginning of a block just behind `of`. -/
theorem head_share (hline : t.value ≠ .newline) (ht : t.value.isBlock = false)
    (hu : u ∈ (s.share t).head?) : u.value = .blockBegin ↔ s.afterOf = true := by
  rw [share_eq hline] at hu
  cases hof : s.afterOf with
  | true =>
    obtain rfl : blockToken t .blockBegin = u := by simpa [hof] using hu
    simp [blockToken]
  | false =>
    have hmem : u ∈ s.marks t ++ [s.standIn t] := List.mem_of_head? (by simpa [hof] using hu)
    simp [ne_begin_of_mem ht hmem]

theorem ne_begin_of_mem_tail (hline : t.value ≠ .newline) (ht : t.value.isBlock = false)
    (hu : u ∈ (s.share t).tail) : u.value ≠ .blockBegin := by
  rw [share_eq hline] at hu
  refine ne_begin_of_mem (s := s) ht ?_
  cases hof : s.afterOf with
  | true => simpa [hof] using hu
  | false => exact List.mem_of_mem_tail (by simpa [hof] using hu)

/-- The block tokens in front of the token. -/
theorem isBlock_of_mem_dropLast (hline : t.value ≠ .newline) (hu : u ∈ (s.share t).dropLast) :
    u.value.isBlock = true := by
  rw [share_eq hline, ← List.append_assoc, List.dropLast_concat] at hu
  rcases List.mem_append.1 hu with hu | hu
  · split at hu
    · obtain rfl := List.mem_singleton.1 hu
      rfl
    · cases hu
  · rcases mem_marks hu with rfl | ⟨rfl, -⟩ <;> rfl

theorem getLast?_share (hline : t.value ≠ .newline) :
    (s.share t).getLast? = some (s.standIn t) := by
  rw [share_eq hline, ← List.append_assoc, List.getLast?_concat]

/-- The end of the text stands for itself only. -/
theorem eof_of_mem_share (hline : t.value ≠ .newline) (hu : u ∈ s.share t)
    (heof : u.value = .eof) : t.value = .eof := by
  have hblock : u.value.isBlock = false := by
    rw [heof]
    rfl
  rw [← List.dropLast_append_getLast? _ (getLast?_share hline)] at hu
  rcases List.mem_append.1 hu with hu | hu
  · simp [isBlock_of_mem_dropLast hline hu] at hblock
  · obtain rfl := List.mem_singleton.1 hu
    unfold standIn at heof
    split at heof
    · simp [blockToken] at heof
    · exact heof

/-- **A piece balances the blocks that it opens and ends.** -/
theorem count_share (hline : t.value ≠ .newline) (ht : t.value.isBlock = false) (cursor : Cursor) :
    count .blockBegin (s.share t) + s.columns.length =
      count .blockEnd (s.share t) + (s.meet t cursor).columns.length := by
  have hmarks := count_marks (s := s) hline cursor
  have hbegin : count .blockBegin (s.marks t ++ [s.standIn t]) = 0 :=
    List.countP_eq_zero.2 fun u hu => by simpa using ne_begin_of_mem ht hu
  have hend : count .blockEnd [s.standIn t] = 0 := by
    have hne : t.value ≠ .blockEnd := by
      intro h
      simp [h, Token.isBlock] at ht
    unfold standIn
    split <;> simp [count, blockToken, hne]
  have hopening : count .blockBegin (if s.afterOf then [blockToken t .blockBegin] else []) =
      s.afterOf.toNat := by
    cases s.afterOf <;> rfl
  have hopened : count .blockEnd (if s.afterOf then [blockToken t .blockBegin] else []) = 0 := by
    cases s.afterOf <;> rfl
  rw [share_eq hline, count_append, count_append .blockEnd, hbegin,
    count_append .blockEnd (s.marks t), hend, hopening, hopened]
  omega

end Share

end Layout

end CallByNeed

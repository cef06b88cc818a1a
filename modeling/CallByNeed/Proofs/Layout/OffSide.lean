import CallByNeed.Proofs.Layout.Pieces
import CallByNeed.Proofs.Places
import Mathlib.Algebra.GroupWithZero.Nat
import Mathlib.Data.List.TakeWhile

/-!
# The off-side algorithm

The off-side rule can be stated without flags, as an algorithm on annotated tokens.  First each
token that is first on its line is marked with its column, and behind each `of` stands the column of
the block that is to open there (`OffSide.annotate`).  Then the marks are resolved against the stack
of reference columns (`OffSide.resolve`): a mark of a line ends the blocks further to the right and
starts an item of the block in its column, and a mark of a block opens it if it is further to the
right than the block around it.

The layout never compares columns when a block opens on the line of its `of`.  It need not: on one
line the columns rise, so that the cursor stands further to the right than every open block
(`Layout.Inward`).  Hence it hands out what the algorithm makes of the annotated tokens
(`Layout.results_eq_resolve`).
-/

namespace CallByNeed

namespace OffSide

/-! ### The algorithm -/

/-- An annotated token list is made of tokens and of two kinds of marks, each with the span of the
token behind it. -/
inductive Item where
  | token (t : Located Token)
  /-- The next token is the first one on its line and stands in this column. -/
  | line (column : Nat) (span : Span)
  /-- A block is to open in this column. -/
  | block (column : Nat) (span : Span)
deriving DecidableEq, Repr

/-- Annotates tokens and drops the newlines.  `fresh` tells that no token of the line has been met,
and `afterOf` that the last token was `of`.  Where a block is to open at the end of the text its
column is zero. -/
def annotate (fresh afterOf : Bool) : List (Located Token) → List Item
  | [] => []
  | t :: ts =>
    if t.value = .newline then annotate true afterOf ts
    else
      let column := if t.value = .eof then 0 else t.span.start.column
      let marks :=
        if afterOf then [.block column t.span]
        else if fresh && t.value ≠ .eof then [.line column t.span]
        else []
      marks ++ .token t :: annotate false t.value.opensBlock ts

/-- What stands directly in front of a token. -/
inductive Before where
  /-- The beginning of a block. -/
  | opening
  /-- The delimiter that the mark of the token's line has produced. -/
  | delimiter
  /-- Anything else. -/
  | other
deriving DecidableEq, Repr

/-- How many steps it takes to resolve an item: the mark of a block may open one, which is to end
again. -/
def Item.weight : Item → Nat
  | block .. => 3
  | _ => 1

/-- Resolves the marks against the reference columns of the open blocks. -/
def resolve (before : Before) : List Item → List Nat → List (Located Token)
  | [], _ => []
  | .line _ _ :: items, [] => resolve .other items []
  | .line n span :: items, m :: ms =>
    if n = m then ⟨.blockDelim, span⟩ :: resolve .delimiter items (m :: ms)
    else if n < m then ⟨.blockEnd, span⟩ :: resolve .other (.line n span :: items) ms
    else resolve .other items (m :: ms)
  | .block n span :: items, ms =>
    if ms.headD 0 < n then ⟨.blockBegin, span⟩ :: resolve .opening items (n :: ms)
    else ⟨.blockBegin, span⟩ :: ⟨.blockEnd, span⟩ :: resolve .other (.line n span :: items) ms
  | .token t :: items, ms =>
    if t.value = .eof then ms.map (fun _ => ⟨.blockEnd, t.span⟩) ++ [t]
    else if t.value = .pipe && !ms.isEmpty && before ≠ .opening then
      -- a pipe starts an item of the innermost block, if its line has not done so already
      if before = .delimiter then resolve .other items ms
      else ⟨.blockDelim, t.span⟩ :: resolve .other items ms
    else t :: resolve .other items ms
termination_by items ms => (items.map Item.weight).sum + ms.length
decreasing_by
  all_goals
    simp only [List.map_cons, List.sum_cons, List.length_cons, List.length_nil, Item.weight]
    omega

/-- **The mark of a line** ends the blocks to the right of its column and starts an item of the
block in its column. -/
theorem resolve_line (before : Before) (n : Nat) (span : Span) (items : List Item)
    (ms : List Nat) :
    resolve before (.line n span :: items) ms =
      (ms.takeWhile (n < ·)).map (fun _ => ⟨.blockEnd, span⟩) ++
        if (ms.dropWhile (n < ·)).head? = some n then
          ⟨.blockDelim, span⟩ :: resolve .delimiter items (ms.dropWhile (n < ·))
        else resolve .other items (ms.dropWhile (n < ·)) := by
  induction ms generalizing before with
  | nil => simp [resolve]
  | cons m ms ih =>
    rw [resolve]
    by_cases heq : n = m
    · subst heq
      simp
    · by_cases hlt : n < m
      · simp [heq, hlt, ih]
      · simp [hlt, Ne.symm heq, heq]

end OffSide

namespace Layout

/-! ### Results while tokens wait -/

section Results

variable {s s' : Layout} {t : Located Token}

theorem results_eq (s : Layout) :
    s.results = match s.next with
      | (.error e, _) => [.error e]
      | (.ok t, s') => if t.value = .eof then [.ok t] else .ok t :: s'.results := by
  rw [results]
  split
  · rename_i heq
    simp only [heq]
  · rename_i heq
    simp only [heq]
    rfl

theorem results_congr (h : s.next = s'.next) : s.results = s'.results := by
  rw [results_eq, h, ← results_eq]

theorem results_of_token (h : s.next = (.ok t, s')) (ht : t.value ≠ .eof) :
    s.results = .ok t :: s'.results := by
  rw [results_eq, h]
  exact if_neg ht

theorem results_of_eof (h : s.next = (.ok t, s')) (ht : t.value = .eof) :
    s.results = [.ok t] := by
  rw [results_eq, h]
  exact if_pos ht

/-- **What waits is handed out first.** -/
theorem results_of_queue {ts rest : List (Located Token)} (hq : s.queue = ts ++ rest)
    (hts : ∀ t ∈ ts, t.value ≠ .eof) :
    s.results = ts.map .ok ++ { s with queue := rest }.results := by
  induction ts generalizing s with
  | nil =>
    obtain rfl : s.queue = rest := hq
    rfl
  | cons t ts ih =>
    obtain ⟨ht, hts⟩ : t.value ≠ .eof ∧ ∀ u ∈ ts, u.value ≠ .eof := by simpa using hts
    rw [results_of_token (next_of_queue hq) ht, ih rfl hts]
    rfl

end Results

/-! ### The cursor stands inside of the open blocks -/

/-- Columns count from one, and behind the first token of a line the cursor stands further to the
right than every open block. -/
structure Inward (s : Layout) : Prop where
  columns_pos : ∀ column ∈ s.columns, 0 < column
  cursor_pos : 0 < s.cursor.position.column
  inside : s.freshLine = false → s.columns.headD 0 < s.cursor.position.column

section Inward

variable {s : Layout} {t : Located Token} {cursor : Cursor}

theorem inward_ofString (text : String) : (ofString text).Inward where
  columns_pos := by simp [ofString]
  cursor_pos := Nat.one_pos
  inside := by simp [ofString]

theorem mem_columns_of_mem_openAt {column : Nat} (h : column ∈ s.openAt t) :
    column ∈ s.columns := by
  rw [← closedAt_append_openAt s t]
  exact List.mem_append_right _ h

/-- The block that goes on with a token starts no further to the right than the token. -/
theorem headD_openAt_le (hs : s.Inward) (hc : s.cursor.position.column ≤ t.span.start.column) :
    (s.openAt t).headD 0 ≤ t.span.start.column := by
  unfold openAt
  split
  · cases hopen : s.columns.dropWhile (t.span.start.column < ·) with
    | nil => exact Nat.zero_le _
    | cons m ms =>
      have hhead := List.head?_dropWhile_not (t.span.start.column < ·) s.columns
      simpa [hopen] using hhead
  · rename_i hfresh
    have := hs.inside (by simpa using hfresh)
    omega

/-- **Every token keeps the cursor inside of the open blocks.** -/
theorem Inward.meet (hs : s.Inward) (hc : s.cursor.next = (.ok t, cursor))
    (heof : t.value ≠ .eof) : (s.meet t cursor).Inward := by
  obtain ⟨htpos, hcpos⟩ := Cursor.column_pos_of_next hc hs.cursor_pos
  -- a line break asks nothing of the columns: the next line has not begun
  by_cases hline : t.value = .newline
  · rw [meet_of_newline hline]
    exact ⟨hs.columns_pos, hcpos, by simp⟩
  · obtain ⟨hstart, hstop⟩ := Cursor.column_of_next hc hline heof
    have hcolumns : (s.meet t cursor).columns =
        if s.opensAt t then t.span.start.column :: s.columns else s.openAt t := by
      rw [meet_of_token hline heof]
      exact columns_accept _ t
    have hcursor : (s.meet t cursor).cursor = cursor := cursor_meet s t cursor
    refine ⟨?_, by rwa [hcursor], fun _ => ?_⟩
    · intro column hmem
      rw [hcolumns] at hmem
      -- the column of a token that opens a block is that of the token itself
      split at hmem
      · rcases List.mem_cons.1 hmem with rfl | hmem
        · exact htpos
        · exact hs.columns_pos column hmem
      · exact hs.columns_pos column (mem_columns_of_mem_openAt hmem)
    · rw [hcolumns, hcursor]
      split
      · exact hstop
      · have := headD_openAt_le hs hstart
        omega

/-- **A block opens only to the right of the one around it**, also on the line of its `of`. -/
theorem Inward.opensAt_iff (hs : s.Inward) (hc : s.cursor.position.column ≤ t.span.start.column) :
    s.opensAt t = true ↔ s.afterOf = true ∧ s.columns.headD 0 < t.span.start.column := by
  unfold opensAt opensNothing
  rw [Bool.and_eq_true, Bool.not_eq_true', Bool.and_eq_false_iff, decide_eq_false_iff_not]
  refine and_congr_right fun _ => ?_
  constructor
  · rintro (hfresh | hlt)
    · have := hs.inside hfresh
      omega
    · omega
  · intro hlt
    exact .inr (by omega)

end Inward

/-! ### One token at a time -/

section Step

open OffSide

variable {s : Layout} {t : Located Token} {ts : List (Located Token)}

/-- What the algorithm makes of a token behind the mark of its line, if it has one. -/
theorem resolve_inside (heof : t.value ≠ .eof) (hopen : s.opensAt t = false) (items : List Item) :
    resolve .other ((if s.freshLine then [.line t.span.start.column t.span] else []) ++
        .token t :: items) s.columns =
      s.pieceInside t ++ resolve .other items (s.openAt t) := by
  unfold pieceInside
  have hswallows : s.swallows t = (t.value = .pipe && !(s.openAt t).isEmpty) := by
    simp [swallows, hopen]
  rw [hswallows]
  -- a mark in front of the token closes the blocks to the right of it
  cases hfresh : s.freshLine with
  | true =>
    have hclosed : s.closedAt t = s.columns.takeWhile (t.span.start.column < ·) := by
      simp [closedAt, hfresh]
    have hopenAt : s.openAt t = s.columns.dropWhile (t.span.start.column < ·) := by
      simp [openAt, hfresh]
    have haligns : s.alignsAt t = ((s.openAt t).head? = some t.span.start.column : Bool) := by
      simp [alignsAt, hfresh]
    rw [if_pos rfl, List.singleton_append, resolve_line, ← hclosed, ← hopenAt, haligns]
    by_cases hhead : (s.openAt t).head? = some t.span.start.column
    · by_cases hpipe : (t.value = .pipe && !(s.openAt t).isEmpty) = true
      · simp [hhead, hpipe, resolve, heof, blockToken]
      · simp [hhead, hpipe, resolve, heof, blockToken]
    · by_cases hpipe : (t.value = .pipe && !(s.openAt t).isEmpty) = true
      · simp [hhead, hpipe, resolve, heof, blockToken]
      · simp [hhead, hpipe, resolve, heof, blockToken]
  | false =>
    have hopenAt : s.openAt t = s.columns := by simp [openAt, hfresh]
    have hclosed : s.closedAt t = [] := by simp [closedAt, hfresh]
    have haligns : s.alignsAt t = false := by simp [alignsAt, hfresh]
    rw [hopenAt, hclosed, haligns]
    -- without a mark only a pipe makes a difference
    by_cases hpipe : (t.value = .pipe && !s.columns.isEmpty) = true
    · simp [hpipe, resolve, heof, blockToken]
    · simp [hpipe, resolve, heof]

/-- **A token of the text**: the algorithm puts in front of it what the layout does. -/
theorem resolve_token (hs : s.Inward) (hc : s.cursor.position.column ≤ t.span.start.column)
    (hline : t.value ≠ .newline) (heof : t.value ≠ .eof) :
    resolve .other (annotate s.freshLine s.afterOf (t :: ts)) s.columns =
      s.piece t ++ resolve .other (annotate false t.value.opensBlock ts)
        (if s.opensAt t then t.span.start.column :: s.columns else s.openAt t) := by
  have hopens := hs.opensAt_iff hc
  rw [annotate, if_neg hline]
  simp only [heof, if_false, ne_eq, not_false_eq_true, decide_true, Bool.and_true]
  unfold piece
  cases hof : s.afterOf with
  | true =>
    by_cases hlt : s.columns.headD 0 < t.span.start.column
    · have hopen : s.opensAt t = true := hopens.2 ⟨hof, hlt⟩
      simp only [hopen, if_true, List.singleton_append]
      rw [resolve, if_pos hlt, resolve, if_neg heof, if_neg (by simp)]
      rfl
    · -- an empty block, and then the token as the first one on its line
      have hopen : s.opensAt t = false := by
        rw [← Bool.not_eq_true, hopens]
        exact fun h => hlt h.2
      -- the cursor stands inside of the open blocks, unless the line has not begun
      have hfresh : s.freshLine = true := by
        rw [← Bool.not_eq_false]
        intro hfresh
        have := hs.inside hfresh
        omega
      have hinside := resolve_inside heof hopen (annotate false t.value.opensBlock ts)
      rw [hfresh, if_pos rfl, List.singleton_append] at hinside
      simp only [if_true, List.singleton_append, hopen, Bool.false_eq_true, if_false]
      rw [resolve, if_neg hlt, hinside]
      rfl
  | false =>
    have hopen : s.opensAt t = false := by simp [opensAt, hof]
    simp only [Bool.false_eq_true, if_false, hopen]
    exact resolve_inside heof hopen _

/-- **The end of the text** ends all open blocks. -/
theorem resolve_eof (hs : s.Inward) (heof : t.value = .eof) :
    resolve .other (annotate s.freshLine s.afterOf [t]) s.columns = s.endPiece t := by
  have hline : t.value ≠ .newline := by simp [heof]
  rw [annotate, if_neg hline]
  unfold endPiece
  cases hof : s.afterOf with
  | true =>
    -- column zero is to the left of every block
    have htake : s.columns.takeWhile (0 < ·) = s.columns :=
      List.takeWhile_eq_self_iff.2 fun m hm => by simpa using hs.columns_pos m hm
    have hdrop : s.columns.dropWhile (0 < ·) = [] :=
      List.dropWhile_eq_nil_iff.2 fun m hm => by simpa using hs.columns_pos m hm
    simp [heof, annotate, resolve, resolve_line, htake, hdrop, blockToken]
  | false => simp [heof, annotate, resolve, blockToken]

end Step

/-! ### Whole texts -/

section Texts

variable {s : Layout} {t : Located Token}

theorem ne_eof_of_mem_piece (heof : t.value ≠ .eof) : ∀ u ∈ s.piece t, u.value ≠ .eof := by
  unfold piece pieceInside blockToken
  grind

/-- What stands for the end of the text is handed out, and nothing behind it. -/
theorem results_of_endPiece {u : Layout} (hq : s.queue = u.endPiece t) (heof : t.value = .eof) :
    s.results = (u.endPiece t).map .ok := by
  obtain ⟨ends, hends, hne⟩ : ∃ ends, u.endPiece t = ends ++ [t] ∧ ∀ v ∈ ends, v.value ≠ .eof := by
    refine ⟨_, (List.append_assoc ..).symm, ?_⟩
    unfold blockToken
    grind
  rw [hends] at hq ⊢
  rw [results_of_queue hq hne, results_of_eof (next_of_queue rfl) heof, List.map_append]
  rfl

/-- The layout makes of the tokens that are still in the text what the algorithm does. -/
theorem results_eq_resolve_of_tokens {ts : List (Located Token)} (hs : s.Inward)
    (hq : s.queue = []) (hts : s.cursor.tokens = .ok ts) :
    s.results = (OffSide.resolve .other (OffSide.annotate s.freshLine s.afterOf ts)
      s.columns).map .ok := by
  generalize hcursor : s.cursor = c at hts
  fun_induction Cursor.tokens c generalizing s ts with
  | case1 c e c' hnext => simp at hts
  | case2 c t c' hnext heof =>
    obtain rfl : [t] = ts := by simpa using hts
    subst hcursor
    have hqueue : (s.meet t c').queue = s.endPiece t := by
      rw [queue_meet hq, share, if_neg (by simp [heof]), if_pos heof]
    rw [results_congr (next_of_read hq hnext), resolve_eof hs heof,
      results_of_endPiece hqueue heof]
  | case3 c t c' hnext heof hlt e htokens => simp at hts
  | case4 c t c' hnext heof hlt us htokens ih =>
    obtain rfl : t :: us = ts := by simpa using hts
    subst hcursor
    have hmeet := hs.meet hnext heof
    rw [results_congr (next_of_read hq hnext)]
    by_cases hline : t.value = .newline
    · rw [ih hmeet (by rw [queue_meet hq, share, if_pos hline]) (cursor_meet s t c') htokens,
        meet_of_newline hline, OffSide.annotate, if_pos hline]
    · obtain ⟨hstart, -⟩ := Cursor.column_of_next hnext hline heof
      have hqueue : (s.meet t c').queue = s.piece t ++ [] := by
        rw [queue_meet hq, share, if_neg hline, if_neg heof, List.append_nil]
      -- what is left of the layout when the token and its marks have been handed out
      have hrest := ih (s := { s.meet t c' with queue := [] })
        ⟨hmeet.columns_pos, hmeet.cursor_pos, hmeet.inside⟩ rfl (cursor_meet s t c') htokens
      rw [results_of_queue hqueue (ne_eof_of_mem_piece heof), hrest,
        resolve_token hs hstart hline heof, List.map_append, meet_of_token hline heof]
      dsimp only
      rw [freshLine_accept, afterOf_accept, columns_accept]
      rfl

end Texts

/-- **The layout is the off-side algorithm**: what it hands out for a text, up to the end, is what
the algorithm makes of the annotated tokens, with no open block to begin with. -/
theorem results_eq_resolve {text : String} {ts : List (Located Token)}
    (h : tokenize text = .ok ts) :
    (ofString text).results =
      (OffSide.resolve .other (OffSide.annotate true false ts) []).map .ok :=
  results_eq_resolve_of_tokens (inward_ofString text) rfl h

/-- A block on the line of its `of`, one inside of it that a pipe further to the left ends, an empty
block in front of a pipe that starts an item already, and a block that is to open at the end. -/
theorem results_eq_resolve_pipes :
    let text := "of a of b\n     | c\n   d of\n   | of"
    let of : Token := .keyword .ofWord
    ∃ ts, tokenize text = .ok ts ∧
      (ofString text).results =
        (OffSide.resolve .other (OffSide.annotate true false ts) []).map .ok ∧
      (OffSide.resolve .other (OffSide.annotate true false ts) []).map (·.value) =
        [of, .blockBegin, .identifier "a", of, .blockBegin, .identifier "b", .blockEnd,
          .blockDelim, .identifier "c", .blockDelim, .identifier "d", of, .blockBegin, .blockEnd,
          .blockDelim, of, .blockBegin, .blockEnd, .blockEnd, .eof] := by
  intro text of
  have hresolve : ((tokenize text).map fun ts =>
      (OffSide.resolve .other (OffSide.annotate true false ts) []).map (·.value)) =
        .ok [of, .blockBegin, .identifier "a", of, .blockBegin, .identifier "b", .blockEnd,
          .blockDelim, .identifier "c", .blockDelim, .identifier "d", of, .blockBegin, .blockEnd,
          .blockDelim, of, .blockBegin, .blockEnd, .blockEnd, .eof] := by
    decide +kernel
  cases hts : tokenize text with
  | error e => simp [hts, Except.map] at hresolve
  | ok ts =>
    rw [hts] at hresolve
    exact ⟨ts, rfl, results_eq_resolve hts, Except.ok.inj hresolve⟩

end Layout

end CallByNeed

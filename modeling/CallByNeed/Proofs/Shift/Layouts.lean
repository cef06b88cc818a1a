import CallByNeed.Proofs.Layout.Pieces
import CallByNeed.Proofs.Shift.Lines

/-!
# Layouts moved to the right

The off-side rule compares columns with columns and with nothing else: a block without an enclosing
one lies to the right of column zero, as every token does.  So a layout whose open blocks are all
moved by `k` columns makes the same of a token that is moved by `k` columns too
(`Layout.Shifted.piece`), and hands out the same tokens as long as its cursor finds the same ones
(`Layout.Tracks.next`).
-/

namespace CallByNeed

open Cursor (Agree Finds)

namespace Layout

/-! ### The off-side rule -/

/-- **A layout moved to the right**: the reference columns are moved by `k`, and the tokens that
wait are the same, spans aside. -/
structure Shifted (k : Nat) (s s' : Layout) : Prop where
  columns : s'.columns = s.columns.map (· + k)
  queue : s'.queue.map (·.value) = s.queue.map (·.value)
  afterOf : s'.afterOf = s.afterOf

/-- The same token, `k` columns further to the right.  Columns count from one. -/
structure TokenShifted (k : Nat) (t t' : Located Token) : Prop where
  value : t'.value = t.value
  pos : 0 < t.span.start.column
  column : t'.span.start.column = t.span.start.column + k

section Accept

variable {k : Nat} {s s' : Layout} {t t' : Located Token} (h : s.Shifted k s')

include h

theorem Shifted.endPiece (hvalue : t'.value = t.value) :
    (s'.endPiece t').map (·.value) = (s.endPiece t).map (·.value) := by
  simp only [Layout.endPiece, h.afterOf, h.columns, List.map_append, List.map_map]
  congr 1
  · split <;> rfl
  · simp [hvalue, Function.comp_def, blockToken]

/-- **Behind the end of the text** no block is open. -/
theorem Shifted.acceptEnd (hq : s.queue = []) (hq' : s'.queue = []) (hvalue : t'.value = t.value) :
    (s.acceptEnd t).Shifted k (s'.acceptEnd t') where
  columns := by simp
  queue := by rw [queue_acceptEnd hq, queue_acceptEnd hq', h.endPiece hvalue]
  afterOf := by rw [afterOf_acceptEnd, afterOf_acceptEnd]

variable (hfresh : s'.freshLine = s.freshLine) (ht : TokenShifted k t t')

include hfresh ht

theorem Shifted.openAt : s'.openAt t' = (s.openAt t).map (· + k) := by
  simp only [Layout.openAt, hfresh, h.columns, ht.column]
  split
  · rw [List.dropWhile_map]
    simp [Function.comp_def]
  · rfl

theorem Shifted.closedAt : s'.closedAt t' = (s.closedAt t).map (· + k) := by
  simp only [Layout.closedAt, hfresh, h.columns, ht.column]
  split
  · rw [List.takeWhile_map]
    simp [Function.comp_def]
  · rfl

/-- A token outside of all blocks is to the right of column zero in both texts. -/
theorem Shifted.opensAt : s'.opensAt t' = s.opensAt t := by
  have hnothing : s'.opensNothing t'.span = s.opensNothing t.span := by
    simp only [opensNothing, hfresh, h.columns, ht.column]
    have hpos := ht.pos
    cases s.columns with
    | nil =>
      have hright : ¬ t.span.start.column ≤ 0 := by omega
      have hright' : ¬ t.span.start.column + k ≤ 0 := by omega
      rw [List.map_nil, List.headD_nil, decide_eq_false hright, decide_eq_false hright']
    | cons column columns => simp
  rw [Layout.opensAt, Layout.opensAt, h.afterOf, hnothing]

theorem Shifted.alignsAt : s'.alignsAt t' = s.alignsAt t := by
  rw [Layout.alignsAt, Layout.alignsAt, hfresh, h.openAt hfresh ht, ht.column]
  cases s.openAt t <;> simp

theorem Shifted.swallows : s'.swallows t' = s.swallows t := by
  rw [Layout.swallows, Layout.swallows, ht.value, h.openAt hfresh ht, h.opensAt hfresh ht,
    List.isEmpty_map]

/-- **A token that is moved like the blocks stands for the same tokens.** -/
theorem Shifted.piece : (s'.piece t').map (·.value) = (s.piece t).map (·.value) := by
  have hinside : (s'.pieceInside t').map (·.value) = (s.pieceInside t).map (·.value) := by
    simp only [pieceInside, h.closedAt hfresh ht, h.alignsAt hfresh ht, h.swallows hfresh ht,
      List.map_append, List.map_map]
    congr 2
    · split <;> rfl
    · split <;> simp [ht.value]
  simp only [Layout.piece, h.opensAt hfresh ht, h.afterOf]
  split
  · simp [blockToken, ht.value]
  · split
    · simp [blockToken, hinside]
    · exact hinside

/-- **Behind a token of the text** the layout is still moved. -/
theorem Shifted.accept (hq : s.queue = []) (hq' : s'.queue = []) :
    (s.accept t).Shifted k (s'.accept t') where
  columns := by
    rw [columns_accept, columns_accept, h.opensAt hfresh ht, h.openAt hfresh ht, h.columns,
      ht.column]
    split <;> rfl
  queue := by rw [queue_accept hq, queue_accept hq', h.piece hfresh ht]
  afterOf := by rw [afterOf_accept, afterOf_accept, ht.value]

end Accept

/-! ### Handing out tokens -/

/-- **Two layouts in step**: the second one is the first one moved to the right, and their cursors
find the same. -/
structure Tracks (k : Nat) (s s' : Layout) : Prop extends s.Shifted k s' where
  agree : Agree k s.cursor s.freshLine s'.cursor s'.freshLine

section Next

variable {k : Nat} {s s' : Layout} {t : Located Token} {d : Cursor} {flag : Bool}

/-- With an empty queue a layout reads on over newlines. -/
theorem next_of_finds (hq : s.queue = []) (h : Finds s.cursor s.freshLine (.ok t) flag d) :
    s.next = ({ s with freshLine := flag }.meet t d).next := by
  generalize hcursor : s.cursor = c at h
  generalize hfresh : s.freshLine = fresh at h
  generalize hresult : (.ok t : Except LexError (Located Token)) = r at h
  induction h generalizing s with
  | here fresh h hr =>
    subst hcursor hfresh hresult
    exact next_of_read hq h
  | newline h ht hfinds ih =>
    subst hcursor
    rw [next_of_newline hq h ht]
    exact ih hq rfl rfl hresult

theorem next_of_finds_error {e : LexError} (hq : s.queue = [])
    (h : Finds s.cursor s.freshLine (.error e) flag d) : s.next.1 = .error e := by
  generalize hcursor : s.cursor = c at h
  generalize hfresh : s.freshLine = fresh at h
  generalize hresult : (.error e : Except LexError (Located Token)) = r at h
  induction h generalizing s with
  | here fresh h hr =>
    subst hcursor hfresh hresult
    rw [next_of_error hq h]
  | newline h ht hfinds ih =>
    subst hcursor
    rw [next_of_newline hq h ht]
    exact ih hq rfl rfl hresult

end Next

/-- Two layouts hand out the same, spans aside, and are in step again. -/
inductive NextAlike (k : Nat) (s s' : Layout) : Prop where
  | ok {t : Token} {span span' : Span} {u u' : Layout} (h : s.next = (.ok ⟨t, span⟩, u))
    (h' : s'.next = (.ok ⟨t, span'⟩, u')) (htracks : u.Tracks k u')
  | error {e e' : LexError} (h : s.next.1 = .error e) (h' : s'.next.1 = .error e')

section Next

variable {k : Nat} {s s' : Layout}

/-- Tokens that wait are handed out. -/
theorem Tracks.next_of_ne_nil (h : s.Tracks k s') (hq : s.queue ≠ []) : NextAlike k s s' := by
  obtain ⟨t, queue, hqueue⟩ := List.exists_cons_of_ne_nil hq
  have hvalues := h.queue
  rw [hqueue, List.map_cons] at hvalues
  obtain ⟨⟨value, span'⟩, queue', hqueue', hvalue, hrest⟩ := List.map_eq_cons_iff.1 hvalues
  obtain ⟨_, span⟩ := t
  obtain rfl := hvalue
  exact .ok (next_of_queue hqueue) (next_of_queue hqueue')
    ⟨⟨h.columns, hrest, h.afterOf⟩, h.agree⟩

/-- **Layouts in step hand out the same, and stay in step.** -/
theorem Tracks.next (h : s.Tracks k s') : NextAlike k s s' := by
  by_cases hq : s.queue = []
  swap
  · exact h.next_of_ne_nil hq
  have hq' : s'.queue = [] := by
    have hvalues := h.queue
    rw [hq] at hvalues
    simpa using hvalues
  -- from the layouts behind the token that is found, in which tokens wait
  have hbehind {t t' : Located Token} {d d' : Cursor} {flag flag' : Bool}
      (hfinds : Finds s.cursor s.freshLine (.ok t) flag d)
      (hfinds' : Finds s'.cursor s'.freshLine (.ok t') flag' d')
      (ht : t.value ≠ .newline)
      (htracks : ({ s with freshLine := flag }.meet t d).Tracks k
        ({ s' with freshLine := flag' }.meet t' d')) : NextAlike k s s' := by
    cases htracks.next_of_ne_nil (queue_meet_ne_nil hq ht) with
    | ok h h' htracks =>
      exact .ok ((next_of_finds hq hfinds).trans h) ((next_of_finds hq' hfinds').trans h') htracks
    | error h h' =>
      exact .error (by rw [next_of_finds hq hfinds, h]) (by rw [next_of_finds hq' hfinds', h'])
  cases h.agree with
  | error hfinds hfinds' =>
    exact .error (next_of_finds_error hq hfinds) (next_of_finds_error hq' hfinds')
  | @token t span span' flag d d' hfinds hfinds' hvalue hpos hcolumn habreast =>
    have hshifted : { s with freshLine := flag, cursor := d }.Shifted k
        { s' with freshLine := flag, cursor := d' } := ⟨h.columns, h.queue, h.afterOf⟩
    refine hbehind hfinds hfinds' hvalue.1 ?_
    rw [meet_of_token hvalue.1 hvalue.2, meet_of_token hvalue.1 hvalue.2]
    refine ⟨hshifted.accept rfl ⟨rfl, hpos, hcolumn⟩ hq hq', ?_⟩
    rw [cursor_accept, cursor_accept, freshLine_accept, freshLine_accept]
    exact Cursor.agree_of_abreast habreast false
  | @eof span span' flag flag' d d' hfinds hfinds' hrest hrest' =>
    have hshifted : { s with freshLine := flag, cursor := d }.Shifted k
        { s' with freshLine := flag', cursor := d' } := ⟨h.columns, h.queue, h.afterOf⟩
    refine hbehind hfinds hfinds' (by simp) ?_
    rw [meet_of_eof rfl, meet_of_eof rfl]
    refine ⟨hshifted.acceptEnd hq hq' rfl, ?_⟩
    rw [cursor_acceptEnd, cursor_acceptEnd]
    exact Cursor.agree_of_rest_nil hrest hrest'

theorem Tracks.closeInnermost (h : s.Tracks k s') :
    s.closeInnermost.1 = s'.closeInnermost.1 ∧
      s.closeInnermost.2.Tracks k s'.closeInnermost.2 := by
  have hcolumns := h.columns
  unfold Layout.closeInnermost
  cases hs : s.columns with
  | nil =>
    rw [hs, List.map_nil] at hcolumns
    rw [hcolumns]
    exact ⟨rfl, h⟩
  | cons column columns =>
    rw [hs, List.map_cons] at hcolumns
    rw [hcolumns]
    exact ⟨rfl, ⟨rfl, h.queue, h.afterOf⟩, h.agree⟩

/-- **A text and the text shifted** start in step. -/
theorem tracks_ofString {text text' : String} (h : Text.Shifted k text text') :
    (ofString text).Tracks k (ofString text') :=
  ⟨⟨rfl, rfl, rfl⟩, Cursor.agree_ofString h⟩

end Next

end Layout

end CallByNeed

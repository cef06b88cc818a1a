import CallByNeed.Proofs.Layout.OffSide
import CallByNeed.Proofs.Spans.Streams

/-!
# Reference columns rise

The blocks that are open at one time have different reference columns, each to the right of that of
the block around it (`Layout.columns_rise`).  The layout compares columns only at the beginning of a
line.  A block that opens elsewhere opens to the right of the last token, and no block that is open
then stands to the right of that one (`Watch.Rising`).

This holds whatever is asked of a layout, also when it goes on behind an error of the lexer, and
when blocks are closed from outside.
-/

namespace CallByNeed

/-- **An error stays on its line**: the cursor moves to the right, if at all. -/
theorem Cursor.column_of_error {c c' : Cursor} {e : LexError} (h : c.next = (.error e, c')) :
    c.position.column ≤ c'.position.column := by
  obtain ⟨gap, hgap, hline⟩ := c.passes_skipGap
  have hstart : c.skipGap.position.column = c.position.column + gap.length := by
    rw [hgap.position, Position.column_advance hline]
  have herror := hasError_of_token h
  generalize c.skipGap = d at herror hstart
  cases herror with
  | noLexeme => omega
  | lexeme hne =>
    rw [d.passes_lexeme.position, Position.column_advance (newline_not_mem_lexeme _)]
    omega

namespace Layout

variable {s : Layout} {t : Located Token} {cursor : Cursor}

theorem readings_of_error {e : LexError} (hc : s.cursor.next = (.error e, cursor)) :
    s.readings = [] := by
  rw [readings]
  split
  · split
    · rfl
    · rename_i heq
      simp [hc] at heq
  · rfl

/-! ### Columns at a token -/

/-- **A token leaves the columns rising**: the blocks that it ends are the innermost ones, and one
that it opens is to the right of the others. -/
theorem pairwise_columns_meet (hs : s.Inward) (hrise : s.columns.Pairwise (· > ·))
    (hc : s.cursor.next = (.ok t, cursor)) : (s.meet t cursor).columns.Pairwise (· > ·) := by
  by_cases hline : t.value = .newline
  · rw [meet_of_newline hline]
    exact hrise
  by_cases heof : t.value = .eof
  · rw [meet_of_eof heof, columns_acceptEnd]
    exact .nil
  have hcolumns : (s.meet t cursor).columns =
      if s.opensAt t then t.span.start.column :: s.columns else s.openAt t := by
    rw [meet_of_token hline heof]
    exact columns_accept _ t
  rw [hcolumns]
  split
  · rename_i hopens
    have hright := (hs.opensAt_iff (Cursor.column_of_next hc hline heof).1).1 hopens
    refine List.pairwise_cons.2 ⟨fun column hcolumn => ?_, hrise⟩
    -- the innermost block is the one furthest to the right
    have hhead : column ≤ s.columns.headD 0 := by
      cases hall : s.columns with
      | nil =>
        rw [hall] at hcolumn
        cases hcolumn
      | cons head rest =>
        rw [hall] at hcolumn hrise
        rcases List.mem_cons.1 hcolumn with rfl | hrest
        · exact Nat.le_refl column
        · exact Nat.le_of_lt (List.rel_of_pairwise_cons hrise hrest)
    omega
  · have hsuffix : s.openAt t <:+ s.columns := ⟨_, closedAt_append_openAt s t⟩
    exact hrise.sublist hsuffix.sublist

/-- Behind a token no open block is to the right of it. -/
theorem headD_columns_meet (hs : s.Inward) (hc : s.cursor.next = (.ok t, cursor))
    (hline : t.value ≠ .newline) : (s.meet t cursor).columns.headD 0 ≤ t.span.start.column := by
  by_cases heof : t.value = .eof
  · rw [meet_of_eof heof, columns_acceptEnd]
    exact Nat.zero_le _
  have hcolumns : (s.meet t cursor).columns =
      if s.opensAt t then t.span.start.column :: s.columns else s.openAt t := by
    rw [meet_of_token hline heof]
    exact columns_accept _ t
  rw [hcolumns]
  split
  · exact Nat.le_refl _
  · exact headD_openAt_le hs (Cursor.column_of_next hc hline heof).1

/-- The cursor stays inside of the open blocks at the end of the text too, where none is open. -/
theorem Inward.read (hs : s.Inward) (hc : s.cursor.next = (.ok t, cursor)) :
    (s.meet t cursor).Inward := by
  by_cases heof : t.value = .eof
  · have hcursor := (Cursor.column_pos_of_next hc hs.cursor_pos).2
    have hmet : (s.meet t cursor).cursor = cursor := cursor_meet s t cursor
    have hnone : (s.meet t cursor).columns = [] := by
      rw [meet_of_eof heof, columns_acceptEnd]
    constructor
    · rw [hnone]
      exact fun _ h => absurd h List.not_mem_nil
    · rw [hmet]
      exact hcursor
    · intro _
      rw [hnone, hmet]
      exact hcursor
  · exact hs.meet hc heof

/-! ### What is asked of a layout -/

/-- A layout, and the last token that it has read off the text. -/
structure Watch where
  layout : Layout
  last : Option (Located Token)

namespace Watch

/-- The layout at the beginning of a text, where nothing has been read. -/
def start (text : String) : Watch :=
  ⟨.ofString text, none⟩

/-- Serves a request, whatever comes of it. -/
def ask (w : Watch) (request : Request) : Watch where
  layout := w.layout.ask request
  last :=
    match request with
    | .next => (w.layout.readings.getLast?.map (·.2)).or w.last
    | .close => w.last

/-- The columns rise, and on a line that has begun none is to the right of the last token. -/
structure Rising (w : Watch) : Prop extends w.layout.Inward where
  pairwise : w.layout.columns.Pairwise (· > ·)
  last : w.layout.freshLine = false →
    ∃ t, w.last = some t ∧ w.layout.columns.headD 0 ≤ t.span.start.column

variable {w : Watch}

theorem rising_start (text : String) : (start text).Rising where
  toInward := inward_ofString text
  pairwise := .nil
  last := by simp [start, ofString]

/-- **Reading a token keeps the columns rising.** -/
theorem Rising.read (hw : w.Rising) (hc : w.layout.cursor.next = (.ok t, cursor)) :
    Rising ⟨w.layout.meet t cursor, some t⟩ where
  toInward := hw.toInward.read hc
  pairwise := pairwise_columns_meet hw.toInward hw.pairwise hc
  last := by
    intro hfresh
    refine ⟨t, rfl, headD_columns_meet hw.toInward hc fun hline => ?_⟩
    have hnew : (w.layout.meet t cursor).freshLine = true := by
      rw [meet_of_newline hline]
    exact Bool.false_ne_true (hfresh.symm.trans hnew)

/-- Behind an error the line goes on. -/
theorem Rising.readError {e : LexError} (hw : w.Rising)
    (hc : w.layout.cursor.next = (.error e, cursor)) :
    Rising ⟨{ w.layout with cursor }, w.last⟩ where
  columns_pos := hw.columns_pos
  cursor_pos := Nat.lt_of_lt_of_le hw.cursor_pos (Cursor.column_of_error hc)
  inside := fun hfresh => Nat.lt_of_lt_of_le (hw.inside hfresh) (Cursor.column_of_error hc)
  pairwise := hw.pairwise
  last := hw.last

/-- What waits does not matter. -/
theorem Rising.dequeue {queue : List (Located Token)} (hw : w.Rising) :
    Rising ⟨{ w.layout with queue }, w.last⟩ where
  columns_pos := hw.columns_pos
  cursor_pos := hw.cursor_pos
  inside := hw.inside
  pairwise := hw.pairwise
  last := hw.last

/-- **Closing the innermost block keeps the columns rising.** -/
theorem Rising.close (hw : w.Rising) : (w.ask .close).Rising := by
  show Rising ⟨w.layout.closeInnermost.2, w.last⟩
  unfold closeInnermost
  split
  · exact hw
  · rename_i column columns hcolumns
    have hrise := hw.pairwise
    rw [hcolumns] at hrise
    obtain ⟨hright, hrest⟩ := List.pairwise_cons.1 hrise
    -- the column that is now the innermost one is further to the left
    have hhead : columns.headD 0 ≤ w.layout.columns.headD 0 := by
      rw [hcolumns]
      cases columns with
      | nil => exact Nat.zero_le _
      | cons next rest => exact Nat.le_of_lt (hright next List.mem_cons_self)
    exact
      { columns_pos := fun c hc =>
          hw.columns_pos c (by rw [hcolumns]; exact List.mem_cons_of_mem column hc)
        cursor_pos := hw.cursor_pos
        inside := fun hfresh => Nat.lt_of_le_of_lt hhead (hw.inside hfresh)
        pairwise := hrest
        last := fun hfresh => by
          obtain ⟨t, ht, hle⟩ := hw.last hfresh
          exact ⟨t, ht, Nat.le_trans hhead hle⟩ }

/-- With an empty queue a layout reads a token, and then it is asked again. -/
theorem ask_of_read (hq : w.layout.queue = []) (hc : w.layout.cursor.next = (.ok t, cursor)) :
    w.ask .next = ask ⟨w.layout.meet t cursor, some t⟩ .next := by
  unfold ask Layout.ask
  dsimp only
  rw [next_of_read hq hc, readings_of_read hq hc, List.getLast?_cons]
  cases (w.layout.meet t cursor).readings.getLast? <;> rfl

theorem Rising.ask_of_queue (hw : w.Rising) (hq : w.layout.queue ≠ []) :
    (w.ask .next).Rising := by
  obtain ⟨t, queue, hqueue⟩ := List.exists_cons_of_ne_nil hq
  have hask : w.ask .next = ⟨{ w.layout with queue }, w.last⟩ := by
    unfold ask Layout.ask
    dsimp only
    rw [next_of_queue hqueue, readings_of_queue hq]
    rfl
  rw [hask]
  exact hw.dequeue

/-- **Asking for a token keeps the columns rising**, also if the answer is an error. -/
theorem Rising.askNext {w : Watch} (hw : w.Rising) : (w.ask .next).Rising := by
  by_cases hq : w.layout.queue = []
  · -- an error, a line break or a token, which fills the queue
    rcases hc : w.layout.cursor.next with ⟨e | t, cursor⟩
    · have hask : w.ask .next = ⟨{ w.layout with cursor }, w.last⟩ := by
        unfold ask Layout.ask
        dsimp only
        rw [next_of_error hq hc, readings_of_error hc]
        rfl
      rw [hask]
      exact hw.readError hc
    · have hread := hw.read hc
      rw [ask_of_read hq hc]
      by_cases hline : t.value = .newline
      · have hlt : (w.layout.meet t cursor).cursor.rest.length <
            w.layout.cursor.rest.length := by
          rw [cursor_meet]
          exact Cursor.length_next_lt hc (by simp [hline])
        exact hread.askNext
      · exact hread.ask_of_queue (queue_meet_ne_nil hq hline)
  · exact hw.ask_of_queue hq
termination_by w.layout.cursor.rest.length

/-- **Every request keeps the columns rising.** -/
theorem Rising.ask (hw : w.Rising) (request : Request) : (w.ask request).Rising := by
  cases request with
  | next => exact hw.askNext
  | close => exact hw.close

theorem Rising.foldl_ask (hw : w.Rising) (requests : List Request) :
    (requests.foldl Watch.ask w).Rising := by
  induction requests generalizing w with
  | nil => exact hw
  | cons request requests ih => exact ih (hw.ask request)

/-- Watching a layout does not change what it does. -/
theorem layout_foldl_ask (w : Watch) (requests : List Request) :
    (requests.foldl Watch.ask w).layout = requests.foldl Layout.ask w.layout := by
  induction requests generalizing w with
  | nil => rfl
  | cons request requests ih => exact ih (w.ask request)

end Watch

/-- **Reference columns rise strictly.**  Whatever tokens and closings are asked for, in whatever
order and with whatever errors in between, the columns of the open blocks, from the outermost to the
innermost one, rise strictly and start with one or more.  On a line that has begun, the innermost
one is not to the right of the last token that was read. -/
theorem columns_rise (text : String) (requests : List Request) :
    let w := requests.foldl Watch.ask (Watch.start text)
    w.layout = requests.foldl Layout.ask (ofString text) ∧
      w.layout.columns.reverse.Pairwise (· < ·) ∧
      (∀ column ∈ w.layout.columns, 1 ≤ column) ∧
      (w.layout.freshLine = false → ∃ t, w.last = some t ∧
        ∀ column ∈ w.layout.columns.head?, column ≤ t.span.start.column) := by
  intro w
  have hw : w.Rising := (Watch.rising_start text).foldl_ask requests
  refine ⟨?_, ?_, ?_, ?_⟩
  · exact (Watch.start text).layout_foldl_ask requests
  · rw [List.pairwise_reverse]
    exact hw.pairwise
  · exact fun column hcolumn => hw.columns_pos column hcolumn
  · intro hfresh
    obtain ⟨t, ht, hle⟩ := hw.last hfresh
    refine ⟨t, ht, fun column hcolumn => ?_⟩
    rw [List.headD_eq_head?_getD, Option.mem_def.1 hcolumn, Option.getD_some] at hle
    exact hle

end Layout

end CallByNeed

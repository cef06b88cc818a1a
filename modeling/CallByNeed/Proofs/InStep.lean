import CallByNeed.Proofs.Cues
import CallByNeed.Proofs.Spelling

/-!
# Blocks and reference columns in step

The layout ends a block when a line starts further to the left, and the parser ends one when it
meets a token with which the block cannot go on.  Both keep account of the open blocks, the layout
by its stack of columns, the parser by the calls that are reading items.  The layout runs ahead: it
may have popped a column while the token that ends the block still waits.

`TokenStream.InStep` says that the two accounts agree: the columns on the layout's stack are those
of the blocks that are being read, less the innermost ones for which an end waits.  Nothing is read
off the text while tokens wait, so that the ends which wait come first, and behind them at most one
token of the text.  Every operation keeps the accounts in step, where taking an end and closing a
block leave a block (`InStep.advance_end`, `InStep.close`), and taking the token behind `of` enters
one (`BehindOf.advance`).
-/

namespace CallByNeed

/-! ### Tokens that wait -/

/-- The tokens are those behind the ends of blocks: a delimiter perhaps, then a token of the text.
`afterOf` tells whether that is `of`. -/
structure Token.Behind (ts : List Token) (afterOf : Bool) : Prop where
  noBlock : ∀ t ∈ ts, t ≠ .blockBegin ∧ t ≠ .blockEnd
  noOf : ∀ t ∈ ts.dropLast, t.opensBlock = false
  afterOf : ts.getLast?.any Token.opensBlock = afterOf

/-- Delimiters may stand behind the ends of blocks. -/
theorem Token.behind_delims {delims : List Token} (h : ∀ t ∈ delims, t = .blockDelim) :
    Token.Behind delims false := by
  refine ⟨fun u hu => ?_, fun u hu => ?_, ?_⟩
  · rw [h u hu]
    decide
  · rw [h u (List.dropLast_subset _ hu)]
    rfl
  · cases hlast : delims.getLast? with
    | none => rfl
    | some u =>
      rw [h u (List.mem_of_getLast? hlast)]
      rfl

/-- Behind delimiters a token may stand that is neither the beginning nor the end of a block. -/
theorem Token.behind_concat {delims : List Token} {t : Token} (h : ∀ t ∈ delims, t = .blockDelim)
    (ht : t ≠ .blockBegin ∧ t ≠ .blockEnd) : Token.Behind (delims ++ [t]) t.opensBlock := by
  refine ⟨?_, ?_, by simp⟩
  · intro u hu
    rcases List.mem_append.1 hu with hu | hu
    · exact (behind_delims h).noBlock u hu
    · rw [List.mem_singleton.1 hu]
      exact ht
  · intro u hu
    rw [List.dropLast_concat] at hu
    rw [h u hu]
    rfl

/-- The tokens wait in front of a layout, and its columns are those of the blocks that are being
read, less the innermost ones for which an end waits. -/
def Layout.InStep (blocks : List Nat) (layout : Layout) (waiting : List Token) : Prop :=
  ∃ ends rest, waiting = List.replicate ends .blockEnd ++ rest ∧ Token.Behind rest layout.afterOf ∧
    ends ≤ blocks.length ∧ layout.columns = blocks.drop ends

namespace Layout

variable {blocks : List Nat} {layout : Layout} {t : Token} {ts : List Token}

/-- Behind an end the block is left. -/
theorem InStep.tail_end (h : InStep blocks layout (.blockEnd :: ts)) :
    ∃ column outer, blocks = column :: outer ∧ InStep outer layout ts := by
  obtain ⟨ends, rest, hwaiting, hrest, hle, hcolumns⟩ := h
  cases ends with
  | zero =>
    -- an end is not behind the ends
    have hmem : Token.blockEnd ∈ rest := by
      have : Token.blockEnd :: ts = rest := by simpa using hwaiting
      simp [← this]
    exact absurd rfl (hrest.noBlock _ hmem).2
  | succ ends =>
    obtain rfl : ts = List.replicate ends .blockEnd ++ rest := by
      simpa [List.replicate_succ] using hwaiting
    cases blocks with
    | nil => simp at hle
    | cons column outer =>
      exact ⟨column, outer, rfl, ends, rest, rfl, hrest, by simpa using hle,
        by simpa using hcolumns⟩

/-- In front of any other token no end waits. -/
theorem InStep.no_end (h : InStep blocks layout (t :: ts)) (ht : t ≠ .blockEnd) :
    Token.Behind (t :: ts) layout.afterOf ∧ layout.columns = blocks := by
  obtain ⟨ends, rest, hwaiting, hrest, hle, hcolumns⟩ := h
  cases ends with
  | zero =>
    obtain rfl : t :: ts = rest := by simpa using hwaiting
    exact ⟨hrest, hcolumns⟩
  | succ ends =>
    rw [List.replicate_succ, List.cons_append, List.cons.injEq] at hwaiting
    exact absurd hwaiting.1 ht

/-- Behind a token of the text other than `of`, and behind a delimiter, the accounts are in step. -/
theorem InStep.tail (h : InStep blocks layout (t :: ts)) (ht : t ≠ .blockEnd)
    (hof : t.opensBlock = false) : InStep blocks layout ts := by
  obtain ⟨⟨hblock, hopens, hafter⟩, hcolumns⟩ := h.no_end ht
  refine ⟨0, ts, rfl, ⟨fun u hu => hblock u (List.mem_cons_of_mem _ hu), ?_, ?_⟩, Nat.zero_le _,
    hcolumns⟩
  · intro u hu
    cases ts with
    | nil => simp at hu
    | cons v ts => exact hopens u (by simpa using .inr hu)
  · cases ts with
    | nil => simpa [hof] using hafter
    | cons v ts => simpa using hafter

/-- `of` is the last token that waits. -/
theorem InStep.tail_of (h : InStep blocks layout (t :: ts)) (hof : t.opensBlock = true) :
    ts = [] ∧ layout.afterOf = true ∧ layout.columns = blocks := by
  have ht : t ≠ .blockEnd := by
    rintro rfl
    simp [Token.opensBlock] at hof
  obtain ⟨⟨-, hopens, hafter⟩, hcolumns⟩ := h.no_end ht
  cases ts with
  | nil => exact ⟨rfl, by simpa [hof] using hafter.symm, hcolumns⟩
  | cons v ts =>
    have := hopens t (by simp)
    simp [hof] at this

/-- Neither the beginning nor the end of a block comes from the lexer. -/
theorem not_block_of_next {c c' : Cursor} {t : Located Token} (h : c.next = (.ok t, c')) :
    t.value ≠ .blockBegin ∧ t.value ≠ .blockEnd := by
  have hblock := not_mem_of_next h
  simp only [List.mem_cons, not_or] at hblock
  exact ⟨hblock.1, hblock.2.2.1⟩

/-! ### The off-side rule -/

/-- The tokens of a queue. -/
def waiting (layout : Layout) : List Token :=
  layout.queue.map (·.value)

theorem waiting_mark (layout : Layout) (ts : List Token) (span : Span) :
    (layout.mark ts span).waiting = layout.waiting ++ ts := by
  simp [waiting, mark, Function.comp_def]

/-- A line that starts further to the left pops columns and lets as many ends wait. -/
theorem align_spec (layout : Layout) (span : Span) :
    ∃ ends delims, (layout.align span).waiting =
        layout.waiting ++ (List.replicate ends .blockEnd ++ delims) ∧
      (∀ t ∈ delims, t = .blockDelim) ∧ ends ≤ layout.columns.length ∧
      (layout.align span).columns = layout.columns.drop ends := by
  let closed := layout.columns.takeWhile (span.start.column < ·)
  let columns := layout.columns.dropWhile (span.start.column < ·)
  let delims := if columns.head? = some span.start.column then [Token.blockDelim] else []
  -- the columns to the right of the line are popped, and the others stay
  have hsplit : closed ++ columns = layout.columns := List.takeWhile_append_dropWhile
  refine ⟨closed.length, delims, ?_, ?_, ?_, ?_⟩
  · show ({ layout with columns }.mark
      (closed.map (fun _ => Token.blockEnd) ++ delims) span).waiting = _
    rw [waiting_mark, List.map_const']
    rfl
  · intro t ht
    simp only [delims] at ht
    split at ht <;> simp_all
  · rw [← hsplit]
    simp
  · show columns = _
    rw [← hsplit, List.drop_left]

/-- **A token of the text comes behind the ends of the blocks that it ends.** -/
theorem goOn_spec (layout : Layout) (t : Located Token) (hafter : layout.afterOf = false)
    (ht : t.value ≠ .blockBegin ∧ t.value ≠ .blockEnd) :
    ∃ ends rest, (layout.goOn t).waiting =
        layout.waiting ++ (List.replicate ends .blockEnd ++ rest) ∧
      Token.Behind rest (layout.goOn t).afterOf ∧ ends ≤ layout.columns.length ∧
      (layout.goOn t).columns = layout.columns.drop ends := by
  -- what is put in front of the token
  obtain ⟨aligned, ends, delims, haligned, hof, hwaiting, hdelims, hle, hcolumns⟩ :
      ∃ aligned ends delims, (if layout.freshLine then layout.align t.span else layout) = aligned ∧
        aligned.afterOf = false ∧
        aligned.waiting = layout.waiting ++ (List.replicate ends .blockEnd ++ delims) ∧
        (∀ t ∈ delims, t = .blockDelim) ∧ ends ≤ layout.columns.length ∧
        aligned.columns = layout.columns.drop ends := by
    split
    · obtain ⟨ends, delims, h⟩ := align_spec layout t.span
      exact ⟨_, ends, delims, rfl, hafter, h⟩
    · exact ⟨_, 0, [], rfl, hafter, by simp, by simp, Nat.zero_le _, rfl⟩
  rw [goOn, haligned]
  dsimp only
  split
  · -- a pipe inside a block: a delimiter, unless there is one already
    split
    · refine ⟨ends, delims, hwaiting, ?_, hle, hcolumns⟩
      show Token.Behind delims aligned.afterOf
      rw [hof]
      exact Token.behind_delims hdelims
    · refine ⟨ends, delims ++ [.blockDelim], ?_, ?_, hle, hcolumns⟩
      · show (aligned.mark [.blockDelim] t.span).waiting = _
        rw [waiting_mark, hwaiting]
        simp
      · show Token.Behind (delims ++ [.blockDelim]) aligned.afterOf
        rw [hof]
        exact Token.behind_concat hdelims (by decide)
  · refine ⟨ends, delims ++ [t.value], ?_, Token.behind_concat hdelims ht, hle, hcolumns⟩
    show (aligned.queue ++ [t]).map (·.value) = _
    rw [List.map_append, ← waiting, hwaiting]
    simp

theorem queue_goOn_ne_nil (layout : Layout) (t : Located Token) : (layout.goOn t).queue ≠ [] := by
  rw [goOn]
  generalize (if layout.freshLine then layout.align t.span else layout) = aligned
  dsimp only
  split
  · split
    · rename_i hdelim
      intro hnil
      simp [endsWithDelim, show aligned.queue = [] from hnil] at hdelim
    · simp [mark]
  · simp [enqueue]

/-- Handing out a token takes it off those that wait. -/
theorem dequeue_spec {layout layout' : Layout} {t : Located Token} (hne : layout.queue ≠ [])
    (h : layout.dequeue = (t, layout')) : layout.waiting = t.value :: layout'.waiting ∧
      layout'.columns = layout.columns ∧ layout'.afterOf = layout.afterOf := by
  rw [dequeue] at h
  split at h
  · rename_i u queue hq
    obtain ⟨rfl, rfl⟩ : u = t ∧ { layout with queue } = layout' := by simpa using h
    simp [waiting, hq]
  · rename_i hq
    exact absurd hq hne

theorem waiting_acceptEnd {layout : Layout} {t : Located Token} (h : layout.afterOf = false) :
    (layout.acceptEnd t).waiting =
      layout.waiting ++ (List.replicate layout.columns.length .blockEnd ++ [t.value]) := by
  simp [acceptEnd, h, waiting, mark, List.map_const']

/-- **Reading on in the text keeps the accounts in step.** -/
theorem next_inStep {layout layout' : Layout} {t : Located Token} (hq : layout.queue = [])
    (hof : layout.afterOf = false) (h : layout.next = (.ok t, layout')) :
    InStep layout.columns layout' (t.value :: layout'.waiting) := by
  fun_induction next layout with
  | case1 layout _ e cursor hc => simp at h
  | case2 layout _ u cursor hc hu hlt ih => exact ih hq hof h
  | case3 layout _ u cursor hc hu read t₁ layout₁ hd =>
    obtain ⟨rfl, rfl⟩ : t₁ = t ∧ layout₁ = layout' := by simpa using h
    have hnil : read.waiting = [] := by simp [read, waiting, hq]
    split at hd
    · -- the end of the text ends all blocks
      rename_i heof
      obtain ⟨hwaiting, hcolumns, hafter⟩ := dequeue_spec (by simp [acceptEnd]) hd
      rw [waiting_acceptEnd (show read.afterOf = false from hof), hnil, List.nil_append] at hwaiting
      refine ⟨layout.columns.length, [u.value], hwaiting.symm, ?_, Nat.le_refl _, ?_⟩
      · rw [hafter, heof]
        exact ⟨by simp, by simp, by simp [acceptEnd, read, hof, mark, Token.opensBlock]⟩
      · rw [hcolumns]
        simp [acceptEnd, read, hof, mark]
    · -- any other token goes on with the blocks, of which it may end some
      have haccept : read.accept u = read.goOn u := by
        rw [accept, if_neg (by simp [read, hof])]
      rw [haccept] at hd
      obtain ⟨ends, rest, hspec, hbehind, hle, hdrop⟩ := goOn_spec read u hof (not_block_of_next hc)
      obtain ⟨hwaiting, hcolumns, hafter⟩ := dequeue_spec (queue_goOn_ne_nil read u) hd
      rw [hspec, hnil, List.nil_append] at hwaiting
      exact ⟨ends, rest, hwaiting.symm, hafter ▸ hbehind, hle, hcolumns.trans hdrop⟩
  | case4 layout hne t₁ layout₁ hd => simp [hq] at hne

/-- **Behind `of` a block begins**, and inside it the accounts are in step. -/
theorem next_behindOf {layout layout' : Layout} {t : Located Token} (hq : layout.queue = [])
    (hof : layout.afterOf = true) (h : layout.next = (.ok t, layout')) :
    t.value = .blockBegin ∧
      InStep (layout'.columns.headD 0 :: layout.columns) layout' layout'.waiting := by
  fun_induction next layout with
  | case1 layout _ e cursor hc => simp at h
  | case2 layout _ u cursor hc hu hlt ih => exact ih hq hof h
  | case3 layout _ u cursor hc hu read t₁ layout₁ hd =>
    obtain ⟨rfl, rfl⟩ : t₁ = t ∧ layout₁ = layout' := by simpa using h
    have hempty : (read.markEmptyBlock u.span).waiting = [.blockBegin, .blockEnd] := by
      simp [markEmptyBlock, waiting, mark, read, hq]
    split at hd
    · -- an empty block at the end of the text, which ends all other blocks
      rename_i heof
      have hend : read.acceptEnd u = (read.markEmptyBlock u.span).acceptEnd u := by
        simp [acceptEnd, read, hof, markEmptyBlock, mark]
      rw [hend] at hd
      obtain ⟨hwaiting, hcolumns, hafter⟩ := dequeue_spec (by simp [acceptEnd]) hd
      rw [waiting_acceptEnd rfl, hempty, List.cons_append, List.cons.injEq] at hwaiting
      refine ⟨hwaiting.1.symm, layout.columns.length + 1, [u.value], ?_, ?_, by simp, ?_⟩
      · rw [← hwaiting.2, List.replicate_succ]
        rfl
      · rw [hafter, heof]
        exact ⟨by simp, by simp, rfl⟩
      · rw [hcolumns]
        simp [acceptEnd, markEmptyBlock, mark]
    · rw [accept, if_pos (by simp [read, hof])] at hd
      split at hd
      · -- an empty block, and the token goes on with the blocks around it
        obtain ⟨ends, rest, hspec, hbehind, hle, hdrop⟩ :=
          goOn_spec (read.markEmptyBlock u.span) u rfl (not_block_of_next hc)
        obtain ⟨hwaiting, hcolumns, hafter⟩ := dequeue_spec (queue_goOn_ne_nil _ u) hd
        rw [hspec, hempty, List.cons_append, List.cons.injEq] at hwaiting
        refine ⟨hwaiting.1.symm, ends + 1, rest, ?_, hafter ▸ hbehind, Nat.succ_le_succ hle, ?_⟩
        · rw [← hwaiting.2, List.replicate_succ]
          rfl
        · rw [hcolumns, hdrop]
          rfl
      · -- the token opens a block
        obtain ⟨hwaiting, hcolumns, hafter⟩ := dequeue_spec (by simp [openBlock, enqueue]) hd
        have hopen : (read.openBlock u).waiting = [.blockBegin, u.value] := by
          simp [openBlock, enqueue, mark, waiting, read, hq]
        rw [hopen, List.cons.injEq] at hwaiting
        refine ⟨hwaiting.1.symm, 0, [u.value], hwaiting.2.symm, ?_, Nat.zero_le _, ?_⟩
        · rw [hafter]
          exact ⟨by simpa using not_block_of_next hc, by simp, by simp [openBlock, enqueue]⟩
        · rw [hcolumns]
          rfl
  | case4 layout hne t₁ layout₁ hd => simp [hq] at hne

end Layout

/-! ### Streams in step -/

namespace TokenStream

variable {blocks : List Nat} {s s' : TokenStream} {t : Located Token}

/-- The tokens that have been read off the text and not yet been taken. -/
def waiting (s : TokenStream) : List Token :=
  s.lookahead.toList.map (·.value) ++ s.layout.waiting

/-- The columns of the layout are those of the blocks that are being read, less the innermost ones
for which an end waits. -/
def InStep (s : TokenStream) (blocks : List Nat) : Prop :=
  s.layout.InStep blocks s.waiting

/-- `of` has just been taken, so that the next token opens a block. -/
structure BehindOf (s : TokenStream) (blocks : List Nat) : Prop where
  lookahead : s.lookahead = none
  queue : s.layout.queue = []
  afterOf : s.layout.afterOf = true
  columns : s.layout.columns = blocks

theorem inStep_ofString (text : String) : (ofString text).InStep [] :=
  ⟨0, [], rfl, ⟨by simp, by simp, rfl⟩, Nat.le_refl _, rfl⟩

/-- A token that is read off the layout was the next of those that wait. -/
theorem InStep.pull (h : s.InStep blocks) (hnone : s.lookahead = none)
    (hpull : s.pull = .ok (t, s')) : s'.layout.InStep blocks (t.value :: s'.layout.waiting) := by
  rw [TokenStream.pull] at hpull
  have hwaiting : s.waiting = s.layout.waiting := by simp [waiting, hnone]
  split at hpull
  · rename_i u layout hnext
    obtain ⟨rfl, rfl⟩ : u = t ∧ { s with layout } = s' := by simpa using hpull
    rw [InStep, hwaiting] at h
    cases hq : s.layout.queue with
    | nil =>
      -- nothing waits, so that the text is read on
      obtain ⟨ends, rest, hnil, hrest, -, hcolumns⟩ := h
      obtain ⟨rfl, rfl⟩ : ends = 0 ∧ rest = [] := by simpa [Layout.waiting, hq] using hnil
      have hof : s.layout.afterOf = false := by simpa using hrest.afterOf.symm
      have hstep := Layout.next_inStep hq hof hnext
      rwa [hcolumns, List.drop_zero] at hstep
    | cons v queue =>
      -- the text is left alone while tokens wait
      rw [Layout.next_of_queue hq] at hnext
      obtain ⟨rfl, rfl⟩ : v = u ∧ { s.layout with queue } = layout := by simpa using hnext
      rw [Layout.waiting, hq] at h
      exact h
  · simp at hpull

/-- **Looking keeps the accounts in step.** -/
theorem InStep.peek (h : s.InStep blocks) (hpeek : s.peek = .ok (t, s')) : s'.InStep blocks := by
  rw [TokenStream.peek] at hpeek
  split at hpeek
  · obtain ⟨-, rfl⟩ : _ ∧ s = s' := by simpa using hpeek
    exact h
  · rename_i hnone
    cases hpull : s.pull with
    | error e => simp [hpull, Except.map] at hpeek
    | ok result =>
      obtain ⟨u, s₁⟩ := result
      obtain ⟨rfl, rfl⟩ : u = t ∧ { s₁ with lookahead := some u } = s' := by
        simpa [hpull, Except.map] using hpeek
      have hstep := h.pull hnone hpull
      exact hstep

/-- A token that is taken was the next of those that wait. -/
theorem InStep.advance (h : s.InStep blocks) (hadvance : s.advance = .ok (t, s')) :
    s'.layout.InStep blocks (t.value :: s'.waiting) := by
  rw [TokenStream.advance] at hadvance
  split at hadvance
  · rename_i u hu
    obtain ⟨rfl, rfl⟩ : u = t ∧ { s with lookahead := none } = s' := by simpa using hadvance
    simpa [InStep, waiting, hu] using h
  · rename_i hnone
    have hnone' : s'.lookahead = none := (lookahead_of_pull hadvance).trans hnone
    simpa [waiting, hnone'] using h.pull hnone hadvance

/-- **Taking an end leaves the innermost block.** -/
theorem InStep.advance_end (h : s.InStep blocks) (hadvance : s.advance = .ok (t, s'))
    (ht : t.value = .blockEnd) : ∃ column outer, blocks = column :: outer ∧ s'.InStep outer := by
  have hstep := h.advance hadvance
  rw [ht] at hstep
  exact hstep.tail_end

/-- **Taking a token of the text or a delimiter keeps the accounts in step.** -/
theorem InStep.advance_inner (h : s.InStep blocks) (hadvance : s.advance = .ok (t, s'))
    (ht : t.value ≠ .blockEnd) (hof : t.value.opensBlock = false) : s'.InStep blocks :=
  (h.advance hadvance).tail ht hof

theorem InStep.advance_of (h : s.InStep blocks) (hadvance : s.advance = .ok (t, s'))
    (hof : t.value.opensBlock = true) : s'.BehindOf blocks := by
  obtain ⟨hnil, hafter, hcolumns⟩ := (h.advance hadvance).tail_of hof
  have hwaiting : s'.lookahead = none ∧ s'.layout.queue = [] := by
    simpa [waiting, Layout.waiting] using hnil
  exact ⟨hwaiting.1, hwaiting.2, hafter, hcolumns⟩

/-- **Taking the token behind `of` enters a block.** -/
theorem BehindOf.advance (h : s.BehindOf blocks) (hadvance : s.advance = .ok (t, s')) :
    t.value = .blockBegin ∧ s'.InStep (s'.layout.columns.headD 0 :: blocks) := by
  rw [TokenStream.advance, h.lookahead] at hadvance
  have hnone : s'.lookahead = none := (lookahead_of_pull hadvance).trans h.lookahead
  simp only [TokenStream.pull] at hadvance
  split at hadvance
  · rename_i u layout hnext
    obtain ⟨rfl, rfl⟩ : u = t ∧ { s with layout } = s' := by simpa using hadvance
    obtain ⟨hbegin, hstep⟩ := Layout.next_behindOf h.queue h.afterOf hnext
    refine ⟨hbegin, ?_⟩
    rw [h.columns] at hstep
    simpa [InStep, waiting, h.lookahead] using hstep
  · simp at hadvance

/-- In front of a token that is no end the columns are those of all blocks. -/
theorem InStep.columns_eq (h : s.InStep blocks) (hpeek : s.lookahead = some t)
    (ht : t.value ≠ .blockEnd) : s.layout.columns = blocks := by
  rw [InStep, waiting, hpeek] at h
  exact (h.no_end ht).2

/-- **Closing leaves the innermost block**, in front of a token that is no end. -/
theorem InStep.close {column : Nat} (h : s.InStep (column :: blocks))
    (hpeek : s.lookahead = some t) (ht : t.value ≠ .blockEnd) :
    s.closeInnermost.1 = true ∧ s.closeInnermost.2.InStep blocks := by
  have hcolumns := h.columns_eq hpeek ht
  have hclose : s.layout.closeInnermost = (true, { s.layout with columns := blocks }) := by
    simp [Layout.closeInnermost, hcolumns]
  rw [closeInnermost, hclose]
  refine ⟨rfl, 0, s.waiting, rfl, ?_, Nat.zero_le _, rfl⟩
  rw [InStep, waiting, hpeek] at h
  simpa [waiting, hpeek] using (h.no_end ht).1

end TokenStream

end CallByNeed

import CallByNeed.Token.Lexer

/-!
# The off-side rule

The layout stands between the lexer and the parser.  It drops newlines and puts block tokens in
their place: the token after `of` opens a block whose reference column is the token's column, a
line that starts in that column starts the next item, and a line that starts further left ends
the block.  Inside a block a pipe starts the next item too.

A block is open while its reference column is on the stack `columns`.  The token after `of` opens
none if it is first on its line and not to the right of the enclosing block: then the block is
empty.  The parser may close the innermost block from outside (`Layout.closeInnermost`) when it
meets a token with which the block cannot go on.

One token of the text can stand for several tokens, so those not yet handed out wait in `queue`.
The text is read only when the queue is empty.

A layout comes to the end of its text after finitely many tokens.  `Layout.size` bounds their
number: it falls with every token handed out before the end (`Layout.size_next_lt`), since a token
of the text takes a character, which counts five, and adds four at most.
-/

namespace CallByNeed

/-- The state of the off-side rule. -/
structure Layout where
  cursor : Cursor
  /-- The reference columns of the open blocks, innermost first. -/
  columns : List Nat
  /-- The tokens that are next to be handed out, first one first. -/
  queue : List (Located Token)
  /-- The last token was `of`. -/
  afterOf : Bool
  /-- No token of the current line has been read yet. -/
  freshLine : Bool
deriving DecidableEq, Repr

namespace Layout

/-- The layout at the beginning of a text. -/
def ofString (s : String) : Layout where
  cursor := .ofString s
  columns := []
  queue := []
  afterOf := false
  freshLine := true

/-- Queues block tokens. -/
def mark (s : Layout) (ts : List Token) (span : Span) : Layout :=
  { s with queue := s.queue ++ ts.map fun t => ⟨t, span⟩ }

/-- Queues a token of the text. -/
def enqueue (s : Layout) (t : Located Token) : Layout :=
  { s with
    queue := s.queue ++ [t]
    afterOf := t.value.opensBlock
    freshLine := false }

/-- Queues a block without items. -/
def markEmptyBlock (s : Layout) (span : Span) : Layout :=
  { s with afterOf := false }.mark [.blockBegin, .blockEnd] span

/-- Applies the off-side rule to the first token of a line: blocks to the right of its column end,
and a block in its column goes on with a new item. -/
def align (s : Layout) (span : Span) : Layout :=
  let column := span.start.column
  let closed := s.columns.takeWhile (column < ·)
  let columns := s.columns.dropWhile (column < ·)
  let delim := if columns.head? = some column then [Token.blockDelim] else []
  { s with columns }.mark (closed.map (fun _ => Token.blockEnd) ++ delim) span

/-- The last token of the queue starts a new item. -/
def endsWithDelim (s : Layout) : Bool :=
  s.queue.getLast?.any (·.value = .blockDelim)

/-- Queues a token of the text where no block opens: the block tokens that its column calls for,
then the token itself, or a delimiter in place of a pipe inside a block. -/
def goOn (s : Layout) (t : Located Token) : Layout :=
  let s := if s.freshLine then s.align t.span else s
  if t.value = .pipe && !s.columns.isEmpty then
    let s := if s.endsWithDelim then s else s.mark [.blockDelim] t.span
    { s with freshLine := false }
  else s.enqueue t

/-- The token after `of` opens no block: it is first on its line and not to the right of the
enclosing block. -/
def opensNothing (s : Layout) (span : Span) : Bool :=
  s.freshLine && span.start.column ≤ s.columns.headD 0

/-- Opens a block with its first token. -/
def openBlock (s : Layout) (t : Located Token) : Layout :=
  ({ s with columns := t.span.start.column :: s.columns }.mark [.blockBegin] t.span).enqueue t

/-- Queues a token of the text, neither a newline nor the end, with the block tokens that belong
in front of it. -/
def accept (s : Layout) (t : Located Token) : Layout :=
  if s.afterOf then
    if s.opensNothing t.span then (s.markEmptyBlock t.span).goOn t else s.openBlock t
  else s.goOn t

/-- Queues the end of the text, behind the ends of all open blocks. -/
def acceptEnd (s : Layout) (t : Located Token) : Layout :=
  let s := if s.afterOf then s.markEmptyBlock t.span else s
  let s := { s with columns := [] }.mark (s.columns.map fun _ => .blockEnd) t.span
  { s with queue := s.queue ++ [t] }

/-- Hands out the first token of the queue. -/
def dequeue (s : Layout) : Located Token × Layout :=
  match s.queue with
  | t :: queue => (t, { s with queue })
  | [] => (⟨.eof, .unknown⟩, s)

/-- Hands out the next token, reading on in the text if the queue is empty. -/
def next (s : Layout) : Except LexError (Located Token) × Layout :=
  if s.queue.isEmpty then
    match h : s.cursor.next with
    | (.error e, cursor) => (.error e, { s with cursor })
    | (.ok t, cursor) =>
      if ht : t.value = .newline then
        have : cursor.rest.length < s.cursor.rest.length :=
          Cursor.length_next_lt h (by simp [ht])
        next { s with cursor, freshLine := true }
      else
        let s := { s with cursor }
        let (t, s) := (if t.value = .eof then s.acceptEnd t else s.accept t).dequeue
        (.ok t, s)
  else
    let (t, s) := s.dequeue
    (.ok t, s)
termination_by s.cursor.rest.length

/-- Closes the innermost block, because the parser met a token with which it cannot go on.  Tells
whether there was one. -/
def closeInnermost (s : Layout) : Bool × Layout :=
  match s.columns with
  | [] => (false, s)
  | _ :: columns => (true, { s with columns })

/-! ### One step at a time -/

section Next

variable {s : Layout} {t : Located Token} {cursor : Cursor}

/-- A token that waits is handed out. -/
theorem next_of_queue {queue : List (Located Token)} (hq : s.queue = t :: queue) :
    s.next = (.ok t, { s with queue }) := by
  rw [next, if_neg (by simp [hq])]
  simp [dequeue, hq]

/-- An error of the lexer is passed on. -/
theorem next_of_error {e : LexError} (hq : s.queue = []) (hc : s.cursor.next = (.error e, cursor)) :
    s.next = (.error e, { s with cursor }) := by
  rw [next, if_pos (by simp [hq])]
  split
  · rename_i heq
    obtain ⟨rfl, rfl⟩ : _ ∧ _ := by simpa [hc] using heq
    rfl
  · rename_i heq
    simp [hc] at heq

/-- A newline is dropped, and the next line starts. -/
theorem next_of_newline (hq : s.queue = []) (hc : s.cursor.next = (.ok t, cursor))
    (ht : t.value = .newline) : s.next = { s with cursor, freshLine := true }.next := by
  rw [next, if_pos (by simp [hq])]
  split
  · rename_i heq
    simp [hc] at heq
  · rename_i heq
    obtain ⟨rfl, rfl⟩ : _ ∧ _ := by simpa [hc] using heq
    rw [dif_pos ht]

/-- The end of the text is handed out behind the ends of all blocks. -/
theorem next_of_eof (hq : s.queue = []) (hc : s.cursor.next = (.ok t, cursor))
    (ht : t.value = .eof) :
    s.next = (.ok ({ s with cursor }.acceptEnd t).dequeue.1,
      ({ s with cursor }.acceptEnd t).dequeue.2) := by
  rw [next, if_pos (by simp [hq])]
  split
  · rename_i heq
    simp [hc] at heq
  · rename_i heq
    obtain ⟨rfl, rfl⟩ : _ ∧ _ := by simpa [hc] using heq
    rw [dif_neg (by simp [ht])]
    simp only [ht, if_true]

/-- Any other token is handed out behind the block tokens that belong in front of it. -/
theorem next_of_token (hq : s.queue = []) (hc : s.cursor.next = (.ok t, cursor))
    (hline : t.value ≠ .newline) (heof : t.value ≠ .eof) :
    s.next = (.ok ({ s with cursor }.accept t).dequeue.1,
      ({ s with cursor }.accept t).dequeue.2) := by
  rw [next, if_pos (by simp [hq])]
  split
  · rename_i heq
    simp [hc] at heq
  · rename_i heq
    obtain ⟨rfl, rfl⟩ : _ ∧ _ := by simpa [hc] using heq
    rw [dif_neg hline]
    simp only [heof, if_false]

end Next

/-! ### The number of tokens up to the end -/

/-- A token before the end of the text. -/
def isInner (t : Located Token) : Bool :=
  t.value ≠ .eof

/-- A bound for the number of tokens up to the end of the text. -/
def size (s : Layout) : Nat :=
  5 * s.cursor.rest.length + s.columns.length + s.queue.countP isInner + 2 * s.afterOf.toNat

theorem countP_blockTokens (ts : List Token) (span : Span) (h : .eof ∉ ts) :
    (ts.map fun t => (⟨t, span⟩ : Located Token)).countP isInner = ts.length := by
  induction ts with
  | nil => rfl
  | cons t ts ih =>
    obtain ⟨ht, hts⟩ : Token.eof ≠ t ∧ Token.eof ∉ ts := by simpa using h
    simp [isInner, ih hts, Ne.symm ht]

theorem size_mark (s : Layout) (ts : List Token) (span : Span) (h : .eof ∉ ts) :
    (s.mark ts span).size = s.size + ts.length := by
  simp only [size, mark, List.countP_append, countP_blockTokens ts span h]
  omega

/-- A token of the text adds itself, and two if it is `of`. -/
theorem size_enqueue_le (s : Layout) (t : Located Token) (h : s.afterOf = false) :
    (s.enqueue t).size ≤ s.size + 3 := by
  have h₁ : [t].countP isInner ≤ 1 := List.countP_le_length
  have h₂ : t.value.opensBlock.toNat ≤ 1 := Bool.toNat_le _
  simp only [size, enqueue, List.countP_append, h, Bool.toNat_false]
  omega

theorem size_markEmptyBlock (s : Layout) (span : Span) (h : s.afterOf = true) :
    (s.markEmptyBlock span).size = s.size := by
  rw [markEmptyBlock, size_mark _ _ _ (by simp)]
  simp [size, h]

/-- Ends of blocks are no more than the blocks that end, so that only a delimiter adds. -/
theorem size_align_le (s : Layout) (span : Span) : (s.align span).size ≤ s.size + 1 := by
  have hsplit := congrArg List.length
    (List.takeWhile_append_dropWhile (p := (span.start.column < ·)) (l := s.columns))
  rw [List.length_append] at hsplit
  have hdelim : (if (s.columns.dropWhile (span.start.column < ·)).head? = some span.start.column
      then [Token.blockDelim] else []).length ≤ 1 := by
    split <;> simp
  rw [align, size_mark]
  · simp only [size, List.length_append, List.length_map]
    omega
  · split <;> simp

theorem afterOf_align (s : Layout) (span : Span) : (s.align span).afterOf = s.afterOf :=
  rfl

/-- Where no block opens, a token of the text adds four at most. -/
theorem size_goOn_le (s : Layout) (t : Located Token) (h : s.afterOf = false) :
    (s.goOn t).size ≤ s.size + 4 := by
  have key (u : Layout) (hu : u.afterOf = false) (hsize : u.size ≤ s.size + 1) :
      (if t.value = .pipe && !u.columns.isEmpty then
        { if u.endsWithDelim then u else u.mark [.blockDelim] t.span with freshLine := false }
      else u.enqueue t).size ≤ s.size + 4 := by
    split
    · have : ({ if u.endsWithDelim then u else u.mark [.blockDelim] t.span with
          freshLine := false } : Layout).size ≤ u.size + 1 := by
        split
        · exact Nat.le_add_right ..
        · exact Nat.le_of_eq (size_mark u [.blockDelim] t.span (by simp))
      omega
    · have := size_enqueue_le u t hu
      omega
  rw [goOn]
  split
  · exact key _ (by rw [afterOf_align, h]) (size_align_le s t.span)
  · exact key s h (Nat.le_add_right ..)

/-- A token of the text, with the block tokens in front of it, adds four at most. -/
theorem size_accept_le (s : Layout) (t : Located Token) : (s.accept t).size ≤ s.size + 4 := by
  rw [accept]
  split
  · rename_i h
    split
    · have := size_goOn_le (s.markEmptyBlock t.span) t rfl
      rwa [size_markEmptyBlock s t.span h] at this
    · have h₁ : [t].countP isInner ≤ 1 := List.countP_le_length
      have h₂ : t.value.opensBlock.toNat ≤ 1 := Bool.toNat_le _
      have h₃ := countP_blockTokens [.blockBegin] t.span (by simp)
      simp only [openBlock, enqueue, mark, size, List.countP_append, h, h₃, List.length_cons,
        List.length_nil, Bool.toNat_true]
      omega
  · rename_i h
    exact size_goOn_le s t (by simpa using h)

/-- The end of the text adds nothing: the ends of the blocks were counted while they were open. -/
theorem size_acceptEnd (s : Layout) (t : Located Token) (h : t.value = .eof) :
    (s.acceptEnd t).size = s.size := by
  have key (u : Layout) : ({ { u with columns := [] }.mark (u.columns.map fun _ => .blockEnd) t.span
      with queue := ({ u with columns := [] }.mark (u.columns.map fun _ => .blockEnd)
        t.span).queue ++ [t] } : Layout).size = u.size := by
    have ht : [t].countP isInner = 0 := by simp [isInner, h]
    have hends := countP_blockTokens (u.columns.map fun _ => Token.blockEnd) t.span (by simp)
    rw [List.length_map] at hends
    simp only [size, mark, List.countP_append, ht, hends, List.length_nil]
    omega
  rw [acceptEnd]
  split
  · rename_i hs
    exact (key _).trans (size_markEmptyBlock s t.span hs)
  · exact key s

/-- Handing out a token before the end takes one away. -/
theorem size_dequeue {s s' : Layout} {t : Located Token} (h : s.dequeue = (t, s'))
    (ht : t.value ≠ .eof) : s'.size + 1 = s.size := by
  rw [dequeue] at h
  split at h
  · rename_i u queue hq
    obtain ⟨rfl, rfl⟩ : u = t ∧ { s with queue } = s' := by simpa using h
    simp [size, hq, isInner, ht]
    omega
  · obtain ⟨rfl, rfl⟩ : (⟨.eof, .unknown⟩ : Located Token) = t ∧ s = s' := by simpa using h
    exact absurd rfl ht

/-- **A layout comes to the end of its text**: every token before the end makes it smaller. -/
theorem size_next_lt {s s' : Layout} {t : Located Token} (h : s.next = (.ok t, s'))
    (ht : t.value ≠ .eof) : s'.size < s.size := by
  fun_induction next s with
  | case1 s hq e cursor hc => simp at h
  | case2 s hq u cursor hc hu hlt ih =>
    have := ih h
    simp only [size] at this ⊢
    omega
  | case3 s hq u cursor hc hu s₁ t₁ s₂ hd =>
    obtain ⟨rfl, rfl⟩ : t₁ = t ∧ s₂ = s' := by simpa using h
    have hd' := size_dequeue hd ht
    split at hd'
    · rename_i heof
      rw [size_acceptEnd _ _ heof] at hd'
      have hle : cursor.rest.length ≤ s.cursor.rest.length := Cursor.length_next_le hc
      simp only [s₁, size] at hd' ⊢
      omega
    · rename_i hne
      have hlt : cursor.rest.length < s.cursor.rest.length := Cursor.length_next_lt hc hne
      have hacc := size_accept_le s₁ u
      simp only [s₁, size] at hd' hacc ⊢
      omega
  | case4 s hq t₁ s₂ hd =>
    obtain ⟨rfl, rfl⟩ : t₁ = t ∧ s₂ = s' := by simpa using h
    have := size_dequeue hd ht
    omega

/-- Closing a block makes a layout smaller. -/
theorem size_closeInnermost_lt {s s' : Layout} (h : s.closeInnermost = (true, s')) :
    s'.size < s.size := by
  rw [closeInnermost] at h
  split at h
  · simp at h
  · rename_i column columns hc
    obtain rfl : { s with columns } = s' := by simpa using h
    simp [size, hc]

/-! ### Whole texts -/

/-- The results of `next` up to the end of the text or the first error, that one included. -/
def results (s : Layout) : List (Except LexError (Located Token)) :=
  match h : s.next with
  | (.error e, _) => [.error e]
  | (.ok t, s') =>
    if ht : t.value = .eof then [.ok t]
    else
      have : s'.size < s.size := size_next_lt h ht
      .ok t :: s'.results
termination_by s.size

end Layout

end CallByNeed

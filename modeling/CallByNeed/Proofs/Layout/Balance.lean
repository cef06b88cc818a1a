import CallByNeed.Proofs.Grammar.TokenList
import CallByNeed.Proofs.Layout.Parts
import Mathlib.Data.List.Chain
import Mathlib.Data.List.Forall2

/-!
# The layout loses nothing and balances its blocks

A parser asks a layout for tokens and, now and then, to close the innermost block
(`Layout.Request`).  `Layout.Account` keeps the books: what was handed out, which tokens were read
off the text and by which layout, and how many blocks were closed from outside.  Whatever the
requests and their order, the books balance (`Layout.Account.Balanced`):

* what was handed out and what still waits are made of one piece for each token of the text, a
  newline standing for nothing, a pipe inside of a block for one delimiter and any other token for
  itself, each behind the block tokens that belong in front of it;
* the beginning of a block stands directly behind each `of`, and nowhere else;
* each block that has begun has ended, was closed from outside, is still open, or its end waits.

The invariant `Layout.Account.Sound` holds also between two requests, while the layout reads on.  It
is kept by reading a token (`Sound.read`), by handing one out (`Sound.deliver`) and by closing a
block (`Sound.close`).
-/

namespace CallByNeed

/-- The second cursor is reached from the first one by reading these tokens, one after the other. -/
inductive Cursor.Reads (c : Cursor) : List (Located Token) → Cursor → Prop
  | nil : c.Reads [] c
  | concat {ts : List (Located Token)} {c' c'' : Cursor} {t : Located Token} :
      c.Reads ts c' → c'.next = (.ok t, c'') → c.Reads (ts ++ [t]) c''

namespace Layout

/-! ### Accounts -/

/-- What can be asked of a layout. -/
inductive Request where
  /-- Hand out a token. -/
  | next
  /-- Close the innermost block. -/
  | close
deriving DecidableEq, Repr

/-- The tokens that `next` reads off the text, each with the layout that meets it. -/
def readings (s : Layout) : List (Layout × Located Token) :=
  if s.queue.isEmpty then
    match h : s.cursor.next with
    | (.error _, _) => []
    | (.ok t, cursor) =>
      if ht : t.value = .newline then
        have : cursor.rest.length < s.cursor.rest.length :=
          Cursor.length_next_lt h (by simp [ht])
        (s, t) :: { s with cursor, freshLine := true }.readings
      else [(s, t)]
  else []
termination_by s.cursor.rest.length

/-- What has been asked of a layout so far, and with what results. -/
structure Account where
  layout : Layout
  /-- The tokens that were handed out. -/
  delivered : List (Located Token)
  /-- The tokens that were read off the text, each with the layout that met it. -/
  met : List (Layout × Located Token)
  /-- How many blocks were closed on request. -/
  closes : Nat

namespace Account

/-- The account at the beginning of a text. -/
def start (text : String) : Account :=
  ⟨.ofString text, [], [], 0⟩

/-- Serves a request, unless the lexer meets an error. -/
def serve (a : Account) : Request → Option Account
  | .next =>
    match a.layout.next with
    | (.error _, _) => none
    | (.ok t, layout) =>
      some { a with layout, delivered := a.delivered ++ [t], met := a.met ++ a.layout.readings }
  | .close =>
    match a.layout.closeInnermost with
    | (true, layout) => some { a with layout, closes := a.closes + 1 }
    | (false, layout) => some { a with layout }

/-- Serves requests one after the other. -/
def run (a : Account) (requests : List Request) : Option Account :=
  requests.foldlM serve a

end Account

/-- The token stays in the text: it is neither a newline nor a pipe inside of a block. -/
def keeps (met : Layout × Located Token) : Bool :=
  met.2.value ≠ .newline && !met.1.swallows met.2

/-- What a token of the text may be turned into: a newline into nothing, a pipe that is left out
into one delimiter, any other token into itself, with other block tokens in front. -/
def StandsFor (piece : List (Located Token)) (met : Layout × Located Token) : Prop :=
  if met.2.value = .newline then piece = []
  else if met.1.swallows met.2 then
    ∃ marks : List (Located Token), (∀ u ∈ marks, u.value = .blockBegin ∨ u.value = .blockEnd) ∧
      piece = marks ++ [blockToken met.2 .blockDelim]
  else
    ∃ marks : List (Located Token), (∀ u ∈ marks, u.value.isBlock = true) ∧ piece = marks ++ [met.2]

/-- Only behind `of` stands the beginning of a block, and nothing else stands there. -/
def Follows (t u : Located Token) : Prop :=
  t.value = .keyword .ofWord ↔ u.value = .blockBegin

/-- **The books balance.** -/
structure Account.Balanced (text : String) (a : Account) : Prop where
  /-- The tokens that were read are those of the lexer, one after the other. -/
  reads : (Cursor.ofString text).Reads (a.met.map (·.2)) a.layout.cursor
  /-- Of these, all but newlines and pipes inside of blocks are handed out, or wait. -/
  kept : (a.delivered ++ a.layout.queue).filter (!·.value.isBlock) = (a.met.filter keeps).map (·.2)
  /-- Each token has its piece. -/
  pieces : ∃ pieces, a.delivered ++ a.layout.queue = pieces.flatten ∧
    List.Forall₂ StandsFor pieces a.met
  /-- A block begins directly behind each `of`, and nowhere else. -/
  follows : a.delivered.IsChain Follows
  head : ∀ t ∈ a.delivered.head?, t.value ≠ .blockBegin
  /-- Blocks that have begun have ended, were closed, are open, or their end waits. -/
  blocks : count .blockBegin a.delivered = count .blockEnd a.delivered + a.closes +
    a.layout.columns.length + count .blockEnd a.layout.queue
  /-- At the end of the text no block is open. -/
  ended : (∃ t ∈ a.delivered, t.value = .eof) →
    count .blockBegin a.delivered = count .blockEnd a.delivered + a.closes

/-! ### Reading on -/

section Readings

variable {s : Layout} {t : Located Token} {cursor : Cursor}

theorem readings_of_queue (hq : s.queue ≠ []) : s.readings = [] := by
  rw [readings, if_neg (by simpa using hq)]

/-- With an empty queue a layout meets a token, and then reads on if it must. -/
theorem readings_of_read (hq : s.queue = []) (hc : s.cursor.next = (.ok t, cursor)) :
    s.readings = (s, t) :: (s.meet t cursor).readings := by
  rw [readings, if_pos (by simp [hq])]
  split
  · rename_i heq
    simp [hc] at heq
  · rename_i heq
    obtain ⟨rfl, rfl⟩ : t = _ ∧ cursor = _ := by simpa [hc] using heq
    split
    · rename_i hline
      rw [meet_of_newline hline]
    · rename_i hline
      have hne : (s.meet t cursor).queue ≠ [] := by
        rw [queue_meet hq, share_eq hline]
        simp
      rw [readings_of_queue hne]

end Readings

/-! ### The piece of a token -/

section Share

variable {s : Layout} {t : Located Token}

/-- In a piece an `of` stands only in the last place, and the beginning of a block only in the
first. -/
theorem isChain_share (hline : t.value ≠ .newline) (ht : t.value.isBlock = false) :
    (s.share t).IsChain Follows := by
  -- between the first token and the last there are ends and delimiters only
  have hmarks (ms : List (Located Token)) (hms : ∀ u ∈ ms, u.value ≠ .keyword .ofWord)
      (hrest : ∀ u ∈ ms ++ [s.standIn t], u.value ≠ .blockBegin) :
      (ms ++ [s.standIn t]).IsChain Follows := by
    induction ms with
    | nil => exact .singleton _
    | cons m ms ih =>
      obtain ⟨hm, hms⟩ : m.value ≠ .keyword .ofWord ∧ ∀ u ∈ ms, u.value ≠ .keyword .ofWord := by
        simpa using hms
      rw [List.cons_append, List.isChain_cons]
      refine ⟨fun u hu => ?_, ih hms fun u hu => hrest u (List.mem_cons_of_mem _ hu)⟩
      have hne := hrest u (List.mem_cons_of_mem _ (List.mem_of_head? hu))
      simp [Follows, hm, hne]
  have hinner : (s.marks t ++ [s.standIn t]).IsChain Follows := by
    refine hmarks _ (fun u hu => ?_) fun u hu => ne_begin_of_mem ht hu
    rcases mem_marks hu with rfl | ⟨rfl, -⟩ <;> simp [blockToken]
  rw [share_eq hline]
  cases hof : s.afterOf with
  | false => simpa [hof] using hinner
  -- after `of` the beginning of a block stands in front of them
  | true =>
    rw [if_pos rfl, List.singleton_append, List.isChain_cons]
    refine ⟨fun u hu => ?_, hinner⟩
    have hne := ne_begin_of_mem ht (List.mem_of_head? hu)
    simp [Follows, hne, blockToken]

/-- **Each token has its piece.** -/
theorem standsFor_share (s : Layout) (t : Located Token) : StandsFor (s.share t) (s, t) := by
  unfold StandsFor
  split
  · rename_i hline
    rw [share, if_pos hline]
  · rename_i hline
    have hopening : ∀ u ∈ (if s.afterOf then [blockToken t .blockBegin] else []),
        u.value = .blockBegin := by
      intro u hu
      split at hu
      · obtain rfl := List.mem_singleton.1 hu
        rfl
      · cases hu
    rw [share_eq hline, ← List.append_assoc]
    -- a swallowed pipe has a delimiter in its place
    unfold standIn
    split
    · rename_i hswallows
      refine ⟨_, fun u hu => ?_, rfl⟩
      rcases List.mem_append.1 hu with hu | hu
      · exact .inl (hopening u hu)
      · rcases mem_marks hu with rfl | ⟨-, hnot⟩
        · exact .inr rfl
        · simp [hnot] at hswallows
    · rename_i hswallows
      refine ⟨_, fun u hu => ?_, rfl⟩
      rcases List.mem_append.1 hu with hu | hu
      · rw [hopening u hu]
        rfl
      · rcases mem_marks hu with rfl | ⟨rfl, -⟩ <;> rfl

/-- **A token loses nothing but itself**, and only if it is left out. -/
theorem filter_share (s : Layout) (ht : t.value.isBlock = false) :
    (s.share t).filter (!·.value.isBlock) = ([(s, t)].filter keeps).map (·.2) := by
  by_cases hline : t.value = .newline
  · simp [share, hline, keeps]
  · have hmarks : (s.marks t).filter (!·.value.isBlock) = [] := by
      rw [List.filter_eq_nil_iff]
      intro u hu
      rcases mem_marks hu with rfl | ⟨rfl, -⟩ <;> simp [blockToken, Token.isBlock]
    have hopening : (if s.afterOf then [blockToken t .blockBegin] else []).filter
        (!·.value.isBlock) = [] := by
      split <;> simp [blockToken, Token.isBlock]
    rw [share_eq hline, List.filter_append, List.filter_append, hopening, hmarks]
    cases hswallows : s.swallows t with
    | true => simp [standIn, hswallows, keeps, blockToken, Token.isBlock]
    | false => simp [standIn, hswallows, keeps, hline, ht]

end Share

/-! ### The invariant -/

namespace Account

/-- What was handed out and what waits. -/
def output (a : Account) : List (Located Token) :=
  a.delivered ++ a.layout.queue

/-- What holds of an account also while the layout reads on. -/
structure Sound (text : String) (a : Account) : Prop where
  reads : (Cursor.ofString text).Reads (a.met.map (·.2)) a.layout.cursor
  kept : a.output.filter (!·.value.isBlock) = (a.met.filter keeps).map (·.2)
  pieces : ∃ pieces, a.output = pieces.flatten ∧ List.Forall₂ StandsFor pieces a.met
  follows : a.output.IsChain Follows
  head : ∀ t ∈ a.output.head?, t.value ≠ .blockBegin
  /-- The layout knows whether the last token was `of`. -/
  last : a.layout.afterOf = true ↔ ∃ t ∈ a.output.getLast?, t.value = .keyword .ofWord
  blocks : count .blockBegin a.output = count .blockEnd a.output + a.closes +
    a.layout.columns.length
  /-- Only the first token that waits may begin a block. -/
  waiting : ∀ t ∈ a.layout.queue.tail, t.value ≠ .blockBegin
  /-- The end of the text waits in the last place. -/
  inner : ∀ t ∈ a.layout.queue.dropLast, t.value ≠ .eof
  /-- Behind the end of the text nothing is open, and the lexer is at its end. -/
  ended : (∃ t ∈ a.output, t.value = .eof) → a.layout.columns = [] ∧ a.layout.afterOf = false ∧
    ∃ t, t.value = .eof ∧ a.layout.cursor.next = (.ok t, a.layout.cursor)
  silent : (∃ t ∈ a.delivered, t.value = .eof) → ∀ t ∈ a.layout.queue, t.value = .eof

/-- The account behind a token that has been read off the text. -/
def read (a : Account) (t : Located Token) (cursor : Cursor) : Account :=
  { a with layout := a.layout.meet t cursor, met := a.met ++ [(a.layout, t)] }

/-- The account behind a token that has been handed out. -/
def deliver (a : Account) (t : Located Token) (queue : List (Located Token)) : Account :=
  { a with layout := { a.layout with queue }, delivered := a.delivered ++ [t] }

section Sound

variable {text : String} {a : Account} {t : Located Token} {cursor : Cursor}

theorem sound_start (text : String) : (start text).Sound text where
  reads := .nil
  kept := rfl
  pieces := ⟨[], rfl, .nil⟩
  follows := .nil
  head := by simp [start, output, ofString]
  last := by simp [start, output, ofString]
  blocks := rfl
  waiting := by simp [start, ofString]
  inner := by simp [start, ofString]
  ended := by simp [start, output, ofString]
  silent := by simp [start]

theorem output_read (hq : a.layout.queue = []) :
    (a.read t cursor).output = a.output ++ a.layout.share t := by
  simp [output, read, queue_meet hq, hq]

/-- A block is to open behind a token just if it is `of`. -/
theorem afterOf_meet {s : Layout} (hline : t.value ≠ .newline) :
    (s.meet t cursor).afterOf = true ↔ (s.standIn t).value = .keyword .ofWord := by
  -- at the end of the text no block is to open
  by_cases heof : t.value = .eof
  · rw [meet_of_eof heof, afterOf_acceptEnd]
    simp [standIn, swallows, heof]
  · rw [meet_of_token hline heof, afterOf_accept]
    unfold standIn
    -- a swallowed pipe is no `of`, and neither is the delimiter in its place
    split
    · rename_i hswallows
      have hpipe : t.value = .pipe := by
        simp only [swallows, Bool.and_eq_true, decide_eq_true_eq] at hswallows
        exact hswallows.1.1
      simp [hpipe, Token.opensBlock, blockToken]
    · constructor
      · intro hopens
        cases hvalue : t.value with
        | keyword word => cases word <;> simp_all [Token.opensBlock]
        | _ => simp [hvalue, Token.opensBlock] at hopens
      · intro hof
        rw [hof]
        rfl

/-- Reading a newline puts nothing into the queue. -/
theorem Sound.readLine (ha : a.Sound text) (hq : a.layout.queue = [])
    (hc : a.layout.cursor.next = (.ok t, cursor)) (hline : t.value = .newline) :
    (a.read t cursor).Sound text := by
  have houtput : (a.read t cursor).output = a.output := by
    rw [output_read hq, share, if_pos hline, List.append_nil]
  have hlayout : (a.read t cursor).layout = { a.layout with cursor, freshLine := true } :=
    meet_of_newline hline
  -- the end of the text would be read again
  have hnot : ¬ ∃ u ∈ a.output, u.value = .eof := by
    intro h
    obtain ⟨-, -, u, hu, hnext⟩ := ha.ended h
    obtain ⟨rfl, -⟩ : t = u ∧ _ := by simpa [hc] using hnext
    simp [hline] at hu
  have hpiece : StandsFor [] (a.layout, t) := by
    rw [StandsFor, if_pos hline]
  obtain ⟨pieces, hpieces, hall⟩ := ha.pieces
  exact
    { reads := by
        rw [hlayout]
        simpa [read] using ha.reads.concat hc
      kept := by
        rw [houtput, ha.kept]
        simp [read, keeps, hline]
      pieces := ⟨pieces ++ [[]], by simp [houtput, hpieces],
        List.rel_append hall (.cons hpiece .nil)⟩
      follows := by rw [houtput]; exact ha.follows
      head := by rw [houtput]; exact ha.head
      last := by rw [houtput, hlayout]; exact ha.last
      blocks := by rw [houtput, hlayout]; exact ha.blocks
      waiting := by rw [hlayout]; exact ha.waiting
      inner := by rw [hlayout]; exact ha.inner
      ended := by rw [houtput]; exact fun h => absurd h hnot
      silent := by
        rintro ⟨u, hu, heof⟩
        exact absurd ⟨u, List.mem_append_left _ hu, heof⟩ hnot }

/-- Reading any other token puts its piece into the queue. -/
theorem Sound.readToken (ha : a.Sound text) (hq : a.layout.queue = [])
    (hc : a.layout.cursor.next = (.ok t, cursor)) (hline : t.value ≠ .newline) :
    (a.read t cursor).Sound text := by
  have hblock : t.value.isBlock = false := by
    have hnot := not_mem_of_next hc
    simpa [Token.isBlock] using hnot
  have houtput : (a.read t cursor).output = a.output ++ a.layout.share t := output_read hq
  have hlayout : (a.read t cursor).layout = a.layout.meet t cursor := rfl
  have hqueue : (a.read t cursor).layout.queue = a.layout.share t := queue_meet hq
  have hlast := getLast?_share (s := a.layout) hline
  obtain ⟨pieces, hpieces, hall⟩ := ha.pieces
  -- once the end of the text has been read, nothing else is read any more
  have hended (h : ∃ u ∈ (a.read t cursor).output, u.value = .eof) : t.value = .eof := by
    obtain ⟨u, hu, heof⟩ := h
    rw [houtput] at hu
    rcases List.mem_append.1 hu with hu | hu
    · obtain ⟨-, -, v, hv, hnext⟩ := ha.ended ⟨u, hu, heof⟩
      obtain ⟨rfl, -⟩ : t = v ∧ _ := by simpa [hc] using hnext
      exact hv
    · exact eof_of_mem_share hline hu heof
  exact
    { reads := by
        rw [hlayout, cursor_meet]
        simpa [Account.read] using ha.reads.concat hc
      kept := by
        rw [houtput, List.filter_append, ha.kept, filter_share _ hblock]
        simp [Account.read]
      pieces := ⟨pieces ++ [a.layout.share t], by simp [houtput, hpieces],
        List.rel_append hall (.cons (standsFor_share _ t) .nil)⟩
      follows := by
        rw [houtput, List.isChain_append]
        refine ⟨ha.follows, isChain_share hline hblock, fun u hu v hv => ?_⟩
        rw [Follows, head_share hline hblock hv, ha.last]
        simp [Option.mem_def.1 hu]
      head := by
        intro u hu hbegin
        rw [houtput, List.head?_append] at hu
        cases hhead : a.output.head? with
        | some v =>
          obtain rfl : v = u := by simpa [hhead] using hu
          exact ha.head v hhead hbegin
        | none =>
          -- nothing has been handed out, in particular no `of`
          have hof := (head_share hline hblock (by simpa [hhead] using hu)).1 hbegin
          obtain ⟨v, hv, -⟩ := ha.last.1 hof
          simp [List.head?_eq_none_iff.1 hhead] at hv
      last := by
        rw [hlayout, afterOf_meet hline, houtput, List.getLast?_append, hlast]
        simp
      blocks := by
        have hblocks := ha.blocks
        have hshare := count_share (s := a.layout) hline hblock cursor
        rw [houtput, count_append, count_append, hlayout]
        dsimp only [Account.read]
        omega
      waiting := by
        rw [hqueue]
        exact fun u hu => ne_begin_of_mem_tail hline hblock hu
      inner := by
        rw [hqueue]
        intro u hu heof
        have hblock := isBlock_of_mem_dropLast hline hu
        simp [heof, Token.isBlock] at hblock
      ended := by
        intro h
        have heof := hended h
        rw [hlayout, cursor_meet, meet_of_eof heof]
        exact ⟨rfl, afterOf_acceptEnd _ t, t, heof, Cursor.next_of_eof hc heof⟩
      silent := by
        rintro ⟨u, hu, heof⟩
        obtain ⟨hcolumns, hof, -⟩ := ha.ended ⟨u, List.mem_append_left _ hu, heof⟩
        have ht := hended ⟨u, List.mem_append_left _ hu, heof⟩
        rw [hqueue, share, if_neg hline, if_pos ht, endPiece, hcolumns, hof]
        simpa using ht }

/-- **Reading a token keeps the books in order.** -/
theorem Sound.read (ha : a.Sound text) (hq : a.layout.queue = [])
    (hc : a.layout.cursor.next = (.ok t, cursor)) : (a.read t cursor).Sound text := by
  by_cases hline : t.value = .newline
  · exact ha.readLine hq hc hline
  · exact ha.readToken hq hc hline

/-- Nothing waits behind the end of the text. -/
theorem Sound.queue_eq_nil {queue : List (Located Token)} (ha : a.Sound text)
    (hq : a.layout.queue = t :: queue) (heof : t.value = .eof) : queue = [] := by
  cases queue with
  | nil => rfl
  | cons u queue => exact absurd heof (ha.inner t (by rw [hq]; exact List.mem_cons_self))

/-- **Handing out a token keeps the books in order.** -/
theorem Sound.deliver {queue : List (Located Token)} (ha : a.Sound text)
    (hq : a.layout.queue = t :: queue) : (a.deliver t queue).Sound text := by
  have houtput : (a.deliver t queue).output = a.output := by
    simp [output, Account.deliver, hq]
  exact
    { reads := ha.reads
      kept := by rw [houtput]; exact ha.kept
      pieces := by rw [houtput]; exact ha.pieces
      follows := by rw [houtput]; exact ha.follows
      head := by rw [houtput]; exact ha.head
      last := by rw [houtput]; exact ha.last
      blocks := by rw [houtput]; exact ha.blocks
      waiting := fun u hu => ha.waiting u (by rw [hq]; exact List.mem_of_mem_tail hu)
      inner := by
        intro u hu
        refine ha.inner u ?_
        rw [hq]
        cases queue with
        | nil => cases hu
        | cons v queue => exact List.mem_cons_of_mem _ hu
      ended := by rw [houtput]; exact ha.ended
      silent := by
        -- the end of the text is handed out last, so that nothing waits behind it
        rintro ⟨u, hu, heof⟩ v hv
        rcases List.mem_append.1 hu with hu | hu
        · exact ha.silent ⟨u, hu, heof⟩ v (by rw [hq]; exact List.mem_cons_of_mem _ hv)
        · obtain rfl := List.mem_singleton.1 hu
          obtain rfl := ha.queue_eq_nil hq heof
          cases hv }

/-- **Closing a block keeps the books in order.** -/
theorem Sound.close {column : Nat} {columns : List Nat} (ha : a.Sound text)
    (hcolumns : a.layout.columns = column :: columns) :
    Sound text { a with layout := { a.layout with columns }, closes := a.closes + 1 } where
  reads := ha.reads
  kept := ha.kept
  pieces := ha.pieces
  follows := ha.follows
  head := ha.head
  last := ha.last
  blocks := by
    have hblocks := ha.blocks
    rw [hcolumns, List.length_cons] at hblocks
    exact hblocks.trans (by dsimp only [output]; omega)
  waiting := ha.waiting
  inner := ha.inner
  ended := by
    -- behind the end of the text there would be no block to close
    intro h
    obtain ⟨hnil, -⟩ := ha.ended h
    simp [hcolumns] at hnil
  silent := ha.silent

end Sound

/-! ### Requests -/

section Requests

variable {text : String} {a b : Account} {t : Located Token} {layout : Layout}

/-- The account `b` is in order, and `a` is what becomes of it when it hands out its first token. -/
def Delivers (text : String) (b a : Account) : Prop :=
  ∃ t queue, b.Sound text ∧ b.layout.queue = t :: queue ∧ a = b.deliver t queue

theorem Sound.delivers_of_queue (ha : a.Sound text) (hq : a.layout.queue ≠ [])
    (h : a.layout.next = (.ok t, layout)) :
    Delivers text a { a with
      layout, delivered := a.delivered ++ [t], met := a.met ++ a.layout.readings } := by
  obtain ⟨u, queue, hqueue⟩ := List.exists_cons_of_ne_nil hq
  rw [next_of_queue hqueue] at h
  obtain ⟨rfl, rfl⟩ : u = t ∧ _ = layout := by simpa using h
  refine ⟨u, queue, ha, hqueue, ?_⟩
  rw [readings_of_queue hq, List.append_nil]
  rfl

/-- **A token is handed out by an account in order**: the one that has read on as far as it must. -/
theorem Sound.exists_delivers {a : Account} (ha : a.Sound text)
    (h : a.layout.next = (.ok t, layout)) :
    ∃ b, Delivers text b { a with
      layout, delivered := a.delivered ++ [t], met := a.met ++ a.layout.readings } := by
  by_cases hq : a.layout.queue = []
  · rcases hc : a.layout.cursor.next with ⟨e | u, cursor⟩
    · simp [next_of_error hq hc] at h
    · -- what is read first is a newline, or the queue is filled
      have hread := ha.read hq hc
      rw [next_of_read hq hc] at h
      rw [readings_of_read hq hc, List.append_cons a.met]
      by_cases hline : u.value = .newline
      · have hlt : (a.read u cursor).layout.cursor.rest.length < a.layout.cursor.rest.length := by
          rw [show (a.read u cursor).layout.cursor = cursor from cursor_meet ..]
          exact Cursor.length_next_lt hc (by simp [hline])
        exact hread.exists_delivers h
      · refine ⟨_, hread.delivers_of_queue ?_ h⟩
        rw [show (a.read u cursor).layout.queue = a.layout.share u from queue_meet hq,
          share_eq hline]
        simp
  · exact ⟨a, ha.delivers_of_queue hq h⟩
termination_by a.layout.cursor.rest.length

/-- Between two requests no beginning of a block waits, and nothing behind the end of the text. -/
structure Settled (text : String) (a : Account) : Prop extends a.Sound text where
  begun : ∀ t ∈ a.layout.queue, t.value ≠ .blockBegin
  done : (∃ t ∈ a.delivered, t.value = .eof) → a.layout.queue = []

theorem Delivers.settled (h : Delivers text b a) : a.Settled text := by
  obtain ⟨t, queue, hb, hq, rfl⟩ := h
  refine ⟨hb.deliver hq, fun u hu => hb.waiting u (by rw [hq]; exact hu), ?_⟩
  rintro ⟨u, hu, heof⟩
  refine hb.queue_eq_nil hq ?_
  rcases List.mem_append.1 hu with hu | hu
  · exact hb.silent ⟨u, hu, heof⟩ t (by rw [hq]; exact List.mem_cons_self)
  · obtain rfl := List.mem_singleton.1 hu
    exact heof

/-- **A request leaves the books in order**, whichever it is. -/
theorem Settled.serve {request : Request} (ha : a.Settled text)
    (h : a.serve request = some b) : b.Settled text := by
  cases request with
  | next =>
    rcases hnext : a.layout.next with ⟨e | t, layout⟩
    · simp [Account.serve, hnext] at h
    · obtain rfl : _ = b := by simpa [Account.serve, hnext] using h
      obtain ⟨c, hc⟩ := ha.toSound.exists_delivers hnext
      exact hc.settled
  | close =>
    cases hcolumns : a.layout.columns with
    | nil =>
      obtain rfl : a = b := by simpa [Account.serve, closeInnermost, hcolumns] using h
      exact ha
    | cons column columns =>
      obtain rfl : _ = b := by simpa [Account.serve, closeInnermost, hcolumns] using h
      exact ⟨ha.toSound.close hcolumns, ha.begun, ha.done⟩

theorem Settled.run {requests : List Request} (ha : a.Settled text)
    (h : a.run requests = some b) : b.Settled text := by
  induction requests generalizing a with
  | nil =>
    obtain rfl : a = b := by simpa [Account.run] using h
    exact ha
  | cons request requests ih =>
    obtain ⟨c, hserve, hrun⟩ : ∃ c, a.serve request = some c ∧ c.run requests = some b := by
      simpa [Account.run, Option.bind_eq_some_iff] using h
    exact ih (ha.serve hserve) hrun

theorem settled_start (text : String) : (start text).Settled text :=
  ⟨sound_start text, by simp [start, ofString], by simp [start]⟩

/-- Books in order balance, between two requests. -/
theorem Settled.balanced (ha : a.Settled text) : a.Balanced text := by
  -- nothing waits that begins a block, since such a token is handed out at once
  have hbegin : count .blockBegin a.layout.queue = 0 :=
    List.countP_eq_zero.2 fun u hu => by simpa using ha.begun u hu
  have hblocks : count .blockBegin a.delivered = count .blockEnd a.delivered + a.closes +
      a.layout.columns.length + count .blockEnd a.layout.queue := by
    have hall := ha.blocks
    rw [output, count_append, count_append, hbegin] at hall
    omega
  exact
    { reads := ha.reads
      kept := ha.kept
      pieces := ha.pieces
      follows := (List.isChain_append.1 ha.follows).1
      head := by
        intro u hu
        refine ha.head u ?_
        rw [output, List.head?_append, Option.mem_def.1 hu]
        rfl
      blocks := hblocks
      ended := by
        rintro ⟨u, hu, heof⟩
        obtain ⟨hcolumns, -⟩ := ha.ended ⟨u, List.mem_append_left _ hu, heof⟩
        rw [hcolumns, ha.done ⟨u, hu, heof⟩] at hblocks
        exact hblocks }

end Requests

end Account

/-- **The layout loses nothing and balances its blocks**, whatever tokens and closings are asked for
and in whatever order, as long as the lexer meets no error. -/
theorem balanced_of_run {text : String} {requests : List Request} {a : Account}
    (h : (Account.start text).run requests = some a) : a.Balanced text :=
  ((Account.settled_start text).run h).balanced

/-- A pipe inside of a block starts an item.  The outermost block is closed while the ends of the
others wait, a second one cannot be closed, and then a pipe stands outside of all blocks. -/
theorem balanced_of_run_closed :
    let text := "of a of b | x of c\n   d\n | e"
    let of : Token := .keyword .ofWord
    let requests : List Request :=
      List.replicate 12 .next ++ [.close, .close] ++ List.replicate 6 .next
    ∃ a, (Account.start text).run requests = some a ∧ a.Balanced text ∧ a.closes = 1 ∧
      a.delivered.map (·.value) =
        [of, .blockBegin, .identifier "a", of, .blockBegin, .identifier "b", .blockDelim,
          .identifier "x", of, .blockBegin, .identifier "c", .blockEnd, .blockEnd, .blockDelim,
          .identifier "d", .pipe, .identifier "e", .eof] := by
  intro text of requests
  have hrun : ((Account.start text).run requests).map
      (fun a => (a.closes, a.delivered.map (·.value))) =
        some (1, [of, .blockBegin, .identifier "a", of, .blockBegin, .identifier "b", .blockDelim,
          .identifier "x", of, .blockBegin, .identifier "c", .blockEnd, .blockEnd, .blockDelim,
          .identifier "d", .pipe, .identifier "e", .eof]) := by
    decide +kernel
  obtain ⟨a, ha, hresult⟩ := Option.map_eq_some_iff.1 hrun
  obtain ⟨hcloses, hdelivered⟩ := Prod.mk.inj hresult
  exact ⟨a, ha, balanced_of_run ha, hcloses, hdelivered⟩

end Layout

end CallByNeed

import CallByNeed.Proofs.Layout.Balance
import CallByNeed.Proofs.Spans.Fragments

/-!
# The words that a stream has passed

Whatever is asked of a layout, it hands out tokens and errors that know where they are
(`Layout.IsIn`).

What is spelled out in a text are its words: all tokens but newlines and the end of the text.  A
layout reads one word ahead at most, and what waits then are block tokens and, behind them, that
word or a delimiter in its place (`Layout.Awaits`).  So at each place of a parse it is known which
words have been passed (`TokenStream.Passed`): looking ahead passes none, and taking a token passes
the word that the token is or stands for.  The words of a text stand one behind the other
(`Words.Ordered`).
-/

namespace CallByNeed

/-! ### Words -/

/-- The tokens that are spelled out. -/
def wordsOf (ts : List (Located Token)) : List (Located Token) :=
  ts.filter (·.value.isVisible)

theorem wordsOf_append (ts us : List (Located Token)) :
    wordsOf (ts ++ us) = wordsOf ts ++ wordsOf us :=
  List.filter_append ..

theorem wordsOf_of_isVisible {t : Located Token} (ht : t.value.isVisible = true) :
    wordsOf [t] = [t] :=
  List.filter_cons_of_pos ht

theorem wordsOf_of_not_isVisible {t : Located Token} (ht : t.value.isVisible = false) :
    wordsOf [t] = [] :=
  List.filter_cons_of_neg (by simp [ht])

/-- The spans cover something, and stand one behind the other. -/
structure Words.Ordered (ws : List (Located Token)) : Prop where
  lt : ∀ w ∈ ws, w.span.start.index < w.span.stop.index
  pairwise : ws.Pairwise fun a b => a.span.stop.index ≤ b.span.start.index

namespace Cursor

variable {text : String} {c c' : Cursor} {t : Located Token} {met : List (Located Token)}

theorem index_le_of_next {r : Except LexError (Located Token)} (h : c.next = (r, c')) :
    c.position.index ≤ c'.position.index := by
  obtain ⟨cs, hcs⟩ := passes_next h
  rw [hcs.position, Position.index_advance]
  exact Nat.le_add_right ..

/-- Behind a word the cursor stands at its end. -/
theorem stop_of_next (h : c.next = (.ok t, c')) (ht : t.value.isVisible = true) :
    t.span.stop.index = c'.position.index := by
  obtain ⟨hline, heof, -⟩ := Token.isVisible_iff.1 ht
  have htoken := hasToken_of_token h
  generalize c.skipGap = d at htoken
  cases htoken with
  | eof => exact absurd rfl heof
  | newline => exact absurd rfl hline
  | lexeme hne _ =>
    show (d.position.advance (Token.lexeme d.rest)).index = _
    rw [d.passes_lexeme.position]

theorem Reads.isIn (h : (ofString text).Reads met c) : c.IsIn text := by
  induction h with
  | nil => exact isIn_ofString text
  | concat _ hnext ih => exact ih.next hnext

/-- **The words of a text stand one behind the other**, and in front of the cursor. -/
theorem Reads.ordered (h : (ofString text).Reads met c) :
    Words.Ordered (wordsOf met) ∧ (∀ w ∈ wordsOf met, w.span.IsStretch text) ∧
      ∀ w ∈ wordsOf met, w.span.stop.index ≤ c.position.index := by
  induction h with
  | nil => exact ⟨⟨by simp [wordsOf], .nil⟩, by simp [wordsOf], by simp [wordsOf]⟩
  | @concat met c c' t h hnext ih =>
    obtain ⟨⟨hlt, hpairwise⟩, hstretch, hle⟩ := ih
    have hmono := index_le_of_next hnext
    rw [wordsOf_append]
    -- tokens without a span of their own add no word
    cases ht : t.value.isVisible with
    | false =>
      rw [wordsOf_of_not_isVisible ht, List.append_nil]
      exact ⟨⟨hlt, hpairwise⟩, hstretch, fun w hw => Nat.le_trans (hle w hw) hmono⟩
    | true =>
      have hstart := (index_of_next hnext).1
      have hstop := stop_of_next hnext ht
      have hspan := (Located.placed_iff ht).1 (h.isIn.placed hnext).1
      rw [wordsOf_of_isVisible ht]
      refine ⟨⟨?_, ?_⟩, ?_, ?_⟩
      · exact List.forall_mem_append.2 ⟨hlt, by simpa using hspan.lt⟩
      · refine List.pairwise_append.2 ⟨hpairwise, List.pairwise_singleton _ _, fun w hw u hu => ?_⟩
        rw [List.mem_singleton.1 hu]
        exact Nat.le_trans (hle w hw) hstart
      · exact List.forall_mem_append.2 ⟨hstretch, by simpa using hspan⟩
      · exact List.forall_mem_append.2 ⟨fun w hw => Nat.le_trans (hle w hw) hmono,
          by simpa using Nat.le_of_eq hstop⟩

/-- **What has been read and what is still to be read** are all tokens of the text. -/
theorem Reads.tokens {us : List (Located Token)} (h : c.Reads met c') (hus : c'.tokens = .ok us) :
    ∃ ts, c.tokens = .ok ts ∧ wordsOf ts = wordsOf met ++ wordsOf us := by
  induction h generalizing us with
  | nil => exact ⟨us, hus, rfl⟩
  | @concat met c' c'' t _ hnext ih =>
    by_cases heof : t.value = .eof
    · -- behind the end of the text it is read again
      have hus' := tokens_of_next_eof (next_of_eof hnext heof) heof
      obtain rfl : [t] = us := by simpa [hus'] using hus
      obtain ⟨ts, hts, hwords⟩ := ih (tokens_of_next_eof hnext heof)
      refine ⟨ts, hts, ?_⟩
      rw [hwords, wordsOf_append, wordsOf_of_not_isVisible (by simp [heof, Token.isVisible])]
      simp
    · have htokens : c'.tokens = .ok (t :: us) := by
        rw [tokens_of_next hnext heof, hus]
        rfl
      obtain ⟨ts, hts, hwords⟩ := ih htokens
      refine ⟨ts, hts, ?_⟩
      rw [hwords, ← wordsOf_append, ← wordsOf_append, List.append_assoc]
      rfl

end Cursor

/-! ### Layouts -/

/-- What is handed out knows where it is. -/
def PlacedResult (text : String) : Except LexError (Located Token) → Prop
  | .ok t => t.Placed text
  | .error e => e.Placed text

/-- What is handed out knows where it is, and that is a spot. -/
def StandingResult (text : String) : Except LexError (Located Token) → Prop
  | .ok t => t.Stands text
  | .error e => e.Stands text

theorem StandingResult.placed {text : String} {r : Except LexError (Located Token)}
    (h : StandingResult text r) : PlacedResult text r := by
  cases r with
  | ok t => exact And.left h
  | error e => exact And.left h

namespace Layout

variable {text : String} {s s' : Layout} {t u : Located Token} {cursor : Cursor}

/-- The layout reads the text, and what waits knows where it is. -/
structure IsIn (text : String) (s : Layout) : Prop where
  cursor : s.cursor.IsIn text
  queue : ∀ t ∈ s.queue, t.Stands text

theorem isIn_ofString (text : String) : (ofString text).IsIn text :=
  ⟨Cursor.isIn_ofString text, by simp [ofString]⟩

/-- What stands for a token is the token itself, or block tokens where it is. -/
theorem eq_or_of_mem_share (hline : t.value ≠ .newline) (hu : u ∈ s.share t) :
    u = t ∨ ∃ block : Token, block.isBlock = true ∧ u = blockToken t block := by
  have hmarks (hu : u ∈ s.marks t) : ∃ block : Token, block.isBlock = true ∧
      u = blockToken t block := by
    rcases mem_marks hu with rfl | ⟨rfl, -⟩
    · exact ⟨_, rfl, rfl⟩
    · exact ⟨_, rfl, rfl⟩
  rw [share_eq hline] at hu
  rcases List.mem_append.1 hu with hu | hu
  · split at hu
    · exact .inr ⟨_, rfl, List.mem_singleton.1 hu⟩
    · cases hu
  rcases List.mem_append.1 hu with hu | hu
  · exact .inr (hmarks hu)
  · rw [List.mem_singleton.1 hu, standIn]
    split
    · exact .inr ⟨_, rfl, rfl⟩
    · exact .inl rfl

theorem IsIn.meet (h : s.IsIn text) (hq : s.queue = []) (hc : s.cursor.next = (.ok t, cursor)) :
    (s.meet t cursor).IsIn text := by
  obtain ⟨hstands, hblocks⟩ := h.cursor.stands hc
  refine ⟨?_, fun u hu => ?_⟩
  · rw [cursor_meet]
    exact h.cursor.next hc
  · rw [queue_meet hq] at hu
    by_cases hline : t.value = .newline
    · rw [share, if_pos hline] at hu
      cases hu
    · rcases eq_or_of_mem_share hline hu with rfl | ⟨block, hblock, rfl⟩
      · exact hstands
      · exact hblocks hline block hblock

/-- **The layout knows where its tokens and its errors are.** -/
theorem IsIn.stands_next {s : Layout} (h : s.IsIn text) :
    StandingResult text s.next.1 ∧ s.next.2.IsIn text := by
  cases hq : s.queue with
  | cons t queue =>
    rw [next_of_queue hq]
    refine ⟨h.queue t (by simp [hq]), h.cursor, fun u hu => h.queue u ?_⟩
    rw [hq]
    exact List.mem_cons_of_mem t hu
  | nil =>
    rcases hc : s.cursor.next with ⟨e | t, cursor⟩
    · rw [next_of_error hq hc]
      exact ⟨h.cursor.stands_error hc, h.cursor.next hc, h.queue⟩
    · rw [next_of_read hq hc]
      have hmeet := h.meet hq hc
      -- what has been read is a line break, and the layout goes on, or fills the queue
      by_cases hline : t.value = .newline
      · have hlt : (s.meet t cursor).cursor.rest.length < s.cursor.rest.length := by
          rw [cursor_meet]
          exact Cursor.length_next_lt hc (by simp [hline])
        exact hmeet.stands_next
      · obtain ⟨u, queue, hqueue⟩ := List.exists_cons_of_ne_nil (queue_meet_ne_nil hq hline)
        rw [next_of_queue hqueue]
        refine ⟨hmeet.queue u (by simp [hqueue]), hmeet.cursor, fun v hv => hmeet.queue v ?_⟩
        rw [hqueue]
        exact List.mem_cons_of_mem u hv
termination_by s.cursor.rest.length

theorem IsIn.next {s : Layout} (h : s.IsIn text) :
    PlacedResult text s.next.1 ∧ s.next.2.IsIn text :=
  h.stands_next.imp_left StandingResult.placed

theorem IsIn.closeInnermost (h : s.IsIn text) : s.closeInnermost.2.IsIn text := by
  unfold Layout.closeInnermost
  split
  · exact h
  · exact ⟨h.cursor, h.queue⟩

/-- The layout behind a request, whatever comes of it. -/
def ask (s : Layout) : Request → Layout
  | .next => s.next.2
  | .close => s.closeInnermost.2

theorem IsIn.ask (h : s.IsIn text) (request : Request) : (s.ask request).IsIn text := by
  cases request with
  | next => exact h.next.2
  | close => exact h.closeInnermost

/-! ### What waits -/

/-- The tokens wait for a word, or for none: it comes last, behind block tokens, or a delimiter
stands for it. -/
inductive Awaits : List (Located Token) → List (Located Token) → Prop where
  | nil : Awaits [] []
  | token {t : Located Token} (ht : t.value.isBlock = false) : Awaits [t] (wordsOf [t])
  | delim {t : Located Token} (word : Located Token) (ht : t.value = .blockDelim) :
    Awaits [t] [word]
  | mark {t : Located Token} {ts ws : List (Located Token)} (ht : t.value.isBlock = true)
    (h : Awaits ts ws) : Awaits (t :: ts) ws

theorem Awaits.marks {ms ts ws : List (Located Token)} (hms : ∀ m ∈ ms, m.value.isBlock = true)
    (h : Awaits ts ws) : Awaits (ms ++ ts) ws := by
  induction ms with
  | nil => exact h
  | cons m ms ih =>
    exact .mark (hms m List.mem_cons_self) (ih fun u hu => hms u (List.mem_cons_of_mem m hu))

/-- **What stands for a token waits for it.** -/
theorem awaits_share (hline : t.value ≠ .newline) (ht : t.value.isBlock = false) :
    Awaits (s.share t) (wordsOf [t]) := by
  rw [share_eq hline, ← List.append_assoc]
  refine .marks (fun m hm => ?_) ?_
  · rcases List.mem_append.1 hm with hm | hm
    · split at hm
      · rw [List.mem_singleton.1 hm]
        rfl
      · cases hm
    · rcases mem_marks hm with rfl | ⟨rfl, -⟩ <;> rfl
  · unfold standIn
    split
    · rename_i hswallows
      have hpipe : t.value = .pipe := by
        simp only [swallows, Bool.and_eq_true, decide_eq_true_eq] at hswallows
        exact hswallows.1.1
      rw [wordsOf_of_isVisible (by simp [hpipe, Token.isVisible])]
      exact .delim t rfl
    · exact .token ht

/-- What has been read of the text are the words that have been passed, and those for which the
tokens in `front` and in the queue wait. -/
structure Passed (text : String) (front : List (Located Token)) (s : Layout)
    (passed : List (Located Token)) : Prop where
  read : ∃ met awaited, (Cursor.ofString text).Reads met s.cursor ∧
    wordsOf met = passed ++ awaited ∧ Awaits (front ++ s.queue) awaited
  stands : ∀ t ∈ front ++ s.queue, t.Stands text
  /-- If the end of the text waits, there is nothing else to read. -/
  ended : ∀ t ∈ front ++ s.queue, t.value = .eof → ∃ us, s.cursor.tokens = .ok us ∧ wordsOf us = []

section Passed

variable {passed front : List (Located Token)}

theorem passed_ofString (text : String) : Passed text [] (ofString text) [] where
  read := ⟨[], [], .nil, rfl, .nil⟩
  stands := by simp [ofString]
  ended := by simp [ofString]

theorem Passed.isIn (h : s.Passed text front passed) : s.IsIn text := by
  obtain ⟨met, awaited, hreads, -⟩ := h.read
  exact ⟨hreads.isIn, fun t ht => h.stands t (List.mem_append_right front ht)⟩

/-- **The words that have been passed** stand one behind the other, and each covers a stretch. -/
theorem Passed.ordered (h : s.Passed text front passed) :
    Words.Ordered passed ∧ ∀ w ∈ passed, w.span.IsStretch text := by
  obtain ⟨met, awaited, hreads, hwords, -⟩ := h.read
  obtain ⟨⟨hlt, hpairwise⟩, hstretch, -⟩ := hreads.ordered
  rw [hwords] at hlt hpairwise hstretch
  exact ⟨⟨fun w hw => hlt w (List.mem_append_left awaited hw),
    (List.pairwise_append.1 hpairwise).1⟩,
    fun w hw => hstretch w (List.mem_append_left awaited hw)⟩

theorem Passed.meet (h : s.Passed text [] passed) (hq : s.queue = [])
    (hc : s.cursor.next = (.ok t, cursor)) : (s.meet t cursor).Passed text [] passed := by
  obtain ⟨met, awaited, hreads, hwords, hawaits⟩ := h.read
  have hin := h.isIn.meet hq hc
  have hblock : t.value.isBlock = false := by
    simpa [Token.isBlock] using not_mem_of_next hc
  -- nothing is awaited, since the queue is empty
  obtain rfl : awaited = [] := by
    rw [hq] at hawaits
    cases hawaits
    rfl
  refine ⟨⟨met ++ [t], wordsOf [t], ?_, ?_, ?_⟩, hin.queue, fun u hu heof => ?_⟩
  · rw [cursor_meet]
    exact hreads.concat hc
  · rw [wordsOf_append, hwords, List.append_nil]
  · rw [List.nil_append, queue_meet hq]
    by_cases hline : t.value = .newline
    · rw [share, if_pos hline, wordsOf_of_not_isVisible (by simp [hline, Token.isVisible])]
      exact .nil
    · exact awaits_share hline hblock
  · rw [List.nil_append, queue_meet hq] at hu
    -- a line break puts nothing into the queue
    have hline : t.value ≠ .newline := by
      intro hline
      rw [share, if_pos hline] at hu
      cases hu
    have ht := eof_of_mem_share hline hu heof
    rw [cursor_meet]
    exact ⟨[t], tokens_of_next_eof (Cursor.next_of_eof hc ht) ht,
      wordsOf_of_not_isVisible (by simp [ht, Token.isVisible])⟩

/-- **A token that is handed out waits in front.** -/
theorem Passed.next {s : Layout} (h : s.Passed text [] passed) (hs : s.next = (.ok t, s')) :
    s'.Passed text [t] passed := by
  cases hq : s.queue with
  | cons u queue =>
    rw [next_of_queue hq] at hs
    obtain ⟨rfl, rfl⟩ : u = t ∧ _ = s' := by simpa using hs
    have hall : [u] ++ queue = [] ++ s.queue := by rw [hq]; rfl
    exact ⟨hall ▸ h.read, hall ▸ h.stands, hall ▸ h.ended⟩
  | nil =>
    rcases hc : s.cursor.next with ⟨e | u, cursor⟩
    · simp [next_of_error hq hc] at hs
    · rw [next_of_read hq hc] at hs
      have hmeet := h.meet hq hc
      by_cases hline : u.value = .newline
      · have hlt : (s.meet u cursor).cursor.rest.length < s.cursor.rest.length := by
          rw [cursor_meet]
          exact Cursor.length_next_lt hc (by simp [hline])
        exact hmeet.next hs
      · -- the queue holds what stands for the token, and its first element is handed out
        obtain ⟨v, queue, hqueue⟩ := List.exists_cons_of_ne_nil (queue_meet_ne_nil hq hline)
        rw [next_of_queue hqueue] at hs
        obtain ⟨rfl, rfl⟩ : v = t ∧ _ = s' := by simpa using hs
        have hall : [v] ++ queue = [] ++ (s.meet u cursor).queue := by rw [hqueue]; rfl
        exact ⟨hall ▸ hmeet.read, hall ▸ hmeet.stands, hall ▸ hmeet.ended⟩
termination_by s.cursor.rest.length

theorem Passed.closeInnermost (h : s.Passed text front passed) :
    s.closeInnermost.2.Passed text front passed := by
  unfold Layout.closeInnermost
  split
  · exact h
  · exact ⟨h.read, h.stands, h.ended⟩

/-- The words that are passed with a token: a word passes itself, and a delimiter perhaps a pipe. -/
structure Takes (t : Located Token) (ws : List (Located Token)) : Prop where
  word : t.value.isVisible = true → ws = [t]
  silent : t.value.isVisible = false → t.value ≠ .blockDelim → ws = []

/-- **A token is taken**, and with it a word is passed, or none. -/
theorem Passed.take (h : s.Passed text [t] passed) :
    ∃ ws, s.Passed text [] (passed ++ ws) ∧ Takes t ws := by
  obtain ⟨met, awaited, hreads, hwords, hawaits⟩ := h.read
  have hstands (u : Located Token) (hu : u ∈ [] ++ s.queue) : u.Stands text :=
    h.stands u (List.mem_append_right _ hu)
  have hended (u : Located Token) (hu : u ∈ [] ++ s.queue) := h.ended u (List.mem_append_right _ hu)
  -- what waits behind the token waits for the other words
  obtain ⟨ws, rest, rfl, hrest, htakes⟩ : ∃ ws rest, awaited = ws ++ rest ∧ Awaits s.queue rest ∧
      Takes t ws := by
    generalize hall : [t] ++ s.queue = all at hawaits
    cases hawaits with
    | nil => cases hall
    | token ht =>
      obtain ⟨rfl, hqueue⟩ : t = _ ∧ s.queue = [] := by simpa using hall
      exact ⟨wordsOf [t], [], (List.append_nil _).symm, hqueue ▸ .nil, wordsOf_of_isVisible,
        fun hvisible _ => wordsOf_of_not_isVisible hvisible⟩
    | delim word ht =>
      obtain ⟨rfl, hqueue⟩ : t = _ ∧ s.queue = [] := by simpa using hall
      refine ⟨[word], [], rfl, hqueue ▸ .nil, fun hvisible => ?_, fun _ hne => absurd ht hne⟩
      simp [ht, Token.isVisible] at hvisible
    | mark ht hrest =>
      obtain ⟨rfl, rfl⟩ : t = _ ∧ s.queue = _ := by simpa using hall
      refine ⟨[], awaited, rfl, hrest, fun hvisible => ?_, fun _ _ => rfl⟩
      rw [(Token.isVisible_iff.1 hvisible).2.2] at ht
      cases ht
  exact ⟨ws, ⟨⟨met, rest, hreads, by rw [hwords, List.append_assoc], hrest⟩, hstands, hended⟩,
    htakes⟩

/-- **In front of the end of the text all words have been passed.** -/
theorem Passed.tokenize (h : s.Passed text [t] passed) (ht : t.value = .eof) :
    ∃ ts, CallByNeed.tokenize text = .ok ts ∧ wordsOf ts = passed := by
  obtain ⟨met, awaited, hreads, hwords, hawaits⟩ := h.read
  obtain ⟨us, hus, hnone⟩ := h.ended t List.mem_cons_self ht
  obtain ⟨ts, hts, hall⟩ := hreads.tokens hus
  refine ⟨ts, hts, ?_⟩
  -- the end of the text is awaited last, behind all words
  obtain rfl : awaited = [] := by
    generalize hall : [t] ++ s.queue = all at hawaits
    cases hawaits with
    | nil => cases hall
    | token =>
      obtain ⟨rfl, -⟩ := List.cons.inj hall
      exact wordsOf_of_not_isVisible (by simp [ht, Token.isVisible])
    | delim word hdelim =>
      obtain ⟨rfl, -⟩ := List.cons.inj hall
      simp [ht] at hdelim
    | mark hblock =>
      obtain ⟨rfl, -⟩ := List.cons.inj hall
      simp [ht, Token.isBlock] at hblock
  rw [hall, hwords, hnone, List.append_nil, List.append_nil]

end Passed

end Layout

/-! ### Streams -/

namespace TokenStream

variable {text : String} {s s' : TokenStream} {t : Located Token} {passed : List (Located Token)}

/-- The words of the text that the stream has passed. -/
def Passed (text : String) (s : TokenStream) (passed : List (Located Token)) : Prop :=
  s.layout.Passed text s.lookahead.toList passed

theorem passed_ofString (text : String) : (ofString text).Passed text [] :=
  Layout.passed_ofString text

theorem Passed.ordered (h : s.Passed text passed) :
    Words.Ordered passed ∧ ∀ w ∈ passed, w.span.IsStretch text :=
  Layout.Passed.ordered h

/-- A token that has been seen knows where it is. -/
theorem Passed.stands (h : s.Passed text passed) (hseen : s.lookahead = some t) :
    t.Stands text :=
  Layout.Passed.stands h t (by simp [hseen])

/-- **Looking ahead passes nothing.** -/
theorem Passed.peek (h : s.Passed text passed) (hs : s.peek = .ok (t, s')) :
    s'.Passed text passed ∧ s'.lookahead = some t := by
  rw [TokenStream.peek] at hs
  split at hs
  · rename_i u hu
    obtain ⟨rfl, rfl⟩ : u = t ∧ s = s' := by simpa using hs
    exact ⟨h, hu⟩
  · rename_i hnone
    rw [pull] at hs
    unfold Passed at h
    rw [hnone] at h
    rcases hnext : s.layout.next with ⟨e | u, layout⟩
    · simp [hnext, Except.map] at hs
    · obtain ⟨rfl, rfl⟩ : u = t ∧ _ = s' := by simpa [hnext, Except.map] using hs
      exact ⟨h.next hnext, rfl⟩

/-- **Taking a token passes the word that it stands for.**  The token knows where it is, and with
the end of the text all words have been passed. -/
theorem Passed.advance (h : s.Passed text passed) (hs : s.advance = .ok (t, s')) :
    (∃ ws, s'.Passed text (passed ++ ws) ∧ Layout.Takes t ws) ∧ t.Stands text ∧
      (t.value = .eof → ∃ ts, tokenize text = .ok ts ∧ wordsOf ts = passed) := by
  have key {layout : Layout} (h : layout.Passed text [t] passed) :
      (∃ ws, layout.Passed text [] (passed ++ ws) ∧ Layout.Takes t ws) ∧ t.Stands text ∧
        (t.value = .eof → ∃ ts, tokenize text = .ok ts ∧ wordsOf ts = passed) :=
    ⟨h.take, h.stands t List.mem_cons_self, h.tokenize⟩
  unfold Passed at h
  rw [TokenStream.advance] at hs
  split at hs
  · rename_i u hu
    obtain ⟨rfl, rfl⟩ : u = t ∧ _ = s' := by simpa using hs
    rw [hu] at h
    exact key h
  · -- the token has to be asked for first
    rename_i hnone
    rw [pull] at hs
    rw [hnone] at h
    rcases hnext : s.layout.next with ⟨e | u, layout⟩
    · simp [hnext] at hs
    · obtain ⟨rfl, rfl⟩ : u = t ∧ _ = s' := by simpa [hnext] using hs
      have hkey := key (h.next hnext)
      unfold Passed
      rw [hnone]
      exact hkey

theorem Passed.closeInnermost (h : s.Passed text passed) :
    s.closeInnermost.2.Passed text passed :=
  Layout.Passed.closeInnermost h

/-- An error of the lexer knows where it is. -/
theorem Passed.error_of_pull {e : LexError} (h : s.Passed text passed) (hs : s.pull = .error e) :
    e.Stands text := by
  rw [pull] at hs
  have hstands := (Layout.Passed.isIn h).stands_next.1
  split at hs
  · cases hs
  · rename_i hnext
    rw [hnext] at hstands
    exact Except.error.inj hs ▸ hstands

theorem Passed.error_of_peek {e : LexError} (h : s.Passed text passed)
    (hs : s.peek = .error e) : e.Stands text := by
  rw [TokenStream.peek] at hs
  split at hs
  · cases hs
  · cases hpull : s.pull with
    | ok r => simp [hpull, Except.map] at hs
    | error e' =>
      obtain rfl : e' = e := by simpa [hpull, Except.map] using hs
      exact h.error_of_pull hpull

theorem Passed.error_of_advance {e : LexError} (h : s.Passed text passed)
    (hs : s.advance = .error e) : e.Stands text := by
  rw [TokenStream.advance] at hs
  split at hs
  · cases hs
  · exact h.error_of_pull hs

end TokenStream

end CallByNeed

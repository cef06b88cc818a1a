import CallByNeed.Proofs.InStep
import CallByNeed.Proofs.OneLine

/-!
# Parsers on token lists

Without `of` the layout only drops newlines: no block ever opens, so that a parser sees the other
tokens of the text one by one, and then the end of the text again and again.  `Parser.runOn`
performs a parser on such a list, and it does what the parser does on a stream that offers the list
(`Parser.run_of_offers`).

Behind a lexical error the end of the text is never seen (`Parser.cut_of_run`), with blocks or
without.
-/

namespace CallByNeed

/-! ### Cursors -/

namespace Cursor

/-- The tokens from the cursor on that are not newlines, the end of the text last. -/
def words (c : Cursor) : Except LexError (List (Located Token)) :=
  c.tokens.map fun ts => ts.filter (·.value ≠ .newline)

/-- There is a lexical error in front of the cursor. -/
def Cut (c : Cursor) : Prop :=
  ∃ e, c.tokens = .error e

variable {c c' : Cursor} {t : Located Token}

theorem words_of_newline (h : c.next = (.ok t, c')) (ht : t.value = .newline) :
    c.words = c'.words := by
  rw [words, words, tokens_of_next h (by simp [ht])]
  cases c'.tokens with
  | error e => rfl
  | ok ts => simp [Except.map, ht]

theorem words_of_token (h : c.next = (.ok t, c')) (hline : t.value ≠ .newline)
    (heof : t.value ≠ .eof) : c.words = c'.words.map (t :: ·) := by
  rw [words, words, tokens_of_next h heof]
  cases c'.tokens with
  | error e => rfl
  | ok ts => simp [Except.map, hline]

theorem words_of_eof (h : c.next = (.ok t, c')) (ht : t.value = .eof) : c.words = .ok [t] := by
  rw [words, tokens_of_next_eof h ht]
  simp [Except.map, ht]

theorem words_of_error {e : LexError} (h : c.next = (.error e, c')) : c.words = .error e := by
  rw [words, tokens]
  split
  · rename_i heq
    obtain ⟨rfl, -⟩ : _ = e ∧ _ := by simpa [heq] using h
    rfl
  · rename_i heq
    simp [heq] at h

/-- The end of the text is read again and again. -/
theorem next_of_eof (h : c.next = (.ok t, c')) (ht : t.value = .eof) : c'.next = (.ok t, c') := by
  rw [next, token] at h
  split at h
  · -- behind the end there is nothing that could be skipped
    rename_i hrest
    obtain ⟨rfl, rfl⟩ : _ = t ∧ c.skipGap = c' := by simpa using h
    generalize c.skipGap = d at hrest
    obtain ⟨rest, position⟩ := d
    obtain rfl : rest = [] := hrest
    rfl
  · split at h
    · obtain ⟨rfl, -⟩ : _ = t ∧ _ := by simpa using h
      simp at ht
    · dsimp only at h
      split at h
      · simp at h
      · split at h
        · -- no spelling stands for the end of the text
          rename_i u hu
          obtain ⟨rfl, -⟩ : _ = t ∧ _ := by simpa using h
          obtain rfl : u = .eof := ht
          simpa using not_mem_of_ofLexeme hu
        · simp at h

/-- Up to the error no token is the end of the text. -/
theorem Cut.next (hcut : c.Cut) (h : c.next = (.ok t, c')) : t.value ≠ .eof ∧ c'.Cut := by
  obtain ⟨e, he⟩ := hcut
  by_cases ht : t.value = .eof
  · rw [tokens_of_next_eof h ht] at he
    simp at he
  · refine ⟨ht, ?_⟩
    rw [tokens_of_next h ht] at he
    cases htokens : c'.tokens with
    | error e' => exact ⟨e', htokens⟩
    | ok ts => simp [htokens, Except.map] at he

/-- **The end of the text is the last token**, and each of the others takes a character. -/
theorem tokens_spec {ts : List (Located Token)} (h : c.tokens = .ok ts) :
    ∃ body stop, ts = body ++ [stop] ∧ stop.value = .eof ∧ (∀ t ∈ body, t.value ≠ .eof) ∧
      body.length ≤ c.rest.length := by
  fun_induction tokens c generalizing ts with
  | case1 c e c' hnext => simp at h
  | case2 c t c' hnext ht =>
    obtain rfl : [t] = ts := by simpa using h
    exact ⟨[], t, rfl, ht, by simp, Nat.zero_le _⟩
  | case3 c t c' hnext ht hlt e htokens => simp at h
  | case4 c t c' hnext ht hlt us htokens ih =>
    obtain rfl : t :: us = ts := by simpa using h
    obtain ⟨body, stop, rfl, hstop, hbody, hle⟩ := ih htokens
    refine ⟨t :: body, stop, rfl, hstop, ?_, ?_⟩
    · simpa [ht] using hbody
    · rw [List.length_cons]
      omega

end Cursor

/-! ### Layouts -/

namespace Layout

/-- The layout is outside of all blocks, and no token waits. -/
structure Outside (s : Layout) : Prop where
  queue : s.queue = []
  columns : s.columns = []
  afterOf : s.afterOf = false

section Outside

variable {s : Layout} {cursor : Cursor} {t : Located Token}

/-- Outside of all blocks nothing belongs in front of the end of the text. -/
theorem Outside.next_of_eof (hs : s.Outside) (hc : s.cursor.next = (.ok t, cursor))
    (ht : t.value = .eof) : s.next = (.ok t, { s with cursor }) := by
  rw [Layout.next_of_eof hs.queue hc ht]
  obtain ⟨_, columns, queue, afterOf, _⟩ := s
  obtain ⟨rfl, rfl, rfl⟩ := hs
  rfl

/-- Outside of all blocks nothing belongs in front of a token. -/
theorem Outside.next_of_token (hs : s.Outside) (hc : s.cursor.next = (.ok t, cursor))
    (hline : t.value ≠ .newline) (heof : t.value ≠ .eof) :
    s.next = (.ok t, { s with cursor, afterOf := t.value.opensBlock, freshLine := false }) := by
  have haccept : { s with cursor }.accept t = { s with cursor }.enqueue t :=
    accept_of_line hs.afterOf (.inr hs.columns) fun _ => hs.columns
  rw [Layout.next_of_token hs.queue hc hline heof, haccept]
  simp [enqueue, dequeue, hs.queue]

/-- **Outside of all blocks the layout only drops newlines.** -/
theorem Outside.next (hs : s.Outside) {ts : List (Located Token)} {last : Located Token}
    (hwords : s.cursor.words = .ok (ts ++ [last]))
    (hplain : ∀ t ∈ ts, t.value.opensBlock = false) (hlast : last.value = .eof) :
    ∃ s', s.next = (.ok (ts.headD last), s') ∧ s'.Outside ∧
      s'.cursor.words = .ok (ts.tail ++ [last]) := by
  induction hn : s.cursor.rest.length using Nat.strongRecOn generalizing s with
  | ind n ih =>
    cases hc : s.cursor.next with
    | mk result cursor =>
      cases result with
      | error e =>
        rw [Cursor.words_of_error hc] at hwords
        simp at hwords
      | ok t =>
        by_cases hline : t.value = .newline
        · -- a line break is dropped, and the rest is shorter
          have hlt := Cursor.length_next_lt hc (by simp [hline])
          rw [Cursor.words_of_newline hc hline] at hwords
          rw [Layout.next_of_newline hs.queue hc hline]
          exact ih _ (hn ▸ hlt) ⟨hs.queue, hs.columns, hs.afterOf⟩ hwords rfl
        by_cases heof : t.value = .eof
        · -- the end of the text, which is read again at the next call
          rw [Cursor.words_of_eof hc heof, Except.ok.injEq, List.singleton_eq_append_iff] at hwords
          obtain ⟨rfl, rfl⟩ : ts = [] ∧ last = t := by simpa using hwords
          refine ⟨_, hs.next_of_eof hc heof, ⟨hs.queue, hs.columns, hs.afterOf⟩, ?_⟩
          exact Cursor.words_of_eof (Cursor.next_of_eof hc heof) heof
        · rw [Cursor.words_of_token hc hline heof] at hwords
          cases hmore : cursor.words with
          | error e => simp [hmore, Except.map] at hwords
          | ok us =>
            rw [hmore, Except.map, Except.ok.injEq, List.cons_eq_append_iff] at hwords
            rcases hwords with ⟨rfl, hus⟩ | ⟨ts, rfl, rfl⟩
            · obtain ⟨rfl, -⟩ : last = t ∧ us = [] := by simpa using hus
              exact absurd hlast heof
            · refine ⟨_, hs.next_of_token hc hline heof, ⟨hs.queue, hs.columns, ?_⟩, hmore⟩
              exact hplain t (by simp)

end Outside

/-- There is a lexical error in front of the layout, and the end of the text does not wait. -/
structure Cut (s : Layout) : Prop where
  cursor : s.cursor.Cut
  queue : ∀ t ∈ s.queue, t.value ≠ .eof

section Cut

variable {s s' : Layout} {t : Located Token} {span : Span}

/-- The blocks and the place on the line do not matter. -/
theorem Cut.congr (h : s.Cut) (hcursor : s'.cursor = s.cursor) (hqueue : s'.queue = s.queue) :
    s'.Cut :=
  ⟨hcursor ▸ h.cursor, hqueue ▸ h.queue⟩

theorem Cut.mark (h : s.Cut) {ts : List Token} (hts : .eof ∉ ts) : (s.mark ts span).Cut := by
  refine ⟨h.cursor, fun t ht => ?_⟩
  rw [Layout.mark, List.mem_append, List.mem_map] at ht
  rcases ht with ht | ⟨u, hu, rfl⟩
  · exact h.queue t ht
  · exact fun heof => hts (heof ▸ hu)

theorem Cut.enqueue (h : s.Cut) (ht : t.value ≠ .eof) : (s.enqueue t).Cut := by
  refine ⟨h.cursor, fun u hu => ?_⟩
  rw [Layout.enqueue, List.mem_append, List.mem_singleton] at hu
  rcases hu with hu | rfl
  · exact h.queue u hu
  · exact ht

theorem Cut.goOn (h : s.Cut) (ht : t.value ≠ .eof) : (s.goOn t).Cut := by
  have haligned : (if s.freshLine then s.align t.span else s).Cut := by
    split
    · refine Cut.mark ?_ ?_
      · exact h.congr rfl rfl
      · split <;> simp
    · exact h
  rw [Layout.goOn]
  generalize (if s.freshLine then s.align t.span else s) = aligned at haligned
  dsimp only
  split
  · split
    · exact haligned.congr rfl rfl
    · have hmarked : (aligned.mark [.blockDelim] t.span).Cut := haligned.mark (by simp)
      exact hmarked.congr rfl rfl
  · exact haligned.enqueue ht

/-- A token of the text calls for no end of the text, and something is there to be handed out. -/
theorem Cut.accept (h : s.Cut) (ht : t.value ≠ .eof) :
    (s.accept t).Cut ∧ (s.accept t).queue ≠ [] := by
  rw [Layout.accept]
  split
  · split
    · have hmarked : (s.markEmptyBlock t.span).Cut := by
        refine Cut.mark ?_ (by simp)
        exact h.congr rfl rfl
      exact ⟨hmarked.goOn ht, queue_goOn_ne_nil _ t⟩
    · refine ⟨Cut.enqueue (Cut.mark ?_ (by simp)) ht, by simp [openBlock, Layout.enqueue]⟩
      exact h.congr rfl rfl
  · exact ⟨h.goOn ht, queue_goOn_ne_nil s t⟩

theorem Cut.dequeue (h : s.Cut) (hne : s.queue ≠ []) (hd : s.dequeue = (t, s')) :
    t.value ≠ .eof ∧ s'.Cut := by
  rw [Layout.dequeue] at hd
  split at hd
  · rename_i u queue hq
    obtain ⟨rfl, rfl⟩ : u = t ∧ { s with queue } = s' := by simpa using hd
    have hqueue := h.queue
    rw [hq, List.forall_mem_cons] at hqueue
    exact ⟨hqueue.1, h.cursor, hqueue.2⟩
  · rename_i hq
    exact absurd hq hne

/-- **In front of a lexical error the end of the text is not handed out.** -/
theorem Cut.next (h : s.Cut) (hnext : s.next = (.ok t, s')) : t.value ≠ .eof ∧ s'.Cut := by
  fun_induction Layout.next s with
  | case1 s _ e cursor hc => simp at hnext
  | case2 s _ u cursor hc hu hlt ih => exact ih ⟨(h.cursor.next hc).2, h.queue⟩ hnext
  | case3 s _ u cursor hc hu s₁ t₁ s₂ hd =>
    obtain ⟨rfl, rfl⟩ : t₁ = t ∧ s₂ = s' := by simpa using hnext
    obtain ⟨heof, hcursor⟩ := h.cursor.next hc
    rw [dif_neg heof] at hd
    have hs₁ : s₁.Cut := ⟨hcursor, h.queue⟩
    obtain ⟨haccept, hne⟩ := hs₁.accept heof
    exact haccept.dequeue hne hd
  | case4 s hq t₁ s₂ hd =>
    obtain ⟨rfl, rfl⟩ : t₁ = t ∧ s₂ = s' := by simpa using hnext
    exact h.dequeue (by simpa using hq) hd

end Cut

end Layout

/-! ### Streams -/

namespace TokenStream

variable {s s' : TokenStream} {t : Located Token}

/-- There is a lexical error in front of the stream, and the end of the text has not been seen. -/
structure Cut (s : TokenStream) : Prop where
  layout : s.layout.Cut
  lookahead : ∀ t ∈ s.lookahead, t.value ≠ .eof

theorem Cut.pull (h : s.Cut) (hpull : s.pull = .ok (t, s')) : t.value ≠ .eof ∧ s'.Cut := by
  rw [TokenStream.pull] at hpull
  split at hpull
  · rename_i u layout hnext
    obtain ⟨rfl, rfl⟩ : u = t ∧ { s with layout } = s' := by simpa using hpull
    obtain ⟨hu, hlayout⟩ := h.layout.next hnext
    exact ⟨hu, hlayout, h.lookahead⟩
  · simp at hpull

theorem Cut.peek (h : s.Cut) (hpeek : s.peek = .ok (t, s')) : s'.Cut := by
  rw [TokenStream.peek] at hpeek
  split at hpeek
  · obtain ⟨-, rfl⟩ : _ ∧ s = s' := by simpa using hpeek
    exact h
  · cases hpull : s.pull with
    | error e => simp [hpull, Except.map] at hpeek
    | ok result =>
      obtain ⟨u, s₁⟩ := result
      obtain ⟨rfl, rfl⟩ : u = t ∧ { s₁ with lookahead := some u } = s' := by
        simpa [hpull, Except.map] using hpeek
      obtain ⟨hu, hs₁⟩ := h.pull hpull
      exact ⟨hs₁.layout, by simpa using hu⟩

theorem Cut.advance (h : s.Cut) (hadvance : s.advance = .ok (t, s')) :
    t.value ≠ .eof ∧ s'.Cut := by
  rw [TokenStream.advance] at hadvance
  split at hadvance
  · rename_i u hu
    obtain ⟨rfl, rfl⟩ : u = t ∧ { s with lookahead := none } = s' := by simpa using hadvance
    exact ⟨h.lookahead u hu, h.layout, by simp⟩
  · exact h.pull hadvance

theorem Cut.closeInnermost (h : s.Cut) : s.closeInnermost.2.Cut := by
  have hlayout : s.layout.closeInnermost.2.Cut := by
    rw [Layout.closeInnermost]
    split
    · exact h.layout
    · exact ⟨h.layout.cursor, h.layout.queue⟩
  exact ⟨hlayout, h.lookahead⟩

/-- Outside of all blocks the stream has the tokens `ts` in front of it, none of which opens a
block, and then `last`, the end of the text. -/
structure Offers (last : Located Token) (s : TokenStream) (ts : List (Located Token)) : Prop where
  outside : s.layout.Outside
  plain : ∀ t ∈ ts, t.value.opensBlock = false
  words : match s.lookahead with
    | none => s.layout.cursor.words = .ok (ts ++ [last])
    | some t => t = ts.headD last ∧ s.layout.cursor.words = .ok (ts.tail ++ [last])

variable {last : Located Token} {ts : List (Located Token)}

theorem Offers.pull (h : s.Offers last ts) (hlast : last.value = .eof) (hs : s.lookahead = none) :
    ∃ layout, s.pull = .ok (ts.headD last, { s with layout }) ∧
      Offers last ⟨layout, none⟩ ts.tail := by
  have hwords := h.words
  rw [hs] at hwords
  obtain ⟨layout, hnext, houtside, htail⟩ := h.outside.next hwords h.plain hlast
  refine ⟨layout, by rw [TokenStream.pull, hnext], houtside, ?_, htail⟩
  exact fun t ht => h.plain t (List.mem_of_mem_tail ht)

theorem Offers.peek (h : s.Offers last ts) (hlast : last.value = .eof) :
    ∃ s', s.peek = .ok (ts.headD last, s') ∧ s'.Offers last ts := by
  cases hs : s.lookahead with
  | some t =>
    have hwords := h.words
    rw [hs] at hwords
    refine ⟨s, ?_, h⟩
    rw [TokenStream.peek, hs, hwords.1]
  | none =>
    obtain ⟨layout, hpull, hoffers⟩ := h.pull hlast hs
    refine ⟨⟨layout, some (ts.headD last)⟩, ?_, hoffers.outside, h.plain, rfl, hoffers.words⟩
    simp [TokenStream.peek, hs, hpull, Except.map]

theorem Offers.advance (h : s.Offers last ts) (hlast : last.value = .eof) :
    ∃ s', s.advance = .ok (ts.headD last, s') ∧ s'.Offers last ts.tail := by
  cases hs : s.lookahead with
  | some t =>
    have hwords := h.words
    rw [hs] at hwords
    refine ⟨{ s with lookahead := none }, ?_, h.outside, ?_, hwords.2⟩
    · rw [TokenStream.advance, hs, hwords.1]
    · exact fun t ht => h.plain t (List.mem_of_mem_tail ht)
  | none =>
    obtain ⟨layout, hpull, hoffers⟩ := h.pull hlast hs
    refine ⟨⟨layout, none⟩, ?_, hoffers⟩
    rw [TokenStream.advance, hs]
    simpa [hs] using hpull

theorem Offers.closeInnermost (h : s.Offers last ts) : s.closeInnermost = (false, s) := by
  simp [TokenStream.closeInnermost, Layout.closeInnermost, h.outside.columns]

end TokenStream

/-! ### Parsers -/

namespace Parser

variable {α β : Type}

/-- **In front of a lexical error the end of the text is never seen.** -/
theorem cut_of_run (x : Parser α) {s s' : TokenStream} {a : α} (hs : s.Cut)
    (h : x.run s = .ok (a, s')) : s'.Cut := by
  induction x generalizing s s' with
  | done b =>
    obtain ⟨-, rfl⟩ : b = a ∧ s = s' := by simpa [run] using h
    exact hs
  | stop why => simp [run] at h
  -- looking at the next token and taking it are the only steps that could meet the end
  | peek =>
    rw [run] at h
    cases hpeek : s.peek with
    | error e => simp [hpeek, ofStream] at h
    | ok result =>
      obtain rfl : result = (a, s') := by simpa [hpeek, ofStream] using h
      exact hs.peek hpeek
  | advance =>
    rw [run] at h
    cases hadvance : s.advance with
    | error e => simp [hadvance, ofStream] at h
    | ok result =>
      obtain rfl : result = (a, s') := by simpa [hadvance, ofStream] using h
      exact (hs.advance hadvance).2
  | closeInnermost =>
    have heq : s.closeInnermost = (a, s') := by simpa [run] using h
    have hclosed := hs.closeInnermost
    rwa [heq] at hclosed
  | within x ih =>
    rw [run] at h
    exact ih hs h
  | andThen x f ihx ihf =>
    rw [run] at h
    cases hx : x.run s with
    | error why => simp [hx] at h
    | ok result =>
      obtain ⟨b, s₁⟩ := result
      rw [hx] at h
      exact ihf b (ihx hs hx) h

/-- Performs a parser on a list of tokens outside of all blocks, with `last` behind them again and
again. -/
def runOn {α : Type} (last : Located Token) :
    Parser α → List (Located Token) → Except Failure (α × List (Located Token))
  | done a, ts => .ok (a, ts)
  | stop why, _ => .error why
  | peek, ts => .ok (ts.headD last, ts)
  | advance, ts => .ok (ts.headD last, ts.tail)
  | closeInnermost, ts => .ok (false, ts)
  | within x, ts => x.runOn last ts
  | andThen x f, ts =>
    match x.runOn last ts with
    | .ok (a, ts) => (f a).runOn last ts
    | .error why => .error why

/-- **A parser does on a stream what it does on the tokens that the stream offers.** -/
theorem run_of_offers (x : Parser α) {last : Located Token} (hlast : last.value = .eof)
    {s : TokenStream} {ts : List (Located Token)} (hs : s.Offers last ts) :
    (∀ a rest, x.runOn last ts = .ok (a, rest) →
      ∃ s', x.run s = .ok (a, s') ∧ s'.Offers last rest) ∧
    ∀ why, x.runOn last ts = .error why → x.run s = .error why := by
  induction x generalizing s ts with
  | done b =>
    refine ⟨fun a rest h => ?_, fun why h => by simp [runOn] at h⟩
    obtain ⟨rfl, rfl⟩ : b = a ∧ ts = rest := by simpa [runOn] using h
    exact ⟨s, rfl, hs⟩
  | stop why => simp [runOn, run]
  -- the stream offers the first token of the list, and goes on offering it
  | peek =>
    obtain ⟨s', hpeek, hs'⟩ := hs.peek hlast
    refine ⟨fun a rest h => ?_, fun why h => by simp [runOn] at h⟩
    obtain ⟨rfl, rfl⟩ : ts.headD last = a ∧ ts = rest := by simpa [runOn] using h
    exact ⟨s', by rw [run, hpeek]; rfl, hs'⟩
  | advance =>
    obtain ⟨s', hadvance, hs'⟩ := hs.advance hlast
    refine ⟨fun a rest h => ?_, fun why h => by simp [runOn] at h⟩
    obtain ⟨rfl, rfl⟩ : ts.headD last = a ∧ ts.tail = rest := by simpa [runOn] using h
    exact ⟨s', by rw [run, hadvance]; rfl, hs'⟩
  -- outside of all blocks there is none that could be closed
  | closeInnermost =>
    refine ⟨fun a rest h => ?_, fun why h => by simp [runOn] at h⟩
    obtain ⟨rfl, rfl⟩ : false = a ∧ ts = rest := by simpa [runOn] using h
    exact ⟨s, by rw [run, hs.closeInnermost], hs⟩
  | within x ih => exact ih hs
  | andThen x f ihx ihf =>
    -- both runs end with the first parser, or go on with what it leaves
    cases hx : x.runOn last ts with
    | error why =>
      have hrun := (ihx hs).2 why hx
      simp [runOn, run, hx, hrun]
    | ok result =>
      obtain ⟨b, us⟩ := result
      obtain ⟨s₁, hrun, hs₁⟩ := (ihx hs).1 b us hx
      simpa [runOn, run, hx, hrun] using ihf b hs₁

theorem exists_run_iff (x : Parser α) {last : Located Token} (hlast : last.value = .eof)
    {s : TokenStream} {ts : List (Located Token)} (hs : s.Offers last ts) {a : α} :
    (∃ s', x.run s = .ok (a, s')) ↔ ∃ rest, x.runOn last ts = .ok (a, rest) := by
  obtain ⟨hok, herror⟩ := x.run_of_offers hlast hs
  cases hrun : x.runOn last ts with
  | error why => simp [herror why hrun]
  | ok result =>
    obtain ⟨b, rest⟩ := result
    obtain ⟨s', hs', -⟩ := hok b rest hrun
    simp [hs']

/-! ### Runs on lists, step by step -/

section RunOn

variable {last : Located Token} {ts us rest : List (Located Token)}

theorem runOn_bind_ok {x : Parser α} {f : α → Parser β} {a : α}
    (h : x.runOn last ts = .ok (a, us)) : (x >>= f).runOn last ts = (f a).runOn last us := by
  show (andThen x f).runOn last ts = _
  rw [runOn, h]

theorem runOn_bind_error {x : Parser α} {f : α → Parser β} {why : Failure}
    (h : x.runOn last ts = .error why) : (x >>= f).runOn last ts = .error why := by
  show (andThen x f).runOn last ts = _
  rw [runOn, h]

theorem exists_of_runOn_bind {x : Parser α} {f : α → Parser β} {b : β}
    (h : (x >>= f).runOn last ts = .ok (b, rest)) :
    ∃ a us, x.runOn last ts = .ok (a, us) ∧ (f a).runOn last us = .ok (b, rest) := by
  change (andThen x f).runOn last ts = _ at h
  rw [runOn] at h
  cases hx : x.runOn last ts with
  | error why => simp [hx] at h
  | ok result =>
    obtain ⟨a, us⟩ := result
    rw [hx] at h
    exact ⟨a, us, rfl, h⟩

@[simp]
theorem runOn_pure (a : α) : (pure a : Parser α).runOn last ts = .ok (a, ts) :=
  rfl

@[simp]
theorem runOn_exhausted : (exhausted : Parser α).runOn last ts = .error .exhausted :=
  rfl

@[simp]
theorem runOn_fail (e : ParseError) : (fail e : Parser α).runOn last ts = .error (.error e) :=
  rfl

@[simp]
theorem runOn_failUnexpected (expected : String) (t : Located Token) :
    (failUnexpected expected t : Parser α).runOn last ts =
      .error (.error (.unexpected expected t)) :=
  rfl

theorem runOn_ofExcept (r : Except Failure α) : (ofExcept r).runOn last ts = r.map (·, ts) := by
  cases r <;> rfl

theorem runOn_ofExcept_eq_ok {r : Except Failure α} {a : α} :
    (ofExcept r).runOn last ts = .ok (a, us) ↔ r = .ok a ∧ ts = us := by
  rw [runOn_ofExcept]
  cases r <;> simp [Except.map]

theorem runOn_peek_bind (f : Located Token → Parser α) :
    (peek >>= f).runOn last ts = (f (ts.headD last)).runOn last ts :=
  rfl

theorem runOn_advance_bind (f : Located Token → Parser α) :
    (advance >>= f).runOn last ts = (f (ts.headD last)).runOn last ts.tail :=
  rfl

theorem runOn_discard_advance_bind (f : Unit → Parser α) :
    ((discard advance : Parser Unit) >>= f).runOn last ts = (f ()).runOn last ts.tail :=
  rfl

end RunOn

end Parser

end CallByNeed

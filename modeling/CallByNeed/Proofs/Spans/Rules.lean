import CallByNeed.Proofs.Points
import CallByNeed.Proofs.Spans.Nodes

/-!
# Parsers and the words they pass

A parser passes some words of its text, and what it yields is read from these (`Parser.Passes`).  If
it fails, then with an error that knows where it is.  There is one rule for each operation and for
each parser that is not tied to the grammar.
-/

namespace CallByNeed

open Layout (Takes)

/-- An error of a failure knows where it is, and that is a spot. -/
def Failure.Stands (text : String) (why : Failure) : Prop :=
  ∀ e, why = .error e → e.Stands text

namespace Parser

variable {α β : Type} {text : String} {s : TokenStream} {passed : List (Located Token)}
  {t : Located Token}

variable (text) in
/-- The parser fails with an error that knows where it is, or yields what `Q` says. -/
def Yields (x : Parser α) (s : TokenStream) (Q : α → TokenStream → Prop) : Prop :=
  ∀ blocks, Obeys (fun _ _ _ => True) (Failure.Stands text) x blocks s Q

variable (text) in
/-- Wherever the parser starts, it passes words from which its value is read as `R` says. -/
def Passes (x : Parser α) (R : List (Located Token) → α → Prop) : Prop :=
  ∀ s passed, s.Passed text passed →
    Yields text x s fun a s' => ∃ ws, s'.Passed text (passed ++ ws) ∧ R ws a

section Rules

variable {Q : α → TokenStream → Prop} {R : List (Located Token) → α → Prop}

theorem yields_pure {a : α} (h : Q a s) : Yields text (pure a) s Q :=
  fun _ => obeys_pure h

theorem yields_bind {x : Parser α} {f : α → Parser β} {P : α → TokenStream → Prop}
    {Q : β → TokenStream → Prop} (hx : Yields text x s P)
    (hf : ∀ a s', P a s' → Yields text (f a) s' Q) : Yields text (x >>= f) s Q :=
  fun blocks => obeys_bind (hx blocks) fun a s' h => hf a s' h blocks

/-- What holds behind a parser can be weakened. -/
theorem Yields.mono {x : Parser α} {Q' : α → TokenStream → Prop} (hx : Yields text x s Q)
    (h : ∀ a s', Q a s' → Q' a s') : Yields text x s Q' := fun blocks =>
  have hobeys := hx blocks
  ⟨hobeys.visits, fun a s' hrun => h a s' (hobeys.ok a s' hrun), hobeys.error⟩

theorem yields_discard {x : Parser α} (hx : Yields text x s Q) :
    Yields text (discard x) s fun _ s' => ∃ a, Q a s' :=
  yields_bind hx fun a _ h => yields_pure ⟨a, h⟩

theorem yields_fail {e : ParseError} (h : e.Stands text) : Yields text (fail (α := α) e) s Q :=
  fun _ => obeys_stop fun _ he => by
    cases he
    exact h

/-- A failure without an error. -/
theorem yields_stop {why : Failure} (h : ∀ e, why ≠ .error e) :
    Yields text (stop (α := α) why) s Q :=
  fun _ => obeys_stop fun e he => absurd he (h e)

theorem passes_exhausted : Passes text (exhausted (α := α)) R :=
  fun _ _ _ => yields_stop fun _ h => by cases h

/-- **One parser behind the other**, from any place of a text. -/
theorem Passes.yields_bind {x : Parser α} {f : α → Parser β} {Q : β → TokenStream → Prop}
    (hx : Passes text x R) (hs : s.Passed text passed)
    (hf : ∀ a ws s', R ws a → s'.Passed text (passed ++ ws) → Yields text (f a) s' Q) :
    Yields text (x >>= f) s Q :=
  Parser.yields_bind (hx s passed hs) fun a s' ⟨ws, hs', ha⟩ => hf a ws s' ha hs'

theorem Passes.discard {x : Parser α} (hx : Passes text x R) :
    Passes text (discard x) fun ws _ => ∃ a, R ws a := fun s passed hs =>
  (yields_discard (hx s passed hs)).mono fun _ _ ⟨a, ws, hs', ha⟩ => ⟨ws, hs', a, ha⟩

/-- The words of a value stand one behind the other. -/
theorem Passes.ordered {x : Parser α}
    (hx : Passes text x fun ws a => Words.Ordered ws → R ws a) : Passes text x R := by
  intro s passed hs
  refine (hx s passed hs).mono fun a s' ⟨ws, hs', ha⟩ => ⟨ws, hs', ha ?_⟩
  exact hs'.ordered.1.sublist (List.sublist_append_right passed ws)

end Rules

/-! ### Operations -/

section Operations

variable {Q : β → TokenStream → Prop}

/-- **Looking ahead**: what is seen knows where it is. -/
theorem yields_peek_bind {f : Located Token → Parser β} (hs : s.Passed text passed)
    (hf : ∀ t s', s'.Passed text passed → s'.lookahead = some t → t.Stands text →
      Yields text (f t) s' Q) : Yields text (peek >>= f) s Q := by
  intro blocks
  refine obeys_bind (P := fun t s' => s'.Passed text passed ∧ s'.lookahead = some t)
    (obeys_of_stream (by rw [run]) (fun _ _ _ h => h) trivial
      (fun t s' hpeek => hs.peek hpeek) fun e hpeek => ?_)
    fun t s' ⟨hs', hseen⟩ => hf t s' hs' hseen (hs'.stands hseen) blocks
  rintro _ ⟨⟩
  exact hs.error_of_peek hpeek

/-- Taking a token, whatever it is. -/
theorem yields_advance (hs : s.Passed text passed) :
    Yields text advance s fun t s' => s.advance = .ok (t, s') ∧ t.Stands text ∧
      (∃ ws, s'.Passed text (passed ++ ws) ∧ Takes t ws) ∧
      (t.value = .eof → ∃ ts, tokenize text = .ok ts ∧ wordsOf ts = passed) := by
  intro blocks
  refine obeys_of_stream (by rw [run]) (fun _ _ _ h => h) trivial
    (fun t s' hadvance => ?_) fun e hadvance => ?_
  · obtain ⟨htakes, hstands, hend⟩ := hs.advance hadvance
    exact ⟨hadvance, hstands, htakes, hend⟩
  · rintro _ ⟨⟩
    exact hs.error_of_advance hadvance

/-- Taking a token that has been seen. -/
theorem yields_take (hs : s.Passed text passed) (hseen : s.lookahead = some t) :
    Yields text advance s fun u s' => u = t ∧
      ∃ ws, s'.Passed text (passed ++ ws) ∧ Takes t ws := by
  refine (yields_advance hs).mono ?_
  rintro u s' ⟨hadvance, -, htakes, -⟩
  rw [TokenStream.advance, hseen] at hadvance
  obtain ⟨rfl, -⟩ : t = u ∧ _ := by simpa using hadvance
  exact ⟨rfl, htakes⟩

/-- **Taking a token that is expected.** -/
theorem passes_expect (expected : Token) :
    Passes text (expect expected) fun ws t => t.value = expected ∧ Takes t ws := by
  intro s passed hs
  refine yields_bind (yields_advance hs) ?_
  rintro t s' ⟨-, hstands, ⟨ws, hs', htakes⟩, -⟩
  split
  · rename_i ht
    exact yields_pure ⟨ws, hs', ht, htakes⟩
  · exact yields_fail hstands

/-- Taking a word that is expected. -/
theorem passes_word {expected : Token} (h : expected.isVisible = true) :
    Passes text (expect expected) fun ws t => t.value = expected ∧ ws = [t] := by
  intro s passed hs
  refine (passes_expect expected s passed hs).mono ?_
  rintro t s' ⟨ws, hs', ht, htakes⟩
  exact ⟨ws, hs', ht, htakes.word (ht ▸ h)⟩

end Operations

/-- **A value that is read from one word.** -/
theorem yields_word (node : α → Node) {make : Span → α} (hs : s.Passed text passed)
    (hseen : s.lookahead = some t) (ht : t.value.isVisible = true)
    (hbracket : t.value ≠ .bracketLeft ∧ t.value ≠ .bracketRight)
    (hspan : ∀ span, (node (make span)).span = span)
    (hchildren : ∀ span, (node (make span)).children = []) :
    Yields text (do return make (← advance).span) s fun a s' =>
      ∃ ws, s'.Passed text (passed ++ ws) ∧ (node a).Covers ws := by
  refine yields_bind (yields_take hs hseen) ?_
  rintro u s' ⟨rfl, ws, hs', htakes⟩
  obtain rfl := htakes.word ht
  have hws : Words.Ordered [u] := hs'.ordered.1.sublist (List.sublist_append_right passed [u])
  exact yields_pure ⟨[u], hs', Node.covers_word hws hbracket (hspan _) (hchildren _)⟩

/-! ### Several items -/

variable {node : α → Node} {item : Parser α}

/-- What stands between brackets: nodes, the first of which starts with the first word. -/
structure Listed (ws : List (Located Token)) (ns : List Node) : Prop
    extends Node.Items ws ns where
  empty : ns = [] → ws = []
  start : ∀ n ∈ ns.head?, ∃ w, Opening ws w ∧ n.span.start = w.span.start

/-- **Items with commas between them.**  In front of the first one no comma stands. -/
theorem passes_commaItems (hitem : Passes text item fun ws x => (node x).Covers ws)
    (close : Token) (fuel : Nat) (first : Bool) :
    Passes text (commaItems item close fuel first) fun ws xs =>
      Node.Items ws (xs.map node) ∧ (first = true → Listed ws (xs.map node)) := by
  induction fuel generalizing first with
  | zero => exact passes_exhausted
  | succ fuel ih =>
    rw [commaItems]
    -- an item and the further ones
    have hitems : Passes text (do
        let x ← item
        let xs ← commaItems item close fuel false
        return x :: xs) fun ws xs => Listed ws (xs.map node) := by
      refine .ordered fun s passed hs => hitem.yields_bind hs fun x ws s₁ hx hs₁ => ?_
      refine (ih false).yields_bind hs₁ fun xs us s₂ hxs hs₂ => ?_
      rw [List.append_assoc] at hs₂
      refine yields_pure ⟨ws ++ us, hs₂, fun hws => ⟨hxs.1.cons hws hx.tree, by simp, ?_⟩⟩
      obtain ⟨w, hw, hstart⟩ := hx.start
      rintro _ ⟨⟩
      exact ⟨w, hw.append us, hstart⟩
    intro s passed hs
    refine yields_peek_bind hs fun t s' hs' hseen _ => ?_
    split
    · refine yields_pure ⟨[], by rwa [List.append_nil], Node.items_nil [], fun _ => ?_⟩
      exact ⟨Node.items_nil [], fun _ => rfl, by simp⟩
    · split
      · rename_i hfirst
        refine (passes_word (rfl : Token.comma.isVisible = true)).discard.yields_bind hs' ?_
        rintro _ ws s₁ - hs₁
        refine (hitems s₁ _ hs₁).mono ?_
        rintro xs s₂ ⟨us, hs₂, hxs⟩
        rw [List.append_assoc] at hs₂
        exact ⟨ws ++ us, hs₂, hxs.toItems.mono (List.subset_append_right ws us),
          fun h => by simp [h] at hfirst⟩
      · refine (hitems s' passed hs').mono ?_
        rintro xs s₁ ⟨ws, hs₁, hxs⟩
        exact ⟨ws, hs₁, hxs.toItems, fun _ => hxs⟩

/-- **Items between brackets**, with the span from bracket to bracket. -/
theorem passes_delimited (hitem : Passes text item fun ws x => (node x).Covers ws) (fuel : Nat)
    {opening close : Token} (hopening : opening.isVisible = true)
    (hclose : close.isVisible = true) :
    Passes text (delimited fuel opening close item) fun ws r => ∃ l inner c,
      ws = l :: (inner ++ [c]) ∧ l.value = opening ∧ c.value = close ∧
        r.2 = l.span.merge c.span ∧ Listed inner (r.1.map node) := by
  intro s passed hs
  refine (passes_word hopening).yields_bind hs ?_
  rintro l _ s₁ ⟨hl, rfl⟩ hs₁
  refine (passes_commaItems hitem close fuel true).yields_bind hs₁ ?_
  rintro xs inner s₂ ⟨-, hxs⟩ hs₂
  refine (passes_word hclose).yields_bind hs₂ ?_
  rintro c _ s₃ ⟨hc, rfl⟩ hs₃
  exact yields_pure
    ⟨l :: (inner ++ [c]), by simpa using hs₃, l, inner, c, rfl, hl, hc, rfl, hxs rfl⟩

/-- **A value that is made of items between brackets.** -/
theorem passes_enclosed (hitem : Passes text item fun ws x => (node x).Covers ws) (fuel : Nat)
    {opening close : Token} (hopening : opening.isVisible = true) (hclose : close.isVisible = true)
    {make : List α × Span → β} {R : List (Located Token) → β → Prop}
    (h : ∀ l inner c xs, Words.Ordered (l :: (inner ++ [c])) → l.value = opening →
      c.value = close → Listed inner (xs.map node) →
      R (l :: (inner ++ [c])) (make (xs, l.span.merge c.span))) :
    Passes text (delimited fuel opening close item >>= fun items => pure (make items)) R := by
  refine .ordered fun s passed hs =>
    (passes_delimited hitem fuel hopening hclose).yields_bind hs ?_
  rintro ⟨xs, _⟩ _ s₁ ⟨l, inner, c, rfl, hl, hc, rfl, hxs⟩ hs₁
  exact yields_pure ⟨_, hs₁, fun hws => h l inner c xs hws hl hc hxs⟩

/-- What is read from the items of a block: what `R` says of them, and the last words are those of
the last item. -/
structure Blocked (R : List (Located Token) → α → Prop) (ws : List (Located Token)) (xs : List α) :
    Prop where
  mem : ∀ x ∈ xs, ∃ us, R us x ∧ us.Sublist ws
  empty : xs = [] → ws = []
  last : ∀ x ∈ xs.getLast?, ∃ us, R us x ∧ us <:+ ws

theorem blocked_nil (R : List (Located Token) → α → Prop) : Blocked R [] [] :=
  ⟨by simp, fun _ => rfl, by simp⟩

theorem Blocked.prepend {R : List (Located Token) → α → Prop} {us : List (Located Token)}
    {xs : List α} (h : Blocked R us xs) (hne : xs ≠ []) (ws : List (Located Token)) :
    Blocked R (ws ++ us) xs where
  mem x hx := by
    obtain ⟨vs, hvs, hsub⟩ := h.mem x hx
    exact ⟨vs, hvs, hsub.trans (List.sublist_append_right ws us)⟩
  empty hnil := absurd hnil hne
  last x hx := by
    obtain ⟨vs, hvs, hsub⟩ := h.last x hx
    exact ⟨vs, hvs, hsub.trans (List.suffix_append ws us)⟩

theorem Blocked.cons {R : List (Located Token) → α → Prop} {ws us : List (Located Token)} {x : α}
    {xs : List α} (h : Blocked R us xs) (hx : R ws x) : Blocked R (ws ++ us) (x :: xs) where
  mem := by
    refine List.forall_mem_cons.2 ⟨⟨ws, hx, List.sublist_append_left ws us⟩, fun y hy => ?_⟩
    obtain ⟨vs, hy, hvs⟩ := h.mem y hy
    exact ⟨vs, hy, hvs.trans (List.sublist_append_right ws us)⟩
  empty hnil := by cases hnil
  last y hy := by
    cases xs with
    | nil =>
      obtain rfl : x = y := by simpa using hy
      rw [h.empty rfl, List.append_nil]
      exact ⟨ws, hx, List.suffix_refl ws⟩
    | cons z xs => exact (h.prepend (by simp) ws).last y (by simpa using hy)

/-- **The items of a block**, with delimiters between them. -/
theorem passes_blockItems {R : List (Located Token) → α → Prop} (hitem : Passes text item R)
    (begins : Token → Bool) (fuel : Nat) (first : Bool) :
    Passes text (blockItems item begins fuel first) (Blocked R) := by
  have hnone := blocked_nil R
  induction fuel generalizing first with
  | zero => exact passes_exhausted
  | succ fuel ih =>
    rw [blockItems]
    -- an item and the further ones
    have hitems : Passes text (do
        let x ← item
        let xs ← blockItems item begins fuel false
        return x :: xs) fun ws xs => xs ≠ [] ∧ Blocked R ws xs := by
      intro s passed hs
      refine hitem.yields_bind hs fun x ws s₁ hx hs₁ => ?_
      refine (ih false).yields_bind hs₁ fun xs us s₂ hxs hs₂ => ?_
      rw [List.append_assoc] at hs₂
      exact yields_pure ⟨ws ++ us, hs₂, by simp, hxs.cons hx⟩
    intro s passed hs
    refine yields_peek_bind hs fun t s' hs' hseen hstands => ?_
    split
    · rename_i hend
      refine yields_bind (yields_discard (yields_take hs' hseen)) ?_
      rintro _ s₁ ⟨_, -, ws, hs₁, htakes⟩
      obtain rfl : ws = [] := htakes.silent (by simp [hend, Token.isVisible]) (by simp [hend])
      exact yields_pure ⟨[], hs₁, hnone⟩
    · split
      · refine yields_bind (yields_discard (yields_take hs' hseen)) ?_
        rintro _ s₁ ⟨_, -, ws, hs₁, -⟩
        refine (hitems s₁ _ hs₁).mono ?_
        rintro xs s₂ ⟨us, hs₂, hne, hxs⟩
        rw [List.append_assoc] at hs₂
        exact ⟨ws ++ us, hs₂, hxs.prepend hne ws⟩
      · split
        · refine (hitems s' passed hs').mono ?_
          rintro xs s₁ ⟨ws, hs₁, -, hxs⟩
          exact ⟨ws, hs₁, hxs⟩
        · -- the block is closed, and nothing is passed
          refine yields_bind (P := fun _ s₁ => s₁.Passed text passed)
            (fun _ => obeys_closeInnermost trivial hs'.closeInnermost) fun closed s₁ hs₁ => ?_
          split
          · exact yields_pure ⟨[], by rwa [List.append_nil], hnone⟩
          · exact yields_fail hstands

/-- **A block**, behind its first token. -/
theorem passes_block {R : List (Located Token) → α → Prop} (hitem : Passes text item R)
    (begins : Token → Bool) (fuel : Nat) :
    Passes text (block fuel begins item) (Blocked R) := by
  intro s passed hs
  refine (passes_expect .blockBegin).discard.yields_bind hs ?_
  rintro _ ws s₁ ⟨t, ht, htakes⟩ hs₁
  obtain rfl : ws = [] := htakes.silent (by simp [ht, Token.isVisible]) (by simp [ht])
  rw [List.append_nil] at hs₁
  exact fun blocks => obeys_within (passes_blockItems hitem begins fuel true s₁ passed hs₁ _)

end Parser

end CallByNeed

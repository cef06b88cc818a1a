import CallByNeed.Proofs.Building.Agreement
import CallByNeed.Proofs.Layout.Pieces
import CallByNeed.Proofs.Totality.Buffer
import CallByNeed.Proofs.Totality.Fuel

/-!
# Every text is parsed or refused

For every table and every text a parse ends, with an expression or with an error of the text
(`Expr.total_parse`).  Four things together make it so.

* The steps that a parse cannot make do not come up: no operator is left without operands, and no
  number is looked up that has no node.
* No cut of the text goes wrong.  The lexer is only called at cursors of the text, whatever is asked
  of the stream (`Layout.of_next`), and there it reads byte by byte what the cursor reads.
* A turn of a loop that goes on moves on: the lexer's loop by a comment, the layout's loop by a
  newline, and every loop of the parser by a token.
* The tokens come to an end, although the layout adds some and the parser closes blocks.
-/

namespace CallByNeed

/-! ### The cursors of a parse -/

namespace Layout

variable {s s' : Layout} {t : Located Token} {cursor : Cursor} {text : String}

theorem cursor_dequeue (s : Layout) : s.dequeue.2.cursor = s.cursor := by
  unfold dequeue
  split <;> rfl

/-- **The layout reads on where it stopped**, so that it comes to cursors of the text only. -/
theorem of_next {r : Except LexError (Located Token)} (hs : s.cursor.Of text)
    (h : s.next = (r, s')) : s'.cursor.Of text := by
  fun_induction next s with
  | case1 s hq e cursor hc =>
    obtain ⟨-, rfl⟩ := Prod.mk.inj h
    have hnext := hs.next
    rwa [hc] at hnext
  | case2 s hq t cursor hc ht _ ih =>
    have hnext := hs.next
    rw [hc] at hnext
    exact ih hnext h
  -- what fills the queue does not move the cursor
  | case3 s hq t cursor hc ht s₁ t₁ s₂ hd =>
    obtain ⟨-, rfl⟩ := Prod.mk.inj h
    have hnext := hs.next
    have hcursor := cursor_dequeue (if _ : t.value = .eof then s₁.acceptEnd t else s₁.accept t)
    rw [hc] at hnext
    rw [hd] at hcursor
    rw [hcursor]
    split
    · rwa [cursor_acceptEnd]
    · rwa [cursor_accept]
  | case4 s hq t₁ s₂ hd =>
    obtain ⟨-, rfl⟩ := Prod.mk.inj h
    have hcursor := cursor_dequeue s
    rw [hd] at hcursor
    rwa [hcursor]

/-- **A turn of the layout's loop that goes on** has dropped a newline, which made the text
shorter. -/
theorem newline_of_meet (hq : s.queue = []) (hc : s.cursor.next = (.ok t, cursor))
    (hagain : (s.meet t cursor).queue = []) :
    t.value = .newline ∧ cursor.rest.length < s.cursor.rest.length := by
  have hline : t.value = .newline := by
    rw [queue_meet hq, share] at hagain
    split at hagain
    · assumption
    · split at hagain
      · exact absurd hagain (endPiece_ne_nil s t)
      · exact absurd hagain (piece_ne_nil s t)
  exact ⟨hline, Cursor.length_next_lt hc (by simp [hline])⟩

end Layout

namespace TokenStream

variable {s s' : TokenStream} {t : Located Token} {text : String}

theorem of_pull (hs : s.layout.cursor.Of text) (h : s.pull = .ok (t, s')) :
    s'.layout.cursor.Of text := by
  rw [pull] at h
  split at h
  · rename_i u layout hnext
    obtain ⟨-, rfl⟩ : u = t ∧ { s with layout } = s' := by simpa using h
    exact Layout.of_next hs hnext
  · simp at h

theorem of_peek (hs : s.layout.cursor.Of text) (h : s.peek = .ok (t, s')) :
    s'.layout.cursor.Of text := by
  rw [peek] at h
  split at h
  · obtain ⟨-, rfl⟩ : _ ∧ s = s' := by simpa using h
    exact hs
  · cases hpull : s.pull with
    | error e => simp [hpull, Except.map] at h
    | ok result =>
      obtain ⟨u, s₁⟩ := result
      obtain ⟨-, rfl⟩ : u = t ∧ { s₁ with lookahead := some u } = s' := by
        simpa [hpull, Except.map] using h
      exact (of_pull hs hpull : s₁.layout.cursor.Of text)

theorem of_advance (hs : s.layout.cursor.Of text) (h : s.advance = .ok (t, s')) :
    s'.layout.cursor.Of text := by
  rw [advance] at h
  split at h
  · obtain ⟨-, rfl⟩ : _ ∧ { s with lookahead := none } = s' := by simpa using h
    exact hs
  · exact of_pull hs h

theorem of_closeInnermost (hs : s.layout.cursor.Of text) :
    s.closeInnermost.2.layout.cursor.Of text := by
  unfold closeInnermost Layout.closeInnermost
  cases s.layout.columns <;> exact hs

end TokenStream

namespace Parser

variable {α β σ : Type}

/-- **Whatever is asked of the stream**, it comes to cursors of the text only. -/
theorem obeys_of (text : String) (x : Parser α) (blocks : List Nat) {s : TokenStream}
    (hs : s.layout.cursor.Of text) :
    Obeys (fun _ _ s => s.layout.cursor.Of text) (fun _ => True) x blocks s
      fun _ s => s.layout.cursor.Of text := by
  induction x generalizing blocks s with
  | done a => exact obeys_pure hs
  | stop why => exact obeys_stop trivial
  | peek => exact obeys_peek hs (fun _ _ h => TokenStream.of_peek hs h) fun _ => trivial
  | advance => exact obeys_advance hs (fun _ _ h => TokenStream.of_advance hs h) fun _ => trivial
  | closeInnermost => exact obeys_closeInnermost hs (TokenStream.of_closeInnermost hs)
  | within x ih => exact obeys_within (ih _ hs)
  | andThen x f ihx ihf => exact obeys_bind (ihx blocks hs) fun a s' hs' => ihf a blocks hs'

/-! ### The loops of a parse -/

/-- The parser makes one turn after the other, and every turn that goes on takes a token. -/
structure LoopsBy (turn : σ → Parser (σ ⊕ β)) (fuel : Nat) (state : σ) (x : Parser β) : Prop where
  run_eq : ∀ s, x.run s = (iterate turn fuel state).run s
  takes : TakesTurns turn

/-- Items are put behind those before them, of which there are none at first. -/
theorem loopsBy_items {turn : List α → Parser (List α ⊕ List α)} {fuel : Nat}
    {items : Parser (List α)} (htakes : TakesTurns turn)
    (h : ∀ s, (iterate turn fuel []).run s = (items >>= fun xs => pure ([] ++ xs)).run s) :
    LoopsBy turn fuel [] items := by
  refine ⟨fun s => ?_, htakes⟩
  rw [h s]
  exact (run_bind_pure items s).symm

theorem loopsBy_commaItems {item : Parser α} (hitem : Takes item) (fuel : Nat) (close : Token) :
    LoopsBy (commaTurn item close) fuel [] (commaItems item close fuel true) :=
  loopsBy_items (takesTurns_commaTurn hitem close) (run_iterate_commaTurn item close fuel [])

theorem loopsBy_blockItems {item : Parser α} (hitem : Takes item) (fuel : Nat)
    (begins : Token → Bool) :
    LoopsBy (blockTurn item begins) fuel [] (blockItems item begins fuel true) :=
  loopsBy_items (takesTurns_blockTurn hitem begins) (run_iterate_blockTurn item begins fuel [])

end Parser

namespace Expr

open Pattern.Parser (basePattern openPattern openMore openTurn)
open Expr.Parser
open CallByNeed.Parser (LoopsBy commaItems commaTurn blockItems blockTurn)

/-- What makes the parse of a text total. -/
structure TotalParse (table : OperatorTable) (text : String) : Prop where
  /-- **A parse ends**, whatever is in the arena and for any fuel beyond the size of the stream: all
  nodes of the expression are there, or the text has an error. -/
  ends : ∀ (a : Arena) (fuel : Nat), (TokenStream.ofString text).size < fuel →
    (∃ id s b e, Builder.wholeText table fuel (.ofString text, a) = .ok id (s, b) ∧
      (whole table fuel).run (.ofString text) = .ok (e, s) ∧ b.expr? id = some e) ∨
    ∃ err s b, Builder.wholeText table fuel (.ofString text, a) = .error (.error err) (s, b) ∧
      (whole table fuel).run (.ofString text) = .error (.error err)
  /-- Whatever is asked of the stream, the layout stands at a cursor of the text. -/
  cursors : ∀ {α : Type} (x : CallByNeed.Parser α) (operation : Operation) (blocks : List Nat)
    (s : TokenStream), x.Visits [] (.ofString text) operation blocks s → s.layout.cursor.Of text
  /-- At the cursors of the text no cut and no subtraction goes wrong, and the lexer yields what the
  cursor does. -/
  bytes : ∀ c : Cursor, c.Of text →
    Buffer.next text.toList 2 c.position = some (c.next.1, c.next.2.position)
  /-- A turn of the lexer's loop that goes on skips a comment. -/
  lexer : ∀ (c : Cursor) (q : Position), c.Of text →
    Buffer.turn text.toList c.position = some (.again q) →
      c.position.index + 2 ≤ q.index ∧ q.index ≤ byteLength text.toList
  /-- A turn of the layout's loop that goes on drops a newline. -/
  layout : ∀ (s : Layout) (t : Located Token) (cursor : Cursor), s.queue = [] →
    s.cursor.next = (.ok t, cursor) → (s.meet t cursor).queue = [] →
      t.value = .newline ∧ cursor.rest.length < s.cursor.rest.length
  /-- A turn of each of the parser's loops that goes on takes a token. -/
  exprs : ∀ (fuel : Nat) (close : Token),
    LoopsBy (commaTurn (expr table fuel) close) fuel []
      (commaItems (expr table fuel) close fuel true)
  patterns : ∀ (fuel : Nat) (close : Token),
    LoopsBy (commaTurn (openPattern fuel (basePattern fuel)) close) fuel []
      (commaItems (openPattern fuel (basePattern fuel)) close fuel true)
  options : ∀ fuel : Nat,
    LoopsBy (blockTurn (caseOption fuel (expr table fuel)) Token.beginsPattern) fuel []
      (blockItems (caseOption fuel (expr table fuel)) Token.beginsPattern fuel true)
  openPatterns : ∀ fuel : Nat,
    LoopsBy (openTurn (basePattern fuel)) fuel [] (openMore (basePattern fuel) fuel)
  applications : ∀ (fuel : Nat) (func : Expr),
    LoopsBy (argumentTurn (baseExpr fuel (expr table fuel))) fuel func
      (arguments (baseExpr fuel (expr table fuel)) fuel func)
  sequences : ∀ (fuel : Nat) (operators : List Waiting) (operands : List Expr),
    LoopsBy (sequenceTurn table (application fuel (expr table fuel)) (expr table fuel)) fuel
      (operators, operands)
      (sequenceMore table (application fuel (expr table fuel)) (expr table fuel) fuel operators
        operands)
  /-- The tokens of a text come to an end. -/
  finite : ∀ {α : Type} (x : CallByNeed.Parser α),
    (x.taken (.ofString text)).countP Layout.isInner ≤ (TokenStream.ofString text).size

/-- A parse fails with an error of the text only. -/
theorem error_of_run_whole {table : OperatorTable} {text : String} {fuel : Nat} {why : Failure}
    (hfuel : (TokenStream.ofString text).size < fuel)
    (h : (whole table fuel).run (.ofString text) = .error why) : ∃ err, why = .error err := by
  have hkeeps := keeps_whole table fuel [] _ (TokenStream.inStep_ofString text)
  cases why with
  | error err => exact ⟨err, rfl⟩
  | exhausted => exact absurd h (lasts_whole table fuel _ hfuel)
  | outOfStep => exact absurd rfl (hkeeps.error _ h).1

/-- **Every text is parsed or refused**, for every table. -/
theorem total_parse (table : OperatorTable) (text : String) : TotalParse table text where
  ends a fuel hfuel := by
    -- the parser and the builder read the same text, so that they end alike
    have hreads := Builder.reads_wholeText table fuel a (.refl a) (.ofString text)
      (TokenStream.legible_ofString text)
    generalize hbuilt : Builder.wholeText table fuel (.ofString text, a) = built at hreads
    generalize hparsed : (whole table fuel).run (.ofString text) = parsed at hreads
    cases hreads with
    | ok _ _ hread => exact .inl ⟨_, _, _, _, rfl, rfl, hread.tree⟩
    | error _ =>
      -- the fuel lasts, so that an error is one of the text
      obtain ⟨err, rfl⟩ := error_of_run_whole hfuel hparsed
      exact .inr ⟨err, _, _, rfl, rfl⟩
  cursors x operation blocks s hvisits :=
    (Parser.obeys_of text x [] .start).visits operation blocks s hvisits
  bytes c hc := Buffer.next_eq hc.fits 0
  lexer c q hc hturn := Buffer.index_of_again hc.fits hturn
  layout s t cursor hq hc hagain := Layout.newline_of_meet hq hc hagain
  exprs fuel close := CallByNeed.Parser.loopsBy_commaItems (takes_expr table fuel) fuel close
  patterns fuel close :=
    CallByNeed.Parser.loopsBy_commaItems
      (Pattern.Parser.takes_openPattern (Pattern.Parser.takes_basePattern fuel) fuel) fuel close
  options fuel :=
    CallByNeed.Parser.loopsBy_blockItems (takes_caseOption fuel (expr table fuel)) fuel _
  openPatterns fuel :=
    CallByNeed.Parser.loopsBy_items (Pattern.Parser.takesTurns_openTurn _)
      (Pattern.Parser.run_iterate_openTurn _ fuel [])
  applications fuel func :=
    ⟨fun s => (run_iterate_argumentTurn _ fuel func s).symm,
      takesTurns_argumentTurn (takes_baseExpr fuel (expr table fuel))⟩
  sequences fuel operators operands :=
    ⟨fun s => (run_iterate_sequenceTurn table _ _ fuel operators operands s).symm,
      takesTurns_sequenceTurn table _ _⟩
  finite x := Nat.le_trans (Nat.le_add_right _ _)
    (CallByNeed.Parser.count_taken_add_le x (.ofString text))

end Expr

end CallByNeed

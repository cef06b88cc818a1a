import CallByNeed.Expr.Parser
import CallByNeed.Proofs.Spans.Rules

/-!
# Parsers and the spans of their trees

Each parser of the grammar passes the words that the node it yields covers (`Node.Covers`), and
fails only with errors that know where they are.

In an operator sequence the nodes are not built in the order of the words.  The operands that wait
are read from words one behind the other, with one word, the operator, between two of them
(`Stacked`); completing an operator puts the words of its operands together with its own.
-/

namespace CallByNeed

open CallByNeed.Parser

namespace Node

variable {ws us inner : List (Located Token)} {l c w : Located Token} {n b : Node}

theorem Covers.getLast?_append (h : n.Covers us) (ws : List (Located Token)) :
    ∃ last, (ws ++ us).getLast? = some last ∧ n.span.stop = last.span.stop := by
  obtain ⟨last, hlast, hstop⟩ := h.stop
  exact ⟨last, by rw [List.getLast?_append, hlast]; rfl, hstop⟩

/-- **A node that starts with a keyword**, and ends with its last child. -/
theorem covers_keyword (hws : Words.Ordered (w :: (ws ++ us)))
    (hw : w.value ≠ .bracketLeft ∧ w.value ≠ .bracketRight) (hb : b.Covers us)
    (hspan : n.span = w.span.merge b.span) (hchildren : ∀ m ∈ n.children, m.Tree (ws ++ us)) :
    n.Covers (w :: (ws ++ us)) :=
  covers_headed hws hw hspan (hb.tree.between.mono (List.subset_append_right ws us))
    (hb.getLast?_append ws) hchildren

/-- **A node in round brackets**: a tuple of what is between them, or the one node that they group,
whose span then reaches from bracket to bracket. -/
theorem covers_parens {ns : List Node} (hws : Words.Ordered (l :: (inner ++ [c])))
    (hl : l.value = .parenLeft) (hns : ∀ m ∈ ns, m.Tree inner)
    (hspan : n.span = l.span.merge c.span)
    (hchildren : ∀ m ∈ n.children, m ∈ ns ∨ ∃ k ∈ ns, m ∈ k.children) :
    n.Covers (l :: (inner ++ [c])) := by
  have hclose : c ∈ inner ++ [c] := by simp
  refine covers_headed hws (by simp [hl]) hspan
    (Words.between_word (hws.sublist (List.sublist_cons_self l _)) hclose)
    ⟨c, by simp, rfl⟩ fun m hm => Tree.mono ?_ (List.subset_append_left inner [c])
  rcases hchildren m hm with h | ⟨k, hk, h⟩
  · exact hns m h
  · exact (hns k hk).child h

section Cells

variable {α : Type} (node : α → Node) (cell : Span → α → α → α) {xs : List α} {z : α}
  (hspan : ∀ s x y, (node (cell s x y)).span = s)
  (hchildren : ∀ s x y, (node (cell s x y)).children = [node x, node y])
  (htail : ∀ s x y, (node (cell s x y)).tail? = some (node y))

include hspan hchildren htail

/-- **A list in square brackets.**  The empty list at its end reaches from bracket to bracket. -/
theorem covers_brackets (hws : Words.Ordered (l :: (inner ++ [c]))) (hl : l.value = .bracketLeft)
    (hc : c.value = .bracketRight) (hxs : Listed inner (xs.map node))
    (hz : (node z).span = l.span.merge c.span) (hzchildren : (node z).children = [])
    (hnil : (node z).isNil = true) :
    (node (xs.foldr (fun head tail =>
      cell ⟨(node head).span.start, (l.span.merge c.span).stop⟩ head tail) z)).Covers
      (l :: (inner ++ [c])) := by
  have hmem : c ∈ inner ++ [c] := by simp
  have hlast : (l :: inner ++ [c]).getLast? = some c := List.getLast?_concat
  have hlc : l.span.stop.index ≤ c.span.start.index := 
    Words.Ordered.le (show Words.Ordered ([l] ++ (inner ++ [c])) from hws) (by simp) hmem
  have hllt := hws.lt l List.mem_cons_self
  have hclt := hws.lt c (List.mem_cons_of_mem l hmem)
  have hmerge : l.span.merge c.span = ⟨l.span.start, c.span.stop⟩ :=
    Span.merge_of_le (by omega) (by omega)
  rw [hmerge] at hz ⊢
  -- the empty list covers both brackets, and the elements are between them
  have hsub : inner ⊆ l :: (inner ++ [c]) := fun x hx => by simp [hx]
  have hztree : (node z).Tree (l :: (inner ++ [c])) := by
    refine tree_of_children ⟨⟨l, List.mem_cons_self, by rw [hz]⟩,
      ⟨c, List.mem_cons_of_mem l hmem, by rw [hz]⟩, ?_⟩ (by simp [hzchildren])
    rw [hz]
    show l.span.start.index < c.span.stop.index
    omega
  have hbehind (x : α) (hx : x ∈ xs) : (node x).span.stop.index ≤ c.span.stop.index := by
    obtain ⟨b, hb, hstop⟩ := (hxs.tree _ (List.mem_map_of_mem hx)).between.stop
    rw [hstop]
    exact hws.le_last (hsub hb) hlast
  obtain ⟨htree, hstop, hstart⟩ := tree_cells node cell hspan hchildren htail
    (hxs.toItems.mono hsub) hztree rfl (by rwa [hz]) (.inl hnil)
  rw [hz] at htree hstop hstart
  refine ⟨htree, ?_, ⟨c, hlast, hstop⟩⟩
  cases xs with
  | nil =>
    obtain rfl : inner = [] := hxs.empty rfl
    exact ⟨l, .nil [] hl hc, by rw [List.foldr_nil, hz]⟩
  | cons x xs =>
    obtain ⟨w, hw, hwstart⟩ := hxs.start (node x) rfl
    exact ⟨w, .list hl (hw.append [c]), by rw [hstart x rfl, hwstart]⟩

end Cells

end Node

open Node (Items)

/-! ### Patterns -/

namespace Pattern.Parser

variable {text : String} {base : CallByNeed.Parser Pattern} {ws : List (Located Token)}

theorem yields_leaf {make : Span → Pattern} {s : TokenStream} {passed : List (Located Token)}
    {t : Located Token} (hs : s.Passed text passed) (hseen : s.lookahead = some t)
    (ht : t.value.isVisible = true)
    (hbracket : t.value ≠ .bracketLeft ∧ t.value ≠ .bracketRight)
    (hspan : ∀ span, (make span).span = span)
    (hchildren : ∀ span, (Node.pattern (make span)).children = []) :
    Yields text (leaf make) s fun p s' =>
      ∃ ws, s'.Passed text (passed ++ ws) ∧ (Node.pattern p).Covers ws :=
  yields_word .pattern hs hseen ht hbracket hspan hchildren

/-- **Patterns in round brackets.** -/
theorem covers_ofParens {inner : List (Located Token)} {l c : Located Token} {ps : List Pattern}
    (hws : Words.Ordered (l :: (inner ++ [c]))) (hl : l.value = .parenLeft)
    (hps : Listed inner (ps.map Node.pattern)) :
    (Node.pattern (ofParens (l.span.merge c.span) ps)).Covers (l :: (inner ++ [c])) := by
  refine Node.covers_parens hws hl hps.tree ?_ ?_
  · rcases ps with _ | ⟨p, _ | ⟨q, ps⟩⟩
    · rfl
    · cases p <;> rfl
    · rfl
  · rcases ps with _ | ⟨p, _ | ⟨q, ps⟩⟩
    · simp [ofParens, Node.children]
    · have hchildren : (Node.pattern (p.withSpan (l.span.merge c.span))).children =
        (Node.pattern p).children := by cases p <;> rfl
      intro m hm
      rw [ofParens, hchildren] at hm
      exact .inr ⟨.pattern p, by simp, hm⟩
    · exact fun m hm => .inl hm

/-- Further base patterns, one behind the other. -/
theorem passes_openMore (hbase : Passes text base fun ws p => (Node.pattern p).Covers ws)
    (fuel : Nat) : Passes text (openMore base fuel) fun ws ps =>
      Items ws (ps.map Node.pattern) ∧ Blocked (fun us p => (Node.pattern p).Covers us) ws ps := by
  induction fuel with
  | zero => exact passes_exhausted
  | succ fuel ih =>
    rw [openMore]
    refine .ordered fun s passed hs => yields_peek_bind hs fun t s' hs' hseen hstands => ?_
    split
    · rename_i symbol ht
      have hvisible : t.value.isVisible = true := by simp [ht, Token.isVisible]
      -- another operator than the colon is an error, which stands in the text
      split
      · exact yields_fail ⟨(Located.placed_iff hvisible).1 hstands.1, hstands.2⟩
      · refine yields_bind (yields_discard (yields_take hs' hseen)) ?_
        rintro _ s₁ ⟨_, -, wt, hs₁, -⟩
        refine hbase.yields_bind hs₁ fun p wp s₂ hp hs₂ => ?_
        refine ih.yields_bind hs₂ fun ps wps s₃ hps hs₃ => ?_
        obtain ⟨hitems, hblocked⟩ := hps
        refine yields_pure ⟨wt ++ (wp ++ wps), by simpa using hs₃, fun hws => ⟨?_, ?_⟩⟩
        · exact (hitems.cons (hws.sublist (List.sublist_append_right wt _)) hp.tree).mono
            (List.subset_append_right wt _)
        · exact (hblocked.cons hp).prepend (by simp) wt
    · exact yields_pure ⟨[], by rwa [List.append_nil], fun _ => ⟨Node.items_nil [], blocked_nil _⟩⟩

/-- **The cells of an open pattern.** -/
theorem covers_chain {first : Pattern} {more : List Pattern} (hws : Words.Ordered ws)
    (hitems : Items ws ((first :: more).map Node.pattern))
    (hblocked : Blocked (fun us p => (Node.pattern p).Covers us) ws (first :: more))
    (hfirst : ∃ w, Opening ws w ∧ first.span.start = w.span.start) :
    (Node.pattern (chain first more)).Covers ws := by
  obtain ⟨last, hlast⟩ : ∃ last, (first :: more).getLast (by simp) = last := ⟨_, rfl⟩
  have hsplit : (first :: more).dropLast ++ [last] = first :: more := by
    rw [← hlast]
    exact List.dropLast_append_getLast (by simp)
  have hchain : chain first more = consAll last.span.stop (first :: more).dropLast last := by
    rw [chain, hlast]
  -- the last base pattern ends with the last word
  obtain ⟨us, hus, vs, rfl⟩ := hblocked.last last (by
    rw [List.getLast?_eq_getLast_of_ne_nil (by simp), hlast]
    rfl)
  obtain ⟨w, hw, hstop⟩ := hus.getLast?_append vs
  rw [← hsplit, List.map_append] at hitems
  obtain ⟨hheads, -, hle⟩ := List.pairwise_append.1 hitems.pairwise
  obtain ⟨htree, htreeStop, hstart⟩ := Node.tree_cells .pattern .cons
    (fun _ _ _ => rfl) (fun _ _ _ => rfl) (fun _ _ _ => rfl)
    ⟨fun n hn => hitems.tree n (List.mem_append_left _ hn), hheads⟩
    (hus.tree.mono (List.subset_append_right vs us)) rfl
    (fun x hx => by
      obtain ⟨b, hb, hbstop⟩ := (hitems.tree _
        (List.mem_append_left _ (List.mem_map_of_mem hx))).between.stop
      rw [hbstop]
      exact hstop ▸ hws.le_last hb hw)
    (.inr fun x hx => hle _ (List.mem_map_of_mem hx) _ (by simp))
  rw [hchain]
  refine ⟨htree, ?_, ⟨w, hw, htreeStop.trans hstop⟩⟩
  obtain ⟨o, ho, hostart⟩ := hfirst
  refine ⟨o, ho, hostart ▸ ?_⟩
  cases more with
  | nil =>
    obtain rfl : first = last := hlast
    rfl
  | cons p more => exact hstart first rfl

/-- **An open pattern.** -/
theorem passes_openPattern (hbase : Passes text base fun ws p => (Node.pattern p).Covers ws)
    (fuel : Nat) :
    Passes text (openPattern fuel base) fun ws p => (Node.pattern p).Covers ws := by
  refine .ordered fun s passed hs => hbase.yields_bind hs fun first ws s₁ hfirst hs₁ => ?_
  refine (passes_openMore hbase fuel).yields_bind hs₁ fun more us s₂ hmore hs₂ => ?_
  obtain ⟨hitems, hblocked⟩ := hmore
  refine yields_pure ⟨ws ++ us, by simpa using hs₂, fun hws => ?_⟩
  obtain ⟨w, hw, hstart⟩ := hfirst.start
  exact covers_chain hws (hitems.cons hws hfirst.tree) (hblocked.cons hfirst)
    ⟨w, hw.append us, hstart⟩

/-- **A base pattern.** -/
theorem passes_basePattern (fuel : Nat) :
    Passes text (basePattern fuel) fun ws p => (Node.pattern p).Covers ws := by
  induction fuel with
  | zero => exact passes_exhausted
  | succ fuel ih =>
    have hopen := passes_openPattern ih fuel
    rw [basePattern]
    intro s passed hs
    refine yields_peek_bind hs fun t s' hs' hseen hstands => ?_
    split
    case h_1 | h_2 | h_3 | h_4 =>
      rename_i ht
      exact yields_leaf hs' hseen (by simp [ht, Token.isVisible]) (by simp [ht]) (fun _ => rfl)
        fun _ => rfl
    · -- the brackets enclose what is between them, and the span of the pattern is that of the
      -- brackets
      exact passes_enclosed hopen fuel rfl rfl (fun _ _ _ _ hws hl _ => covers_ofParens hws hl)
        s' passed hs'
    · exact passes_enclosed hopen fuel rfl rfl (fun _ _ _ _ hws hl hc hps =>
        Node.covers_brackets .pattern .cons (fun _ _ _ => rfl) (fun _ _ _ => rfl) (fun _ _ _ => rfl)
          hws hl hc hps rfl rfl rfl) s' passed hs'
    · exact yields_fail hstands

end Pattern.Parser

/-! ### Expressions -/

namespace Expr.Parser

variable {text : String} {ws us : List (Located Token)} {passed : List (Located Token)}
  {s : TokenStream} {e : Expr}

variable (text) in
/-- The parser passes the words that the expression it yields covers. -/
def Reads (x : CallByNeed.Parser Expr) : Prop :=
  Passes text x fun ws e => (Node.expr e).Covers ws

theorem yields_leaf {make : Span → Expr} {t : Located Token} (hs : s.Passed text passed)
    (hseen : s.lookahead = some t) (ht : t.value.isVisible = true)
    (hbracket : t.value ≠ .bracketLeft ∧ t.value ≠ .bracketRight)
    (hspan : ∀ span, (make span).span = span)
    (hchildren : ∀ span, (Node.expr (make span)).children = []) :
    Yields text (leaf make) s fun e s' =>
      ∃ ws, s'.Passed text (passed ++ ws) ∧ (Node.expr e).Covers ws :=
  yields_word .expr hs hseen ht hbracket hspan hchildren

/-- **Expressions in round brackets.** -/
theorem covers_ofParens {inner : List (Located Token)} {l c : Located Token} {es : List Expr}
    (hws : Words.Ordered (l :: (inner ++ [c]))) (hl : l.value = .parenLeft)
    (hes : Listed inner (es.map Node.expr)) :
    (Node.expr (ofParens (l.span.merge c.span) es)).Covers (l :: (inner ++ [c])) := by
  refine Node.covers_parens hws hl hes.tree ?_ ?_
  · rcases es with _ | ⟨e, _ | ⟨f, es⟩⟩
    · rfl
    · cases e <;> rfl
    · rfl
  · rcases es with _ | ⟨e, _ | ⟨f, es⟩⟩
    · simp [ofParens, Node.children]
    · have hchildren : (Node.expr (e.withSpan (l.span.merge c.span))).children =
        (Node.expr e).children := by cases e <;> rfl
      intro m hm
      rw [ofParens, hchildren] at hm
      exact .inr ⟨.expr e, by simp, hm⟩
    · exact fun m hm => .inl hm

/-- **A base expression.** -/
theorem reads_baseExpr {expr : CallByNeed.Parser Expr} (hexpr : Reads text expr) (fuel : Nat) :
    Reads text (baseExpr fuel expr) := by
  intro s passed hs
  refine yields_peek_bind hs fun t s' hs' hseen hstands => ?_
  split
  case h_1 | h_2 | h_3 =>
    rename_i ht
    exact yields_leaf hs' hseen (by simp [ht, Token.isVisible]) (by simp [ht]) (fun _ => rfl)
      fun _ => rfl
  · exact passes_enclosed hexpr fuel rfl rfl (fun _ _ _ _ hws hl _ => covers_ofParens hws hl)
      s' passed hs'
  · exact passes_enclosed hexpr fuel rfl rfl (fun _ _ _ _ hws hl hc hes =>
      Node.covers_brackets .expr .cons (fun _ _ _ => rfl) (fun _ _ _ => rfl) (fun _ _ _ => rfl)
        hws hl hc hes rfl rfl rfl) s' passed hs'
  · exact yields_fail hstands

/-- **Arguments** behind a function. -/
theorem yields_arguments {base : CallByNeed.Parser Expr} (hbase : Reads text base) (fuel : Nat)
    {func : Expr} (hs : s.Passed text (passed ++ ws)) (hfunc : (Node.expr func).Covers ws) :
    Yields text (arguments base fuel func) s fun e s' =>
      ∃ us, s'.Passed text (passed ++ us) ∧ (Node.expr e).Covers us := by
  induction fuel generalizing func ws s with
  | zero => exact yields_stop fun _ h => by cases h
  | succ fuel ih =>
    rw [arguments]
    refine yields_peek_bind hs fun t s' hs' hseen hstands => ?_
    split
    · refine hbase.yields_bind hs' fun arg us s₁ harg hs₁ => ?_
      rw [List.append_assoc] at hs₁
      have hws : Words.Ordered (ws ++ ([] ++ us)) :=
        hs₁.ordered.1.sublist (List.sublist_append_right passed _)
      exact ih hs₁ (Node.covers_pair [] hws hfunc harg rfl (by simp [applyTo, Node.children]))
    · exact yields_pure ⟨ws, hs', hfunc⟩

/-- **An application.** -/
theorem reads_application {expr : CallByNeed.Parser Expr} (hexpr : Reads text expr) (fuel : Nat) :
    Reads text (application fuel expr) := by
  intro s passed hs
  have hbase := reads_baseExpr hexpr fuel
  exact hbase.yields_bind hs fun func ws s₁ hfunc hs₁ => yields_arguments hbase fuel hs₁ hfunc

/-! ### Operator sequences -/

/-- The operands that wait, the last one first, are read from words one behind the other, and
between two of them is the word of an operator that waits. -/
inductive Stacked : List (Located Token) → List Waiting → List Expr → Prop where
  | operand {ws : List (Located Token)} {e : Expr} (he : (Node.expr e).Covers ws) :
    Stacked ws [] [e]
  | push {ws us : List (Located Token)} {operators : List Waiting} {operands : List Expr} {e : Expr}
    (h : Stacked ws operators operands) (t : Located Token) (w : Waiting)
    (he : (Node.expr e).Covers us) : Stacked (ws ++ t :: us) (w :: operators) (e :: operands)

/-- **The children of what an operator makes** are its operands. -/
theorem mem_children_build {c : Combinator} {span : Span} {a b : Expr} {n : Node}
    (hn : n ∈ (Node.expr (c.build span a b)).children) : n = .expr a ∨ n = .expr b := by
  have hchildren : (Node.expr (c.build span a b)).children =
      c.parts.map fun o => .expr (o.pick a b) := by
    cases c with
    | tuple elems => exact List.map_map ..
    | _ => rfl
  rw [hchildren] at hn
  obtain ⟨o, -, rfl⟩ := List.mem_map.1 hn
  cases o with
  | left => exact .inl rfl
  | right => exact .inr rfl

/-- **An operator with its operands** covers their words and its own. -/
theorem covers_complete {a b : Expr} {t : Located Token} (w : Waiting)
    (hws : Words.Ordered (ws ++ t :: us)) (ha : (Node.expr a).Covers ws)
    (hb : (Node.expr b).Covers us) : (Node.expr (w.complete a b)).Covers (ws ++ t :: us) := by
  exact Node.covers_pair [t] hws ha hb (Combinator.span_build ..) fun _ hn => mem_children_build hn

section Stacked

variable {w : Waiting} {operators : List Waiting} {operands : List Expr}

/-- **The operator on top takes the two operands on top.** -/
theorem Stacked.reduce (h : Stacked ws (w :: operators) operands) (hws : Words.Ordered ws) :
    ∃ operands', Sequence.reduce Waiting.complete w operands = .ok operands' ∧
      Stacked ws operators operands' := by
  -- the words of both operands, with that of the operator between them, become those of one
  cases h with
  | push h t _ hb =>
    cases h with
    | operand ha => exact ⟨_, rfl, .operand (covers_complete w hws ha hb)⟩
    | push h u v ha =>
      rw [List.append_assoc] at hws ⊢
      exact ⟨_, rfl, .push h u v (covers_complete w (hws.sublist (by simp)) ha hb)⟩

/-- Operators that clash know where they are. -/
theorem stands_of_takesFirst {symbol : String} {op : Operator} {e : ParseError}
    (hw : w.span.IsStretch text ∧ w.span.IsSpot text)
    (h : Sequence.takesFirst w symbol op = .error e) : e.Stands text := by
  rw [Sequence.takesFirst] at h
  split at h
  · simp at h
  · split at h
    · obtain rfl : _ = e := by simpa using h
      exact hw
    · split at h
      · simp at h
      · simp at h
      · obtain rfl : _ = e := by simpa using h
        exact hw

/-- **The operators that take their operands first** leave operands over the same words. -/
theorem Stacked.reduceFor (symbol : String) (op : Operator) (hws : Words.Ordered ws)
    (h : Stacked ws operators operands)
    (hspans : ∀ w ∈ operators, w.span.IsStretch text ∧ w.span.IsSpot text) :
    (∀ r, Sequence.reduceFor Waiting.complete symbol op operators operands = .ok r →
      Stacked ws r.1 r.2 ∧ ∀ w ∈ r.1, w.span.IsStretch text ∧ w.span.IsSpot text) ∧
    ∀ why, Sequence.reduceFor Waiting.complete symbol op operators operands = .error why →
      why.Stands text := by
  induction operators generalizing operands with
  | nil => simpa [Sequence.reduceFor] using h
  | cons w operators ih =>
    obtain ⟨hw, hrest⟩ := List.forall_mem_cons.1 hspans
    rw [Sequence.reduceFor]
    -- a conflict is reported at one of the two operators, which stand in the text
    cases htakes : Sequence.takesFirst w symbol op with
    | error e => simpa [Failure.Stands] using stands_of_takesFirst hw htakes
    | ok first =>
      cases first with
      | false =>
        refine ⟨?_, by simp⟩
        rintro _ ⟨⟩
        exact ⟨h, hspans⟩
      | true =>
        obtain ⟨operands', hreduce, h'⟩ := h.reduce hws
        rw [hreduce]
        exact ih h' hrest

/-- **At the end one operand is left**, which covers all words. -/
theorem Stacked.close (hws : Words.Ordered ws) (h : Stacked ws operators operands) :
    ∃ e, Sequence.close Waiting.complete operators operands = .ok e ∧
      (Node.expr e).Covers ws := by
  induction operators generalizing operands with
  | nil =>
    cases h with
    | operand he => exact ⟨_, rfl, he⟩
  | cons w operators ih =>
    obtain ⟨operands', hreduce, h'⟩ := h.reduce hws
    rw [Sequence.close, hreduce]
    exact ih h'

/-- The value of a computation without a stream. -/
theorem yields_ofExcept {α : Type} {r : Except Failure α} {Q : α → TokenStream → Prop}
    (hok : ∀ a, r = .ok a → Q a s) (herror : ∀ why, r = .error why → why.Stands text) :
    Yields text (ofExcept r) s Q := by
  cases r with
  | ok a => exact yields_pure (hok a rfl)
  | error why => exact fun _ => obeys_stop (herror why rfl)

theorem Stacked.yields_close (hs : s.Passed text (passed ++ ws))
    (h : Stacked ws operators operands) :
    Yields text (ofExcept (Sequence.close Waiting.complete operators operands)) s fun e s' =>
      ∃ us, s'.Passed text (passed ++ us) ∧ (Node.expr e).Covers us := by
  obtain ⟨e, hclose, he⟩ := h.close (hs.ordered.1.sublist (List.sublist_append_right passed ws))
  rw [hclose]
  exact yields_pure ⟨ws, hs, he⟩

end Stacked

/-- **The rest of an operator sequence.** -/
theorem yields_sequenceMore (table : OperatorTable) {operand expr : CallByNeed.Parser Expr}
    (hoperand : Reads text operand) (hexpr : Reads text expr) (fuel : Nat)
    {operators : List Waiting} {operands : List Expr} (hs : s.Passed text (passed ++ ws))
    (h : Stacked ws operators operands)
    (hspans : ∀ w ∈ operators, w.span.IsStretch text ∧ w.span.IsSpot text) :
    Yields text (sequenceMore table operand expr fuel operators operands) s fun e s' =>
      ∃ us, s'.Passed text (passed ++ us) ∧ (Node.expr e).Covers us := by
  induction fuel generalizing operators operands ws s with
  | zero => exact yields_stop fun _ h => by cases h
  | succ fuel ih =>
    rw [sequenceMore]
    refine yields_peek_bind hs fun t s₁ hs₁ hseen hstands => ?_
    split
    · rename_i symbol ht
      have hvisible : t.value.isVisible = true := by simp [ht, Token.isVisible]
      have hstretch := (Located.placed_iff hvisible).1 hstands.1
      split
      · exact yields_fail ⟨hstretch, hstands.2⟩
      · rename_i op hop
        refine yields_bind (yields_discard (yields_take hs₁ hseen)) ?_
        rintro _ s₂ ⟨_, -, wt, hs₂, htakes⟩
        obtain rfl := htakes.word hvisible
        have hws := hs₁.ordered.1.sublist (List.sublist_append_right passed ws)
        obtain ⟨hok, herror⟩ := h.reduceFor symbol op hws hspans
        -- what is completed leaves the words as they are, and the operator's own is put behind them
        refine yields_bind (yields_ofExcept (Q := fun r s => s = s₂ ∧ _)
          (fun r hr => ⟨rfl, hok r hr⟩) herror) ?_
        rintro ⟨operators', operands'⟩ _ ⟨rfl, h', hspans'⟩
        have hpushed : ∀ w ∈ (⟨symbol, op, t.span⟩ : Waiting) :: operators',
            w.span.IsStretch text ∧ w.span.IsSpot text :=
          List.forall_mem_cons.2 ⟨⟨hstretch, hstands.2⟩, hspans'⟩
        refine yields_peek_bind hs₂ fun u s₃ hs₃ hseen' hstands' => ?_
        split
        · refine hoperand.yields_bind hs₃ fun e us s₄ he hs₄ => ?_
          exact ih (by simpa using hs₄) (.push h' _ _ he) hpushed
        · refine hexpr.yields_bind hs₃ fun e us s₄ he hs₄ => ?_
          exact (Stacked.push h' _ _ he).yields_close (by simpa using hs₄)
    · exact h.yields_close hs₁

theorem reads_operatorSequence (table : OperatorTable) {expr : CallByNeed.Parser Expr}
    (hexpr : Reads text expr) (fuel : Nat) : Reads text (operatorSequence table fuel expr) := by
  intro s passed hs
  have hoperand := reads_application hexpr fuel
  exact hoperand.yields_bind hs fun e ws s₁ he hs₁ =>
    yields_sequenceMore table hoperand hexpr fuel hs₁ (.operand he) (by simp)

/-! ### Expressions that start with a keyword -/

section Keywords

variable {expr : CallByNeed.Parser Expr} (hexpr : Reads text expr) (fuel : Nat)

include hexpr

theorem reads_letExpr : Reads text (letExpr fuel expr) := by
  refine .ordered fun s passed hs => ?_
  refine (passes_word rfl).yields_bind hs ?_
  rintro l _ s₁ ⟨hl, rfl⟩ hs₁
  refine (Pattern.Parser.passes_basePattern fuel).yields_bind hs₁ fun p wp s₂ hp hs₂ => ?_
  refine (passes_word rfl).discard.yields_bind hs₂ ?_
  rintro _ _ s₃ ⟨equals, -, rfl⟩ hs₃
  refine hexpr.yields_bind hs₃ fun value wv s₄ hvalue hs₄ => ?_
  refine (passes_word rfl).discard.yields_bind hs₄ ?_
  rintro _ _ s₅ ⟨inWord, -, rfl⟩ hs₅
  refine hexpr.yields_bind hs₅ fun body wb s₆ hbody hs₆ => ?_
  refine yields_pure ⟨l :: ((wp ++ equals :: (wv ++ [inWord])) ++ wb), by simpa using hs₆,
    fun hws => ?_⟩
  refine Node.covers_keyword hws (by simp [hl]) hbody rfl ?_
  exact List.forall_mem_cons.2 ⟨hp.tree.mono fun x hx => by simp [hx],
    List.forall_mem_cons.2 ⟨hvalue.tree.mono fun x hx => by simp [hx],
      List.forall_mem_singleton.2 (hbody.tree.mono (List.subset_append_right _ wb))⟩⟩

theorem reads_condition : Reads text (condition expr) := by
  refine .ordered fun s passed hs => ?_
  refine (passes_word rfl).yields_bind hs ?_
  rintro l _ s₁ ⟨hl, rfl⟩ hs₁
  refine hexpr.yields_bind hs₁ fun test wt s₂ htest hs₂ => ?_
  refine (passes_word rfl).discard.yields_bind hs₂ ?_
  rintro _ _ s₃ ⟨thenWord, -, rfl⟩ hs₃
  refine hexpr.yields_bind hs₃ fun yes wy s₄ hyes hs₄ => ?_
  refine (passes_word rfl).discard.yields_bind hs₄ ?_
  rintro _ _ s₅ ⟨elseWord, -, rfl⟩ hs₅
  refine hexpr.yields_bind hs₅ fun no wn s₆ hno hs₆ => ?_
  refine yields_pure ⟨l :: ((wt ++ thenWord :: (wy ++ [elseWord])) ++ wn), by simpa using hs₆,
    fun hws => ?_⟩
  refine Node.covers_keyword hws (by simp [hl]) hno rfl ?_
  exact List.forall_mem_cons.2 ⟨htest.tree.mono fun x hx => by simp [hx],
    List.forall_mem_cons.2 ⟨hyes.tree.mono fun x hx => by simp [hx],
      List.forall_mem_singleton.2 (hno.tree.mono (List.subset_append_right _ wn))⟩⟩

theorem reads_lambda : Reads text (lambda fuel expr) := by
  refine .ordered fun s passed hs => ?_
  refine (passes_word rfl).yields_bind hs ?_
  rintro l _ s₁ ⟨hl, rfl⟩ hs₁
  refine (Pattern.Parser.passes_basePattern fuel).yields_bind hs₁ fun p wp s₂ hp hs₂ => ?_
  refine (passes_word rfl).discard.yields_bind hs₂ ?_
  rintro _ _ s₃ ⟨arrow, -, rfl⟩ hs₃
  refine hexpr.yields_bind hs₃ fun body wb s₄ hbody hs₄ => ?_
  refine yields_pure ⟨l :: ((wp ++ [arrow]) ++ wb), by simpa using hs₄, fun hws => ?_⟩
  refine Node.covers_keyword hws (by simp [hl]) hbody rfl ?_
  exact List.forall_mem_cons.2 ⟨hp.tree.mono fun x hx => by simp [hx],
    List.forall_mem_singleton.2 (hbody.tree.mono (List.subset_append_right _ wb))⟩

/-- **An option**: a pattern, an arrow, and an expression. -/
theorem passes_caseOption : Passes text (caseOption fuel expr) fun ws option => ∃ wp arrow wb,
    ws = wp ++ arrow :: wb ∧ (Node.pattern option.1).Covers wp ∧
      (Node.expr option.2).Covers wb := by
  intro s passed hs
  have hpattern : Passes text
      (Pattern.Parser.openPattern fuel (Pattern.Parser.basePattern fuel))
      fun ws p => (Node.pattern p).Covers ws :=
    Pattern.Parser.passes_openPattern (Pattern.Parser.passes_basePattern fuel) fuel
  refine hpattern.yields_bind hs fun p wp s₁ hp hs₁ => ?_
  refine (passes_word rfl).discard.yields_bind hs₁ ?_
  rintro _ _ s₂ ⟨arrow, -, rfl⟩ hs₂
  refine hexpr.yields_bind hs₂ fun body wb s₃ hbody hs₃ => ?_
  exact yields_pure ⟨wp ++ arrow :: wb, by simpa using hs₃, wp, arrow, wb, rfl, hp, hbody⟩

theorem reads_caseExpr : Reads text (caseExpr fuel expr) := by
  refine .ordered fun s passed hs => ?_
  refine (passes_word rfl).yields_bind hs ?_
  rintro l _ s₁ ⟨hl, rfl⟩ hs₁
  refine hexpr.yields_bind hs₁ fun subject wsub s₂ hsubject hs₂ => ?_
  refine (passes_word rfl).yields_bind hs₂ ?_
  rintro ofWord _ s₃ ⟨-, rfl⟩ hs₃
  refine (passes_block (passes_caseOption hexpr fuel) _ fuel).yields_bind hs₃
    fun options wo s₄ hoptions hs₄ => ?_
  refine yields_pure ⟨l :: (wsub ++ ofWord :: wo), by simpa using hs₄, fun hws => ?_⟩
  have hchildren : ∀ m ∈ Node.expr subject :: options.flatMap fun option =>
      [Node.pattern option.1, Node.expr option.2], m.Tree (wsub ++ ofWord :: wo) := by
    refine List.forall_mem_cons.2
      ⟨hsubject.tree.mono (List.subset_append_left wsub _), fun m hm => ?_⟩
    obtain ⟨option, hoption, hm⟩ := List.mem_flatMap.1 hm
    obtain ⟨_, ⟨wp, arrow, wb, rfl, hp, hbody⟩, hsub⟩ := hoptions.mem option hoption
    have hsubset : wp ++ arrow :: wb ⊆ wsub ++ ofWord :: wo :=
      fun x hx => by simp [hsub.subset hx]
    rcases List.mem_pair.1 hm with rfl | rfl
    · exact hp.tree.mono fun x hx => hsubset (by simp [hx])
    · exact hbody.tree.mono fun x hx => hsubset (by simp [hx])
  cases hlast : options.getLast? with
  | none =>
    obtain rfl := List.getLast?_eq_none_iff.1 hlast
    obtain rfl : wo = [] := hoptions.empty rfl
    refine Node.covers_headed hws (by simp [hl]) rfl ?_ ⟨ofWord, List.getLast?_concat, rfl⟩
      hchildren
    exact Words.between_word (hws.sublist (List.sublist_cons_self l _)) (by simp)
  | some option =>
    -- the words of its body are the last ones
    obtain ⟨_, ⟨wp, arrow, wb, rfl, hp, hbody⟩, front, rfl⟩ := hoptions.last option hlast
    have hsplit : wsub ++ ofWord :: (front ++ (wp ++ arrow :: wb)) =
      (wsub ++ ofWord :: (front ++ (wp ++ [arrow]))) ++ wb := by simp
    rw [hsplit] at hws hchildren ⊢
    exact Node.covers_keyword hws (by simp [hl]) hbody rfl hchildren

end Keywords

/-- **An expression.** -/
theorem reads_expr (table : OperatorTable) (fuel : Nat) : Reads text (expr table fuel) := by
  induction fuel with
  | zero => exact passes_exhausted
  | succ fuel ih =>
    intro s passed hs
    rw [expr]
    refine yields_peek_bind hs fun t s' hs' hseen hstands => ?_
    split
    · exact reads_letExpr ih fuel s' passed hs'
    · exact reads_condition ih s' passed hs'
    · exact reads_lambda ih fuel s' passed hs'
    · exact reads_caseExpr ih fuel s' passed hs'
    · split
      · exact reads_operatorSequence table ih fuel s' passed hs'
      · exact yields_fail hstands

/-- **An expression that is a whole text** covers all words of the text. -/
theorem yields_whole (table : OperatorTable) (fuel : Nat) :
    Yields text (whole table fuel) (.ofString text) fun e _ =>
      ∃ ts, tokenize text = .ok ts ∧ (Node.expr e).Covers (wordsOf ts) := by
  refine (reads_expr table fuel).yields_bind (TokenStream.passed_ofString text)
    fun e ws s he hs => ?_
  rw [List.nil_append] at hs
  refine yields_bind (yields_discard (yields_bind (yields_advance hs)
    (Q := fun _ _ => ∃ ts, tokenize text = .ok ts ∧ wordsOf ts = ws) ?_)) ?_
  · rintro t s' ⟨-, hstands, -, hend⟩
    split
    · rename_i ht
      exact yields_pure (hend ht)
    · exact yields_fail hstands
  · rintro _ s' ⟨_, ts, hts, rfl⟩
    exact yields_pure ⟨ts, hts, he⟩

end Expr.Parser

end CallByNeed

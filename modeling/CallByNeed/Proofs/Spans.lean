import CallByNeed.Proofs.Completion
import CallByNeed.Proofs.Spans.Parsers

/-!
# Spans

Every span that a text gives rise to is a true one (`Expr.spans_true`): both of its ends are where
counting the bytes, lines and columns of the text from its start puts them.

The spans of a tree nest, except that the brackets of lists do not count
(`Expr.nests_of_parseWith`).  The empty list at the end of a list reaches from bracket to bracket,
whereas the cells in front of it start with their elements.  So a list does not contain its own
end, and the span of a text that starts with a list does not start with the text
(`Expr.not_contains_of_parse`).
-/

namespace CallByNeed

open CallByNeed.Parser

/-- The tokens of a text know where they are, and so does an error instead of them. -/
def PlacedTokens (text : String) : Except LexError (List (Located Token)) → Prop
  | .ok ts => ∀ t ∈ ts, t.Placed text
  | .error err => err.Placed text

/-- All nodes of a tree cover stretches of the text, and an error instead of it knows where it
is. -/
def PlacedTree (text : String) : Except ParseError Expr → Prop
  | .ok e => ∀ n : Node, n.Within (.expr e) → n.span.IsStretch text ∧ n.span ≠ .unknown
  | .error err => err.Placed text

/-! ### Tokens -/

namespace Cursor

variable {text : String} {c : Cursor}

theorem IsIn.placedResult (h : c.IsIn text) : PlacedResult text c.next.1 := by
  cases hnext : c.next with
  | mk r c' =>
    cases r with
    | ok t => exact (h.placed hnext).1
    | error err => exact h.placed_error hnext

theorem IsIn.iterate (h : c.IsIn text) (n : Nat) :
    ((fun c : Cursor => c.next.2)^[n] c).IsIn text := by
  induction n generalizing c with
  | zero => exact h
  | succ n ih => exact ih (h.next rfl)

theorem IsIn.placedTokens (h : c.IsIn text) : PlacedTokens text c.tokens := by
  fun_induction tokens c with
  | case1 c err _ hnext => exact h.placed_error hnext
  | case2 c t _ hnext _ => exact List.forall_mem_singleton.2 (h.placed hnext).1
  | case3 c t c' hnext _ _ err herr ih =>
    have hrest := ih (h.next hnext)
    rwa [herr] at hrest
  | case4 c t c' hnext _ _ ts hts ih =>
    have hrest := ih (h.next hnext)
    rw [hts] at hrest
    exact List.forall_mem_cons.2 ⟨(h.placed hnext).1, hrest⟩

end Cursor

theorem Layout.IsIn.foldl_ask {text : String} {s : Layout} (h : s.IsIn text)
    (requests : List Layout.Request) : (requests.foldl Layout.ask s).IsIn text := by
  induction requests generalizing s with
  | nil => exact h
  | cons request requests ih => exact ih (h.ask request)

/-! ### Whole texts -/

namespace Expr

variable {table : OperatorTable} {text : String} {e : Expr}

theorem covers_of_parseWith (h : parseWith table text = .ok e) :
    ∃ ts, tokenize text = .ok ts ∧ (Node.expr e).Covers (wordsOf ts) := by
  obtain ⟨s, hrun⟩ := parseWith_eq_ok_iff.1 h
  exact (Parser.yields_whole table _ []).ok e s hrun

theorem stands_of_parseWith {err : ParseError} (h : parseWith table text = .error err) :
    err.Stands text :=
  (Parser.yields_whole table _ []).error _ (parseWith_eq_error_iff.1 h) err rfl

theorem placedTree_parseWith (table : OperatorTable) (text : String) :
    PlacedTree text (parseWith table text) := by
  cases h : parseWith table text with
  | error err => exact (stands_of_parseWith h).1
  | ok e =>
    obtain ⟨ts, hts, hcovers⟩ := covers_of_parseWith h
    have htokens : PlacedTokens text (tokenize text) := (Cursor.isIn_ofString text).placedTokens
    rw [hts] at htokens
    have hwords : ∀ w ∈ wordsOf ts, w.span.IsStretch text := by
      intro w hw
      obtain ⟨hw, hvisible⟩ := List.mem_filter.1 hw
      exact (Located.placed_iff hvisible).1 (htokens w hw)
    intro n hn
    have hstretch := (hcovers.tree n hn).1.isStretch hwords
    exact ⟨hstretch, hstretch.ne_unknown⟩

/-- **The nodes of a tree are fragments of its text.** -/
theorem exists_fragment_of_within (h : parseWith table text = .ok e) {n : Node}
    (hn : n.Within (.expr e)) : ∃ f : Fragment text, f.span = n.span := by
  obtain ⟨ts, hts, hcovers⟩ := covers_of_parseWith h
  refine (hcovers.tree n hn).1.exists_fragment fun w hw => ?_
  obtain ⟨hw, hvisible⟩ := List.mem_filter.1 hw
  obtain ⟨hplaced, hspot⟩ := (Cursor.isIn_ofString text).stands_tokens hts w hw
  exact ((Located.placed_iff hvisible).1 hplaced).exists_fragment hspot

/-- **Every span is true**, for every table and every text: those of what the lexer hands out, asked
as often as one likes, and of the tokens of the whole text; those of what a layout hands out,
whatever is asked of it before; and those of a tree, or of the error instead of it. -/
theorem spans_true (table : OperatorTable) (text : String) :
    (∀ n, PlacedResult text ((fun c : Cursor => c.next.2)^[n] (.ofString text)).next.1) ∧
      PlacedTokens text (tokenize text) ∧
      (∀ requests : List Layout.Request,
        PlacedResult text (requests.foldl Layout.ask (.ofString text)).next.1) ∧
      PlacedTree text (parseWith table text) := by
  have hcursor := Cursor.isIn_ofString text
  exact ⟨fun n => (hcursor.iterate n).placedResult, hcursor.placedTokens,
    fun requests => ((Layout.isIn_ofString text).foldl_ask requests).next.1,
    placedTree_parseWith table text⟩

/-- **Spans nest, except for the brackets of lists.**  The span of a node contains those of its
children, but a list cell starts behind the bracket with which an empty list at its end starts.  The
span of a whole text ends with its last word, and it starts with the first one that is not the
bracket of a list with elements. -/
theorem nests_of_parseWith (h : parseWith table text = .ok e) :
    (∀ n : Node, n.Within (.expr e) → ∀ c ∈ n.children, n.Nests c) ∧
      ∃ ts, tokenize text = .ok ts ∧
        (∃ w, Opening (wordsOf ts) w ∧ e.span.start = w.span.start) ∧
        ∃ w, (wordsOf ts).getLast? = some w ∧ e.span.stop = w.span.stop := by
  obtain ⟨ts, hts, hcovers⟩ := covers_of_parseWith h
  exact ⟨fun n hn => (hcovers.tree n hn).2, ts, hts, hcovers.start, hcovers.stop⟩

theorem nests_of_parseWith_case :
    let text := "case xs of [x, y] -> [f x, y]"
    ∃ e, parseWith .standard text = .ok e ∧
      (∀ n : Node, n.Within (.expr e) → ∀ c ∈ n.children, n.Nests c) ∧
        ∃ ts, tokenize text = .ok ts ∧
          (∃ w, Opening (wordsOf ts) w ∧ e.span.start = w.span.start) ∧
          ∃ w, (wordsOf ts).getLast? = some w ∧ e.span.stop = w.span.stop := by
  intro text
  obtain ⟨e, he⟩ := exists_of_isOk (r := parseWith .standard text) (by decide +kernel)
  exact ⟨e, he, nests_of_parseWith he⟩

/-- The list `[1]` starts with the `1`, whereas the empty list at its end starts with the bracket.
So a node need not contain its children. -/
theorem not_contains_of_parse :
    ¬ ∀ text e, parse text = .ok e →
      (∀ n : Node, n.Within (.expr e) → ∀ c ∈ n.children,
        n.span.start.index ≤ c.span.start.index ∧ c.span.stop.index ≤ n.span.stop.index) ∧
      ∃ ts first last, tokenize text = .ok ts ∧ (wordsOf ts).head? = some first ∧
        (wordsOf ts).getLast? = some last ∧ e.span.start = first.span.start ∧
        e.span.stop = last.span.stop := by
  intro h
  -- the root of the list starts with the `1`, and its last child with the bracket
  have hstarts : (parse "[1]").toOption.map (fun e =>
      (e.span.start.index, (Node.expr e).children.map (·.span.start.index))) =
        some (1, [1, 0]) := by decide +kernel
  obtain ⟨e, he⟩ := exists_of_isOk (r := parse "[1]") (by decide +kernel)
  obtain ⟨hroot, hchildren⟩ : e.span.start.index = 1 ∧
      (Node.expr e).children.map (·.span.start.index) = [1, 0] := by
    simpa [he, Except.toOption] using hstarts
  obtain ⟨c, hc, hstart⟩ : ∃ c ∈ (Node.expr e).children, c.span.start.index = 0 := by
    rw [← List.mem_map, hchildren]
    simp
  have hle : e.span.start.index ≤ c.span.start.index :=
    ((h "[1]" e he).1 (.expr e) (.self _) c hc).1
  omega

end Expr

end CallByNeed

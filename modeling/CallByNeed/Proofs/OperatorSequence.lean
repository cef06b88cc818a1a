import CallByNeed.Proofs.Lockstep
import CallByNeed.Proofs.OneLine
import CallByNeed.Proofs.Precedence
import CallByNeed.Proofs.Progress

/-!
# Operator sequences on a stream

`Follows` says which operators and operands stand on a stream behind a first operand, whatever their
precedences.  The parser of sequences reads them and groups them as `Sequence.resolve` does
(`run_sequenceMore`), with which the theory of valid trees applies to it: it yields the valid tree
of the sequence if there is one, and else names two operators that clash.  Fuel for the tokens that
are left lasts, since each operator takes one (`Follows.length_le`).
-/

namespace CallByNeed.Expr.Parser

open CallByNeed.Parser

/-- Operators of the table, each with the operand behind it, stand on the stream `s`, and `s'` is
behind them.  The last operand may be a keyword expression. -/
inductive Follows (table : OperatorTable) (operand expr : CallByNeed.Parser Expr) :
    TokenStream → List (Waiting × Expr) → TokenStream → Prop where
  | done {s s' : TokenStream} {t : Located Token} (hpeek : s.peek = .ok (t, s'))
      (ht : ∀ symbol, t.value ≠ .operator symbol) : Follows table operand expr s [] s'
  | more {s s₁ s₂ s₃ s₄ s' : TokenStream} {t t' u : Located Token} {symbol : String} {op : Operator}
      {e : Expr} {rest : List (Waiting × Expr)} (hpeek : s.peek = .ok (t, s₁))
      (ht : t.value = .operator symbol) (hop : table.get? symbol = some op)
      (htake : s₁.advance = .ok (t', s₂)) (hnext : s₂.peek = .ok (u, s₃))
      (hu : u.value.beginsBase = true) (hoperand : operand.run s₃ = .ok (e, s₄))
      (hrest : Follows table operand expr s₄ rest s') :
      Follows table operand expr s ((⟨symbol, op, t.span⟩, e) :: rest) s'
  | last {s s₁ s₂ s₃ s' : TokenStream} {t t' u : Located Token} {symbol : String} {op : Operator}
      {e : Expr} (hpeek : s.peek = .ok (t, s₁)) (ht : t.value = .operator symbol)
      (hop : table.get? symbol = some op) (htake : s₁.advance = .ok (t', s₂))
      (hnext : s₂.peek = .ok (u, s₃)) (hu : u.value.beginsBase = false)
      (hexpr : expr.run s₃ = .ok (e, s')) :
      Follows table operand expr s [(⟨symbol, op, t.span⟩, e)] s'

/-! ### Runs, step by step -/

section Run

variable {α β : Type} {s s' : TokenStream}

theorem run_bind_ok {x : CallByNeed.Parser α} {f : α → CallByNeed.Parser β} {a : α}
    (h : x.run s = .ok (a, s')) : (x >>= f).run s = (f a).run s' := by
  show (andThen x f).run s = _
  rw [run, h]

theorem run_bind_error {x : CallByNeed.Parser α} {f : α → CallByNeed.Parser β} {why : Failure}
    (h : x.run s = .error why) : (x >>= f).run s = .error why := by
  show (andThen x f).run s = _
  rw [run, h]

theorem run_peek {t : Located Token} (h : s.peek = .ok (t, s')) :
    (CallByNeed.Parser.peek).run s = .ok (t, s') := by
  rw [run, h]
  rfl

theorem run_advance {t : Located Token} (h : s.advance = .ok (t, s')) :
    (CallByNeed.Parser.advance).run s = .ok (t, s') := by
  rw [run, h]
  rfl

theorem run_discard_advance {t : Located Token} (h : s.advance = .ok (t, s')) :
    (discard CallByNeed.Parser.advance).run s = .ok ((), s') :=
  run_bind_ok (run_advance h)

theorem run_ofExcept (r : Except Failure α) : (ofExcept r).run s = r.map (·, s) := by
  cases r <;> rfl

theorem exists_of_run_bind {x : CallByNeed.Parser α} {f : α → CallByNeed.Parser β} {b : β}
    (h : (x >>= f).run s = .ok (b, s')) :
    ∃ a s₁, x.run s = .ok (a, s₁) ∧ (f a).run s₁ = .ok (b, s') := by
  change (andThen x f).run s = _ at h
  rw [run] at h
  cases hx : x.run s with
  | error why => simp [hx] at h
  | ok result =>
    obtain ⟨a, s₁⟩ := result
    rw [hx] at h
    exact ⟨a, s₁, rfl, h⟩

theorem peek_of_run {t : Located Token} (h : (CallByNeed.Parser.peek).run s = .ok (t, s')) :
    s.peek = .ok (t, s') := by
  rw [run] at h
  cases hpeek : s.peek with
  | error e => simp [hpeek, ofStream] at h
  | ok result => simpa [hpeek, ofStream] using h

theorem advance_of_run {t : Located Token} (h : (CallByNeed.Parser.advance).run s = .ok (t, s')) :
    s.advance = .ok (t, s') := by
  rw [run] at h
  cases hadvance : s.advance with
  | error e => simp [hadvance, ofStream] at h
  | ok result => simpa [hadvance, ofStream] using h

end Run

/-! ### Operands and operators take tokens -/

section Progress

variable {expr : CallByNeed.Parser Expr} {fuel : Nat} {s s' : TokenStream} {e : Expr}

/-- **A base expression takes a token.** -/
theorem size_baseExpr_lt (h : (baseExpr fuel expr).run s = .ok (e, s')) : s'.size < s.size := by
  obtain ⟨t, s₁, hpeek, h⟩ := exists_of_run_bind h
  replace hpeek := peek_of_run hpeek
  have hle := TokenStream.size_peek_le hpeek
  -- a leaf takes the token that has been looked at
  have hleaf {make : Span → Expr} (ht : t.value ≠ .eof) (h : (leaf make).run s₁ = .ok (e, s')) :
      s'.size < s₁.size := by
    obtain ⟨u, s₂, hadvance, h⟩ := exists_of_run_bind h
    replace hadvance := advance_of_run hadvance
    obtain rfl := eq_of_seen (TokenStream.lookahead_of_peek hpeek) hadvance
    obtain ⟨-, rfl⟩ : _ ∧ s₂ = s' := by simpa [pure, run] using h
    exact TokenStream.size_advance_lt hadvance ht
  -- of a bracketed form it is enough that the opening bracket is taken
  have hbrackets {opening closing : Token} {make : List Expr × Span → Expr} (ho : opening ≠ .eof)
      (h : (delimited fuel opening closing expr >>= fun items => pure (make items)).run s₁ =
        .ok (e, s')) : s'.size < s₁.size := by
    obtain ⟨items, s₂, hitems, h⟩ := exists_of_run_bind h
    obtain ⟨-, rfl⟩ : _ ∧ s₂ = s' := by simpa [pure, run] using h
    obtain ⟨left, s₃, hopen, hitems⟩ := exists_of_run_bind hitems
    obtain ⟨u, s₄, hadvance, hopen⟩ := exists_of_run_bind hopen
    replace hadvance := advance_of_run hadvance
    have hrest := size_le_of_run _ hitems
    split at hopen
    · rename_i hu
      obtain ⟨-, rfl⟩ : _ ∧ s₄ = s₃ := by simpa [pure, run] using hopen
      have hlt := TokenStream.size_advance_lt hadvance (by rw [hu]; exact ho)
      omega
    · simp [failUnexpected, fail, run] at hopen
  -- every way to begin a base expression is one of the two
  split at h
  case h_1 | h_2 | h_3 =>
    rename_i ht
    exact Nat.lt_of_lt_of_le (hleaf (by simp [ht]) h) hle
  · exact Nat.lt_of_lt_of_le (hbrackets (by decide) h) hle
  · exact Nat.lt_of_lt_of_le (hbrackets (by decide) h) hle
  · simp [failUnexpected, fail, run] at h

theorem size_application_lt (h : (application fuel expr).run s = .ok (e, s')) :
    s'.size < s.size := by
  obtain ⟨func, s₁, hbase, h⟩ := exists_of_run_bind h
  exact Nat.lt_of_le_of_lt (size_le_of_run _ h) (size_baseExpr_lt hbase)

/-- **Each operator takes a token.** -/
theorem Follows.length_le {table : OperatorTable} {operand : CallByNeed.Parser Expr}
    {more : List (Waiting × Expr)} (h : Follows table operand expr s more s') :
    more.length ≤ s.size := by
  induction h with
  | done => exact Nat.zero_le _
  | more hpeek ht hop htake hnext hu hoperand hrest ih =>
    obtain rfl := eq_of_seen (TokenStream.lookahead_of_peek hpeek) htake
    have h₁ := TokenStream.size_peek_le hpeek
    have h₂ := TokenStream.size_advance_lt htake (by simp [ht])
    have h₃ := TokenStream.size_peek_le hnext
    have h₄ := size_le_of_run _ hoperand
    rw [List.length_cons]
    omega
  | last hpeek ht hop htake =>
    obtain rfl := eq_of_seen (TokenStream.lookahead_of_peek hpeek) htake
    have h₁ := TokenStream.size_peek_le hpeek
    have h₂ := TokenStream.size_advance_lt htake (by simp [ht])
    rw [List.length_singleton]
    omega

end Progress

variable {table : OperatorTable} {operand expr : CallByNeed.Parser Expr} {s s' : TokenStream}
  {more : List (Waiting × Expr)}

/-- **The parser groups what follows as the two stacks do.** -/
theorem run_sequenceMore (h : Follows table operand expr s more s') {fuel : Nat}
    (hfuel : more.length < fuel) (operators : List Waiting) (operands : List Expr) :
    (sequenceMore table operand expr fuel operators operands).run s =
      (Sequence.resolve Waiting.complete operators operands more).map (·, s') := by
  induction h generalizing fuel operators operands with
  | done hpeek ht =>
    obtain ⟨fuel, rfl⟩ : ∃ n, fuel = n + 1 := ⟨fuel - 1, by omega⟩
    rw [sequenceMore, run_bind_ok (run_peek hpeek)]
    split
    · rename_i symbol hsymbol
      exact absurd hsymbol (ht symbol)
    · exact run_ofExcept _
  | more hpeek ht hop htake hnext hu hoperand hrest ih =>
    rw [List.length_cons] at hfuel
    obtain ⟨fuel, rfl⟩ : ∃ n, fuel = n + 1 := ⟨fuel - 1, by omega⟩
    rw [sequenceMore, run_bind_ok (run_peek hpeek)]
    simp only [ht, hop]
    rw [run_bind_ok (run_discard_advance htake), Sequence.resolve]
    -- the stacks are reduced before the operand behind the operator is read
    cases hreduce : Sequence.reduceFor Waiting.complete _ _ operators operands with
    | error why => exact run_bind_error rfl
    | ok pair =>
      obtain ⟨operators', operands'⟩ := pair
      rw [run_bind_ok (a := (operators', operands')) rfl, run_bind_ok (run_peek hnext), if_pos hu,
        run_bind_ok hoperand]
      exact ih (by omega) _ _
  | last hpeek ht hop htake hnext hu hexpr =>
    obtain ⟨fuel, rfl⟩ : ∃ n, fuel = n + 1 := ⟨fuel - 1, by omega⟩
    rw [sequenceMore, run_bind_ok (run_peek hpeek)]
    simp only [ht, hop]
    rw [run_bind_ok (run_discard_advance htake), Sequence.resolve]
    cases hreduce : Sequence.reduceFor Waiting.complete _ _ operators operands with
    | error why => exact run_bind_error rfl
    | ok pair =>
      obtain ⟨operators', operands'⟩ := pair
      rw [run_bind_ok (a := (operators', operands')) rfl, run_bind_ok (run_peek hnext),
        if_neg (by simp [hu]), run_bind_ok hexpr]
      exact run_ofExcept _

/-- The parser of sequences groups a sequence as the two stacks do. -/
theorem run_operatorSequence {fuel : Nat} {e : Expr} {s₁ : TokenStream}
    (hfirst : (application fuel expr).run s = .ok (e, s₁))
    (hmore : Follows table (application fuel expr) expr s₁ more s') (hfuel : s.size ≤ fuel) :
    (operatorSequence table fuel expr).run s =
      (Sequence.resolve Waiting.complete [] [e] more).map (·, s') := by
  have hlt := size_application_lt hfirst
  have hle := hmore.length_le
  rw [operatorSequence, run_bind_ok hfirst]
  exact run_sequenceMore hmore (by omega) [] [e]

/-- What the stacks make of a sequence is what they make of its trees. -/
theorem resolve_eq_map (e : Expr) (more : List (Waiting × Expr)) :
    Sequence.resolve Waiting.complete [] [e] more =
      (Sequence.resolve OperatorTree.node [] [.operand e]
        (more.map (Prod.map id .operand))).map OperatorTree.expr := by
  have hmap := @Sequence.resolve_map _ _ OperatorTree.node Waiting.complete OperatorTree.expr
    (fun _ _ _ => rfl) [] [.operand e] (more.map (Prod.map id .operand))
  rw [← hmap]
  simp [Function.comp_def, Prod.map, OperatorTree.expr]

/-- Outside of all blocks a token of the text is seen as it is. -/
theorem peek_outside {cs rest : List Char} {p q : Position} {t : Token} {span : Span} {fresh : Bool}
    (h : Cursor.next ⟨cs, p⟩ = (.ok ⟨t, span⟩, ⟨rest, q⟩)) (hline : t ≠ .newline) :
    TokenStream.peek ⟨⟨⟨cs, p⟩, [], [], false, fresh⟩, none⟩ =
      .ok (⟨t, span⟩, ⟨⟨⟨rest, q⟩, [], [], t.opensBlock, t = .eof && fresh⟩, some ⟨t, span⟩⟩) := by
  by_cases heof : t = .eof
  · subst heof
    have hnext := Layout.next_of_eof (s := ⟨⟨cs, p⟩, [], [], false, fresh⟩) rfl h rfl
    simp [TokenStream.peek, TokenStream.pull, hnext, Except.map, Layout.acceptEnd, Layout.mark,
      Layout.dequeue, Token.opensBlock]
  · have hnext := Layout.next_of_token (s := ⟨⟨cs, p⟩, [], [], false, fresh⟩) rfl h hline heof
    have haccept := Layout.accept_of_line (s := ⟨⟨rest, q⟩, [], [], false, fresh⟩) (t := ⟨t, span⟩)
      rfl (.inr rfl) fun _ => rfl
    simp only at hnext
    rw [haccept] at hnext
    simp [TokenStream.peek, TokenStream.pull, hnext, Except.map, Layout.enqueue, Layout.dequeue,
      heof]

/-- A number in front of something that is no argument is an operand. -/
theorem run_application_integer {fuel n : Nat} {span : Span} {u : Located Token}
    {s₁ s₂ : TokenStream} (hseen : s.peek = .ok (⟨.integer n, span⟩, s₁))
    (hnext : { s₁ with lookahead := none }.peek = .ok (u, s₂)) (hu : u.value.beginsBase = false) :
    (application (fuel + 1) expr).run s = .ok (.integer span n, s₂) := by
  have hlookahead := TokenStream.lookahead_of_peek hseen
  have hbase : (baseExpr (fuel + 1) expr).run s =
      .ok (.integer span n, { s₁ with lookahead := none }) := by
    rw [baseExpr, run_bind_ok (run_peek hseen)]
    have hadvance : s₁.advance = .ok (⟨.integer n, span⟩, { s₁ with lookahead := none }) := by
      rw [TokenStream.advance, hlookahead]
    exact run_bind_ok (run_advance hadvance)
  rw [application, run_bind_ok hbase, arguments, run_bind_ok (run_peek hnext),
    if_neg (by simp [hu])]
  rfl

/-- **An operator sequence is read as the tree that precedences and associativities dictate.**  The
sequence is a first operand `e` and what follows it on the stream.  It has at most one valid tree.
If it has one, the parser yields the expression of that tree; if not, it fails and names two
operators of one precedence that do not agree, with only tighter ones between them.  Whatever the
text, no operator ever finds its operands missing. -/
theorem operatorSequence_spec (table : OperatorTable) (fuel : Nat) (expr : CallByNeed.Parser Expr)
    {s s₁ s' : TokenStream} {e : Expr} {more : List (Waiting × Expr)}
    (hfirst : (application fuel expr).run s = .ok (e, s₁))
    (hmore : Follows table (application fuel expr) expr s₁ more s') (hfuel : s.size ≤ fuel) :
    (∀ t t' : OperatorTree, t.Valid → t.first = e → t.more = more →
      t'.Valid → t'.first = e → t'.more = more → t = t') ∧
    (∀ t : OperatorTree, t.Valid → t.first = e → t.more = more →
      (operatorSequence table fuel expr).run s = .ok (t.expr, s')) ∧
    ((¬∃ t : OperatorTree, t.Valid ∧ t.first = e ∧ t.more = more) →
      ∃ err, (operatorSequence table fuel expr).run s = .error (.error err) ∧
        Sequence.Conflict (more.map Prod.fst) err) ∧
    ∀ fuel text, (whole table fuel).run (TokenStream.ofString text) ≠ .error .outOfStep := by
  have hvalid {t : OperatorTree} (ht : t.Valid) (he : t.first = e) (hm : t.more = more) :
      Sequence.resolve OperatorTree.node [] [.operand e] (more.map (Prod.map id .operand)) =
        .ok t := by
    rw [← he, ← hm]
    exact Sequence.resolve_of_valid ht
  refine ⟨?_, ?_, ?_, ?_⟩
  · -- both trees are what the stacks yield
    intro t t' ht he hm ht' he' hm'
    have heq := (hvalid ht he hm).symm.trans (hvalid ht' he' hm')
    exact Except.ok.inj heq
  · -- a valid tree is what the stacks yield, and the parser follows them
    intro t ht he hm
    rw [run_operatorSequence hfirst hmore hfuel, resolve_eq_map, hvalid ht he hm]
    rfl
  · -- without a valid tree the stacks come to a conflict, and so does the parser
    intro hnone
    rcases (Sequence.Stacked.one (t := .operand e) trivial).resolve more with
      ⟨t, -, ht, he, hm⟩ | ⟨err, herr, hconflict⟩
    · exact absurd ⟨t, ht, he, hm⟩ hnone
    · refine ⟨err, ?_, hconflict⟩
      rw [run_operatorSequence hfirst hmore hfuel, resolve_eq_map, herr]
      rfl
  · intro fuel text hrun
    have hkeeps := keeps_whole table fuel [] _ (TokenStream.inStep_ofString text)
    exact (hkeeps.error _ hrun).1 rfl

/-- `1-2*3` is read as the difference of `1` and the product of `2` and `3`. -/
theorem operatorSequence_spec_difference :
    let at_ (i j : Nat) : Span := .between ⟨i, 1, i + 1⟩ ⟨j, 1, j + 1⟩
    (TokenStream.ofString "1-2*3").size ≤ 25 ∧
      ∃ s', (operatorSequence .standard 25 (Parser.expr .standard 25)).run
        (TokenStream.ofString "1-2*3") =
          .ok (.binary (at_ 0 5) .sub (.integer (at_ 0 1) 1)
            (.binary (at_ 2 5) .mul (.integer (at_ 2 3) 2) (.integer (at_ 4 5) 3)), s') := by
  intro at_
  -- the tokens, in the order in which they are seen
  have hone := @peek_outside ['1', '-', '2', '*', '3'] ['-', '2', '*', '3'] ⟨0, 1, 1⟩ ⟨1, 1, 2⟩
    (.integer 1) (at_ 0 1) true (by rfl) (by simp)
  have hminus := @peek_outside ['-', '2', '*', '3'] ['2', '*', '3'] ⟨1, 1, 2⟩ ⟨2, 1, 3⟩
    (.operator "-") (at_ 1 2) false (by rfl) (by simp)
  have htwo := @peek_outside ['2', '*', '3'] ['*', '3'] ⟨2, 1, 3⟩ ⟨3, 1, 4⟩
    (.integer 2) (at_ 2 3) false (by rfl) (by simp)
  have htimes := @peek_outside ['*', '3'] ['3'] ⟨3, 1, 4⟩ ⟨4, 1, 5⟩
    (.operator "*") (at_ 3 4) false (by rfl) (by simp)
  have hthree := @peek_outside ['3'] [] ⟨4, 1, 5⟩ ⟨5, 1, 6⟩
    (.integer 3) (at_ 4 5) false (by rfl) (by simp)
  have hend := @peek_outside [] [] ⟨5, 1, 6⟩ ⟨5, 1, 6⟩ .eof (.point ⟨5, 1, 6⟩) false (by rfl)
    (by simp)
  have hseen {s s' : TokenStream} {t : Located Token} (h : s.peek = .ok (t, s')) :
      s'.peek = .ok (t, s') := TokenStream.peek_of_lookahead (TokenStream.lookahead_of_peek h)
  have hfirst := @run_application_integer (Parser.expr .standard 25) _ 24 _ _ _ _ _ hone hminus rfl
  have hsecond := @run_application_integer (Parser.expr .standard 25) _ 24 _ _ _ _ _
    (hseen htwo) htimes rfl
  have hthird := @run_application_integer (Parser.expr .standard 25) _ 24 _ _ _ _ _
    (hseen hthree) hend rfl
  have hdone : Follows .standard (application 25 (Parser.expr .standard 25))
      (Parser.expr .standard 25) _ [] _ := .done (hseen hend) (by simp)
  have hproduct := Follows.more (hseen htimes) rfl rfl rfl hthree rfl hthird hdone
  have hmore := Follows.more (hseen hminus) rfl rfl rfl htwo rfl hsecond hproduct
  have hsize : (TokenStream.ofString "1-2*3").size ≤ 25 := Nat.le_refl 25
  have hspec := operatorSequence_spec .standard 25 (Parser.expr .standard 25) hfirst hmore hsize
  let t : OperatorTree := .node ⟨"-", ⟨6, .left, .binary .sub⟩, at_ 1 2⟩
    (.operand (.integer (at_ 0 1) 1))
    (.node ⟨"*", ⟨7, .left, .binary .mul⟩, at_ 3 4⟩ (.operand (.integer (at_ 2 3) 2))
      (.operand (.integer (at_ 4 5) 3)))
  have hvalid : t.Valid := by
    simp [t, OperatorTree.Valid, OperatorTree.root?, Waiting.HoldsRight, Waiting.precedence]
  exact ⟨hsize, _, hspec.2.1 t hvalid rfl rfl⟩

end CallByNeed.Expr.Parser

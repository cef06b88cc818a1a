import CallByNeed.Proofs.OperatorSequence

/-!
# Every turn of a loop takes a token

`Parser.taken` lists the tokens that a run takes.  Those before the end of the text are no more than
the size of the stream (`Parser.count_taken_le`), also if block tokens are among them and blocks are
closed on the way.

A loop makes one turn after the other (`Parser.iterate`).  A turn leaves the loop with a value or
goes on with another state.  The parsers that repeat are loops: items between commas, the items of a
block, the parts of an open pattern, arguments, and operators with their operands.  For each of them
one turn is stated here (`Parser.commaTurn`, …), the parser is shown to be its loop, and a turn that
goes on is shown to take a token before the end of the text.
-/

namespace CallByNeed

namespace Parser

open Expr.Parser (exists_of_run_bind peek_of_run advance_of_run)

variable {α β σ : Type} {s s' : TokenStream}

/-! ### The tokens that a run takes -/

/-- The tokens that a run takes, also if it fails. -/
def taken {α : Type} : Parser α → TokenStream → List (Located Token)
  | done _, _ | stop _, _ | peek, _ | closeInnermost, _ => []
  | advance, s =>
    match s.advance with
    | .ok (t, _) => [t]
    | .error _ => []
  | within x, s => x.taken s
  | andThen x f, s =>
    x.taken s ++
      match x.run s with
      | .ok (a, s) => (f a).taken s
      | .error _ => []

theorem taken_bind_ok {x : Parser α} {f : α → Parser β} {a : α} (h : x.run s = .ok (a, s')) :
    (x >>= f).taken s = x.taken s ++ (f a).taken s' := by
  show (andThen x f).taken s = _
  rw [taken, h]

/-- **A run takes finitely many tokens**: those before the end of the text are counted in the size
of the stream, and what is left behind the run is counted as well. -/
theorem count_taken_add_le (x : Parser α) (s : TokenStream) :
    (x.taken s).countP Layout.isInner + ((x.run s).toOption.elim 0 fun r => r.2.size) ≤
      s.size := by
  induction x generalizing s with
  | done a => simp [taken, run, Except.toOption]
  | stop why => simp [taken, run, Except.toOption]
  | peek =>
    rw [run]
    cases hpeek : s.peek with
    | error e => simp [taken, ofStream, Except.toOption]
    | ok result => simpa [taken, ofStream, Except.toOption] using TokenStream.size_peek_le hpeek
  | advance =>
    -- the token that is taken makes the stream smaller by what it counts
    rw [run, taken]
    cases hadvance : s.advance with
    | error e => simp [ofStream, Except.toOption]
    | ok result =>
      have hle := TokenStream.size_advance hadvance
      simp only [ofStream, Except.toOption, Option.elim_some]
      omega
  | closeInnermost => simpa [taken, run, Except.toOption] using s.size_closeInnermost_le
  | within x ih =>
    rw [taken, run]
    exact ih s
  | andThen x f ihx ihf =>
    -- what the first parser leaves is what the second one starts with
    have hx := ihx s
    rw [taken, run]
    cases hrun : x.run s with
    | error why => simpa [hrun, Except.toOption] using hx
    | ok result =>
      have hf := ihf result.1 result.2
      rw [hrun] at hx
      simp only [Except.toOption, Option.elim_some] at hx
      dsimp only
      rw [List.countP_append]
      omega

/-- If `P` holds of its value, the run takes a token before the end of the text. -/
def TakesAt (P : α → Prop) (x : Parser α) (s : TokenStream) : Prop :=
  ∀ a s', x.run s = .ok (a, s') → P a → ∃ t ∈ x.taken s, t.value ≠ .eof

/-- Every run takes a token before the end of the text. -/
def Takes (x : Parser α) : Prop :=
  ∀ s, TakesAt (fun _ => True) x s

section Takes

variable {P : α → Prop} {x : Parser α} {f : α → Parser β}

/-- Taking a token makes the stream smaller. -/
theorem TakesAt.size_lt {a : α} (h : TakesAt P x s) (hrun : x.run s = .ok (a, s')) (ha : P a) :
    s'.size < s.size := by
  obtain ⟨t, ht, heof⟩ := h a s' hrun ha
  have hle := count_taken_add_le x s
  have hpos : 0 < (x.taken s).countP Layout.isInner :=
    List.countP_pos_iff.2 ⟨t, ht, by simpa [Layout.isInner] using heof⟩
  rw [hrun] at hle
  simp only [Except.toOption, Option.elim_some] at hle
  omega

theorem takesAt_stop (why : Failure) : TakesAt P (stop why) s := by
  intro a s' hrun
  simp [run] at hrun

theorem takesAt_pure {a : α} (h : ¬ P a) : TakesAt P (pure a) s := by
  intro b s' hrun hb
  obtain ⟨rfl, -⟩ : a = b ∧ s = s' := by simpa [pure, run] using hrun
  exact absurd hb h

/-- The first step takes a token. -/
theorem takesAt_bind_left {P : β → Prop} (hx : TakesAt (fun _ => True) x s) :
    TakesAt P (x >>= f) s := by
  intro b s' hrun _
  obtain ⟨a, s₁, hrun₁, -⟩ := exists_of_run_bind hrun
  obtain ⟨t, ht, heof⟩ := hx a s₁ hrun₁ trivial
  exact ⟨t, by rw [taken_bind_ok hrun₁]; exact List.mem_append_left _ ht, heof⟩

/-- A later step takes a token. -/
theorem takesAt_bind_right {P : β → Prop}
    (hf : ∀ a s', x.run s = .ok (a, s') → TakesAt P (f a) s') : TakesAt P (x >>= f) s := by
  intro b s' hrun hb
  obtain ⟨a, s₁, hrun₁, hrun₂⟩ := exists_of_run_bind hrun
  obtain ⟨t, ht, heof⟩ := hf a s₁ hrun₁ b s' hrun₂ hb
  exact ⟨t, by rw [taken_bind_ok hrun₁]; exact List.mem_append_right _ ht, heof⟩

/-- A token is looked at, and the rest of the run may take it. -/
theorem takesAt_peek_bind {P : β → Prop} {f : Located Token → Parser β}
    (hf : ∀ t s', s'.lookahead = some t → TakesAt P (f t) s') : TakesAt P (peek >>= f) s :=
  takesAt_bind_right fun t s' hrun => hf t s' (TokenStream.lookahead_of_peek (peek_of_run hrun))

/-- What has been seen before the end is taken. -/
theorem takesAt_advance {P : Located Token → Prop} {t : Located Token}
    (hseen : s.lookahead = some t) (ht : t.value ≠ .eof) : TakesAt P advance s := by
  intro u s' hrun _
  have hadvance := advance_of_run hrun
  obtain rfl := eq_of_seen hseen hadvance
  exact ⟨t, by simp [taken, hadvance], ht⟩

theorem takes_expect {expected : Token} (h : expected ≠ .eof) : Takes (expect expected) := by
  intro s t s' hrun _
  obtain ⟨u, s₁, hadvance, hrun⟩ := exists_of_run_bind hrun
  split at hrun
  · rename_i hu
    refine ⟨u, ?_, by rwa [hu]⟩
    rw [expect, taken_bind_ok hadvance]
    exact List.mem_append_left _ (by simp [taken, advance_of_run hadvance])
  · simp [failUnexpected, fail, run] at hrun

theorem takes_discard (h : Takes x) : Takes (discard x) :=
  fun s => takesAt_bind_left (h s)

end Takes

/-! ### Loops -/

/-- Makes one turn after the other: `.inl` goes on with another state, `.inr` leaves the loop. -/
def iterate (turn : σ → Parser (σ ⊕ β)) : Nat → σ → Parser β
  | 0, _ => exhausted
  | fuel + 1, state => turn state >>= Sum.elim (iterate turn fuel) pure

/-- **A turn that goes on takes a token** before the end of the text. -/
def TakesTurns (turn : σ → Parser (σ ⊕ β)) : Prop :=
  ∀ state s, TakesAt (fun result => result.isLeft = true) (turn state) s

/-! Runs do not depend on how steps are put into brackets. -/

section Run

variable {γ : Type}

theorem run_assoc (x : Parser α) (f : α → Parser β) (g : β → Parser γ) (s : TokenStream) :
    (x >>= f >>= g).run s = (x >>= fun a => f a >>= g).run s := by
  show (andThen (andThen x f) g).run s = (andThen x fun a => andThen (f a) g).run s
  simp only [run]
  cases x.run s <;> rfl

theorem run_bind_congr {x : Parser α} {f g : α → Parser β}
    (h : ∀ a s, (f a).run s = (g a).run s) : (x >>= f).run s = (x >>= g).run s := by
  show (andThen x f).run s = (andThen x g).run s
  simp only [run, h]

theorem run_pure_bind (a : α) (f : α → Parser β) (s : TokenStream) :
    (pure a >>= f).run s = (f a).run s :=
  rfl

theorem run_bind_pure (x : Parser α) (s : TokenStream) : (x >>= pure).run s = x.run s := by
  show (andThen x pure).run s = _
  rw [run]
  cases x.run s <;> rfl

/-- An item is put behind those before it in the loop, and in front of those that follow in the
parser that is the loop. -/
theorem run_item (item : Parser α) (items : List α) (loop : List α → Parser (List α))
    (rest : Parser (List α))
    (hloop : ∀ x s, (loop (items ++ [x])).run s =
      (rest >>= fun xs => pure (items ++ [x] ++ xs)).run s) (s : TokenStream) :
    ((do return Sum.inl (items ++ [← item])) >>= Sum.elim loop pure).run s =
      ((do let x ← item; let xs ← rest; return x :: xs) >>= fun xs =>
        pure (items ++ xs)).run s := by
  rw [run_assoc, run_assoc]
  refine run_bind_congr fun x s => ?_
  rw [run_pure_bind, run_assoc]
  refine (hloop x s).trans (run_bind_congr fun xs s => ?_)
  rw [run_pure_bind, List.append_assoc, List.singleton_append]

end Run

/-- One turn with an item between commas, behind the items `items`. -/
def commaTurn (item : Parser α) (close : Token) (items : List α) :
    Parser (List α ⊕ List α) := do
  if (← peek).value = close then return .inr items
  else
    if !items.isEmpty then discard <| expect .comma
    let x ← item
    return .inl (items ++ [x])

/-- **Items between commas are read in a loop.** -/
theorem run_iterate_commaTurn (item : Parser α) (close : Token) (fuel : Nat) (items : List α)
    (s : TokenStream) :
    (iterate (commaTurn item close) fuel items).run s =
      (commaItems item close fuel items.isEmpty >>= fun xs => pure (items ++ xs)).run s := by
  induction fuel generalizing items s with
  | zero => rfl
  | succ fuel ih =>
    rw [iterate, commaItems, commaTurn, run_assoc, run_assoc]
    refine run_bind_congr fun t s => ?_
    have hitem := run_item item items _ (commaItems item close fuel false) fun x s => by
      rw [ih, show (items ++ [x]).isEmpty = false by simp]
    dsimp only
    split
    · rw [run_pure_bind, run_pure_bind, List.append_nil]
      rfl
    · split
      · rw [run_assoc, run_assoc]
        exact run_bind_congr fun _ s => hitem s
      · exact hitem s

theorem takesTurns_commaTurn {item : Parser α} (hitem : Takes item) (close : Token) :
    TakesTurns (commaTurn item close) := by
  intro items s
  refine takesAt_peek_bind fun t s _ => ?_
  split
  · exact takesAt_pure (by simp)
  · split
    · exact takesAt_bind_left (takes_discard (takes_expect (by decide)) s)
    · exact takesAt_bind_left (hitem s)

/-- One turn with an item of a block, behind the items `items`. -/
def blockTurn (item : Parser α) (begins : Token → Bool) (items : List α) :
    Parser (List α ⊕ List α) := do
  let t ← peek
  if t.value = .blockEnd then
    discard advance
    return .inr items
  else if t.value = .blockDelim && !items.isEmpty then
    discard advance
    return .inl (items ++ [← item])
  else if items.isEmpty && begins t.value then return .inl (items ++ [← item])
  else if ← closeInnermost then return .inr items
  else failUnexpected "end of block" t

/-- **The items of a block are read in a loop.** -/
theorem run_iterate_blockTurn (item : Parser α) (begins : Token → Bool) (fuel : Nat)
    (items : List α) (s : TokenStream) :
    (iterate (blockTurn item begins) fuel items).run s =
      (blockItems item begins fuel items.isEmpty >>= fun xs => pure (items ++ xs)).run s := by
  induction fuel generalizing items s with
  | zero => rfl
  | succ fuel ih =>
    rw [iterate, blockItems, blockTurn, run_assoc, run_assoc]
    refine run_bind_congr fun t s => ?_
    -- an item goes behind those that have been read, and the loop takes another turn
    have hitem := run_item item items _ (blockItems item begins fuel false) fun x s => by
      rw [ih, show (items ++ [x]).isEmpty = false by simp]
    split
    · rw [run_assoc, run_assoc]
      refine run_bind_congr fun _ s => ?_
      rw [run_pure_bind, run_pure_bind, List.append_nil]
      rfl
    · split
      · rw [run_assoc, run_assoc]
        exact run_bind_congr fun _ s => hitem s
      · split
        · exact hitem s
        · rw [run_assoc, run_assoc]
          -- a block that cannot be closed stops both
          refine run_bind_congr fun closed s => ?_
          cases closed with
          | true =>
            rw [if_pos rfl, if_pos rfl, run_pure_bind, run_pure_bind, List.append_nil]
            rfl
          | false => rfl

theorem takesTurns_blockTurn {item : Parser α} (hitem : Takes item) (begins : Token → Bool) :
    TakesTurns (blockTurn item begins) := by
  intro items s
  refine takesAt_peek_bind fun t s hseen => ?_
  split
  · exact takesAt_bind_right fun _ s _ => takesAt_pure (by simp)
  · split
    · rename_i hdelim
      have ht : t.value = .blockDelim := by
        simp only [Bool.and_eq_true, decide_eq_true_eq] at hdelim
        exact hdelim.1
      exact takesAt_bind_left (takesAt_bind_left (takesAt_advance hseen (by simp [ht])))
    · split
      · exact takesAt_bind_left (hitem s)
      · refine takesAt_bind_right fun closed s _ => ?_
        split
        · exact takesAt_pure (by simp)
        · exact takesAt_stop _

end Parser

/-! ### Patterns -/

namespace Pattern.Parser

open CallByNeed.Parser

/-- One turn with a base pattern behind a colon, behind the patterns `patterns`. -/
def openTurn (base : CallByNeed.Parser Pattern) (patterns : List Pattern) :
    CallByNeed.Parser (List Pattern ⊕ List Pattern) := do
  let t ← peek
  match t.value with
  | .operator symbol =>
    if symbol ≠ ":" then fail (.operatorInPattern symbol t.span)
    else
      discard advance
      return .inl (patterns ++ [← base])
  | _ => return .inr patterns

/-- **The parts of an open pattern are read in a loop.** -/
theorem run_iterate_openTurn (base : CallByNeed.Parser Pattern) (fuel : Nat)
    (patterns : List Pattern) (s : TokenStream) :
    (iterate (openTurn base) fuel patterns).run s =
      (openMore base fuel >>= fun ps => pure (patterns ++ ps)).run s := by
  induction fuel generalizing patterns s with
  | zero => rfl
  | succ fuel ih =>
    rw [iterate, openMore, openTurn, run_assoc, run_assoc]
    refine run_bind_congr fun t s => ?_
    -- a pattern goes behind those that have been read, and the loop takes another turn
    have hitem := run_item base patterns _ (openMore base fuel) fun p s => ih (patterns ++ [p]) s
    have hleave : (pure (.inr patterns) >>= Sum.elim (iterate (openTurn base) fuel) pure).run s =
        (pure [] >>= fun ps => pure (patterns ++ ps) : CallByNeed.Parser (List Pattern)).run s := by
      rw [run_pure_bind, run_pure_bind, List.append_nil]
      rfl
    generalize t.value = value
    cases value with
    | operator symbol =>
      dsimp only
      split
      · rfl
      · rw [run_assoc, run_assoc]
        exact run_bind_congr fun _ s => hitem s
    | _ => exact hleave

theorem takesTurns_openTurn (base : CallByNeed.Parser Pattern) : TakesTurns (openTurn base) := by
  intro patterns s
  refine takesAt_peek_bind fun t s hseen => ?_
  split
  · rename_i symbol ht
    split
    · exact takesAt_stop _
    · exact takesAt_bind_left (takesAt_bind_left (takesAt_advance hseen (by simp [ht])))
  · exact takesAt_pure (by simp)

end Pattern.Parser

/-! ### Expressions -/

namespace Expr.Parser

open CallByNeed.Parser

/-- One turn with an argument of the function `func`. -/
def argumentTurn (base : CallByNeed.Parser Expr) (func : Expr) :
    CallByNeed.Parser (Expr ⊕ Expr) := do
  if (← peek).value.beginsBase then return .inl (func.applyTo (← base))
  else return .inr func

/-- **Arguments are read in a loop.** -/
theorem run_iterate_argumentTurn (base : CallByNeed.Parser Expr) (fuel : Nat) (func : Expr)
    (s : TokenStream) :
    (iterate (argumentTurn base) fuel func).run s = (arguments base fuel func).run s := by
  induction fuel generalizing func s with
  | zero => rfl
  | succ fuel ih =>
    rw [iterate, arguments, argumentTurn, run_assoc]
    refine run_bind_congr fun t s => ?_
    split
    · rw [run_assoc]
      refine run_bind_congr fun arg s => ?_
      rw [run_pure_bind]
      exact ih _ s
    · rfl

theorem takesTurns_argumentTurn {base : CallByNeed.Parser Expr} (hbase : Takes base) :
    TakesTurns (argumentTurn base) := by
  intro func s
  refine takesAt_peek_bind fun t s _ => ?_
  split
  · exact takesAt_bind_left (hbase s)
  · exact takesAt_pure (by simp)

/-- One turn with an operator and the operand behind it, with the operators and the operands that
wait. -/
def sequenceTurn (table : OperatorTable) (operandParser expr : CallByNeed.Parser Expr)
    (waiting : List Waiting × List Expr) :
    CallByNeed.Parser ((List Waiting × List Expr) ⊕ Expr) := do
  let t ← peek
  match t.value with
  | .operator symbol =>
    match table.get? symbol with
    | none => fail (.unknownOperator symbol t.span)
    | some op =>
      discard advance
      let (operators, operands) ← ofExcept
        (Sequence.reduceFor Waiting.complete symbol op waiting.1 waiting.2)
      let operators := ⟨symbol, op, t.span⟩ :: operators
      if (← peek).value.beginsBase then return .inl (operators, (← operandParser) :: operands)
      else
        let operand ← expr
        return .inr (← ofExcept (Sequence.close Waiting.complete operators (operand :: operands)))
  | _ => return .inr (← ofExcept (Sequence.close Waiting.complete waiting.1 waiting.2))

/-- **Operators and operands are read in a loop.** -/
theorem run_iterate_sequenceTurn (table : OperatorTable)
    (operandParser expr : CallByNeed.Parser Expr) (fuel : Nat) (operators : List Waiting)
    (operands : List Expr) (s : TokenStream) :
    (iterate (sequenceTurn table operandParser expr) fuel (operators, operands)).run s =
      (sequenceMore table operandParser expr fuel operators operands).run s := by
  -- to leave the loop with a value is to yield it
  have hleave (x : CallByNeed.Parser Expr)
      (loop : (List Waiting × List Expr) → CallByNeed.Parser Expr) (s : TokenStream) :
      ((do return Sum.inr (← x)) >>= Sum.elim loop pure).run s = x.run s := by
    rw [run_assoc]
    refine (run_bind_congr fun e s => ?_).trans (run_bind_pure x s)
    rfl
  induction fuel generalizing operators operands s with
  | zero => rfl
  | succ fuel ih =>
    rw [iterate, sequenceMore, sequenceTurn, run_assoc]
    refine run_bind_congr fun t s => ?_
    generalize t.value = value
    cases value with
    | operator symbol =>
      dsimp only
      cases table.get? symbol with
      | none => rfl
      | some op =>
        dsimp only
        rw [run_assoc]
        refine run_bind_congr fun _ s => ?_
        rw [run_assoc]
        refine run_bind_congr fun waiting s => ?_
        obtain ⟨operators', operands'⟩ := waiting
        dsimp only
        rw [run_assoc]
        refine run_bind_congr fun u s => ?_
        split
        · rw [run_assoc]
          refine run_bind_congr fun operand s => ?_
          rw [run_pure_bind]
          exact ih _ _ s
        · rw [run_assoc]
          exact run_bind_congr fun operand s => hleave _ _ s
    | _ => exact hleave _ _ s

theorem takesTurns_sequenceTurn (table : OperatorTable)
    (operandParser expr : CallByNeed.Parser Expr) :
    TakesTurns (sequenceTurn table operandParser expr) := by
  intro waiting s
  refine takesAt_peek_bind fun t s hseen => ?_
  split
  · rename_i symbol ht
    split
    · exact takesAt_stop _
    · exact takesAt_bind_left (takesAt_bind_left (takesAt_advance hseen (by simp [ht])))
  · exact takesAt_bind_right fun _ s _ => takesAt_pure (by simp)

end Expr.Parser

end CallByNeed

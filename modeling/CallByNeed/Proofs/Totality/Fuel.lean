import CallByNeed.Proofs.Totality.Loops

/-!
# Fuel for one more than the stream holds lasts

A parser that nests or repeats spends one unit of fuel each time.  Before it nests it takes a token,
and each turn of a loop that goes on takes one (`Parser.TakesTurns`).  So fuel that exceeds the size
of the stream is never used up (`Expr.Parser.lasts_expr`): what a parser needs is bounded by the
tokens in front of it, and not by the shape of the text.
-/

namespace CallByNeed

namespace Parser

open Expr.Parser (exists_of_run_bind)

variable {α β σ : Type} {m n : Nat} {x : Parser α} {f : α → Parser β}

/-- On streams with fewer than `n` tokens the fuel is not used up. -/
def Lasts (n : Nat) (x : Parser α) : Prop :=
  ∀ s : TokenStream, s.size < n → x.run s ≠ .error .exhausted

/-! ### Rules -/

theorem Lasts.mono (h : Lasts n x) (hle : m ≤ n) : Lasts m x :=
  fun s hs => h s (Nat.lt_of_lt_of_le hs hle)

theorem lasts_pure (a : α) : Lasts n (pure a) := by
  intro s _
  simp [pure, run]

theorem lasts_stop {why : Failure} (h : why ≠ .exhausted) : Lasts n (stop (α := α) why) := by
  intro s _
  simpa [run] using h

theorem lasts_ofStream {x : Parser α} {r : TokenStream → Except LexError (α × TokenStream)}
    (h : ∀ s, x.run s = ofStream (r s)) : Lasts n x := by
  intro s _
  rw [h]
  cases r s <;> simp [ofStream]

theorem lasts_peek : Lasts n peek :=
  lasts_ofStream fun s => by rw [run]

theorem lasts_advance : Lasts n advance :=
  lasts_ofStream fun s => by rw [run]

theorem lasts_closeInnermost : Lasts n closeInnermost := by
  intro s _
  simp [run]

theorem error_of_run_bind {s : TokenStream} {why : Failure} (h : (x >>= f).run s = .error why) :
    x.run s = .error why ∨ ∃ a s', x.run s = .ok (a, s') ∧ (f a).run s' = .error why := by
  change (andThen x f).run s = _ at h
  rw [run] at h
  cases hx : x.run s with
  | error why' =>
    exact .inl (by simpa [hx] using h)
  | ok result =>
    rw [hx] at h
    exact .inr ⟨result.1, result.2, rfl, h⟩

/-- Steps follow each other. -/
theorem lasts_bind (hx : Lasts n x) (hf : ∀ a, Lasts n (f a)) : Lasts n (x >>= f) := by
  intro s hs hrun
  rcases error_of_run_bind hrun with hrun | ⟨a, s', hrun, hrun'⟩
  · exact hx s hs hrun
  · exact hf a s' (Nat.lt_of_le_of_lt (size_le_of_run x hrun) hs) hrun'

/-- **Behind a step that takes a token** there is one token less. -/
theorem lasts_bind_of_takes (hx : Lasts (n + 1) x) (htakes : Takes x) (hf : ∀ a, Lasts n (f a)) :
    Lasts (n + 1) (x >>= f) := by
  intro s hs hrun
  rcases error_of_run_bind hrun with hrun | ⟨a, s', hrun, hrun'⟩
  · exact hx s hs hrun
  · have hlt := (htakes s).size_lt hrun trivial
    exact hf a s' (by omega) hrun'

theorem lasts_of_bind (h : Lasts n (x >>= f)) : Lasts n x := by
  intro s hs hrun
  exact h s hs (Expr.Parser.run_bind_error hrun)

theorem lasts_discard (hx : Lasts n x) : Lasts n (discard x) :=
  lasts_bind hx fun _ => lasts_pure _

theorem lasts_fail (e : ParseError) : Lasts n (fail (α := α) e) :=
  lasts_stop (by simp)

theorem lasts_expect (expected : Token) : Lasts n (expect expected) := by
  refine lasts_bind lasts_advance fun t => ?_
  split
  · exact lasts_pure t
  · exact lasts_fail _

theorem lasts_ofExcept {r : Except Failure α} (h : r ≠ .error .exhausted) :
    Lasts n (ofExcept r) := by
  intro s _
  cases r with
  | ok a => simp [ofExcept, run]
  | error why => simpa [ofExcept, run] using h

/-- **A loop ends**: with fuel for one more than the stream holds it comes to a turn that leaves
it. -/
theorem lasts_iterate {turn : σ → Parser (σ ⊕ β)} (hturn : ∀ state, Lasts n (turn state))
    (htakes : TakesTurns turn) {fuel : Nat} (hfuel : fuel ≤ n) (state : σ) :
    Lasts fuel (iterate turn fuel state) := by
  induction fuel generalizing state with
  | zero => exact fun s hs => absurd hs (Nat.not_lt_zero _)
  | succ fuel ih =>
    intro s hs hrun
    rw [iterate] at hrun
    rcases error_of_run_bind hrun with hrun | ⟨result, s', hrun, hrun'⟩
    · exact hturn state s (by omega) hrun
    · cases result with
      | inl state' =>
        have hlt := (htakes state s).size_lt hrun rfl
        exact ih (by omega) state' s' (by omega) hrun'
      | inr b => exact lasts_pure b s' (Nat.lt_succ_self _) hrun'

/-! ### Several items -/

theorem takes_delimited {opening : Token} (h : opening ≠ .eof) (fuel : Nat) (close : Token)
    (item : Parser α) : Takes (delimited fuel opening close item) :=
  fun s => takesAt_bind_left (takes_expect h s)

theorem lasts_commaItems {item : Parser α} {fuel : Nat} (hitem : Lasts fuel item)
    (htakes : Takes item) (close : Token) : Lasts fuel (commaItems item close fuel true) := by
  have hturn (items : List α) : Lasts fuel (commaTurn item close items) := by
    refine lasts_bind lasts_peek fun t => ?_
    split
    · exact lasts_pure _
    · have hread : Lasts fuel (do return Sum.inl (items ++ [← item]) : Parser (List α ⊕ List α)) :=
        lasts_bind hitem fun x => lasts_pure _
      split
      · exact lasts_bind (lasts_discard (lasts_expect _)) fun _ => hread
      · exact hread
  refine lasts_of_bind (f := fun xs => pure ([] ++ xs)) fun s hs hrun => ?_
  have hloop := (run_iterate_commaTurn item close fuel [] s).trans hrun
  exact lasts_iterate hturn (takesTurns_commaTurn htakes close) (Nat.le_refl fuel) [] s hs hloop

/-- **Items in brackets**: the opening bracket is taken before the first item is read. -/
theorem lasts_delimited {item : Parser α} {fuel : Nat} (hitem : Lasts fuel item)
    (htakes : Takes item) {opening : Token} (h : opening ≠ .eof) (close : Token) :
    Lasts (fuel + 1) (delimited fuel opening close item) :=
  lasts_bind_of_takes (lasts_expect opening) (takes_expect h) fun _ =>
    lasts_bind (lasts_commaItems hitem htakes close) fun _ =>
      lasts_bind (lasts_expect close) fun _ => lasts_pure _

theorem lasts_blockItems {item : Parser α} {fuel : Nat} (hitem : Lasts fuel item)
    (htakes : Takes item) (begins : Token → Bool) :
    Lasts fuel (blockItems item begins fuel true) := by
  -- a turn reads an item, or ends the loop; either way the fuel lasts for it
  have hturn (items : List α) : Lasts fuel (blockTurn item begins items) := by
    have hread : Lasts fuel (do return Sum.inl (items ++ [← item]) : Parser (List α ⊕ List α)) :=
      lasts_bind hitem fun x => lasts_pure _
    refine lasts_bind lasts_peek fun t => ?_
    split
    · exact lasts_bind (lasts_discard lasts_advance) fun _ => lasts_pure _
    · split
      · exact lasts_bind (lasts_discard lasts_advance) fun _ => hread
      · split
        · exact hread
        · refine lasts_bind lasts_closeInnermost fun closed => ?_
          split
          · exact lasts_pure _
          · exact lasts_fail _
  refine lasts_of_bind (f := fun xs => pure ([] ++ xs)) fun s hs hrun => ?_
  have hloop := (run_iterate_blockTurn item begins fuel [] s).trans hrun
  exact lasts_iterate hturn (takesTurns_blockTurn htakes begins) (Nat.le_refl fuel) [] s hs hloop

theorem lasts_block {item : Parser α} {fuel : Nat} (hitem : Lasts fuel item) (htakes : Takes item)
    (begins : Token → Bool) : Lasts fuel (block fuel begins item) := by
  refine lasts_bind (lasts_discard (lasts_expect _)) fun _ => ?_
  intro s hs hrun
  rw [run] at hrun
  exact lasts_blockItems hitem htakes begins s hs hrun

end Parser

/-! ### Patterns -/

namespace Pattern.Parser

open CallByNeed.Parser

variable {base : CallByNeed.Parser Pattern} {fuel : Nat}

theorem takes_openPattern (hbase : Takes base) (fuel : Nat) : Takes (openPattern fuel base) :=
  fun s => takesAt_bind_left (hbase s)

/-- **A pattern takes a token.** -/
theorem takes_basePattern (fuel : Nat) : Takes (basePattern fuel) := by
  cases fuel with
  | zero => exact fun s => takesAt_stop _
  | succ fuel =>
    intro s
    rw [basePattern]
    refine takesAt_peek_bind fun t s hseen => ?_
    split
    case h_1 | h_2 | h_3 | h_4 =>
      rename_i ht
      exact takesAt_bind_left (takesAt_advance hseen (by simp [ht]))
    · exact takesAt_bind_left (takes_delimited (by decide) fuel _ _ s)
    · exact takesAt_bind_left (takes_delimited (by decide) fuel _ _ s)
    · exact takesAt_stop _

theorem lasts_openMore (hbase : Lasts fuel base) : Lasts fuel (openMore base fuel) := by
  have hturn (patterns : List Pattern) : Lasts fuel (openTurn base patterns) := by
    refine lasts_bind lasts_peek fun t => ?_
    split
    · split
      · exact lasts_fail _
      · exact lasts_bind (lasts_discard lasts_advance) fun _ =>
          lasts_bind hbase fun _ => lasts_pure _
    · exact lasts_pure _
  refine lasts_of_bind (f := fun ps => pure ([] ++ ps)) fun s hs hrun => ?_
  rw [← run_iterate_openTurn base fuel []] at hrun
  exact lasts_iterate hturn (takesTurns_openTurn base) (Nat.le_refl fuel) [] s hs hrun

theorem lasts_openPattern (hbase : Lasts fuel base) : Lasts fuel (openPattern fuel base) :=
  lasts_bind hbase fun _ => lasts_bind (lasts_openMore hbase) fun _ => lasts_pure _

/-- **Patterns**: those in brackets are read behind the opening bracket. -/
theorem lasts_basePattern (fuel : Nat) : Lasts fuel (basePattern fuel) := by
  induction fuel with
  | zero => exact fun s hs => absurd hs (Nat.not_lt_zero _)
  | succ fuel ih =>
    have hopen := lasts_openPattern ih
    have htakes := takes_openPattern (takes_basePattern fuel) fuel
    rw [basePattern]
    refine lasts_bind lasts_peek fun t => ?_
    split
    case h_1 | h_2 | h_3 | h_4 => exact lasts_bind lasts_advance fun _ => lasts_pure _
    · exact lasts_bind (lasts_delimited hopen htakes (by decide) _) fun _ => lasts_pure _
    · exact lasts_bind (lasts_delimited hopen htakes (by decide) _) fun _ => lasts_pure _
    · exact lasts_fail _

end Pattern.Parser

/-! ### Operators -/

namespace Sequence

variable {α : Type} (complete : Waiting → α → α → α)

theorem reduce_ne_exhausted (w : Waiting) (operands : List α) :
    reduce complete w operands ≠ .error .exhausted := by
  unfold reduce
  split <;> simp

theorem reduceFor_ne_exhausted (symbol : String) (op : Operator) (operators : List Waiting)
    (operands : List α) : reduceFor complete symbol op operators operands ≠ .error .exhausted := by
  induction operators generalizing operands with
  | nil => simp [reduceFor]
  | cons top operators ih =>
    rw [reduceFor]
    split
    · simp
    · simp
    · split
      · rename_i hreduce
        simpa [hreduce] using reduce_ne_exhausted complete top operands
      · exact ih _

theorem close_ne_exhausted (operators : List Waiting) (operands : List α) :
    close complete operators operands ≠ .error .exhausted := by
  induction operators generalizing operands with
  | nil =>
    unfold close
    split <;> simp_all
  | cons top operators ih =>
    rw [close]
    split
    · rename_i hreduce
      simpa [hreduce] using reduce_ne_exhausted complete top operands
    · exact ih _

end Sequence

/-! ### Expressions -/

namespace Expr.Parser

open CallByNeed.Parser

variable {table : OperatorTable} {expr : CallByNeed.Parser Expr} {fuel : Nat}

theorem takes_baseExpr (fuel : Nat) (expr : CallByNeed.Parser Expr) :
    Takes (baseExpr fuel expr) := by
  intro s
  refine takesAt_peek_bind fun t s hseen => ?_
  split
  case h_1 | h_2 | h_3 =>
    rename_i ht
    exact takesAt_bind_left (takesAt_advance hseen (by simp [ht]))
  · exact takesAt_bind_left (takes_delimited (by decide) fuel _ _ s)
  · exact takesAt_bind_left (takes_delimited (by decide) fuel _ _ s)
  · exact takesAt_stop _

theorem takes_application (fuel : Nat) (expr : CallByNeed.Parser Expr) :
    Takes (application fuel expr) :=
  fun s => takesAt_bind_left (takes_baseExpr fuel expr s)

theorem takes_caseOption (fuel : Nat) (expr : CallByNeed.Parser Expr) :
    Takes (caseOption fuel expr) :=
  fun s => takesAt_bind_left
    (Pattern.Parser.takes_openPattern (Pattern.Parser.takes_basePattern fuel) fuel s)

/-- **An expression takes a token.** -/
theorem takes_expr (table : OperatorTable) (fuel : Nat) : Takes (Parser.expr table fuel) := by
  cases fuel with
  | zero => exact fun s => takesAt_stop _
  | succ fuel =>
    intro s
    rw [Parser.expr]
    refine takesAt_peek_bind fun t s _ => ?_
    split
    case h_1 | h_2 | h_3 | h_4 => exact takesAt_bind_left (takes_expect (by decide) s)
    · split
      · exact takesAt_bind_left (takes_application fuel _ s)
      · exact takesAt_stop _

theorem lasts_baseExpr (hexpr : Lasts fuel expr) (htakes : Takes expr) :
    Lasts (fuel + 1) (baseExpr fuel expr) := by
  refine lasts_bind lasts_peek fun t => ?_
  split
  case h_1 | h_2 | h_3 => exact lasts_bind lasts_advance fun _ => lasts_pure _
  · exact lasts_bind (lasts_delimited hexpr htakes (by decide) _) fun _ => lasts_pure _
  · exact lasts_bind (lasts_delimited hexpr htakes (by decide) _) fun _ => lasts_pure _
  · exact lasts_fail _

theorem lasts_arguments {base : CallByNeed.Parser Expr} (hbase : Lasts fuel base)
    (htakes : Takes base) (func : Expr) : Lasts fuel (arguments base fuel func) := by
  have hturn (func : Expr) : Lasts fuel (argumentTurn base func) := by
    refine lasts_bind lasts_peek fun t => ?_
    split
    · exact lasts_bind hbase fun _ => lasts_pure _
    · exact lasts_pure _
  intro s hs hrun
  rw [← run_iterate_argumentTurn] at hrun
  exact lasts_iterate hturn (takesTurns_argumentTurn htakes) (Nat.le_refl fuel) func s hs hrun

theorem lasts_application (hexpr : Lasts fuel expr) (htakes : Takes expr) :
    Lasts (fuel + 1) (application fuel expr) := by
  have hbase := lasts_baseExpr hexpr htakes
  refine lasts_bind_of_takes hbase (takes_baseExpr fuel expr) fun func => ?_
  exact lasts_arguments (hbase.mono (Nat.le_succ fuel)) (takes_baseExpr fuel expr) func

theorem lasts_sequenceMore {operand : CallByNeed.Parser Expr} (hoperand : Lasts fuel operand)
    (hexpr : Lasts fuel expr) (operators : List Waiting) (operands : List Expr) :
    Lasts fuel (sequenceMore table operand expr fuel operators operands) := by
  -- a turn reads an operator and an operand, or ends the loop with what is left
  have hturn (waiting : List Waiting × List Expr) :
      Lasts fuel (sequenceTurn table operand expr waiting) := by
    refine lasts_bind lasts_peek fun t => ?_
    split
    · split
      · exact lasts_fail _
      · refine lasts_bind (lasts_discard lasts_advance) fun _ => ?_
        refine lasts_bind (lasts_ofExcept (Sequence.reduceFor_ne_exhausted _ _ _ _ _)) fun _ => ?_
        refine lasts_bind lasts_peek fun u => ?_
        split
        · exact lasts_bind hoperand fun _ => lasts_pure _
        · exact lasts_bind hexpr fun _ =>
            lasts_bind (lasts_ofExcept (Sequence.close_ne_exhausted _ _ _)) fun _ => lasts_pure _
    · exact lasts_bind (lasts_ofExcept (Sequence.close_ne_exhausted _ _ _)) fun _ => lasts_pure _
  intro s hs hrun
  rw [← run_iterate_sequenceTurn] at hrun
  exact lasts_iterate hturn (takesTurns_sequenceTurn table operand expr) (Nat.le_refl fuel)
    (operators, operands) s hs hrun

theorem lasts_operatorSequence (hexpr : Lasts fuel expr) (htakes : Takes expr) :
    Lasts (fuel + 1) (operatorSequence table fuel expr) := by
  have happlication := lasts_application hexpr htakes
  refine lasts_bind_of_takes happlication (takes_application fuel expr) fun operand => ?_
  exact lasts_sequenceMore (happlication.mono (Nat.le_succ fuel)) hexpr [] [operand]

theorem lasts_letExpr (hexpr : Lasts fuel expr) : Lasts (fuel + 1) (letExpr fuel expr) :=
  lasts_bind_of_takes (lasts_expect _) (takes_expect (by decide)) fun _ =>
    lasts_bind (Pattern.Parser.lasts_basePattern fuel) fun _ =>
      lasts_bind (lasts_discard (lasts_expect _)) fun _ => lasts_bind hexpr fun _ =>
        lasts_bind (lasts_discard (lasts_expect _)) fun _ =>
          lasts_bind hexpr fun _ => lasts_pure _

theorem lasts_condition (hexpr : Lasts fuel expr) : Lasts (fuel + 1) (condition expr) :=
  lasts_bind_of_takes (lasts_expect _) (takes_expect (by decide)) fun _ =>
    lasts_bind hexpr fun _ => lasts_bind (lasts_discard (lasts_expect _)) fun _ =>
      lasts_bind hexpr fun _ => lasts_bind (lasts_discard (lasts_expect _)) fun _ =>
        lasts_bind hexpr fun _ => lasts_pure _

theorem lasts_lambda (hexpr : Lasts fuel expr) : Lasts (fuel + 1) (lambda fuel expr) :=
  lasts_bind_of_takes (lasts_expect _) (takes_expect (by decide)) fun _ =>
    lasts_bind (Pattern.Parser.lasts_basePattern fuel) fun _ =>
      lasts_bind (lasts_discard (lasts_expect _)) fun _ =>
        lasts_bind hexpr fun _ => lasts_pure _

theorem lasts_caseOption (hexpr : Lasts fuel expr) : Lasts fuel (caseOption fuel expr) :=
  lasts_bind (Pattern.Parser.lasts_openPattern (Pattern.Parser.lasts_basePattern fuel)) fun _ =>
    lasts_bind (lasts_discard (lasts_expect _)) fun _ => lasts_bind hexpr fun _ => lasts_pure _

theorem lasts_caseExpr (hexpr : Lasts fuel expr) : Lasts (fuel + 1) (caseExpr fuel expr) :=
  lasts_bind_of_takes (lasts_expect _) (takes_expect (by decide)) fun _ =>
    lasts_bind hexpr fun _ => lasts_bind (lasts_expect _) fun _ =>
      lasts_bind (lasts_block (lasts_caseOption hexpr) (takes_caseOption fuel expr) _) fun _ =>
        lasts_pure _

/-- **Fuel for one more than the stream holds lasts**, by induction on the fuel: a part of an
expression is read with one unit less, behind a token that has been taken. -/
theorem lasts_expr (table : OperatorTable) (fuel : Nat) : Lasts fuel (Parser.expr table fuel) := by
  induction fuel with
  | zero => exact fun s hs => absurd hs (Nat.not_lt_zero _)
  | succ fuel ih =>
    rw [Parser.expr]
    refine lasts_bind lasts_peek fun t => ?_
    split
    · exact lasts_letExpr ih
    · exact lasts_condition ih
    · exact lasts_lambda ih
    · exact lasts_caseExpr ih
    · split
      · exact lasts_operatorSequence ih (takes_expr table fuel)
      · exact lasts_fail _

theorem lasts_whole (table : OperatorTable) (fuel : Nat) : Lasts fuel (whole table fuel) :=
  lasts_bind (lasts_expr table fuel) fun _ =>
    lasts_bind (lasts_discard (lasts_expect _)) fun _ => lasts_pure _

end Expr.Parser

end CallByNeed

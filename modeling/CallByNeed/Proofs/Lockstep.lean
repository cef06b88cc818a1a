import CallByNeed.Expr.Parser
import CallByNeed.Proofs.InStep
import CallByNeed.Proofs.Points

/-!
# Every parse keeps blocks and columns in step

Each parser of the language keeps the blocks that are being read and the columns of the layout in
step, whatever the text and the table of operators (`keeps_expr`).  There is one lemma for each
parser; those for parsers that take another one as an argument assume that it keeps the accounts in
step.

The same lemmas say how a parser can fail: never because an operator finds no operands, and never
because a block cannot be closed (`Failure.Proper`).
-/

namespace CallByNeed

/-! ### What is kept -/

/-- The number of ends among tokens that wait.  The pair of an empty block whose beginning still
waits does not count. -/
def Token.openEnds : List Token → Nat
  | .blockBegin :: .blockEnd :: ts => openEnds ts
  | .blockEnd :: ts => openEnds ts + 1
  | _ :: ts => openEnds ts
  | [] => 0

/-- **Blocks and columns are in lockstep**: there are as many blocks that are being read as columns
on the stack of the layout and ends that wait.  Where the parser closes a block, the columns are
those of the blocks, of which there is at least one. -/
structure Lockstep (operation : Operation) (blocks : List Nat) (s : TokenStream) : Prop where
  length_eq : blocks.length = s.layout.columns.length + Token.openEnds s.waiting
  close : operation = .close → s.layout.columns = blocks ∧ blocks ≠ []

/-- A failure other than those that are never met. -/
def Failure.Proper (why : Failure) : Prop :=
  why ≠ .outOfStep ∧ ∀ found, why ≠ .error (.unexpected "end of block" found)

theorem Token.openEnds_of_behind {ts : List Token} {afterOf : Bool} (h : Token.Behind ts afterOf)
    (ends : Nat) : openEnds (List.replicate ends .blockEnd ++ ts) = ends := by
  induction ends with
  | zero =>
    have hnone : ∀ t ∈ ts, t ≠ .blockBegin ∧ t ≠ .blockEnd := h.noBlock
    rw [List.replicate_zero, List.nil_append]
    clear h
    induction ts with
    | nil => rfl
    | cons t ts ih =>
      have ht := hnone t List.mem_cons_self
      rw [openEnds]
      · exact ih fun u hu => hnone u (List.mem_cons_of_mem _ hu)
      · rintro ts' rfl
        exact absurd rfl ht.1
      · rintro rfl
        exact absurd rfl ht.2
  | succ ends ih =>
    rw [List.replicate_succ, List.cons_append, openEnds, ih]

namespace TokenStream

variable {blocks : List Nat} {s : TokenStream} {operation : Operation}

theorem InStep.lockstep (h : s.InStep blocks)
    (hclose : operation = .close → s.layout.columns = blocks ∧ blocks ≠ []) :
    Lockstep operation blocks s := by
  refine ⟨?_, hclose⟩
  obtain ⟨ends, rest, hwaiting, hrest, hle, hcolumns⟩ := h
  rw [hwaiting, Token.openEnds_of_behind hrest, hcolumns, List.length_drop]
  omega

theorem BehindOf.lockstep (h : s.BehindOf blocks) (hclose : operation ≠ .close) :
    Lockstep operation blocks s := by
  refine ⟨?_, fun h => absurd h hclose⟩
  simp [h.columns, waiting, Layout.waiting, h.lookahead, h.queue, Token.openEnds]

end TokenStream

namespace Parser

open TokenStream

variable {α β : Type} {blocks : List Nat} {s : TokenStream}

/-- The parser keeps the accounts in step. -/
def Keeps (x : Parser α) : Prop :=
  ∀ blocks s, s.InStep blocks →
    Obeys Lockstep Failure.Proper x blocks s fun _ s' => s'.InStep blocks

theorem proper_lexical (e : LexError) : Failure.Proper (.error (.lexical e)) := by
  simp [Failure.Proper]

theorem proper_exhausted : Failure.Proper .exhausted := by
  simp [Failure.Proper]

/-! ### Operations -/

/-- Looking, and then going on with what is seen. -/
theorem obeys_peek_bind {f : Located Token → Parser β} {Q : β → TokenStream → Prop}
    (h : s.InStep blocks)
    (hf : ∀ t s', s'.InStep blocks → s'.lookahead = some t →
      Obeys Lockstep Failure.Proper (f t) blocks s' Q) :
    Obeys Lockstep Failure.Proper (peek >>= f) blocks s Q := by
  have hpeek : Obeys Lockstep Failure.Proper peek blocks s fun t s' =>
      s'.InStep blocks ∧ s'.lookahead = some t := by
    refine obeys_peek (h.lockstep (by simp)) ?_ proper_lexical
    intro t s' hpeek
    exact ⟨h.peek hpeek, lookahead_of_peek hpeek⟩
  apply obeys_bind hpeek
  rintro t s' ⟨hs', hseen⟩
  exact hf t s' hs' hseen

/-- What has been seen is taken. -/
theorem eq_of_seen {s' : TokenStream} {t u : Located Token} (hseen : s.lookahead = some t)
    (h : s.advance = .ok (u, s')) : t = u := by
  rw [TokenStream.advance, hseen] at h
  simp only [Except.ok.injEq, Prod.mk.injEq] at h
  exact h.1

/-- Taking a token that has been seen to be neither an end nor `of`. -/
theorem obeys_take {t : Located Token} (h : s.InStep blocks) (hseen : s.lookahead = some t)
    (ht : t.value ≠ .blockEnd) (hof : t.value.opensBlock = false) :
    Obeys Lockstep Failure.Proper advance blocks s fun _ s' => s'.InStep blocks := by
  refine obeys_advance (h.lockstep (by simp)) ?_ proper_lexical
  intro u s' hadvance
  obtain rfl := eq_of_seen hseen hadvance
  exact h.advance_inner hadvance ht hof

theorem proper_unexpected {expected : String} {t : Located Token} (h : expected ≠ "end of block") :
    Failure.Proper (.error (.unexpected expected t)) := by
  simp [Failure.Proper, h]

theorem quoted_ne (text : String) : "'" ++ text ++ "'" ≠ "end of block" := by
  intro h
  have := congrArg (fun s => s.toList.head?) h
  simp at this

/-- Taking an expected token, whatever comes of it. -/
theorem obeys_expect {expected : Token} {Q : Located Token → TokenStream → Prop}
    (hI : Lockstep .take blocks s)
    (hok : ∀ t s', s.advance = .ok (t, s') → t.value = expected → Q t s') :
    Obeys Lockstep Failure.Proper (expect expected) blocks s Q := by
  apply obeys_bind (P := fun t s' => s.advance = .ok (t, s'))
    (obeys_advance hI (fun t s' h => h) proper_lexical)
  intro t s' hadvance
  split
  · rename_i ht
    exact obeys_pure (hok t s' hadvance ht)
  · exact obeys_stop (proper_unexpected (quoted_ne _))

theorem keeps_expect {expected : Token} (hend : expected ≠ .blockEnd)
    (hof : expected.opensBlock = false) : Keeps (expect expected) := by
  intro blocks s h
  refine obeys_expect (h.lockstep (by simp)) ?_
  rintro t s' hadvance rfl
  exact h.advance_inner hadvance hend hof

theorem keeps_discard {x : Parser α} (hx : Keeps x) : Keeps (discard x) :=
  fun blocks s h => obeys_discard (hx blocks s h)

theorem keeps_pure (a : α) : Keeps (pure a) :=
  fun _ _ h => obeys_pure h

theorem keeps_stop {why : Failure} (h : why.Proper) : Keeps (stop (α := α) why) :=
  fun _ _ _ => obeys_stop h

theorem keeps_failUnexpected {expected : String} (h : expected ≠ "end of block")
    (t : Located Token) : Keeps (failUnexpected (α := α) expected t) :=
  keeps_stop (proper_unexpected h)

theorem keeps_bind {x : Parser α} {f : α → Parser β} (hx : Keeps x) (hf : ∀ a, Keeps (f a)) :
    Keeps (x >>= f) :=
  fun blocks s h => obeys_bind (hx blocks s h) fun a s' hs' => hf a blocks s' hs'

theorem keeps_peek_bind {f : Located Token → Parser β}
    (hf : ∀ t blocks s, s.InStep blocks → s.lookahead = some t →
      Obeys Lockstep Failure.Proper (f t) blocks s fun _ s' => s'.InStep blocks) :
    Keeps (peek >>= f) :=
  fun _ _ h => obeys_peek_bind h fun t s' hs' hseen => hf t _ s' hs' hseen

/-! ### Several items -/

theorem keeps_commaItems {item : Parser α} {closing : Token} (hitem : Keeps item) (fuel : Nat)
    (first : Bool) : Keeps (commaItems item closing fuel first) := by
  induction fuel generalizing first with
  | zero => exact keeps_stop proper_exhausted
  | succ fuel ih =>
    rw [commaItems]
    refine keeps_peek_bind fun t blocks s h hseen => ?_
    split
    · exact obeys_pure h
    · have hitems : Keeps (do
          let x ← item
          let xs ← commaItems item closing fuel false
          return x :: xs) :=
        keeps_bind hitem fun x => keeps_bind (ih false) fun xs => keeps_pure _
      split
      · exact obeys_bind (keeps_discard (keeps_expect (by decide) rfl) blocks s h)
          fun _ s' hs' => hitems blocks s' hs'
      · exact hitems blocks s h

theorem keeps_delimited {item : Parser α} {opening closing : Token} (hitem : Keeps item)
    (hopening : opening ≠ .blockEnd ∧ opening.opensBlock = false)
    (hclosing : closing ≠ .blockEnd ∧ closing.opensBlock = false) (fuel : Nat) :
    Keeps (delimited fuel opening closing item) :=
  keeps_bind (keeps_expect hopening.1 hopening.2) fun _ =>
    keeps_bind (keeps_commaItems hitem fuel true) fun _ =>
      keeps_bind (keeps_expect hclosing.1 hclosing.2) fun _ => keeps_pure _

/-- **The items of a block are read up to its end**, and the block is left. -/
theorem obeys_blockItems {item : Parser α} {begins : Token → Bool} (hitem : Keeps item) (fuel : Nat)
    (first : Bool) {column : Nat} (h : s.InStep (column :: blocks)) :
    Obeys Lockstep Failure.Proper (blockItems item begins fuel first) (column :: blocks) s
      fun _ s' => s'.InStep blocks := by
  induction fuel generalizing first s with
  | zero => exact obeys_stop proper_exhausted
  | succ fuel ih =>
    rw [blockItems]
    -- both branches that go on read an item and then the others
    have hitems {s : TokenStream} (h : s.InStep (column :: blocks)) :
        Obeys Lockstep Failure.Proper (do
          let x ← item
          let xs ← blockItems item begins fuel false
          return x :: xs) (column :: blocks) s fun _ s' => s'.InStep blocks :=
      obeys_bind (hitem _ s h) fun x s₁ hs₁ =>
        obeys_bind (ih false hs₁) fun xs s₂ hs₂ => obeys_pure hs₂
    refine obeys_peek_bind h fun t s' hs' hseen => ?_
    split
    · -- the end of the block is taken
      rename_i hend
      refine obeys_bind (P := fun _ s'' => s''.InStep blocks) (obeys_discard ?_)
        fun _ s'' hs'' => obeys_pure hs''
      refine obeys_advance (hs'.lockstep (by simp)) ?_ proper_lexical
      intro u s'' hadvance
      obtain rfl := eq_of_seen hseen hadvance
      obtain ⟨_, _, hblocks, hs''⟩ := hs'.advance_end hadvance hend
      rw [List.cons.injEq] at hblocks
      rwa [hblocks.2]
    · rename_i hend
      split
      · -- the next item
        rename_i hdelim
        have ht : t.value = .blockDelim := by
          simp only [Bool.and_eq_true, decide_eq_true_eq] at hdelim
          exact hdelim.1
        exact obeys_bind (obeys_discard (obeys_take hs' hseen hend (by rw [ht]; rfl)))
          fun _ s'' hs'' => hitems hs''
      · split
        · exact hitems hs'
        · -- no item begins here, so that the parser closes the block itself: the token that it has
          -- seen is not an end, so that no end waits and the innermost column is the block's
          obtain ⟨hclosed, hs''⟩ := hs'.close hseen hend
          refine obeys_bind (P := fun closed s'' => closed = true ∧ s''.InStep blocks)
            (obeys_closeInnermost (hs'.lockstep fun _ => ⟨hs'.columns_eq hseen hend, by simp⟩)
              ⟨hclosed, hs''⟩) ?_
          rintro closed s'' ⟨rfl, hs''⟩
          exact obeys_pure hs''

/-- **A block is entered and left.** -/
theorem obeys_block {item : Parser α} {begins : Token → Bool} (hitem : Keeps item) (fuel : Nat)
    (h : s.BehindOf blocks) :
    Obeys Lockstep Failure.Proper (block fuel begins item) blocks s
      fun _ s' => s'.InStep blocks := by
  refine obeys_bind (P := fun _ s' => s'.InStep (s'.layout.columns.headD 0 :: blocks))
    (obeys_discard (obeys_expect (h.lockstep (by simp)) ?_)) ?_
  · intro t s' hadvance _
    exact (h.advance hadvance).2
  · intro _ s' hs'
    exact obeys_within (obeys_blockItems hitem fuel true hs')

end Parser

/-! ### Patterns -/

namespace Pattern.Parser

open CallByNeed.Parser

variable {blocks : List Nat} {s : TokenStream} {t : Located Token}

theorem obeys_leaf (make : Span → Pattern) (h : s.InStep blocks) (hseen : s.lookahead = some t)
    (ht : t.value ≠ .blockEnd) (hof : t.value.opensBlock = false) :
    Obeys Lockstep Failure.Proper (leaf make) blocks s fun _ s' => s'.InStep blocks :=
  obeys_bind (obeys_take h hseen ht hof) fun _ _ hs' => obeys_pure hs'

theorem keeps_openMore {base : CallByNeed.Parser Pattern} (hbase : Keeps base) (fuel : Nat) :
    Keeps (openMore base fuel) := by
  induction fuel with
  | zero => exact keeps_stop proper_exhausted
  | succ fuel ih =>
    rw [openMore]
    refine keeps_peek_bind fun t blocks s h hseen => ?_
    split
    · rename_i symbol ht
      split
      · exact obeys_stop (by simp [Failure.Proper])
      · have hmore : Keeps (do
            let p ← base
            let ps ← openMore base fuel
            return p :: ps) :=
          keeps_bind hbase fun p => keeps_bind ih fun ps => keeps_pure _
        exact obeys_bind (obeys_discard (obeys_take h hseen (by simp [ht]) (by rw [ht]; rfl)))
          fun _ s' hs' => hmore blocks s' hs'
    · exact obeys_pure h

theorem keeps_openPattern {base : CallByNeed.Parser Pattern} (hbase : Keeps base) (fuel : Nat) :
    Keeps (openPattern fuel base) :=
  keeps_bind hbase fun _ => keeps_bind (keeps_openMore hbase fuel) fun _ => keeps_pure _

/-- **Reading a pattern keeps the accounts in step.** -/
theorem keeps_basePattern (fuel : Nat) : Keeps (basePattern fuel) := by
  induction fuel with
  | zero => exact keeps_stop proper_exhausted
  | succ fuel ih =>
    rw [basePattern]
    refine keeps_peek_bind fun t blocks s h hseen => ?_
    have hopen := keeps_openPattern ih fuel
    split
    case h_1 | h_2 | h_3 | h_4 =>
      rename_i ht
      exact obeys_leaf _ h hseen (by simp [ht]) (by rw [ht]; rfl)
    · exact keeps_bind (keeps_delimited hopen (by decide) (by decide) fuel)
        (fun _ => keeps_pure _) blocks s h
    · exact keeps_bind (keeps_delimited hopen (by decide) (by decide) fuel)
        (fun _ => keeps_pure _) blocks s h
    · exact keeps_failUnexpected (by decide) t blocks s h

end Pattern.Parser

/-! ### Operators -/

namespace Sequence

/-- The stacks have one operand more than operators. -/
def Fits {α : Type} (operators : List Waiting) (operands : List α) : Prop :=
  operands.length = operators.length + 1

variable {α : Type} (complete : Waiting → α → α → α) {operators : List Waiting} {operands : List α}

theorem fits_reduce {w : Waiting} (h : Fits (w :: operators) operands) :
    ∃ operands', reduce complete w operands = .ok operands' ∧ Fits operators operands' := by
  match operands with
  | [] | [_] => simp [Fits] at h
  | right :: left :: operands => exact ⟨_, rfl, by simpa [Fits] using h⟩

/-- **An incoming operator leaves stacks that fit**, or it does not agree with one of them. -/
theorem fits_reduceFor (symbol : String) (op : Operator) (h : Fits operators operands) :
    (∃ operators' operands', reduceFor complete symbol op operators operands =
      .ok (operators', operands') ∧ Fits operators' operands') ∨
    ∃ top ∈ operators, ∃ e, reduceFor complete symbol op operators operands = .error (.error e) ∧
      takesFirst top symbol op = .error e := by
  induction operators generalizing operands with
  | nil => exact .inl ⟨[], operands, rfl, h⟩
  | cons top operators ih =>
    rw [reduceFor]
    split
    · rename_i e he
      exact .inr ⟨top, List.mem_cons_self, e, rfl, he⟩
    · exact .inl ⟨top :: operators, operands, rfl, h⟩
    · obtain ⟨operands', hreduce, hfits⟩ := fits_reduce complete h
      rw [hreduce]
      rcases ih hfits with hok | ⟨u, hu, herror⟩
      · exact .inl hok
      · exact .inr ⟨u, List.mem_cons_of_mem _ hu, herror⟩

/-- At the end of a sequence one operand is left. -/
theorem fits_close (h : Fits operators operands) :
    ∃ x, close complete operators operands = .ok x := by
  induction operators generalizing operands with
  | nil =>
    match operands with
    | [x] => exact ⟨x, rfl⟩
    | [] | _ :: _ :: _ => simp [Fits] at h
  | cons top operators ih =>
    obtain ⟨operands', hreduce, hfits⟩ := fits_reduce complete h
    rw [close, hreduce]
    exact ih hfits

theorem proper_takesFirst {top : Waiting} {symbol : String} {op : Operator} {e : ParseError}
    (h : takesFirst top symbol op = .error e) : Failure.Proper (.error e) := by
  unfold takesFirst at h
  dsimp only at h
  repeat' split at h
  all_goals first
    | (simp only [Except.error.injEq] at h; rw [← h]; simp [Failure.Proper])
    | simp at h

end Sequence

/-! ### Expressions -/

namespace Expr.Parser

open CallByNeed.Parser

variable {blocks : List Nat} {s : TokenStream} {t : Located Token} {expr : CallByNeed.Parser Expr}
  {table : OperatorTable}

theorem obeys_leaf (make : Span → Expr) (h : s.InStep blocks) (hseen : s.lookahead = some t)
    (ht : t.value ≠ .blockEnd) (hof : t.value.opensBlock = false) :
    Obeys Lockstep Failure.Proper (leaf make) blocks s fun _ s' => s'.InStep blocks :=
  obeys_bind (obeys_take h hseen ht hof) fun _ _ hs' => obeys_pure hs'

theorem keeps_baseExpr (hexpr : Keeps expr) (fuel : Nat) : Keeps (baseExpr fuel expr) := by
  refine keeps_peek_bind fun t blocks s h hseen => ?_
  split
  case h_1 | h_2 | h_3 =>
    rename_i ht
    exact obeys_leaf _ h hseen (by simp [ht]) (by rw [ht]; rfl)
  · exact keeps_bind (keeps_delimited hexpr (by decide) (by decide) fuel)
      (fun _ => keeps_pure _) blocks s h
  · exact keeps_bind (keeps_delimited hexpr (by decide) (by decide) fuel)
      (fun _ => keeps_pure _) blocks s h
  · exact keeps_failUnexpected (by decide) t blocks s h

theorem keeps_arguments {base : CallByNeed.Parser Expr} (hbase : Keeps base) (fuel : Nat)
    (func : Expr) : Keeps (arguments base fuel func) := by
  induction fuel generalizing func with
  | zero => exact keeps_stop proper_exhausted
  | succ fuel ih =>
    rw [arguments]
    refine keeps_peek_bind fun t blocks s h hseen => ?_
    split
    · exact keeps_bind hbase (fun arg => ih (func.applyTo arg)) blocks s h
    · exact obeys_pure h

theorem keeps_application (hexpr : Keeps expr) (fuel : Nat) : Keeps (application fuel expr) :=
  keeps_bind (keeps_baseExpr hexpr fuel) fun func =>
    keeps_arguments (keeps_baseExpr hexpr fuel) fuel func

/-- Reading on in an operator sequence, with stacks that fit. -/
theorem keeps_sequenceMore {operand : CallByNeed.Parser Expr} (hoperand : Keeps operand)
    (hexpr : Keeps expr) (fuel : Nat) {operators : List Waiting} {operands : List Expr}
    (hfits : Sequence.Fits operators operands) :
    Keeps (sequenceMore table operand expr fuel operators operands) := by
  -- stacks that fit can be closed, whatever stands in them
  have hclose {operators : List Waiting} {operands : List Expr}
      (hfits : Sequence.Fits operators operands) :
      Keeps (ofExcept (Sequence.close Waiting.complete operators operands)) := by
    obtain ⟨e, he⟩ := Sequence.fits_close Waiting.complete hfits
    rw [he]
    exact keeps_pure e
  induction fuel generalizing operators operands with
  | zero => exact keeps_stop proper_exhausted
  | succ fuel ih =>
    rw [sequenceMore]
    refine keeps_peek_bind fun t blocks s h hseen => ?_
    split
    · rename_i symbol ht
      split
      · exact obeys_stop (by simp [Failure.Proper])
      · rename_i op hop
        refine obeys_bind (obeys_discard (obeys_take h hseen (by simp [ht]) (by rw [ht]; rfl))) ?_
        intro _ s₁ hs₁
        rcases Sequence.fits_reduceFor Waiting.complete symbol op hfits with
          ⟨operators', operands', hreduce, hfits'⟩ | ⟨top, -, e, hreduce, he⟩
        · -- the operator and the operand behind it are pushed together, with which the stacks fit
          rw [hreduce]
          refine obeys_bind (P := fun pair s' => pair = (operators', operands') ∧ s'.InStep blocks)
            (obeys_pure ⟨rfl, hs₁⟩) ?_
          rintro _ s₂ ⟨rfl, hs₂⟩
          have hpush (operand : Expr) :
              Sequence.Fits (⟨symbol, op, t.span⟩ :: operators') (operand :: operands') := by
            simpa [Sequence.Fits] using hfits'
          refine keeps_peek_bind (fun u blocks s h hseen => ?_) blocks s₂ hs₂
          split
          · exact keeps_bind hoperand (fun operand => ih (hpush operand)) blocks s h
          · exact keeps_bind hexpr (fun operand => hclose (hpush operand)) blocks s h
        · rw [hreduce]
          exact obeys_bind (P := fun _ _ => False) (obeys_stop (Sequence.proper_takesFirst he))
            fun _ _ => False.elim
    · exact hclose hfits blocks s h

theorem keeps_operatorSequence (hexpr : Keeps expr) (fuel : Nat) :
    Keeps (operatorSequence table fuel expr) :=
  keeps_bind (keeps_application hexpr fuel) fun _ =>
    keeps_sequenceMore (keeps_application hexpr fuel) hexpr fuel rfl

theorem keeps_letExpr (hexpr : Keeps expr) (fuel : Nat) : Keeps (letExpr fuel expr) :=
  keeps_bind (keeps_expect (by decide) rfl) fun _ =>
    keeps_bind (Pattern.Parser.keeps_basePattern fuel) fun _ =>
      keeps_bind (keeps_discard (keeps_expect (by decide) rfl)) fun _ => keeps_bind hexpr fun _ =>
        keeps_bind (keeps_discard (keeps_expect (by decide) rfl)) fun _ =>
          keeps_bind hexpr fun _ => keeps_pure _

theorem keeps_condition (hexpr : Keeps expr) : Keeps (condition expr) :=
  keeps_bind (keeps_expect (by decide) rfl) fun _ => keeps_bind hexpr fun _ =>
    keeps_bind (keeps_discard (keeps_expect (by decide) rfl)) fun _ => keeps_bind hexpr fun _ =>
      keeps_bind (keeps_discard (keeps_expect (by decide) rfl)) fun _ =>
        keeps_bind hexpr fun _ => keeps_pure _

theorem keeps_lambda (hexpr : Keeps expr) (fuel : Nat) : Keeps (lambda fuel expr) :=
  keeps_bind (keeps_expect (by decide) rfl) fun _ =>
    keeps_bind (Pattern.Parser.keeps_basePattern fuel) fun _ =>
      keeps_bind (keeps_discard (keeps_expect (by decide) rfl)) fun _ =>
        keeps_bind hexpr fun _ => keeps_pure _

theorem keeps_caseOption (hexpr : Keeps expr) (fuel : Nat) : Keeps (caseOption fuel expr) :=
  keeps_bind
    (Pattern.Parser.keeps_openPattern (Pattern.Parser.keeps_basePattern fuel) fuel) fun _ =>
    keeps_bind (keeps_discard (keeps_expect (by decide) rfl)) fun _ =>
      keeps_bind hexpr fun _ => keeps_pure _

/-- **A `case` enters and leaves its block.** -/
theorem keeps_caseExpr (hexpr : Keeps expr) (fuel : Nat) : Keeps (caseExpr fuel expr) := by
  intro blocks s h
  refine obeys_bind (keeps_expect (by decide) rfl blocks s h) fun _ s₁ hs₁ => ?_
  refine obeys_bind (hexpr blocks s₁ hs₁) fun _ s₂ hs₂ => ?_
  -- `of` is the only token behind which the accounts are not in step, until the block begins
  have hof : Obeys Lockstep Failure.Proper (expect (.keyword .ofWord)) blocks s₂ fun _ s' =>
      s'.BehindOf blocks := by
    refine obeys_expect (hs₂.lockstep (by simp)) ?_
    intro t s' hadvance ht
    exact hs₂.advance_of hadvance (by rw [ht]; rfl)
  refine obeys_bind hof fun _ s₃ hs₃ => ?_
  exact obeys_bind (obeys_block (keeps_caseOption hexpr fuel) fuel hs₃)
    fun _ s₄ hs₄ => obeys_pure hs₄

/-- **Reading an expression keeps the accounts in step.** -/
theorem keeps_expr (table : OperatorTable) (fuel : Nat) : Keeps (Parser.expr table fuel) := by
  induction fuel with
  | zero => exact keeps_stop proper_exhausted
  | succ fuel ih =>
    rw [Parser.expr]
    refine keeps_peek_bind fun t blocks s h hseen => ?_
    split
    · exact keeps_letExpr ih fuel blocks s h
    · exact keeps_condition ih blocks s h
    · exact keeps_lambda ih fuel blocks s h
    · exact keeps_caseExpr ih fuel blocks s h
    · split
      · exact keeps_operatorSequence ih fuel blocks s h
      · exact keeps_failUnexpected (by decide) t blocks s h

theorem keeps_whole (table : OperatorTable) (fuel : Nat) : Keeps (whole table fuel) :=
  keeps_bind (keeps_expr table fuel) fun _ =>
    keeps_bind (keeps_discard (keeps_expect (by decide) rfl)) fun _ => keeps_pure _

end Expr.Parser

/-- **Blocks and columns stay in lockstep** throughout a parse, for every table and every text.
Whenever the parser performs an operation, as many blocks are being read as there are columns on the
layout's stack and ends of blocks that wait, and when the text has been read there are none.
Whenever the parser closes a block, the stack holds the columns of exactly the blocks that are being
read, and that of the innermost one is popped.  So no text is refused because a block cannot be
closed. -/
theorem Expr.blocks_lockstep (table : OperatorTable) (fuel : Nat) (text : String) :
    (∀ operation blocks s,
      (Expr.Parser.whole table fuel).Visits [] (TokenStream.ofString text) operation blocks s →
        blocks.length = s.layout.columns.length + Token.openEnds s.waiting ∧
          (operation = .close → ∃ column outer, blocks = column :: outer ∧
            s.layout.columns = column :: outer ∧
            s.closeInnermost = (true, { s with layout := { s.layout with columns := outer } }))) ∧
      (∀ e s, (Expr.Parser.whole table fuel).run (TokenStream.ofString text) = .ok (e, s) →
        s.layout.columns.length + Token.openEnds s.waiting = 0) ∧
      ∀ found, Expr.parseWith table text ≠ .error (.unexpected "end of block" found) := by
  have hstart := TokenStream.inStep_ofString text
  refine ⟨?_, ?_, ?_⟩
  · -- every operation is performed with the accounts in step
    intro operation blocks s hvisits
    have hlockstep := (Expr.Parser.keeps_whole table fuel [] _ hstart).visits _ _ _ hvisits
    refine ⟨hlockstep.length_eq, fun hclose => ?_⟩
    obtain ⟨hcolumns, hne⟩ := hlockstep.close hclose
    obtain ⟨column, outer, rfl⟩ := List.exists_cons_of_ne_nil hne
    refine ⟨column, outer, rfl, hcolumns, ?_⟩
    simp [TokenStream.closeInnermost, Layout.closeInnermost, hcolumns]
  · intro e s hrun
    have hend := (Expr.Parser.keeps_whole table fuel [] _ hstart).ok e s hrun
    have hlockstep : Lockstep .look [] s := hend.lockstep (by simp)
    exact hlockstep.length_eq.symm
  · -- the parser would only say so when a block cannot be closed
    intro found hparse
    have hproper := (Expr.Parser.keeps_whole table ((TokenStream.ofString text).size + 1) []
      _ hstart).error
    rw [Expr.parseWith] at hparse
    split at hparse
    · simp at hparse
    · rename_i e hrun
      obtain rfl : e = .unexpected "end of block" found := by simpa using hparse
      exact (hproper _ hrun).2 found rfl
    · simp at hparse

end CallByNeed

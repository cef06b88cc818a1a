import CallByNeed.Proofs.Completion.Items
import CallByNeed.Proofs.Lockstep

/-!
# Every parser goes on

Each parser of the language goes on behind the end of a text (`Expr.Parser.goesOn_expr`).  There is
one lemma for each parser; those for parsers that take another one as an argument assume it of that
one.  Where an expression or a pattern is missing, the number 1 will do, and where a token is
missing, that token.  A parser of further parts, such as the arguments of a function, misses
nothing: it stops at the end of the text, and in front of every filler that starts no such part.
-/

namespace CallByNeed

open TokenStream (endToken)
open Filler (Closing)

/-! ### Patterns -/

namespace Pattern.Parser

open CallByNeed.Parser

variable {text : String} {R : List Filler → Prop} {k m : Nat} {n : List Char → Nat}
  {rest : List Filler} {blocks : List Nat} {u v : TokenStream} {t : Located Token}
  {base : CallByNeed.Parser Pattern} {base' : List Char → CallByNeed.Parser Pattern}

theorem continues_leaf (make : Span → Pattern) (hu : u.Reading text blocks)
    (hseen : u.lookahead = some t) (hend : t.value ≠ .blockEnd) (hof : t.value.opensBlock = false) :
    Continues text R blocks blocks (leaf make) (fun _ => leaf make) u :=
  (continues_advance hu hseen hend hof).map fun t => make t.span

/-- A closing filler goes on with no open pattern. -/
theorem attains_openMore (hrest : Closing rest)
    (hv : v.Yields (List.replicate k .close ++ Filler.cues rest)) (n : Nat) :
    Attains (openMore base n) v fun ps v' =>
      ps = [] ∧ v'.Yields (List.replicate k .close ++ Filler.cues rest) := by
  cases n with
  | zero => exact .inl rfl
  | succ n =>
    rw [openMore]
    refine attains_peek hv fun t v' ht => ?_
    split
    · rename_i symbol hsymbol
      exact absurd (ht.symm.trans hsymbol) (Filler.first_ne_operator hrest symbol)
    · rfl

theorem atEnd_openMore (m : Nat) (n : List Char → Nat) :
    AtEnd text Closing k k [] (openMore base m) (fun more => openMore (base' more) (n more)) := by
  refine .stops [] (fun u hu => ?_) fun more v rest hrest hv => attains_openMore hrest hv (n more)
  cases m with
  | zero => exact .inl rfl
  | succ m =>
    rw [openMore]
    refine attains_peek_of_ended hu fun u => ?_
    cases k <;> rfl

theorem goesOn_openMore (hbase : GoesOn text Closing [.one] blocks blocks base base')
    (hmn : ∀ more, m ≤ n more) :
    GoesOn text Closing [] blocks blocks (openMore base m)
      (fun more => openMore (base' more) (n more)) := by
  induction m generalizing n with
  | zero => exact ⟨fun u _ => .exhausted rfl, atEnd_openMore 0 n⟩
  | succ m ih =>
    obtain ⟨n, rfl, hle⟩ := exists_fuel hmn
    have hend : AtEnd text Closing blocks.length blocks.length [] (openMore base (m + 1))
        (fun more => openMore (base' more) (n more + 1)) :=
      atEnd_openMore (m + 1) fun more => n more + 1
    have hmore := hbase.bind (fun p => (ih hle).map (p :: ·)) id
      fun _ hrest => hrest
    simp only [openMore] at hend ⊢
    refine goesOn_peek_bind hend fun t u hu hseen heof => ?_
    split
    · -- an operator must be the colon with a pattern behind it; every other token ends the list
      rename_i symbol ht
      split
      · exact continues_fail rfl
      · exact continues_take hu hseen (by simp [ht]) (by rw [ht]; rfl) hmore.continues
    · exact continues_pure _ hu

theorem goesOn_openPattern (hbase : GoesOn text Closing [.one] blocks blocks base base')
    (hmn : ∀ more, m ≤ n more) :
    GoesOn text Closing [.one] blocks blocks (openPattern m base)
      (fun more => openPattern (n more) (base' more)) :=
  hbase.bind (fun first => (goesOn_openMore hbase hmn).map (chain first)) id fun _ hrest => hrest

/-- Where a pattern is missing, the number 1 will do. -/
theorem resumes_basePattern (n : Nat) : Resumes R [.one] (basePattern n) := by
  cases n with
  | zero => exact resumes_exhausted
  | succ n =>
    rw [basePattern]
    refine resumes_peek_bind fun t ht => ?_
    rw [ht]
    exact (resumes_advance (by simp)).map _

theorem lacks_basePattern (m : Nat) : Lacks text k (basePattern m) := by
  cases m with
  | zero => exact lacks_exhausted
  | succ m =>
    rw [basePattern]
    refine lacks_peek_bind ?_
    cases k <;> exact lacks_failUnexpected "pattern"

/-- **Reading a pattern goes on**, by induction on the fuel. -/
theorem goesOn_basePattern (hmn : ∀ more, m ≤ n more) :
    GoesOn text Closing [.one] blocks blocks (basePattern m)
      (fun more => basePattern (n more)) := by
  have hend (m : Nat) (n : List Char → Nat) : AtEnd text Closing blocks.length blocks.length [.one]
      (basePattern m) (fun more => basePattern (n more)) :=
    .lacks (by simp) (lacks_basePattern m) fun _ more => resumes_basePattern (n more)
  induction m generalizing n with
  | zero => exact ⟨fun u _ => .exhausted rfl, hend 0 n⟩
  | succ m ih =>
    obtain ⟨n, rfl, hle⟩ := exists_fuel hmn
    have hopen := goesOn_openPattern (ih hle) hle
    have hpeek := hend (m + 1) fun more => n more + 1
    simp only [basePattern] at hpeek ⊢
    refine goesOn_peek_bind hpeek fun t u hu hseen heof => ?_
    split
    -- names, truth values, numbers and wildcards are patterns by themselves
    case h_1 | h_2 | h_3 | h_4 =>
      rename_i ht
      exact continues_leaf _ hu hseen (by simp [ht]) (by rw [ht]; rfl)
    · exact (continues_delimited .parenRight (.inl rfl) hopen hle hu hseen heof
        (by simp) rfl).map fun r => ofParens r.2 r.1
    · exact (continues_delimited .bracketRight (.inr rfl) hopen hle hu hseen heof
        (by simp) rfl).map fun r => ofBrackets r.2 r.1
    · exact continues_failUnexpected heof "pattern"

end Pattern.Parser

/-! ### Operator sequences -/

/-- Operators that conflict are no reason to wait for more. -/
theorem Sequence.isIncomplete_of_takesFirst {top : Waiting} {symbol : String} {op : Operator}
    {e : ParseError} (h : takesFirst top symbol op = .error e) : e.isIncomplete = false := by
  unfold takesFirst at h
  dsimp only at h
  repeat' split at h
  all_goals first
    | (simp only [Except.error.injEq] at h; rw [← h]; rfl)
    | simp at h

namespace Expr.Parser

open CallByNeed.Parser

variable {text : String} {R : List Filler → Prop} {k m : Nat} {n : List Char → Nat}
  {rest : List Filler} {blocks : List Nat} {u v : TokenStream} {t : Located Token}
  {table : OperatorTable} {base operand expr : CallByNeed.Parser Expr}
  {base' operand' expr' : List Char → CallByNeed.Parser Expr}

theorem continues_leaf (make : Span → Expr) (hu : u.Reading text blocks)
    (hseen : u.lookahead = some t) (hend : t.value ≠ .blockEnd) (hof : t.value.opensBlock = false) :
    Continues text R blocks blocks (leaf make) (fun _ => leaf make) u :=
  (continues_advance hu hseen hend hof).map fun t => make t.span

/-- Where an expression is missing, the number 1 will do. -/
theorem resumes_baseExpr (n : Nat) : Resumes R [.one] (baseExpr n expr) := by
  refine resumes_peek_bind fun t ht => ?_
  rw [ht]
  exact (resumes_advance (by simp)).map _

theorem lacks_baseExpr (m : Nat) : Lacks text k (baseExpr m expr) := by
  refine lacks_peek_bind ?_
  cases k <;> exact lacks_failUnexpected "expression"

theorem goesOn_baseExpr (hexpr : GoesOn text Closing [.one] blocks blocks expr expr')
    (hmn : ∀ more, m ≤ n more) :
    GoesOn text Closing [.one] blocks blocks (baseExpr m expr)
      (fun more => baseExpr (n more) (expr' more)) := by
  have hend : AtEnd text Closing blocks.length blocks.length [.one] (baseExpr m expr)
      (fun more => baseExpr (n more) (expr' more)) :=
    .lacks (by simp) (lacks_baseExpr m) fun _ more => resumes_baseExpr (n more)
  refine goesOn_peek_bind hend fun t u hu hseen heof => ?_
  split
  case h_1 | h_2 | h_3 =>
    rename_i ht
    exact continues_leaf _ hu hseen (by simp [ht]) (by rw [ht]; rfl)
  · exact (continues_delimited .parenRight (.inl rfl) hexpr hmn hu hseen heof
      (by simp) rfl).map fun r => ofParens r.2 r.1
  · exact (continues_delimited .bracketRight (.inr rfl) hexpr hmn hu hseen heof
      (by simp) rfl).map fun r => ofBrackets r.2 r.1
  · exact continues_failUnexpected heof "expression"

/-- A closing filler is no argument. -/
theorem attains_arguments (hrest : Closing rest)
    (hv : v.Yields (List.replicate k .close ++ Filler.cues rest)) (n : Nat) (func : Expr) :
    Attains (arguments base n func) v fun e v' =>
      e = func ∧ v'.Yields (List.replicate k .close ++ Filler.cues rest) := by
  cases n with
  | zero => exact .inl rfl
  | succ n =>
    rw [arguments]
    refine attains_peek hv fun t v' ht => ?_
    have hbegins := beginsBase_of_endsSequence (Filler.first_of_closing hrest).1
    rw [if_neg (by simp [ht, hbegins])]
    rfl

theorem atEnd_arguments (m : Nat) (n : List Char → Nat) (func : Expr) :
    AtEnd text Closing k k [] (arguments base m func)
      (fun more => arguments (base' more) (n more) func) := by
  refine .stops func (fun u hu => ?_) fun more v rest hrest hv =>
    attains_arguments hrest hv (n more) func
  cases m with
  | zero => exact .inl rfl
  | succ m =>
    rw [arguments]
    refine attains_peek_of_ended hu fun u => ?_
    cases k <;> rfl

theorem goesOn_arguments (hbase : GoesOn text Closing [.one] blocks blocks base base')
    (hmn : ∀ more, m ≤ n more) (func : Expr) :
    GoesOn text Closing [] blocks blocks (arguments base m func)
      (fun more => arguments (base' more) (n more) func) := by
  induction m generalizing n func with
  | zero => exact ⟨fun u _ => .exhausted rfl, atEnd_arguments 0 n func⟩
  | succ m ih =>
    obtain ⟨n, rfl, hle⟩ := exists_fuel hmn
    have hend : AtEnd text Closing blocks.length blocks.length [] (arguments base (m + 1) func)
        (fun more => arguments (base' more) (n more + 1) func) :=
      atEnd_arguments (m + 1) (fun more => n more + 1) func
    have hmore := hbase.bind (fun arg => ih hle (func.applyTo arg)) id
      fun _ hrest => hrest
    simp only [arguments] at hend ⊢
    refine goesOn_peek_bind hend fun t u hu hseen heof => ?_
    split
    · -- an argument follows, or the application is complete
      exact hmore.continues u hu
    · exact continues_pure func hu

theorem goesOn_application (hexpr : GoesOn text Closing [.one] blocks blocks expr expr')
    (hmn : ∀ more, m ≤ n more) :
    GoesOn text Closing [.one] blocks blocks (application m expr)
      (fun more => application (n more) (expr' more)) :=
  have hbase := goesOn_baseExpr hexpr hmn
  hbase.bind (fun func => goesOn_arguments hbase hmn func) id fun _ hrest => hrest

theorem resumes_application (n : Nat) : Resumes Closing [.one] (application n expr) := by
  have harguments (func : Expr) : Resumes Closing [] (arguments (baseExpr n expr) n func) :=
    fun v rest hrest hv => attains_mono (attains_arguments (k := 0) hrest hv n func)
      fun _ _ h => h.2
  exact (resumes_baseExpr n).bind harguments fun _ hrest => hrest

/-- A closing filler ends an operator sequence. -/
theorem attains_sequenceMore {operators : List Waiting} {operands : List Expr} {e : Expr}
    (hclose : Sequence.close Waiting.complete operators operands = .ok e) (hrest : Closing rest)
    (hv : v.Yields (List.replicate k .close ++ Filler.cues rest)) (n : Nat) :
    Attains (sequenceMore table operand expr n operators operands) v fun e' v' =>
      e' = e ∧ v'.Yields (List.replicate k .close ++ Filler.cues rest) := by
  cases n with
  | zero => exact .inl rfl
  | succ n =>
    rw [sequenceMore]
    refine attains_peek hv fun t v' ht => ?_
    split
    · rename_i symbol hsymbol
      exact absurd (ht.symm.trans hsymbol) (Filler.first_ne_operator hrest symbol)
    · rw [hclose]
      rfl

theorem atEnd_sequenceMore {operators : List Waiting} {operands : List Expr}
    (hfits : Sequence.Fits operators operands) (m : Nat) (n : List Char → Nat) :
    AtEnd text Closing k k [] (sequenceMore table operand expr m operators operands)
      (fun more =>
        sequenceMore table (operand' more) (expr' more) (n more) operators operands) := by
  obtain ⟨e, he⟩ := Sequence.fits_close Waiting.complete hfits
  refine .stops e (fun u hu => ?_) fun more v rest hrest hv =>
    attains_sequenceMore he hrest hv (n more)
  cases m with
  | zero => exact .inl rfl
  | succ m =>
    rw [sequenceMore]
    refine attains_peek_of_ended hu fun u => ?_
    cases k <;> exact (congrArg (fun r => (ofExcept r).run u) he).trans rfl

/-- **What comes behind an operator** is read in two ways, both of which a number satisfies. -/
theorem goesOn_operand {x z : CallByNeed.Parser Expr} {x' z' : List Char → CallByNeed.Parser Expr}
    (hx : GoesOn text Closing [.one] blocks blocks x x')
    (hz : GoesOn text Closing [.one] blocks blocks z z') :
    GoesOn text Closing [.one] blocks blocks (do if (← peek).value.beginsBase then x else z)
      (fun more => do if (← peek).value.beginsBase then x' more else z' more) := by
  have hnone : (endToken text blocks.length).value.beginsBase = false := by
    cases blocks <;> rfl
  refine goesOn_peek_bind (.lacks (by simp) (lacks_peek_bind ?_) fun hk more => ?_)
    fun t u hu hseen heof => ?_
  · rw [if_neg (by simp [hnone])]
    exact hz.atEnd.lacks_of_cons
  · refine resumes_peek_bind fun t ht => ?_
    rw [if_pos (by rw [ht]; rfl)]
    exact hx.atEnd.resumes hk hk more
  · split
    · exact hx.continues u hu
    · exact hz.continues u hu

/-- The operators and operands of a sequence. -/
theorem goesOn_sequenceMore (hoperand : GoesOn text Closing [.one] blocks blocks operand operand')
    (hexpr : GoesOn text Closing [.one] blocks blocks expr expr') (hmn : ∀ more, m ≤ n more)
    {operators : List Waiting} {operands : List Expr} (hfits : Sequence.Fits operators operands) :
    GoesOn text Closing [] blocks blocks (sequenceMore table operand expr m operators operands)
      (fun more =>
        sequenceMore table (operand' more) (expr' more) (n more) operators operands) := by
  -- stacks that fit can be closed, whatever stands in them
  have hclose {operators : List Waiting} {operands : List Expr}
      (hfits : Sequence.Fits operators operands) : GoesOn text Closing [] blocks blocks
        (ofExcept (Sequence.close Waiting.complete operators operands))
        (fun _ => ofExcept (Sequence.close Waiting.complete operators operands)) := by
    obtain ⟨e, he⟩ := Sequence.fits_close Waiting.complete hfits
    rw [he]
    exact goesOn_pure e
  induction m generalizing n operators operands with
  | zero => exact ⟨fun u _ => .exhausted rfl, atEnd_sequenceMore hfits 0 n⟩
  | succ m ih =>
    obtain ⟨n, rfl, hle⟩ := exists_fuel hmn
    have hend : AtEnd text Closing blocks.length blocks.length []
        (sequenceMore table operand expr (m + 1) operators operands)
        (fun more =>
          sequenceMore table (operand' more) (expr' more) (n more + 1) operators operands) :=
      atEnd_sequenceMore hfits (m + 1) fun more => n more + 1
    simp only [sequenceMore] at hend ⊢
    refine goesOn_peek_bind hend fun t u hu hseen heof => ?_
    split
    · rename_i symbol ht
      split
      · exact continues_fail rfl
      · -- operators that are applied before the new one leave stacks that fit, or conflict with it
        rename_i op hop
        refine continues_take hu hseen (by simp [ht]) (by rw [ht]; rfl) fun u hu => ?_
        rcases Sequence.fits_reduceFor Waiting.complete symbol op hfits with
          ⟨operators', operands', hreduce, hfits'⟩ | ⟨top, -, e, hreduce, he⟩
        · -- the operator and the operand behind it are pushed together, with which the stacks fit
          have hpush (operand : Expr) :
              Sequence.Fits (⟨symbol, op, t.span⟩ :: operators') (operand :: operands') := by
            simpa [Sequence.Fits] using hfits'
          have hmore := hoperand.bind
            (fun operand => ih hle (hpush operand)) id fun _ hrest => hrest
          have hlast := hexpr.bind (fun operand => hclose (hpush operand)) id fun _ hrest => hrest
          rw [hreduce]
          refine Continues.congr ?_ (run_bind_ok rfl) fun more => .inr (run_bind_ok rfl)
          exact (goesOn_operand hmore hlast).continues u hu
        · rw [hreduce]
          exact continues_of_error (Sequence.isIncomplete_of_takesFirst he) (run_bind_error rfl)
            fun _ => run_bind_error rfl
    · exact (hclose hfits).continues u hu

theorem goesOn_operatorSequence (hexpr : GoesOn text Closing [.one] blocks blocks expr expr')
    (hmn : ∀ more, m ≤ n more) :
    GoesOn text Closing [.one] blocks blocks (operatorSequence table m expr)
      (fun more => operatorSequence table (n more) (expr' more)) :=
  have happlication := goesOn_application hexpr hmn
  happlication.bind (fun _ => goesOn_sequenceMore happlication hexpr hmn rfl) id
    fun _ hrest => hrest

theorem resumes_operatorSequence (n : Nat) :
    Resumes Closing [.one] (operatorSequence table n expr) := by
  have hmore (first : Expr) : Resumes Closing []
      (sequenceMore table (application n expr) expr n [] [first]) :=
    fun v rest hrest hv => attains_mono (attains_sequenceMore (k := 0) rfl hrest hv n)
      fun _ _ h => h.2
  exact (resumes_application n).bind hmore fun _ hrest => hrest

/-! ### Keyword expressions -/

section Keywords

variable (hexpr : GoesOn text Closing [.one] blocks blocks expr expr')
  (hu : u.Reading text blocks) (hseen : u.lookahead = some t) (heof : t.value ≠ .eof)

include hexpr in
/-- An expression behind an expected token. -/
theorem goesOn_behind {α : Type} {f : Filler} (hf : f ≠ .ofWord) (h : Expr → α) :
    GoesOn text Closing [f, .one] blocks blocks (do discard <| expect f.token; return h (← expr))
      (fun more => do discard <| expect f.token; return h (← expr' more)) :=
  (goesOn_expect (R := fun _ => True) hf).discard.bind (fun _ => hexpr.map h) id
    fun _ _ => trivial

include hexpr hu hseen heof

theorem continues_letExpr (hmn : ∀ more, m ≤ n more) :
    Continues text Closing blocks blocks (letExpr m expr)
      (fun more => letExpr (n more) (expr' more)) u := by
  have hin (start : Located Token) (pattern : Pattern) (value : Expr) := goesOn_behind hexpr
    (f := .inWord) (by simp) fun body => Expr.bind (start.span.merge body.span) pattern value body
  have hvalue (start : Located Token) (pattern : Pattern) :=
    hexpr.bind (hin start pattern) id (by simp)
  have hequals (start : Located Token) (pattern : Pattern) :=
    (goesOn_expect (f := .equals) (R := fun _ => True) (by simp)).discard.bind
      (fun _ => hvalue start pattern) id fun _ _ => trivial
  have hpattern (start : Located Token) :=
    (Pattern.Parser.goesOn_basePattern hmn).bind (hequals start) id (by simp)
  exact (continues_expect (R := fun _ => True) hu hseen heof (by simp) rfl).bind hpattern id
    fun _ _ => trivial

theorem continues_condition :
    Continues text Closing blocks blocks (condition expr) (fun more => condition (expr' more))
      u := by
  have helse (start : Located Token) (test yes : Expr) := goesOn_behind hexpr (f := .elseWord)
    (by simp) fun no => Expr.condition (start.span.merge no.span) test yes no
  have hyes (start : Located Token) (test : Expr) := hexpr.bind (helse start test) id (by simp)
  have hthen (start : Located Token) (test : Expr) :=
    (goesOn_expect (f := .thenWord) (R := fun _ => True) (by simp)).discard.bind
      (fun _ => hyes start test) id fun _ _ => trivial
  have htest (start : Located Token) := hexpr.bind (hthen start) id (by simp)
  exact (continues_expect (R := fun _ => True) hu hseen heof (by simp) rfl).bind htest id
    fun _ _ => trivial

theorem continues_lambda (hmn : ∀ more, m ≤ n more) :
    Continues text Closing blocks blocks (lambda m expr)
      (fun more => lambda (n more) (expr' more)) u := by
  have hbody (start : Located Token) (param : Pattern) := goesOn_behind hexpr (f := .arrow)
    (by simp) fun body => Expr.lambda (start.span.merge body.span) param body
  have hparam (start : Located Token) :=
    (Pattern.Parser.goesOn_basePattern hmn).bind (hbody start) id (by simp)
  exact (continues_expect (R := fun _ => True) hu hseen heof (by simp) rfl).bind hparam id
    fun _ _ => trivial

omit hexpr hu hseen heof

theorem goesOn_caseOption (hexpr : GoesOn text Closing [.one] blocks blocks expr expr')
    (hmn : ∀ more, m ≤ n more) :
    GoesOn text Closing [.one, .arrow, .one] blocks blocks (caseOption m expr)
      (fun more => caseOption (n more) (expr' more)) :=
  (Pattern.Parser.goesOn_openPattern (Pattern.Parser.goesOn_basePattern hmn) hmn).bind
    (fun pattern => goesOn_behind hexpr (by simp) fun body => (pattern, body)) id (by simp)

/-- **A `case`**, of which the options are read inside of a block. -/
theorem continues_caseExpr
    (hexpr : ∀ blocks, GoesOn text Closing [.one] blocks blocks expr expr')
    (hu : u.Reading text blocks) (hseen : u.lookahead = some t) (heof : t.value ≠ .eof)
    (hmn : ∀ more, m ≤ n more) :
    Continues text Closing blocks blocks (caseExpr m expr)
      (fun more => caseExpr (n more) (expr' more)) u := by
  have hoption (column : Nat) := goesOn_caseOption (hexpr (column :: blocks)) hmn
  have hsubject (h : Expr → Located Token → List (Pattern × Expr) → Expr) :
      GoesOn text Closing [.one, .ofWord] blocks blocks
        (do let subject ← expr; ofBlock m Token.beginsPattern (caseOption m expr) (h subject))
        (fun more => do
          let subject ← expr' more
          ofBlock (n more) Token.beginsPattern (caseOption (n more) (expr' more)) (h subject)) :=
    (hexpr blocks).bind (fun subject => goesOn_ofBlock (fun _ h => (Filler.first_of_closing h).2)
      hoption hmn (h subject)) id (by simp)
  exact (continues_expect (R := fun _ => True) hu hseen heof (by simp) rfl).bind
    (fun _ => hsubject _) id fun _ _ => trivial

end Keywords

/-! ### Expressions -/

theorem lacks_expr (m : Nat) : Lacks text k (Parser.expr table m) := by
  cases m with
  | zero => exact lacks_exhausted
  | succ m =>
    rw [Parser.expr]
    refine lacks_peek_bind ?_
    cases k <;> exact lacks_failUnexpected "expression"

theorem resumes_expr (n : Nat) : Resumes Closing [.one] (Parser.expr table n) := by
  cases n with
  | zero => exact resumes_exhausted
  | succ n =>
    rw [Parser.expr]
    refine resumes_peek_bind fun t ht => ?_
    rw [ht]
    exact resumes_operatorSequence n

/-- **Reading an expression goes on**, by induction on the fuel. -/
theorem goesOn_expr (hmn : ∀ more, m ≤ n more) :
    GoesOn text Closing [.one] blocks blocks (Parser.expr table m)
      (fun more => Parser.expr table (n more)) := by
  have hend (blocks : List Nat) (m : Nat) (n : List Char → Nat) :
      AtEnd text Closing blocks.length blocks.length [.one] (Parser.expr table m)
        (fun more => Parser.expr table (n more)) :=
    .lacks (by simp) (lacks_expr m) fun _ more => resumes_expr (n more)
  induction m generalizing n blocks with
  | zero => exact ⟨fun u _ => .exhausted rfl, hend blocks 0 n⟩
  | succ m ih =>
    obtain ⟨n, rfl, hle⟩ := exists_fuel hmn
    have hpeek := hend blocks (m + 1) fun more => n more + 1
    simp only [Parser.expr] at hpeek ⊢
    refine goesOn_peek_bind hpeek fun t u hu hseen heof => ?_
    split
    · -- the word that is next decides on the form, and each form has its own lemma
      exact continues_letExpr (ih hle) hu hseen heof hle
    · exact continues_condition (ih hle) hu hseen heof
    · exact continues_lambda (ih hle) hu hseen heof hle
    · exact continues_caseExpr (fun blocks => ih hle) hu hseen heof hle
    · split
      · exact (goesOn_operatorSequence (ih hle) hle).continues u hu
      · exact continues_failUnexpected heof "expression"

end Expr.Parser

end CallByNeed

import CallByNeed.Expr.Parser
import CallByNeed.Proofs.Reading.Pattern

/-!
# Reading the cues of an expression

The cues of an expression are the tokens of its canonical text, with the token that opens the block
of a `case`, those between its options, and the place at which the closing bracket ends the block.
On a stream that yields the cues of a printable expression, the parser of base expressions reads
that expression up to spans and leaves the stream behind it (`Expr.readBack_of_printable`).

The induction is on the expression, with one lemma for each way to build one.  A compound expression
stands in brackets, and what is inside is again read as an expression (`readBack_of_inner`); a part
of it is read as an expression too, as an operator sequence of one operand (`ReadBack.runs_expr`).
-/

namespace CallByNeed

/-- Cues in round brackets. -/
def Cue.parens (cues : List Cue) : List Cue :=
  .token .parenLeft :: (cues ++ [.token .parenRight])

/-- The token ends an operator sequence. -/
def Token.endsSequence : Token → Bool
  | operator _ => false
  | t => !t.beginsBase

namespace Expr

mutual

/-- The cues of an expression. -/
def cues : Expr → List Cue
  | boolean _ value => [.token (.boolean value)]
  | integer _ value => [.token (.integer value.toNat)]
  | identifier _ name => [.token (.identifier name)]
  | condition _ test yes no =>
    Cue.parens (.token (.keyword .ifWord) :: (test.cues ++ .token (.keyword .thenWord) ::
      (yes.cues ++ .token (.keyword .elseWord) :: no.cues)))
  | binary _ op lhs rhs => Cue.parens (lhs.cues ++ .token (.operator op.text) :: rhs.cues)
  | lambda _ param body =>
    Cue.parens (.token .backslash :: (param.cues ++ .token .arrow :: body.cues))
  | apply _ func arg => Cue.parens (func.cues ++ arg.cues)
  | bind _ pattern value body =>
    Cue.parens (.token (.keyword .letWord) :: (pattern.cues ++ .token .equals ::
      (value.cues ++ .token (.keyword .inWord) :: body.cues)))
  | cases _ subject options =>
    Cue.parens (.token (.keyword .caseWord) :: (subject.cues ++ .token (.keyword .ofWord) ::
      .token .blockBegin :: (Cue.separated .blockDelim true (cuesOptions options) ++ [.close])))
  | tuple _ elems => Cue.parens (Cue.separated .comma true (cuesAll elems))
  | cons _ head tail => Cue.parens (head.cues ++ .token (.operator ":") :: tail.cues)
  | nil _ => [.token .bracketLeft, .token .bracketRight]

/-- The cues of several expressions. -/
def cuesAll : List Expr → List (List Cue)
  | [] => []
  | e :: es => e.cues :: cuesAll es

/-- The cues of the options of a `case`. -/
def cuesOptions : List (Pattern × Expr) → List (List Cue)
  | [] => []
  | (p, e) :: options => (p.cues ++ .token .arrow :: e.cues) :: cuesOptions options

end

mutual

/-- The canonical text of the expression can be read: integers are literals, names are names, and no
tuple has exactly one element. -/
def Printable : Expr → Prop
  | boolean _ _ => True
  | integer _ value => 0 ≤ value ∧ value ≤ Token.maxInteger
  | identifier _ name => IsName name
  | condition _ test yes no => test.Printable ∧ yes.Printable ∧ no.Printable
  | binary _ _ lhs rhs => lhs.Printable ∧ rhs.Printable
  | lambda _ param body => param.Printable ∧ body.Printable
  | apply _ func arg => func.Printable ∧ arg.Printable
  | bind _ pattern value body => pattern.Printable ∧ value.Printable ∧ body.Printable
  | cases _ subject options => subject.Printable ∧ PrintableOptions options
  | tuple _ elems => elems.length ≠ 1 ∧ PrintableAll elems
  | cons _ head tail => head.Printable ∧ tail.Printable
  | nil _ => True

/-- The canonical texts of the expressions can be read. -/
def PrintableAll : List Expr → Prop
  | [] => True
  | e :: es => e.Printable ∧ PrintableAll es

/-- The canonical texts of the options can be read. -/
def PrintableOptions : List (Pattern × Expr) → Prop
  | [] => True
  | (p, e) :: options => p.Printable ∧ e.Printable ∧ PrintableOptions options

end

/-- The cues of one option. -/
def cuesOption (option : Pattern × Expr) : List Cue :=
  option.1.cues ++ .token .arrow :: option.2.cues

theorem cuesAll_eq_map (es : List Expr) : cuesAll es = es.map cues := by
  induction es with
  | nil => rfl
  | cons e es ih => rw [cuesAll, ih, List.map_cons]

theorem cuesOptions_eq_map (options : List (Pattern × Expr)) :
    cuesOptions options = options.map cuesOption := by
  induction options with
  | nil => rfl
  | cons option options ih =>
    obtain ⟨p, e⟩ := option
    rw [cuesOptions, ih, List.map_cons, cuesOption]

/-- The first cue of an expression is a token with which a base expression starts. -/
theorem exists_next_cues (e : Expr) : ∃ t, Cue.next e.cues = some t ∧ t.beginsBase = true := by
  cases e <;> exact ⟨_, rfl, rfl⟩

theorem length_cues_pos (e : Expr) : 0 < e.cues.length := by
  cases e <;> simp [cues, Cue.parens]

@[simp]
theorem same_withSpan (a b : Expr) (span : Span) : a.same (b.withSpan span) = a.same b := by
  cases a <;> cases b <;> rfl

theorem sameAll_of_forall₂ {as bs : List Expr}
    (h : List.Forall₂ (fun a b => a.same b = true) as bs) : sameAll as bs = true := by
  induction h with
  | nil => rfl
  | cons ha _ ih => rw [sameAll, ha, ih, Bool.and_self]

theorem sameOptions_of_forall₂ {as bs : List (Pattern × Expr)}
    (h : List.Forall₂ (fun a b => a.1.same b.1 = true ∧ a.2.same b.2 = true) as bs) :
    sameOptions as bs = true := by
  induction h with
  | nil => rfl
  | cons ha _ ih => rw [sameOptions, ha.1, ha.2, ih, Bool.and_self, Bool.and_self]

end Expr

/-! ### Operator sequences -/

namespace Expr

open CallByNeed.Parser
open CallByNeed.Expr.Parser

/-- The parser of base expressions reads the cues of the expression, whatever is behind them. -/
def ReadBack (e : Expr) : Prop :=
  ∀ fuel s rest, e.cues.length ≤ fuel → s.Yields (e.cues ++ rest) →
    Runs (baseExpr fuel (expr .standard fuel)) s fun e' s' => e.same e' = true ∧ s'.Yields rest

variable {s : TokenStream} {cues rest : List Cue} {t : Token} {fuel : Nat}

/-- A token with which no base expression starts ends the arguments of a function. -/
theorem runs_arguments_nil {base : Parser Expr} {func : Expr} (hs : s.Yields rest)
    (hnext : Cue.next rest = some t) (ht : t.beginsBase = false) (hfuel : 0 < fuel) :
    Runs (arguments base fuel func) s fun e s' => e = func ∧ s'.Yields rest := by
  obtain ⟨fuel, rfl⟩ : ∃ n, fuel = n + 1 := ⟨fuel - 1, by omega⟩
  rw [arguments]
  apply runs_bind (runs_peek hs hnext)
  rintro u s' ⟨hu, hs'⟩
  rw [if_neg (by simp [hu, ht])]
  exact runs_pure ⟨rfl, hs'⟩

/-- An application without arguments. -/
theorem ReadBack.runs_application {e : Expr} (h : e.ReadBack) (hfuel : e.cues.length ≤ fuel)
    (hs : s.Yields (e.cues ++ rest)) (hnext : Cue.next rest = some t) (ht : t.beginsBase = false) :
    Runs (application fuel (expr .standard fuel)) s fun e' s' =>
      e.same e' = true ∧ s'.Yields rest := by
  have hpos := e.length_cues_pos
  apply runs_bind (h fuel s rest hfuel hs)
  rintro e' s₁ ⟨he', hs₁⟩
  apply runs_mono (runs_arguments_nil hs₁ hnext ht (by omega))
  rintro e'' s₂ ⟨rfl, hs₂⟩
  exact ⟨he', hs₂⟩

/-- A token that ends the sequence makes all waiting operators take their operands. -/
theorem runs_sequenceMore_end {table : OperatorTable} {operand expr : Parser Expr}
    {operators : List Waiting} {operands : List Expr} {e : Expr} (hs : s.Yields rest)
    (hnext : Cue.next rest = some t) (ht : t.endsSequence = true) (hfuel : 0 < fuel)
    (hclose : Sequence.close Waiting.complete operators operands = .ok e) :
    Runs (sequenceMore table operand expr fuel operators operands) s fun e' s' =>
      e' = e ∧ s'.Yields rest := by
  obtain ⟨fuel, rfl⟩ : ∃ n, fuel = n + 1 := ⟨fuel - 1, by omega⟩
  rw [sequenceMore]
  apply runs_bind (runs_peek hs hnext)
  rintro u s' ⟨hu, hs'⟩
  split
  · rename_i symbol hsymbol
    rw [← hu, hsymbol] at ht
    simp [Token.endsSequence] at ht
  · apply runs_mono (runs_ofExcept hclose)
    rintro e' s'' ⟨rfl, rfl⟩
    exact ⟨rfl, hs'⟩

theorem beginsBase_of_endsSequence (h : t.endsSequence = true) : t.beginsBase = false := by
  cases t <;> simp_all [Token.endsSequence, Token.beginsBase]

/-- An expression that starts with a base expression is an operator sequence. -/
theorem runs_expr_of_beginsBase {table : OperatorTable} {Q : Expr → TokenStream → Prop}
    (hs : s.Yields cues) (hnext : Cue.next cues = some t) (ht : t.beginsBase = true)
    (h : ∀ s', s'.Yields cues → Runs (operatorSequence table fuel (expr table fuel)) s' Q) :
    Runs (expr table (fuel + 1)) s Q := by
  rw [expr]
  apply runs_bind (runs_peek hs hnext)
  rintro u s' ⟨hu, hs'⟩
  rw [hu]
  cases t <;> first
    | exact h s' hs'
    | simp [Token.beginsBase] at ht

/-- **A part of an expression** is read as an expression in front of a token that ends it. -/
theorem ReadBack.runs_expr {e : Expr} (h : e.ReadBack) (hfuel : e.cues.length < fuel)
    (hs : s.Yields (e.cues ++ rest)) (hnext : Cue.next rest = some t)
    (ht : t.endsSequence = true) :
    Runs (expr .standard fuel) s fun e' s' => e.same e' = true ∧ s'.Yields rest := by
  have hpos := e.length_cues_pos
  obtain ⟨fuel, rfl⟩ : ∃ n, fuel = n + 1 := ⟨fuel - 1, by omega⟩
  obtain ⟨u, hfirst, hu⟩ := e.exists_next_cues
  apply runs_expr_of_beginsBase hs (Cue.next_append hfirst) hu
  intro s' hs'
  apply runs_bind (h.runs_application (by omega) hs' hnext (beginsBase_of_endsSequence ht))
  rintro e' s₁ ⟨he', hs₁⟩
  apply runs_mono (runs_sequenceMore_end hs₁ hnext ht (by omega) rfl)
  rintro e'' s₂ ⟨rfl, hs₂⟩
  exact ⟨he', hs₂⟩

/-- **Two operands with an operator between them.** -/
theorem runs_operator {lhs rhs : Expr} (hl : lhs.ReadBack) (hr : rhs.ReadBack) {symbol : String}
    {op : Operator} (hop : OperatorTable.standard.get? symbol = some op)
    (hfuel : lhs.cues.length + rhs.cues.length < fuel)
    (hs : s.Yields ((lhs.cues ++ .token (.operator symbol) :: rhs.cues) ++ rest))
    (hnext : Cue.next rest = some t) (ht : t.endsSequence = true) :
    Runs (expr .standard fuel) s fun e s' =>
      (∃ span l r, lhs.same l = true ∧ rhs.same r = true ∧ e = op.combine.build span l r) ∧
        s'.Yields rest := by
  have hposl := lhs.length_cues_pos
  have hposr := rhs.length_cues_pos
  obtain ⟨fuel, rfl⟩ : ∃ n, fuel = n + 2 := ⟨fuel - 2, by omega⟩
  obtain ⟨u, hfirst, hu⟩ := lhs.exists_next_cues
  rw [List.append_assoc, List.cons_append] at hs
  apply runs_expr_of_beginsBase hs (Cue.next_append hfirst) hu
  intro s' hs'
  apply runs_bind (hl.runs_application (by omega) hs' rfl rfl)
  rintro l s₁ ⟨hl', hs₁⟩
  rw [sequenceMore]
  apply runs_bind (runs_peek hs₁ rfl)
  rintro v s₂ ⟨hv, hs₂⟩
  rw [hv]
  simp only [hop]
  apply runs_bind (runs_discard (runs_advance hs₂))
  rintro _ s₃ ⟨_, -, hs₃⟩
  -- no operator waits yet, so that this one takes nothing from the stacks
  apply runs_bind (runs_ofExcept rfl)
  rintro _ s₄ ⟨rfl, rfl⟩
  obtain ⟨w, hfirst', hw⟩ := rhs.exists_next_cues
  apply runs_bind (runs_peek hs₃ (Cue.next_append hfirst'))
  rintro x s₅ ⟨hx, hs₅⟩
  rw [if_pos (by rw [hx, hw])]
  apply runs_bind (hr.runs_application (by omega) hs₅ hnext
    (beginsBase_of_endsSequence ht))
  rintro r s₆ ⟨hr', hs₆⟩
  apply runs_mono (runs_sequenceMore_end hs₆ hnext ht (by omega) rfl)
  rintro e s₇ ⟨rfl, hs₇⟩
  exact ⟨⟨_, l, r, hl', hr', rfl⟩, hs₇⟩

/-- **A function and its argument side by side.** -/
theorem runs_apply {func arg : Expr} (hf : func.ReadBack) (ha : arg.ReadBack)
    (hfuel : func.cues.length + arg.cues.length < fuel)
    (hs : s.Yields ((func.cues ++ arg.cues) ++ rest)) (hnext : Cue.next rest = some t)
    (ht : t.endsSequence = true) :
    Runs (expr .standard fuel) s fun e s' =>
      (∀ span, (Expr.apply span func arg).same e = true) ∧ s'.Yields rest := by
  have hposf := func.length_cues_pos
  have hposa := arg.length_cues_pos
  obtain ⟨fuel, rfl⟩ : ∃ n, fuel = n + 2 := ⟨fuel - 2, by omega⟩
  obtain ⟨u, hfirst, hu⟩ := func.exists_next_cues
  obtain ⟨v, hfirst', hv⟩ := arg.exists_next_cues
  rw [List.append_assoc] at hs
  apply runs_expr_of_beginsBase hs (Cue.next_append hfirst) hu
  intro s' hs'
  -- there is no operator: the application is the whole sequence
  have happlication : Runs (application (fuel + 1) (expr .standard (fuel + 1))) s' fun e s'' =>
      (∀ span, (Expr.apply span func arg).same e = true) ∧ s''.Yields rest := by
    apply runs_bind (hf (fuel + 1) s' _ (by omega) hs')
    rintro func' s₁ ⟨hfunc', hs₁⟩
    rw [arguments]
    apply runs_bind (runs_peek hs₁ (Cue.next_append hfirst'))
    rintro x s₂ ⟨hx, hs₂⟩
    rw [if_pos (by rw [hx, hv])]
    apply runs_bind (ha (fuel + 1) s₂ _ (by omega) hs₂)
    rintro arg' s₃ ⟨harg', hs₃⟩
    apply runs_mono (runs_arguments_nil hs₃ hnext (beginsBase_of_endsSequence ht)
      (by omega))
    rintro e s₄ ⟨rfl, hs₄⟩
    exact ⟨fun span => by simp [applyTo, same, hfunc', harg'], hs₄⟩
  apply runs_bind happlication
  rintro e s₁ ⟨he, hs₁⟩
  apply runs_mono (runs_sequenceMore_end hs₁ hnext ht (by omega) rfl)
  rintro e' s₂ ⟨rfl, hs₂⟩
  exact ⟨he, hs₂⟩

/-! ### Expressions in brackets -/

theorem endsSequence_of_mem (h : t ∈ [Token.comma, .parenRight]) : t.endsSequence = true := by
  have key : ∀ t ∈ [Token.comma, .parenRight], t.endsSequence = true := by decide
  exact key t h

/-- **What stands in brackets is read as an expression**, and the brackets only group. -/
theorem readBack_of_inner {e : Expr} {inner : List Cue} (hcues : e.cues = Cue.parens inner)
    (hnext : Cue.next inner = some t) (ht : t ≠ .parenRight)
    (hinner : ∀ fuel, inner.length < fuel →
      Reads (expr .standard fuel) inner [.comma, .parenRight] fun e' => e.same e' = true) :
    e.ReadBack := by
  intro fuel s rest hfuel hs
  have hlength : e.cues.length = inner.length + 2 := by simp [hcues, Cue.parens]
  replace hs : s.Yields (.token .parenLeft :: (inner ++ .token .parenRight :: rest)) := by
    simpa [hcues, Cue.parens] using hs
  apply runs_bind (runs_peek hs rfl)
  rintro u s₁ ⟨hu, hs₁⟩
  rw [hu]
  apply runs_bind (runs_delimited_one (by decide) (hinner fuel (by omega)) hnext ht (by omega) hs₁)
  rintro ⟨es, span⟩ s₂ ⟨⟨e', rfl, he'⟩, hs₂⟩
  exact runs_pure ⟨by simpa [ofParens] using he', hs₂⟩

/-- Literals and names are read back. -/
theorem readBack_of_leaf {e : Expr} (h : e.Printable) (hleaf : e.cues.length = 1) : e.ReadBack := by
  intro fuel s rest hfuel hs
  rw [baseExpr]
  have hleafRun {make : Span → Expr} {s : TokenStream} {t : Token}
      (hs : s.Yields (.token t :: rest)) :
      Runs (leaf make) s fun e' s' => (∃ span, e' = make span) ∧ s'.Yields rest := by
    apply runs_bind (runs_advance hs)
    rintro u s' ⟨-, hs'⟩
    exact runs_pure ⟨⟨u.span, rfl⟩, hs'⟩
  cases e
  case condition | binary | lambda | apply | bind | cases | tuple | cons | nil =>
    simp [Expr.cues, Cue.parens] at hleaf
  -- the spans are those of the text, and `same` does not compare them
  all_goals
    apply runs_bind (runs_peek hs rfl)
    rintro u s₁ ⟨hu, hs₁⟩
    rw [hu]
    apply runs_mono (hleafRun hs₁)
    rintro q s₂ ⟨⟨span, rfl⟩, hs₂⟩
    refine ⟨?_, hs₂⟩
    simp only [same, beq_self_eq_true]
  rw [Int.toNat_of_nonneg h.1, beq_self_eq_true]

/-- **A condition is read back** if its parts are. -/
theorem readBack_condition {span : Span} {test yes no : Expr} (htest : test.ReadBack)
    (hyes : yes.ReadBack) (hno : no.ReadBack) : (Expr.condition span test yes no).ReadBack := by
  refine readBack_of_inner rfl rfl (by decide) fun fuel hfuel s rest t ht hnext hs => ?_
  -- the length of the cues bounds the fuel, and each part takes its share
  simp only [List.length_cons, List.length_append] at hfuel
  simp only [List.cons_append, List.append_assoc] at hs
  obtain ⟨fuel, rfl⟩ : ∃ n, fuel = n + 1 := ⟨fuel - 1, by omega⟩
  rw [expr]
  apply runs_bind (runs_peek hs rfl)
  rintro u s₁ ⟨hu, hs₁⟩
  rw [hu]
  apply runs_bind (runs_expect hs₁)
  rintro start s₂ ⟨-, hs₂⟩
  apply runs_bind (htest.runs_expr (by omega) hs₂ rfl rfl)
  rintro test' s₃ ⟨htest', hs₃⟩
  apply runs_bind (runs_discard (runs_expect hs₃))
  rintro _ s₄ ⟨_, -, hs₄⟩
  apply runs_bind (hyes.runs_expr (by omega) hs₄ rfl rfl)
  rintro yes' s₅ ⟨hyes', hs₅⟩
  apply runs_bind (runs_discard (runs_expect hs₅))
  rintro _ s₆ ⟨_, -, hs₆⟩
  apply runs_bind (hno.runs_expr (by omega) hs₆ hnext (endsSequence_of_mem ht))
  rintro no' s₇ ⟨hno', hs₇⟩
  exact runs_pure ⟨by simp [same, htest', hyes', hno'], hs₇⟩

/-- **A function is read back** if its parameter and its body are. -/
theorem readBack_lambda {span : Span} {param : Pattern} {body : Expr} (hparam : param.ReadBack)
    (hbody : body.ReadBack) : (Expr.lambda span param body).ReadBack := by
  refine readBack_of_inner rfl rfl (by decide) fun fuel hfuel s rest t ht hnext hs => ?_
  simp only [List.length_cons, List.length_append] at hfuel
  simp only [List.cons_append, List.append_assoc] at hs
  obtain ⟨fuel, rfl⟩ : ∃ n, fuel = n + 1 := ⟨fuel - 1, by omega⟩
  rw [expr]
  apply runs_bind (runs_peek hs rfl)
  rintro u s₁ ⟨hu, hs₁⟩
  rw [hu]
  apply runs_bind (runs_expect hs₁)
  rintro start s₂ ⟨-, hs₂⟩
  apply runs_bind (hparam fuel s₂ _ (by omega) hs₂)
  rintro param' s₃ ⟨hparam', hs₃⟩
  apply runs_bind (runs_discard (runs_expect hs₃))
  rintro _ s₄ ⟨_, -, hs₄⟩
  apply runs_bind (hbody.runs_expr (by omega) hs₄ hnext (endsSequence_of_mem ht))
  rintro body' s₅ ⟨hbody', hs₅⟩
  exact runs_pure ⟨by simp [same, hparam', hbody'], hs₅⟩

/-- **A `let` is read back** if its parts are. -/
theorem readBack_bind {span : Span} {pattern : Pattern} {value body : Expr}
    (hpattern : pattern.ReadBack) (hvalue : value.ReadBack) (hbody : body.ReadBack) :
    (Expr.bind span pattern value body).ReadBack := by
  refine readBack_of_inner rfl rfl (by decide) fun fuel hfuel s rest t ht hnext hs => ?_
  -- the length of the cues bounds the fuel, and each part takes its share
  simp only [List.length_cons, List.length_append] at hfuel
  simp only [List.cons_append, List.append_assoc] at hs
  obtain ⟨fuel, rfl⟩ : ∃ n, fuel = n + 1 := ⟨fuel - 1, by omega⟩
  rw [expr]
  apply runs_bind (runs_peek hs rfl)
  rintro u s₁ ⟨hu, hs₁⟩
  rw [hu]
  apply runs_bind (runs_expect hs₁)
  rintro start s₂ ⟨-, hs₂⟩
  apply runs_bind (hpattern fuel s₂ _ (by omega) hs₂)
  rintro pattern' s₃ ⟨hpattern', hs₃⟩
  apply runs_bind (runs_discard (runs_expect hs₃))
  rintro _ s₄ ⟨_, -, hs₄⟩
  apply runs_bind (hvalue.runs_expr (by omega) hs₄ rfl rfl)
  rintro value' s₅ ⟨hvalue', hs₅⟩
  apply runs_bind (runs_discard (runs_expect hs₅))
  rintro _ s₆ ⟨_, -, hs₆⟩
  apply runs_bind (hbody.runs_expr (by omega) hs₆ hnext (endsSequence_of_mem ht))
  rintro body' s₇ ⟨hbody', hs₇⟩
  exact runs_pure ⟨by simp [same, hpattern', hvalue', hbody'], hs₇⟩

/-- An option is read in front of the next one and at the end of its block. -/
theorem reads_caseOption {option : Pattern × Expr} (hp : option.1.ReadBack) (he : option.2.ReadBack)
    (hfuel : (cuesOption option).length ≤ fuel) {stop : Token} (hstop : stop.endsSequence = true) :
    Reads (caseOption fuel (expr .standard fuel)) (cuesOption option) [.blockDelim, stop]
      fun b => option.1.same b.1 = true ∧ option.2.same b.2 = true := by
  intro s rest t ht hnext hs
  simp only [cuesOption, List.length_append, List.length_cons] at hfuel
  simp only [cuesOption, List.append_assoc, List.cons_append] at hs
  have hpos := List.length_pos_iff.2 option.1.cues_ne_nil
  apply runs_bind (hp.runs_openPattern (by omega) hs rfl (by simp))
  rintro p s₁ ⟨hp', hs₁⟩
  apply runs_bind (runs_discard (runs_expect hs₁))
  rintro _ s₂ ⟨_, -, hs₂⟩
  have hends : t.endsSequence = true := by
    rcases List.mem_cons.1 ht with rfl | ht
    · rfl
    · rwa [List.mem_singleton.1 ht]
  apply runs_bind (he.runs_expr (by omega) hs₂ hnext hends)
  rintro e s₃ ⟨he', hs₃⟩
  exact runs_pure ⟨⟨hp', he'⟩, hs₃⟩

/-- **A `case` is read back** if its subject and its options are. -/
theorem readBack_cases {span : Span} {subject : Expr} {options : List (Pattern × Expr)}
    (hsubject : subject.ReadBack)
    (hoptions : ∀ option ∈ options, option.1.ReadBack ∧ option.2.ReadBack) :
    (Expr.cases span subject options).ReadBack := by
  have hinner : (Expr.cases span subject options).cues = Cue.parens
      (.token (.keyword .caseWord) :: (subject.cues ++ .token (.keyword .ofWord) ::
        .token .blockBegin :: (Cue.separated .blockDelim true (options.map cuesOption) ++
          [.close]))) := by
    rw [Expr.cues, cuesOptions_eq_map]
  refine readBack_of_inner hinner rfl (by decide) fun fuel hfuel s rest t ht hnext hs => ?_
  have hne : ∀ cs ∈ options.map cuesOption, cs ≠ [] := by
    intro cs hcs
    obtain ⟨option, -, rfl⟩ := List.mem_map.1 hcs
    simp [cuesOption]
  have hcount : options.length ≤
      (Cue.separated .blockDelim true (options.map cuesOption)).length := by
    simpa using Cue.length_items_le_separated .blockDelim true hne
  simp only [List.length_cons, List.length_append, List.length_nil] at hfuel
  simp only [List.cons_append, List.append_assoc, List.nil_append] at hs
  obtain ⟨fuel, rfl⟩ : ∃ n, fuel = n + 1 := ⟨fuel - 1, by omega⟩
  have hitem : ∀ option ∈ options, Reads (caseOption fuel (expr .standard fuel)) (cuesOption option)
      [.blockDelim, t] fun b => option.1.same b.1 = true ∧ option.2.same b.2 = true := by
    intro option hoption
    have hle := Cue.length_le_separated .blockDelim true
      (List.mem_map_of_mem (f := cuesOption) hoption)
    exact reads_caseOption (hoptions option hoption).1 (hoptions option hoption).2 (by omega)
      (endsSequence_of_mem ht)
  have hstart : ∀ option ∈ options, ∃ t, Cue.next (cuesOption option) = some t ∧
      t ≠ .blockEnd ∧ t.beginsPattern = true := by
    intro option _
    obtain ⟨t, hnext, ht⟩ := option.1.exists_next_cues
    exact ⟨t, Cue.next_append hnext,
      by rintro rfl; simp [Token.beginsPattern, Token.beginsBase] at ht,
      ht⟩
  -- the printed block has no end in the text: the bracket or the comma behind it closes it
  have hstop : ∀ t ∈ [Token.comma, .parenRight], t ≠ .blockEnd ∧ t ≠ .blockDelim ∧
      t.beginsPattern = false := by decide
  obtain ⟨hend, hdelim, hbegins⟩ := hstop t ht
  rw [expr]
  apply runs_bind (runs_peek hs rfl)
  rintro u s₁ ⟨hu, hs₁⟩
  rw [hu]
  apply runs_bind (runs_expect hs₁)
  rintro start s₂ ⟨-, hs₂⟩
  apply runs_bind (hsubject.runs_expr (by omega) hs₂ rfl rfl)
  rintro subject' s₃ ⟨hsubject', hs₃⟩
  apply runs_bind (runs_expect hs₃)
  rintro ofToken s₄ ⟨-, hs₄⟩
  have hblock : Runs (block fuel Token.beginsPattern (caseOption fuel (expr .standard fuel))) s₄
      fun bs s' => List.Forall₂ (fun a b => a.1.same b.1 = true ∧ a.2.same b.2 = true) options bs ∧
        s'.Yields rest := by
    apply runs_bind (runs_discard (runs_expect hs₄))
    rintro _ s₅ ⟨_, -, hs₅⟩
    exact runs_within (runs_blockItems hend hdelim hbegins hitem hstart (by omega) hnext hs₅)
  apply runs_bind hblock
  rintro bs s₅ ⟨hbs, hs₅⟩
  exact runs_pure ⟨by simp [same, hsubject', sameOptions_of_forall₂ hbs], hs₅⟩

/-- Expressions in round brackets, other than exactly one, are a tuple. -/
theorem same_ofParens {as bs : List Expr} {span span' : Span} (hlength : as.length ≠ 1)
    (h : List.Forall₂ (fun a b => a.same b = true) as bs) :
    (Expr.tuple span as).same (ofParens span' bs) = true := by
  have hall := sameAll_of_forall₂ h
  match bs with
  | [] => exact hall
  | [b] => exact absurd h.length_eq hlength
  | b :: c :: bs => exact hall

/-- **A tuple is read back** if its elements are. -/
theorem readBack_tuple {span : Span} {elems : List Expr} (hlength : elems.length ≠ 1)
    (helems : ∀ e ∈ elems, e.ReadBack) : (Expr.tuple span elems).ReadBack := by
  intro fuel s rest hfuel hs
  simp only [Expr.cues, Cue.parens, cuesAll_eq_map, List.length_cons, List.length_append,
    List.length_nil] at hfuel
  simp only [Expr.cues, Cue.parens, cuesAll_eq_map, List.cons_append, List.append_assoc,
    List.nil_append] at hs
  -- an element has a cue at least, so that there is enough fuel for all of them
  have hcount : elems.length ≤ (Cue.separated .comma true (elems.map Expr.cues)).length := by
    simpa using Cue.length_items_le_separated .comma true
      (show ∀ cs ∈ elems.map Expr.cues, cs ≠ [] by
        simp [← List.length_pos_iff, length_cues_pos])
  have hitem : ∀ e ∈ elems, Reads (expr .standard fuel) e.cues [.comma, .parenRight]
      fun e' => e.same e' = true := by
    intro e he s rest t ht hnext hs
    have hle := Cue.length_le_separated .comma true (List.mem_map_of_mem (f := Expr.cues) he)
    exact (helems e he).runs_expr (by omega) hs hnext (endsSequence_of_mem ht)
  have hstart : ∀ e ∈ elems, ∃ t, Cue.next e.cues = some t ∧ t ≠ .parenRight := by
    intro e _
    obtain ⟨t, hnext, ht⟩ := e.exists_next_cues
    exact ⟨t, hnext, by rintro rfl; simp [Token.beginsBase] at ht⟩
  apply runs_bind (runs_peek hs rfl)
  rintro u s₁ ⟨hu, hs₁⟩
  rw [hu]
  apply runs_bind (runs_delimited (by decide) hitem hstart (by omega) hs₁)
  rintro ⟨es, span'⟩ s₂ ⟨hes, hs₂⟩
  exact runs_pure ⟨same_ofParens hlength hes, hs₂⟩

theorem readBack_nil {span : Span} : (Expr.nil span).ReadBack := by
  intro fuel s rest hfuel hs
  simp only [Expr.cues, List.length_cons, List.length_nil] at hfuel
  apply runs_bind (runs_peek hs rfl)
  rintro u s₁ ⟨hu, hs₁⟩
  rw [hu]
  apply runs_bind (runs_delimited_nil (by decide) (by omega) hs₁)
  rintro ⟨es, span'⟩ s₂ ⟨rfl, hs₂⟩
  exact runs_pure ⟨rfl, hs₂⟩

/-- **What an operator makes of two operands is read back** if they are. -/
theorem readBack_operator {e lhs rhs : Expr} {symbol : String} {op : Operator}
    (hcues : e.cues = Cue.parens (lhs.cues ++ .token (.operator symbol) :: rhs.cues))
    (hop : OperatorTable.standard.get? symbol = some op)
    (hsame : ∀ span l r, lhs.same l = true → rhs.same r = true →
      e.same (op.combine.build span l r) = true)
    (hl : lhs.ReadBack) (hr : rhs.ReadBack) : e.ReadBack := by
  obtain ⟨t, hfirst, ht⟩ := lhs.exists_next_cues
  refine readBack_of_inner hcues (Cue.next_append hfirst)
    (by rintro rfl; simp [Token.beginsBase] at ht) fun fuel hfuel s rest t ht hnext hs => ?_
  simp only [List.length_append, List.length_cons] at hfuel
  apply runs_mono (runs_operator hl hr hop (by omega) hs hnext (endsSequence_of_mem ht))
  rintro _ s' ⟨⟨span, l, r, hl', hr', rfl⟩, hs'⟩
  exact ⟨hsame span l r hl' hr', hs'⟩

/-- **An application is read back** if its function and its argument are. -/
theorem readBack_apply {span : Span} {func arg : Expr} (hf : func.ReadBack) (ha : arg.ReadBack) :
    (Expr.apply span func arg).ReadBack := by
  obtain ⟨t, hfirst, ht⟩ := func.exists_next_cues
  refine readBack_of_inner rfl (Cue.next_append hfirst)
    (by rintro rfl; simp [Token.beginsBase] at ht) fun fuel hfuel s rest t ht hnext hs => ?_
  rw [List.length_append] at hfuel
  apply runs_mono (runs_apply hf ha (by omega) hs hnext (endsSequence_of_mem ht))
  rintro e s' ⟨he, hs'⟩
  exact ⟨he span, hs'⟩

/-- Every built-in operator stands in the table of the language. -/
theorem exists_get?_text (op : BinaryOp) :
    ∃ precedence associativity,
      OperatorTable.standard.get? op.text = some ⟨precedence, associativity, .binary op⟩ := by
  cases op <;> exact ⟨_, _, rfl⟩

/-! ### Every printable expression is read back -/

mutual

/-- **Every printable expression is read back.** -/
theorem readBack_of_printable (e : Expr) (h : e.Printable) : e.ReadBack := by
  match e with
  | boolean _ _ => exact readBack_of_leaf h rfl
  | integer _ _ => exact readBack_of_leaf h rfl
  | identifier _ _ => exact readBack_of_leaf h rfl
  | condition _ test yes no =>
    exact readBack_condition (readBack_of_printable test h.1) (readBack_of_printable yes h.2.1)
      (readBack_of_printable no h.2.2)
  | binary _ op lhs rhs =>
    obtain ⟨precedence, associativity, hop⟩ := exists_get?_text op
    exact readBack_operator rfl hop (fun span l r hl hr => by simp [same, hl, hr])
      (readBack_of_printable lhs h.1) (readBack_of_printable rhs h.2)
  | lambda _ param body =>
    exact readBack_lambda (param.readBack h.1) (readBack_of_printable body h.2)
  | apply _ func arg =>
    exact readBack_apply (readBack_of_printable func h.1) (readBack_of_printable arg h.2)
  | bind _ pattern value body =>
    exact readBack_bind (pattern.readBack h.1) (readBack_of_printable value h.2.1)
      (readBack_of_printable body h.2.2)
  | cases _ subject options =>
    exact readBack_cases (readBack_of_printable subject h.1)
      (readBack_of_printableOptions options h.2)
  | tuple _ elems => exact readBack_tuple h.1 (readBack_of_printableAll elems h.2)
  | cons _ head tail =>
    exact readBack_operator rfl rfl (fun span l r hl hr => by simp [same, hl, hr])
      (readBack_of_printable head h.1) (readBack_of_printable tail h.2)
  | nil _ => exact readBack_nil

/-- Every one of several printable expressions is read back. -/
theorem readBack_of_printableAll (es : List Expr) (h : PrintableAll es) : ∀ e ∈ es, e.ReadBack := by
  match es with
  | [] => simp
  | e :: es =>
    exact List.forall_mem_cons.2 ⟨readBack_of_printable e h.1, readBack_of_printableAll es h.2⟩

/-- The parts of printable options are read back. -/
theorem readBack_of_printableOptions (options : List (Pattern × Expr))
    (h : PrintableOptions options) :
    ∀ option ∈ options, option.1.ReadBack ∧ option.2.ReadBack := by
  match options with
  | [] => simp
  | (p, e) :: options =>
    exact List.forall_mem_cons.2 ⟨⟨p.readBack h.1, readBack_of_printable e h.2.1⟩,
      readBack_of_printableOptions options h.2.2⟩

end

end Expr

end CallByNeed

import CallByNeed.Proofs.Grammar.Soundness
import CallByNeed.Proofs.Reading.Expr
import Mathlib.Data.List.Forall2

/-!
# What a parser sees of a stream

A parser looks at the tokens that a stream hands out, but of their spans it only makes spans.  So it
cannot tell two streams apart that hand out the same tokens, spans aside, whatever is asked of them
(`TokenStream.Bisimulation`): on both it fails, or it yields trees that are equal up to spans
(`Expr.Parser.mirrors_whole`).

The two runs may be given different amounts of fuel.  They end alike unless the fuel of one of them
is used up (`Parser.Outcome`), so nothing is said here about how much fuel a text needs.  There is
one rule for each way to put parsers together, and one lemma for each parser.
-/

namespace CallByNeed

/-! ### Bisimulations -/

namespace TokenStream

/-- An operation yields the same token on both streams, spans aside, or an error on both. -/
inductive Alike (I : TokenStream → TokenStream → Prop) :
    Except LexError (Located Token × TokenStream) →
    Except LexError (Located Token × TokenStream) → Prop where
  | ok {s s' : TokenStream} (t : Token) (span span' : Span) (h : I s s') :
    Alike I (.ok (⟨t, span⟩, s)) (.ok (⟨t, span'⟩, s'))
  | error (e e' : LexError) : Alike I (.error e) (.error e')

/-- **A bisimulation**: streams of which `I` holds cannot be told apart by their tokens, nor by
whether a block is open, and `I` holds of them again. -/
structure Bisimulation (I : TokenStream → TokenStream → Prop) : Prop where
  peek : ∀ {s s'}, I s s' → Alike I s.peek s'.peek
  advance : ∀ {s s'}, I s s' → Alike I s.advance s'.advance
  closeInnermost : ∀ {s s'}, I s s' →
    s.closeInnermost.1 = s'.closeInnermost.1 ∧ I s.closeInnermost.2 s'.closeInnermost.2

end TokenStream

open TokenStream (Bisimulation)

/-- Results correspond: both are errors, or both are values of which `V` holds. -/
inductive Failure.Alike {α β : Type} (V : α → β → Prop) :
    Except Failure α → Except Failure β → Prop where
  | ok {a : α} {b : β} (h : V a b) : Alike V (.ok a) (.ok b)
  | error (why why' : Failure) : Alike V (.error why) (.error why')

namespace Parser

/-! ### Rules -/

/-- **Two runs end alike**: both with streams of which `I` holds and values of which `V` holds, or
both with a failure.  If the fuel of one run is used up, nothing is said about the other. -/
inductive Outcome {α β : Type} (I : TokenStream → TokenStream → Prop) (V : α → β → Prop) :
    Except Failure (α × TokenStream) → Except Failure (β × TokenStream) → Prop where
  | ok {a : α} {b : β} {s s' : TokenStream} (h : I s s') (hv : V a b) :
    Outcome I V (.ok (a, s)) (.ok (b, s'))
  | error (why why' : Failure) : Outcome I V (.error why) (.error why')
  | exhaustedLeft (r : Except Failure (β × TokenStream)) : Outcome I V (.error .exhausted) r
  | exhaustedRight (r : Except Failure (α × TokenStream)) : Outcome I V r (.error .exhausted)

/-- The parsers end alike on all streams of which `I` holds. -/
def Mirrors {α β : Type} (I : TokenStream → TokenStream → Prop) (V : α → β → Prop) (x : Parser α)
    (y : Parser β) : Prop :=
  ∀ s s', I s s' → Outcome I V (x.run s) (y.run s')

section Rules

variable {α β γ δ : Type} {I : TokenStream → TokenStream → Prop} {V : α → β → Prop}
  {W : γ → δ → Prop} {x : Parser α} {y : Parser β} {f : α → Parser γ} {g : β → Parser δ}

theorem mirrors_pure {a : α} {b : β} (h : V a b) : Mirrors I V (pure a) (pure b) :=
  fun _ _ hs => .ok hs h

theorem mirrors_stop (why why' : Failure) : Mirrors I V (stop why) (stop why') :=
  fun _ _ _ => .error why why'

theorem mirrors_exhaustedLeft (y : Parser β) : Mirrors I V exhausted y :=
  fun _ _ _ => .exhaustedLeft _

theorem mirrors_exhaustedRight (x : Parser α) : Mirrors I V x exhausted :=
  fun _ _ _ => .exhaustedRight _

/-- **Parsers follow each other.** -/
theorem Mirrors.bind (hx : Mirrors I V x y) (hf : ∀ a b, V a b → Mirrors I W (f a) (g b)) :
    Mirrors I W (x >>= f) (y >>= g) := by
  intro s s' hs
  have hxy := hx s s' hs
  change Outcome I W ((andThen x f).run s) ((andThen y g).run s')
  rw [run, run]
  generalize x.run s = r at hxy ⊢
  generalize y.run s' = r' at hxy ⊢
  cases hxy with
  | ok hs' hv => exact hf _ _ hv _ _ hs'
  | error why why' => exact .error why why'
  | exhaustedLeft r => exact .exhaustedLeft _
  | exhaustedRight r => exact .exhaustedRight _

/-- Steps whose values are not used. -/
theorem Mirrors.discardBind {f : Unit → Parser γ} {g : Unit → Parser δ} (hx : Mirrors I V x y)
    (hf : Mirrors I W (f ()) (g ())) : Mirrors I W (discard x >>= f) (discard y >>= g) := by
  have hdiscard : Mirrors I (fun _ _ => True) (discard x) (discard y) :=
    hx.bind fun _ _ _ => mirrors_pure trivial
  exact hdiscard.bind fun _ _ _ => hf

theorem mirrors_within (hx : Mirrors I V x y) : Mirrors I V (within x) (within y) := by
  intro s s' hs
  rw [run, run]
  exact hx s s' hs

theorem mirrors_ofExcept {r : Except Failure α} {r' : Except Failure β}
    (h : Failure.Alike V r r') : Mirrors I V (ofExcept r) (ofExcept r') := by
  cases h with
  | ok h => exact mirrors_pure h
  | error why why' => exact mirrors_stop why why'

end Rules

section Tokens

variable {α β γ δ : Type} {I : TokenStream → TokenStream → Prop} (hI : Bisimulation I)
  {V : α → β → Prop}

/-- The tokens are the same, spans aside. -/
def SameValue (t t' : Located Token) : Prop :=
  t.value = t'.value

theorem mirrors_of_stream {x y : Parser (Located Token)}
    {operation : TokenStream → Except LexError (Located Token × TokenStream)}
    (hx : ∀ s, x.run s = ofStream (operation s)) (hy : ∀ s, y.run s = ofStream (operation s))
    (h : ∀ s s', I s s' → TokenStream.Alike I (operation s) (operation s')) :
    Mirrors I SameValue x y := by
  intro s s' hs
  have hst := h s s' hs
  rw [hx, hy]
  generalize operation s = r at hst ⊢
  generalize operation s' = r' at hst ⊢
  cases hst with
  | ok t span span' hs' => exact .ok hs' rfl
  | error e e' => exact .error _ _

include hI

theorem mirrors_advance : Mirrors I SameValue advance advance :=
  mirrors_of_stream (fun s => by rw [run]) (fun s => by rw [run]) fun _ _ hs => hI.advance hs

/-- **A token is looked at**: it is the same on both sides, and only its span differs. -/
theorem mirrors_peek_bind {f : Located Token → Parser α} {g : Located Token → Parser β}
    (h : ∀ value span span', Mirrors I V (f ⟨value, span⟩) (g ⟨value, span'⟩)) :
    Mirrors I V (peek >>= f) (peek >>= g) := by
  have hpeek : Mirrors I SameValue peek peek :=
    mirrors_of_stream (fun s => by rw [run]) (fun s => by rw [run]) fun _ _ hs => hI.peek hs
  refine hpeek.bind ?_
  rintro ⟨value, span⟩ ⟨_, span'⟩ rfl
  exact h value span span'

theorem mirrors_closeInnermost : Mirrors I Eq closeInnermost closeInnermost := by
  intro s s' hs
  obtain ⟨hclosed, hs'⟩ := hI.closeInnermost hs
  rw [run, run]
  exact .ok hs' hclosed

theorem mirrors_expect (expected : Token) :
    Mirrors I SameValue (expect expected) (expect expected) := by
  refine (mirrors_advance hI).bind ?_
  rintro ⟨value, span⟩ ⟨_, span'⟩ rfl
  dsimp only
  split
  · exact mirrors_pure rfl
  · exact mirrors_stop _ _

end Tokens

/-! ### Several items -/

section Items

variable {α β : Type} {I : TokenStream → TokenStream → Prop} (hI : Bisimulation I)
  {V : α → β → Prop} {item : Parser α} {item' : Parser β}

/-- An item and the items behind it. -/
theorem Mirrors.cons {items : Parser (List α)} {items' : Parser (List β)}
    (hitem : Mirrors I V item item') (hitems : Mirrors I (List.Forall₂ V) items items') :
    Mirrors I (List.Forall₂ V) (do let x ← item; let xs ← items; return x :: xs)
      (do let x ← item'; let xs ← items'; return x :: xs) :=
  hitem.bind fun _ _ hv => hitems.bind fun _ _ hvs => mirrors_pure (.cons hv hvs)

include hI

theorem mirrors_commaItems (hitem : Mirrors I V item item') (close : Token) (m n : Nat)
    (first : Bool) :
    Mirrors I (List.Forall₂ V) (commaItems item close m first)
      (commaItems item' close n first) := by
  induction m generalizing n first with
  | zero => exact mirrors_exhaustedLeft _
  | succ m ih =>
    cases n with
    | zero => exact mirrors_exhaustedRight _
    | succ n =>
      have hmore := hitem.cons (ih n false)
      rw [commaItems, commaItems]
      refine mirrors_peek_bind hI fun value span span' => ?_
      dsimp only
      split
      · exact mirrors_pure .nil
      · split
        · exact (mirrors_expect hI .comma).discardBind hmore
        · exact hmore

theorem mirrors_delimited (hitem : Mirrors I V item item') (m n : Nat) (opening close : Token) :
    Mirrors I (fun r r' => List.Forall₂ V r.1 r'.1) (delimited m opening close item)
      (delimited n opening close item') := by
  refine (mirrors_expect hI opening).bind fun _ _ _ => ?_
  refine (mirrors_commaItems hI hitem close m n true).bind fun _ _ hvs => ?_
  exact (mirrors_expect hI close).bind fun _ _ _ => mirrors_pure hvs

theorem mirrors_blockItems (hitem : Mirrors I V item item') (begins : Token → Bool) (m n : Nat)
    (first : Bool) :
    Mirrors I (List.Forall₂ V) (blockItems item begins m first)
      (blockItems item' begins n first) := by
  induction m generalizing n first with
  | zero => exact mirrors_exhaustedLeft _
  | succ m ih =>
    cases n with
    | zero => exact mirrors_exhaustedRight _
    | succ n =>
      have hmore := hitem.cons (ih n false)
      rw [blockItems, blockItems]
      -- the same token is next in both texts, so that both parsers go the same way
      refine mirrors_peek_bind hI fun value span span' => ?_
      dsimp only
      split
      · exact (mirrors_advance hI).discardBind (mirrors_pure .nil)
      · split
        · exact (mirrors_advance hI).discardBind hmore
        · split
          · exact hmore
          · -- closing a block succeeds in both texts or in neither
            refine (mirrors_closeInnermost hI).bind ?_
            rintro closed _ rfl
            split
            · exact mirrors_pure .nil
            · exact mirrors_stop _ _

theorem mirrors_block (hitem : Mirrors I V item item') (m n : Nat) (begins : Token → Bool) :
    Mirrors I (List.Forall₂ V) (block m begins item) (block n begins item') :=
  (mirrors_expect hI .blockBegin).discardBind
    (mirrors_within (mirrors_blockItems hI hitem begins m n true))

end Items

end Parser

/-! ### Patterns -/

namespace Pattern

/-- Equal up to spans. -/
def Similar (p q : Pattern) : Prop :=
  p.bare = q.bare

theorem bare_withSpan (p : Pattern) (span : Span) : (p.withSpan span).bare = p.bare := by
  cases p <;> rfl

theorem bareAll_eq {ps qs : List Pattern} (h : List.Forall₂ Similar ps qs) :
    bareAll ps = bareAll qs :=
  (sameAll_iff ps qs).1 (sameAll_of_forall₂ (h.imp fun p q => (same_iff p q).2))

theorem similar_consAll {ps qs : List Pattern} {p q : Pattern} (h : List.Forall₂ Similar ps qs)
    (hpq : p.Similar q) (stop stop' : Position) :
    (consAll stop ps p).Similar (consAll stop' qs q) := by
  induction h with
  | nil => exact hpq
  | cons hhead _ ih => exact congrArg₂ (cons .unknown) hhead ih

theorem similar_ofParens {ps qs : List Pattern} (h : List.Forall₂ Similar ps qs)
    (span span' : Span) : (ofParens span ps).Similar (ofParens span' qs) := by
  have htuple (ps qs : List Pattern) (h : List.Forall₂ Similar ps qs) :
      (tuple span ps).Similar (tuple span' qs) :=
    congrArg (tuple .unknown) (bareAll_eq h)
  cases h with
  | nil => exact htuple [] [] .nil
  | cons hpq h =>
    cases h with
    | nil => exact (bare_withSpan ..).trans (hpq.trans (bare_withSpan ..).symm)
    | cons hpq' h => exact htuple _ _ (.cons hpq (.cons hpq' h))

theorem similar_ofBrackets {ps qs : List Pattern} (h : List.Forall₂ Similar ps qs)
    (span span' : Span) : (ofBrackets span ps).Similar (ofBrackets span' qs) := by
  have hnil : (nil span).Similar (nil span') := rfl
  exact similar_consAll h hnil _ _

namespace Parser

open CallByNeed.Parser

variable {I : TokenStream → TokenStream → Prop} (hI : Bisimulation I)

theorem similar_chain {p q : Pattern} {ps qs : List Pattern} (hpq : p.Similar q)
    (h : List.Forall₂ Similar ps qs) : (chain p ps).Similar (chain q qs) := by
  induction h generalizing p q with
  | nil => exact hpq
  | cons hpq' _ ih =>
    rw [chain_cons, chain_cons]
    exact congrArg₂ (cons .unknown) hpq (ih hpq')

include hI

theorem mirrors_leaf {make make' : Span → Pattern}
    (h : ∀ span span', (make span).Similar (make' span')) :
    Mirrors I Similar (leaf make) (leaf make') :=
  (mirrors_advance hI).bind fun _ _ _ => mirrors_pure (h _ _)

theorem mirrors_openMore {base base' : CallByNeed.Parser Pattern}
    (hbase : Mirrors I Similar base base') (m n : Nat) :
    Mirrors I (List.Forall₂ Similar) (openMore base m) (openMore base' n) := by
  induction m generalizing n with
  | zero => exact mirrors_exhaustedLeft _
  | succ m ih =>
    cases n with
    | zero => exact mirrors_exhaustedRight _
    | succ n =>
      rw [openMore, openMore]
      refine mirrors_peek_bind hI fun value span span' => ?_
      cases value with
      | operator symbol =>
        dsimp only
        split
        · exact mirrors_stop _ _
        · exact (mirrors_advance hI).discardBind (hbase.cons (ih n))
      | _ => exact mirrors_pure .nil

theorem mirrors_openPattern {base base' : CallByNeed.Parser Pattern}
    (hbase : Mirrors I Similar base base') (m n : Nat) :
    Mirrors I Similar (openPattern m base) (openPattern n base') :=
  hbase.bind fun _ _ hfirst => (mirrors_openMore hI hbase m n).bind fun _ _ hmore =>
    mirrors_pure (similar_chain hfirst hmore)

/-- **Patterns.** -/
theorem mirrors_basePattern (m n : Nat) : Mirrors I Similar (basePattern m) (basePattern n) := by
  induction m generalizing n with
  | zero => exact mirrors_exhaustedLeft _
  | succ m ih =>
    cases n with
    | zero => exact mirrors_exhaustedRight _
    | succ n =>
      have hopen := mirrors_openPattern hI (ih n) m n
      rw [basePattern, basePattern]
      refine mirrors_peek_bind hI fun value span span' => ?_
      -- what is made of a token differs by its span only
      cases value with
      | identifier name => exact mirrors_leaf hI fun _ _ => rfl
      | underscore => exact mirrors_leaf hI fun _ _ => rfl
      | integer value => exact mirrors_leaf hI fun _ _ => rfl
      | boolean value => exact mirrors_leaf hI fun _ _ => rfl
      | parenLeft =>
        exact (mirrors_delimited hI hopen m n _ _).bind fun _ _ h =>
          mirrors_pure (similar_ofParens h _ _)
      | bracketLeft =>
        exact (mirrors_delimited hI hopen m n _ _).bind fun _ _ h =>
          mirrors_pure (similar_ofBrackets h _ _)
      | _ => exact mirrors_stop _ _

end Parser

end Pattern

/-! ### Expressions -/

namespace Expr

/-- Equal up to spans. -/
def Similar (e f : Expr) : Prop :=
  e.bare = f.bare

/-- Options that are equal up to spans. -/
def SimilarOption (option option' : Pattern × Expr) : Prop :=
  option.1.Similar option'.1 ∧ option.2.Similar option'.2

theorem bare_withSpan (e : Expr) (span : Span) : (e.withSpan span).bare = e.bare := by
  cases e <;> rfl

theorem bareAll_eq {es fs : List Expr} (h : List.Forall₂ Similar es fs) :
    bareAll es = bareAll fs :=
  (sameAll_iff es fs).1 (sameAll_of_forall₂ (h.imp fun e f => (same_iff e f).2))

theorem bareOptions_eq {options options' : List (Pattern × Expr)}
    (h : List.Forall₂ SimilarOption options options') :
    bareOptions options = bareOptions options' := by
  refine (sameOptions_iff options options').1 (sameOptions_of_forall₂ (h.imp ?_))
  intro option option' hoption
  exact ⟨(Pattern.same_iff _ _).2 hoption.1, (same_iff _ _).2 hoption.2⟩

theorem similar_ofParens {es fs : List Expr} (h : List.Forall₂ Similar es fs)
    (span span' : Span) : (ofParens span es).Similar (ofParens span' fs) := by
  have htuple (es fs : List Expr) (h : List.Forall₂ Similar es fs) :
      (tuple span es).Similar (tuple span' fs) :=
    congrArg (tuple .unknown) (bareAll_eq h)
  cases h with
  | nil => exact htuple [] [] .nil
  | cons hef h =>
    cases h with
    | nil => exact (bare_withSpan ..).trans (hef.trans (bare_withSpan ..).symm)
    | cons hef' h => exact htuple _ _ (.cons hef (.cons hef' h))

theorem similar_ofBrackets {es fs : List Expr} (h : List.Forall₂ Similar es fs)
    (span span' : Span) : (ofBrackets span es).Similar (ofBrackets span' fs) := by
  induction h with
  | nil => rfl
  | cons hhead _ ih => exact congrArg₂ (cons .unknown) hhead ih

theorem similar_applyTo {func func' arg arg' : Expr} (hfunc : func.Similar func')
    (harg : arg.Similar arg') : (func.applyTo arg).Similar (func'.applyTo arg') :=
  congrArg₂ (apply .unknown) hfunc harg

end Expr

/-! ### Operator sequences -/

/-- The same operator, at another place. -/
def Waiting.Same (w w' : Waiting) : Prop :=
  w.symbol = w'.symbol ∧ w.operator = w'.operator

/-- **What an operator makes of its operands** does not depend on where it stands. -/
theorem Waiting.similar_complete {w w' : Waiting} {e f e' f' : Expr} (hw : w.Same w')
    (he : e.Similar e') (hf : f.Similar f') : (w.complete e f).Similar (w'.complete e' f') := by
  unfold Expr.Similar at *
  rw [complete, complete, Combinator.bare_build, Combinator.bare_build, hw.2, he, hf]

namespace Sequence

variable {operators operators' : List Waiting} {operands operands' : List Expr}

/-- Of two operators only what they are decides which one takes its operands first. -/
theorem takesFirst_same {w w' : Waiting} (hw : w.Same w') (symbol : String) (op : Operator) :
    (∃ b, takesFirst w symbol op = .ok b ∧ takesFirst w' symbol op = .ok b) ∨
      ∃ e e', takesFirst w symbol op = .error e ∧ takesFirst w' symbol op = .error e' := by
  unfold takesFirst
  rw [hw.1, hw.2]
  dsimp only
  split
  · exact .inl ⟨_, rfl, rfl⟩
  · split
    · exact .inr ⟨_, _, rfl, rfl⟩
    · split
      · exact .inl ⟨_, rfl, rfl⟩
      · exact .inl ⟨_, rfl, rfl⟩
      · exact .inr ⟨_, _, rfl, rfl⟩

theorem alike_reduce {w w' : Waiting} (hw : w.Same w')
    (h : List.Forall₂ Expr.Similar operands operands') :
    Failure.Alike (List.Forall₂ Expr.Similar) (reduce Waiting.complete w operands)
      (reduce Waiting.complete w' operands') := by
  cases h with
  | nil => exact .error _ _
  | cons hright h =>
    cases h with
    | nil => exact .error _ _
    | cons hleft h => exact .ok (.cons (Waiting.similar_complete hw hleft hright) h)

theorem alike_reduceFor (symbol : String) (op : Operator)
    (hoperators : List.Forall₂ Waiting.Same operators operators')
    (h : List.Forall₂ Expr.Similar operands operands') :
    Failure.Alike
      (fun r r' => List.Forall₂ Waiting.Same r.1 r'.1 ∧ List.Forall₂ Expr.Similar r.2 r'.2)
      (reduceFor Waiting.complete symbol op operators operands)
      (reduceFor Waiting.complete symbol op operators' operands') := by
  induction hoperators generalizing operands operands' with
  | nil => exact .ok ⟨.nil, h⟩
  | cons hw hoperators ih =>
    rw [reduceFor, reduceFor]
    -- which of two operators comes first does not depend on where they stand
    obtain ⟨b, hb, hb'⟩ | ⟨e, e', he, he'⟩ := takesFirst_same hw symbol op
    · rw [hb, hb']
      cases b with
      | false => exact .ok ⟨.cons hw hoperators, h⟩
      | true =>
        have hreduce := alike_reduce hw h
        dsimp only
        generalize reduce Waiting.complete _ operands = r at hreduce ⊢
        generalize reduce Waiting.complete _ operands' = r' at hreduce ⊢
        cases hreduce with
        | ok h => exact ih h
        | error why why' => exact .error why why'
    · rw [he, he']
      exact .error _ _

theorem alike_close (hoperators : List.Forall₂ Waiting.Same operators operators')
    (h : List.Forall₂ Expr.Similar operands operands') :
    Failure.Alike Expr.Similar (close Waiting.complete operators operands)
      (close Waiting.complete operators' operands') := by
  induction hoperators generalizing operands operands' with
  | nil =>
    -- the operands that are left are as many on both sides
    cases h with
    | nil => exact .error _ _
    | cons he h =>
      cases h with
      | nil => exact .ok he
      | cons _ _ => exact .error _ _
  | cons hw hoperators ih =>
    rw [close, close]
    have hreduce := alike_reduce hw h
    generalize reduce Waiting.complete _ operands = r at hreduce ⊢
    generalize reduce Waiting.complete _ operands' = r' at hreduce ⊢
    cases hreduce with
    | ok h => exact ih h
    | error why why' => exact .error why why'

end Sequence

/-! ### Parsers of expressions -/

namespace Expr.Parser

open CallByNeed.Parser

variable {I : TokenStream → TokenStream → Prop} (hI : Bisimulation I) {table : OperatorTable}
  {expr expr' : CallByNeed.Parser Expr}

include hI

theorem mirrors_leaf {make make' : Span → Expr}
    (h : ∀ span span', (make span).Similar (make' span')) :
    Mirrors I Similar (leaf make) (leaf make') :=
  (mirrors_advance hI).bind fun _ _ _ => mirrors_pure (h _ _)

theorem mirrors_baseExpr (hexpr : Mirrors I Similar expr expr') (m n : Nat) :
    Mirrors I Similar (baseExpr m expr) (baseExpr n expr') := by
  refine mirrors_peek_bind hI fun value span span' => ?_
  cases value with
  | integer value => exact mirrors_leaf hI fun _ _ => rfl
  | boolean value => exact mirrors_leaf hI fun _ _ => rfl
  | identifier name => exact mirrors_leaf hI fun _ _ => rfl
  | parenLeft =>
    exact (mirrors_delimited hI hexpr m n _ _).bind fun _ _ h =>
      mirrors_pure (similar_ofParens h _ _)
  | bracketLeft =>
    exact (mirrors_delimited hI hexpr m n _ _).bind fun _ _ h =>
      mirrors_pure (similar_ofBrackets h _ _)
  | _ => exact mirrors_stop _ _

theorem mirrors_arguments {base base' : CallByNeed.Parser Expr}
    (hbase : Mirrors I Similar base base') (m n : Nat) {func func' : Expr}
    (hfunc : func.Similar func') :
    Mirrors I Similar (arguments base m func) (arguments base' n func') := by
  induction m generalizing n func func' with
  | zero => exact mirrors_exhaustedLeft _
  | succ m ih =>
    cases n with
    | zero => exact mirrors_exhaustedRight _
    | succ n =>
      rw [arguments, arguments]
      refine mirrors_peek_bind hI fun value span span' => ?_
      dsimp only
      split
      · exact hbase.bind fun _ _ harg => ih n (similar_applyTo hfunc harg)
      · exact mirrors_pure hfunc

theorem mirrors_application (hexpr : Mirrors I Similar expr expr') (m n : Nat) :
    Mirrors I Similar (application m expr) (application n expr') :=
  (mirrors_baseExpr hI hexpr m n).bind fun _ _ hfunc =>
    mirrors_arguments hI (mirrors_baseExpr hI hexpr m n) m n hfunc

theorem mirrors_sequenceMore {operand operand' : CallByNeed.Parser Expr}
    (hoperand : Mirrors I Similar operand operand') (hexpr : Mirrors I Similar expr expr')
    (m n : Nat) {operators operators' : List Waiting} {operands operands' : List Expr}
    (hoperators : List.Forall₂ Waiting.Same operators operators')
    (h : List.Forall₂ Similar operands operands') :
    Mirrors I Similar (sequenceMore table operand expr m operators operands)
      (sequenceMore table operand' expr' n operators' operands') := by
  induction m generalizing n operators operators' operands operands' with
  | zero => exact mirrors_exhaustedLeft _
  | succ m ih =>
    cases n with
    | zero => exact mirrors_exhaustedRight _
    | succ n =>
      rw [sequenceMore, sequenceMore]
      refine mirrors_peek_bind hI fun value span span' => ?_
      cases value with
      | operator symbol =>
        dsimp only
        cases table.get? symbol with
        | none => exact mirrors_stop _ _
        | some op =>
          refine (mirrors_advance hI).discardBind ?_
          refine (mirrors_ofExcept (Sequence.alike_reduceFor symbol op hoperators h)).bind ?_
          rintro ⟨operators, operands⟩ ⟨operators', operands'⟩ ⟨hoperators, h⟩
          -- the operator waits with its own span on either side, which nothing looks at
          have hpushed : List.Forall₂ Waiting.Same (⟨symbol, op, span⟩ :: operators)
              (⟨symbol, op, span'⟩ :: operators') := .cons ⟨rfl, rfl⟩ hoperators
          refine mirrors_peek_bind hI fun value _ _ => ?_
          dsimp only
          split
          · exact hoperand.bind fun _ _ he => ih n hpushed (.cons he h)
          · exact hexpr.bind fun _ _ he =>
              mirrors_ofExcept (Sequence.alike_close hpushed (.cons he h))
      | _ => exact mirrors_ofExcept (Sequence.alike_close hoperators h)

theorem mirrors_operatorSequence (hexpr : Mirrors I Similar expr expr') (m n : Nat) :
    Mirrors I Similar (operatorSequence table m expr) (operatorSequence table n expr') :=
  (mirrors_application hI hexpr m n).bind fun _ _ he =>
    mirrors_sequenceMore hI (mirrors_application hI hexpr m n) hexpr m n .nil (.cons he .nil)

theorem mirrors_letExpr (hexpr : Mirrors I Similar expr expr') (m n : Nat) :
    Mirrors I Similar (letExpr m expr) (letExpr n expr') := by
  refine (mirrors_expect hI _).bind fun _ _ _ => ?_
  refine (Pattern.Parser.mirrors_basePattern hI m n).bind fun p q hpattern => ?_
  refine (mirrors_expect hI _).discardBind ?_
  refine hexpr.bind fun _ _ hvalue => ?_
  refine (mirrors_expect hI _).discardBind ?_
  refine hexpr.bind fun _ _ hbody => mirrors_pure ?_
  rw [Similar, bare, bare, hpattern, hvalue, hbody]

theorem mirrors_condition (hexpr : Mirrors I Similar expr expr') :
    Mirrors I Similar (condition expr) (condition expr') := by
  refine (mirrors_expect hI _).bind fun _ _ _ => ?_
  refine hexpr.bind fun _ _ htest => ?_
  refine (mirrors_expect hI _).discardBind ?_
  refine hexpr.bind fun _ _ hyes => ?_
  refine (mirrors_expect hI _).discardBind ?_
  refine hexpr.bind fun _ _ hno => mirrors_pure ?_
  rw [Similar, bare, bare, htest, hyes, hno]

theorem mirrors_lambda (hexpr : Mirrors I Similar expr expr') (m n : Nat) :
    Mirrors I Similar (lambda m expr) (lambda n expr') := by
  refine (mirrors_expect hI _).bind fun _ _ _ => ?_
  refine (Pattern.Parser.mirrors_basePattern hI m n).bind fun _ _ hparam => ?_
  refine (mirrors_expect hI _).discardBind ?_
  refine hexpr.bind fun _ _ hbody => mirrors_pure ?_
  rw [Similar, bare, bare, hparam, hbody]

theorem mirrors_caseOption (hexpr : Mirrors I Similar expr expr') (m n : Nat) :
    Mirrors I SimilarOption (caseOption m expr) (caseOption n expr') := by
  have hbase := Pattern.Parser.mirrors_basePattern hI m n
  refine (Pattern.Parser.mirrors_openPattern hI hbase m n).bind fun _ _ hpattern => ?_
  refine (mirrors_expect hI _).discardBind ?_
  exact hexpr.bind fun _ _ hbody => mirrors_pure ⟨hpattern, hbody⟩

theorem mirrors_caseExpr (hexpr : Mirrors I Similar expr expr') (m n : Nat) :
    Mirrors I Similar (caseExpr m expr) (caseExpr n expr') := by
  refine (mirrors_expect hI _).bind fun _ _ _ => ?_
  refine hexpr.bind fun _ _ hsubject => ?_
  refine (mirrors_expect hI _).bind fun _ _ _ => ?_
  refine (mirrors_block hI (mirrors_caseOption hI hexpr m n) m n _).bind fun _ _ hoptions => ?_
  refine mirrors_pure ?_
  rw [Similar, bare, bare, hsubject, bareOptions_eq hoptions]

/-- **Expressions**, by induction on the fuel of the first run. -/
theorem mirrors_expr (table : OperatorTable) (m n : Nat) :
    Mirrors I Similar (Parser.expr table m) (Parser.expr table n) := by
  induction m generalizing n with
  | zero => exact mirrors_exhaustedLeft _
  | succ m ih =>
    cases n with
    | zero => exact mirrors_exhaustedRight _
    | succ n =>
      rw [Parser.expr, Parser.expr]
      refine mirrors_peek_bind hI fun value span span' => ?_
      -- every token that starts none of the four keyword expressions has to start a sequence
      have hsequence : Mirrors I Similar
          (if value.beginsBase then operatorSequence table m (Parser.expr table m)
            else failUnexpected "expression" ⟨value, span⟩)
          (if value.beginsBase then operatorSequence table n (Parser.expr table n)
            else failUnexpected "expression" ⟨value, span'⟩) := by
        split
        · exact mirrors_operatorSequence hI (ih n) m n
        · exact mirrors_stop _ _
      cases value with
      | keyword word =>
        cases word with
        | letWord => exact mirrors_letExpr hI (ih n) m n
        | ifWord => exact mirrors_condition hI (ih n)
        | caseWord => exact mirrors_caseExpr hI (ih n) m n
        | _ => exact hsequence
      | backslash => exact mirrors_lambda hI (ih n) m n
      | _ => exact hsequence

/-- **A text is read alike from streams that cannot be told apart.** -/
theorem mirrors_whole (table : OperatorTable) (m n : Nat) :
    Mirrors I Similar (whole table m) (whole table n) :=
  (mirrors_expr hI table m n).bind fun _ _ he =>
    (mirrors_expect hI _).discardBind (mirrors_pure he)

end Expr.Parser

end CallByNeed

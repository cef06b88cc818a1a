import CallByNeed.Proofs.Completion.Streams
import CallByNeed.Proofs.OperatorSequence

/-!
# How a parse goes on behind the end of a text

A parser reads a text, and the same parser reads the text that goes on behind a newline.
`Parser.Continues` compares the two runs.  Up to the end of the text they are the same: they yield
the same value, or they fail with the same error.  A parser that has come to the end of the text
with a value comes to the same value if fillers go on with the text.  And if a parser misses
something at the end of the text, outside of all blocks, then some fillers supply it.

The two runs have fuel of their own, and nothing is said of one that uses up its fuel.  How much
fuel the second run needs depends on the line `more` that the text goes on with, so that its parser
is a function of the line.

A parser can also be started where the text has ended already (`Parser.AtEnd`).  Either it asks for
nothing and stops with a value, or it lacks something, which fillers supply (`Parser.Resumes`).
`Parser.GoesOn` says both for a parser, and its rules put parsers together.
-/

namespace CallByNeed

namespace Filler

/-! ### The token behind the end of a text -/

/-- Neither an operator sequence nor a block goes on with the first of closing fillers. -/
theorem first_of_closing {fs : List Filler} (h : Closing fs) :
    (first fs).endsSequence = true ∧ (first fs).beginsPattern = false := by
  match fs with
  | [] => decide
  | one :: fs => simp at h
  | parenRight :: fs | bracketRight :: fs | equals :: fs | arrow :: fs | inWord :: fs
  | thenWord :: fs | elseWord :: fs | ofWord :: fs => exact ⟨rfl, rfl⟩

theorem first_ne_operator {fs : List Filler} (h : Closing fs) (symbol : String) :
    first fs ≠ .operator symbol := by
  intro hfirst
  have hends := (first_of_closing h).1
  rw [hfirst] at hends
  simp [Token.endsSequence] at hends

/-- A filler is no token of the layout. -/
theorem first_ne_block (fs : List Filler) :
    first fs ≠ .blockEnd ∧ first fs ≠ .blockDelim := by
  match fs with
  | [] => decide
  | f :: fs => cases f <;> exact ⟨by simp [first, token], by simp [first, token]⟩

theorem next_closes (k : Nat) (fs : List Filler) :
    Cue.next (List.replicate k .close ++ cues fs) = some (first fs) := by
  induction k with
  | zero => exact next_cues fs
  | succ k ih => exact ih

end Filler

open TokenStream (endToken)
open Filler (Closing)

namespace Parser

open Expr.Parser (run_bind_ok run_bind_error)

variable {α β : Type} {text : String} {R R' : List Filler → Prop} {k k' : Nat}
  {fs gs : List Filler} {x : Parser α} {y : List Char → Parser α} {f : α → Parser β}
  {g : List Char → α → Parser β} {u v : TokenStream}

/-! ### Runs with fuel -/

/-- The parser succeeds, with a value and a stream behind it that satisfy `Q`, unless it uses up its
fuel. -/
def Attains (x : Parser α) (u : TokenStream) (Q : α → TokenStream → Prop) : Prop :=
  x.run u = .error .exhausted ∨ Runs x u Q

theorem attains_bind {P : α → TokenStream → Prop} {Q : β → TokenStream → Prop}
    (hx : Attains x u P) (hf : ∀ a u', P a u' → Attains (f a) u' Q) : Attains (x >>= f) u Q := by
  rcases hx with hx | ⟨a, u', hx, hP⟩
  · exact .inl (run_bind_error hx)
  · rcases hf a u' hP with hf | ⟨b, u'', hf, hQ⟩
    · exact .inl ((run_bind_ok hx).trans hf)
    · exact .inr ⟨b, u'', (run_bind_ok hx).trans hf, hQ⟩

theorem attains_mono {P Q : α → TokenStream → Prop} (hx : Attains x u P)
    (h : ∀ a u', P a u' → Q a u') : Attains x u Q :=
  hx.imp_right fun hx => runs_mono hx h

/-- Whatever the text goes on with, there is fuel for one step more. -/
theorem exists_fuel {m : Nat} {n : List Char → Nat} (h : ∀ more, m + 1 ≤ n more) :
    ∃ n' : List Char → Nat, (n = fun more => n' more + 1) ∧ ∀ more, m ≤ n' more := by
  refine ⟨fun more => n more - 1, funext fun more => ?_, fun more => ?_⟩
  · exact (Nat.sub_add_cancel (Nat.one_le_of_lt (h more))).symm
  · exact Nat.le_sub_one_of_lt (h more)

/-! ### Expected tokens -/

section Expect

variable {u' : TokenStream} {t : Located Token} {e : LexError} {expected : Token}

theorem run_advance (h : u.peek = .ok (t, u')) :
    advance.run u = .ok (t, { u' with lookahead := none }) := by
  rw [run, TokenStream.advance_of_peek h]
  rfl

theorem run_expect (h : u.peek = .ok (t, u')) (ht : t.value = expected) :
    (expect expected).run u = .ok (t, { u' with lookahead := none }) := by
  rw [expect, run_bind_ok (run_advance h), if_pos ht]
  rfl

theorem run_expect_of_ne (h : u.peek = .ok (t, u')) (ht : t.value ≠ expected) :
    (expect expected).run u = .error (.error (.unexpected ("'" ++ expected.text ++ "'") t)) := by
  rw [expect, run_bind_ok (run_advance h), if_neg ht]
  rfl

theorem run_expect_of_error (h : u.peek = .error e) :
    (expect expected).run u = .error (.error (.lexical e)) := by
  refine run_bind_error ?_
  rw [run, TokenStream.advance_of_peek_error h]
  rfl

end Expect

/-! ### Fillers that a parser reads -/

/-- The parser reads the fillers `fs`, in front of fillers of which `R` holds. -/
def Resumes (R : List Filler → Prop) (fs : List Filler) (x : Parser α) : Prop :=
  ∀ v rest, R rest → v.Yields (Filler.cues (fs ++ rest)) →
    Attains x v fun _ v' => v'.Yields (Filler.cues rest)

theorem resumes_exhausted : Resumes R fs (exhausted (α := α)) :=
  fun _ _ _ _ => .inl rfl

theorem Resumes.bind (hx : Resumes R fs x) (hf : ∀ a, Resumes R' gs (f a))
    (hR : ∀ rest, R' rest → R (gs ++ rest)) : Resumes R' (fs ++ gs) (x >>= f) := by
  intro v rest hrest hv
  rw [List.append_assoc] at hv
  exact attains_bind (hx v _ (hR rest hrest) hv) fun a v' hv' => hf a v' rest hrest hv'

theorem Resumes.map (hx : Resumes R fs x) (h : α → β) : Resumes R fs (do return h (← x)) :=
  fun v rest hrest hv => attains_bind (hx v rest hrest hv) fun _ _ hv' => .inr (runs_pure hv')

theorem resumes_advance {f : Filler} (hf : f ≠ .ofWord) : Resumes R [f] advance := by
  intro v rest _ hv
  rw [List.singleton_append, Filler.cues_cons hf] at hv
  exact .inr (runs_mono (runs_advance hv) fun _ _ h => h.2)

/-- **An expected token is its own filler.** -/
theorem resumes_expect {f : Filler} (hf : f ≠ .ofWord) : Resumes R [f] (expect f.token) := by
  intro v rest _ hv
  rw [List.singleton_append, Filler.cues_cons hf] at hv
  exact .inr (runs_mono (runs_expect hv) fun _ _ h => h.2)

/-- Looking at the first filler. -/
theorem resumes_peek_bind {f : Filler} {g : Located Token → Parser β}
    (hg : ∀ t, t.value = f.token → Resumes R (f :: fs) (g t)) :
    Resumes R (f :: fs) (peek >>= g) := by
  intro v rest hrest hv
  refine attains_bind (.inr (runs_peek hv (Filler.next_cues _))) ?_
  rintro t v' ⟨ht, hv'⟩
  exact hg t ht v' rest hrest hv'

/-! ### Parsers at the end of a text -/

/-- At the end of the text, inside of `k` blocks, the parser fails because it expects more. -/
def Lacks (text : String) (k : Nat) (x : Parser α) : Prop :=
  ∀ u : TokenStream, u.Ended text k → x.run u = .error .exhausted ∨
    ∃ expected, x.run u = .error (.error (.unexpected expected (endToken text k)))

theorem lacks_exhausted : Lacks text k (exhausted (α := α)) :=
  fun _ _ => .inl rfl

theorem lacks_failUnexpected (expected : String) :
    Lacks text k (failUnexpected (α := α) expected (endToken text k)) :=
  fun _ _ => .inr ⟨expected, rfl⟩

theorem Lacks.bind (hx : Lacks text k x) (f : α → Parser β) : Lacks text k (x >>= f) := by
  intro u hu
  rcases hx u hu with hx | ⟨expected, hx⟩
  · exact .inl (run_bind_error hx)
  · exact .inr ⟨expected, run_bind_error hx⟩

theorem lacks_peek_bind {f : Located Token → Parser β} (hf : Lacks text k (f (endToken text k))) :
    Lacks text k (peek >>= f) := by
  intro u hu
  obtain ⟨u', hpeek, hu'⟩ := hu.peek
  rw [run_bind_ok (Expr.Parser.run_peek hpeek)]
  exact hf u' hu'

theorem lacks_expect {t : Token} (heof : t ≠ .eof) (hend : t ≠ .blockEnd) :
    Lacks text k (expect t) := by
  intro u hu
  obtain ⟨u', hpeek, -⟩ := hu.peek
  have hne : (endToken text k).value ≠ t := by
    cases k with
    | zero => exact heof.symm
    | succ k => exact hend.symm
  exact .inr ⟨_, run_expect_of_ne hpeek hne⟩

/-- **A parser that is started at the end of the text**, inside of `k` blocks.  It stops inside of
`k'` blocks with a value, and with the same value where closing fillers go on with the text.  Or it
lacks something, which the fillers `fs` supply outside of all blocks. -/
inductive AtEnd (text : String) (R : List Filler → Prop) (k k' : Nat) :
    List Filler → Parser α → (List Char → Parser α) → Prop where
  | stops {x : Parser α} {y : List Char → Parser α} (a : α)
    (hx : ∀ u : TokenStream, u.Ended text k → Attains x u fun b u' => b = a ∧ u'.Ended text k')
    (hy : ∀ (more : List Char) (v : TokenStream) (rest : List Filler), R rest →
      v.Yields (List.replicate k .close ++ Filler.cues rest) → Attains (y more) v fun b v' =>
        b = a ∧ v'.Yields (List.replicate k' .close ++ Filler.cues rest)) :
    AtEnd text R k k' [] x y
  | lacks {fs : List Filler} {x : Parser α} {y : List Char → Parser α} (hne : R [] → fs ≠ [])
    (hx : Lacks text k x) (hy : k = 0 → ∀ more, Resumes R fs (y more)) :
    AtEnd text R k k' fs x y

theorem append_ne_nil (hne : R [] → fs ≠ []) (hR : ∀ rest, R' rest → R (gs ++ rest)) (h : R' []) :
    fs ++ gs ≠ [] := by
  intro hnil
  obtain ⟨rfl, rfl⟩ := List.append_eq_nil_iff.1 hnil
  exact hne (hR [] h) rfl

theorem AtEnd.resumes (h : AtEnd text R k k' fs x y) (hk : k = 0) (hk' : k' = 0)
    (more : List Char) : Resumes R fs (y more) := by
  subst hk hk'
  cases h with
  | stops a hx hy =>
    exact fun v rest hrest hv => attains_mono (hy more v rest hrest hv) fun _ _ h => h.2
  | lacks _ hx hy => exact hy rfl more

theorem atEnd_pure (a : α) : AtEnd text R k k [] (pure a) (fun _ => pure a) :=
  .stops a (fun _ hu => .inr (runs_pure ⟨rfl, hu⟩)) fun _ _ _ _ hv => .inr (runs_pure ⟨rfl, hv⟩)

/-- **Parsers follow each other**, the first of which is started at the end of the text. -/
theorem AtEnd.bind (hx : AtEnd text R k k fs x y)
    (hf : ∀ a, AtEnd text R' k k' gs (f a) (fun more => g more a)) (hk : k = 0 → k' = 0)
    (hR : ∀ rest, R' rest → R (gs ++ rest)) :
    AtEnd text R' k k' (fs ++ gs) (x >>= f) (fun more => y more >>= g more) := by
  cases hx with
  | lacks hne hx hy =>
    exact .lacks (append_ne_nil hne hR) (hx.bind f) fun h more =>
      (hy h more).bind (fun a => (hf a).resumes h (hk h) more) hR
  | stops a hx hy =>
    -- nothing has been supplied so far, so that it is up to the second parser
    have hfa := hf a
    rw [List.nil_append]
    cases hfa with
    | stops b hfx hgy =>
      refine .stops b (fun u hu => ?_) fun more v rest hrest hv => ?_
      · refine attains_bind (hx u hu) ?_
        rintro _ u' ⟨rfl, hu'⟩
        exact hfx u' hu'
      · refine attains_bind (hy more v rest (hR rest hrest) hv) ?_
        rintro _ v' ⟨rfl, hv'⟩
        exact hgy more v' rest hrest hv'
    | lacks hgs hfx hgy =>
      refine .lacks hgs (fun u hu => ?_) fun h more v rest hrest hv => ?_
      · rcases hx u hu with hrun | ⟨b, u', hrun, rfl, hu'⟩
        · exact .inl (run_bind_error hrun)
        · rw [run_bind_ok hrun]
          exact hfx u' hu'
      · subst h
        refine attains_bind (hy more v _ (hR rest hrest) hv) ?_
        rintro _ v' ⟨rfl, hv'⟩
        exact hgy rfl more v' rest hrest hv'

/-- Making something of the value. -/
theorem AtEnd.map (hx : AtEnd text R k k' fs x y) (h : α → β) :
    AtEnd text R k k' fs (do return h (← x)) (fun more => do return h (← y more)) := by
  cases hx with
  | stops a hx hy =>
    refine .stops (h a) (fun u hu => ?_) fun more v rest hrest hv => ?_
    · refine attains_bind (hx u hu) ?_
      rintro _ u' ⟨rfl, hu'⟩
      exact .inr (runs_pure ⟨rfl, hu'⟩)
    · refine attains_bind (hy more v rest hrest hv) ?_
      rintro _ v' ⟨rfl, hv'⟩
      exact .inr (runs_pure ⟨rfl, hv'⟩)
  | lacks hne hx hy => exact .lacks hne (hx.bind _) fun hk more => (hy hk more).map h

/-- Looking at the end of the text, and stopping there. -/
theorem attains_peek_of_ended {a : β} {f : Located Token → Parser β} (hu : u.Ended text k)
    (hf : ∀ u, (f (endToken text k)).run u = .ok (a, u)) :
    Attains (peek >>= f) u fun b u' => b = a ∧ u'.Ended text k := by
  obtain ⟨u', hpeek, hu'⟩ := hu.peek
  exact .inr ⟨a, u', (run_bind_ok (Expr.Parser.run_peek hpeek)).trans (hf u'), rfl, hu'⟩

/-- Looking at a filler, and stopping in front of it. -/
theorem attains_peek {a : β} {f : Located Token → Parser β} {rest : List Filler}
    (hv : v.Yields (List.replicate k .close ++ Filler.cues rest))
    (hf : ∀ t v, t.value = Filler.first rest → (f t).run v = .ok (a, v)) :
    Attains (peek >>= f) v fun b v' =>
      b = a ∧ v'.Yields (List.replicate k .close ++ Filler.cues rest) := by
  refine attains_bind (.inr (runs_peek hv (Filler.next_closes k rest))) ?_
  rintro t v' ⟨ht, hv'⟩
  exact .inr ⟨a, v', hf t v' ht, rfl, hv'⟩

/-! ### Parsers inside of a text -/

/-- **A run on the text, and the run on the text that goes on.**  The first one is started inside of
the text and of `blocks`, and if it succeeds it ends inside of `blocks'`. -/
inductive Continues (text : String) (R : List Filler → Prop) (blocks blocks' : List Nat)
    (x : Parser α) (y : List Char → Parser α) (u : TokenStream) : Prop where
  | exhausted (hx : x.run u = .error .exhausted)
  | reading {a : α} {u' : TokenStream} (hx : x.run u = .ok (a, u'))
    (hu' : u'.Reading text blocks')
    (hy : ∀ more, Attains (y more) (u.followedBy more) fun b v => b = a ∧ v = u'.followedBy more)
  /-- Whatever goes on with the text, the error stays. -/
  | error {e : ParseError} (hx : x.run u = .error (.error e)) (he : e.isIncomplete = false)
    (hy : ∀ more, (y more).run (u.followedBy more) = .error .exhausted ∨
      (y more).run (u.followedBy more) = .error (.error e))
  /-- The text has been read to its end. -/
  | ended {a : α} {u' : TokenStream} (hx : x.run u = .ok (a, u'))
    (hu' : u'.Ended text blocks'.length)
    (hy : ∀ more rest, R rest → Spells text more rest →
      Attains (y more) (u.followedBy more) fun b v => b = a ∧
        v.Yields (List.replicate blocks'.length .close ++ Filler.cues rest))
  /-- The text ends inside of a block, where the parser expects more. -/
  | inBlock {expected : String}
    (hx : x.run u = .error (.error (.unexpected expected (endToken text 1))))
  /-- The text ends outside of all blocks, where the parser expects what `fs` supplies. -/
  | lacks {expected : String} {fs : List Filler} (hne : R [] → fs ≠ []) (hblocks : blocks = [])
    (hx : x.run u = .error (.error (.unexpected expected (endToken text 0))))
    (hy : ∀ more rest, R rest → Spells text more (fs ++ rest) →
      Attains (y more) (u.followedBy more) fun _ v => v.Yields (Filler.cues rest))

section Rules

variable {blocks blocks' : List Nat} {u' : TokenStream}

/-- Only what the two runs yield matters. -/
theorem Continues.congr {x' : Parser α} {y' : List Char → Parser α}
    (h : Continues text R blocks blocks' x' y' u') (hx : x.run u = x'.run u')
    (hy : ∀ more, (y more).run (u.followedBy more) = .error .exhausted ∨
      (y more).run (u.followedBy more) = (y' more).run (u'.followedBy more)) :
    Continues text R blocks blocks' x y u := by
  have hattains {Q : α → TokenStream → Prop} {more : List Char}
      (h : Attains (y' more) (u'.followedBy more) Q) : Attains (y more) (u.followedBy more) Q := by
    rcases hy more with hexhausted | hsame
    · exact .inl hexhausted
    · unfold Attains Runs at h ⊢
      rwa [hsame]
  cases h with
  | exhausted h => exact .exhausted (hx.trans h)
  | reading h hu' hy' => exact .reading (hx.trans h) hu' fun more => hattains (hy' more)
  -- what is inspected with the text continued is the same, unless the fuel has run out
  | error h he hy' =>
    refine .error (hx.trans h) he fun more => ?_
    rcases hy more with hexhausted | hsame
    · exact .inl hexhausted
    · rw [hsame]
      exact hy' more
  | ended h hu' hy' =>
    exact .ended (hx.trans h) hu' fun more rest hrest hspells =>
      hattains (hy' more rest hrest hspells)
  | inBlock h => exact .inBlock (hx.trans h)
  | lacks hne hblocks h hy' =>
    exact .lacks hne hblocks (hx.trans h) fun more rest hrest hspells =>
      hattains (hy' more rest hrest hspells)

/-- The same error in both runs. -/
theorem continues_of_error {e : ParseError} (he : e.isIncomplete = false)
    (hx : x.run u = .error (.error e))
    (hy : ∀ more, (y more).run (u.followedBy more) = .error (.error e)) :
    Continues text R blocks blocks' x y u :=
  .error hx he fun more => .inr (hy more)

theorem continues_fail {e : ParseError} (he : e.isIncomplete = false) :
    Continues text R blocks blocks' (fail (α := α) e) (fun _ => fail e) u :=
  continues_of_error he rfl fun _ => rfl

theorem continues_failUnexpected {t : Located Token} (ht : t.value ≠ .eof) (expected : String) :
    Continues text R blocks blocks' (failUnexpected (α := α) expected t)
      (fun _ => failUnexpected expected t) u :=
  continues_fail (by simpa [ParseError.isIncomplete] using ht)

theorem continues_pure (a : α) (hu : u.Reading text blocks) :
    Continues text R blocks blocks (pure a) (fun _ => pure a) u :=
  .reading rfl hu fun _ => .inr (runs_pure ⟨rfl, rfl⟩)

/-- **At the end of the text** it matters what the parser does there.  The two runs come to a parser
that is started where the text has ended. -/
theorem AtEnd.continues {x' : Parser α} {y' : List Char → Parser α}
    (h : AtEnd text R blocks.length blocks'.length fs x' y') (hu' : u'.Ended text blocks.length)
    (hx : x.run u = x'.run u') (hy : ∀ more rest Q, R rest → Spells text more (fs ++ rest) →
      (∀ v : TokenStream, v.Yields (List.replicate blocks.length .close ++
        Filler.cues (fs ++ rest)) → Attains (y' more) v Q) →
      Attains (y more) (u.followedBy more) Q) :
    Continues text R blocks blocks' x y u := by
  cases h with
  | stops a hstops hgoes =>
    -- the parser may stop at the end, which leaves the rest of the line to others
    rcases hstops u' hu' with hrun | ⟨b, u'', hrun, rfl, hu''⟩
    · exact .exhausted (hx.trans hrun)
    · exact .ended (hx.trans hrun) hu'' fun more rest hrest hspells =>
        hy more rest _ hrest hspells fun v hv => hgoes more v rest hrest hv
  | lacks hne hlacks hresumes =>
    -- the parser lacks something: inside of a block that is an error that stays
    rcases hlacks u' hu' with hrun | ⟨expected, hrun⟩
    · exact .exhausted (hx.trans hrun)
    · cases blocks with
      | nil =>
        exact .lacks hne rfl (hx.trans hrun) fun more rest hrest hspells =>
          hy more rest _ hrest hspells fun v hv => hresumes rfl more v rest hrest hv
      | cons column blocks => exact .inBlock (hx.trans hrun)

/-- A parser that is started where the text has ended. -/
theorem AtEnd.continues_of_ended (h : AtEnd text R blocks.length blocks'.length fs x y)
    (hu : u.Ended text blocks.length) (hmore : ∀ more fs, Spells text more fs →
      (u.followedBy more).Yields (List.replicate blocks.length .close ++ Filler.cues fs)) :
    Continues text R blocks blocks' x y u :=
  h.continues hu rfl fun more _ _ _ hspells hgoes => hgoes _ (hmore more _ hspells)

/-- A parser, started inside of `blocks`, inside of the text or at its end.  In the latter case the
fillers `fs` supply what it lacks. -/
structure GoesOn (text : String) (R : List Filler → Prop) (fs : List Filler)
    (blocks blocks' : List Nat) (x : Parser α) (y : List Char → Parser α) : Prop where
  continues : ∀ u : TokenStream, u.Reading text blocks → Continues text R blocks blocks' x y u
  atEnd : AtEnd text R blocks.length blocks'.length fs x y

/-- **Parsers follow each other.**  Where the first one has met the end of the text, the second one
is started there. -/
theorem Continues.bind (hx : Continues text R blocks blocks x y u)
    (hf : ∀ a, GoesOn text R' gs blocks blocks' (f a) (fun more => g more a))
    (hout : blocks = [] → blocks' = []) (hR : ∀ rest, R' rest → R (gs ++ rest)) :
    Continues text R' blocks blocks' (x >>= f) (fun more => y more >>= g more) u := by
  cases hx with
  | exhausted hx => exact .exhausted (run_bind_error hx)
  | @reading a u' hx hu' hy =>
    refine ((hf a).continues u' hu').congr (run_bind_ok hx) fun more => ?_
    rcases hy more with hy | ⟨b, v, hy, rfl, rfl⟩
    · exact .inl (run_bind_error hy)
    · exact .inr (run_bind_ok hy)
  | error hx he hy =>
    refine .error (run_bind_error hx) he fun more => ?_
    exact (hy more).imp run_bind_error run_bind_error
  | @ended a u' hx hu' hy =>
    -- here the second parser is started at the end of the text
    refine (hf a).atEnd.continues hu' (run_bind_ok hx) fun more rest Q hrest hspells hgoes => ?_
    refine attains_bind (hy more _ (hR rest hrest) hspells) ?_
    rintro b v ⟨rfl, hv⟩
    exact hgoes v hv
  | inBlock hx => exact .inBlock (run_bind_error hx)
  | @lacks expected fs hne hblocks hx hy =>
    subst hblocks
    obtain rfl := hout rfl
    -- the fillers of the second parser follow those that the first one misses
    have hboth : ∀ more rest, R' rest → Spells text more ((fs ++ gs) ++ rest) →
        Attains (y more >>= g more) (u.followedBy more) fun _ v => v.Yields (Filler.cues rest) := by
      intro more rest hrest hspells
      rw [List.append_assoc] at hspells
      refine attains_bind (hy more _ (hR rest hrest) hspells) fun b v hv => ?_
      exact (hf b).atEnd.resumes rfl rfl more v rest hrest hv
    exact .lacks (append_ne_nil hne hR) rfl (run_bind_error hx) hboth

theorem GoesOn.bind (hx : GoesOn text R fs blocks blocks x y)
    (hf : ∀ a, GoesOn text R' gs blocks blocks' (f a) (fun more => g more a))
    (hout : blocks = [] → blocks' = []) (hR : ∀ rest, R' rest → R (gs ++ rest)) :
    GoesOn text R' (fs ++ gs) blocks blocks' (x >>= f) (fun more => y more >>= g more) where
  continues u hu := (hx.continues u hu).bind hf hout hR
  atEnd := by
    refine hx.atEnd.bind (fun a => (hf a).atEnd) (fun hk => ?_) hR
    rw [hout (List.length_eq_zero_iff.1 hk), List.length_nil]

theorem goesOn_pure (a : α) : GoesOn text R [] blocks blocks (pure a) (fun _ => pure a) :=
  ⟨fun _ hu => continues_pure a hu, atEnd_pure a⟩

/-- Making something of the value. -/
theorem Continues.map (hx : Continues text R blocks blocks' x y u) (h : α → β) :
    Continues text R blocks blocks' (do return h (← x)) (fun more => do return h (← y more)) u := by
  cases hx with
  | exhausted hx => exact .exhausted (run_bind_error hx)
  -- the value is changed in every case that has one
  | reading hx hu' hy =>
    refine .reading (run_bind_ok hx) hu' fun more => attains_bind (hy more) ?_
    rintro _ _ ⟨rfl, rfl⟩
    exact .inr (runs_pure ⟨rfl, rfl⟩)
  | error hx he hy =>
    exact .error (run_bind_error hx) he fun more => (hy more).imp run_bind_error run_bind_error
  | ended hx hu' hy =>
    refine .ended (run_bind_ok hx) hu' fun more rest hrest hspells =>
      attains_bind (hy more rest hrest hspells) ?_
    rintro _ _ ⟨rfl, hv⟩
    exact .inr (runs_pure ⟨rfl, hv⟩)
  | inBlock hx => exact .inBlock (run_bind_error hx)
  | lacks hne hblocks hx hy =>
    exact .lacks hne hblocks (run_bind_error hx) fun more rest hrest hspells =>
      attains_bind (hy more rest hrest hspells) fun _ _ hv => .inr (runs_pure hv)

theorem GoesOn.map (hx : GoesOn text R fs blocks blocks' x y) (h : α → β) :
    GoesOn text R fs blocks blocks' (do return h (← x)) (fun more => do return h (← y more)) :=
  ⟨fun u hu => (hx.continues u hu).map h, hx.atEnd.map h⟩

theorem Continues.discard (h : Continues text R blocks blocks x y u) :
    Continues text R blocks blocks (discard x) (fun more => discard (y more)) u :=
  h.map fun _ => ()

theorem GoesOn.discard (h : GoesOn text R fs blocks blocks x y) :
    GoesOn text R fs blocks blocks (discard x) (fun more => discard (y more)) :=
  h.map fun _ => ()

/-! ### Looking and taking -/

/-- **Looking**, inside of the text or at its end. -/
theorem goesOn_peek_bind {f : Located Token → Parser β} {g : List Char → Located Token → Parser β}
    (hend : AtEnd text R blocks.length blocks'.length fs (peek >>= f) (fun more => peek >>= g more))
    (hf : ∀ (t : Located Token) (u : TokenStream), u.Reading text blocks → u.lookahead = some t →
      t.value ≠ .eof → Continues text R blocks blocks' (f t) (fun more => g more t) u) :
    GoesOn text R fs blocks blocks' (peek >>= f) (fun more => peek >>= g more) := by
  refine ⟨fun u hu => ?_, hend⟩
  cases hu.sees with
  | @error e h hmore =>
    have hrun {u : TokenStream} (h : u.peek = .error e) {f : Located Token → Parser β} :
        (peek >>= f).run u = .error (.error (.lexical e)) := by
      refine run_bind_error ?_
      rw [run, h]
      rfl
    exact continues_of_error rfl (hrun h) fun more => hrun (hmore more)
  | token h ht hu' hmore =>
    -- the same token is seen in both texts, and it stays there to be taken
    refine (hf _ _ hu' (TokenStream.lookahead_of_peek h) ht).congr
      (run_bind_ok (Expr.Parser.run_peek h)) fun more => ?_
    exact .inr (run_bind_ok (Expr.Parser.run_peek (hmore more)))
  | stop h hmore =>
    exact hend.continues_of_ended h hmore

/-- A token that is taken, other than an end or `of`, leaves the blocks as they are. -/
theorem reading_of_peek {t : Located Token} (hu : u.Reading text blocks)
    (hu' : u'.Reading text blocks) (h : u.peek = .ok (t, u')) (hend : t.value ≠ .blockEnd)
    (hof : t.value.opensBlock = false) : { u' with lookahead := none }.Reading text blocks :=
  ⟨⟨hu'.layout, by simp⟩, hu.inStep.advance_inner (TokenStream.advance_of_peek h) hend hof⟩

/-- Taking a token that has been seen to be neither an end nor `of`. -/
theorem continues_advance {t : Located Token} (hu : u.Reading text blocks)
    (hseen : u.lookahead = some t) (hend : t.value ≠ .blockEnd)
    (hof : t.value.opensBlock = false) :
    Continues text R blocks blocks advance (fun _ => advance) u := by
  have hpeek := TokenStream.peek_of_lookahead hseen
  refine .reading (run_advance hpeek) (reading_of_peek hu hu hpeek hend hof) fun more => ?_
  exact .inr ⟨t, _, run_advance (TokenStream.peek_of_lookahead (s := u.followedBy more) hseen), rfl,
    rfl⟩

/-- **Taking such a token**, and going on behind it, still inside of the text. -/
theorem continues_take {t : Located Token} {f : Unit → Parser β} {g : List Char → Unit → Parser β}
    (hu : u.Reading text blocks) (hseen : u.lookahead = some t) (hend : t.value ≠ .blockEnd)
    (hof : t.value.opensBlock = false) (hf : ∀ u : TokenStream, u.Reading text blocks →
      Continues text R blocks blocks' (f ()) (fun more => g more ()) u) :
    Continues text R blocks blocks' (discard advance >>= f) (fun more => discard advance >>= g more)
      u := by
  have hpeek := TokenStream.peek_of_lookahead hseen
  have hrun {u : TokenStream} (hseen : u.lookahead = some t) :
      (discard advance).run u = .ok ((), { u with lookahead := none }) :=
    run_bind_ok (run_advance (TokenStream.peek_of_lookahead hseen))
  exact (hf _ (reading_of_peek hu hu hpeek hend hof)).congr (run_bind_ok (hrun hseen))
    fun more => .inr (run_bind_ok (hrun (u := u.followedBy more) hseen))

/-- Taking an end that has been seen leaves the block. -/
theorem continues_advance_end {t : Located Token} {column : Nat}
    (hu : u.Reading text (column :: blocks)) (hseen : u.lookahead = some t)
    (hend : t.value = .blockEnd) :
    Continues text R (column :: blocks) blocks advance (fun _ => advance) u := by
  have hpeek := TokenStream.peek_of_lookahead hseen
  refine .reading (run_advance hpeek) ⟨⟨hu.layout, by simp⟩, ?_⟩ fun more => ?_
  · obtain ⟨_, _, hblocks, hinStep⟩ :=
      hu.inStep.advance_end (TokenStream.advance_of_peek hpeek) hend
    rw [List.cons.injEq] at hblocks
    rwa [hblocks.2]
  · exact .inr ⟨t, _, run_advance (TokenStream.peek_of_lookahead (s := u.followedBy more) hseen),
      rfl, rfl⟩

/-- Expecting a token in front of another one, or of itself. -/
theorem continues_expect_of_peek {t : Located Token} {expected : Token}
    (hu : u.Reading text blocks) (hu' : u'.Reading text blocks) (h : u.peek = .ok (t, u'))
    (hmore : ∀ more, (u.followedBy more).peek = .ok (t, u'.followedBy more)) (heof : t.value ≠ .eof)
    (hend : expected ≠ .blockEnd) (hof : expected.opensBlock = false) :
    Continues text R blocks blocks (expect expected) (fun _ => expect expected) u := by
  by_cases ht : t.value = expected
  · subst ht
    refine .reading (run_expect h rfl) (reading_of_peek hu hu' h hend hof) fun more => ?_
    exact .inr ⟨t, _, run_expect (hmore more) rfl, rfl, rfl⟩
  · refine continues_of_error ?_ (run_expect_of_ne h ht) fun more =>
      run_expect_of_ne (hmore more) ht
    simpa [ParseError.isIncomplete] using heof

/-- Expecting a token in front of one that has been seen. -/
theorem continues_expect {t : Located Token} {expected : Token} (hu : u.Reading text blocks)
    (hseen : u.lookahead = some t) (heof : t.value ≠ .eof) (hend : expected ≠ .blockEnd)
    (hof : expected.opensBlock = false) :
    Continues text R blocks blocks (expect expected) (fun _ => expect expected) u :=
  continues_expect_of_peek hu hu (TokenStream.peek_of_lookahead hseen)
    (fun more => TokenStream.peek_of_lookahead (s := u.followedBy more) hseen) heof hend hof

/-- **Expecting a filler**, inside of the text or at its end. -/
theorem goesOn_expect {f : Filler} (hf : f ≠ .ofWord) :
    GoesOn text R [f] blocks blocks (expect f.token) (fun _ => expect f.token) := by
  have hplain : f.token ≠ .eof ∧ f.token ≠ .blockEnd ∧ f.token.opensBlock = false := by
    cases f <;> first | exact absurd rfl hf | simp [Filler.token, Token.opensBlock]
  obtain ⟨heof, hend, hof⟩ := hplain
  have hatEnd : AtEnd text R blocks.length blocks.length [f] (expect f.token)
      (fun _ => expect f.token) :=
    .lacks (by simp) (lacks_expect heof hend) fun _ _ => resumes_expect hf
  refine ⟨fun u hu => ?_, hatEnd⟩
  cases hu.sees with
  | error h hmore =>
    exact continues_of_error rfl (run_expect_of_error h) fun more =>
      run_expect_of_error (hmore more)
  | token h ht hu' hmore => exact continues_expect_of_peek hu hu' h hmore ht hend hof
  | stop h hmore =>
    exact hatEnd.continues_of_ended h hmore

end Rules

end Parser

end CallByNeed

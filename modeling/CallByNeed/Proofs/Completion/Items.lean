import CallByNeed.Proofs.Completion.Rules

/-!
# Several items at the end of a text

Where a text ends between brackets, the closing bracket is all that is missing, or an item and the
bracket (`Parser.continues_delimited`).  Where it ends inside of a block, nothing is missing: the
layout has ended the block in the text alone, and if closing fillers go on with the text, the first
of them closes it (`Parser.goesOn_blockItems`).  In front of the block `of` may be missing, and then
an empty block will do (`Parser.goesOn_ofBlock`).
-/

namespace CallByNeed

open TokenStream (endToken)
open Filler (Closing)

namespace Parser

open Expr.Parser (run_bind_ok run_bind_error)

variable {α β : Type} {text : String} {R : List Filler → Prop} {k k' : Nat} {fs : List Filler}
  {x item : Parser α} {y item' : List Char → Parser α} {u u' v : TokenStream}
  {blocks blocks' : List Nat} {m : Nat} {n : List Char → Nat}

/-! ### Items in brackets -/

theorem AtEnd.lacks_of_cons {f : Filler} (h : AtEnd text R k k' (f :: fs) x y) :
    Lacks text k x := by
  cases h with
  | lacks _ hx _ => exact hx

/-- Items up to a bracket, which is all that is missing where the text ends between them. -/
theorem atEnd_commaItems {closing : Filler}
    (hclosing : closing = .parenRight ∨ closing = .bracketRight)
    (hitem : Lacks text k item) (m : Nat) (n : List Char → Nat) (first : Bool) :
    AtEnd text (fun rest => rest.head? = some closing) k k []
      (commaItems item closing.token m first)
      (fun more => commaItems (item' more) closing.token (n more) first) := by
  refine .lacks (by simp) ?_ fun _ more v rest hrest hv => ?_
  · -- a text that ends in front of the bracket lacks an item, a comma or the bracket
    cases m with
    | zero => exact lacks_exhausted
    | succ m =>
      have hne : (endToken text k).value ≠ closing.token := by
        rcases hclosing with rfl | rfl <;> cases k <;> simp [endToken, Filler.token]
      rw [commaItems]
      refine lacks_peek_bind ?_
      rw [if_neg hne]
      cases first with
      | false => exact ((lacks_expect (by simp) (by simp)).bind _).bind _
      | true => exact hitem.bind _
  · cases n more with
    | zero => exact .inl rfl
    | succ n =>
      -- the bracket that completes the text is the first token behind it
      obtain ⟨rest, rfl⟩ : ∃ rest', rest = closing :: rest' := List.head?_eq_some_iff.1 hrest
      rw [commaItems]
      refine attains_bind (.inr (runs_peek hv (Filler.next_cues _))) ?_
      rintro t v' ⟨ht, hv'⟩
      rw [if_pos (show t.value = closing.token from ht)]
      exact .inr (runs_pure hv')

theorem goesOn_commaItems {closing : Filler}
    (hclosing : closing = .parenRight ∨ closing = .bracketRight)
    (hitem : GoesOn text Closing [.one] blocks blocks item item') (hmn : ∀ more, m ≤ n more)
    (first : Bool) :
    GoesOn text (fun rest => rest.head? = some closing) [] blocks blocks
      (commaItems item closing.token m first)
      (fun more => commaItems (item' more) closing.token (n more) first) := by
  have hclose : ∀ rest : List Filler, rest.head? = some closing → Closing rest := by
    rintro rest hrest
    rcases hclosing with rfl | rfl <;> simp [Closing, hrest]
  have hend (m : Nat) (n : List Char → Nat) (first : Bool) :
      AtEnd text (fun rest => rest.head? = some closing) blocks.length blocks.length []
        (commaItems item closing.token m first)
        (fun more => commaItems (item' more) closing.token (n more) first) :=
    atEnd_commaItems hclosing hitem.atEnd.lacks_of_cons m n first
  induction m generalizing n first with
  | zero => exact ⟨fun u _ => .exhausted rfl, hend 0 n first⟩
  | succ m ih =>
    obtain ⟨n, rfl, hle⟩ := exists_fuel hmn
    -- an item and the rest behind it, from a place in front of the item
    have hitems : GoesOn text (fun rest => rest.head? = some closing) [.one] blocks blocks
        (do let a ← item; let as ← commaItems item closing.token m false; return a :: as)
        (fun more => do
          let a ← item' more
          let as ← commaItems (item' more) closing.token (n more) false
          return a :: as) :=
      hitem.bind (fun a => (ih hle false).map (a :: ·)) id hclose
    have hpeek := hend (m + 1) (fun more => n more + 1) first
    simp only [commaItems] at hpeek ⊢
    refine goesOn_peek_bind hpeek fun t u hu hseen heof => ?_
    -- the bracket, a comma with an item behind it, or the first item
    split
    · exact continues_pure _ hu
    · split
      · have hcomma : Continues text (fun _ => True) blocks blocks (expect .comma)
            (fun _ => expect .comma) u :=
          continues_expect hu hseen heof (by simp) rfl
        exact hcomma.discard.bind (fun _ => hitems) id fun _ _ => trivial
      · exact hitems.continues u hu

/-- **Items in brackets**, the first of which has been seen. -/
theorem continues_delimited {opening : Token} {t : Located Token} (closing : Filler)
    (hclosing : closing = .parenRight ∨ closing = .bracketRight)
    (hitem : GoesOn text Closing [.one] blocks blocks item item') (hmn : ∀ more, m ≤ n more)
    (hu : u.Reading text blocks) (hseen : u.lookahead = some t) (heof : t.value ≠ .eof)
    (hend : opening ≠ .blockEnd) (hof : opening.opensBlock = false) :
    Continues text R blocks blocks (delimited m opening closing.token item)
      (fun more => delimited (n more) opening closing.token (item' more)) u := by
  have hne : closing ≠ .ofWord := by
    rcases hclosing with rfl | rfl <;> simp
  have hright : GoesOn text R [closing] blocks blocks (expect closing.token)
      (fun _ => expect closing.token) := goesOn_expect hne
  have hitems (left : Located Token) := (goesOn_commaItems hclosing hitem hmn true).bind
    (fun items => hright.map fun right => (items, left.span.merge right.span)) id fun _ _ => rfl
  exact (continues_expect (R := fun _ => True) hu hseen heof hend hof).bind hitems id
    fun _ _ => trivial

/-! ### Items of a block -/

section Block

variable {begins : Token → Bool} {column : Nat}

/-- A closing filler closes a block. -/
theorem attains_blockItems (hbegins : ∀ fs, Closing fs → begins (Filler.first fs) = false)
    {rest : List Filler} (hrest : Closing rest)
    (hv : v.Yields (List.replicate (k + 1) .close ++ Filler.cues rest)) (n : Nat) (first : Bool) :
    Attains (blockItems item begins n first) v fun as v' =>
      as = [] ∧ v'.Yields (List.replicate k .close ++ Filler.cues rest) := by
  cases n with
  | zero => exact .inl rfl
  | succ n =>
    obtain ⟨hend, hdelim⟩ := Filler.first_ne_block rest
    rw [blockItems]
    refine .inr (runs_peek_close hv (Filler.next_closes k rest) fun t v' ht hclose => ?_)
    rw [if_neg (by rwa [ht]), if_neg (by simp [ht, hdelim]),
      if_neg (by simp [ht, hbegins rest hrest])]
    refine runs_bind hclose ?_
    rintro closed v'' ⟨rfl, hv''⟩
    exact runs_pure ⟨rfl, hv''⟩

/-- **A block ends with the text.**  If closing fillers go on with the text, they close it. -/
theorem atEnd_blockItems (hbegins : ∀ fs, Closing fs → begins (Filler.first fs) = false)
    (m : Nat) (n : List Char → Nat) (first : Bool) :
    AtEnd text Closing (k + 1) k [] (blockItems item begins m first)
      (fun more => blockItems (item' more) begins (n more) first) := by
  refine .stops [] (fun u hu => ?_) fun more v rest hrest hv => ?_
  · cases m with
    | zero => exact .inl rfl
    | succ m =>
      obtain ⟨u₁, hpeek, hu₁⟩ := hu.peek
      obtain ⟨u₂, hadvance, hu₂⟩ := hu₁.advance_end
      refine .inr ⟨[], u₂, ?_, rfl, hu₂⟩
      have hend : (endToken text (k + 1)).value = .blockEnd := rfl
      rw [blockItems, run_bind_ok (Expr.Parser.run_peek hpeek), if_pos hend,
        run_bind_ok (Expr.Parser.run_discard_advance hadvance)]
      rfl
  · exact attains_blockItems hbegins hrest hv (n more) first

/-- Closing the innermost block in front of a token that has been seen not to be its end. -/
theorem continues_closeInnermost {t : Located Token} (hu : u.Reading text (column :: blocks))
    (hseen : u.lookahead = some t) (hend : t.value ≠ .blockEnd) (a : α) :
    Continues text R (column :: blocks) blocks
      (closeInnermost >>= fun closed => if closed then pure a else x)
      (fun more => closeInnermost >>= fun closed => if closed then pure a else y more) u := by
  have hcolumns := hu.inStep.columns_eq hseen hend
  have hclose {u : TokenStream} (hcolumns : u.layout.columns = column :: blocks) :
      closeInnermost.run u =
        .ok (true, { u with layout := { u.layout with columns := blocks } }) := by
    rw [run, TokenStream.closeInnermost, Layout.closeInnermost, hcolumns]
  -- only the innermost column goes
  refine .reading (run_bind_ok (hclose hcolumns)) ⟨⟨⟨hu.layout.fits, ?_, hu.layout.inner⟩,
    hu.lookahead⟩, ?_⟩ fun more => ?_
  · intro c hc
    exact hu.layout.narrow c (hcolumns ▸ List.mem_cons_of_mem _ hc)
  · obtain ⟨-, hinStep⟩ := hu.inStep.close hseen hend
    rw [TokenStream.closeInnermost, Layout.closeInnermost, hcolumns] at hinStep
    exact hinStep
  · exact .inr ⟨a, _, run_bind_ok (hclose (u := u.followedBy more) hcolumns), rfl, rfl⟩

/-- **The items of a block.** -/
theorem goesOn_blockItems (hbegins : ∀ fs, Closing fs → begins (Filler.first fs) = false)
    (hitem : GoesOn text Closing fs (column :: blocks) (column :: blocks) item item')
    (hmn : ∀ more, m ≤ n more) (first : Bool) :
    GoesOn text Closing [] (column :: blocks) blocks (blockItems item begins m first)
      (fun more => blockItems (item' more) begins (n more) first) := by
  have hend (m : Nat) (n : List Char → Nat) (first : Bool) :
      AtEnd text Closing (blocks.length + 1) blocks.length [] (blockItems item begins m first)
        (fun more => blockItems (item' more) begins (n more) first) :=
    atEnd_blockItems hbegins m n first
  induction m generalizing n first with
  | zero => exact ⟨fun u _ => .exhausted rfl, hend 0 n first⟩
  | succ m ih =>
    obtain ⟨n, rfl, hle⟩ := exists_fuel hmn
    -- an item and the rest behind it, from a place in front of the item
    have hitems : GoesOn text Closing fs (column :: blocks) blocks
        (do let a ← item; let as ← blockItems item begins m false; return a :: as)
        (fun more => do
          let a ← item' more
          let as ← blockItems (item' more) begins (n more) false
          return a :: as) := by
      have hmore (a : α) := (ih hle false).map (a :: ·)
      have hbind := hitem.bind hmore (by simp) fun _ hrest => hrest
      rwa [List.append_nil] at hbind
    have hpeek := hend (m + 1) (fun more => n more + 1) first
    simp only [blockItems] at hpeek ⊢
    refine goesOn_peek_bind hpeek fun t u hu hseen heof => ?_
    split
    · -- the block ends, an item follows, with a delimiter in front or not, or the block is closed
      rename_i hblock
      have htake : Continues text Closing (column :: blocks) blocks advance (fun _ => advance) u :=
        continues_advance_end hu hseen hblock
      exact (htake.map fun _ => ()).map fun _ => []
    · rename_i hblock
      split
      · rename_i hdelim
        have ht : t.value = .blockDelim := by
          simp only [Bool.and_eq_true, decide_eq_true_eq] at hdelim
          exact hdelim.1
        exact continues_take hu hseen hblock (by rw [ht]; rfl) hitems.continues
      · split
        · exact hitems.continues u hu
        · exact continues_closeInnermost hu hseen hblock []

/-- A block that has been left with success is not missed. -/
theorem Continues.outside (h : Continues text R (column :: blocks) blocks' x y u) :
    Continues text R blocks blocks' x y u := by
  cases h with
  | exhausted hx => exact .exhausted hx
  | reading hx hu' hy => exact .reading hx hu' hy
  | error hx he hy => exact .error hx he hy
  | ended hx hu' hy => exact .ended hx hu' hy
  | inBlock hx => exact .inBlock hx
  | lacks _ hblocks => simp at hblocks

theorem run_block {t : Located Token} (h : u.peek = .ok (t, u')) (ht : t.value = .blockBegin)
    (m : Nat) : (block m begins item).run u =
      (blockItems item begins m true).run { u' with lookahead := none } := by
  have hdiscard : (discard (expect .blockBegin)).run u = .ok ((), { u' with lookahead := none }) :=
    run_bind_ok (run_expect h ht)
  rw [block, run_bind_ok hdiscard, run]

/-- **A block**, started behind `of`. -/
theorem continues_block (hbegins : ∀ fs, Closing fs → begins (Filler.first fs) = false)
    (hitem : ∀ column, GoesOn text Closing fs (column :: blocks) (column :: blocks) item item')
    (hmn : ∀ more, m ≤ n more) (hu : u.Before text) (hof : u.BehindOf blocks) :
    Continues text Closing blocks blocks (block m begins item)
      (fun more => block (n more) begins (item' more)) u := by
  cases hu.seesOf hof with
  | @error e h hmore =>
    have hrun {u : TokenStream} (h : u.peek = .error e) (m : Nat) (item : Parser α) :
        (block m begins item).run u = .error (.error (.lexical e)) :=
      run_bind_error (run_bind_error (run_expect_of_error h))
    exact continues_of_error rfl (hrun h m item) fun more =>
      hrun (hmore more) (n more) (item' more)
  | token column h ht hu' hmore =>
    have hitems := (goesOn_blockItems hbegins (hitem column) hmn true).continues _ hu'
    exact hitems.outside.congr (run_block h ht m) fun more =>
      .inr (run_block (hmore more) ht (n more))
  | stop h hu' hmore =>
    -- no line of the text has begun the block, so that its column does not matter
    have hend : AtEnd text Closing (0 :: blocks).length blocks.length []
        (blockItems item begins m true)
        (fun more => blockItems (item' more) begins (n more) true) :=
      atEnd_blockItems hbegins m n true
    refine (hend.continues hu' (run_block h rfl m) fun more rest Q _ hspells hgoes => ?_).outside
    obtain ⟨span, v, hpeek, hv⟩ := hmore more rest hspells
    have hblock := hgoes _ hv
    unfold Attains Runs at hblock ⊢
    rwa [run_block hpeek rfl]

/-- `of` with the block behind it, and what is made of the two. -/
def ofBlock (fuel : Nat) (begins : Token → Bool) (item : Parser α)
    (h : Located Token → List α → β) : Parser β := do
  let ofToken ← expect (.keyword .ofWord)
  let as ← block fuel begins item
  return h ofToken as

/-- At the end of the text `of` begins an empty block. -/
theorem resumes_ofBlock (hbegins : ∀ fs, Closing fs → begins (Filler.first fs) = false)
    (n : Nat) (h : Located Token → List α → β) :
    Resumes Closing [.ofWord] (ofBlock n begins item h) := by
  intro v rest hrest hv
  rw [List.singleton_append, Filler.cues, if_pos rfl] at hv
  refine attains_bind (.inr (runs_expect hv)) ?_
  rintro ofToken v₁ ⟨-, span, v₂, hpeek, hv₂⟩
  refine attains_bind (P := fun _ v => v.Yields (Filler.cues rest)) ?_
    fun _ _ hv => .inr (runs_pure hv)
  unfold Attains Runs
  rw [run_block hpeek rfl]
  cases n with
  | zero => exact .inl rfl
  | succ n =>
    -- the end of the text ends the block, or the next filler closes it
    by_cases hnil : rest = []
    · subst hnil
      rw [if_pos rfl] at hv₂
      rw [blockItems]
      refine .inr (runs_bind (runs_peek hv₂ rfl) ?_)
      rintro t v₃ ⟨ht, hv₃⟩
      rw [if_pos ht]
      refine runs_bind (runs_discard (runs_advance hv₃)) ?_
      rintro _ v₄ ⟨_, -, hv₄⟩
      exact runs_pure hv₄
    · rw [if_neg hnil] at hv₂
      exact attains_mono (attains_blockItems hbegins hrest (k := 0) hv₂ (n + 1) true)
        fun _ _ h => h.2

/-- **`of` with its block**, which is all that is missing where the text ends in front of it. -/
theorem goesOn_ofBlock (hbegins : ∀ fs, Closing fs → begins (Filler.first fs) = false)
    (hitem : ∀ column, GoesOn text Closing fs (column :: blocks) (column :: blocks) item item')
    (hmn : ∀ more, m ≤ n more) (h : Located Token → List α → β) :
    GoesOn text Closing [.ofWord] blocks blocks (ofBlock m begins item h)
      (fun more => ofBlock (n more) begins (item' more) h) := by
  have hlacks : Lacks text blocks.length (expect (.keyword .ofWord)) :=
    lacks_expect (by simp) (by simp)
  have hatEnd : AtEnd text Closing blocks.length blocks.length [.ofWord]
      (ofBlock m begins item h) (fun more => ofBlock (n more) begins (item' more) h) :=
    .lacks (by simp) (hlacks.bind _) fun _ more => resumes_ofBlock hbegins (n more) h
  refine ⟨fun u hu => ?_, hatEnd⟩
  cases hu.sees with
  | error h hmore =>
    exact continues_of_error rfl (run_bind_error (run_expect_of_error h))
      fun more => run_bind_error (run_expect_of_error (hmore more))
  | @token t u' hpeek heof hu' hmore =>
    by_cases ht : t.value = .keyword .ofWord
    · -- the next token begins the block
      have hof := hu.inStep.advance_of (TokenStream.advance_of_peek hpeek) (by rw [ht]; rfl)
      have hbefore : { u' with lookahead := none }.Before text := ⟨hu'.layout, by simp⟩
      have hblock := continues_block hbegins hitem hmn hbefore hof
      exact (hblock.map (h t)).congr (run_bind_ok (run_expect hpeek ht))
        fun more => .inr (run_bind_ok (run_expect (hmore more) ht))
    · refine continues_of_error ?_ (run_bind_error (run_expect_of_ne hpeek ht))
        fun more => run_bind_error (run_expect_of_ne (hmore more) ht)
      simpa [ParseError.isIncomplete] using heof
  | stop hended hmore =>
    exact hatEnd.continues_of_ended hended hmore

end Block

end Parser

end CallByNeed

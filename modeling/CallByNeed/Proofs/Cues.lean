import CallByNeed.TokenStream
import Mathlib.Data.List.Forall2

/-!
# What a stream hands out

A parser sees a text as a sequence of cues: tokens, and the places at which it has to close the
innermost block because the next token cannot go on with it.  `TokenStream.Yields` says that a
stream hands out given cues, and nothing about the text, its columns or the state of the layout, so
that what is shown about a parser on cues holds for every layout of the text.

`Parser.Runs x s Q` says that the parser `x` succeeds on the stream `s` with a value and a stream of
which `Q` holds.  Runs compose (`runs_bind`), and each operation on a stream has its law: looking
keeps the cues, taking and closing remove the first one.  From these follow the laws of the two
parsers of several items: `runs_delimited` for items in brackets and `runs_blockItems` for those of
a block.
-/

namespace CallByNeed

/-! ### Successful runs -/

namespace Parser

variable {α β : Type} {s : TokenStream}

/-- The parser succeeds on the stream, with a value and a stream behind it that satisfy `Q`. -/
def Runs (x : Parser α) (s : TokenStream) (Q : α → TokenStream → Prop) : Prop :=
  ∃ a s', x.run s = .ok (a, s') ∧ Q a s'

theorem runs_pure {a : α} {Q : α → TokenStream → Prop} (h : Q a s) : Runs (pure a) s Q :=
  ⟨a, s, rfl, h⟩

/-- **Runs compose.** -/
theorem runs_bind {x : Parser α} {f : α → Parser β} {P : α → TokenStream → Prop}
    {Q : β → TokenStream → Prop} (hx : Runs x s P) (hf : ∀ a s', P a s' → Runs (f a) s' Q) :
    Runs (x >>= f) s Q := by
  obtain ⟨a, s', hrun, hP⟩ := hx
  obtain ⟨b, s'', hrun', hQ⟩ := hf a s' hP
  refine ⟨b, s'', ?_, hQ⟩
  show (andThen x f).run s = _
  rw [run, hrun]
  exact hrun'

theorem runs_mono {x : Parser α} {P Q : α → TokenStream → Prop} (hx : Runs x s P)
    (h : ∀ a s', P a s' → Q a s') : Runs x s Q := by
  obtain ⟨a, s', hrun, hP⟩ := hx
  exact ⟨a, s', hrun, h a s' hP⟩

theorem runs_discard {x : Parser α} {P : α → TokenStream → Prop} (hx : Runs x s P) :
    Runs (discard x) s fun _ s' => ∃ a, P a s' :=
  runs_bind hx fun a _ hP => runs_pure ⟨a, hP⟩

/-- The items of a block are read like anything else. -/
theorem runs_within {x : Parser α} {Q : α → TokenStream → Prop} (hx : Runs x s Q) :
    Runs (within x) s Q := by
  obtain ⟨a, s', hrun, hQ⟩ := hx
  exact ⟨a, s', by rw [run]; exact hrun, hQ⟩

theorem runs_ofExcept {r : Except Failure α} {a : α} (hr : r = .ok a) :
    Runs (ofExcept r) s fun b s' => b = a ∧ s' = s := by
  subst hr
  exact ⟨a, s, rfl, rfl, rfl⟩

end Parser

/-! ### Looking and taking -/

namespace TokenStream

/-- What was looked at is seen again. -/
theorem lookahead_of_peek {s s' : TokenStream} {t : Located Token} (h : s.peek = .ok (t, s')) :
    s'.lookahead = some t := by
  rw [peek] at h
  split at h
  · rename_i u hu
    obtain ⟨rfl, rfl⟩ : u = t ∧ s = s' := by simpa using h
    exact hu
  · cases hpull : s.pull with
    | error e => simp [hpull, Except.map] at h
    | ok result =>
      obtain ⟨u, s₁⟩ := result
      obtain ⟨rfl, rfl⟩ : u = t ∧ { s₁ with lookahead := some u } = s' := by
        simpa [hpull, Except.map] using h
      rfl

theorem peek_of_lookahead {s : TokenStream} {t : Located Token} (h : s.lookahead = some t) :
    s.peek = .ok (t, s) := by
  simp [peek, h]

/-- Pulling a token leaves open what is looked at. -/
theorem lookahead_of_pull {s s' : TokenStream} {t : Located Token} (h : s.pull = .ok (t, s')) :
    s'.lookahead = s.lookahead := by
  rw [pull] at h
  split at h
  · obtain ⟨-, rfl⟩ : _ ∧ { s with layout := _ } = s' := by simpa using h
    rfl
  · simp at h

/-- **Taking a token is looking at it and forgetting that one has looked.** -/
theorem advance_of_peek {s s' : TokenStream} {t : Located Token} (h : s.peek = .ok (t, s')) :
    s.advance = .ok (t, { s' with lookahead := none }) := by
  rw [peek] at h
  rw [advance]
  -- a token that has been looked at before waits; otherwise it comes from the layout
  cases hs : s.lookahead with
  | some u =>
    obtain ⟨rfl, rfl⟩ : u = t ∧ s = s' := by simpa [hs] using h
    rfl
  | none =>
    rw [hs] at h
    cases hpull : s.pull with
    | error e => simp [hpull, Except.map] at h
    | ok result =>
      obtain ⟨u, s₁⟩ := result
      obtain ⟨rfl, rfl⟩ : u = t ∧ { s₁ with lookahead := some u } = s' := by
        simpa [hpull, Except.map] using h
      have hnone : s₁.lookahead = none := (lookahead_of_pull hpull).trans hs
      obtain ⟨layout, lookahead⟩ := s₁
      simp_all

end TokenStream

/-! ### Cues -/

/-- What a parser meets next in a text. -/
inductive Cue where
  | token (t : Token)
  /-- The innermost block cannot go on with the next token. -/
  | close
deriving DecidableEq, Repr

/-- The first token of the cues. -/
def Cue.next : List Cue → Option Token
  | [] => none
  | .token t :: _ => some t
  | .close :: cues => next cues

namespace TokenStream

/-- The stream hands out these cues, and then anything. -/
def Yields (s : TokenStream) : List Cue → Prop
  | [] => True
  | .token t :: cues =>
    ∃ span s', s.peek = .ok (⟨t, span⟩, s') ∧ Yields { s' with lookahead := none } cues
  | .close :: cues =>
    ∃ t s' layout, s.peek = .ok (t, s') ∧ Cue.next cues = some t.value ∧
      s'.layout.closeInnermost = (true, layout) ∧ Yields { s' with layout } cues

variable {s s' : TokenStream} {t : Token} {cues : List Cue}

/-- **Only what is seen next matters** for the cues of a stream. -/
theorem yields_congr (h : s.peek = s'.peek) (hs : s.Yields cues) : s'.Yields cues := by
  match cues with
  | [] => trivial
  | .token t :: cues => rwa [Yields, ← h, ← Yields]
  | .close :: cues => rwa [Yields, ← h, ← Yields]

/-- The next token of the cues is what is seen. -/
theorem Yields.peek (h : s.Yields cues) (hnext : Cue.next cues = some t) :
    ∃ span s', s.peek = .ok (⟨t, span⟩, s') ∧ s'.Yields cues := by
  -- the stream that is left remembers the token, so it is seen there again
  have hagain {u : Located Token} {s' : TokenStream} (hpeek : s.peek = .ok (u, s')) :
      s'.Yields cues :=
    yields_congr (hpeek.trans (peek_of_lookahead (lookahead_of_peek hpeek)).symm) h
  match cues with
  | [] => simp [Cue.next] at hnext
  | .token u :: cues =>
    obtain ⟨span, s', hpeek, -⟩ := id h
    obtain rfl : u = t := by simpa [Cue.next] using hnext
    exact ⟨span, s', hpeek, hagain hpeek⟩
  | .close :: cues =>
    obtain ⟨u, s', layout, hpeek, hu, -⟩ := id h
    obtain ⟨value, span⟩ := u
    obtain rfl : value = t := by
      rw [Cue.next, hu] at hnext
      simpa using hnext
    exact ⟨span, s', hpeek, hagain hpeek⟩

end TokenStream

namespace Parser

variable {s : TokenStream} {t : Token} {cues : List Cue}

/-- **Looking keeps the cues.** -/
theorem runs_peek (h : s.Yields cues) (hnext : Cue.next cues = some t) :
    Runs peek s fun u s' => u.value = t ∧ s'.Yields cues := by
  obtain ⟨span, s', hpeek, hs'⟩ := h.peek hnext
  exact ⟨⟨t, span⟩, s', by rw [run, hpeek]; rfl, rfl, hs'⟩

/-- **Taking removes the first cue.** -/
theorem runs_advance (h : s.Yields (.token t :: cues)) :
    Runs advance s fun u s' => u.value = t ∧ s'.Yields cues := by
  obtain ⟨span, s', hpeek, hs'⟩ := h
  exact ⟨⟨t, span⟩, _, by rw [run, TokenStream.advance_of_peek hpeek]; rfl, rfl, hs'⟩

theorem runs_expect (h : s.Yields (.token t :: cues)) :
    Runs (expect t) s fun u s' => u.value = t ∧ s'.Yields cues := by
  apply runs_bind (runs_advance h)
  rintro u s' ⟨hu, hs'⟩
  rw [if_pos hu]
  exact runs_pure ⟨hu, hs'⟩

/-- **Closing removes the cue to do so**, once the next token has been looked at. -/
theorem runs_peek_close {β : Type} {f : Located Token → Parser β}
    {Q : β → TokenStream → Prop} (h : s.Yields (.close :: cues)) (hnext : Cue.next cues = some t)
    (hf : ∀ u s', u.value = t →
      Runs closeInnermost s' (fun closed s'' => closed = true ∧ s''.Yields cues) →
      Runs (f u) s' Q) :
    Runs (peek >>= f) s Q := by
  obtain ⟨u, s', layout, hpeek, hu, hclose, hs''⟩ := h
  rw [hnext, Option.some.injEq] at hu
  refine runs_bind (P := fun v s'' => v = u ∧ s'' = s')
    ⟨u, s', by rw [run, hpeek]; rfl, rfl, rfl⟩ ?_
  rintro v s'' ⟨rfl, rfl⟩
  refine hf v s'' hu.symm ⟨true, { s'' with layout }, ?_, rfl, hs''⟩
  rw [run, TokenStream.closeInnermost, hclose]

end Parser

/-! ### Items with separators -/

theorem Cue.next_append {cues rest : List Cue} {t : Token} (h : Cue.next cues = some t) :
    Cue.next (cues ++ rest) = some t := by
  match cues with
  | .token u :: cues => exact h
  | .close :: cues => exact @next_append cues rest t h

/-- The cues of several items, with a token between them, and one in front of the first item too
unless it is the `first` of all. -/
def Cue.separated (between : Token) : Bool → List (List Cue) → List Cue
  | _, [] => []
  | true, cues :: items => cues ++ separated between false items
  | false, cues :: items => .token between :: cues ++ separated between false items

/-- Separators only add to the cues of an item. -/
theorem Cue.length_le_separated (between : Token) (first : Bool) {items : List (List Cue)}
    {cues : List Cue} (h : cues ∈ items) :
    cues.length ≤ (separated between first items).length := by
  induction items generalizing first with
  | nil => simp at h
  | cons head items ih =>
    have htail : cues ∈ items → cues.length ≤ (separated between false items).length := ih false
    rcases List.mem_cons.1 h with rfl | h
    · cases first <;> simp only [separated, List.length_append, List.length_cons] <;> omega
    · have := htail h
      cases first <;> simp only [separated, List.length_append, List.length_cons] <;> omega

/-- Every item has a cue of its own. -/
theorem Cue.length_items_le_separated (between : Token) (first : Bool) {items : List (List Cue)}
    (h : ∀ cues ∈ items, cues ≠ []) :
    items.length ≤ (separated between first items).length := by
  induction items generalizing first with
  | nil => exact Nat.zero_le _
  | cons head items ih =>
    have hhead : 0 < head.length := List.length_pos_iff.2 (h head List.mem_cons_self)
    have htail := ih false fun cues hcues => h cues (List.mem_cons_of_mem _ hcues)
    cases first <;> simp only [separated, List.length_append, List.length_cons] <;> omega

namespace Parser

variable {α β : Type} {item : Parser α} {cuesOf : β → List Cue} {R : β → α → Prop}

/-- The parser of an item reads the cues of `x`, in front of the tokens in `stops`. -/
def Reads (item : Parser α) (cues : List Cue) (stops : List Token) (P : α → Prop) : Prop :=
  ∀ s rest t, t ∈ stops → Cue.next rest = some t → s.Yields (cues ++ rest) →
    Runs item s fun a s' => P a ∧ s'.Yields rest

/-- **Items up to a closing bracket** are read one after the other. -/
theorem runs_commaItems {closing : Token} (hclosing : closing ≠ .comma) {xs : List β}
    (hitem : ∀ x ∈ xs, Reads item (cuesOf x) [.comma, closing] (R x))
    (hstart : ∀ x ∈ xs, ∃ t, Cue.next (cuesOf x) = some t ∧ t ≠ closing)
    {fuel : Nat} (hfuel : xs.length < fuel) {first : Bool} {s : TokenStream} {rest : List Cue}
    (hs : s.Yields (Cue.separated .comma first (xs.map cuesOf) ++ .token closing :: rest)) :
    Runs (commaItems item closing fuel first) s fun as s' =>
      List.Forall₂ R xs as ∧ s'.Yields (.token closing :: rest) := by
  induction xs generalizing fuel first s with
  | nil =>
    obtain ⟨fuel, rfl⟩ : ∃ n, fuel = n + 1 := ⟨fuel - 1, by omega⟩
    rw [commaItems]
    have hs : s.Yields (.token closing :: rest) := by cases first <;> exact hs
    apply runs_bind (runs_peek hs rfl)
    rintro t s' ⟨ht, hs'⟩
    rw [if_pos ht]
    exact runs_pure ⟨.nil, hs'⟩
  | cons x xs ih =>
    obtain ⟨fuel, rfl⟩ : ∃ n, fuel = n + 1 := ⟨fuel - 1, by omega⟩
    rw [commaItems]
    -- an item stands in front of the next comma or of the closing bracket
    have hrest : ∃ t, t ∈ [Token.comma, closing] ∧
        Cue.next (Cue.separated .comma false (xs.map cuesOf) ++ .token closing :: rest) =
          some t := by
      cases xs with
      | nil => exact ⟨closing, by simp, rfl⟩
      | cons y ys => exact ⟨.comma, by simp, rfl⟩
    obtain ⟨stop, hstop, hrest⟩ := hrest
    -- what happens once a comma in front of the item is gone
    have htail {s : TokenStream} (hs : s.Yields (cuesOf x ++
        (Cue.separated .comma false (xs.map cuesOf) ++ .token closing :: rest))) :
        Runs (do let a ← item; let as ← commaItems item closing fuel false; return a :: as) s
          fun as s' => List.Forall₂ R (x :: xs) as ∧ s'.Yields (.token closing :: rest) := by
      apply runs_bind (hitem x List.mem_cons_self s _ stop hstop hrest hs)
      rintro a s' ⟨ha, hs'⟩
      apply runs_bind (ih (fun y hy => hitem y (List.mem_cons_of_mem _ hy))
        (fun y hy => hstart y (List.mem_cons_of_mem _ hy)) (by simpa using hfuel) hs')
      rintro as s'' ⟨has, hs''⟩
      exact runs_pure ⟨.cons ha has, hs''⟩
    cases first with
    | true =>
      obtain ⟨t, hnext, ht⟩ := hstart x List.mem_cons_self
      rw [List.map_cons, Cue.separated, List.append_assoc] at hs
      apply runs_bind (runs_peek hs (Cue.next_append hnext))
      rintro u s' ⟨hu, hs'⟩
      rw [if_neg (by rw [hu]; exact ht)]
      exact htail hs'
    | false =>
      rw [List.map_cons, Cue.separated, List.append_assoc, List.cons_append] at hs
      apply runs_bind (runs_peek hs rfl)
      rintro u s' ⟨hu, hs'⟩
      rw [if_neg (by rw [hu]; exact hclosing.symm)]
      apply runs_bind (runs_discard (runs_expect hs'))
      rintro _ s'' ⟨_, -, hs''⟩
      exact htail hs''

/-- **Items in brackets.** -/
theorem runs_delimited {opening closing : Token} (hclosing : closing ≠ .comma) {xs : List β}
    (hitem : ∀ x ∈ xs, Reads item (cuesOf x) [.comma, closing] (R x))
    (hstart : ∀ x ∈ xs, ∃ t, Cue.next (cuesOf x) = some t ∧ t ≠ closing)
    {fuel : Nat} (hfuel : xs.length < fuel) {s : TokenStream} {rest : List Cue}
    (hs : s.Yields (.token opening ::
      (Cue.separated .comma true (xs.map cuesOf) ++ .token closing :: rest))) :
    Runs (delimited fuel opening closing item) s fun as s' =>
      List.Forall₂ R xs as.1 ∧ s'.Yields rest := by
  apply runs_bind (runs_expect hs)
  rintro left s₁ ⟨-, hs₁⟩
  apply runs_bind (runs_commaItems hclosing hitem hstart hfuel hs₁)
  rintro as s₂ ⟨has, hs₂⟩
  apply runs_bind (runs_expect hs₂)
  rintro right s₃ ⟨-, hs₃⟩
  exact runs_pure ⟨has, hs₃⟩

/-- Brackets around nothing. -/
theorem runs_delimited_nil {opening closing : Token} (hclosing : closing ≠ .comma) {fuel : Nat}
    (hfuel : 0 < fuel) {s : TokenStream} {rest : List Cue}
    (hs : s.Yields (.token opening :: .token closing :: rest)) :
    Runs (delimited fuel opening closing item) s fun as s' => as.1 = [] ∧ s'.Yields rest := by
  have hnone := @runs_delimited α Unit item (fun _ => []) (fun _ _ => True) opening closing hclosing
    [] (by simp) (by simp) fuel hfuel s rest hs
  apply runs_mono hnone
  rintro ⟨as, span⟩ s' ⟨has, hs'⟩
  exact ⟨List.forall₂_nil_left_iff.1 has, hs'⟩

/-- Brackets around one item. -/
theorem runs_delimited_one {opening closing t : Token} (hclosing : closing ≠ .comma)
    {cues : List Cue} {P : α → Prop} (hitem : Reads item cues [.comma, closing] P)
    (hnext : Cue.next cues = some t) (ht : t ≠ closing) {fuel : Nat} (hfuel : 1 < fuel)
    {s : TokenStream} {rest : List Cue}
    (hs : s.Yields (.token opening :: (cues ++ .token closing :: rest))) :
    Runs (delimited fuel opening closing item) s fun as s' =>
      (∃ a, as.1 = [a] ∧ P a) ∧ s'.Yields rest := by
  have hone := @runs_delimited α Unit item (fun _ => cues) (fun _ => P) opening closing hclosing
    [()] (fun _ _ => hitem) (fun _ _ => ⟨t, hnext, ht⟩) fuel hfuel s rest
    (by simpa [Cue.separated] using hs)
  apply runs_mono hone
  rintro ⟨as, span⟩ s' ⟨has, hs'⟩
  obtain ⟨a, as', ha, has', rfl⟩ := List.forall₂_cons_left_iff.1 has
  obtain rfl := List.forall₂_nil_left_iff.1 has'
  exact ⟨⟨a, rfl, ha⟩, hs'⟩

/-- **The items of a block**, which a token closes that cannot go on with it. -/
theorem runs_blockItems {begins : Token → Bool} {stop : Token} (hend : stop ≠ .blockEnd)
    (hdelim : stop ≠ .blockDelim) (hbegins : begins stop = false) {xs : List β}
    (hitem : ∀ x ∈ xs, Reads item (cuesOf x) [.blockDelim, stop] (R x))
    (hstart : ∀ x ∈ xs, ∃ t, Cue.next (cuesOf x) = some t ∧ t ≠ .blockEnd ∧ begins t = true)
    {fuel : Nat} (hfuel : xs.length < fuel) {first : Bool} {s : TokenStream} {rest : List Cue}
    (hrest : Cue.next rest = some stop)
    (hs : s.Yields (Cue.separated .blockDelim first (xs.map cuesOf) ++ .close :: rest)) :
    Runs (blockItems item begins fuel first) s fun as s' =>
      List.Forall₂ R xs as ∧ s'.Yields rest := by
  induction xs generalizing fuel first s with
  | nil =>
    obtain ⟨fuel, rfl⟩ : ∃ n, fuel = n + 1 := ⟨fuel - 1, by omega⟩
    rw [blockItems]
    have hs : s.Yields (.close :: rest) := by cases first <;> exact hs
    -- the token behind the block fits none of the three cases in which the block goes on
    apply runs_peek_close hs hrest
    intro u s' hu hclose
    rw [if_neg (by rw [hu]; exact hend), if_neg (by simp [hu, hdelim]),
      if_neg (by simp [hu, hbegins])]
    apply runs_bind hclose
    rintro closed s'' ⟨rfl, hs''⟩
    exact runs_pure ⟨.nil, hs''⟩
  | cons x xs ih =>
    obtain ⟨fuel, rfl⟩ : ∃ n, fuel = n + 1 := ⟨fuel - 1, by omega⟩
    rw [blockItems]
    have hstop : ∃ t, t ∈ [Token.blockDelim, stop] ∧
        Cue.next (Cue.separated .blockDelim false (xs.map cuesOf) ++ .close :: rest) = some t := by
      cases xs with
      | nil => exact ⟨stop, by simp, hrest⟩
      | cons y ys => exact ⟨.blockDelim, by simp, rfl⟩
    obtain ⟨t, ht, hnext⟩ := hstop
    -- what happens once a delimiter in front of the item is gone
    have htail {s : TokenStream} (hs : s.Yields (cuesOf x ++
        (Cue.separated .blockDelim false (xs.map cuesOf) ++ .close :: rest))) :
        Runs (do let a ← item; let as ← blockItems item begins fuel false; return a :: as) s
          fun as s' => List.Forall₂ R (x :: xs) as ∧ s'.Yields rest := by
      apply runs_bind (hitem x List.mem_cons_self s _ t ht hnext hs)
      rintro a s' ⟨ha, hs'⟩
      apply runs_bind (ih (fun y hy => hitem y (List.mem_cons_of_mem _ hy))
        (fun y hy => hstart y (List.mem_cons_of_mem _ hy)) (by simpa using hfuel) hs')
      rintro as s'' ⟨has, hs''⟩
      exact runs_pure ⟨.cons ha has, hs''⟩
    cases first with
    | true =>
      obtain ⟨u, hnextx, hu, hbeginsu⟩ := hstart x List.mem_cons_self
      rw [List.map_cons, Cue.separated, List.append_assoc] at hs
      apply runs_bind (runs_peek hs (Cue.next_append hnextx))
      rintro v s' ⟨hv, hs'⟩
      rw [if_neg (by rw [hv]; exact hu), if_neg (by simp), if_pos (by simp [hv, hbeginsu])]
      exact htail hs'
    | false =>
      rw [List.map_cons, Cue.separated, List.append_assoc, List.cons_append] at hs
      apply runs_bind (runs_peek hs rfl)
      rintro v s' ⟨hv, hs'⟩
      rw [if_neg (by simp [hv]), if_pos (by simp [hv])]
      apply runs_bind (runs_discard (runs_advance hs'))
      rintro _ s'' ⟨_, -, hs''⟩
      exact htail hs''

end Parser

end CallByNeed

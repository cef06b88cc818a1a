import CallByNeed.Proofs.Spelling
import CallByNeed.TokenStream

/-!
# Tokens that can be spelled

A name that the lexer reads is a name when it stands alone, and a number that it reads is in range.
The layout adds block tokens, and the stream keeps one token back, but neither changes a token.  So
all tokens that a parser meets are legible (`TokenStream.Legible.peek`, `Parser.legible_of_run`).
-/

namespace CallByNeed

/-- A name is the spelling of a name, and a number is in range. -/
def Token.Legible : Token → Prop
  | identifier name => IsName name
  | integer value => value ≤ maxInteger
  | _ => True

/-- The fixed spellings are neither those of names nor those of numbers. -/
theorem Token.legible_of_mem {entry : String × Token} (h : entry ∈ symbols ++ words) :
    entry.2.Legible := by
  have hfixed : (symbols ++ words).all fun entry => match entry.2 with
      | .identifier _ | .integer _ => false
      | _ => true := by decide
  have hentry := List.all_eq_true.1 hfixed entry h
  generalize entry.2 = t at hentry ⊢
  cases t with
  | identifier name => cases hentry
  | integer value => cases hentry
  | _ => trivial

/-- **What a spelling stands for can be spelled.** -/
theorem Token.legible_of_lexeme {cs : List Char} {t : Token} (hne : lexeme cs ≠ [])
    (h : ofLexeme (lexeme cs) = some t) : t.Legible := by
  -- a name is a word, a number has been checked against the bound, and other tokens have no text
  cases t with
  | identifier name =>
    obtain ⟨hname, hlookup, c, ds, hlexeme, hword⟩ := word_of_lexeme hne h
    exact (isName_iff name).2 ⟨hlookup, c, ds, hname.trans hlexeme, hword⟩
  | integer value =>
    unfold ofLexeme at h
    dsimp only at h
    split at h
    · rename_i u hlookup
      obtain rfl := Option.some.inj h
      exact legible_of_mem (mem_of_lookup_eq_some hlookup)
    · cases h
    · split at h
      · cases h
      · split at h
        · split at h
          · rename_i hle
            obtain rfl := Token.integer.inj (Option.some.inj h)
            exact hle
          · cases h
        · cases h
  | _ => trivial

/-- **The lexer reads legible tokens.** -/
theorem Cursor.legible_of_next {c c' : Cursor} {t : Located Token} (h : c.next = (.ok t, c')) :
    t.value.Legible := by
  by_cases hline : t.value = .newline
  · rw [hline]
    trivial
  · by_cases heof : t.value = .eof
    · rw [heof]
      trivial
    · obtain ⟨hne, htoken⟩ := ofLexeme_of_token h hline heof
      exact Token.legible_of_lexeme hne htoken

namespace Layout

variable {s s' : Layout} {t : Located Token}

/-- The tokens that wait are legible. -/
def Legible (s : Layout) : Prop :=
  ∀ u ∈ s.queue, u.value.Legible

theorem Legible.mark (h : s.Legible) {ts : List Token} (hts : ∀ u ∈ ts, u.Legible) (span : Span) :
    (s.mark ts span).Legible := by
  intro u hu
  rcases List.mem_append.1 hu with hu | hu
  · exact h u hu
  · obtain ⟨v, hv, rfl⟩ := List.mem_map.1 hu
    exact hts v hv

theorem Legible.enqueue (h : s.Legible) (ht : t.value.Legible) : (s.enqueue t).Legible := by
  intro u hu
  rcases List.mem_append.1 hu with hu | hu
  · exact h u hu
  · rwa [List.mem_singleton.1 hu]

theorem Legible.align (h : s.Legible) (span : Span) : (s.align span).Legible := by
  have hcolumns (columns : List Nat) : Legible { s with columns } := h
  refine (hcolumns _).mark (fun u hu => ?_) span
  rcases List.mem_append.1 hu with hu | hu
  · obtain ⟨_, -, rfl⟩ := List.mem_map.1 hu
    trivial
  · split at hu
    · rw [List.mem_singleton.1 hu]
      trivial
    · cases hu

theorem Legible.goOn (h : s.Legible) (ht : t.value.Legible) : (s.goOn t).Legible := by
  have key {s : Layout} (h : s.Legible) : Legible
      (if t.value = .pipe && !s.columns.isEmpty then
        { (if s.endsWithDelim then s else s.mark [.blockDelim] t.span) with freshLine := false }
      else s.enqueue t) := by
    split
    · split
      · exact h
      · exact h.mark (by simp [Token.Legible]) t.span
    · exact h.enqueue ht
  rw [Layout.goOn]
  split
  · exact key (h.align t.span)
  · exact key h

theorem Legible.accept (h : s.Legible) (ht : t.value.Legible) : (s.accept t).Legible := by
  have hblock {s : Layout} (h : s.Legible) : (s.mark [.blockBegin] t.span).Legible :=
    h.mark (by simp [Token.Legible]) t.span
  rw [Layout.accept]
  split
  · split
    · have hempty : (s.markEmptyBlock t.span).Legible :=
        Legible.mark (s := { s with afterOf := false }) h (by simp [Token.Legible]) t.span
      exact hempty.goOn ht
    · exact (hblock (s := { s with columns := t.span.start.column :: s.columns }) h).enqueue ht
  · exact h.goOn ht

theorem Legible.acceptEnd (h : s.Legible) (ht : t.value.Legible) : (s.acceptEnd t).Legible := by
  have hends {s : Layout} (h : s.Legible) : Legible
      ({ s with columns := [] }.mark (s.columns.map fun _ => .blockEnd) t.span) := by
    refine Legible.mark (s := { s with columns := [] }) h (fun u hu => ?_) t.span
    obtain ⟨_, -, rfl⟩ := List.mem_map.1 hu
    trivial
  have hlast {s : Layout} (h : s.Legible) : Legible { s with queue := s.queue ++ [t] } := by
    intro u hu
    rcases List.mem_append.1 hu with hu | hu
    · exact h u hu
    · rwa [List.mem_singleton.1 hu]
  rw [Layout.acceptEnd]
  refine hlast (hends ?_)
  split
  · exact Legible.mark (s := { s with afterOf := false }) h (by simp [Token.Legible]) t.span
  · exact h

theorem Legible.dequeue (hs : s.Legible) (h : s.dequeue = (t, s')) :
    t.value.Legible ∧ s'.Legible := by
  rw [Layout.dequeue] at h
  split at h
  · rename_i u queue hqueue
    obtain ⟨rfl, rfl⟩ := Prod.mk.inj h
    unfold Legible at hs
    rw [hqueue] at hs
    exact List.forall_mem_cons.1 hs
  · obtain ⟨rfl, rfl⟩ := Prod.mk.inj h
    exact ⟨trivial, hs⟩

/-- **The layout hands out legible tokens.** -/
theorem Legible.next (hs : s.Legible) (h : s.next = (.ok t, s')) :
    t.value.Legible ∧ s'.Legible := by
  fun_induction Layout.next s with
  | case1 s hq e cursor hc => simp at h
  | case2 s hq u cursor hc hu hlt ih => exact ih hs h
  | case3 s hq u cursor hc hu s₁ t₁ s₂ hd =>
    obtain ⟨rfl, rfl⟩ : t₁ = t ∧ s₂ = s' := by simpa using h
    have hu := Cursor.legible_of_next hc
    refine Legible.dequeue ?_ hd
    split
    · exact Legible.acceptEnd (s := s₁) hs hu
    · exact Legible.accept (s := s₁) hs hu
  | case4 s hq t₁ s₂ hd =>
    obtain ⟨rfl, rfl⟩ : t₁ = t ∧ s₂ = s' := by simpa using h
    exact hs.dequeue hd

end Layout

namespace TokenStream

variable {s s' : TokenStream} {t : Located Token}

/-- The tokens that wait are legible, on the layout and in front of it. -/
structure Legible (s : TokenStream) : Prop where
  layout : s.layout.Legible
  lookahead : ∀ u ∈ s.lookahead, u.value.Legible

theorem legible_ofString (text : String) : (ofString text).Legible :=
  ⟨fun _ h => absurd h List.not_mem_nil, fun u h => absurd h (Option.not_mem_none u)⟩

theorem Legible.pull (hs : s.Legible) (h : s.pull = .ok (t, s')) :
    t.value.Legible ∧ s'.Legible := by
  rw [TokenStream.pull] at h
  split at h
  · rename_i u layout hnext
    obtain ⟨rfl, rfl⟩ := Prod.mk.inj (Except.ok.inj h)
    obtain ⟨hu, hlayout⟩ := hs.layout.next hnext
    exact ⟨hu, hlayout, hs.lookahead⟩
  · cases h

/-- **A token that is looked at is legible.** -/
theorem Legible.peek (hs : s.Legible) (h : s.peek = .ok (t, s')) :
    t.value.Legible ∧ s'.Legible := by
  rw [TokenStream.peek] at h
  split at h
  · rename_i u hlookahead
    obtain ⟨rfl, rfl⟩ := Prod.mk.inj (Except.ok.inj h)
    exact ⟨hs.lookahead u hlookahead, hs⟩
  · -- the token has to be taken from the layout first
    cases hpull : s.pull with
    | error e =>
      rw [hpull] at h
      cases h
    | ok result =>
      rw [hpull] at h
      obtain ⟨rfl, rfl⟩ := Prod.mk.inj (Except.ok.inj h)
      obtain ⟨ht, hs'⟩ := hs.pull hpull
      refine ⟨ht, hs'.layout, fun u hu => ?_⟩
      obtain rfl := Option.some.inj hu
      exact ht

/-- **A token that is taken is legible.** -/
theorem Legible.advance (hs : s.Legible) (h : s.advance = .ok (t, s')) :
    t.value.Legible ∧ s'.Legible := by
  rw [TokenStream.advance] at h
  split at h
  · rename_i u hlookahead
    obtain ⟨rfl, rfl⟩ := Prod.mk.inj (Except.ok.inj h)
    exact ⟨hs.lookahead u hlookahead, hs.layout, fun _ hu => by cases hu⟩
  · exact hs.pull h

theorem Legible.closeInnermost (hs : s.Legible) : s.closeInnermost.2.Legible := by
  have hlayout : s.layout.closeInnermost.2.Legible := by
    rw [Layout.closeInnermost]
    split
    · exact hs.layout
    · exact hs.layout
  exact ⟨hlayout, hs.lookahead⟩

end TokenStream

/-- **Parsers keep streams legible.** -/
theorem Parser.legible_of_run {α : Type} (x : Parser α) {s s' : TokenStream} {v : α}
    (hs : s.Legible) (h : x.run s = .ok (v, s')) : s'.Legible := by
  induction x generalizing s s' with
  | done w =>
    obtain ⟨-, rfl⟩ := Prod.mk.inj (Except.ok.inj h)
    exact hs
  | stop why => cases h
  | peek =>
    rw [run] at h
    -- looking at the next token and taking it are the steps that come upon a new one
    cases hpeek : s.peek with
    | error e => simp [hpeek, ofStream] at h
    | ok result =>
      obtain rfl : result = (v, s') := by simpa [hpeek, ofStream] using h
      exact (hs.peek hpeek).2
  | advance =>
    rw [run] at h
    cases hadvance : s.advance with
    | error e => simp [hadvance, ofStream] at h
    | ok result =>
      obtain rfl : result = (v, s') := by simpa [hadvance, ofStream] using h
      exact (hs.advance hadvance).2
  | closeInnermost =>
    obtain rfl : s.closeInnermost.2 = s' := congrArg Prod.snd (Except.ok.inj h)
    exact hs.closeInnermost
  | within x ih =>
    rw [run] at h
    exact ih hs h
  | andThen x f ihx ihf =>
    rw [run] at h
    cases hx : x.run s with
    | error why => simp [hx] at h
    | ok result =>
      rw [hx] at h
      exact ihf result.1 (ihx hs hx) h

end CallByNeed

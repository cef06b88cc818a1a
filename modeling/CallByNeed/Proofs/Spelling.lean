import CallByNeed.Token.Lexer

/-!
# Reading a token off the front of a text

`Spelled cs t rest` says that the first token of the characters `cs` is `t` and that `rest` is
behind it, wherever in a text the characters stand.  There is one law for each kind of token: a
bracket is read off in front of anything, while an operator, a number and a word are read off in
front of a character that cannot continue them (`Ends`).  A space in front of a token changes
nothing (`spelled_space`).

The laws rest on the classes of characters being apart: what starts a word is no operator character,
no bracket, no digit and no blank.  `isName_iff` says which texts are names: exactly the words that
are not reserved.
-/

namespace CallByNeed

/-! ### The classes of characters are apart -/

/-- A property of some characters is decided by going through these, not through all there are. -/
theorem forall_mem_of_all {cs : List Char} {p : Char → Prop} [DecidablePred p]
    (h : (cs.all fun c => decide (p c)) = true) : ∀ c ∈ cs, p c := by
  intro c hc
  exact of_decide_eq_true (List.all_eq_true.mp h c hc)

/-- **Marks are neither letters nor digits nor blanks**: operator characters and brackets are few,
so that they can be gone through. -/
theorem class_of_mark {c : Char}
    (h : Token.isOperatorChar c = true ∨ Token.isBracketChar c = true) :
    Token.startsWord c = false ∧ Token.continuesWord c = false ∧ c.isDigit = false ∧
      Text.isBlank c = false := by
  have key : ∀ d ∈ ['!', '#', '$', '%', '&', '*', '+', '-', '.', '/', ':', '<', '=', '>', '?', '@',
      '^', '|', '~'] ++ ['(', ')', ',', '[', ']', '\\'], Token.startsWord d = false ∧
      Token.continuesWord d = false ∧ d.isDigit = false ∧ Text.isBlank d = false :=
    forall_mem_of_all (by decide)
  apply key c
  rw [List.mem_append]
  exact h.imp (fun h => by simpa [Token.isOperatorChar] using h)
    (fun h => by simpa [Token.isBracketChar] using h)

theorem isOperatorChar_of_isBracketChar {c : Char} (h : Token.isBracketChar c = true) :
    Token.isOperatorChar c = false := by
  have key : ∀ d ∈ ['(', ')', ',', '[', ']', '\\'], Token.isOperatorChar d = false :=
    forall_mem_of_all (by decide)
  exact key c (by simpa [Token.isBracketChar] using h)

/-- **Digits are no letters**: the table of letters starts behind them. -/
theorem startsWord_of_isDigit {c : Char} (h : c.isDigit = true) : Token.startsWord c = false := by
  have hle : c.toNat ≤ 57 := by
    simp only [Char.isDigit, Bool.and_eq_true, decide_eq_true_eq] at h
    exact h.2
  have hletter : Text.isLetter c = false := by
    show (if c.toNat < 0x41 then false else _) = false
    rw [if_pos (by omega)]
  have hne : c ≠ '_' := by
    rintro rfl
    exact absurd h (by decide)
  simp [Token.startsWord, hletter, hne]

/-- **Blanks are neither letters nor digits.** -/
theorem class_of_isBlank {c : Char} (h : Text.isBlank c = true) :
    Token.startsWord c = false ∧ c.isDigit = false := by
  have key : ∀ r ∈ Text.blankRanges, ∀ n ∈ List.range' r.1 (r.2 + 1 - r.1),
      Text.letterRanges.contains n = false ∧ n ≠ 95 ∧ ¬(48 ≤ n ∧ n ≤ 57) := by decide +kernel
  obtain ⟨r, hr, hlo, hhi⟩ := Text.Ranges.exists_mem_of_contains h
  obtain ⟨hletter, hunderscore, hdigit⟩ := key r hr c.toNat (by rw [List.mem_range'_1]; omega)
  have hne : c ≠ '_' := by
    rintro rfl
    exact hunderscore rfl
  refine ⟨by simp [Token.startsWord, Text.isLetter, hletter, hne], ?_⟩
  rw [Char.isDigit, ← Bool.not_eq_true, Bool.and_eq_true, decide_eq_true_eq, decide_eq_true_eq]
  exact hdigit

/-- Of two classes that are apart, a character of the one is not in the other. -/
theorem eq_false_of_apart {a b : Bool} (ha : a = true) (h : b = true → a = false) : b = false := by
  cases b with
  | false => rfl
  | true => exact absurd ha (by rw [h rfl]; decide)

/-- What starts a word belongs to no other class. -/
theorem class_of_startsWord {c : Char} (h : Token.startsWord c = true) :
    Token.isOperatorChar c = false ∧ Token.isBracketChar c = false ∧ c.isDigit = false ∧
      Text.isBlank c = false := by
  refine ⟨?_, ?_, ?_, ?_⟩
  · exact eq_false_of_apart h fun hc => (class_of_mark (.inl hc)).1
  · exact eq_false_of_apart h fun hc => (class_of_mark (.inr hc)).1
  · exact eq_false_of_apart h startsWord_of_isDigit
  · exact eq_false_of_apart h fun hc => (class_of_isBlank hc).1

/-- What is a digit belongs to no other class. -/
theorem class_of_isDigit {c : Char} (h : c.isDigit = true) :
    Token.isOperatorChar c = false ∧ Token.isBracketChar c = false ∧ Text.isBlank c = false := by
  refine ⟨?_, ?_, ?_⟩
  · exact eq_false_of_apart h fun hc => (class_of_mark (.inl hc)).2.2.1
  · exact eq_false_of_apart h fun hc => (class_of_mark (.inr hc)).2.2.1
  · exact eq_false_of_apart h fun hc => (class_of_isBlank hc).2

/-! ### Spelled tokens -/

/-- The first token of `cs` is `t`, and `rest` is behind it, wherever the characters stand. -/
def Spelled (cs : List Char) (t : Token) (rest : List Char) : Prop :=
  ∀ p, ∃ span q, Cursor.next ⟨cs, p⟩ = (.ok ⟨t, span⟩, ⟨rest, q⟩)

/-- The characters start with one that continues no operator, no number and no word. -/
def Ends (rest : List Char) : Prop :=
  ∀ c ∈ rest.head?, Token.isOperatorChar c = false ∧ c.isDigit = false ∧
    Token.continuesWord c = false

theorem ends_nil : Ends [] := by
  intro c hc
  simp at hc

/-- **Spaces, commas and closing brackets end what stands before them.** -/
theorem ends_cons {c : Char} (h : c ∈ [' ', ',', ')', ']']) (rest : List Char) :
    Ends (c :: rest) := by
  have key : ∀ d ∈ [' ', ',', ')', ']'], Token.isOperatorChar d = false ∧ d.isDigit = false ∧
      Token.continuesWord d = false := forall_mem_of_all (by decide)
  intro d hd
  obtain rfl : c = d := by simpa using hd
  exact key c h

/-- A run of characters of one class ends where a character of another class stands. -/
theorem takeWhile_append_of_head {p : Char → Bool} {cs rest : List Char}
    (hcs : ∀ c ∈ cs, p c = true) (hrest : ∀ c ∈ rest.head?, p c = false) :
    (cs ++ rest).takeWhile p = cs := by
  have hnil : rest.takeWhile p = [] := by
    cases rest with
    | nil => rfl
    | cons d rest => exact List.takeWhile_cons_of_neg (by simp [hrest d (by simp)])
  rw [List.takeWhile_append_of_pos hcs, hnil, List.append_nil]

/-- Where no gap stands a token is read off as soon as its spelling is known. -/
theorem spelled_of_lexeme {c : Char} {cs rest : List Char} {t : Token}
    (hblank : Text.isBlank c = false) (hcomment : Cursor.startsComment (c :: cs ++ rest) = false)
    (hlexeme : Token.lexeme (c :: cs ++ rest) = c :: cs)
    (htoken : Token.ofLexeme (c :: cs) = some t) : Spelled (c :: cs ++ rest) t rest := by
  intro p
  -- there is neither a blank nor a comment to skip
  have hgap : Cursor.skipGap ⟨c :: cs ++ rest, p⟩ = ⟨c :: cs ++ rest, p⟩ := by
    have hskip : Cursor.skipWhile ⟨c :: cs ++ rest, p⟩ Cursor.isInlineBlank =
        ⟨c :: cs ++ rest, p⟩ := by
      simp [Cursor.skipWhile, Cursor.isInlineBlank, hblank, Cursor.skip]
    rw [Cursor.skipGap, hskip]
    simp only [hcomment, Bool.false_eq_true, if_false]
  have hnewline : c ≠ '\n' := by
    rintro rfl
    exact absurd hblank (by decide)
  rw [Cursor.next, hgap, Cursor.token]
  simp only [List.cons_append, hnewline, if_false]
  rw [← List.cons_append, hlexeme, htoken]
  have hdrop : Cursor.skip ⟨c :: cs ++ rest, p⟩ (c :: cs).length = ⟨rest, p.advance (c :: cs)⟩ := by
    simp [Cursor.skip]
  rw [hdrop]
  exact ⟨_, _, rfl⟩

/-- **A space in front of a token is skipped.** -/
theorem spelled_space {cs rest : List Char} {t : Token} (h : Spelled cs t rest) :
    Spelled (' ' :: cs) t rest := by
  intro p
  obtain ⟨span, q, hnext⟩ := h (p.after ' ')
  have hblank : Cursor.isInlineBlank ' ' = true := by decide
  refine ⟨span, q, ?_⟩
  rw [← hnext]
  simp [Cursor.next, Cursor.skipGap, Cursor.skipWhile, Cursor.skip, hblank]

/-- **The end of a text.** -/
theorem spelled_end : Spelled [] .eof [] := by
  intro p
  exact ⟨_, _, rfl⟩

theorem startsComment_of_not_isOperatorChar {c : Char} {cs : List Char}
    (h : Token.isOperatorChar c = false) : Cursor.startsComment (c :: cs) = false := by
  simp [Cursor.startsComment, h]

/-- **A bracket is a token in front of anything.** -/
theorem spelled_bracket {c : Char} {t : Token} (hc : Token.isBracketChar c = true)
    (htoken : Token.ofLexeme [c] = some t) (rest : List Char) : Spelled (c :: rest) t rest := by
  have hop := isOperatorChar_of_isBracketChar hc
  apply @spelled_of_lexeme c [] rest t (class_of_mark (.inr hc)).2.2.2
  · exact startsComment_of_not_isOperatorChar hop
  · simp [Token.lexeme, hop, hc]
  · exact htoken

/-- **A run of operator characters is one token**, unless it is a comment. -/
theorem spelled_operator {cs rest : List Char} {t : Token} (hcs : cs ≠ [])
    (hclass : cs.all Token.isOperatorChar = true)
    (hdash : cs.length < 2 ∨ cs.all (· == '-') = false)
    (hrest : Ends rest) (htoken : Token.ofLexeme cs = some t) : Spelled (cs ++ rest) t rest := by
  obtain ⟨c, cs, rfl⟩ := List.exists_cons_of_ne_nil hcs
  have hall : ∀ d ∈ c :: cs, Token.isOperatorChar d = true := by simpa using hclass
  have hrun : (c :: cs ++ rest).takeWhile Token.isOperatorChar = c :: cs :=
    takeWhile_append_of_head hall fun d hd => (hrest d hd).1
  have hc : Token.isOperatorChar c = true := hall c List.mem_cons_self
  apply spelled_of_lexeme (class_of_mark (.inl hc)).2.2.2
  · rw [Cursor.startsComment, hrun]
    rcases hdash with hdash | hdash
    · simp only [Bool.and_eq_false_iff, decide_eq_false_iff_not]
      exact .inl (by omega)
    · rw [hdash, Bool.and_false]
  · rw [List.cons_append, List.takeWhile_cons_of_pos hc, List.cons.injEq] at hrun
    simp [Token.lexeme, hc, hrun.2]
  · exact htoken

/-- **A word is one token.** -/
theorem spelled_word {c : Char} {cs rest : List Char} {t : Token} (hc : Token.startsWord c = true)
    (hcs : ∀ d ∈ cs, Token.continuesWord d = true) (hrest : Ends rest)
    (htoken : Token.ofLexeme (c :: cs) = some t) : Spelled (c :: cs ++ rest) t rest := by
  obtain ⟨hop, hbracket, hdigit, hblank⟩ := class_of_startsWord hc
  apply spelled_of_lexeme hblank
  · exact startsComment_of_not_isOperatorChar hop
  · rw [List.cons_append, Token.lexeme]
    simp only [hop, hbracket, hdigit, hc, Bool.false_eq_true, if_false, if_true]
    rw [takeWhile_append_of_head hcs fun d hd => (hrest d hd).2.2]
  · exact htoken

/-! ### Reserved spellings -/

/-- What a look-up in a table finds is an entry of the table. -/
theorem mem_of_lookup_eq_some {α : Type} {table : List (String × α)} {name : String} {t : α}
    (h : table.lookup name = some t) : (name, t) ∈ table := by
  obtain ⟨before, behind, rfl, -⟩ := List.lookup_eq_some_iff.mp h
  exact List.mem_append_right before List.mem_cons_self

/-- **No fixed spelling starts with a digit.** -/
theorem lookup_of_isDigit {c : Char} {cs : List Char} (h : c.isDigit = true) :
    (Token.symbols ++ Token.words).lookup (String.ofList (c :: cs)) = none := by
  have key : ∀ entry ∈ Token.symbols ++ Token.words,
      entry.1.toList.head?.any Char.isDigit = false := by decide
  cases hlookup : (Token.symbols ++ Token.words).lookup (String.ofList (c :: cs)) with
  | none => rfl
  | some t =>
    have := key _ (mem_of_lookup_eq_some hlookup)
    simp [h] at this

/-- **A number is read off its decimal digits.** -/
theorem spelled_integer {n : Nat} {rest : List Char} (hn : n ≤ Token.maxInteger)
    (hrest : Ends rest) : Spelled ((toString n).toList ++ rest) (.integer n) rest := by
  have htext : (toString n).toList = Nat.toDigits 10 n := by
    rw [Nat.toString_eq_repr, Nat.toList_repr]
  have hdigits : ∀ d ∈ Nat.toDigits 10 n, d.isDigit = true := fun d hd =>
    Nat.isDigit_of_mem_toDigits (by decide) (by decide) hd
  have hvalue : Token.digitsValue (Nat.toDigits 10 n) = n := by
    rw [Token.digitsValue, ← Nat.ofDigitChars_eq_foldl]
    exact Nat.ofDigitChars_ten_toDigits
  rw [htext]
  obtain ⟨c, cs, hlist⟩ := List.exists_cons_of_ne_nil (Nat.toDigits_ne_nil (n := n) (b := 10))
  -- the first digit decides how the spelling is read, all of them what it stands for
  rw [hlist] at hdigits hvalue ⊢
  have hc : c.isDigit = true := hdigits c List.mem_cons_self
  obtain ⟨hop, hbracket, hblank⟩ := class_of_isDigit hc
  apply spelled_of_lexeme hblank
  · exact startsComment_of_not_isOperatorChar hop
  · rw [List.cons_append, Token.lexeme]
    simp only [hop, hbracket, hc, Bool.false_eq_true, if_false, if_true]
    rw [takeWhile_append_of_head (fun d hd => hdigits d (List.mem_cons_of_mem _ hd))
      fun d hd => (hrest d hd).2.1]
  · simp only [Token.ofLexeme, lookup_of_isDigit hc, hop, hc, hvalue, hn, Bool.false_eq_true,
      if_false, if_true]

/-! ### Names -/

/-- The text is read as a single name, itself. -/
def IsName (name : String) : Prop :=
  ∃ span stop, tokenize name = .ok [⟨.identifier name, span⟩, ⟨.eof, stop⟩]

/-- A word that is not reserved is the spelling of a name. -/
theorem ofLexeme_of_startsWord {c : Char} {cs : List Char} (hc : Token.startsWord c = true)
    (h : (Token.symbols ++ Token.words).lookup (String.ofList (c :: cs)) = none) :
    Token.ofLexeme (c :: cs) = some (.identifier (String.ofList (c :: cs))) := by
  obtain ⟨hop, -, hdigit, -⟩ := class_of_startsWord hc
  simp only [Token.ofLexeme, h, hop, hdigit, Bool.false_eq_true, if_false]

/-- A spelling that stands for a name is not reserved, and its first character says what it is. -/
theorem of_ofLexeme_eq_identifier {c : Char} {cs : List Char} {name : String}
    (h : Token.ofLexeme (c :: cs) = some (.identifier name)) :
    name = String.ofList (c :: cs) ∧ (Token.symbols ++ Token.words).lookup name = none ∧
      Token.isOperatorChar c = false ∧ c.isDigit = false := by
  have hfixed : ∀ entry ∈ Token.symbols ++ Token.words, entry.2 ≠ .identifier name := by
    simp [Token.symbols, Token.words]
  cases hlookup : (Token.symbols ++ Token.words).lookup (String.ofList (c :: cs)) with
  | some t =>
    simp only [Token.ofLexeme, hlookup, Option.some.injEq] at h
    exact absurd h (hfixed _ (mem_of_lookup_eq_some hlookup))
  | none =>
    simp only [Token.ofLexeme, hlookup] at h
    split at h
    · simp at h
    · split at h
      · split at h <;> simp at h
      · rename_i hop hdigit
        obtain rfl : String.ofList (c :: cs) = name := by simpa using h
        exact ⟨rfl, hlookup, by simpa using hop, by simpa using hdigit⟩

/-- **What is read off a text as a name is a word**, and the name is that word. -/
theorem word_of_lexeme {cs : List Char} {name : String} (hne : Token.lexeme cs ≠ [])
    (h : Token.ofLexeme (Token.lexeme cs) = some (.identifier name)) :
    name.toList = Token.lexeme cs ∧ (Token.symbols ++ Token.words).lookup name = none ∧
      ∃ c ds, Token.lexeme cs = c :: ds ∧ Token.startsWord c = true ∧
        ∀ d ∈ ds, Token.continuesWord d = true := by
  have hreserved : ∀ d ∈ ['(', ')', ',', '[', ']', '\\'],
      (Token.symbols ++ Token.words).lookup (String.ofList [d]) ≠ none :=
    forall_mem_of_all (by decide)
  cases cs with
  | nil => exact absurd rfl hne
  | cons c cs =>
    -- by the class of the first character: only a word can stand for a name
    rw [Token.lexeme] at h hne ⊢
    split at h
    · rename_i hop
      exact absurd hop (by simp [(of_ofLexeme_eq_identifier h).2.2.1])
    · split at h
      · rename_i hbracket
        obtain ⟨rfl, hlookup, -, -⟩ := of_ofLexeme_eq_identifier h
        exact absurd hlookup (hreserved c (by simpa [Token.isBracketChar] using hbracket))
      · split at h
        · rename_i hdigit
          exact absurd hdigit (by simp [(of_ofLexeme_eq_identifier h).2.2.2])
        · rename_i hop hbracket hdigit
          simp only [hop, hbracket, hdigit, Bool.false_eq_true, if_false] at hne ⊢
          split at h
          · rename_i hword
            obtain ⟨rfl, hlookup, -, -⟩ := of_ofLexeme_eq_identifier h
            simp only [hword, if_true]
            refine ⟨String.toList_ofList, hlookup, c, _, rfl, hword, fun d hd => ?_⟩
            exact List.all_eq_true.1 List.all_takeWhile d hd
          · rename_i hword
            exact absurd (if_neg hword) hne

/-- No spelling stands for a newline, the end of the text or a block token. -/
theorem not_mem_of_ofLexeme {spelling : List Char} {t : Token}
    (h : Token.ofLexeme spelling = some t) :
    t ∉ [Token.newline, .eof, .blockBegin, .blockDelim, .blockEnd] := by
  have htable : ∀ entry ∈ Token.symbols ++ Token.words,
      entry.2 ∉ [Token.newline, .eof, .blockBegin, .blockDelim, .blockEnd] := by decide
  unfold Token.ofLexeme at h
  dsimp only at h
  split at h
  · rename_i u hlookup
    obtain rfl : u = t := by simpa using h
    exact htable _ (mem_of_lookup_eq_some hlookup)
  · rw [← Option.some.inj h]
    simp
  · repeat' split at h
    all_goals first
      | (rw [← Option.some.inj h]; simp)
      | simp at h

/-- A token of the text, neither a newline nor the end, is what its spelling stands for. -/
theorem ofLexeme_of_token {c c' : Cursor} {t : Located Token} (h : c.token = (.ok t, c'))
    (hline : t.value ≠ .newline) (heof : t.value ≠ .eof) :
    Token.lexeme c.rest ≠ [] ∧ Token.ofLexeme (Token.lexeme c.rest) = some t.value := by
  rw [Cursor.token] at h
  split at h
  · simp only [Prod.mk.injEq, Except.ok.injEq] at h
    exact absurd (h.1 ▸ rfl) heof
  · split at h
    · simp only [Prod.mk.injEq, Except.ok.injEq] at h
      exact absurd (h.1 ▸ rfl) hline
    · dsimp only at h
      split at h
      · simp at h
      · rename_i hne
        split at h
        · rename_i u hu
          obtain ⟨rfl, -⟩ : (⟨u, _⟩ : Located Token) = t ∧ _ := by simpa using h
          exact ⟨by simpa using hne, hu⟩
        · simp at h

/-- The lexer yields no block tokens. -/
theorem not_mem_of_next {c c' : Cursor} {t : Located Token} (h : c.next = (.ok t, c')) :
    t.value ∉ [Token.blockBegin, .blockDelim, .blockEnd] := by
  by_cases hline : t.value = .newline
  · simp [hline]
  by_cases heof : t.value = .eof
  · simp [heof]
  obtain ⟨-, htoken⟩ := ofLexeme_of_token h hline heof
  have hspelled := not_mem_of_ofLexeme htoken
  simp only [List.mem_cons, not_or] at hspelled ⊢
  exact hspelled.2.2

/-- A token before the end is followed by the tokens behind it. -/
theorem tokens_of_next {c c' : Cursor} {t : Located Token} (h : c.next = (.ok t, c'))
    (ht : t.value ≠ .eof) : c.tokens = c'.tokens.map (t :: ·) := by
  rw [Cursor.tokens]
  split
  · rename_i heq
    simp [heq] at h
  · rename_i u d heq
    obtain ⟨rfl, rfl⟩ : u = t ∧ d = c' := by simpa [heq] using h
    simp only [ht, dite_false]
    cases d.tokens <;> rfl

/-- The end of the text is the last token. -/
theorem tokens_of_next_eof {c c' : Cursor} {t : Located Token} (h : c.next = (.ok t, c'))
    (ht : t.value = .eof) : c.tokens = .ok [t] := by
  rw [Cursor.tokens]
  split
  · rename_i heq
    simp [heq] at h
  · rename_i u d heq
    obtain ⟨rfl, rfl⟩ : u = t ∧ d = c' := by simpa [heq] using h
    simp only [ht, dite_true]

/-- **Names are the words that are not reserved.** -/
theorem isName_iff (name : String) : IsName name ↔
    (Token.symbols ++ Token.words).lookup name = none ∧ ∃ c cs, name.toList = c :: cs ∧
      Token.startsWord c = true ∧ ∀ d ∈ cs, Token.continuesWord d = true := by
  constructor
  · -- the first of the two tokens is the name
    rintro ⟨span, stop, h⟩
    cases hnext : (Cursor.ofString name).next with
    | mk result c' =>
      cases result with
      | error e =>
        rw [tokenize, Cursor.tokens] at h
        split at h <;> simp_all
      | ok t =>
        have hvalue : t.value = .identifier name := by
          by_cases heof : t.value = .eof
          · rw [tokenize, tokens_of_next_eof hnext heof] at h
            simp at h
          · rw [tokenize, tokens_of_next hnext heof] at h
            cases htail : c'.tokens with
            | error e => simp [htail, Except.map] at h
            | ok ts =>
              simp only [htail, Except.map, Except.ok.injEq, List.cons.injEq] at h
              rw [h.1]
        obtain ⟨hne, htoken⟩ := ofLexeme_of_token hnext (by simp [hvalue]) (by simp [hvalue])
        rw [hvalue] at htoken
        obtain ⟨hname, hlookup, c, ds, hlexeme, hword⟩ := word_of_lexeme hne htoken
        exact ⟨hlookup, c, ds, hname.trans hlexeme, hword⟩
  · -- the word is the first token, and nothing is behind it
    rintro ⟨hlookup, c, cs, hname, hc, hcs⟩
    have hofList : String.ofList (c :: cs) = name := by rw [← hname, String.ofList_toList]
    have htoken := ofLexeme_of_startsWord hc (hofList.symm ▸ hlookup)
    rw [hofList] at htoken
    obtain ⟨span, q, hnext⟩ := spelled_word hc hcs ends_nil htoken .start
    obtain ⟨stop, q', hend⟩ := spelled_end q
    refine ⟨span, stop, ?_⟩
    rw [tokenize, Cursor.ofString, hname, ← List.append_nil (c :: cs),
      tokens_of_next hnext (by simp), tokens_of_next_eof hend rfl]
    rfl

end CallByNeed

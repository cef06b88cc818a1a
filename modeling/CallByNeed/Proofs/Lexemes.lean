import CallByNeed.Proofs.Shift.Lines
import CallByNeed.Proofs.Totality.Buffer

/-!
# Texts cut into gaps and lexemes

A text that is read without an error is cut into pieces.  Each piece holds one token: the gap in
front of it, and its lexeme, which is the stretch of the text that the token's span covers.  Behind
the last piece stands one more gap, and then the end of the text (`Lexing`).  Nothing is lost, the
pieces and the last gap put together are the text, and nothing could be longer: no lexeme is
followed by a character that could continue it.

What can continue a lexeme depends only on its first character (`Run.of`), and the token tells it
too (`Token.run`), since the fixed spellings stay within one class of characters.  A lexeme read
alone is read as the same token (`tokenize_lexeme`).
-/

namespace CallByNeed

theorem byteLength_toList (s : String) : byteLength s.toList = s.utf8ByteSize := by
  have key (cs : List Char) : byteLength cs = (String.ofList cs).utf8ByteSize := by
    induction cs with
    | nil => rfl
    | cons c cs ih =>
      rw [byteLength, ih, ← List.singleton_append, String.ofList_append,
        String.utf8ByteSize_append, ← String.singleton_eq_ofList, String.utf8ByteSize_singleton]
  rw [key, String.ofList_toList]

/-! ### Gaps -/

/-- A gap in front of the characters `behind`: blanks on one line, then a comment or nothing.  A
comment reaches to the end of its line. -/
def Text.IsGap (gap behind : List Char) : Prop :=
  ∃ blanks comment, gap = blanks ++ comment ∧ (∀ c ∈ blanks, Cursor.isInlineBlank c = true) ∧
    (comment = [] ∨
      Text.IsComment comment ∧ '\n' ∉ comment ∧ ∀ c ∈ behind.head?, c = '\n')

/-- **What starts like a comment is one**, up to the end of the line. -/
theorem Cursor.isComment_of_startsComment {cs : List Char} (h : startsComment cs = true) :
    Text.IsComment (cs.takeWhile (· != '\n')) := by
  simp only [startsComment, Bool.and_eq_true, decide_eq_true_eq, List.all_eq_true,
    beq_iff_eq] at h
  obtain ⟨hlength, hdashes⟩ := h
  obtain ⟨n, hn⟩ : ∃ n, (cs.takeWhile Token.isOperatorChar).length = n + 2 :=
    ⟨_, (Nat.sub_add_cancel hlength).symm⟩
  have hrun : cs.takeWhile Token.isOperatorChar = List.replicate (n + 2) '-' :=
    List.eq_replicate_iff.2 ⟨hn, hdashes⟩
  -- the run of operator characters is all dashes, and something else stands behind it
  have hsplit := List.takeWhile_append_dropWhile (p := Token.isOperatorChar) (l := cs)
  have hstop := List.head?_dropWhile_not Token.isOperatorChar cs
  rw [hrun] at hsplit
  generalize cs.dropWhile Token.isOperatorChar = rest at hsplit hstop
  have hline : ∀ c ∈ List.replicate (n + 2) '-', (c != '\n') = true := by
    intro c hc
    rw [List.eq_of_mem_replicate hc]
    decide
  refine ⟨n, rest.takeWhile (· != '\n'), ?_, ?_⟩
  · rw [← hsplit, List.takeWhile_append_of_pos hline]
  · intro c hc
    cases rest with
    | nil => simp at hc
    | cons d rest =>
      by_cases hd : d = '\n'
      · -- the line may end behind the dashes
        simp [hd] at hc
      · obtain rfl : d = c := by simpa [hd] using hc
        simpa using hstop

/-- **The cursor passes gaps.** -/
theorem Cursor.isGap_of_skipGap (c : Cursor) :
    ∃ gap, c.Passes gap c.skipGap ∧ Text.IsGap gap c.skipGap.rest := by
  have hblanks := c.passes_skipWhile isInlineBlank
  have hblank : ∀ d ∈ c.rest.takeWhile isInlineBlank, isInlineBlank d = true := fun d hd =>
    List.all_eq_true.1 List.all_takeWhile d hd
  unfold skipGap
  dsimp only
  generalize c.skipWhile isInlineBlank = b at hblanks
  split
  · rename_i hcomment
    refine ⟨_, hblanks.trans (b.passes_skipWhile (· != '\n')), _, _, rfl, hblank, .inr ?_⟩
    exact ⟨isComment_of_startsComment hcomment, not_mem_takeWhile (by simp) _,
      Buffer.head?_skipLine b⟩
  · exact ⟨_, hblanks, _, [], (List.append_nil _).symm, hblank, .inl rfl⟩

/-- Behind a gap no comment starts. -/
theorem Cursor.startsComment_skipGap (c : Cursor) : startsComment c.skipGap.rest = false := by
  unfold skipGap
  dsimp only
  generalize c.skipWhile isInlineBlank = b
  split
  · have hend := Buffer.head?_skipLine b
    generalize (b.skipWhile (· != '\n')).rest = rest at hend
    cases rest with
    | nil => rfl
    | cons d rest =>
      obtain rfl : d = '\n' := hend d rfl
      exact startsComment_of_not_isOperatorChar (by decide)
  · rename_i hcomment
    simpa using hcomment

/-! ### Runs of characters -/

/-- The classes of characters that lexemes are runs of. -/
inductive Run where
  | operator
  | digits
  | word
  /-- A character that is a token on its own. -/
  | single
deriving DecidableEq, Repr

namespace Run

/-- The run that a character starts, if a token starts with it. -/
def of (c : Char) : Run :=
  if Token.isOperatorChar c then .operator
  else if Token.isBracketChar c then .single
  else if c.isDigit then .digits
  else .word

/-- The characters that continue a run. -/
def continues : Run → Char → Bool
  | operator => Token.isOperatorChar
  | digits => Char.isDigit
  | word => Token.continuesWord
  | single => fun _ => false

end Run

namespace Token

/-- The run that the spelling of a token is.  Newlines, block tokens and the end of the text are no
runs; nothing continues them. -/
def run : Token → Run
  | arrow | equals | pipe | operator _ => .operator
  | integer _ => .digits
  | boolean _ | identifier _ | keyword _ | underscore => .word
  | _ => .single

/-- **A lexeme is the longest run of its class.** -/
theorem lexeme_cons {c : Char} {cs : List Char} (h : lexeme (c :: cs) ≠ []) :
    lexeme (c :: cs) = c :: cs.takeWhile (Run.of c).continues := by
  have hsingle : cs.takeWhile Run.single.continues = [] := by
    cases cs <;> simp [Run.continues]
  rw [lexeme] at h ⊢
  unfold Run.of
  repeat' split
  all_goals simp_all [Run.continues]

/-- The fixed spellings stay within the run that they start. -/
theorem run_of_lookup {c : Char} {cs : List Char} {t : Token}
    (h : (symbols ++ words).lookup (String.ofList (c :: cs)) = some t) : t.run = Run.of c := by
  have key : ∀ entry ∈ symbols ++ words,
      entry.1.toList.head?.map Run.of = some entry.2.run := by decide
  have hentry := key _ (mem_of_lookup_eq_some h)
  simpa using hentry.symm

/-- A bracket is a fixed spelling. -/
theorem lookup_of_isBracketChar {c : Char} (h : isBracketChar c = true) :
    (symbols ++ words).lookup (String.ofList [c]) ≠ none := by
  have key : ∀ d ∈ ['(', ')', ',', '[', ']', '\\'],
      (symbols ++ words).lookup (String.ofList [d]) ≠ none := forall_mem_of_all (by decide)
  exact key c (by simpa [isBracketChar] using h)

/-- **A token tells the run of its lexeme.** -/
theorem run_of_ofLexeme {c : Char} {cs : List Char} {t : Token} (hne : lexeme (c :: cs) ≠ [])
    (h : ofLexeme (lexeme (c :: cs)) = some t) : t.run = Run.of c := by
  have hcons := lexeme_cons hne
  cases hlookup : (symbols ++ words).lookup (String.ofList (lexeme (c :: cs))) with
  | some u =>
    obtain rfl : u = t := by simpa [ofLexeme, hlookup] using h
    rw [hcons] at hlookup
    exact run_of_lookup hlookup
  | none =>
    -- brackets are in the table, so that the class of the first character is one of the other three
    have hbracket : ¬isBracketChar c = true := by
      intro hc
      have hrun : Run.of c = .single := by
        rw [Run.of, if_neg (by simp [isOperatorChar_of_isBracketChar hc]), if_pos hc]
      have hsingle : lexeme (c :: cs) = [c] := by
        rw [hcons, hrun]
        cases cs <;> simp [Run.continues]
      exact lookup_of_isBracketChar hc (hsingle ▸ hlookup)
    rw [hcons] at h hlookup
    simp only [ofLexeme, hlookup] at h
    unfold Run.of
    by_cases hop : isOperatorChar c = true
    · rw [if_pos hop] at h ⊢
      rw [← Option.some.inj h]
      rfl
    · rw [if_neg hop] at h ⊢
      rw [if_neg hbracket]
      by_cases hdigit : c.isDigit = true
      · rw [if_pos hdigit] at h ⊢
        obtain ⟨-, h⟩ := Option.ite_none_right_eq_some.1 h
        rw [← Option.some.inj h]
        rfl
      · rw [if_neg hdigit] at h ⊢
        rw [← Option.some.inj h]
        rfl

/-- **Lexemes are as long as can be**: what is behind one does not continue its run. -/
theorem continues_of_lexeme {cs rest : List Char} {t : Token} (hne : lexeme cs ≠ [])
    (h : ofLexeme (lexeme cs) = some t) (hrest : cs = lexeme cs ++ rest) :
    ∀ d ∈ rest.head?, t.run.continues d = false := by
  cases cs with
  | nil => exact absurd rfl hne
  | cons c cs =>
    rw [run_of_ofLexeme hne h]
    rw [lexeme_cons hne, List.cons_append, List.cons.injEq] at hrest
    have hsplit := List.takeWhile_append_dropWhile (p := (Run.of c).continues) (l := cs)
    have hdrop := List.append_cancel_left (hsplit.trans hrest.2)
    have hstop := List.head?_dropWhile_not (Run.of c).continues cs
    rw [hdrop] at hstop
    intro d hd
    simpa [Option.mem_def.1 hd] using hstop

/-- Whether a token starts with a character does not depend on what follows. -/
theorem lexeme_cons_eq_nil {c : Char} {cs : List Char} (h : lexeme (c :: cs) = [])
    (ds : List Char) : lexeme (c :: ds) = [] := by
  rw [lexeme] at h ⊢
  repeat' split at h
  all_goals simp_all

/-- **A lexeme alone is the same lexeme.** -/
theorem lexeme_lexeme (cs : List Char) : lexeme (lexeme cs) = lexeme cs := by
  by_cases hne : lexeme cs = []
  · rw [hne]
    rfl
  cases cs with
  | nil => rfl
  | cons c cs =>
    have hcons := lexeme_cons hne
    have hne' : lexeme (c :: cs.takeWhile (Run.of c).continues) ≠ [] := fun h =>
      hne (lexeme_cons_eq_nil h cs)
    rw [hcons, lexeme_cons hne', List.takeWhile_takeWhile]
    simp

/-- No token starts with a blank. -/
theorem isBlank_of_lexeme {c : Char} {cs : List Char} (h : lexeme (c :: cs) ≠ []) :
    Text.isBlank c = false := by
  rw [lexeme] at h
  split at h
  · rename_i hop
    exact (class_of_mark (.inl hop)).2.2.2
  · split at h
    · rename_i hbracket
      exact (class_of_mark (.inr hbracket)).2.2.2
    · split at h
      · rename_i hdigit
        exact (class_of_isDigit hdigit).2.2
      · split at h
        · rename_i hword
          exact (class_of_startsWord hword).2.2.2
        · exact absurd rfl h

/-- The lexeme of a token is no comment. -/
theorem startsComment_lexeme {cs : List Char} (h : Cursor.startsComment cs = false) :
    Cursor.startsComment (lexeme cs) = false := by
  cases cs with
  | nil => exact h
  | cons c cs =>
    by_cases hop : isOperatorChar c = true
    · have hrun : (lexeme (c :: cs)).takeWhile isOperatorChar =
          (c :: cs).takeWhile isOperatorChar := by
        rw [Buffer.lexeme_of_isOperatorChar hop, List.takeWhile_takeWhile]
        simp
      rw [Cursor.startsComment, hrun]
      exact h
    · by_cases hne : lexeme (c :: cs) = []
      · rw [hne]
        rfl
      · rw [lexeme_cons hne]
        exact startsComment_of_not_isOperatorChar (by simpa using hop)

/-- **A lexeme alone is read as the same token.** -/
theorem tokenize_lexeme {cs : List Char} {t : Token} (hcomment : Cursor.startsComment cs = false)
    (hne : lexeme cs ≠ []) (h : ofLexeme (lexeme cs) = some t) :
    ∃ span stop, tokenize (String.ofList (lexeme cs)) = .ok [⟨t, span⟩, ⟨.eof, stop⟩] := by
  -- the spelling stands for the same token at the end of a text as in front of other characters
  have hspelled : Spelled (lexeme cs) t [] := by
    have hcomment' := startsComment_lexeme hcomment
    have hlexeme := lexeme_lexeme cs
    generalize lexeme cs = spelling at *
    obtain ⟨d, ds, rfl⟩ := List.exists_cons_of_ne_nil hne
    have hblank := isBlank_of_lexeme (hlexeme ▸ hne)
    rw [← List.append_nil (d :: ds)] at hcomment' ⊢
    exact spelled_of_lexeme hblank hcomment' (by rwa [List.append_nil]) h
  obtain ⟨span, q, hnext⟩ := hspelled .start
  obtain ⟨stop, q', hend⟩ := spelled_end q
  have hvalue : t ≠ .eof := by
    rintro rfl
    exact not_mem_of_ofLexeme h (by simp)
  refine ⟨span, stop, ?_⟩
  rw [tokenize, Cursor.ofString, String.toList_ofList, tokens_of_next hnext hvalue,
    tokens_of_next_eof hend rfl]
  rfl

end Token

/-! ### One token -/

namespace Cursor

/-- **What is read behind a gap**: the end of the text, a newline, or what the lexeme there stands
for. -/
inductive HasToken (c : Cursor) : Located Token → Cursor → Prop where
  | eof (h : c.rest = []) : HasToken c ⟨.eof, .point c.position⟩ c
  | newline {cs : List Char} (h : c.rest = '\n' :: cs) :
    HasToken c ⟨.newline, .point c.position⟩ ⟨cs, c.position.after '\n'⟩
  | lexeme {t : Token} (hne : Token.lexeme c.rest ≠ [])
    (h : Token.ofLexeme (Token.lexeme c.rest) = some t) :
    HasToken c ⟨t, .between c.position (c.position.advance (Token.lexeme c.rest))⟩
      (c.skip (Token.lexeme c.rest).length)

theorem hasToken_of_token {c c' : Cursor} {t : Located Token} (h : c.token = (.ok t, c')) :
    c.HasToken t c' := by
  have hposition := c.passes_lexeme.position
  rw [token] at h
  split at h
  · rename_i hrest
    obtain ⟨rfl, rfl⟩ : _ ∧ _ := by simpa using h
    exact .eof hrest
  · -- what is left starts with a line break or with a lexeme
    rename_i d ds hrest
    split at h
    · rename_i hd
      obtain ⟨rfl, rfl⟩ : _ ∧ _ := by simpa using h
      have hskip : c.skip 1 = ⟨ds, c.position.after '\n'⟩ := by
        rw [skip, hrest, hd]
        rfl
      rw [hskip]
      exact .newline (hd ▸ hrest)
    · dsimp only at h
      split at h
      · simp at h
      · rename_i hne
        split at h
        · rename_i u hu
          obtain ⟨rfl, rfl⟩ : _ ∧ _ := by simpa using h
          rw [hposition]
          exact .lexeme (by simpa using hne) hu
        · simp at h

/-- **What goes wrong behind a gap**: no lexeme is there, or one that stands for no token. -/
inductive HasError (c : Cursor) : LexError → Cursor → Prop where
  | noLexeme (d : Char) : HasError c (.invalidToken d (.point c.position)) c
  | lexeme (hne : Token.lexeme c.rest ≠ []) (digits : String) :
    HasError c (.invalidInteger digits
        (.between c.position (c.position.advance (Token.lexeme c.rest))))
      (c.skip (Token.lexeme c.rest).length)

theorem hasError_of_token {c c' : Cursor} {e : LexError} (h : c.token = (.error e, c')) :
    c.HasError e c' := by
  have hposition := c.passes_lexeme.position
  rw [token] at h
  split at h
  · simp at h
  · split at h
    · simp at h
    · dsimp only at h
      split at h
      · obtain ⟨rfl, rfl⟩ : _ ∧ _ := by simpa using h
        exact .noLexeme _
      · rename_i hne
        split at h
        · simp at h
        · obtain ⟨rfl, rfl⟩ : _ ∧ _ := by simpa using h
          rw [hposition]
          exact .lexeme (by simpa using hne) _

/-- **Indices rise**: a token starts where the cursor stands or behind, and any but the end of the
text takes the cursor further. -/
theorem index_of_next {c c' : Cursor} {t : Located Token} (h : c.next = (.ok t, c')) :
    c.position.index ≤ t.span.start.index ∧
      (t.value ≠ .eof → t.span.start.index < c'.position.index) := by
  obtain ⟨gap, hgap, -⟩ := c.passes_skipGap
  -- the gap in front of the token only moves the cursor forward
  have hle : c.position.index ≤ c.skipGap.position.index := by
    rw [hgap.position, Position.index_advance]
    omega
  have htoken := hasToken_of_token h
  generalize c.skipGap = d at htoken hle
  cases htoken with
  | eof hrest => exact ⟨hle, fun hvalue => absurd rfl hvalue⟩
  | newline hrest =>
    -- a line break takes one byte at least, and so does a lexeme
    refine ⟨hle, fun _ => ?_⟩
    show d.position.index < (d.position.after '\n').index
    rw [Position.index_after]
    have hpos := Char.utf8Size_pos '\n'
    omega
  | lexeme hne htoken =>
    refine ⟨hle, fun _ => ?_⟩
    show d.position.index < (d.skip (Token.lexeme d.rest).length).position.index
    rw [d.passes_lexeme.position, Position.index_advance]
    have hlength := length_le_byteLength (Token.lexeme d.rest)
    have hpos := List.length_pos_iff.2 hne
    omega

/-! ### All tokens -/

/-- What all tokens from a cursor on are: the end of the text, or one token and those behind it. -/
theorem cases_of_tokens {c : Cursor} {ts : List (Located Token)} (h : c.tokens = .ok ts) :
    ∃ t c', c.next = (.ok t, c') ∧
      (t.value = .eof ∧ ts = [t] ∨
        t.value ≠ .eof ∧ ∃ us, c'.tokens = .ok us ∧ ts = t :: us) := by
  rcases hnext : c.next with ⟨r, c'⟩
  cases r with
  | error e =>
    rw [tokens] at h
    split at h <;> simp_all
  | ok t =>
    refine ⟨t, c', rfl, ?_⟩
    -- the end of the text is the last token, and behind any other one the tokens go on
    by_cases hvalue : t.value = .eof
    · rw [tokens_of_next_eof hnext hvalue] at h
      exact .inl ⟨hvalue, (Except.ok.inj h).symm⟩
    · rw [tokens_of_next hnext hvalue] at h
      cases htokens : c'.tokens with
      | error e => simp [htokens, Except.map] at h
      | ok us =>
        rw [htokens] at h
        exact .inr ⟨hvalue, us, rfl, (Except.ok.inj h).symm⟩

/-- **The start indices of the tokens rise strictly.** -/
theorem index_of_tokens {c : Cursor} {ts : List (Located Token)} (h : c.tokens = .ok ts) :
    ts.Pairwise (fun t u => t.span.start.index < u.span.start.index) ∧
      ∀ t ∈ ts, c.position.index ≤ t.span.start.index := by
  induction ts generalizing c with
  | nil =>
    obtain ⟨t, c', -, ⟨-, hts⟩ | ⟨-, us, -, hts⟩⟩ := cases_of_tokens h <;> simp at hts
  | cons t ts ih =>
    obtain ⟨u, c', hnext, hcases⟩ := cases_of_tokens h
    obtain ⟨hle, hlt⟩ := index_of_next hnext
    rcases hcases with ⟨-, hts⟩ | ⟨hvalue, us, htokens, hts⟩
    · obtain ⟨rfl, rfl⟩ := List.cons.inj hts
      simpa using hle
    · obtain ⟨rfl, rfl⟩ := List.cons.inj hts
      obtain ⟨hpairwise, hbehind⟩ := ih htokens
      have hrise : ∀ v ∈ ts, t.span.start.index < v.span.start.index := fun v hv =>
        Nat.lt_of_lt_of_le (hlt hvalue) (hbehind v hv)
      refine ⟨List.pairwise_cons.2 ⟨hrise, hpairwise⟩, List.forall_mem_cons.2 ⟨hle, fun v hv => ?_⟩⟩
      exact Nat.le_of_lt (Nat.lt_of_le_of_lt hle (hrise v hv))

end Cursor

/-! ### Pieces -/

/-- The stretch of a text that a span covers, by its two indices. -/
def Span.slice? (span : Span) (text : List Char) : Option (List Char) := do
  let (_, rest) ← Buffer.split? text span.start.index
  let (cs, _) ← Buffer.split? rest (span.stop.index - span.start.index)
  return cs

/-- A stretch of a text that holds one token: a gap, and behind it the lexeme of the token. -/
structure Piece where
  gap : List Char
  lexeme : List Char
  token : Located Token
deriving DecidableEq, Repr

namespace Piece

/-- The characters of a piece. -/
def chars (p : Piece) : List Char :=
  p.gap ++ p.lexeme

/-- **A piece fits** between the characters before it and those behind it. -/
structure Fits (before : List Char) (p : Piece) (behind : List Char) : Prop where
  gap : Text.IsGap p.gap (p.lexeme ++ behind)
  ne_nil : p.lexeme ≠ []
  ne_eof : p.token.value ≠ .eof
  /-- The token starts behind the gap. -/
  start : p.token.span.start = Position.start.advance (before ++ p.gap)
  newline : p.token.value = .newline → p.lexeme = ['\n']
  /-- The token's span covers the lexeme. -/
  slice : p.token.value ≠ .newline →
    p.token.span.slice? (before ++ p.chars ++ behind) = some p.lexeme
  /-- The lexeme alone is read as the same token. -/
  alone : p.token.value ≠ .newline → ∃ span stop,
    tokenize (String.ofList p.lexeme) = .ok [⟨p.token.value, span⟩, ⟨.eof, stop⟩]
  /-- What is behind the lexeme does not continue it. -/
  longest : ∀ c ∈ behind.head?, p.token.value.run.continues c = false

theorem slice?_between {before : List Char} {p : Position} (cs behind : List Char)
    (hp : p.index = byteLength before) :
    (Span.between p (p.advance cs)).slice? (before ++ cs ++ behind) = some cs := by
  have hstop : (p.advance cs).index - p.index = byteLength cs := by
    rw [Position.index_advance]
    omega
  simp only [Span.slice?, Span.between, hp ▸ hstop, hp, List.append_assoc, Buffer.split?_append,
    Option.bind_eq_bind, Option.bind_some]
  rfl

end Piece

/-- **A text cut into pieces.**  The characters `cs`, which stand behind the characters `before`,
are read as the tokens `ts`: those of the pieces, and the end of the text behind a last gap. -/
structure Lexing (before cs : List Char) (ts : List (Located Token)) (pieces : List Piece)
    (tail : List Char) : Prop where
  chars : cs = pieces.flatMap Piece.chars ++ tail
  tokens : ts =
    pieces.map Piece.token ++ [⟨.eof, .point (Position.start.advance (before ++ cs))⟩]
  fits : ∀ l p r, pieces = l ++ p :: r →
    p.Fits (before ++ l.flatMap Piece.chars) (r.flatMap Piece.chars ++ tail)
  tail : Text.IsGap tail []

/-- A piece in front of a text that is cut into pieces. -/
theorem Lexing.cons {before cs : List Char} {ts : List (Located Token)} {pieces : List Piece}
    {tail : List Char} {p : Piece} (h : Lexing (before ++ p.chars) cs ts pieces tail)
    (hp : p.Fits before cs) : Lexing before (p.chars ++ cs) (p.token :: ts) (p :: pieces) tail := by
  obtain ⟨hchars, htokens, hfits, htail⟩ := h
  refine ⟨?_, ?_, ?_, htail⟩
  · rw [List.flatMap_cons, List.append_assoc, ← hchars]
  · rw [htokens, List.map_cons, List.cons_append, List.append_assoc]
  · rintro (_ | ⟨q, l⟩) p' r hsplit
    · obtain ⟨rfl, rfl⟩ := List.cons.inj hsplit
      rw [← hchars]
      simpa using hp
    · obtain ⟨rfl, hrest⟩ := List.cons.inj hsplit
      have hbehind := hfits l p' r hrest
      rwa [List.append_assoc, ← List.flatMap_cons] at hbehind

/-- **One step**: the piece that a token other than the end of the text is read off. -/
theorem Cursor.exists_piece {c c' : Cursor} {before : List Char} {t : Located Token}
    (hc : c.position = Position.start.advance before) (h : c.next = (.ok t, c'))
    (ht : t.value ≠ .eof) :
    ∃ p : Piece, p.token = t ∧ c.Passes p.chars c' ∧ p.Fits before c'.rest := by
  obtain ⟨gap, hgap, hisGap⟩ := c.isGap_of_skipGap
  have hstart : c.skipGap.position = Position.start.advance (before ++ gap) := by
    rw [hgap.position, hc, Position.advance_append]
  have htoken := hasToken_of_token h
  have hcomment := c.startsComment_skipGap
  generalize c.skipGap = d at hgap hisGap hstart htoken hcomment
  -- the end is excluded, a line break is a piece by itself, and other pieces are lexemes
  cases htoken with
  | eof hrest => exact absurd rfl ht
  | @newline cs hrest =>
    refine ⟨⟨gap, ['\n'], _⟩, rfl, hgap.trans ⟨hrest, rfl⟩, ?_⟩
    exact {
      gap := by
        show Text.IsGap gap ('\n' :: cs)
        exact hrest ▸ hisGap
      ne_nil := by simp
      ne_eof := ht
      start := hstart
      newline := fun _ => rfl
      slice := fun hvalue => absurd rfl hvalue
      alone := fun hvalue => absurd rfl hvalue
      longest := fun _ _ => rfl }
  | @lexeme u hne htoken =>
    have hpasses := d.passes_lexeme
    have hvalue : u ≠ .newline := by
      rintro rfl
      exact not_mem_of_ofLexeme htoken (by simp)
    refine ⟨⟨gap, Token.lexeme d.rest, _⟩, rfl, hgap.trans hpasses, ?_⟩
    have hindex : d.position.index = byteLength (before ++ gap) := by
      rw [hstart, Position.index_advance]
      exact Nat.zero_add _
    have hslice := Piece.slice?_between (Token.lexeme d.rest)
      (d.skip (Token.lexeme d.rest).length).rest hindex
    exact {
      gap := hpasses.rest ▸ hisGap
      ne_nil := hne
      ne_eof := ht
      start := hstart
      newline := fun hnewline => absurd hnewline hvalue
      slice := fun _ => by simpa [Piece.chars] using hslice
      alone := fun _ => Token.tokenize_lexeme hcomment hne htoken
      longest := Token.continues_of_lexeme hne htoken hpasses.rest }

/-- **From every cursor on** the text is cut into pieces, by induction on the tokens. -/
theorem Cursor.exists_lexing {c : Cursor} {before : List Char} {ts : List (Located Token)}
    (hc : c.position = Position.start.advance before) (h : c.tokens = .ok ts) :
    ∃ pieces tail, Lexing before c.rest ts pieces tail := by
  induction ts generalizing c before with
  | nil =>
    obtain ⟨t, c', -, ⟨-, hts⟩ | ⟨-, us, -, hts⟩⟩ := cases_of_tokens h <;> simp at hts
  | cons t ts ih =>
    obtain ⟨u, c', hnext, ⟨hvalue, hts⟩ | ⟨hvalue, us, htokens, hts⟩⟩ := cases_of_tokens h
    · -- the end of the text: what is left is a gap, which becomes the tail
      obtain ⟨rfl, rfl⟩ := List.cons.inj hts
      obtain ⟨gap, hgap, hisGap⟩ := c.isGap_of_skipGap
      have htoken := hasToken_of_token hnext
      generalize c.skipGap = d at hgap hisGap htoken
      cases htoken with
      | newline hrest => simp at hvalue
      | @lexeme u hne htoken =>
        obtain rfl : u = .eof := hvalue
        exact absurd (by simp) (not_mem_of_ofLexeme htoken)
      | eof hrest =>
        have hchars := hgap.rest
        rw [hrest, List.append_nil] at hchars
        refine ⟨[], gap, ?_, ?_, ?_, hrest ▸ hisGap⟩
        · simpa using hchars
        · rw [hgap.position, hc, hchars, Position.advance_append]
          rfl
        · simp
    · -- the first piece is read off, and the induction goes on where it stops
      obtain ⟨rfl, rfl⟩ := List.cons.inj hts
      obtain ⟨p, rfl, hpasses, hp⟩ := exists_piece hc hnext hvalue
      have hposition : c'.position = Position.start.advance (before ++ p.chars) := by
        rw [hpasses.position, hc, Position.advance_append]
      obtain ⟨pieces, tail, hlexing⟩ := ih hposition htokens
      rw [hpasses.rest]
      exact ⟨p :: pieces, tail, hlexing.cons hp⟩

/-- Every piece takes a byte at least. -/
theorem Lexing.length_le {before cs tail : List Char} {ts : List (Located Token)}
    {pieces : List Piece} (h : Lexing before cs ts pieces tail) :
    pieces.length ≤ byteLength cs := by
  have key (pieces : List Piece) (hpieces : ∀ p ∈ pieces, p.lexeme ≠ []) :
      pieces.length ≤ byteLength (pieces.flatMap Piece.chars) := by
    induction pieces with
    | nil => exact Nat.le_refl 0
    | cons p pieces ih =>
      -- a lexeme has a character, and that takes a byte
      have hrest := ih fun q hq => hpieces q (List.mem_cons_of_mem p hq)
      have hlength := length_le_byteLength p.lexeme
      have hpos := List.length_pos_iff.2 (hpieces p List.mem_cons_self)
      simp only [List.flatMap_cons, Piece.chars, byteLength_append, List.length_cons]
      omega
  have hpieces : ∀ p ∈ pieces, p.lexeme ≠ [] := by
    intro p hp
    obtain ⟨l, r, hsplit⟩ := List.append_of_mem hp
    exact (h.fits l p r hsplit).ne_nil
  have hle := key pieces hpieces
  rw [h.chars, byteLength_append]
  omega

/-- **Reading loses nothing and stops nowhere early.**  A text that is read without an error is cut
into pieces, one for each token before the end: gaps and lexemes make up the text, each lexeme is
what its token's span covers, is read alone as the same token, and is followed by nothing that could
continue it.  The starts of the tokens rise strictly up to the end of the text, in front of which
there are no more tokens than bytes. -/
theorem tokenize_lossless {s : String} {ts : List (Located Token)} (h : tokenize s = .ok ts) :
    (∃ pieces tail, Lexing [] s.toList ts pieces tail ∧ pieces.length ≤ s.utf8ByteSize) ∧
      ts.getLast?.map (·.span.start.index) = some s.utf8ByteSize ∧
      ts.Pairwise (fun t u => t.span.start.index < u.span.start.index) := by
  have hstart : (Cursor.ofString s).position = Position.start.advance [] := rfl
  obtain ⟨pieces, tail, hlexing⟩ := Cursor.exists_lexing hstart h
  refine ⟨⟨pieces, tail, hlexing, ?_⟩, ?_, (Cursor.index_of_tokens h).1⟩
  · rw [← byteLength_toList]
    exact hlexing.length_le
  · rw [hlexing.tokens, List.getLast?_concat, Option.map_some, ← byteLength_toList]
    congr 1
    show (Position.start.advance s.toList).index = _
    rw [Position.index_advance]
    exact Nat.zero_add _

/-- Operators of dashes beside a comment, and a letter of two bytes. -/
theorem tokenize_lossless_dashes :
    let s := "x' --|--- - -- y\n 12->é"
    ∃ ts, tokenize s = .ok ts ∧
      ts.map (·.value) = [.identifier "x'", .operator "--|---", .operator "-", .newline,
        .integer 12, .arrow, .identifier "é", .eof] ∧
      (∃ pieces tail, Lexing [] s.toList ts pieces tail ∧ pieces.length ≤ s.utf8ByteSize) ∧
      ts.getLast?.map (·.span.start.index) = some s.utf8ByteSize ∧
      ts.Pairwise (fun t u => t.span.start.index < u.span.start.index) := by
  intro s
  have hvalues : (tokenize s).map (·.map (·.value)) =
      .ok [.identifier "x'", .operator "--|---", .operator "-", .newline, .integer 12, .arrow,
        .identifier "é", .eof] := by
    decide +kernel
  cases hts : tokenize s with
  | error e => simp [hts, Except.map] at hvalues
  | ok ts =>
    rw [hts] at hvalues
    exact ⟨ts, rfl, Except.ok.inj hvalues, tokenize_lossless hts⟩

end CallByNeed

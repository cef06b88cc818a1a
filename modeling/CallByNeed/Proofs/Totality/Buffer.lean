import CallByNeed.Proofs.Places

/-!
# Reading a text byte by byte

A cursor carries the characters that are still to be read.  A lexer that keeps the whole text and an
index into its bytes has to cut the text at that index each time, and a cut can go wrong: the index
may be behind the end, or inside a character.  This module reads tokens in that way.  Every cut is
checked (`Buffer.split?`), and so is the subtraction that turns the column behind a token into that
of its last character (`Buffer.advanceWithSpan`); what goes wrong yields `none`.

One turn of the lexer's loop skips blanks and then leaves the loop with a token or an error, or it
skips a comment and goes on (`Buffer.turn`).  At every cursor of a text two turns are enough,
nothing goes wrong, and what is read is what the cursor reads (`Buffer.next_eq`).  A turn that goes
on moves the index on (`Buffer.index_of_again`).
-/

namespace CallByNeed

/-! ### Cuts -/

/-- The number of bytes of some characters. -/
def byteLength : List Char → Nat
  | [] => 0
  | c :: cs => c.utf8Size + byteLength cs

@[simp]
theorem byteLength_append (cs ds : List Char) :
    byteLength (cs ++ ds) = byteLength cs + byteLength ds := by
  induction cs with
  | nil => simp [byteLength]
  | cons c cs ih => simp [byteLength, ih, Nat.add_assoc]

theorem length_le_byteLength (cs : List Char) : cs.length ≤ byteLength cs := by
  induction cs with
  | nil => exact Nat.le_refl 0
  | cons c cs ih =>
    have hpos := c.utf8Size_pos
    rw [byteLength, List.length_cons]
    omega

namespace Position

theorem index_after (p : Position) (c : Char) : (p.after c).index = p.index + c.utf8Size := by
  unfold after
  split <;> rfl

/-- **An index counts the bytes before it.** -/
theorem index_advance (p : Position) (cs : List Char) :
    (p.advance cs).index = p.index + byteLength cs := by
  induction cs generalizing p with
  | nil => rfl
  | cons c cs ih => rw [advance_cons, ih, index_after, byteLength, Nat.add_assoc]

end Position

namespace Buffer

/-- The characters in the first `n` bytes and those behind them.  There are none if the text is
shorter, or if a character is cut in two. -/
def split? : List Char → Nat → Option (List Char × List Char)
  | cs, 0 => some ([], cs)
  | [], _ + 1 => none
  | c :: cs, n + 1 =>
    if c.utf8Size ≤ n + 1 then
      (split? cs (n + 1 - c.utf8Size)).map fun (before, behind) => (c :: before, behind)
    else none

/-- **A cut behind whole characters succeeds.** -/
theorem split?_append (cs ds : List Char) : split? (cs ++ ds) (byteLength cs) = some (cs, ds) := by
  induction cs with
  | nil => rw [List.nil_append, byteLength, split?]
  | cons c cs ih =>
    have hpos := c.utf8Size_pos
    obtain ⟨n, hn⟩ : ∃ n, byteLength (c :: cs) = n + 1 := by
      refine ⟨c.utf8Size - 1 + byteLength cs, ?_⟩
      rw [byteLength]
      omega
    have hrest : n + 1 - c.utf8Size = byteLength cs := by
      rw [← hn, byteLength]
      omega
    have hle : c.utf8Size ≤ n + 1 := by
      rw [← hn, byteLength]
      omega
    rw [List.cons_append, hn, split?, if_pos hle, hrest, ih]
    rfl

example : split? ['a', 'é', 'z'] 3 = some (['a', 'é'], ['z']) := by decide

example : split? ['a', 'é', 'z'] 2 = none := by decide

/-- How many bytes are in front of the first character that satisfies `p`. -/
def find? (p : Char → Bool) : List Char → Option Nat
  | [] => none
  | c :: cs => if p c then some 0 else (find? p cs).map (c.utf8Size + ·)

/-- The first character outside of a class stands behind the longest run inside of it. -/
theorem find?_eq (p : Char → Bool) (cs : List Char) :
    find? (fun c => !p c) cs =
      if cs.all p then none else some (byteLength (cs.takeWhile p)) := by
  induction cs with
  | nil => rfl
  | cons c cs ih =>
    rw [find?, ih]
    by_cases hc : p c
    · by_cases hcs : cs.all p <;> simp [hc, hcs, byteLength]
    · simp [hc, byteLength]

/-! ### One turn of the loop -/

section Turn

variable (text : List Char)

/-- The text from a position on. -/
def remaining (p : Position) : Option (List Char) :=
  (split? text p.index).map Prod.snd

/-- The longest run of characters from a position on that satisfy `q`. -/
def sliceWhile (p : Position) (q : Char → Bool) : Option (List Char) := do
  let rest ← remaining text p
  match find? (fun c => !q c) rest with
  | some n => (split? rest n).map Prod.fst
  | none => some rest

/-- Moves on, character by character, up to the byte `stop` or to the end of the text. -/
def advanceTo (stop : Nat) (p : Position) : Option Position :=
  if h : p.index < stop then
    match remaining text p with
    | none => none
    | some [] => some p
    | some (c :: _) =>
      have : stop - (p.after c).index < stop - p.index := by
        have hpos := c.utf8Size_pos
        rw [p.index_after]
        omega
      advanceTo stop (p.after c)
  else some p
termination_by stop - p.index

/-- Moves on by `n` bytes. -/
def advance (p : Position) (n : Nat) : Option Position :=
  advanceTo text (p.index + n) p

/-- Moves on by `n` bytes, and tells which stretch that was. -/
def advanceWithSpan (p : Position) (n : Nat) : Option (Span × Position) := do
  let q ← advance text p n
  if q.column = 0 then none else some (.between p q, q)

/-- What a turn of the loop comes to. -/
inductive Turn where
  /-- A comment was skipped, and the loop goes on. -/
  | again (p : Position)
  /-- The loop is left. -/
  | leave (result : Except LexError (Located Token)) (p : Position)

/-- The integer that digits denote. -/
def parseInteger (digits : List Char) : Option Token :=
  if Token.digitsValue digits ≤ Token.maxInteger then some (.integer (Token.digitsValue digits))
  else none

/-- The words with a fixed meaning, the underscore apart. -/
def keywords : List (String × Token) :=
  Token.words.filter (·.1 ≠ "_")

/-- The token that a word stands for. -/
def wordToken (name : String) : Token :=
  if name = "_" then .underscore else (keywords.lookup name).getD (.identifier name)

/-- Moves behind a spelling and leaves the loop with its token; without one, the spelling is that of
a number out of range. -/
def leaveWith (p : Position) (spelling : List Char) (token : Option Token) : Option Turn := do
  let (span, q) ← advanceWithSpan text p (byteLength spelling)
  match token with
  | some t => return .leave (.ok ⟨t, span⟩) q
  | none => return .leave (.error (.invalidInteger (String.ofList spelling) span)) q

/-- The fixed spelling with which the characters start. -/
def symbol? (cs : List Char) : Option (String × Token) :=
  Token.symbols.find? fun entry => entry.1.toList.isPrefixOf cs

/-- Reads a fixed spelling, a number or a word, which starts with `c`. -/
def mark (p : Position) (c : Char) : Option Turn := do
  match symbol? (← remaining text p) with
  | some (symbol, t) => leaveWith text p symbol.toList (some t)
  | none =>
    if c.isDigit then
      let digits ← sliceWhile text p Char.isDigit
      leaveWith text p digits (parseInteger digits)
    else if Token.startsWord c then
      let word ← sliceWhile text p Token.continuesWord
      leaveWith text p word (some (wordToken (String.ofList word)))
    else return .leave (.error (.invalidToken c (.point p))) p

/-- Reads what starts with the operator character `c`: a comment, an operator or a fixed
spelling. -/
def operator (p : Position) (c : Char) : Option Turn := do
  let run ← sliceWhile text p Token.isOperatorChar
  if 2 ≤ byteLength run && run.all (· == '-') then
    let line ← sliceWhile text p (· != '\n')
    return .again (← advance text p (byteLength line))
  else if Token.symbols.any (·.1 == String.ofList run) then mark text p c
  else leaveWith text p run (some (.operator (String.ofList run)))

/-- Reads what stands behind the blanks. -/
def read (p : Position) : Option Turn := do
  match ← remaining text p with
  | [] => return .leave (.ok ⟨.eof, .point p⟩) p
  | c :: _ =>
    if c = '\n' then return .leave (.ok ⟨.newline, .point p⟩) (← advance text p 1)
    else if Token.isOperatorChar c then operator text p c
    else mark text p c

/-- One turn of the loop. -/
def turn (p : Position) : Option Turn := do
  let blanks ← sliceWhile text p Cursor.isInlineBlank
  read text (← advance text p (byteLength blanks))

/-- Reads the next token in at most `turns` turns. -/
def next : Nat → Position → Option (Except LexError (Located Token) × Position)
  | 0, _ => none
  | turns + 1, p => do
    match ← turn text p with
    | .again q => next turns q
    | .leave result q => return (result, q)

end Turn

end Buffer

/-! ### The cursors of a text -/

namespace Cursor

/-- **A cursor of the text**: it stands where reading one token after the other from the beginning
leads to, errors included. -/
inductive Of (text : String) : Cursor → Prop where
  | start : Of text (ofString text)
  | next {c : Cursor} (h : Of text c) : Of text c.next.2

/-- The characters behind the cursor and its position tell the same. -/
def Fits (text : List Char) (c : Cursor) : Prop :=
  ∃ cs, Passes ⟨text, .start⟩ cs c

theorem Fits.passes {text cs : List Char} {c c' : Cursor} (h : c.Fits text)
    (hpasses : c.Passes cs c') : c'.Fits text := by
  obtain ⟨ds, hds⟩ := h
  exact ⟨ds ++ cs, hds.trans hpasses⟩

theorem Fits.index {text : List Char} {c : Cursor} (h : c.Fits text) :
    ∃ cs, text = cs ++ c.rest ∧ c.position.index = byteLength cs := by
  obtain ⟨cs, hpasses⟩ := h
  refine ⟨cs, hpasses.rest, ?_⟩
  rw [hpasses.position, Position.index_advance]
  exact Nat.zero_add _

theorem Of.fits {text : String} {c : Cursor} (h : c.Of text) : c.Fits text.toList := by
  induction h with
  | start => exact ⟨[], Passes.refl _⟩
  | @next c h ih =>
    obtain ⟨cs, hpasses⟩ := c.passes_next rfl
    exact ih.passes hpasses

end Cursor

namespace Buffer

open Cursor (Passes Fits)

section Fits

variable {text cs : List Char} {c c' : Cursor}

/-- **An index of a cursor is never inside a character**, nor behind the end. -/
theorem remaining_eq (h : c.Fits text) : remaining text c.position = some c.rest := by
  obtain ⟨cs, htext, hindex⟩ := h.index
  rw [remaining, hindex, htext, split?_append]
  rfl

theorem column_pos (h : c.Fits text) : 0 < c.position.column := by
  obtain ⟨cs, hpasses⟩ := h
  rw [hpasses.position]
  exact Position.column_advance_pos Nat.one_pos cs

theorem sliceWhile_eq (h : c.Fits text) (q : Char → Bool) :
    sliceWhile text c.position q = some (c.rest.takeWhile q) := by
  simp only [sliceWhile, remaining_eq h, Option.bind_eq_bind, Option.bind_some, find?_eq]
  by_cases hall : c.rest.all q
  · have hrun : c.rest.takeWhile q = c.rest := by
      have hend : ∀ d ∈ ([] : List Char).head?, q d = false := by simp
      simpa using takeWhile_append_of_head (List.all_eq_true.1 hall) hend
    simp only [hall, if_true, hrun]
  · -- the cut is behind the run
    have hcut := split?_append (c.rest.takeWhile q) (c.rest.dropWhile q)
    rw [List.takeWhile_append_dropWhile] at hcut
    simp only [hall, hcut, Bool.false_eq_true, if_false, Option.map_some]

theorem advanceTo_eq (h : c.Fits text) (hpasses : c.Passes cs c') :
    advanceTo text (c.position.index + byteLength cs) c.position = some c'.position := by
  induction cs generalizing c with
  | nil =>
    rw [advanceTo, byteLength, dif_neg (by omega), hpasses.position]
    rfl
  | cons d cs ih =>
    obtain ⟨rest, p⟩ := c
    obtain ⟨hrest, hposition⟩ := hpasses
    -- the cursor behind `d`
    have hnext : Passes ⟨rest, p⟩ [d] ⟨cs ++ c'.rest, p.after d⟩ := ⟨hrest, rfl⟩
    have htail := ih (h.passes hnext) ⟨rfl, hposition⟩
    have hpos := d.utf8Size_pos
    have hrest' : remaining text p = some (d :: (cs ++ c'.rest)) :=
      (remaining_eq h).trans (congrArg some hrest)
    rw [advanceTo, dif_pos (by rw [byteLength]; omega), hrest']
    dsimp only
    rw [← htail, Position.index_after, byteLength, Nat.add_assoc]

theorem advance_eq (h : c.Fits text) (hpasses : c.Passes cs c') :
    advance text c.position (byteLength cs) = some c'.position :=
  advanceTo_eq h hpasses

/-- **The column behind a token is not zero**, so that one can be subtracted. -/
theorem advanceWithSpan_eq (h : c.Fits text) (hpasses : c.Passes cs c') :
    advanceWithSpan text c.position (byteLength cs) =
      some (.between c.position c'.position, c'.position) := by
  have hcolumn := column_pos (h.passes hpasses)
  simp only [advanceWithSpan, advance_eq h hpasses, Option.bind_eq_bind, Option.bind_some]
  rw [if_neg (by omega)]

/-! ### What a turn comes to -/

/-- The longest run of operator characters is the spelling of the token there. -/
theorem lexeme_of_isOperatorChar {d : Char} {ds : List Char} (hd : Token.isOperatorChar d = true) :
    Token.lexeme (d :: ds) = (d :: ds).takeWhile Token.isOperatorChar := by
  simp [Token.lexeme, hd]

/-- **A spelling is passed as the cursor passes it.** -/
theorem leaveWith_eq (h : c.Fits text) {d : Char} {ds : List Char} (hrest : c.rest = d :: ds)
    (hline : d ≠ '\n') (hne : Token.lexeme c.rest ≠ []) :
    leaveWith text c.position (Token.lexeme c.rest) (Token.ofLexeme (Token.lexeme c.rest)) =
      some (.leave c.token.1 c.token.2.position) := by
  have hspan := advanceWithSpan_eq h c.passes_lexeme
  have hempty : (Token.lexeme c.rest).isEmpty = false := by simpa using hne
  simp only [leaveWith, hspan, Option.bind_eq_bind, Option.bind_some]
  rw [Cursor.token]
  simp only [hrest, hline, if_false]
  simp only [← hrest, hempty, Bool.false_eq_true, if_false]
  cases Token.ofLexeme (Token.lexeme c.rest) <;> rfl

/-- No fixed spelling is the beginning of another one. -/
theorem symbol?_append {symbol : String} {t : Token} (h : (symbol, t) ∈ Token.symbols)
    (cs : List Char) : symbol? (symbol.toList ++ cs) = some (symbol, t) := by
  simp only [Token.symbols, List.mem_cons, Prod.mk.injEq, List.not_mem_nil, or_false] at h
  rcases h with ⟨rfl, rfl⟩ | ⟨rfl, rfl⟩ | ⟨rfl, rfl⟩ | ⟨rfl, rfl⟩ | ⟨rfl, rfl⟩ | ⟨rfl, rfl⟩ |
    ⟨rfl, rfl⟩ | ⟨rfl, rfl⟩ | ⟨rfl, rfl⟩ <;> rfl

/-- Fixed spellings start with an operator character or a bracket. -/
theorem symbol?_eq_none {d : Char} (hop : Token.isOperatorChar d = false)
    (hbracket : Token.isBracketChar d = false) (ds : List Char) : symbol? (d :: ds) = none := by
  have key : ∀ entry ∈ Token.symbols, ∃ e es, entry.1.toList = e :: es ∧
      (Token.isOperatorChar e = true ∨ Token.isBracketChar e = true) := by
    simp [Token.symbols, Token.isOperatorChar, Token.isBracketChar]
  rw [symbol?, List.find?_eq_none]
  intro entry hentry hbegins
  obtain ⟨e, es, htext, hclass⟩ := key entry hentry
  rw [htext, List.isPrefixOf_cons_cons, Bool.and_eq_true, beq_iff_eq] at hbegins
  rw [hbegins.1, hop, hbracket] at hclass
  simp at hclass

/-- **A fixed spelling is read.** -/
theorem mark_of_symbol (h : c.Fits text) {d : Char} {ds : List Char} (hrest : c.rest = d :: ds)
    (hline : d ≠ '\n') {symbol : String} {t : Token} (hsymbol : (symbol, t) ∈ Token.symbols)
    (hlexeme : Token.lexeme c.rest = symbol.toList) :
    mark text c.position d = some (.leave c.token.1 c.token.2.position) := by
  have htable : ∀ entry ∈ Token.symbols, entry.1.toList ≠ [] ∧
      Token.ofLexeme entry.1.toList = some entry.2 := by decide
  obtain ⟨hne, htoken⟩ := htable _ hsymbol
  have hfound : symbol? c.rest = some (symbol, t) := by
    rw [← Token.lexeme_append_drop c.rest, hlexeme]
    exact symbol?_append hsymbol _
  have hleave := leaveWith_eq h hrest hline (by rwa [hlexeme])
  rw [hlexeme, htoken] at hleave
  simp only [mark, remaining_eq h, Option.bind_eq_bind, Option.bind_some, hfound, hleave]

/-- A word stands for itself or for what the table of words says. -/
theorem ofLexeme_word {d : Char} {ds : List Char} (hd : Token.startsWord d = true) :
    Token.ofLexeme (d :: ds) = some (wordToken (String.ofList (d :: ds))) := by
  obtain ⟨hop, hbracket, hdigit, -⟩ := class_of_startsWord hd
  generalize hname : String.ofList (d :: ds) = name
  have hsymbols : Token.symbols.lookup name = none := by
    cases hlookup : Token.symbols.lookup name with
    | none => rfl
    | some t =>
      have hfound := symbol?_append (mem_of_lookup_eq_some hlookup) []
      rw [← hname, String.toList_ofList, List.append_nil, symbol?_eq_none hop hbracket] at hfound
      simp at hfound
  have hwords : Token.words.lookup name =
      (keywords.lookup name).or ([("_", Token.underscore)].lookup name) := by
    rw [← List.lookup_append]
    rfl
  -- the underscore is the last of the words, and no keyword
  have hlookup : (Token.symbols ++ Token.words).lookup name =
      if name = "_" then some .underscore else keywords.lookup name := by
    rw [List.lookup_append, hsymbols, Option.none_or, hwords]
    split
    · rename_i hunderscore
      rw [hunderscore]
      rfl
    · rename_i hunderscore
      have hbeq : (name == "_") = false := by simpa using hunderscore
      simp [List.lookup_cons, hbeq]
  simp only [Token.ofLexeme, hname, hlookup, wordToken]
  by_cases hunderscore : name = "_"
  · simp only [hunderscore, if_true]
  · simp only [hunderscore, if_false]
    cases keywords.lookup name with
    | some t => rfl
    | none => simp [hop, hdigit]

/-- **A number, a word or a character that starts no token is read.** -/
theorem mark_of_inner (h : c.Fits text) {d : Char} {ds : List Char} (hrest : c.rest = d :: ds)
    (hline : d ≠ '\n') (hop : Token.isOperatorChar d = false)
    (hbracket : Token.isBracketChar d = false) :
    mark text c.position d = some (.leave c.token.1 c.token.2.position) := by
  have hfound : symbol? c.rest = none := by
    rw [hrest]
    exact symbol?_eq_none hop hbracket ds
  simp only [mark, remaining_eq h, Option.bind_eq_bind, Option.bind_some, hfound, sliceWhile_eq h]
  split
  · -- digits: the whole run is the lexeme, as nothing else can go on behind it
    rename_i hdigit
    have hlexeme : Token.lexeme c.rest = c.rest.takeWhile Char.isDigit := by
      simp [hrest, Token.lexeme, hop, hbracket, hdigit]
    have hrun : c.rest.takeWhile Char.isDigit = d :: ds.takeWhile Char.isDigit := by
      simp [hrest, hdigit]
    have htoken : Token.ofLexeme (Token.lexeme c.rest) = parseInteger (Token.lexeme c.rest) := by
      rw [hlexeme, hrun]
      simp only [Token.ofLexeme, lookup_of_isDigit hdigit, hop, hdigit, Bool.false_eq_true,
        if_false, if_true, parseInteger]
    rw [← hlexeme, ← htoken]
    exact leaveWith_eq h hrest hline (by simp [hlexeme, hrun])
  · rename_i hdigit
    split
    · -- a word: its first character may also stand inside of words
      rename_i hword
      have hcontinues : Token.continuesWord d = true := by
        simp only [Token.startsWord, Bool.or_eq_true, decide_eq_true_eq] at hword
        rcases hword with hletter | rfl
        · simp [Token.continuesWord, Text.isAlphanumeric, hletter]
        · decide
      have hlexeme : Token.lexeme c.rest = c.rest.takeWhile Token.continuesWord := by
        simp [hrest, Token.lexeme, hop, hbracket, hdigit, hword, hcontinues]
      have hrun : c.rest.takeWhile Token.continuesWord = d :: ds.takeWhile Token.continuesWord := by
        simp [hrest, hcontinues]
      have htoken : Token.ofLexeme (Token.lexeme c.rest) =
          some (wordToken (String.ofList (Token.lexeme c.rest))) := by
        rw [hlexeme, hrun]
        exact ofLexeme_word hword
      rw [← hlexeme, ← htoken]
      exact leaveWith_eq h hrest hline (by simp [hlexeme, hrun])
    · -- no token starts with the character, and the lexeme is empty
      rename_i hword
      have hlexeme : Token.lexeme (d :: ds) = [] := by
        simp [Token.lexeme, hop, hbracket, hdigit, hword]
      rw [Cursor.token]
      simp [hrest, hline, hlexeme]

theorem mark_eq (h : c.Fits text) {d : Char} {ds : List Char} (hrest : c.rest = d :: ds)
    (hline : d ≠ '\n') (hop : Token.isOperatorChar d = false) :
    mark text c.position d = some (.leave c.token.1 c.token.2.position) := by
  cases hbracket : Token.isBracketChar d with
  | false => exact mark_of_inner h hrest hline hop hbracket
  | true =>
    -- a bracket is a fixed spelling of one character
    have hlexeme : Token.lexeme c.rest = [d] := by
      simp [hrest, Token.lexeme, hop, hbracket]
    have key : ∀ e ∈ ['(', ')', ',', '[', ']', '\\'],
        ∃ t, (String.ofList [e], t) ∈ Token.symbols := by
      simp [Token.symbols]
    obtain ⟨t, ht⟩ := key d (by simpa [Token.isBracketChar] using hbracket)
    exact mark_of_symbol h hrest hline ht (by rw [hlexeme, String.toList_ofList])

/-- Dashes take one byte each. -/
theorem byteLength_of_dashes {cs : List Char} (h : cs.all (· == '-') = true) :
    byteLength cs = cs.length := by
  induction cs with
  | nil => rfl
  | cons d ds ih =>
    simp only [List.all_cons, Bool.and_eq_true, beq_iff_eq] at h
    rw [byteLength, ih h.2, h.1, List.length_cons, Nat.add_comm]
    rfl

/-- A comment starts with two bytes or more, as it starts with two characters or more. -/
theorem startsComment_eq (cs : List Char) :
    Cursor.startsComment cs = (2 ≤ byteLength (cs.takeWhile Token.isOperatorChar) &&
      (cs.takeWhile Token.isOperatorChar).all (· == '-')) := by
  rw [Cursor.startsComment]
  cases hdashes : (cs.takeWhile Token.isOperatorChar).all (· == '-') with
  | true => rw [byteLength_of_dashes hdashes]
  | false => simp

/-- A run of operator characters without a fixed meaning is an operator. -/
theorem ofLexeme_operator {d : Char} {ds : List Char} (hd : Token.isOperatorChar d = true)
    (h : Token.symbols.any (·.1 == String.ofList (d :: ds)) = false) :
    Token.ofLexeme (d :: ds) = some (.operator (String.ofList (d :: ds))) := by
  have key : ∀ entry ∈ Token.words, entry.1.toList.head?.any Token.isOperatorChar = false := by
    decide
  have hlookup : (Token.symbols ++ Token.words).lookup (String.ofList (d :: ds)) = none := by
    cases hlookup : (Token.symbols ++ Token.words).lookup (String.ofList (d :: ds)) with
    | none => rfl
    | some t =>
      rcases List.mem_append.1 (mem_of_lookup_eq_some hlookup) with hmem | hmem
      · have hfound := List.any_eq_false.1 h _ hmem
        simp at hfound
      · have hhead := key _ hmem
        simp [hd] at hhead
  simp only [Token.ofLexeme, hlookup, hd, if_true]

/-- **An operator is read, or a comment is skipped.** -/
theorem operator_eq (h : c.Fits text) {d : Char} {ds : List Char} (hrest : c.rest = d :: ds)
    (hline : d ≠ '\n') (hop : Token.isOperatorChar d = true) :
    operator text c.position d = some (if Cursor.startsComment c.rest then
      .again (c.skipWhile (· != '\n')).position else .leave c.token.1 c.token.2.position) := by
  have hlexeme : Token.lexeme c.rest = c.rest.takeWhile Token.isOperatorChar := by
    rw [hrest, lexeme_of_isOperatorChar hop]
  have hne : Token.lexeme c.rest ≠ [] := by
    rw [hlexeme, hrest, List.takeWhile_cons_of_pos hop]
    exact List.cons_ne_nil _ _
  simp only [operator, sliceWhile_eq h, Option.bind_eq_bind, Option.bind_some, startsComment_eq]
  split
  · -- the rest of the line is skipped, and the lexer starts again behind it
    rw [advance_eq h (c.passes_skipWhile _)]
    rfl
  · rw [← hlexeme]
    split
    · -- some runs of operator characters are symbols by themselves, and the others are operators
      rename_i hsymbol
      obtain ⟨entry, hentry, hname⟩ := List.any_eq_true.1 hsymbol
      have htext : entry.1 = String.ofList (Token.lexeme c.rest) := by simpa using hname
      exact mark_of_symbol h hrest hline hentry (by rw [htext, String.toList_ofList])
    · rename_i hsymbol
      have htoken : Token.ofLexeme (Token.lexeme c.rest) =
          some (.operator (String.ofList (Token.lexeme c.rest))) := by
        rw [hlexeme, hrest, List.takeWhile_cons_of_pos hop] at hsymbol ⊢
        exact ofLexeme_operator hop (Bool.eq_false_iff.2 hsymbol)
      rw [← htoken]
      exact leaveWith_eq h hrest hline hne

/-- **Behind the blanks** a comment is skipped, or a token is read. -/
theorem read_eq (h : c.Fits text) :
    read text c.position = some (if Cursor.startsComment c.rest then
      .again (c.skipWhile (· != '\n')).position else .leave c.token.1 c.token.2.position) := by
  simp only [read, remaining_eq h, Option.bind_eq_bind, Option.bind_some]
  cases hrest : c.rest with
  -- the end of the text
  | nil => simp [Cursor.startsComment, Cursor.token, hrest]
  | cons d ds =>
    dsimp only
    split
    · rename_i hline
      subst hline
      have hskip : c.Passes ['\n'] (c.skip 1) := by
        have hskip := c.passes_skip 1
        rwa [hrest] at hskip
      have hadvance : advance text c.position 1 = some (c.skip 1).position :=
        advance_eq h hskip
      simp [hadvance, startsComment_of_not_isOperatorChar, Token.isOperatorChar, Cursor.token,
        hrest]
    · rename_i hline
      split
      · rename_i hop
        rw [operator_eq h hrest hline hop, hrest]
      · rename_i hop
        have hop : Token.isOperatorChar d = false := by simpa using hop
        rw [mark_eq h hrest hline hop, startsComment_of_not_isOperatorChar hop]
        rfl

theorem turn_eq (h : c.Fits text) :
    turn text c.position = read text (c.skipWhile Cursor.isInlineBlank).position := by
  have hblanks := c.passes_skipWhile Cursor.isInlineBlank
  simp only [turn, sliceWhile_eq h, advance_eq h hblanks, Option.bind_eq_bind, Option.bind_some]

/-- Where a line ends there are neither blanks nor a comment. -/
theorem turn_of_lineEnd (h : c.Fits text) (hend : ∀ d ∈ c.rest.head?, d = '\n') :
    turn text c.position = some (.leave c.token.1 c.token.2.position) := by
  have hrun (q : Char → Bool) (hq : q '\n' = false) : c.rest.takeWhile q = [] := by
    cases hrest : c.rest with
    | nil => rfl
    | cons d ds =>
      obtain rfl : d = '\n' := hend d (by simp [hrest])
      exact List.takeWhile_cons_of_neg (by simp [hq])
  have hstay : c.skipWhile Cursor.isInlineBlank = c := by
    simp [Cursor.skipWhile, hrun Cursor.isInlineBlank (by decide), Cursor.skip]
  have hcomment : Cursor.startsComment c.rest = false := by
    simp [Cursor.startsComment, hrun Token.isOperatorChar (by decide)]
  rw [turn_eq h, hstay, read_eq h, hcomment]
  rfl

/-- A comment runs to the end of its line. -/
theorem head?_skipLine (c : Cursor) :
    ∀ d ∈ (c.skipWhile (· != '\n')).rest.head?, d = '\n' := by
  have hrest : (c.skipWhile (· != '\n')).rest = c.rest.dropWhile (· != '\n') := by
    have hsplit := List.takeWhile_append_dropWhile (p := (· != '\n')) (l := c.rest)
    have hpasses := (c.passes_skipWhile (· != '\n')).rest
    exact (List.append_cancel_left (hsplit.trans hpasses)).symm
  intro d hd
  have hnot := List.head?_dropWhile_not (· != '\n') c.rest
  rw [← hrest, Option.mem_def.1 hd] at hnot
  simpa using hnot

/-- **Two turns read a token**, without a cut that goes wrong and without a column below zero. -/
theorem next_eq (h : c.Fits text) (turns : Nat) :
    next text (turns + 2) c.position = some (c.next.1, c.next.2.position) := by
  have hblanks := h.passes (c.passes_skipWhile Cursor.isInlineBlank)
  have hturn := (turn_eq h).trans (read_eq hblanks)
  simp only [next, hturn, Option.bind_eq_bind, Option.bind_some]
  rw [Cursor.next, Cursor.skipGap]
  by_cases hcomment : Cursor.startsComment (c.skipWhile Cursor.isInlineBlank).rest = true
  · -- a comment takes the first turn, the token behind it the second one
    have hline := turn_of_lineEnd (hblanks.passes (Cursor.passes_skipWhile _ _)) (head?_skipLine _)
    simp only [hcomment, if_true, hline, Option.bind_some]
    rfl
  · simp only [hcomment, Bool.false_eq_true, if_false]
    rfl

theorem index_le (h : c.Fits text) : c.position.index ≤ byteLength text := by
  obtain ⟨cs, htext, hindex⟩ := h.index
  rw [htext, hindex, byteLength_append]
  exact Nat.le_add_right _ _

/-- The longest run inside of a class is no longer than that inside of a larger one. -/
theorem length_takeWhile_le {p q : Char → Bool} (h : ∀ d, p d = true → q d = true)
    (cs : List Char) : (cs.takeWhile p).length ≤ (cs.takeWhile q).length := by
  induction cs with
  | nil => exact Nat.le_refl 0
  | cons d ds ih =>
    by_cases hd : p d = true
    · simp only [List.takeWhile_cons_of_pos hd, List.takeWhile_cons_of_pos (h d hd),
        List.length_cons]
      omega
    · simp [List.takeWhile_cons_of_neg hd]

/-- **A turn that goes on moves the index** behind the two dashes of a comment at least, and not
behind the end of the text. -/
theorem index_of_again (h : c.Fits text) {q : Position}
    (hturn : turn text c.position = some (.again q)) :
    c.position.index + 2 ≤ q.index ∧ q.index ≤ byteLength text := by
  have hpasses := c.passes_skipWhile Cursor.isInlineBlank
  have hblanks := h.passes hpasses
  rw [turn_eq h, read_eq hblanks] at hturn
  generalize c.skipWhile Cursor.isInlineBlank = b at hpasses hblanks hturn
  have hline := b.passes_skipWhile (· != '\n')
  by_cases hcomment : Cursor.startsComment b.rest = true
  · obtain rfl : (b.skipWhile (· != '\n')).position = q := by simpa [hcomment] using hturn
    refine ⟨?_, index_le (hblanks.passes hline)⟩
    -- the dashes are on the line
    have hdashes : 2 ≤ (b.rest.takeWhile Token.isOperatorChar).length := by
      simp only [Cursor.startsComment, Bool.and_eq_true, decide_eq_true_eq] at hcomment
      exact hcomment.1
    have hbegins : (b.rest.takeWhile Token.isOperatorChar).length ≤
        (b.rest.takeWhile (· != '\n')).length := by
      refine length_takeWhile_le (fun d hd => ?_) b.rest
      rw [bne_iff_ne]
      rintro rfl
      exact absurd hd (by decide)
    have hbytes := length_le_byteLength (b.rest.takeWhile (· != '\n'))
    rw [hline.position, Position.index_advance, hpasses.position, Position.index_advance]
    omega
  · simp [hcomment] at hturn

end Fits

end Buffer

end CallByNeed

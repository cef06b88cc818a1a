import CallByNeed.Proofs.Indentation
import CallByNeed.Text.Lines
import Mathlib.Data.List.TakeWhile

/-!
# Texts moved to the right

A text is shifted by `k` columns if every line gets `k` spaces in front, and lines that hold nothing
but blanks and a comment are put between its lines, in front of the first one and behind the last
one (`Text.Shifted`).

What a line holds does not depend on where it starts, nor on the lines behind it
(`Cursor.lineStart`).  So two cursors that stand abreast in a text and in the text shifted find the
same token when they read on over newlines, `k` columns further to the right in the shifted text
and first on its line in both texts or in none (`Cursor.agree_of_abreast`).  The added lines only
bring further newlines, and these come together with a newline of the text, at its beginning or at
its end.
-/

namespace CallByNeed

/-! ### Shifted texts -/

namespace Text

/-- A comment: two or more dashes that no operator character follows, and anything behind them. -/
def IsComment (cs : List Char) : Prop :=
  ∃ n rest, cs = List.replicate (n + 2) '-' ++ rest ∧
    ∀ c ∈ rest.head?, Token.isOperatorChar c = false

/-- A line without tokens: blanks, and behind them a comment or nothing. -/
def IsIdle (line : List Char) : Prop :=
  ∃ blanks comment, line = blanks ++ comment ∧ (∀ c ∈ blanks, Cursor.isInlineBlank c = true) ∧
    (comment = [] ∨ IsComment comment)

/-- **Lines moved to the right** by `k` columns, with idle lines between them. -/
inductive ShiftedLines (k : Nat) : List (List Char) → List (List Char) → Prop where
  | nil : ShiftedLines k [] []
  /-- A line is moved. -/
  | line {lines lines' : List (List Char)} (line : List Char) (h : ShiftedLines k lines lines') :
    ShiftedLines k (line :: lines) ((List.replicate k ' ' ++ line) :: lines')
  /-- An idle line is added. -/
  | idle {lines lines' : List (List Char)} {line : List Char} (hline : IsIdle line)
    (h : ShiftedLines k lines lines') : ShiftedLines k lines (line :: lines')
  /-- The empty stretch behind the last newline need not count as a line: an idle line may stand
  there. -/
  | last {line : List Char} (hline : IsIdle line) : ShiftedLines k [[]] [line]

/-- The second text is the first one, moved to the right by `k` columns. -/
def Shifted (k : Nat) (s s' : String) : Prop :=
  ShiftedLines k (pieces s.toList) (pieces s'.toList)

/-- Lines with a newline in front of each. -/
def behind (lines : List (List Char)) : List Char :=
  lines.flatMap ('\n' :: ·)

@[simp]
theorem behind_nil : behind [] = [] :=
  rfl

@[simp]
theorem behind_cons (line : List Char) (lines : List (List Char)) :
    behind (line :: lines) = '\n' :: (line ++ behind lines) := by
  simp [behind]

/-- **The pieces of a text make up the text**, with a newline between them. -/
theorem behind_pieces (cs : List Char) : behind (pieces cs) = '\n' :: cs := by
  induction cs with
  | nil => rfl
  | cons c cs ih =>
    rw [pieces]
    split
    · rename_i hpieces
      simp [hpieces] at ih
    · rename_i piece rest hpieces
      obtain rfl : piece ++ behind rest = cs := by simpa [hpieces] using ih
      split
      · rename_i hc
        simp [hc]
      · simp

/-- No line has a newline in it. -/
def Unbroken (lines : List (List Char)) : Prop :=
  ∀ line ∈ lines, '\n' ∉ line

theorem Unbroken.head {line : List Char} {lines : List (List Char)}
    (h : Unbroken (line :: lines)) : '\n' ∉ line :=
  h line List.mem_cons_self

theorem Unbroken.tail {line : List Char} {lines : List (List Char)}
    (h : Unbroken (line :: lines)) : Unbroken lines :=
  fun l hl => h l (List.mem_cons_of_mem _ hl)

theorem unbroken_pieces (cs : List Char) : Unbroken (pieces cs) := by
  induction cs with
  | nil => simp [pieces, Unbroken]
  | cons c cs ih =>
    rw [pieces]
    split
    · rename_i hpieces
      have hbehind := behind_pieces cs
      simp [hpieces] at hbehind
    · rename_i piece rest hpieces
      rw [hpieces] at ih
      intro line hline
      split at hline
      · rcases List.mem_cons.1 hline with rfl | hline
        · simp
        · exact ih line hline
      · rename_i hc
        rcases List.mem_cons.1 hline with rfl | hline
        · simpa [Ne.symm hc] using ih.head
        · exact ih.tail line hline

/-- Only a text without lines is moved to nothing. -/
theorem ShiftedLines.eq_nil {k : Nat} {lines : List (List Char)} (h : ShiftedLines k lines []) :
    lines = [] := by
  cases h
  rfl

end Text

open Text

/-! ### A line, whatever follows it -/

/-- A run of characters ends with its line. -/
theorem takeWhile_append_behind {p : Char → Bool} (hp : p '\n' = false) (line : List Char)
    (lines : List (List Char)) : (line ++ behind lines).takeWhile p = line.takeWhile p := by
  induction line with
  | nil => cases lines <;> simp [hp]
  | cons c line ih => simp only [List.cons_append, List.takeWhile_cons, ih]

theorem lexeme_append_behind {line : List Char} (hne : line ≠ []) (lines : List (List Char)) :
    Token.lexeme (line ++ behind lines) = Token.lexeme line := by
  obtain ⟨c, cs, rfl⟩ := List.exists_cons_of_ne_nil hne
  have hrun {p : Char → Bool} (hp : p '\n' = false) := takeWhile_append_behind hp cs lines
  rw [List.cons_append, Token.lexeme, Token.lexeme, hrun (by decide), hrun (by decide),
    hrun (by decide)]

namespace Cursor

theorem startsComment_append_behind (line : List Char) (lines : List (List Char)) :
    startsComment (line ++ behind lines) = startsComment line := by
  rw [startsComment, startsComment, takeWhile_append_behind (by decide)]

/-- A run of characters is skipped within its line. -/
theorem skipWhile_behind {p : Char → Bool} (hp : p '\n' = false) (line : List Char)
    (lines : List (List Char)) (q : Position) :
    skipWhile ⟨line ++ behind lines, q⟩ p =
      ⟨line.dropWhile p ++ behind lines, q.advance (line.takeWhile p)⟩ := by
  have hpasses := passes_skipWhile ⟨line ++ behind lines, q⟩ p
  have hrest := hpasses.rest
  have hposition := hpasses.position
  rw [takeWhile_append_behind hp] at hrest hposition
  have hsplit : line ++ behind lines =
      line.takeWhile p ++ (line.dropWhile p ++ behind lines) := by
    rw [← List.append_assoc, List.takeWhile_append_dropWhile]
  have hdrop := List.append_cancel_left (hsplit.symm.trans hrest)
  generalize skipWhile ⟨line ++ behind lines, q⟩ p = c at hdrop hposition
  obtain ⟨rest, position⟩ := c
  obtain rfl := hdrop
  obtain rfl := hposition
  rfl

/-- A comment reaches to the end of its line. -/
theorem skipWhile_comment {line : List Char} (hline : '\n' ∉ line) (lines : List (List Char))
    (q : Position) :
    skipWhile ⟨line ++ behind lines, q⟩ (· != '\n') = ⟨behind lines, q.advance line⟩ := by
  have hall : ∀ c ∈ line, (c != '\n') = true := by
    intro c hc
    rw [bne_iff_ne]
    rintro rfl
    exact hline hc
  have htake : line.takeWhile (· != '\n') = line := List.takeWhile_eq_self_iff.2 hall
  have hdrop : line.dropWhile (· != '\n') = [] := List.dropWhile_eq_nil_iff.2 hall
  rw [skipWhile_behind (by simp), htake, hdrop, List.nil_append]

/-- **A line starts with a gap**, which is the same whatever follows the line. -/
theorem exists_skipGap {line : List Char} (hline : '\n' ∉ line) :
    ∃ gap rest, line = gap ++ rest ∧ ∀ lines q,
      skipGap ⟨line ++ behind lines, q⟩ = ⟨rest ++ behind lines, q.advance gap⟩ := by
  have hsplit : line.takeWhile isInlineBlank ++ line.dropWhile isInlineBlank = line :=
    List.takeWhile_append_dropWhile
  have hblanks (lines : List (List Char)) (q : Position) :=
    skipWhile_behind (p := isInlineBlank) (by decide) line lines q
  cases hcomment : startsComment (line.dropWhile isInlineBlank) with
  | false =>
    refine ⟨_, _, hsplit.symm, fun lines q => ?_⟩
    simp [skipGap, hblanks, startsComment_append_behind, hcomment]
  | true =>
    refine ⟨line, [], (List.append_nil line).symm, fun lines q => ?_⟩
    have hrest : '\n' ∉ line.dropWhile isInlineBlank := by
      intro hmem
      exact hline ((List.dropWhile_suffix _).subset hmem)
    simp only [skipGap, hblanks, startsComment_append_behind, hcomment, if_true,
      skipWhile_comment hrest, ← Position.advance_append, hsplit, List.nil_append]

/-- What a line starts with, whatever follows it and wherever it stands. -/
inductive LineStart (line : List Char) : Prop where
  /-- It holds no token. -/
  | idle (h : ∀ lines q, ∃ q', skipGap ⟨line ++ behind lines, q⟩ = ⟨behind lines, q'⟩)
  | error (h : ∀ lines q, ∃ e c, next ⟨line ++ behind lines, q⟩ = (.error e, c))
  /-- A token stands behind a gap, and the rest of the line behind the token. -/
  | token {t : Token} {gap spelling rest : List Char} (hvalue : t ≠ .newline ∧ t ≠ .eof)
    (hsplit : line = gap ++ spelling ++ rest)
    (h : ∀ lines q, ∃ span, span.start = q.advance gap ∧ next ⟨line ++ behind lines, q⟩ =
      (.ok ⟨t, span⟩, ⟨rest ++ behind lines, q.advance (gap ++ spelling)⟩))

/-- Behind a gap the spelling decides, which ends with the line. -/
theorem token_behind {c : Char} {cs spelling rest : List Char} (hc : c ≠ '\n')
    (hlexeme : Token.lexeme (c :: cs) = spelling) (hsplit : c :: cs = spelling ++ rest)
    (lines : List (List Char)) (q : Position) :
    token ⟨c :: cs ++ behind lines, q⟩ =
      if spelling.isEmpty then (.error (.invalidToken c (.point q)), ⟨c :: cs ++ behind lines, q⟩)
      else
        let span := Span.between q (q.advance spelling)
        match Token.ofLexeme spelling with
        | some t => (.ok ⟨t, span⟩, ⟨rest ++ behind lines, q.advance spelling⟩)
        | none => (.error (.invalidInteger (String.ofList spelling) span),
            ⟨rest ++ behind lines, q.advance spelling⟩) := by
  have hlexeme' : Token.lexeme (c :: (cs ++ behind lines)) = spelling :=
    (lexeme_append_behind (List.cons_ne_nil c cs) lines).trans hlexeme
  have hskip : skip ⟨c :: (cs ++ behind lines), q⟩ spelling.length =
      ⟨rest ++ behind lines, q.advance spelling⟩ := by
    rw [← List.cons_append, hsplit, List.append_assoc]
    simp [skip]
  -- no spelling at all, a spelling of a token, or one that stands for none
  cases hempty : spelling.isEmpty with
  | true => simp [token, hc, hlexeme', hempty]
  | false =>
    cases htoken : Token.ofLexeme spelling <;>
      simp [token, hc, hlexeme', hskip, hempty, htoken]

/-- **What a line starts with does not depend on what follows it.** -/
theorem lineStart {line : List Char} (hline : '\n' ∉ line) : LineStart line := by
  obtain ⟨gap, rest, rfl, hgap⟩ := exists_skipGap hline
  -- behind the gap the line is over, or has a character that starts a token or an error
  cases rest with
  | nil => exact .idle fun lines q => ⟨_, hgap lines q⟩
  | cons c cs =>
    have hc : c ≠ '\n' := by
      rintro rfl
      exact hline (by simp)
    have hspelling := (Token.lexeme_append_drop (c :: cs)).symm
    have hnext (lines : List (List Char)) (q : Position) :=
      (congrArg token (hgap lines q)).trans (token_behind hc rfl hspelling lines (q.advance gap))
    generalize Token.lexeme (c :: cs) = spelling at hspelling hnext
    cases hempty : spelling.isEmpty with
    | true =>
      simp only [hempty, if_true] at hnext
      exact .error fun lines q => ⟨_, _, hnext lines q⟩
    | false =>
      cases htoken : Token.ofLexeme spelling with
      | none =>
        simp only [hempty, Bool.false_eq_true, if_false, htoken] at hnext
        exact .error fun lines q => ⟨_, _, hnext lines q⟩
      | some t =>
        have hvalue : t ≠ .newline ∧ t ≠ .eof := by
          have hnot := not_mem_of_ofLexeme htoken
          simp only [List.mem_cons, not_or] at hnot
          exact ⟨hnot.1, hnot.2.1⟩
        simp only [hempty, Bool.false_eq_true, if_false, htoken, ← Position.advance_append]
          at hnext
        exact .token hvalue (by rw [List.append_assoc, ← hspelling]) fun lines q =>
          ⟨_, rfl, hnext lines q⟩

/-! ### Idle lines -/

theorem startsComment_of_isComment {cs : List Char} (h : IsComment cs) :
    startsComment cs = true := by
  obtain ⟨n, rest, rfl, hrest⟩ := h
  have hdashes : ∀ c ∈ List.replicate (n + 2) '-', Token.isOperatorChar c = true := by
    intro c hc
    rw [List.eq_of_mem_replicate hc]
    decide
  have hstop : rest.takeWhile Token.isOperatorChar = [] := by
    cases rest with
    | nil => rfl
    | cons c rest => simp [hrest c rfl]
  have hrun : (List.replicate (n + 2) '-' ++ rest).takeWhile Token.isOperatorChar =
      List.replicate (n + 2) '-' := by
    rw [List.takeWhile_append_of_pos hdashes, hstop, List.append_nil]
  rw [startsComment, hrun]
  simp

/-- **An idle line is a gap.** -/
theorem skipGap_of_isIdle {line : List Char} (h : IsIdle line) (hline : '\n' ∉ line)
    (lines : List (List Char)) (q : Position) :
    ∃ q', skipGap ⟨line ++ behind lines, q⟩ = ⟨behind lines, q'⟩ := by
  obtain ⟨blanks, comment, rfl, hblanks, hcomment⟩ := h
  have hdrop : (blanks ++ comment).dropWhile isInlineBlank = comment.dropWhile isInlineBlank :=
    List.dropWhile_append_of_pos hblanks
  have hskip := skipWhile_behind (p := isInlineBlank) (by decide) (blanks ++ comment) lines q
  rw [hdrop] at hskip
  -- a line without a comment, and one with a comment up to its end
  rcases hcomment with rfl | hcomment
  · have hnone := startsComment_append_behind [] lines
    rw [List.dropWhile_nil] at hskip
    simp only [skipGap, hskip, hnone]
    exact ⟨_, rfl⟩
  · have hstays : comment.dropWhile isInlineBlank = comment := by
      obtain ⟨n, rest, rfl, -⟩ := hcomment
      rfl
    have hrest : '\n' ∉ comment := fun hmem => hline (List.mem_append_right _ hmem)
    rw [hstays] at hskip
    simp only [skipGap, hskip, startsComment_append_behind, startsComment_of_isComment hcomment,
      if_true, skipWhile_comment hrest]
    exact ⟨_, rfl⟩

/-! ### Reading on over newlines -/

/-- **The next result that is no newline.**  A cursor reads on over newlines up to the result `r`,
and stands at `c'` then.  The flags tell whether a token would be first on its line, before and
after. -/
inductive Finds : Cursor → Bool → Except LexError (Located Token) → Bool → Cursor → Prop where
  | here {c c' : Cursor} {r : Except LexError (Located Token)} (fresh : Bool)
    (h : c.next = (r, c')) (hr : ∀ t, r = .ok t → t.value ≠ .newline) : Finds c fresh r fresh c'
  | newline {c c' d : Cursor} {r : Except LexError (Located Token)} {t : Located Token}
    {fresh fresh' : Bool} (h : c.next = (.ok t, c')) (ht : t.value = .newline)
    (hfinds : Finds c' true r fresh' d) : Finds c fresh r fresh' d

/-- What is found depends on the cursor only through the next token. -/
theorem Finds.congr {c c' d : Cursor} {r : Except LexError (Located Token)} {fresh fresh' : Bool}
    (h : Finds c fresh r fresh' d) (hnext : c.next = c'.next) : Finds c' fresh r fresh' d := by
  cases h with
  | here _ h hr => exact .here _ (hnext.symm.trans h) hr
  | newline h ht hfinds => exact .newline (hnext.symm.trans h) ht hfinds

/-- **Two cursors abreast**: they stand in the same line, the second one `k` columns further to the
right, and the lines behind it are moved too. -/
structure Abreast (k : Nat) (c c' : Cursor) : Prop where
  line : ∃ line lines lines', '\n' ∉ line ∧ Unbroken lines ∧ Unbroken lines' ∧
    ShiftedLines k lines lines' ∧ c.rest = line ++ behind lines ∧ c'.rest = line ++ behind lines'
  pos : 0 < c.position.column
  column : c'.position.column = c.position.column + k

/-- **Two cursors find the same**: an error each, or the same token, `k` columns further to the
right in the second text and first on its line in both texts or in none, or the end of the text. -/
inductive Agree (k : Nat) (c : Cursor) (fresh : Bool) (c' : Cursor) (fresh' : Bool) : Prop where
  | error {e e' : LexError} {flag flag' : Bool} {d d' : Cursor}
    (h : Finds c fresh (.error e) flag d) (h' : Finds c' fresh' (.error e') flag' d')
  | token {t : Token} {span span' : Span} {flag : Bool} {d d' : Cursor}
    (h : Finds c fresh (.ok ⟨t, span⟩) flag d) (h' : Finds c' fresh' (.ok ⟨t, span'⟩) flag d')
    (hvalue : t ≠ .newline ∧ t ≠ .eof) (hpos : 0 < span.start.column)
    (hcolumn : span'.start.column = span.start.column + k) (habreast : Abreast k d d')
  | eof {span span' : Span} {flag flag' : Bool} {d d' : Cursor}
    (h : Finds c fresh (.ok ⟨.eof, span⟩) flag d)
    (h' : Finds c' fresh' (.ok ⟨.eof, span'⟩) flag' d') (hrest : d.rest = [])
    (hrest' : d'.rest = [])

section Agree

variable {k : Nat} {c c' d d' : Cursor} {fresh fresh' flag flag' : Bool}

/-- What has been found from one pair of cursors is found from another that comes there. -/
theorem Agree.map (h : Agree k d flag d' flag')
    (hleft : ∀ {r e f}, Finds d flag r e f → Finds c fresh r e f)
    (hright : ∀ {r e f}, Finds d' flag' r e f → Finds c' fresh' r e f) :
    Agree k c fresh c' fresh' := by
  cases h with
  | error h h' => exact .error (hleft h) (hright h')
  | token h h' hvalue hpos hcolumn habreast =>
    exact .token (hleft h) (hright h') hvalue hpos hcolumn habreast
  | eof h h' hrest hrest' => exact .eof (hleft h) (hright h') hrest hrest'

theorem next_of_skipGap_newline {cs : List Char} {q : Position} (h : c.skipGap = ⟨'\n' :: cs, q⟩) :
    c.next = (.ok ⟨.newline, .point q⟩, ⟨cs, q.after '\n'⟩) := by
  rw [next, h]
  rfl

theorem Finds.of_newline {cs : List Char} {q : Position} {r : Except LexError (Located Token)}
    (h : c.skipGap = ⟨'\n' :: cs, q⟩) (hfinds : Finds ⟨cs, q.after '\n'⟩ true r flag d) :
    Finds c fresh r flag d :=
  .newline (next_of_skipGap_newline h) rfl hfinds

/-- At the end of both texts. -/
theorem agree_end {q q' : Position} (h : c.skipGap = ⟨[], q⟩) (h' : c'.skipGap = ⟨[], q'⟩) :
    Agree k c fresh c' fresh' := by
  have hfinds {c : Cursor} {q : Position} (fresh : Bool) (h : c.skipGap = ⟨[], q⟩) :
      Finds c fresh (.ok ⟨.eof, .point q⟩) fresh ⟨[], q⟩ := by
    refine .here fresh (by rw [next, h]; rfl) ?_
    rintro t ht
    obtain rfl : ⟨.eof, .point q⟩ = t := by simpa using ht
    simp
  exact .eof (hfinds fresh h) (hfinds fresh' h') rfl rfl

theorem agree_of_rest_nil (h : c.rest = []) (h' : c'.rest = []) : Agree k c fresh c' fresh' := by
  have hgap {c : Cursor} (h : c.rest = []) : ∃ q, c.skipGap = ⟨[], q⟩ := by
    obtain ⟨rest, q⟩ := c
    obtain rfl : rest = [] := h
    exact ⟨q, rfl⟩
  obtain ⟨q, hq⟩ := hgap h
  obtain ⟨q', hq'⟩ := hgap h'
  exact agree_end hq hq'

/-- **Within a line** the cursors find the same, provided that they do behind it. -/
theorem agree_line {line : List Char} {lines lines' : List (List Char)} (hline : '\n' ∉ line)
    (h : ShiftedLines k lines lines') (hlines : Unbroken lines) (hlines' : Unbroken lines')
    (hbehind : ∀ {c c' : Cursor} {q q' : Position} {fresh fresh' : Bool},
      c.skipGap = ⟨behind lines, q⟩ → c'.skipGap = ⟨behind lines', q'⟩ → Agree k c fresh c' fresh')
    {q q' : Position} (hpos : 0 < q.column) (hcolumn : q'.column = q.column + k) (fresh : Bool) :
    Agree k ⟨line ++ behind lines, q⟩ fresh ⟨line ++ behind lines', q'⟩ fresh := by
  -- no token before the end of the line, an error, or a token behind which the line goes on
  cases lineStart hline with
  | idle hidle =>
    obtain ⟨p, hp⟩ := hidle lines q
    obtain ⟨p', hp'⟩ := hidle lines' q'
    exact hbehind hp hp'
  | error herror =>
    obtain ⟨e, d, hd⟩ := herror lines q
    obtain ⟨e', d', hd'⟩ := herror lines' q'
    exact .error (.here fresh hd (by simp)) (.here fresh hd' (by simp))
  | @token t gap spelling rest hvalue hsplit htoken =>
    obtain ⟨span, hspan, hd⟩ := htoken lines q
    obtain ⟨span', hspan', hd'⟩ := htoken lines' q'
    have hfound {span : Span} : ∀ u : Located Token,
        (.ok ⟨t, span⟩ : Except LexError (Located Token)) = .ok u → u.value ≠ .newline := by
      rintro u hu
      obtain rfl : ⟨t, span⟩ = u := by simpa using hu
      exact hvalue.1
    -- nothing that the cursors pass is a line break, so that columns only add up
    obtain ⟨hgap, hspelling, hrest⟩ : '\n' ∉ gap ∧ '\n' ∉ spelling ∧ '\n' ∉ rest := by
      simpa [hsplit, and_assoc] using hline
    have hpassed : '\n' ∉ gap ++ spelling := by simp [hgap, hspelling]
    refine .token (.here fresh hd hfound) (.here fresh hd' hfound) hvalue ?_ ?_
      ⟨⟨rest, lines, lines', hrest, hlines, hlines', h, rfl, rfl⟩, ?_, ?_⟩
    · rw [hspan, Position.column_advance hgap]
      omega
    · rw [hspan, hspan', Position.column_advance hgap, Position.column_advance hgap, hcolumn]
      omega
    · rw [Position.column_advance hpassed]
      omega
    · rw [Position.column_advance hpassed, Position.column_advance hpassed, hcolumn]
      omega

/-- A line that is moved starts with the spaces that move it. -/
theorem agree_moved {line : List Char} {lines lines' : List (List Char)} {p p' : Position}
    (h : Agree k ⟨line ++ behind lines, p⟩ fresh
      ⟨line ++ behind lines', p'.advance (List.replicate k ' ')⟩ fresh) :
    Agree k ⟨line ++ behind lines, p⟩ fresh
      ⟨List.replicate k ' ' ++ line ++ behind lines', p'⟩ fresh := by
  refine h.map id fun hfinds => hfinds.congr ?_
  rw [List.append_assoc, next_spaces]

/-- **Behind a line** the cursors find the same: the induction is on the lines that follow. -/
theorem agree_behind {lines lines' : List (List Char)} (h : ShiftedLines k lines lines')
    (hlines : Unbroken lines) (hlines' : Unbroken lines') {q q' : Position}
    (hc : c.skipGap = ⟨behind lines, q⟩) (hc' : c'.skipGap = ⟨behind lines', q'⟩) :
    Agree k c fresh c' fresh' := by
  induction h generalizing c c' q q' fresh fresh' with
  | nil => exact agree_end hc hc'
  -- the blanks in front of the line move its first column
  | @line lines lines' line h ih =>
    rw [behind_cons] at hc hc'
    refine Agree.map (agree_moved ?_) (.of_newline hc) (.of_newline hc')
    refine agree_line hlines.head h hlines.tail hlines'.tail (ih hlines.tail hlines'.tail)
      (Position.column_after_pos ..) ?_ true
    rw [Position.column_advance (by simp), List.length_replicate]
    rfl
  -- the line that is put in is idle, and only the second cursor passes it
  | @idle lines lines' line hline h ih =>
    rw [behind_cons] at hc'
    obtain ⟨p, hp⟩ := skipGap_of_isIdle hline hlines'.head lines' (q'.after '\n')
    exact Agree.map (ih hlines hlines'.tail hc hp) id (.of_newline hc')
  | @last line hline =>
    rw [behind_cons, behind_nil, List.append_nil] at hc
    rw [behind_cons] at hc'
    obtain ⟨p, hp⟩ := skipGap_of_isIdle hline hlines'.head [] (q'.after '\n')
    exact Agree.map (agree_end rfl hp) (.of_newline hc) (.of_newline hc')

/-- **Cursors abreast find the same.** -/
theorem agree_of_abreast (h : Abreast k c c') (fresh : Bool) : Agree k c fresh c' fresh := by
  obtain ⟨line, lines, lines', hline, hlines, hlines', hshifted, hrest, hrest'⟩ := h.line
  obtain ⟨rest, q⟩ := c
  obtain ⟨rest', q'⟩ := c'
  obtain rfl := hrest
  obtain rfl := hrest'
  exact agree_line hline hshifted hlines hlines' (agree_behind hshifted hlines hlines') h.pos
    h.column fresh

/-- **At the beginning** of a line, of which there may be none, the cursors find the same. -/
theorem agree_start {lines lines' : List (List Char)} (h : ShiftedLines k lines lines')
    (hlines : Unbroken lines) (hlines' : Unbroken lines') {p p' : Position} (hp : p.column = 1)
    (hp' : p'.column = 1) :
    Agree k ⟨(behind lines).tail, p⟩ true ⟨(behind lines').tail, p'⟩ true := by
  induction h generalizing p' with
  | nil => exact agree_end rfl rfl
  | @line lines lines' line h ih =>
    simp only [behind_cons, List.tail_cons]
    refine agree_moved (agree_line hlines.head h hlines.tail hlines'.tail
      (agree_behind h hlines.tail hlines'.tail) (by omega) ?_ true)
    rw [Position.column_advance (by simp), List.length_replicate]
    omega
  | @idle lines lines' line hline h ih =>
    obtain ⟨q, hq⟩ := skipGap_of_isIdle hline hlines'.head lines' p'
    rw [behind_cons, List.tail_cons]
    -- behind the line that is put in the text is over, or the next line takes its place
    cases lines' with
    | nil =>
      obtain rfl := h.eq_nil
      exact agree_end rfl hq
    | cons line' lines' =>
      rw [behind_cons] at hq
      exact Agree.map (ih hlines hlines'.tail rfl) id (.of_newline hq)
  | @last line hline =>
    obtain ⟨q, hq⟩ := skipGap_of_isIdle hline hlines'.head [] p'
    rw [behind_cons, behind_cons, List.tail_cons, List.tail_cons]
    exact agree_end rfl hq

/-- **A text and the text shifted** start with the same. -/
theorem agree_ofString {s s' : String} (h : Shifted k s s') :
    Agree k (ofString s) true (ofString s') true := by
  have hstart : Agree k ⟨(behind (pieces s.toList)).tail, .start⟩ true
      ⟨(behind (pieces s'.toList)).tail, .start⟩ true :=
    agree_start h (unbroken_pieces _) (unbroken_pieces _) rfl rfl
  rwa [behind_pieces, behind_pieces] at hstart

end Agree

end Cursor

end CallByNeed

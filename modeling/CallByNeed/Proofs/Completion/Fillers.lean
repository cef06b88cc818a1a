import CallByNeed.Proofs.Indentation

/-!
# Lines that complete a text

A text that ends too early is completed by a line of fillers: a number where an expression or a
pattern is missing, and otherwise the token that the parser expects.  The line stands to the right
of every block of the text, so that none of them ends by indentation.  Its first token closes the
open blocks instead, since none of them can go on with it (`Spells`).

`Filler.exists_spells` says that there is such a line for every list of fillers.  It is read by the
laws of a line, from its end to its beginning, with two laws added: one for `of` at the end of the
text, and one for the beginning of a line to the right of all blocks.
-/

namespace CallByNeed

/-- The end of a text. -/
def Position.stop (text : String) : Position :=
  Position.start.advance text.toList

/-! ### Fillers -/

/-- The tokens with which a text can be completed. -/
inductive Filler where
  /-- The number 1, an expression as well as a pattern. -/
  | one
  | parenRight
  | bracketRight
  | equals
  | arrow
  | inWord
  | thenWord
  | elseWord
  | ofWord
deriving DecidableEq

namespace Filler

/-- The token of a filler. -/
def token : Filler → Token
  | one => .integer 1
  | parenRight => .parenRight
  | bracketRight => .bracketRight
  | equals => .equals
  | arrow => .arrow
  | inWord => .keyword .inWord
  | thenWord => .keyword .thenWord
  | elseWord => .keyword .elseWord
  | ofWord => .keyword .ofWord

/-- The spelling of a filler. -/
def spelling : Filler → List Char
  | one => ['1']
  | parenRight => [')']
  | bracketRight => [']']
  | equals => ['=']
  | arrow => ['-', '>']
  | inWord => ['i', 'n']
  | thenWord => ['t', 'h', 'e', 'n']
  | elseWord => ['e', 'l', 's', 'e']
  | ofWord => ['o', 'f']

/-- Fillers on a line, with a blank behind each. -/
def line : List Filler → List Char
  | [] => []
  | f :: fs => f.spelling ++ ' ' :: line fs

/-- What the parser meets in a line of fillers, up to the end of the text.  The block behind `of`
is empty: the end of the text ends it, or the next filler closes it. -/
def cues : List Filler → List Cue
  | [] => [.token .eof]
  | f :: fs =>
    if f = ofWord then
      .token f.token :: .token .blockBegin ::
        (if fs = [] then .token .blockEnd else .close) :: cues fs
    else .token f.token :: cues fs

/-- The first token of the fillers, or the end of the text. -/
def first : List Filler → Token
  | [] => .eof
  | f :: _ => f.token

/-- A filler other than the number goes on with no expression, pattern or block. -/
def Closing (fs : List Filler) : Prop :=
  fs.head? ≠ some one

@[simp]
theorem closing_nil : Closing [] := by
  simp [Closing]

@[simp]
theorem closing_cons {f : Filler} {fs : List Filler} : Closing (f :: fs) ↔ f ≠ one := by
  simp [Closing]

theorem next_cues (fs : List Filler) : Cue.next (cues fs) = some (first fs) := by
  cases fs with
  | nil => rfl
  | cons f fs =>
    rw [cues]
    split <;> rfl

theorem cues_cons {f : Filler} (h : f ≠ ofWord) (fs : List Filler) :
    cues (f :: fs) = .token f.token :: cues fs := by
  rw [cues, if_neg h]

variable {rest : List Char} {columns : List Nat}

/-- **A filler is read off its spelling.** -/
theorem spelled (f : Filler) (hrest : Ends rest) :
    Spelled (f.spelling ++ rest) f.token rest := by
  cases f with
  | one => exact spelled_integer (n := 1) (by decide) hrest
  | parenRight => exact spelled_bracket (by decide) (by decide) rest
  | bracketRight => exact spelled_bracket (by decide) (by decide) rest
  | _ => exact spelled_of_isSpelling (by decide) hrest

theorem isPlain_token (f : Filler) : f.token.isPlain = true := by
  cases f <;> rfl

/-! ### The laws of a line of fillers -/

/-- **`of` at the end of the text** begins an empty block. -/
theorem hands_of_end {cs cs' : List Char} (h : Spelled cs (.keyword .ofWord) cs')
    (hend : Spelled cs' .eof []) :
    Hands [] cs [.token (.keyword .ofWord), .token .blockBegin, .token .blockEnd, .token .eof] := by
  have hlength := h.length_lt (by simp)
  refine ⟨fun s hs => ?_, by simp only [List.length_cons, List.length_nil]; omega⟩
  obtain ⟨span, layout, hpeek, hstands⟩ := hs.peek_token h (by simp) (by simp) (by simp)
  refine ⟨span, _, hpeek, ?_⟩
  obtain ⟨cursor, columns, queue, afterOf, freshLine⟩ := layout
  obtain ⟨-, -, rfl, rfl, rfl, rfl⟩ := hstands
  obtain ⟨stop, q, hnext⟩ := hend cursor.position
  have hstep := Layout.next_of_eof (s := ⟨cursor, [], [], true, freshLine⟩) rfl hnext rfl
  refine ⟨stop, _, TokenStream.peek_of_next rfl hstep, ?_⟩
  refine ⟨stop, _, TokenStream.peek_of_next rfl (Layout.next_of_queue rfl), ?_⟩
  exact ⟨stop, _, TokenStream.peek_of_next rfl (Layout.next_of_queue rfl), trivial⟩

theorem hands_fillers (fs : List Filler) : Hands [] (line fs) (cues fs) := by
  induction fs with
  | nil => exact hands_eof
  | cons f fs ih =>
    have hspelled := f.spelled (ends_space (line fs))
    rw [line, cues]
    -- behind `of` the next item opens a block, which closes where the items end
    split
    · rename_i hof
      subst hof
      cases fs with
      | nil => exact hands_of_end hspelled (spelled_space spelled_end)
      | cons g gs =>
        rw [if_neg (by simp)]
        have hnext := g.spelled (ends_space (line gs))
        refine hands_of hspelled (spelled_space hnext) g.isPlain_token fun column => ?_
        exact hands_space (hands_close hnext g.isPlain_token (next_cues (g :: gs)) ih)
    · rename_i hof
      have hopens : f.token.opensBlock = false := by
        cases f <;> first | rfl | exact absurd rfl hof
      exact hands_token hspelled f.isPlain_token hopens (hands_space ih)

/-- **The first filler closes all blocks** that it is in. -/
theorem hands_closes (columns : List Nat) {fs : List Filler} (hne : fs ≠ []) :
    Hands columns (line fs) (List.replicate columns.length .close ++ cues fs) := by
  obtain ⟨f, fs, rfl⟩ := List.exists_cons_of_ne_nil hne
  induction columns with
  | nil => exact hands_fillers (f :: fs)
  | cons column columns ih =>
    have hnext : Cue.next (List.replicate columns.length .close ++ cues (f :: fs)) =
        some f.token := by
      induction columns.length with
      | zero => exact next_cues (f :: fs)
      | succ n ih => exact ih
    exact hands_close (f.spelled (ends_space (line fs))) f.isPlain_token hnext ih

end Filler

/-! ### A line behind a text -/

/-- The stream stands at the beginning of the line `more`, which follows the text.  The blocks of
the text are still open. -/
structure TokenStream.Behind (text : String) (more : List Char) (s : TokenStream) : Prop where
  lookahead : s.lookahead = none
  queue : s.layout.queue = []
  freshLine : s.layout.freshLine = true
  cursor : s.layout.cursor = ⟨more, (Position.stop text).after '\n'⟩
  narrow : ∀ column ∈ s.layout.columns, column ≤ text.length + 1

/-- The line completes the text with the fillers: its first token closes all open blocks of the
text, one of which begins with it if it stands behind `of`. -/
def Spells (text : String) (more : List Char) (fs : List Filler) : Prop :=
  ∀ s : TokenStream, s.Behind text more → s.Yields
    ((if s.layout.afterOf then [.token .blockBegin, .close] else []) ++
      (List.replicate s.layout.columns.length .close ++ Filler.cues fs))

section Behind

variable {text : String} {cs rest : List Char} {t : Token} {cues : List Cue} {s : TokenStream}

/-- The first token behind the indentation stands to the right of all blocks. -/
theorem TokenStream.Behind.next (hs : s.Behind text (List.replicate (text.length + 1) ' ' ++ cs))
    (h : Spelled cs t rest) (hplain : t.isPlain = true) :
    ∃ span p q, text.length + 1 < span.start.column ∧
      Cursor.next ⟨cs, p⟩ = (.ok ⟨t, span⟩, ⟨rest, q⟩) ∧
      s.layout.cursor.next = (.ok ⟨t, span⟩, ⟨rest, q⟩) := by
  let p := ((Position.stop text).after '\n').advance (List.replicate (text.length + 1) ' ')
  obtain ⟨⟨hline, heof⟩, -⟩ : (t ≠ .newline ∧ t ≠ .eof) ∧ t ≠ .pipe := by
    simpa [Token.isPlain] using hplain
  obtain ⟨span, q, hnext⟩ := h p
  refine ⟨span, p, q, ?_, hnext, ?_⟩
  · have hle : p.column ≤ span.start.column := (Cursor.column_of_next hnext hline heof).1
    have hp : p.column = 1 + (text.length + 1) := by
      rw [Position.column_advance (by simp), List.length_replicate]
      rfl
    omega
  · rw [hs.cursor, Cursor.next_spaces, hnext]

/-- To the right of all blocks a new line goes on with the innermost one. -/
theorem Layout.accept_of_right {layout : Layout} {u : Located Token}
    (hof : layout.afterOf = false) (hu : u.value ≠ .pipe)
    (h : ∀ column ∈ layout.columns, column < u.span.start.column) :
    layout.accept u = layout.enqueue u := by
  obtain ⟨cursor, columns, queue, afterOf, freshLine⟩ := layout
  obtain rfl : afterOf = false := hof
  have halign : Layout.align ⟨cursor, columns, queue, false, freshLine⟩ u.span =
      ⟨cursor, columns, queue, false, freshLine⟩ := by
    cases columns with
    | nil => simp [Layout.align, Layout.mark]
    | cons column columns =>
      have hlt : column < u.span.start.column := h column List.mem_cons_self
      have hnot : ¬ u.span.start.column < column := by omega
      have hne : ¬ column = u.span.start.column := by omega
      simp [Layout.align, Layout.mark, hnot, hne]
  rw [Layout.accept, if_neg (by simp), Layout.goOn, halign]
  simp [hu]

/-- **A line to the right of all blocks** is met as if it went on with the line in front of it. -/
theorem TokenStream.Behind.yields
    (hs : s.Behind text (List.replicate (text.length + 1) ' ' ++ cs)) (h : Spelled cs t rest)
    (hplain : t.isPlain = true) (hof : s.layout.afterOf = false)
    (hcues : Hands s.layout.columns cs cues) : s.Yields cues := by
  obtain ⟨⟨hline, heof⟩, hpipe⟩ : (t ≠ .newline ∧ t ≠ .eof) ∧ t ≠ .pipe := by
    simpa [Token.isPlain] using hplain
  obtain ⟨span, p, q, hstart, hcursor, hnext⟩ := hs.next h hplain
  obtain ⟨⟨cursor, columns, queue, afterOf, freshLine⟩, lookahead⟩ := s
  obtain ⟨rfl, rfl, -, -, hnarrow⟩ := hs
  obtain rfl : afterOf = false := hof
  have hright : ∀ column ∈ columns, column < span.start.column :=
    fun column hcolumn => Nat.lt_of_le_of_lt (hnarrow column hcolumn) hstart
  -- the same characters on a line that has already started
  have hseen (c : Cursor) (fresh : Bool) (h : c.next = (.ok ⟨t, span⟩, ⟨rest, q⟩)) :
      TokenStream.peek ⟨⟨c, columns, [], false, fresh⟩, none⟩ =
        .ok (⟨t, span⟩, ⟨⟨⟨rest, q⟩, columns, [], t.opensBlock, false⟩, some ⟨t, span⟩⟩) := by
    have hstep := Layout.next_of_token (s := ⟨c, columns, [], false, fresh⟩) rfl h hline heof
    rw [Layout.accept_of_right rfl hpipe hright] at hstep
    exact TokenStream.peek_of_next rfl hstep
  refine TokenStream.yields_congr ?_ (hcues.yields ⟨⟨⟨cs, p⟩, columns, [], false, false⟩, none⟩
    ⟨.inl rfl, rfl, rfl, rfl, rfl, rfl⟩)
  rw [hseen _ _ hcursor, hseen _ _ hnext]

/-- **Behind `of` such a line opens a block.** -/
theorem TokenStream.Behind.yields_of
    (hs : s.Behind text (List.replicate (text.length + 1) ' ' ++ cs)) (h : Spelled cs t rest)
    (hplain : t.isPlain = true) (hof : s.layout.afterOf = true)
    (hcues : ∀ column, Hands (column :: s.layout.columns) cs cues) :
    s.Yields (.token .blockBegin :: cues) := by
  obtain ⟨⟨hline, heof⟩, -⟩ : (t ≠ .newline ∧ t ≠ .eof) ∧ t ≠ .pipe := by
    simpa [Token.isPlain] using hplain
  obtain ⟨span, p, q, hstart, hcursor, hnext⟩ := hs.next h hplain
  obtain ⟨⟨cursor, columns, queue, afterOf, freshLine⟩, lookahead⟩ := s
  obtain ⟨rfl, rfl, -, -, hnarrow⟩ := hs
  obtain rfl : afterOf = true := hof
  have hstep := Layout.next_of_token (s := ⟨cursor, columns, [], true, freshLine⟩) rfl hnext hline
    heof
  refine ⟨span, _, TokenStream.peek_of_next rfl ?_,
    (hcues span.start.column).yields_waiting hcursor hplain⟩
  have hopens : Layout.opensNothing ⟨⟨rest, q⟩, columns, [], true, freshLine⟩ span = false := by
    -- the line that completes the text is indented further than every open block
    have hright : columns.headD 0 < span.start.column := by
      cases columns with
      | nil => exact Nat.zero_lt_of_lt hstart
      | cons column columns => exact Nat.lt_of_le_of_lt (hnarrow column List.mem_cons_self) hstart
    rw [Layout.opensNothing, Bool.and_eq_false_iff, decide_eq_false_iff_not, Nat.not_le]
    exact .inr hright
  rw [hstep, Layout.accept, if_pos rfl, hopens]
  rfl

end Behind

/-- **Every list of fillers can be written behind every text.** -/
theorem Filler.exists_spells (text : String) {fs : List Filler} (hne : fs ≠ []) :
    ∃ more, Spells text more fs := by
  refine ⟨List.replicate (text.length + 1) ' ' ++ line fs, fun s hs => ?_⟩
  have hhands (columns : List Nat) := hands_closes columns hne
  obtain ⟨f, fs, rfl⟩ := List.exists_cons_of_ne_nil hne
  have hspelled := f.spelled (ends_space (line fs))
  split
  · rename_i hof
    exact hs.yields_of hspelled f.isPlain_token hof fun column => hhands (column :: _)
  · rename_i hof
    exact hs.yields hspelled f.isPlain_token (by simpa using hof) (hhands _)

end CallByNeed

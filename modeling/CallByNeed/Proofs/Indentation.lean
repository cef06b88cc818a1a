import CallByNeed.Proofs.Places
import CallByNeed.Proofs.RoundTrip

/-!
# Blocks by indentation

A `case` may have its options on lines of their own.  `Expr.indented` is the canonical text of an
expression in that layout: a newline and an indentation stand behind `of` and in place of the pipes,
and each block has a column of its own choice (`Indentation`).  The choice fits (`Expr.Fits`) if a
block stands further to the right than the block around it.

A stream in front of that text hands out the same cues as in front of the canonical one, since

* the first option of a block, further to the right than the block around it, opens the block in
  its column (`hands_of_line`),
* an option in the column of the innermost open block starts a new item (`hands_line`), and
* blocks inside of an option have been closed by their brackets before the next option starts.

So what is read back is the same expression (`Expr.exists_parse_indented`).
-/

namespace CallByNeed

/-! ### Columns -/

/-- A column for each place of a tree.  A place is known by the way to it; only the columns of
places with a `case` matter. -/
abbrev Indentation :=
  List Nat → Nat

namespace Indentation

/-- The column for the tree itself. -/
def column (indentation : Indentation) : Nat :=
  indentation []

/-- The columns for one of its children. -/
def child (indentation : Indentation) (i : Nat) : Indentation := fun place =>
  indentation (i :: place)

end Indentation

/-- The beginning of a new line, up to a column. -/
def lineTo (column : Nat) : String :=
  "\n" ++ String.ofList (List.replicate (column - 1) ' ')

namespace Expr

mutual

/-- The canonical text of an expression, but with the options of each `case` on lines of their
own. -/
def indented (indentation : Indentation) : Expr → String
  | boolean _ value => toString value
  | integer _ value => toString value
  | identifier _ name => name
  | condition _ test yes no =>
    "(if " ++ test.indented (indentation.child 0) ++ " then " ++
      yes.indented (indentation.child 1) ++ " else " ++ no.indented (indentation.child 2) ++ ")"
  | binary _ op lhs rhs =>
    "(" ++ lhs.indented (indentation.child 0) ++ " " ++ op.text ++ " " ++
      rhs.indented (indentation.child 1) ++ ")"
  | lambda _ param body =>
    "(\\" ++ param.text ++ " -> " ++ body.indented (indentation.child 0) ++ ")"
  | apply _ func arg =>
    "(" ++ func.indented (indentation.child 0) ++ " " ++ arg.indented (indentation.child 1) ++ ")"
  | bind _ pattern value body =>
    "(let " ++ pattern.text ++ " = " ++ value.indented (indentation.child 0) ++ " in " ++
      body.indented (indentation.child 1) ++ ")"
  | cases _ subject options =>
    "(case " ++ subject.indented (indentation.child 0) ++ " of" ++
      indentedOptions indentation.column (indentation.child 1) options ++ ")"
  | tuple _ elems => "(" ++ indentedAll indentation elems ++ ")"
  | cons _ head tail =>
    "(" ++ head.indented (indentation.child 0) ++ " : " ++
      tail.indented (indentation.child 1) ++ ")"
  | nil _ => "[]"

/-- The texts of several expressions, with commas between them. -/
def indentedAll (indentation : Indentation) : List Expr → String
  | [] => ""
  | e :: es => e.indented (indentation.child 0) ++ indentedMore (indentation.child 1) es

/-- The texts of further expressions, with a comma in front of each. -/
def indentedMore (indentation : Indentation) : List Expr → String
  | [] => ""
  | e :: es =>
    ", " ++ e.indented (indentation.child 0) ++ indentedMore (indentation.child 1) es

/-- The texts of options, each on a line of its own that starts in the column. -/
def indentedOptions (column : Nat) (indentation : Indentation) :
    List (Pattern × Expr) → String
  | [] => ""
  | (p, e) :: options =>
    lineTo column ++ p.text ++ " -> " ++ e.indented (indentation.child 0) ++
      indentedOptions column (indentation.child 1) options

end

mutual

/-- Every block with options stands to the right of the block around it, which has the column
`enclosing`. -/
def Fits (enclosing : Nat) (indentation : Indentation) : Expr → Prop
  | boolean _ _ | integer _ _ | identifier _ _ | nil _ => True
  | condition _ test yes no =>
    test.Fits enclosing (indentation.child 0) ∧ yes.Fits enclosing (indentation.child 1) ∧
      no.Fits enclosing (indentation.child 2)
  | binary _ _ lhs rhs =>
    lhs.Fits enclosing (indentation.child 0) ∧ rhs.Fits enclosing (indentation.child 1)
  | lambda _ _ body => body.Fits enclosing (indentation.child 0)
  | apply _ func arg =>
    func.Fits enclosing (indentation.child 0) ∧ arg.Fits enclosing (indentation.child 1)
  | bind _ _ value body =>
    value.Fits enclosing (indentation.child 0) ∧ body.Fits enclosing (indentation.child 1)
  | cases _ subject options =>
    subject.Fits enclosing (indentation.child 0) ∧
      (options ≠ [] → enclosing < indentation.column) ∧
      FitsOptions indentation.column (indentation.child 1) options
  | tuple _ elems => FitsAll enclosing indentation elems
  | cons _ head tail =>
    head.Fits enclosing (indentation.child 0) ∧ tail.Fits enclosing (indentation.child 1)

/-- The blocks of all expressions do. -/
def FitsAll (enclosing : Nat) (indentation : Indentation) : List Expr → Prop
  | [] => True
  | e :: es => e.Fits enclosing (indentation.child 0) ∧ FitsAll enclosing (indentation.child 1) es

/-- The blocks inside of options do, which are inside of the block with the column `column`. -/
def FitsOptions (column : Nat) (indentation : Indentation) : List (Pattern × Expr) → Prop
  | [] => True
  | (_, e) :: options =>
    e.Fits column (indentation.child 0) ∧ FitsOptions column (indentation.child 1) options

end

end Expr

/-! ### The first token of a line -/

namespace Cursor

/-- Spaces in front of the cursor are skipped. -/
theorem next_spaces (n : Nat) (cs : List Char) (p : Position) :
    next ⟨List.replicate n ' ' ++ cs, p⟩ =
      next ⟨cs, p.advance (List.replicate n ' ')⟩ := by
  induction n generalizing p with
  | zero => rfl
  | succ n ih =>
    have hblank : isInlineBlank ' ' = true := by decide
    have hspace : next ⟨' ' :: (List.replicate n ' ' ++ cs), p⟩ =
        next ⟨List.replicate n ' ' ++ cs, p.after ' '⟩ := by
      simp [next, skipGap, skipWhile, skip, hblank]
    exact hspace.trans (ih (p.after ' '))

theorem next_newline (cs : List Char) (p : Position) :
    next ⟨'\n' :: cs, p⟩ = (.ok ⟨.newline, .point p⟩, ⟨cs, p.after '\n'⟩) := by
  have hblank : isInlineBlank '\n' = false := by decide
  have hcomment : startsComment ('\n' :: cs) = false :=
    startsComment_of_not_isOperatorChar (by decide)
  simp [next, skipGap, skipWhile, skip, hblank, hcomment, token]

end Cursor

/-- The characters start with a token, with no gap in front of it. -/
def IsSolid (cs : List Char) : Prop :=
  ∃ c ∈ cs.head?, Text.isBlank c = false ∧ Token.isOperatorChar c = false

theorem IsSolid.append {cs : List Char} (h : IsSolid cs) (rest : List Char) :
    IsSolid (cs ++ rest) := by
  obtain ⟨c, hc, hclass⟩ := h
  cases cs with
  | nil => cases hc
  | cons d cs => exact ⟨c, hc, hclass⟩

/-- **The first token of a line** stands in the column to which the line is indented. -/
theorem Spelled.next_indented {cs rest : List Char} {t : Token} (h : Spelled cs t rest)
    (hsolid : IsSolid cs) (n : Nat) (p : Position) :
    ∃ span q p', Cursor.next ⟨List.replicate n ' ' ++ cs, p⟩ = (.ok ⟨t, span⟩, ⟨rest, q⟩) ∧
      Cursor.next ⟨cs, p'⟩ = (.ok ⟨t, span⟩, ⟨rest, q⟩) ∧ span.start.column = p.column + n := by
  obtain ⟨span, q, hnext⟩ := h (p.advance (List.replicate n ' '))
  refine ⟨span, q, _, by rw [Cursor.next_spaces, hnext], hnext, ?_⟩
  -- there is no gap between the indentation and the token
  obtain ⟨c, hc, hblank, hoperator⟩ := hsolid
  cases cs with
  | nil => cases hc
  | cons d cs =>
    obtain rfl : d = c := by simpa using hc
    have hgap (p : Position) : Cursor.skipGap ⟨d :: cs, p⟩ = ⟨d :: cs, p⟩ := by
      simp [Cursor.skipGap, Cursor.skipWhile, Cursor.isInlineBlank, Cursor.skip, hblank,
        startsComment_of_not_isOperatorChar hoperator]
    rw [Cursor.next, hgap] at hnext
    have hstart : span.start = p.advance (List.replicate n ' ') := Cursor.start_of_token hnext
    rw [hstart, Position.column_advance (by simp), List.length_replicate]

/-! ### The laws of a new line -/

section Lines

variable {columns : List Nat} {column : Nat} {cs rest : List Char} {t : Token} {cues : List Cue}

theorem toList_lineTo (column : Nat) :
    (lineTo column).toList = '\n' :: List.replicate (column - 1) ' ' := by
  simp [lineTo]

theorem ends_lineTo (column : Nat) (rest : List Char) : Ends ((lineTo column).toList ++ rest) := by
  rw [toList_lineTo]
  intro c hc
  obtain rfl : '\n' = c := by simpa using hc
  decide

/-- The layout reads a new line up to its first token. -/
theorem Layout.next_line {s : Layout} (hq : s.queue = [])
    (hline : s.cursor.rest = (lineTo column).toList ++ cs) (hcolumn : 0 < column)
    (h : Spelled cs t rest) (hsolid : IsSolid cs) (hplain : t.isPlain = true) :
    ∃ span q p', span.start.column = column ∧
      Cursor.next ⟨cs, p'⟩ = (.ok ⟨t, span⟩, ⟨rest, q⟩) ∧
      s.next = (.ok ({ s with cursor := ⟨rest, q⟩, freshLine := true }.accept ⟨t, span⟩).dequeue.1,
        ({ s with cursor := ⟨rest, q⟩, freshLine := true }.accept ⟨t, span⟩).dequeue.2) := by
  obtain ⟨⟨ht, heof⟩, -⟩ : (t ≠ .newline ∧ t ≠ .eof) ∧ t ≠ .pipe := by
    simpa [Token.isPlain] using hplain
  obtain ⟨⟨_, p⟩, columns, queue, afterOf, freshLine⟩ := s
  obtain rfl := hline
  -- the blanks that indent the line bring the column, and the line break itself is dropped
  obtain ⟨span, q, p', hindented, hnext, hstart⟩ :=
    h.next_indented hsolid (column - 1) (p.after '\n')
  have hcolumn' : span.start.column = column := by
    rw [hstart, Position.after, if_pos rfl]
    simp only
    omega
  refine ⟨span, q, p', hcolumn', hnext, ?_⟩
  have hnewline : Cursor.next ⟨(lineTo column).toList ++ cs, p⟩ = (.ok ⟨.newline, .point p⟩,
      ⟨List.replicate (column - 1) ' ' ++ cs, p.after '\n'⟩) := by
    rw [toList_lineTo, List.cons_append, Cursor.next_newline]
  rw [next_of_newline hq hnewline rfl]
  exact next_of_token (s := ⟨⟨_, _⟩, columns, queue, afterOf, true⟩) hq hindented ht heof

/-- The characters can follow the indentation of a line: they start with a token that comes through
the layout as it is. -/
structure StartsLine (columns : List Nat) (cs : List Char) (cues : List Cue) : Prop where
  hands : Hands columns cs cues
  solid : IsSolid cs
  first : ∃ t rest, Spelled cs t rest ∧ t.isPlain = true

/-- **A line in the column of the innermost block** starts a new item. -/
theorem hands_line (hcolumn : 0 < column) (h : StartsLine (column :: columns) cs cues) :
    Hands (column :: columns) ((lineTo column).toList ++ cs) (.token .blockDelim :: cues) := by
  obtain ⟨hrest, hsolid, t, rest, h, hplain⟩ := h
  have hle := hrest.length_le
  refine ⟨?_, by simp only [toList_lineTo, List.length_append, List.length_cons] at hle ⊢; omega⟩
  rintro ⟨⟨cursor, columns', queue, afterOf, freshLine⟩, lookahead⟩
    ⟨hfresh, rfl, rfl, hline, rfl, rfl⟩
  obtain ⟨span, q, p', hstart, hcursor, hnext⟩ :=
    Layout.next_line (s := ⟨cursor, column :: columns, [], false, freshLine⟩) rfl hline hcolumn h
      hsolid hplain
  refine ⟨span, _, TokenStream.peek_of_next rfl ?_, hrest.yields_waiting hcursor hplain⟩
  rw [hnext]
  -- the block goes on in its column
  have hpipe : t ≠ .pipe := by
    rintro rfl
    simp [Token.isPlain] at hplain
  simp [Layout.accept, Layout.goOn, Layout.align, Layout.mark, Layout.enqueue, Layout.dequeue,
    hstart, hpipe]

/-- **The first option of a block on a line of its own** opens the block in its column, to the right
of the block around it. -/
theorem hands_of_line {cs' : List Char}
    (h : Spelled cs (.keyword .ofWord) ((lineTo column).toList ++ cs'))
    (hcolumn : columns.headD 0 < column) (hline : StartsLine (column :: columns) cs' cues) :
    Hands columns cs (.token (.keyword .ofWord) :: .token .blockBegin :: cues) := by
  obtain ⟨hrest, hsolid, t, rest, ht, hplain⟩ := hline
  have hlength := h.length_lt (by simp)
  have hle := hrest.length_le
  refine ⟨fun s hs => ?_, ?_⟩
  · obtain ⟨span, layout, hpeek, hstands⟩ := hs.peek_token h (by simp) (by simp) (by simp)
    refine ⟨span, _, hpeek, ?_⟩
    obtain ⟨cursor, columns', queue, afterOf, freshLine⟩ := layout
    obtain ⟨-, -, rfl, hline, rfl, rfl⟩ := hstands
    obtain ⟨span', q, p', hstart, hcursor, hnext⟩ :=
      Layout.next_line (s := ⟨cursor, columns', [], true, freshLine⟩) rfl hline
        (Nat.zero_lt_of_lt hcolumn) ht hsolid hplain
    refine ⟨span', _, TokenStream.peek_of_next rfl ?_, hrest.yields_waiting hcursor hplain⟩
    -- the line is indented, so that the block has items
    have hopens : ¬ column ≤ columns'.head?.getD 0 := by
      rw [← List.headD_eq_head?_getD]
      exact Nat.not_le.mpr hcolumn
    rw [Token.opensBlock, hnext]
    simp [Layout.accept, Layout.opensNothing, Layout.openBlock, Layout.mark, Layout.enqueue,
      Layout.dequeue, hstart, hopens]
  · simp only [toList_lineTo, List.length_append, List.length_cons] at hle hlength ⊢
    omega

end Lines

/-! ### The indented text of an expression -/

/-- The text of a printable pattern starts with its first token. -/
theorem Pattern.isSolid_text (p : Pattern) (h : p.Printable) : IsSolid p.text.toList := by
  have hsolid (c : Char) (cs : List Char)
      (hc : Text.isBlank c = false ∧ Token.isOperatorChar c = false) : IsSolid (c :: cs) :=
    ⟨c, rfl, hc⟩
  -- a name starts with a letter, a number with a digit, and everything else with a fixed character
  cases p with
  | bind _ name =>
    obtain ⟨-, c, cs, hname, hc, -⟩ := (isName_iff name).1 h
    rw [text, hname]
    exact hsolid c cs ⟨(class_of_startsWord hc).2.2.2, (class_of_startsWord hc).1⟩
  | wildcard _ => simpa [text] using hsolid '_' [] (by decide)
  | integer _ value =>
    obtain ⟨n, rfl⟩ := Int.eq_ofNat_of_zero_le h.1
    have htext : (toString (n : Int)).toList = Nat.toDigits 10 n := by
      show (toString n).toList = _
      rw [Nat.toString_eq_repr, Nat.toList_repr]
    obtain ⟨c, cs, hlist⟩ := List.exists_cons_of_ne_nil (Nat.toDigits_ne_nil (n := n) (b := 10))
    have hc : c.isDigit = true :=
      Nat.isDigit_of_mem_toDigits (by decide) (by decide) (hlist ▸ List.mem_cons_self)
    rw [text, htext, hlist]
    exact hsolid c cs ⟨(class_of_isDigit hc).2.2, (class_of_isDigit hc).1⟩
  | boolean _ value =>
    cases value with
    | false =>
      rw [text, show (toString false).toList = ['f', 'a', 'l', 's', 'e'] from rfl]
      exact hsolid 'f' _ (by decide)
    | true =>
      rw [text, show (toString true).toList = ['t', 'r', 'u', 'e'] from rfl]
      exact hsolid 't' _ (by decide)
  | tuple _ elems => simpa [text] using hsolid '(' _ (by decide)
  | cons _ head tail => simpa [text] using hsolid '(' _ (by decide)
  | nil _ => simpa [text] using hsolid '[' [']'] (by decide)

/-- **An option can start a line.** -/
theorem startsLine_option {columns : List Nat} {p : Pattern} (hp : p.Printable)
    {cs rest : List Char} {cues more : List Cue} (hbody : Writes columns cs cues)
    (hends : Ends rest) (hrest : Hands columns rest more) :
    StartsLine columns (p.text.toList ++ " -> ".toList ++ cs ++ rest)
      (p.cues ++ .token .arrow :: cues ++ more) := by
  have htext : p.text.toList ++ " -> ".toList ++ cs ++ rest =
      p.text.toList ++ ' ' :: ('-' :: '>' :: ' ' :: (cs ++ rest)) := by
    simp
  refine ⟨writes_arrow (p.writes_text hp columns) hbody rest more hends hrest, ?_, ?_⟩
  · rw [htext]
    exact (p.isSolid_text hp).append _
  · rw [htext]
    exact p.exists_spelled_text hp (ends_space _)

namespace Expr

mutual

/-- **The indented text of a printable expression** is that of its cues, inside of blocks to the
right of which its own blocks stand. -/
theorem writes_indented (e : Expr) (h : e.Printable) {columns : List Nat}
    {indentation : Indentation} (hfits : e.Fits (columns.headD 0) indentation) :
    Writes columns (e.indented indentation).toList e.cues := by
  match e with
  | boolean _ value => exact writes_boolean
  | integer _ value => exact writes_integer h.1 h.2
  | identifier _ name => exact writes_name h
  | condition _ test yes no =>
    simpa [indented, cues] using writes_condition (writes_indented test h.1 hfits.1)
      (writes_indented yes h.2.1 hfits.2.1) (writes_indented no h.2.2 hfits.2.2)
  | binary _ op lhs rhs =>
    simpa [indented, cues] using
      writes_binary op (writes_indented lhs h.1 hfits.1) (writes_indented rhs h.2 hfits.2)
  | lambda _ param body =>
    simpa [indented, cues] using
      writes_lambda (param.writes_text h.1 columns) (writes_indented body h.2 hfits)
  | apply _ func arg =>
    have hwrites := ((writes_indented func h.1 hfits.1).beside
      (writes_indented arg h.2 hfits.2)).parens
    simpa [indented, cues] using hwrites
  | bind _ pattern value body =>
    simpa [indented, cues] using writes_bind (pattern.writes_text h.1 columns)
      (writes_indented value h.2.1 hfits.1) (writes_indented body h.2.2 hfits.2)
  -- only here does the indentation matter: the options stand in a block of their own column
  | cases _ subject options =>
    have hcase : Writes columns ['c', 'a', 's', 'e'] [.token (.keyword .caseWord)] :=
      writes_spelling _ (by decide) rfl
    have hsubject := hcase.beside (writes_indented subject h.1 hfits.1)
    intro rest more hends hrest
    have hblock : Hands columns
        (['o', 'f'] ++ ((indentedOptions indentation.column (indentation.child 1) options).toList ++
          ')' :: rest))
        (.token (.keyword .ofWord) :: .token .blockBegin ::
          (Cue.separated .blockDelim true (cuesOptions options) ++
            .close :: .token .parenRight :: more)) := by
      match options with
      -- a case without options has an empty block
      | [] => exact @hands_textOptions [] _ _ _ (by simp) (by simp) hrest
      | (p, e) :: options =>
        have hcolumn : columns.headD 0 < indentation.column := hfits.2.1 (by simp)
        obtain ⟨hends', hmore⟩ := hands_indentedOptions options h.2.2.2
          (Nat.zero_lt_of_lt hcolumn) hfits.2.2.2 (ends_parenRight rest)
          (hands_blockClose hrest indentation.column)
        have hbody : Writes (indentation.column :: columns) _ e.cues :=
          writes_indented e h.2.2.1 hfits.2.2.1
        have hline := startsLine_option h.2.1 hbody hends' hmore
        have hof (cs : List Char) :
            Spelled (['o', 'f'] ++ ((lineTo indentation.column).toList ++ cs))
              (.keyword .ofWord) ((lineTo indentation.column).toList ++ cs) :=
          spelled_of_isSpelling (by decide) (ends_lineTo indentation.column cs)
        simpa [indentedOptions, cuesOptions, Cue.separated] using
          hands_of_line (hof _) hcolumn hline
    have hhands := hands_bracket '(' (t := .parenLeft) (by decide) (by decide) (by decide)
      (hsubject _ _ (ends_space _) (hands_space hblock))
    simpa [indented, cues, Cue.parens] using hhands
  | tuple _ elems =>
    have hwrites := (writes_indentedAll elems h.2 hfits).parens
    simpa [indented, cues] using hwrites
  | cons _ head tail =>
    simpa [indented, cues] using
      writes_cons (writes_indented head h.1 hfits.1) (writes_indented tail h.2 hfits.2)
  | nil _ => simpa [indented, cues] using writes_brackets

theorem writes_indentedAll (es : List Expr) (h : PrintableAll es) {columns : List Nat}
    {indentation : Indentation} (hfits : FitsAll (columns.headD 0) indentation es) :
    Writes columns (indentedAll indentation es).toList
      (Cue.separated .comma true (cuesAll es)) := by
  match es with
  | [] => exact fun rest more _ hrest => hrest
  | e :: es =>
    intro rest more hends hrest
    obtain ⟨hends', hmore⟩ := hands_indentedMore es h.2 hfits.2 hends hrest
    simpa [indentedAll, cuesAll, Cue.separated] using
      writes_indented e h.1 hfits.1 _ _ hends' hmore

theorem hands_indentedMore (es : List Expr) (h : PrintableAll es) {columns : List Nat}
    {indentation : Indentation} (hfits : FitsAll (columns.headD 0) indentation es)
    {rest : List Char} {more : List Cue} (hends : Ends rest) (hrest : Hands columns rest more) :
    Ends ((indentedMore indentation es).toList ++ rest) ∧
      Hands columns ((indentedMore indentation es).toList ++ rest)
        (Cue.separated .comma false (cuesAll es) ++ more) := by
  match es with
  | [] => exact ⟨hends, hrest⟩
  | e :: es =>
    obtain ⟨hends', hmore⟩ := hands_indentedMore es h.2 hfits.2 hends hrest
    have hitem := writes_indented e h.1 hfits.1 _ _ hends' hmore
    have hcomma := hands_bracket ',' (t := .comma) (by decide) (by decide) (by decide)
      (hands_space hitem)
    refine ⟨?_, by simpa [indentedMore, cuesAll, Cue.separated] using hcomma⟩
    simpa [indentedMore] using ends_cons (c := ',') (by simp) _

/-- **The options of a block**, each on a line that starts in its column. -/
theorem hands_indentedOptions (options : List (Pattern × Expr)) (h : PrintableOptions options)
    {column : Nat} (hcolumn : 0 < column) {columns : List Nat} {indentation : Indentation}
    (hfits : FitsOptions column indentation options) {rest : List Char} {more : List Cue}
    (hends : Ends rest) (hrest : Hands (column :: columns) rest more) :
    Ends ((indentedOptions column indentation options).toList ++ rest) ∧
      Hands (column :: columns) ((indentedOptions column indentation options).toList ++ rest)
        (Cue.separated .blockDelim false (cuesOptions options) ++ more) := by
  match options with
  | [] => exact ⟨hends, hrest⟩
  | (p, e) :: options =>
    obtain ⟨hends', hmore⟩ := hands_indentedOptions options h.2.2 hcolumn hfits.2 hends hrest
    have hbody : Writes (column :: columns) _ e.cues := writes_indented e h.2.1 hfits.1
    have hline := startsLine_option h.1 hbody hends' hmore
    refine ⟨?_, ?_⟩
    · simpa [indentedOptions] using ends_lineTo column _
    · simpa [indentedOptions, cuesOptions, Cue.separated] using hands_line hcolumn hline

end

/-- **Blocks by indentation mean the same as blocks on one line.**  A printable expression is read
back from its indented text, up to spans, whatever columns its blocks have, as long as each block
with options stands to the right of the block around it. -/
theorem parse_indented (e : Expr) (h : e.Printable) (indentation : Indentation)
    (hfits : e.Fits 0 indentation) :
    ∃ e', parse (e.indented indentation) = .ok e' ∧ e.same e' = true := by
  apply exists_parse_of_hands h
  have hwrites : Writes [] _ e.cues := writes_indented e h hfits
  simpa using hwrites [] _ ends_nil hands_eof

/-- A block inside of an option stands further to the right, one in a subject need not:
```text
(case (case x of
   [] -> 0
   y -> 1) of
 0 -> (case y of
        _ -> (case 1 of)))
```
-/
theorem parse_indented_nested :
    let inner : Expr := .cases .unknown (.identifier .unknown "x")
      [(.nil .unknown, .integer .unknown 0), (.bind .unknown "y", .integer .unknown 1)]
    let body : Expr := .cases .unknown (.identifier .unknown "y")
      [(.wildcard .unknown, .cases .unknown (.integer .unknown 1) [])]
    let e : Expr := .cases .unknown inner [(.integer .unknown 0, body)]
    let indentation : Indentation := fun place =>
      if place = [] then 2 else if place = [0] then 4 else 9
    (e.Printable ∧ e.Fits 0 indentation ∧
      e.indented indentation = "(case (case x of\n   [] -> 0\n   y -> 1) of\n 0 -> (case y of\n" ++
        "        _ -> (case 1 of)))") ∧
      ∃ e', parse (e.indented indentation) = .ok e' ∧ e.same e' = true := by
  intro inner body e indentation
  have hx : IsName "x" := (isName_iff "x").2 ⟨by decide, 'x', [], rfl, by decide, by simp⟩
  have hy : IsName "y" := (isName_iff "y").2 ⟨by decide, 'y', [], rfl, by decide, by simp⟩
  have h : e.Printable := by
    simp [e, inner, body, Printable, PrintableOptions, Pattern.Printable, hx, hy, Token.maxInteger]
  have hfits : e.Fits 0 indentation := by
    simp [e, inner, body, indentation, Fits, FitsOptions, Indentation.column, Indentation.child]
  exact ⟨⟨h, hfits, by decide +kernel⟩, parse_indented e h indentation hfits⟩

end Expr

end CallByNeed

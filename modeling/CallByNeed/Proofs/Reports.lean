import CallByNeed.Proofs.Congruence.Programs
import CallByNeed.Proofs.Reports.Lines
import CallByNeed.Proofs.Spans

/-!
# Reports

A report quotes the lines that an error covers, each with a line of carets under it (`Row`).  For
the errors of a run these are the right lines, and the carets stand under what the error covers
(`Program.report_of_run`).

The errors of the lexer and the parser are at spots of the text, and those of an evaluation at parts
of the program, which are fragments of the text (`Program.isSpot_of_runWith`).  Such spans lie
within their lines (`Span.IsSpot.fits`), so that nothing is cut off when the carets are counted.
-/

namespace CallByNeed

/-! ### Where a run can fail -/

/-- **The errors of a run are at spots of its text**, or nowhere. -/
theorem Program.isSpot_of_runWith {table : OperatorTable} {config : Config} {source : String}
    {e : Error} (h : runWith table config source = .error e) (hspan : e.span ≠ .unknown) :
    e.span.IsSpot source := by
  unfold runWith at h
  split at h
  · -- an error of the parser has a span from the text
    rename_i err hparse
    obtain rfl : Error.parse err = e := by simpa using h
    exact (Expr.stands_of_parseWith hparse).2
  · -- an error of the evaluation has the span of a node, and nodes have spans from the text
    rename_i program hparse
    split at h
    · rename_i err hevaluate
      obtain rfl : Error.eval err = e := by simpa using h
      unfold Expr.evaluate at hevaluate
      split at hevaluate
      · rcases Expr.span_of_valueText hevaluate with hunknown | ⟨n, hn, hnode⟩
        · exact absurd hunknown hspan
        · obtain ⟨f, hf⟩ := Expr.exists_fragment_of_within hparse hn
          exact .inl ⟨f, hf.trans hnode⟩
      · obtain rfl : _ = err := by simpa using hevaluate
        exact absurd rfl hspan
    · simp at h

/-! ### Quotations -/

namespace Span

/-- The first column that a span covers on a line: where it starts, if it starts there. -/
def firstColumn (span : Span) (number : Nat) : Nat :=
  if number = span.start.line then span.start.column else 1

/-- The last column that a span covers on a line with `length` characters: where it ends, if it ends
there. -/
def lastColumn (span : Span) (number length : Nat) : Nat :=
  if number = span.stop.line then span.stop.column else length

end Span

/-- A quoted line, and the marks under it, behind the gutter. -/
structure Row where
  number : Nat
  line : String
  marks : String

namespace Row

/-- The line with its number, right-aligned in four columns, and the marks under it. -/
def text (r : Row) : String :=
  String.ofList (List.leftpad 4 ' ' (toString r.number).toList) ++ " | " ++ r.line ++ "\n" ++
    "     | " ++ r.marks ++ "\n"

/-- The marks are carets under the columns that the span covers, and blanks in front of these. -/
structure Underlines (r : Row) (span : Span) : Prop where
  caret : ∀ k, r.marks.toList[k]? = some '^' ↔
    span.firstColumn r.number ≤ k + 1 ∧ k + 1 ≤ span.lastColumn r.number r.line.length
  blank : ∀ k c, r.marks.toList[k]? = some c → c ≠ '^' →
    c = ' ' ∧ k + 1 < span.firstColumn r.number

end Row

/-- The rows quote the lines of the text from the start of the span to its end, underline what it
covers, and show a caret under the first line. -/
structure Quotes (source : String) (span : Span) (rows : List Row) : Prop where
  numbers : rows.map Row.number =
    List.range' span.start.line (span.stop.line + 1 - span.start.line)
  lines : ∀ r ∈ rows, (Text.lines source)[r.number - 1]? = some r.line
  underlines : ∀ r ∈ rows, r.Underlines span
  caret : ∃ r ∈ rows.head?, '^' ∈ r.marks.toList

namespace Span

variable {span : Span} {source : String}

/-- The row of a line. -/
def row (span : Span) (number : Nat) (line : String) : Row where
  number := number
  line := line
  marks := Error.copies (span.firstColumn number - 1) ' ' ++
    Error.copies (span.lastColumn number line.length + 1 - span.firstColumn number) '^'

/-- The rows of the lines of a text, from that with the given number on. -/
def rows (span : Span) (lines : List String) (number : Nat) : List Row :=
  (lines.zipIdx number).map fun (line, number) => span.row number line

theorem firstColumn_pos (h : 1 ≤ span.start.column) (number : Nat) :
    1 ≤ span.firstColumn number := by
  unfold firstColumn
  split
  · exact h
  · exact Nat.le_refl 1

/-- What stands under a column. -/
theorem getElem?_marks (h : 1 ≤ span.start.column) (number : Nat) (line : String) (k : Nat) :
    (span.row number line).marks.toList[k]? =
      if k + 1 < span.firstColumn number then some ' '
      else if k + 1 ≤ span.lastColumn number line.length then some '^' else none := by
  have hmarks : (span.row number line).marks.toList =
      List.replicate (span.firstColumn number - 1) ' ' ++
        List.replicate (span.lastColumn number line.length + 1 - span.firstColumn number) '^' := by
    simp [row, Error.copies]
  have hpos := firstColumn_pos h number
  rw [hmarks, List.getElem?_append, List.getElem?_replicate, List.getElem?_replicate,
    List.length_replicate]
  by_cases hlt : k + 1 < span.firstColumn number
  · have hblank : k < span.firstColumn number - 1 := by omega
    rw [if_pos hlt, if_pos hblank, if_pos hblank]
  · have hcaret : ¬ k < span.firstColumn number - 1 := by omega
    rw [if_neg hlt, if_neg hcaret]
    refine if_congr ?_ rfl rfl
    omega

/-- **The marks of a line** are carets under the covered columns. -/
theorem underlines_row (h : 1 ≤ span.start.column) (number : Nat) (line : String) :
    (span.row number line).Underlines span := by
  constructor
  · intro k
    rw [getElem?_marks h]
    show _ ↔ span.firstColumn number ≤ k + 1 ∧ k + 1 ≤ span.lastColumn number line.length
    split
    · simp
      omega
    · split <;> simp <;> omega
  · intro k c hc hne
    rw [getElem?_marks h] at hc
    split at hc
    · rename_i hlt
      exact ⟨by simpa using hc.symm, hlt⟩
    · split at hc
      · exact absurd (by simpa using hc.symm) hne
      · cases hc

/-- **The text of a row** is the quoted line, and the line of carets under it. -/
theorem text_row (number : Nat) (line : String) :
    (span.row number line).text = Error.quotedLine number line ++
      Error.caretLine (span.firstColumn number) (span.lastColumn number line.length) := by
  have hnumber : String.ofList (List.leftpad 4 ' ' (toString number).toList) =
      Error.lineNumber number := by
    rw [List.leftpad, String.ofList_append, String.ofList_toList, String.length_toList]
    rfl
  unfold Row.text Error.quotedLine Error.caretLine
  rw [← hnumber]
  simp only [row, String.append_assoc]

/-- On a line that a span of several lines starts on or goes on to, it covers these columns. -/
theorem coveredColumns_eq {number length : Nat} (hlt : span.start.line < span.stop.line)
    (hstart : number = span.start.line → span.start.column ≤ length) :
    Error.coveredColumns span number length =
      (span.firstColumn number, span.lastColumn number length) := by
  unfold Error.coveredColumns firstColumn lastColumn
  by_cases hnumber : number = span.start.line
  · have hne : number ≠ span.stop.line := by omega
    rw [if_pos hnumber, if_pos hnumber, if_neg hne, Nat.max_eq_left (hstart hnumber)]
  · rw [if_neg hnumber, if_neg hnumber]
    split <;> rfl

/-- **The quoted lines of a span of several lines** are the texts of their rows. -/
theorem quotedLines_eq (hlt : span.start.line < span.stop.line) {number : Nat}
    {lines : List String} (hstart : ∀ line ∈ lines.head?, number = span.start.line →
      span.start.column ≤ line.length) (hle : span.start.line ≤ number) :
    Error.quotedLines span number lines = String.join ((span.rows lines number).map Row.text) := by
  induction lines generalizing number with
  | nil => rfl
  | cons line lines ih =>
    have hrest : Error.quotedLines span (number + 1) lines = _ :=
      ih (fun _ _ h => by omega) (by omega)
    have hcovered := coveredColumns_eq hlt (hstart line rfl)
    rw [Error.quotedLines, hcovered, hrest]
    show _ =
      String.join ((span.row number line).text :: (span.rows lines (number + 1)).map Row.text)
    rw [String.join_cons, text_row]

/-! ### Quoting what a span covers -/

/-- The lines of a text that a span covers. -/
def quoted (span : Span) (source : String) : List String :=
  ((Text.lines source).drop (span.start.line - 1)).take (span.stop.line - span.start.line + 1)

theorem getElem?_of_quoted {i : Nat} {line : String} (h : (span.quoted source)[i]? = some line) :
    (Text.lines source)[span.start.line - 1 + i]? = some line := by
  rw [quoted, List.getElem?_take] at h
  split at h
  · rwa [List.getElem?_drop] at h
  · cases h

section Quoted

variable (hfits : span.Fits (Text.lines source))

include hfits

/-- The first one of several lines reaches to where the span starts. -/
theorem column_le_first {line : String} (h : (span.quoted source).head? = some line)
    (hlt : span.start.line < span.stop.line) : span.start.column ≤ line.length := by
  rw [List.head?_eq_getElem?] at h
  obtain ⟨first, hfirst, hle⟩ := hfits.first hlt
  obtain rfl : line = first := Option.some.inj ((getElem?_of_quoted h).symm.trans hfirst)
  exact hle

/-- **The first line shows a caret**, where the span starts. -/
theorem mem_marks_first {line : String} (h : (span.quoted source).head? = some line) :
    '^' ∈ (span.row span.start.line line).marks.toList := by
  have hpos := hfits.column_pos
  have hcovered : span.start.column ≤ span.lastColumn span.start.line line.length := by
    unfold lastColumn
    split
    · rename_i hsame
      exact hfits.column_le hsame
    · rename_i hne
      exact column_le_first hfits h (Nat.lt_of_le_of_ne hfits.line_le hne)
  refine List.mem_of_getElem? (i := span.start.column - 1) ?_
  rw [(underlines_row hpos span.start.line line).caret]
  show span.firstColumn span.start.line ≤ _ ∧ _ ≤ span.lastColumn span.start.line line.length
  rw [firstColumn, if_pos rfl]
  omega

variable (hline : span.start.line ≤ (Text.lines source).length)

include hline

/-- **The lines are all there** if the first one is. -/
theorem length_quoted :
    (span.quoted source).length = span.stop.line + 1 - span.start.line := by
  have hle := hfits.line_le
  have hpos := hfits.line_pos
  have hstop : span.stop.line ≤ (Text.lines source).length := by
    rcases Nat.eq_or_lt_of_le hle with hsame | hlt
    · omega
    · obtain ⟨line, hlast, -⟩ := hfits.last hlt
      have hindex := (List.getElem?_eq_some_iff.1 hlast).1
      omega
  rw [quoted, List.length_take, List.length_drop]
  omega

theorem exists_quoted : ∃ line more, span.quoted source = line :: more := by
  refine List.exists_cons_of_ne_nil fun hnil => ?_
  have hlength := length_quoted hfits hline
  have hle := hfits.line_le
  rw [hnil, List.length_nil] at hlength
  omega

/-- **The rows of what a span covers quote it.** -/
theorem quotes_rows : Quotes source span (span.rows (span.quoted source) span.start.line) where
  numbers := by
    rw [rows, List.map_map, ← length_quoted hfits hline, ← List.zipIdx_map_snd]
    rfl
  lines := by
    -- the rows are the lines of the text, counted from the line in which the span starts
    intro r hr
    obtain ⟨⟨line, number⟩, hmem, rfl⟩ := List.mem_map.1 hr
    obtain ⟨hle, hget⟩ := List.mem_zipIdx_iff_le_and_getElem?_sub.1 hmem
    dsimp only at hle hget
    have hpos := hfits.line_pos
    have hindex : span.start.line - 1 + (number - span.start.line) = number - 1 := by omega
    have hquoted := getElem?_of_quoted hget
    rwa [hindex] at hquoted
  underlines := by
    intro r hr
    obtain ⟨⟨line, number⟩, -, rfl⟩ := List.mem_map.1 hr
    exact underlines_row hfits.column_pos number line
  -- the first row has a caret, since the span covers the column in which it starts
  caret := by
    obtain ⟨line, more, hquoted⟩ := exists_quoted hfits hline
    refine ⟨span.row span.start.line line, ?_, mem_marks_first hfits ?_⟩
    · rw [hquoted]
      rfl
    · rw [hquoted]
      rfl

/-- **The excerpt is made of the rows** of what the span covers. -/
theorem excerpt_eq :
    Error.excerpt span source = "     | \n" ++
      String.join ((span.rows (span.quoted source) span.start.line).map Row.text) := by
  have hlength := length_quoted hfits hline
  have hle := hfits.line_le
  have hfirst := @column_le_first span source hfits
  obtain ⟨line, more, hquoted⟩ := exists_quoted hfits hline
  unfold Error.excerpt
  dsimp only
  rw [← quoted, hquoted]
  rw [hquoted, List.length_cons] at hlength
  cases more with
  | nil =>
    -- a span of one line, which is printed by a case of its own
    have hsame : span.start.line = span.stop.line := by
      rw [List.length_nil] at hlength
      omega
    have hcolumns : Error.caretLine span.start.column (max span.stop.column span.start.column) =
        Error.caretLine (span.firstColumn span.start.line)
          (span.lastColumn span.start.line line.length) := by
      rw [firstColumn, lastColumn, if_pos rfl, if_pos hsame,
        Nat.max_eq_left (hfits.column_le hsame)]
    show "     | \n" ++ Error.quotedLine span.start.line line ++
      Error.caretLine span.start.column (max span.stop.column span.start.column) =
        _ ++ String.join [(span.row span.start.line line).text]
    rw [String.join_cons, String.join_nil, String.append_empty, text_row, hcolumns,
      String.append_assoc]
  | cons next more =>
    have hlt : span.start.line < span.stop.line := by
      rw [List.length_cons] at hlength
      omega
    dsimp only
    rw [quotedLines_eq hlt _ (Nat.le_refl _)]
    intro first hhead _
    exact hfirst (by rw [hquoted]; exact hhead) hlt

end Quoted

end Span

/-! ### Reports -/

/-- The header of a report of an error that is somewhere. -/
theorem Error.header_eq {e : Error} (h : 1 ≤ e.span.start.line) (name : String) :
    e.header name = name ++ ":" ++ toString e.span.start.line ++ ":" ++
      toString e.span.start.column ++ ": " ++ e.kind ++ ": " ++ e.message ++ "\n" := by
  unfold header Span.text
  rw [if_neg (Nat.ne_of_gt h)]
  simp only [String.append_assoc]

namespace Program

/-- **Reports quote and underline the right source.**  The report of an error that a run ends with,
if the error is somewhere in the text and more text could not undo it, starts with the name of the
text, the place of the error, its kind and its message.  If the text has the line in which the error
starts, the report goes on with the lines from there to the end of the error, each with carets under
just the columns that the error covers; if not, nothing follows.  No subtraction on the way is cut
off at zero. -/
theorem report_of_run {config : Config} {source : String} {e : Error}
    (h : run config source = .error e) (hspan : e.span ≠ .unknown)
    (hcomplete : e.isIncomplete = false) (name : String) :
    let header := name ++ ":" ++ toString e.span.start.line ++ ":" ++
      toString e.span.start.column ++ ": " ++ e.kind ++ ": " ++ e.message ++ "\n"
    e.span.Fits (Text.lines source) ∧
      (e.span.start.line ≤ (Text.lines source).length → ∃ rows, Quotes source e.span rows ∧
        e.report name source = header ++ ("     | \n" ++ String.join (rows.map Row.text))) ∧
      ((Text.lines source).length < e.span.start.line → e.report name source = header) := by
  intro header
  have hfits := (isSpot_of_runWith h hspan).fits
  have hpos := hfits.line_pos
  have hreport : e.report name source = header ++ Error.excerpt e.span source := by
    have hshown : (decide (e.span.start.line > 0) && !e.isIncomplete) = true := by
      simpa [hcomplete] using Nat.lt_of_lt_of_le Nat.zero_lt_one hpos
    unfold Error.report
    rw [Error.header_eq hpos, if_pos hshown]
  refine ⟨hfits, fun hline => ?_, fun hline => ?_⟩
  · refine ⟨_, Span.quotes_rows hfits hline, ?_⟩
    rw [hreport, Span.excerpt_eq hfits hline]
  · -- the error starts behind the last line, so that there is nothing to quote
    have hnone : (Text.lines source).drop (e.span.start.line - 1) = [] := by
      rw [List.drop_eq_nil_iff]
      omega
    rw [hreport, Error.excerpt, hnone, List.take_nil, String.append_empty]

/-- A `case` of three lines without an option that matches, and an option without a body, behind
which the text ends with a newline. -/
theorem report_of_run_cases :
    let source := "case 3 of\r\n  1 -> 10\n  2 -> 20"
    let e : Error := .eval (.nonExhaustive ⟨⟨0, 1, 1⟩, ⟨30, 3, 9⟩⟩)
    let torn := "case 3 of 1 ->\n"
    let e' : Error := .parse (.unexpected "expression" ⟨.blockEnd, .point ⟨15, 2, 1⟩⟩)
    (run {} source = .error e ∧ e.span ≠ .unknown ∧ e.isIncomplete = false ∧
        ∃ rows, Quotes source e.span rows ∧ e.report "main.fun" source =
          "main.fun:1:1: evaluation error: non-exhaustive patterns in case\n" ++
            ("     | \n" ++ String.join (rows.map Row.text))) ∧
      run {} torn = .error e' ∧ e'.span ≠ .unknown ∧ e'.isIncomplete = false ∧
        e'.report "main.fun" torn =
          "main.fun:2:1: parse error: expected expression but got 'end of block'\n" := by
  intro source e torn e'
  have hrun : run {} source = .error e := by decide +kernel
  have hrun' : run {} torn = .error e' := by decide +kernel
  have hspan : e.span ≠ .unknown := by decide
  have hspan' : e'.span ≠ .unknown := by decide
  refine ⟨⟨hrun, hspan, rfl, ?_⟩, hrun', hspan', rfl, ?_⟩
  · obtain ⟨rows, hquotes, hreport⟩ :=
      (report_of_run hrun hspan rfl "main.fun").2.1 (by decide)
    refine ⟨rows, hquotes, hreport.trans (congrArg (· ++ _) ?_)⟩
    decide +kernel
  · refine ((report_of_run hrun' hspan' rfl "main.fun").2.2 (by decide)).trans ?_
    decide +kernel

end Program

end CallByNeed

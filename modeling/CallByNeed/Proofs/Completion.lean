import CallByNeed.Proofs.Completion.Parsers
import CallByNeed.Proofs.Grammar

/-!
# Incomplete texts

The parser calls an error incomplete if it met the end of the text where it expected more.  A text
that is refused goes one of three ways if it goes on behind a newline (`Expr.refused`).

* The error is not incomplete, and it stays, whatever the text goes on with.
* The error is incomplete, and some line completes the text (`Expr.exists_completion`).
* The text ends inside of the block of a `case`.  There the layout ends the block before it hands
  out the end of the text, and the parser fails on the end of the block.  The error is not
  incomplete, although a line can complete the text
  (`Expr.isIncomplete_or_blockEnd_of_completion`).
-/

namespace CallByNeed

open CallByNeed.Parser

/-! ### Whole texts -/

namespace TokenStream

theorem followedBy_ofString (text : String) (more : List Char) :
    (ofString text).followedBy more = ofString (text ++ "\n" ++ String.ofList more) := by
  simp [followedBy, Layout.followedBy, Cursor.followedBy, ofString, Layout.ofString,
    Cursor.ofString]

theorem size_le_append (text more : String) :
    (ofString text).size ≤ (ofString (text ++ "\n" ++ more)).size := by
  have hsize (text : String) : (ofString text).size = 5 * text.toList.length := rfl
  rw [hsize, hsize]
  simp only [String.toList_append, List.length_append]
  omega

theorem reading_ofString (text : String) : (ofString text).Reading text [] where
  layout := ⟨⟨[], Cursor.Passes.refl _⟩, by simp [ofString, Layout.ofString],
    by simp [ofString, Layout.ofString]⟩
  lookahead := by simp [ofString]
  inStep := inStep_ofString text

end TokenStream

namespace Expr

open CallByNeed.Expr.Parser (run_bind_ok run_bind_error)

variable {table : OperatorTable} {text more : String} {err : ParseError} {e : Expr}

theorem run_ne_exhausted (table : OperatorTable) (text : String) :
    (Parser.whole table ((TokenStream.ofString text).size + 1)).run (.ofString text) ≠
      .error .exhausted :=
  Parser.lasts_whole table _ _ (Nat.lt_succ_self _)

theorem parseWith_eq_error_iff : parseWith table text = .error err ↔
    (Parser.whole table ((TokenStream.ofString text).size + 1)).run (.ofString text) =
      .error (.error err) := by
  rw [parseWith]
  split
  · rename_i hrun
    simp [hrun]
  · rename_i hrun
    simp [hrun]
  · rename_i why hwhy hrun
    -- there is fuel enough, and blocks can be closed
    obtain ⟨err', rfl⟩ := error_of_run_whole (Nat.lt_succ_self _) hrun
    exact absurd rfl (hwhy err')

/-- There is fuel enough for a text. -/
theorem parseWith_eq_error_of_run
    (h : (Parser.whole table ((TokenStream.ofString text).size + 1)).run (.ofString text) =
        .error .exhausted ∨
      (Parser.whole table ((TokenStream.ofString text).size + 1)).run (.ofString text) =
        .error (.error err)) :
    parseWith table text = .error err := by
  rcases h with h | h
  · exact absurd h (run_ne_exhausted table text)
  · exact parseWith_eq_error_iff.2 h

theorem exists_parseWith_of_attains {Q : Expr → TokenStream → Prop}
    (h : Attains (Parser.whole table ((TokenStream.ofString text).size + 1)) (.ofString text) Q) :
    ∃ e, parseWith table text = .ok e := by
  rcases h with h | ⟨e, s, h, -⟩
  · exact absurd h (run_ne_exhausted table text)
  · exact ⟨e, parseWith_eq_ok_iff.2 ⟨s, h⟩⟩

/-- An error can be computed without the tree. -/
theorem eq_error_of_map {r : Except ParseError Expr}
    (h : (r.map fun _ => ()) = .error err) : r = .error err := by
  cases r with
  | ok e => simp [Except.map] at h
  | error e => simpa [Except.map] using h

theorem exists_of_isOk {r : Except ParseError Expr} (h : r.isOk = true) : ∃ e, r = .ok e := by
  cases r with
  | ok e => exact ⟨e, rfl⟩
  | error e => simp [Except.isOk, Except.toBool] at h

/-! ### Texts that are refused -/

/-- What can become of a text that is refused with an error. -/
inductive Refused (table : OperatorTable) (text : String) : ParseError → Prop where
  /-- The error stays, whatever the text goes on with. -/
  | final {err : ParseError} (herr : err.isIncomplete = false)
    (hmore : ∀ more, parseWith table (text ++ "\n" ++ more) = .error err) : Refused table text err
  /-- The text ends inside of a block, where the parser expects more. -/
  | inBlock (expected : String) :
    Refused table text (.unexpected expected ⟨.blockEnd, .point (.stop text)⟩)
  /-- The text ends outside of all blocks, where the parser expects more, which a line supplies. -/
  | incomplete {err : ParseError} (herr : err.isIncomplete = true) (more : String)
    (hmore : ∃ e, parseWith table (text ++ "\n" ++ more) = .ok e) : Refused table text err

/-- Behind an expression, at the end of the text, nothing is missing. -/
theorem Parser.run_whole_of_ended {fuel : Nat} {u u' : TokenStream}
    (h : (expr table fuel).run u = .ok (e, u')) (hended : u'.Ended text 0) :
    ∃ s, (whole table fuel).run u = .ok (e, s) := by
  obtain ⟨s, hpeek⟩ := hended
  have hend : (discard (expect .eof)).run u' = .ok ((), { s with lookahead := none }) :=
    run_bind_ok (run_expect hpeek rfl)
  exact ⟨_, (run_bind_ok h).trans (run_bind_ok hend)⟩

/-- Behind an expression, inside of the text, an error stays. -/
theorem Parser.run_whole_of_reading {m : Nat} {n : List Char → Nat} {u u' : TokenStream}
    (h : (expr table m).run u = .ok (e, u')) (hu' : u'.Reading text [])
    (hmore : ∀ more, Attains (expr table (n more)) (u.followedBy more) fun e' v =>
      e' = e ∧ v = u'.followedBy more)
    (herr : (whole table m).run u = .error (.error err)) :
    err.isIncomplete = false ∧ ∀ more,
      (whole table (n more)).run (u.followedBy more) = .error .exhausted ∨
        (whole table (n more)).run (u.followedBy more) = .error (.error err) := by
  -- what stands behind the expression is not the end: the error for that token is the one that
  -- stays
  have hstays {e' : ParseError} (hexpect : (expect .eof).run u' = .error (.error e'))
      (hexpect' : ∀ more, (expect .eof).run (u'.followedBy more) = .error (.error e')) :
      err = e' ∧ ∀ more, (whole table (n more)).run (u.followedBy more) = .error .exhausted ∨
        (whole table (n more)).run (u.followedBy more) = .error (.error e') := by
    have hwhole : (whole table m).run u = .error (.error e') :=
      (run_bind_ok h).trans (run_bind_error (run_bind_error hexpect))
    rw [hwhole] at herr
    refine ⟨by simpa using herr.symm, fun more => ?_⟩
    rcases hmore more with hmore | ⟨_, _, hmore, rfl, rfl⟩
    · exact .inl (run_bind_error hmore)
    · exact .inr ((run_bind_ok hmore).trans (run_bind_error (run_bind_error (hexpect' more))))
  cases hu'.sees with
  -- the text that follows cannot change a token that has been seen, nor an error of the lexer
  | error hpeek hpeek' =>
    obtain ⟨rfl, hmore⟩ := hstays (run_expect_of_error hpeek)
      fun more => run_expect_of_error (hpeek' more)
    exact ⟨rfl, hmore⟩
  | token hpeek heof _ hpeek' =>
    obtain ⟨rfl, hmore⟩ := hstays (run_expect_of_ne hpeek heof)
      fun more => run_expect_of_ne (hpeek' more) heof
    exact ⟨by simpa [ParseError.isIncomplete] using heof, hmore⟩
  | stop hended _ =>
    obtain ⟨s, hwhole⟩ := run_whole_of_ended h hended
    simp [hwhole] at herr

/-- **A text that is refused** goes one of three ways. -/
theorem refused (h : parseWith table text = .error err) : Refused table text err := by
  have hrun := parseWith_eq_error_iff.1 h
  let n (more : List Char) := (TokenStream.ofString (text ++ "\n" ++ String.ofList more)).size + 1
  have hn (more : List Char) : (TokenStream.ofString text).size + 1 ≤ n more :=
    Nat.add_le_add_right (TokenStream.size_le_append text (String.ofList more)) 1
  have hexpr : GoesOn text Filler.Closing [.one] [] []
      (Parser.expr table ((TokenStream.ofString text).size + 1))
      (fun more => Parser.expr table (n more)) := Parser.goesOn_expr hn
  have hfinal (herr : err.isIncomplete = false) (hmore : ∀ more,
      (Parser.whole table (n more)).run ((TokenStream.ofString text).followedBy more) =
          .error .exhausted ∨
        (Parser.whole table (n more)).run ((TokenStream.ofString text).followedBy more) =
          .error (.error err)) : Refused table text err := by
    refine .final herr fun more => parseWith_eq_error_of_run ?_
    have hmore := hmore more.toList
    rw [TokenStream.followedBy_ofString] at hmore
    simpa only [n, String.ofList_toList] using hmore
  cases hexpr.continues _ (TokenStream.reading_ofString text) with
  | exhausted hexpr => exact absurd (run_bind_error hexpr) (run_ne_exhausted table text)
  | reading hexpr hu' hmore =>
    obtain ⟨herr, hmore⟩ := Parser.run_whole_of_reading hexpr hu' hmore hrun
    exact hfinal herr hmore
  | @error err' hexpr herr hmore =>
    obtain rfl : err' = err := by simpa [Parser.whole, run_bind_error hexpr] using hrun
    exact hfinal herr fun more => (hmore more).imp run_bind_error run_bind_error
  | ended hexpr hu' _ =>
    obtain ⟨s, hwhole⟩ := Parser.run_whole_of_ended hexpr hu'
    simp [hwhole] at hrun
  | @inBlock expected hexpr =>
    obtain rfl : .unexpected expected _ = err := by
      simpa [Parser.whole, run_bind_error hexpr] using hrun
    exact .inBlock expected
  | @lacks expected fs hne _ hexpr hmore =>
    obtain rfl : .unexpected expected _ = err := by
      simpa [Parser.whole, run_bind_error hexpr] using hrun
    -- the fillers that supply what is missing, and nothing behind them
    obtain ⟨more, hspells⟩ := Filler.exists_spells text (hne Filler.closing_nil)
    have hattains := hmore more [] Filler.closing_nil (by rwa [List.append_nil])
    have hwhole : Attains (Parser.whole table (n more))
        ((TokenStream.ofString text).followedBy more) fun _ _ => True := by
      refine attains_bind hattains fun e v hv => .inr ?_
      refine runs_bind (runs_discard (runs_expect hv)) fun _ v _ => ?_
      exact runs_pure trivial
    rw [TokenStream.followedBy_ofString] at hwhole
    exact .incomplete rfl (String.ofList more) (exists_parseWith_of_attains hwhole)

/-- **Only the end of a block hides that a text can be completed.**  If some line completes a text,
then the error for the text is incomplete, or the parser has met the end of a block at the end of
the text. -/
theorem isIncomplete_or_blockEnd_of_completion (h : parseWith table text = .error err)
    (hmore : parseWith table (text ++ "\n" ++ more) = .ok e) :
    err.isIncomplete = true ∨
      ∃ expected, err = .unexpected expected ⟨.blockEnd, .point (.stop text)⟩ := by
  cases refused h with
  | final _ hfinal => simp [hfinal more] at hmore
  | inBlock expected => exact .inr ⟨expected, rfl⟩
  | incomplete herr => exact .inl herr

theorem isIncomplete_or_blockEnd_of_completion_let :
    ∃ err e, parseWith .standard "let x = 1" = .error err ∧
      parseWith .standard ("let x = 1" ++ "\n" ++ "in x") = .ok e ∧
        (err.isIncomplete = true ∨
          ∃ expected, err = .unexpected expected ⟨.blockEnd, .point (.stop "let x = 1")⟩) := by
  have herr : parseWith .standard "let x = 1" =
      .error (.unexpected "'in'" ⟨.eof, .point (.stop "let x = 1")⟩) :=
    eq_error_of_map (by decide +kernel)
  obtain ⟨e, he⟩ := exists_of_isOk (r := parseWith .standard ("let x = 1" ++ "\n" ++ "in x"))
    (by decide +kernel)
  exact ⟨_, e, herr, he, isIncomplete_or_blockEnd_of_completion herr he⟩

/-- The error for a text that a line completes need not be incomplete.  The option of this `case`
lacks its body:
```text
case x of 1 ->
            2
```
-/
theorem not_isIncomplete_of_completion :
    ¬ ∀ text more err e, parse text = .error err → parse (text ++ "\n" ++ more) = .ok e →
      err.isIncomplete = true := by
  intro h
  have herr : parse "case x of 1 ->" =
      .error (.unexpected "expression" ⟨.blockEnd, .point (.stop "case x of 1 ->")⟩) :=
    eq_error_of_map (by decide +kernel)
  obtain ⟨e, he⟩ := exists_of_isOk (r := parse ("case x of 1 ->" ++ "\n" ++ "            2"))
    (by decide +kernel)
  simpa [ParseError.isIncomplete] using h _ _ _ _ herr he

/-- **An incomplete text can be completed.** -/
theorem exists_completion (h : parseWith table text = .error err)
    (hincomplete : err.isIncomplete = true) :
    ∃ more e, parseWith table (text ++ "\n" ++ more) = .ok e := by
  cases refused h with
  | final herr => simp [herr] at hincomplete
  | inBlock expected => simp [ParseError.isIncomplete] at hincomplete
  | incomplete _ more hmore => exact ⟨more, hmore⟩

theorem exists_completion_parens :
    (∃ err, parseWith .standard "(1, 2" = .error err ∧ err.isIncomplete = true) ∧
      ∃ more e, parseWith .standard ("(1, 2" ++ "\n" ++ more) = .ok e := by
  have herr : parseWith .standard "(1, 2" =
      .error (.unexpected "','" ⟨.eof, .point (.stop "(1, 2")⟩) :=
    eq_error_of_map (by decide +kernel)
  exact ⟨⟨_, herr, rfl⟩, exists_completion herr rfl⟩

end Expr

end CallByNeed

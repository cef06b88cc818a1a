import CallByNeed.Proofs.Grammar.Completeness

/-!
# The language of the parser

Without `of`, the parser accepts exactly the texts whose tokens, newlines aside, the grammar derives
an expression from, and it yields that expression, of which there is at most one
(`Expr.parseWith_eq_ok_iff_isExpr`).  On the tokens of a text this is soundness and completeness of
the parser of expressions (`Expr.Parser.runOn_whole_iff`).  A text with a lexical error is not
accepted, since its end is never seen (`Expr.exists_tokenize_of_parseWith`).
-/

namespace CallByNeed

namespace Expr

open CallByNeed.Parser Grammar

section

variable {table : OperatorTable} {fuel : Nat} {last : Located Token} {body : List (Located Token)}
  {e : Expr}

theorem Parser.runOn_whole (h : IsExpr table body e) (hfuel : body.length < fuel)
    (hlast : last.value = .eof) : (whole table fuel).runOn last body = .ok (e, []) := by
  have hstop : (([] : List (Located Token)).headD last).value.endsSequence = true := by
    rw [List.headD_nil, hlast]
    rfl
  have hrun := complete_expr table fuel h hfuel hstop
  rw [List.append_nil] at hrun
  have hend : (expect .eof).runOn last [] = .ok (last, []) := by
    rw [expect, runOn_advance_bind, List.headD_nil, if_pos hlast]
    rfl
  rw [whole, runOn_bind_ok hrun]
  exact runOn_bind_ok (runOn_bind_ok hend)

/-- **The tokens of a whole text are read if and only if the grammar derives an expression from
them.** -/
theorem Parser.runOn_whole_iff (hfuel : body.length < fuel) (hlast : last.value = .eof)
    (hfree : OfFree body) (hinner : ∀ t ∈ body, t.value ≠ .eof) :
    (∃ rest, (whole table fuel).runOn last body = .ok (e, rest)) ↔ IsExpr table body e := by
  constructor
  · rintro ⟨rest, h⟩
    obtain ⟨e', us, vs, rfl, -, he, h⟩ := (sound_expr table fuel).step hlast hfree h
    obtain ⟨_, ws, hexpect, h⟩ := exists_of_runOn_bind h
    obtain ⟨rfl, -⟩ : e' = e ∧ ws = rest := by simpa using h
    obtain ⟨t, _, hexpect, -⟩ := exists_of_runOn_bind hexpect
    rw [expect, runOn_advance_bind] at hexpect
    cases vs with
    | nil => rwa [List.append_nil]
    | cons v vs =>
      -- the end of the text is not among its tokens
      rw [List.headD_cons, if_neg (hinner v (by simp))] at hexpect
      simp at hexpect
  · intro h
    exact ⟨[], runOn_whole h hfuel hlast⟩

/-- The grammar derives at most one expression. -/
theorem isExpr_unique {e' : Expr} (h : IsExpr table body e) (h' : IsExpr table body e') :
    e = e' := by
  let last : Located Token := ⟨.eof, .unknown⟩
  have hlast : last.value = .eof := rfl
  have hrun := Parser.runOn_whole h (Nat.lt_succ_self _) hlast
  have hrun' := Parser.runOn_whole h' (Nat.lt_succ_self _) hlast
  simpa using hrun.symm.trans hrun'

end

/-! ### Whole texts -/

section

variable {table : OperatorTable} {text : String} {e : Expr}

theorem parseWith_eq_ok_iff : parseWith table text = .ok e ↔
    ∃ s, (Parser.whole table ((TokenStream.ofString text).size + 1)).run
      (TokenStream.ofString text) = .ok (e, s) := by
  rw [parseWith]
  split
  · rename_i e' s hrun
    simp [hrun]
  · rename_i hrun
    simp [hrun]
  · rename_i hrun
    simp [hrun]

/-- **A text with a lexical error is not read**, whatever stands in front of the error. -/
theorem exists_tokenize_of_parseWith (h : parseWith table text = .ok e) :
    ∃ ts, tokenize text = .ok ts := by
  obtain ⟨s, hrun⟩ := parseWith_eq_ok_iff.1 h
  cases htokens : tokenize text with
  | ok ts => exact ⟨ts, rfl⟩
  | error err =>
    have hcut : (TokenStream.ofString text).Cut :=
      ⟨⟨⟨err, htokens⟩, by simp [TokenStream.ofString, Layout.ofString]⟩,
        by simp [TokenStream.ofString]⟩
    obtain ⟨e', s₁, hexpr, hrun⟩ := Parser.exists_of_run_bind hrun
    obtain ⟨_, s₂, hexpect, -⟩ := Parser.exists_of_run_bind hrun
    obtain ⟨t, s₃, hexpect, -⟩ := Parser.exists_of_run_bind hexpect
    obtain ⟨u, s₄, hadvance, hexpect⟩ := Parser.exists_of_run_bind hexpect
    have hu := ((cut_of_run _ hcut hexpr).advance (Parser.advance_of_run hadvance)).1
    rw [if_neg hu] at hexpect
    simp [failUnexpected, fail, run] at hexpect

section Words

variable {ts body : List (Located Token)} {stop : Located Token}

/-- Newlines aside, the end of the text is still the last token. -/
theorem words_spec (htokens : tokenize text = .ok ts)
    (hwords : ts.filter (·.value ≠ .newline) = body ++ [stop]) :
    stop.value = .eof ∧ (∀ t ∈ body, t.value ≠ .eof) ∧ body.length ≤ text.toList.length := by
  obtain ⟨body', stop', rfl, hstop, hinner, hlength⟩ := Cursor.tokens_spec htokens
  have hend : (body' ++ [stop']).filter (·.value ≠ .newline) =
      body'.filter (·.value ≠ .newline) ++ [stop'] := by
    simp [hstop]
  obtain ⟨rfl, rfl⟩ : body'.filter (·.value ≠ .newline) = body ∧ stop' = stop := by
    simpa using hend.symm.trans hwords
  refine ⟨hstop, fun t ht => hinner t (List.mem_of_mem_filter ht), ?_⟩
  exact Nat.le_trans (List.length_filter_le _ _) hlength

/-- The tokens of a text without `of`, newlines aside, are what its stream offers. -/
theorem offers_ofString (htokens : tokenize text = .ok ts) (hfree : OfFree body)
    (hwords : ts.filter (·.value ≠ .newline) = body ++ [stop]) :
    (TokenStream.ofString text).Offers stop body := by
  refine ⟨⟨rfl, rfl, rfl⟩, fun t ht => ?_, ?_⟩
  · have hvalue := hfree t ht
    cases hword : t.value with
    | keyword word => cases word <;> simp_all [Token.opensBlock]
    | _ => rfl
  · have hcursor : (Cursor.ofString text).tokens = .ok ts := htokens
    show (Cursor.ofString text).words = _
    rw [Cursor.words, hcursor, Except.map, hwords]

/-- **A text without lexical errors and without `of` is read if and only if the grammar derives an
expression from its tokens.** -/
theorem parseWith_iff_of_words (htokens : tokenize text = .ok ts) (hfree : OfFree ts)
    (hwords : ts.filter (·.value ≠ .newline) = body ++ [stop]) :
    parseWith table text = .ok e ↔ IsExpr table body e := by
  obtain ⟨hstop, hinner, hlength⟩ := words_spec htokens hwords
  have hbody : OfFree body := by
    intro t ht
    have hmem : t ∈ ts.filter (·.value ≠ .newline) := hwords ▸ List.mem_append_left _ ht
    exact hfree t (List.mem_of_mem_filter hmem)
  have hfuel : body.length < (TokenStream.ofString text).size + 1 := by
    have hsize : (TokenStream.ofString text).size = 5 * text.toList.length := rfl
    omega
  rw [parseWith_eq_ok_iff, exists_run_iff _ hstop (offers_ofString htokens hbody hwords)]
  exact Parser.runOn_whole_iff hfuel hstop hbody hinner

end Words

end

/-- **The parser accepts exactly the grammar** on texts without `of`: it yields an expression if and
only if the text has no lexical error and its tokens, newlines aside, are those of the expression
and the end of the text.  There is at most one such expression. -/
theorem parseWith_eq_ok_iff_isExpr (table : OperatorTable) (text : String)
    (hfree : ∀ ts, tokenize text = .ok ts → OfFree ts) :
    (∀ e, parseWith table text = .ok e ↔
      ∃ ts body stop, tokenize text = .ok ts ∧
        ts.filter (·.value ≠ .newline) = body ++ [stop] ∧ stop.value = .eof ∧
          IsExpr table body e) ∧
    ∀ body e e', IsExpr table body e → IsExpr table body e' → e = e' := by
  refine ⟨fun e => ⟨fun h => ?_, ?_⟩, fun _ _ _ => isExpr_unique⟩
  · obtain ⟨ts, htokens⟩ := exists_tokenize_of_parseWith h
    obtain ⟨body, stop, hts, hstop, -⟩ := Cursor.tokens_spec htokens
    have hwords : ts.filter (·.value ≠ .newline) =
        body.filter (·.value ≠ .newline) ++ [stop] := by
      simp [hts, hstop]
    exact ⟨ts, _, stop, htokens, hwords, hstop,
      (parseWith_iff_of_words htokens (hfree ts htokens) hwords).1 h⟩
  · rintro ⟨ts, body, stop, htokens, hwords, -, he⟩
    exact (parseWith_iff_of_words htokens (hfree ts htokens) hwords).2 he

/-- A list over two lines is an argument, and a function the last operand of a sequence. -/
theorem parseWith_eq_ok_iff_isExpr_lines :
    let text := "f [x,\n1] + \\y -> y"
    let list : Expr := .cons .unknown (.identifier .unknown "x")
      (.cons .unknown (.integer .unknown 1) (.nil .unknown))
    let sum : Expr := .binary .unknown .add (.apply .unknown (.identifier .unknown "f") list)
      (.lambda .unknown (.bind .unknown "y") (.identifier .unknown "y"))
    (∀ ts, tokenize text = .ok ts → OfFree ts) ∧
      ∃ e, parseWith .standard text = .ok e ∧ sum.same e = true := by
  intro text list sum
  let upper (i j : Nat) : Span := .between ⟨i, 1, i + 1⟩ ⟨j, 1, j + 1⟩
  let lower (i j : Nat) : Span := .between ⟨i, 2, i - 5⟩ ⟨j, 2, j - 5⟩
  let f : Located Token := ⟨.identifier "f", upper 0 1⟩
  let left : Located Token := ⟨.bracketLeft, upper 2 3⟩
  let x : Located Token := ⟨.identifier "x", upper 3 4⟩
  let comma : Located Token := ⟨.comma, upper 4 5⟩
  let one : Located Token := ⟨.integer 1, lower 6 7⟩
  let right : Located Token := ⟨.bracketRight, lower 7 8⟩
  let plus : Located Token := ⟨.operator "+", lower 9 10⟩
  let backslash : Located Token := ⟨.backslash, lower 11 12⟩
  let param : Located Token := ⟨.identifier "y", lower 12 13⟩
  let arrow : Located Token := ⟨.arrow, lower 14 16⟩
  let y : Located Token := ⟨.identifier "y", lower 17 18⟩
  -- the tokens of the text, of which only the line break is not part of the program
  have htokens : tokenize text = .ok [f, left, x, comma, ⟨.newline, .point ⟨5, 1, 6⟩⟩, one, right,
      plus, backslash, param, arrow, y, ⟨.eof, .point ⟨18, 2, 13⟩⟩] := by
    decide +kernel
  have hfree : ∀ ts, tokenize text = .ok ts → OfFree ts := by
    intro ts hts
    obtain rfl := Except.ok.inj (htokens.symm.trans hts)
    unfold OfFree
    decide
  -- from the leaves to the whole program, by the rules of the grammar
  have hleaf {t : Located Token} {e : Expr} (h : BaseExpr (IsExpr .standard) [t] e) :
      IsExpr .standard [t] e :=
    .sequence (@OperatorSequence.intro _ _ [t] [] (.operand e) trivial (.base h) .nil)
  have hlist := @BaseExpr.list (IsExpr .standard) left right _ _ rfl
    (.cons (hleaf (@BaseExpr.identifier _ x _ rfl))
      (@MoreItems.cons _ _ comma _ _ _ _ rfl (hleaf (@BaseExpr.integer _ one _ rfl)) .nil)) rfl
  have hfirst := Application.apply (.base (@BaseExpr.identifier _ f _ rfl)) hlist
  have hlambda := @KeywordExpr.lambda (IsExpr .standard) backslash arrow _ _ _ _ rfl
    (@BasePattern.bind param _ rfl) rfl (hleaf (@BaseExpr.identifier _ y _ rfl))
  have hmore := @Operands.keyword .standard _ plus "+" _ _ _ rfl rfl hlambda
  have hsum := @OperatorSequence.intro .standard _ _ _ (.node _ (.operand _) (.operand _))
    (by simp [OperatorTree.Valid, OperatorTree.root?]) hfirst hmore
  have hspec := parseWith_eq_ok_iff_isExpr .standard text hfree
  exact ⟨hfree, _, (hspec.1 _).2 ⟨_, _, _, htokens, rfl, rfl, .sequence hsum⟩, rfl⟩

end Expr

end CallByNeed

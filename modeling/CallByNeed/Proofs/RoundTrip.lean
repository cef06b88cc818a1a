import CallByNeed.Expr.Printer
import CallByNeed.Proofs.Building.Insertion
import CallByNeed.Proofs.OneLine
import CallByNeed.Proofs.Reading.Expr

/-!
# Printing and reading back

The canonical text of a tree is one line, so that a stream in front of it hands out the cues of the
tree (`Expr.hands_text`); and the parser reads a tree off its cues.  Together: what is printed is
read back, up to spans.
-/

namespace CallByNeed

/-! ### Fixed spellings -/

/-- The characters are a word or a run of operator characters, no comment, and spell the token. -/
def Token.isSpelling (cs : List Char) (t : Token) : Bool :=
  (cs.head?.any startsWord && cs.tail.all continuesWord ||
    cs.all isOperatorChar && !(cs.all (· == '-') && 2 ≤ cs.length)) &&
    !cs.isEmpty && ofLexeme cs = some t

theorem spelled_of_isSpelling {cs rest : List Char} {t : Token} (h : t.isSpelling cs = true)
    (hrest : Ends rest) : Spelled (cs ++ rest) t rest := by
  obtain ⟨c, cs, rfl⟩ : ∃ c ds, cs = c :: ds := by
    cases cs with
    | nil => simp [Token.isSpelling] at h
    | cons c cs => exact ⟨c, cs, rfl⟩
  simp only [Token.isSpelling, Bool.and_eq_true, Bool.or_eq_true, decide_eq_true_eq] at h
  obtain ⟨⟨hclass | hclass, -⟩, htoken⟩ := h
  · exact spelled_word (by simpa using hclass.1) (by simpa using hclass.2) hrest htoken
  · refine spelled_operator (by simp) hclass.1 ?_ hrest htoken
    by_cases hdash : (c :: cs).all (· == '-') = true
    · have := hclass.2
      simp only [hdash, Bool.true_and, Bool.not_eq_true', decide_eq_false_iff_not] at this
      exact .inl (by omega)
    · exact .inr (by simpa using hdash)

/-- A bracket is a token of the text, whatever is behind it. -/
theorem hands_bracket {columns : List Nat} {rest : List Char} {t : Token} {cues : List Cue}
    (c : Char) (hc : Token.isBracketChar c = true) (h : Token.ofLexeme [c] = some t)
    (ht : (t.isPlain && !t.opensBlock) = true) (hrest : Hands columns rest cues) :
    Hands columns (c :: rest) (.token t :: cues) := by
  simp only [Bool.and_eq_true, Bool.not_eq_true'] at ht
  exact hands_token (spelled_bracket hc h rest) ht.1 ht.2 hrest

theorem ends_space (rest : List Char) : Ends (' ' :: rest) :=
  ends_cons (by simp) rest

theorem ends_parenRight (rest : List Char) : Ends (')' :: rest) :=
  ends_cons (by simp) rest

/-! ### Texts of cues -/

/-- The characters are the text of the cues, in front of all that ends what stands before it. -/
def Writes (columns : List Nat) (cs : List Char) (cues : List Cue) : Prop :=
  ∀ rest more, Ends rest → Hands columns rest more → Hands columns (cs ++ rest) (cues ++ more)

section Writes

variable {columns : List Nat} {cs ds : List Char} {t : Token} {cues more : List Cue}

/-- A word or a symbol is the text of a token. -/
theorem writes_spelling (cs : List Char) (h : t.isSpelling cs = true)
    (ht : (t.isPlain && !t.opensBlock) = true) : Writes columns cs [.token t] := by
  intro rest more hends hrest
  simp only [Bool.and_eq_true, Bool.not_eq_true'] at ht
  exact hands_token (spelled_of_isSpelling h hends) ht.1 ht.2 hrest

/-- **Texts side by side**, with a space between them. -/
theorem Writes.beside (h : Writes columns cs cues) (h' : Writes columns ds more) :
    Writes columns (cs ++ ' ' :: ds) (cues ++ more) := by
  intro rest after hends hrest
  rw [List.append_assoc, List.append_assoc]
  exact h _ _ (ends_space _) (hands_space (h' rest after hends hrest))

/-- A text in round brackets. -/
theorem Writes.parens (h : Writes columns cs cues) :
    Writes columns ('(' :: (cs ++ [')'])) (Cue.parens cues) := by
  intro rest after hends hrest
  simp only [Cue.parens, List.cons_append, List.append_assoc, List.nil_append]
  apply hands_bracket '(' (by decide) (by decide) (by decide)
  exact h _ _ (ends_parenRight rest) (hands_bracket ')' (by decide) (by decide) (by decide) hrest)

/-- The text of the empty list. -/
theorem writes_brackets :
    Writes columns ['[', ']'] [.token .bracketLeft, .token .bracketRight] := by
  intro rest after hends hrest
  apply hands_bracket '[' (by decide) (by decide) (by decide)
  exact hands_bracket ']' (by decide) (by decide) (by decide) hrest

/-- A name is the text of a token. -/
theorem writes_name {name : String} (h : IsName name) :
    Writes columns name.toList [.token (.identifier name)] := by
  obtain ⟨hlookup, c, cs, hname, hc, hcs⟩ := (isName_iff name).1 h
  intro rest more hends hrest
  have hofList : String.ofList (c :: cs) = name := by rw [← hname, String.ofList_toList]
  have htoken := ofLexeme_of_startsWord hc (hofList.symm ▸ hlookup)
  rw [hofList] at htoken
  rw [hname]
  exact hands_token (spelled_word hc hcs hends htoken) rfl rfl hrest

/-- A literal is the text of a token. -/
theorem writes_integer {value : Int} (h₀ : 0 ≤ value) (h : value ≤ Token.maxInteger) :
    Writes columns (toString value).toList [.token (.integer value.toNat)] := by
  intro rest more hends hrest
  obtain ⟨n, rfl⟩ := Int.eq_ofNat_of_zero_le h₀
  exact hands_token (spelled_integer (Int.ofNat_le.1 h) hends) rfl rfl hrest

/-- A truth value is the text of a token. -/
theorem writes_boolean {value : Bool} :
    Writes columns (toString value).toList [.token (.boolean value)] := by
  cases value with
  | false => exact writes_spelling ['f', 'a', 'l', 's', 'e'] (by decide) rfl
  | true => exact writes_spelling ['t', 'r', 'u', 'e'] (by decide) rfl

end Writes

/-! ### Texts of compound expressions -/

section Compound

variable {columns : List Nat} {cs₁ cs₂ cs₃ : List Char} {cues₁ cues₂ cues₃ : List Cue}

theorem writes_condition (h₁ : Writes columns cs₁ cues₁) (h₂ : Writes columns cs₂ cues₂)
    (h₃ : Writes columns cs₃ cues₃) :
    Writes columns
      ("(if ".toList ++ cs₁ ++ " then ".toList ++ cs₂ ++ " else ".toList ++ cs₃ ++ ")".toList)
      (Cue.parens (.token (.keyword .ifWord) :: (cues₁ ++ .token (.keyword .thenWord) ::
        (cues₂ ++ .token (.keyword .elseWord) :: cues₃)))) := by
  have hif : Writes columns ['i', 'f'] [.token (.keyword .ifWord)] :=
    writes_spelling _ (by decide) rfl
  have hthen : Writes columns ['t', 'h', 'e', 'n'] [.token (.keyword .thenWord)] :=
    writes_spelling _ (by decide) rfl
  have helse : Writes columns ['e', 'l', 's', 'e'] [.token (.keyword .elseWord)] :=
    writes_spelling _ (by decide) rfl
  have hwrites := (((((hif.beside h₁).beside hthen).beside h₂).beside helse).beside h₃).parens
  simpa using hwrites

theorem writes_bind (h₁ : Writes columns cs₁ cues₁) (h₂ : Writes columns cs₂ cues₂)
    (h₃ : Writes columns cs₃ cues₃) :
    Writes columns
      ("(let ".toList ++ cs₁ ++ " = ".toList ++ cs₂ ++ " in ".toList ++ cs₃ ++ ")".toList)
      (Cue.parens (.token (.keyword .letWord) :: (cues₁ ++ .token .equals ::
        (cues₂ ++ .token (.keyword .inWord) :: cues₃)))) := by
  have hlet : Writes columns ['l', 'e', 't'] [.token (.keyword .letWord)] :=
    writes_spelling _ (by decide) rfl
  have hequals : Writes columns ['='] [.token .equals] := writes_spelling _ (by decide) rfl
  have hin : Writes columns ['i', 'n'] [.token (.keyword .inWord)] :=
    writes_spelling _ (by decide) rfl
  have hwrites := (((((hlet.beside h₁).beside hequals).beside h₂).beside hin).beside h₃).parens
  simpa using hwrites

theorem writes_binary (op : BinaryOp) (h₁ : Writes columns cs₁ cues₁)
    (h₂ : Writes columns cs₂ cues₂) :
    Writes columns ("(".toList ++ cs₁ ++ " ".toList ++ op.text.toList ++ " ".toList ++ cs₂ ++
        ")".toList)
      (Cue.parens (cues₁ ++ .token (.operator op.text) :: cues₂)) := by
  have hop : Writes columns op.text.toList [.token (.operator op.text)] := by
    cases op <;> exact writes_spelling _ (by decide) rfl
  simpa using ((h₁.beside hop).beside h₂).parens

theorem writes_cons (h₁ : Writes columns cs₁ cues₁) (h₂ : Writes columns cs₂ cues₂) :
    Writes columns ("(".toList ++ cs₁ ++ " : ".toList ++ cs₂ ++ ")".toList)
      (Cue.parens (cues₁ ++ .token (.operator ":") :: cues₂)) := by
  have hcolon : Writes columns [':'] [.token (.operator ":")] := writes_spelling _ (by decide) rfl
  simpa using ((h₁.beside hcolon).beside h₂).parens

/-- A pattern and what it stands in front of, with an arrow between them. -/
theorem writes_arrow (h₁ : Writes columns cs₁ cues₁) (h₂ : Writes columns cs₂ cues₂) :
    Writes columns (cs₁ ++ " -> ".toList ++ cs₂) (cues₁ ++ .token .arrow :: cues₂) := by
  have harrow : Writes columns ['-', '>'] [.token .arrow] := writes_spelling _ (by decide) rfl
  simpa using (h₁.beside harrow).beside h₂

theorem writes_lambda (h₁ : Writes columns cs₁ cues₁) (h₂ : Writes columns cs₂ cues₂) :
    Writes columns ("(\\".toList ++ cs₁ ++ " -> ".toList ++ cs₂ ++ ")".toList)
      (Cue.parens (.token .backslash :: (cues₁ ++ .token .arrow :: cues₂))) := by
  have hlambda : Writes columns ('\\' :: (cs₁ ++ " -> ".toList ++ cs₂))
      (.token .backslash :: (cues₁ ++ .token .arrow :: cues₂)) := by
    intro rest more hends hrest
    exact hands_bracket '\\' (by decide) (by decide) (by decide)
      (writes_arrow h₁ h₂ rest more hends hrest)
  simpa using hlambda.parens

end Compound

/-! ### Items of a text -/

section Items

variable {α : Type} {columns : List Nat} {textOf : α → List Char} {cuesOf : α → List Cue}
  {xs : List α}

/-- **Further items**, with a mark in front of each. -/
theorem hands_more {mark : List Char} {between : Token} (hmark : ∀ rest, Ends (mark ++ rest))
    (hbetween : ∀ {rest cues}, Hands columns rest cues →
      Hands columns (mark ++ rest) (.token between :: cues))
    (hitem : ∀ x ∈ xs, Writes columns (textOf x) (cuesOf x)) {rest : List Char} {cues : List Cue}
    (hends : Ends rest) (hrest : Hands columns rest cues) :
    Ends (xs.flatMap (fun x => mark ++ textOf x) ++ rest) ∧
      Hands columns (xs.flatMap (fun x => mark ++ textOf x) ++ rest)
        (Cue.separated between false (xs.map cuesOf) ++ cues) := by
  induction xs with
  | nil => exact ⟨hends, hrest⟩
  | cons x xs ih =>
    obtain ⟨hends', hrest'⟩ := ih fun y hy => hitem y (List.mem_cons_of_mem _ hy)
    simp only [List.flatMap_cons, List.append_assoc, List.map_cons, Cue.separated, List.cons_append]
    exact ⟨hmark _, hbetween (hitem x List.mem_cons_self _ _ hends' hrest')⟩

/-- The texts of items, with commas between them. -/
def commaSeparated (textOf : α → List Char) : List α → List Char
  | [] => []
  | x :: xs => textOf x ++ xs.flatMap fun x => [',', ' '] ++ textOf x

/-- **Items with commas between them.** -/
theorem writes_commaSeparated (hitem : ∀ x ∈ xs, Writes columns (textOf x) (cuesOf x)) :
    Writes columns (commaSeparated textOf xs) (Cue.separated .comma true (xs.map cuesOf)) := by
  intro rest more hends hrest
  have hcomma {rest : List Char} {cues : List Cue} (h : Hands columns rest cues) :
      Hands columns ([',', ' '] ++ rest) (.token .comma :: cues) :=
    hands_bracket ',' (by decide) (by decide) (by decide) (hands_space h)
  cases xs with
  | nil => exact hrest
  | cons x xs =>
    obtain ⟨hends', hmore⟩ := hands_more (fun rest => ends_cons (by simp) (' ' :: rest)) hcomma
      (fun y hy => hitem y (List.mem_cons_of_mem _ hy)) hends hrest
    simp only [commaSeparated, List.map_cons, Cue.separated, List.append_assoc]
    exact hitem x List.mem_cons_self _ _ hends' hmore

end Items

/-! ### The text of a pattern -/

namespace Pattern

theorem toList_textMore (ps : List Pattern) :
    (textMore ps).toList = ps.flatMap fun p => [',', ' '] ++ p.text.toList := by
  induction ps with
  | nil => rfl
  | cons p ps ih => simp [textMore, ih]

theorem toList_textAll (ps : List Pattern) :
    (textAll ps).toList = commaSeparated (fun p => p.text.toList) ps := by
  cases ps with
  | nil => rfl
  | cons p ps => rw [textAll, String.toList_append, toList_textMore, commaSeparated]

mutual

/-- **The text of a printable pattern** is that of its cues. -/
theorem writes_text (p : Pattern) (h : p.Printable) (columns : List Nat) :
    Writes columns p.text.toList p.cues := by
  match p with
  | bind _ name => exact writes_name h
  | wildcard _ =>
    have hwrites : Writes columns ['_'] [.token .underscore] := writes_spelling _ (by decide) rfl
    simpa [text, cues] using hwrites
  | integer _ value => exact writes_integer h.1 h.2
  | boolean _ value => exact writes_boolean
  | tuple _ elems =>
    have hwrites := (writes_commaSeparated (writes_textAll elems h.2 columns)).parens
    rw [← cuesAll_eq_map, ← toList_textAll] at hwrites
    simpa [text, cues, Cue.parens] using hwrites
  | cons _ head tail =>
    simpa [text, cues, Cue.parens] using writes_cons (writes_text head h.1 columns)
      (writes_text tail h.2 columns)
  | nil _ => simpa [text, cues] using writes_brackets

theorem writes_textAll (ps : List Pattern) (h : PrintableAll ps) (columns : List Nat) :
    ∀ p ∈ ps, Writes columns p.text.toList p.cues := by
  match ps with
  | [] => simp
  | p :: ps =>
    exact List.forall_mem_cons.2 ⟨writes_text p h.1 columns, writes_textAll ps h.2 columns⟩

end

/-- The text of a printable pattern starts with a token that comes through a line as it is. -/
theorem exists_spelled_text (p : Pattern) (h : p.Printable) {rest : List Char} (hends : Ends rest) :
    ∃ t rest', Spelled (p.text.toList ++ rest) t rest' ∧ t.isPlain = true := by
  -- the text starts with a bracket, or is a spelling by itself
  have hbracket (c : Char) (hc : Token.isBracketChar c = true) {t : Token}
      (ht : Token.ofLexeme [c] = some t) (hplain : t.isPlain = true) (rest : List Char) :
      ∃ t rest', Spelled (c :: rest) t rest' ∧ t.isPlain = true :=
    ⟨t, rest, spelled_bracket hc ht rest, hplain⟩
  have hspelling (cs : List Char) {t : Token} (ht : t.isSpelling cs = true)
      (hplain : t.isPlain = true) : ∃ t rest', Spelled (cs ++ rest) t rest' ∧ t.isPlain = true :=
    ⟨t, rest, spelled_of_isSpelling ht hends, hplain⟩
  cases p with
  | bind _ name =>
    obtain ⟨hlookup, c, cs, hname, hc, hcs⟩ := (isName_iff name).1 h
    rw [text, hname]
    rw [← String.ofList_toList (s := name), hname] at hlookup
    exact ⟨_, rest, spelled_word hc hcs hends (ofLexeme_of_startsWord hc hlookup), rfl⟩
  | wildcard _ => simpa [text] using hspelling ['_'] (t := .underscore) (by decide) rfl
  | integer _ value =>
    obtain ⟨n, rfl⟩ := Int.eq_ofNat_of_zero_le h.1
    exact ⟨.integer n, rest, spelled_integer (Int.ofNat_le.1 h.2) hends, rfl⟩
  | boolean _ value =>
    cases value with
    | false =>
      rw [text, show (toString false).toList = ['f', 'a', 'l', 's', 'e'] from rfl]
      exact hspelling _ (t := .boolean false) (by decide) rfl
    | true =>
      rw [text, show (toString true).toList = ['t', 'r', 'u', 'e'] from rfl]
      exact hspelling _ (t := .boolean true) (by decide) rfl
  | tuple _ elems => simpa [text] using hbracket '(' (t := .parenLeft) (by decide) (by decide) rfl _
  | cons _ head tail =>
    simpa [text] using hbracket '(' (t := .parenLeft) (by decide) (by decide) rfl _
  | nil _ => simpa [text] using hbracket '[' (t := .bracketLeft) (by decide) (by decide) rfl _

end Pattern

/-! ### The text of an expression -/

namespace Expr

theorem toList_textMore (es : List Expr) :
    (textMore es).toList = es.flatMap fun e => [',', ' '] ++ e.text.toList := by
  induction es with
  | nil => rfl
  | cons e es ih => simp [textMore, ih]

theorem toList_textAll (es : List Expr) :
    (textAll es).toList = commaSeparated (fun e => e.text.toList) es := by
  cases es with
  | nil => rfl
  | cons e es => rw [textAll, String.toList_append, toList_textMore, commaSeparated]

/-- The text of an option. -/
def textOption (option : Pattern × Expr) : List Char :=
  (option.1.text.toList ++ ' ' :: ['-', '>']) ++ ' ' :: option.2.text.toList

theorem toList_textMoreOptions (options : List (Pattern × Expr)) :
    (textMoreOptions options).toList =
      options.flatMap fun option => [' ', '|', ' '] ++ textOption option := by
  induction options with
  | nil => rfl
  | cons option options ih =>
    obtain ⟨p, e⟩ := option
    simp [textMoreOptions, textOption, ih]

/-- A block is closed in front of a bracket. -/
theorem hands_blockClose {columns : List Nat} {rest : List Char} {more : List Cue}
    (hrest : Hands columns rest more) (column : Nat) :
    Hands (column :: columns) (')' :: rest) (.close :: .token .parenRight :: more) :=
  hands_close (spelled_bracket (by decide) (by decide) rest) rfl rfl
    (hands_bracket ')' (by decide) (by decide) (by decide) hrest)

/-- **The options of a `case`**, up to the bracket behind them. -/
theorem hands_textOptions {options : List (Pattern × Expr)} {columns : List Nat} {rest : List Char}
    {more : List Cue} (hprintable : ∀ option ∈ options, option.1.Printable)
    (hitem : ∀ option ∈ options, ∀ columns, Writes columns (textOption option) (cuesOption option))
    (hrest : Hands columns rest more) :
    Hands columns (['o', 'f'] ++ ((textOptions options).toList ++ ')' :: rest))
      (.token (.keyword .ofWord) :: .token .blockBegin ::
        (Cue.separated .blockDelim true (options.map cuesOption) ++
          .close :: .token .parenRight :: more)) := by
  have hclose := hands_blockClose hrest
  have hof {rest : List Char} (hends : Ends rest) :
      Spelled (['o', 'f'] ++ rest) (.keyword .ofWord) rest :=
    spelled_of_isSpelling (by decide) hends
  cases options with
  | nil =>
    have hspelled : Spelled (')' :: rest) .parenRight rest :=
      spelled_bracket (by decide) (by decide) rest
    exact hands_of (hof (ends_parenRight rest)) hspelled rfl hclose
  | cons option options =>
    obtain ⟨p, e⟩ := option
    -- a pipe between two options is a delimiter of the block
    have hdelim (column : Nat) {rest : List Char} {cues : List Cue}
        (h : Hands (column :: columns) rest cues) :
        Hands (column :: columns) ([' ', '|', ' '] ++ rest) (.token .blockDelim :: cues) := by
      have hpipe : Spelled (['|'] ++ ' ' :: rest) .pipe (' ' :: rest) :=
        spelled_of_isSpelling (by decide) (ends_space rest)
      exact hands_space (hands_delim hpipe (hands_space h))
    have hmore (column : Nat) := hands_more (fun rest => ends_space ('|' :: ' ' :: rest))
      (hdelim column)
      (fun option hoption => hitem option (List.mem_cons_of_mem _ hoption) (column :: columns))
      (ends_parenRight rest) (hclose column)
    rw [← toList_textMoreOptions] at hmore
    have hoptions (column : Nat) := hands_space
      (hitem (p, e) List.mem_cons_self (column :: columns) _ _ (hmore column).1 (hmore column).2)
    -- the first token of the first option gives the block its column
    obtain ⟨t, rest', hfirst, hplain⟩ := p.exists_spelled_text (hprintable _ List.mem_cons_self)
      (ends_space ('-' :: '>' :: ' ' :: (e.text.toList ++ ((textMoreOptions options).toList ++
        ')' :: rest))))
    have hhands := hands_of (hof (ends_space _)) (spelled_space hfirst) hplain
      (fun column => by simpa [textOption] using hoptions column)
    simpa [textOptions, Cue.separated] using hhands

mutual

/-- **The text of a printable expression** is that of its cues. -/
theorem writes_text (e : Expr) (h : e.Printable) (columns : List Nat) :
    Writes columns e.text.toList e.cues := by
  match e with
  | boolean _ value => exact writes_boolean
  | integer _ value => exact writes_integer h.1 h.2
  | identifier _ name => exact writes_name h
  | condition _ test yes no =>
    simpa [text, cues] using writes_condition (writes_text test h.1 columns)
      (writes_text yes h.2.1 columns) (writes_text no h.2.2 columns)
  | binary _ op lhs rhs =>
    simpa [text, cues] using
      writes_binary op (writes_text lhs h.1 columns) (writes_text rhs h.2 columns)
  | lambda _ param body =>
    simpa [text, cues] using
      writes_lambda (param.writes_text h.1 columns) (writes_text body h.2 columns)
  | apply _ func arg =>
    have hwrites := ((writes_text func h.1 columns).beside (writes_text arg h.2 columns)).parens
    simpa [text, cues] using hwrites
  | bind _ pattern value body =>
    simpa [text, cues] using writes_bind (pattern.writes_text h.1 columns)
      (writes_text value h.2.1 columns) (writes_text body h.2.2 columns)
  -- a case has a block, so that its words come on one line with their own separators
  | cases _ subject options =>
    have hcase : Writes columns ['c', 'a', 's', 'e'] [.token (.keyword .caseWord)] :=
      writes_spelling _ (by decide) rfl
    have hsubject := hcase.beside (writes_text subject h.1 columns)
    obtain ⟨hpatterns, hoptions⟩ := writes_textOptions options h.2
    intro rest more hends hrest
    have hhands := hands_bracket '(' (t := .parenLeft) (by decide) (by decide) (by decide)
      (hsubject _ _ (ends_space _) (hands_space (hands_textOptions hpatterns hoptions hrest)))
    simpa [text, cues, Cue.parens, cuesOptions_eq_map] using hhands
  | tuple _ elems =>
    have hwrites := (writes_commaSeparated (writes_textAll elems h.2 columns)).parens
    rw [← cuesAll_eq_map, ← toList_textAll] at hwrites
    simpa [text, cues] using hwrites
  | cons _ head tail =>
    simpa [text, cues] using writes_cons (writes_text head h.1 columns)
      (writes_text tail h.2 columns)
  | nil _ => simpa [text, cues] using writes_brackets

theorem writes_textAll (es : List Expr) (h : PrintableAll es) (columns : List Nat) :
    ∀ e ∈ es, Writes columns e.text.toList e.cues := by
  match es with
  | [] => simp
  | e :: es =>
    exact List.forall_mem_cons.2 ⟨writes_text e h.1 columns, writes_textAll es h.2 columns⟩

theorem writes_textOptions (options : List (Pattern × Expr)) (h : PrintableOptions options) :
    (∀ option ∈ options, option.1.Printable) ∧
      ∀ option ∈ options, ∀ columns, Writes columns (textOption option) (cuesOption option) := by
  match options with
  | [] => simp
  | (p, e) :: options =>
    obtain ⟨hpatterns, hoptions⟩ := writes_textOptions options h.2.2
    refine ⟨List.forall_mem_cons.2 ⟨h.1, hpatterns⟩, List.forall_mem_cons.2 ⟨?_, hoptions⟩⟩
    intro columns
    simpa [textOption, cuesOption] using
      writes_arrow (p.writes_text h.1 columns) (writes_text e h.2.1 columns)

end

/-! ### Reading back -/

open CallByNeed.Parser
open CallByNeed.Expr.Parser

/-- **A text that hands out the cues of an expression** is read as that expression, up to spans. -/
theorem exists_parse_of_hands {e : Expr} (h : e.Printable) {source : String}
    (hhands : Hands [] source.toList (e.cues ++ [.token .eof])) :
    ∃ e', parse source = .ok e' ∧ e.same e' = true := by
  let s := TokenStream.ofString source
  have hyields : s.Yields (e.cues ++ [.token .eof]) :=
    hhands.yields s ⟨.inr ⟨rfl, rfl⟩, rfl, rfl, rfl, rfl, rfl⟩
  -- the fuel, one for each unit of the size, is enough for the cues
  have hsize : s.size = 5 * source.toList.length := rfl
  have hfuel : e.cues.length < s.size + 1 := by
    have := hhands.length_le
    simp only [List.length_append, List.length_cons, List.length_nil] at this
    omega
  have hwhole : Runs (whole .standard (s.size + 1)) s fun e' _ => e.same e' = true := by
    apply runs_bind ((readBack_of_printable e h).runs_expr hfuel hyields rfl rfl)
    rintro e' s₁ ⟨he', hs₁⟩
    apply runs_bind (runs_discard (runs_expect hs₁))
    rintro _ s₂ -
    exact runs_pure he'
  obtain ⟨e', s', hrun, hsame⟩ := hwhole
  refine ⟨e', ?_, hsame⟩
  unfold parse parseWith
  dsimp only
  rw [hrun]

/-- **What is printed is read back**, up to spans. -/
theorem exists_parse_text (e : Expr) (h : e.Printable) :
    ∃ e', parse e.text = .ok e' ∧ e.same e' = true := by
  apply exists_parse_of_hands h
  simpa using writes_text e h [] [] _ ends_nil hands_eof

end Expr

/-- **Printing and reading back is the identity** on printable expressions, up to spans: an empty
arena reads the canonical text of the expression without error, and the number that it gives out
stands for the same expression. -/
theorem Arena.read_text (e : Expr) (h : e.Printable) :
    ∃ id arena e', Arena.empty.read .standard e.text = (.ok id, arena) ∧
      arena.expr? id = some e' ∧ e.same e' = true := by
  obtain ⟨e', hparse, hsame⟩ := e.exists_parse_text h
  refine ⟨_, _, e', ?_, (insertExpr_spec e' Arena.empty).2, hsame⟩
  rw [Expr.parse] at hparse
  rw [Arena.read, hparse]

/-- A `case` without options stands inside of an option: `(case x of (y : _) -> (case 0 of) | () ->
(y, x))`. -/
theorem Arena.read_text_cases :
    let e : Expr := .cases .unknown (.identifier .unknown "x")
      [(.cons .unknown (.bind .unknown "y") (.wildcard .unknown),
          .cases .unknown (.integer .unknown 0) []),
        (.tuple .unknown [],
          .tuple .unknown [.identifier .unknown "y", .identifier .unknown "x"])]
    e.Printable ∧ ∃ id arena e', Arena.empty.read .standard e.text = (.ok id, arena) ∧
      arena.expr? id = some e' ∧ e.same e' = true := by
  intro e
  have hx : IsName "x" := (isName_iff "x").2 ⟨by decide, 'x', [], rfl, by decide, by simp⟩
  have hy : IsName "y" := (isName_iff "y").2 ⟨by decide, 'y', [], rfl, by decide, by simp⟩
  have h : e.Printable := by
    simp [e, Expr.Printable, Expr.PrintableOptions, Expr.PrintableAll, Pattern.Printable,
      Pattern.PrintableAll, hx, hy]
  exact ⟨h, Arena.read_text e h⟩

end CallByNeed

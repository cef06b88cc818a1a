import CallByNeed.Pattern.Parser
import CallByNeed.Proofs.Cues
import CallByNeed.Proofs.Spelling

/-!
# Reading the cues of a pattern

The cues of a pattern are the tokens of its canonical text.  On a stream that yields the cues of a
printable pattern, the parser of base patterns reads that pattern up to spans and leaves the stream
behind it (`Pattern.readBack`).

The induction is on the pattern, with one lemma for each way to build one.  The statement is about
base patterns, since the canonical text of every pattern is a literal, a name, an underscore or
something in brackets.  Fuel is counted in cues: every part of a pattern has fewer of them.
-/

namespace CallByNeed

/-! ### The cues of a pattern -/

namespace Pattern

mutual

/-- The cues of a pattern. -/
def cues : Pattern → List Cue
  | bind _ name => [.token (.identifier name)]
  | wildcard _ => [.token .underscore]
  | integer _ value => [.token (.integer value.toNat)]
  | boolean _ value => [.token (.boolean value)]
  | tuple _ elems =>
    .token .parenLeft :: (Cue.separated .comma true (cuesAll elems) ++ [.token .parenRight])
  | cons _ head tail =>
    .token .parenLeft ::
      (head.cues ++ .token (.operator ":") :: (tail.cues ++ [.token .parenRight]))
  | nil _ => [.token .bracketLeft, .token .bracketRight]

/-- The cues of several patterns. -/
def cuesAll : List Pattern → List (List Cue)
  | [] => []
  | p :: ps => p.cues :: cuesAll ps

end

mutual

/-- The canonical text of the pattern can be read: integers are literals, names are names, and no
tuple has exactly one element. -/
def Printable : Pattern → Prop
  | bind _ name => IsName name
  | wildcard _ => True
  | integer _ value => 0 ≤ value ∧ value ≤ Token.maxInteger
  | boolean _ _ => True
  | tuple _ elems => elems.length ≠ 1 ∧ PrintableAll elems
  | cons _ head tail => head.Printable ∧ tail.Printable
  | nil _ => True

/-- The canonical texts of the patterns can be read. -/
def PrintableAll : List Pattern → Prop
  | [] => True
  | p :: ps => p.Printable ∧ PrintableAll ps

end

theorem cuesAll_eq_map (ps : List Pattern) : cuesAll ps = ps.map cues := by
  induction ps with
  | nil => rfl
  | cons p ps ih => rw [cuesAll, ih, List.map_cons]

/-- The first cue of a pattern is a token with which a pattern starts. -/
theorem exists_next_cues (p : Pattern) :
    ∃ t, Cue.next p.cues = some t ∧ t.beginsPattern = true := by
  cases p <;> exact ⟨_, rfl, rfl⟩

@[simp]
theorem same_withSpan (p q : Pattern) (span : Span) : p.same (q.withSpan span) = p.same q := by
  cases p <;> cases q <;> rfl

theorem sameAll_of_forall₂ {ps qs : List Pattern}
    (h : List.Forall₂ (fun p q => p.same q = true) ps qs) : sameAll ps qs = true := by
  induction h with
  | nil => rfl
  | cons hp _ ih => rw [sameAll, hp, ih, Bool.and_self]

theorem cues_ne_nil (p : Pattern) : p.cues ≠ [] := by
  cases p <;> simp [cues]

end Pattern

/-! ### Reading patterns -/

namespace Pattern

open CallByNeed.Parser
open CallByNeed.Pattern.Parser

/-- The parser of base patterns reads the cues of the pattern, whatever is behind them. -/
def ReadBack (p : Pattern) : Prop :=
  ∀ fuel s rest, p.cues.length ≤ fuel → s.Yields (p.cues ++ rest) →
    Runs (basePattern fuel) s fun q s' => p.same q = true ∧ s'.Yields rest

/-- A pattern of one token is read by taking it. -/
theorem runs_leaf {s : TokenStream} {t : Token} {rest : List Cue} (make : Span → Pattern)
    (hs : s.Yields (.token t :: rest)) :
    Runs (leaf make) s fun q s' => (∃ span, q = make span) ∧ s'.Yields rest := by
  apply runs_bind (runs_advance hs)
  rintro u s' ⟨-, hs'⟩
  exact runs_pure ⟨⟨u.span, rfl⟩, hs'⟩

/-- A pattern in front of a comma or a bracket is no cell. -/
theorem runs_openMore_nil {base : Parser Pattern} {fuel : Nat} {s : TokenStream} {t : Token}
    {rest : List Cue} (ht : ∀ symbol, t ≠ .operator symbol) (hs : s.Yields rest)
    (hnext : Cue.next rest = some t) :
    Runs (openMore base (fuel + 1)) s fun ps s' => ps = [] ∧ s'.Yields rest := by
  rw [openMore]
  apply runs_bind (runs_peek hs hnext)
  rintro u s' ⟨hu, hs'⟩
  split
  · rename_i symbol hsymbol
    exact absurd (hu.symm.trans hsymbol) (ht symbol)
  · exact runs_pure ⟨rfl, hs'⟩

/-- **An open pattern of one base pattern** is that pattern. -/
theorem ReadBack.runs_openPattern {p : Pattern} (h : p.ReadBack) {fuel : Nat} {s : TokenStream}
    {t : Token} {rest : List Cue} (hfuel : p.cues.length ≤ fuel) (hs : s.Yields (p.cues ++ rest))
    (hnext : Cue.next rest = some t) (ht : ∀ symbol, t ≠ .operator symbol) :
    Runs (openPattern fuel (basePattern fuel)) s fun q s' => p.same q = true ∧ s'.Yields rest := by
  have hpos : 0 < p.cues.length := List.length_pos_iff.2 p.cues_ne_nil
  obtain ⟨fuel, rfl⟩ : ∃ n, fuel = n + 1 := ⟨fuel - 1, by omega⟩
  apply runs_bind (h (fuel + 1) s rest hfuel hs)
  rintro q s₁ ⟨hq, hs₁⟩
  apply runs_bind (runs_openMore_nil ht hs₁ hnext)
  rintro ps s₂ ⟨rfl, hs₂⟩
  exact runs_pure ⟨hq, hs₂⟩

/-- **An open pattern of two base patterns** is a cell. -/
theorem runs_openPattern_cons {p q : Pattern} (hp : p.ReadBack) (hq : q.ReadBack) {fuel : Nat}
    {s : TokenStream} {t : Token} {rest : List Cue} (hfuel : p.cues.length + q.cues.length ≤ fuel)
    (hs : s.Yields ((p.cues ++ .token (.operator ":") :: q.cues) ++ rest))
    (hnext : Cue.next rest = some t) (ht : ∀ symbol, t ≠ .operator symbol) :
    Runs (openPattern fuel (basePattern fuel)) s fun r s' =>
      (∀ span, (Pattern.cons span p q).same r = true) ∧ s'.Yields rest := by
  have hpos : 0 < p.cues.length := List.length_pos_iff.2 p.cues_ne_nil
  have hpos' : 0 < q.cues.length := List.length_pos_iff.2 q.cues_ne_nil
  obtain ⟨fuel, rfl⟩ : ∃ n, fuel = n + 2 := ⟨fuel - 2, by omega⟩
  rw [List.append_assoc, List.cons_append] at hs
  apply runs_bind (hp _ s _ (by omega) hs)
  rintro p' s₁ ⟨hp', hs₁⟩
  -- behind the first pattern exactly one more is read
  rw [openMore]
  apply runs_bind
  · apply runs_bind (runs_peek hs₁ rfl)
    rintro u s₂ ⟨hu, hs₂⟩
    rw [hu]
    simp only [ne_eq, not_true_eq_false, if_false]
    apply runs_bind (runs_discard (runs_advance hs₂))
    rintro _ s₃ ⟨_, -, hs₃⟩
    apply runs_bind (hq _ s₃ rest (by omega) hs₃)
    rintro q' s₄ ⟨hq', hs₄⟩
    apply runs_bind (runs_openMore_nil ht hs₄ hnext)
    rintro ps s₅ ⟨rfl, hs₅⟩
    exact runs_pure (Q := fun ps s' => (∃ q', q.same q' = true ∧ ps = [q']) ∧ s'.Yields rest)
      ⟨⟨q', hq', rfl⟩, hs₅⟩
  · rintro ps s₂ ⟨⟨q', hq', rfl⟩, hs₂⟩
    exact runs_pure ⟨by simp [chain, consAll, same, hp', hq'], hs₂⟩

theorem not_operator_of_mem {t : Token} (h : t ∈ [Token.comma, .parenRight]) (symbol : String) :
    t ≠ .operator symbol := by
  rintro rfl
  simp at h

/-- Patterns in round brackets, other than exactly one, are a tuple. -/
theorem same_ofParens {ps qs : List Pattern} {span span' : Span} (hlength : ps.length ≠ 1)
    (h : List.Forall₂ (fun p q => p.same q = true) ps qs) :
    (Pattern.tuple span ps).same (ofParens span' qs) = true := by
  have hall := sameAll_of_forall₂ h
  match qs with
  | [] => exact hall
  | [q] => exact absurd h.length_eq hlength
  | q :: r :: qs => exact hall

/-- Literals, names and underscores are read back. -/
theorem readBack_of_leaf {p : Pattern} (h : p.Printable) (hleaf : p.cues.length = 1) :
    p.ReadBack := by
  intro fuel s rest hfuel hs
  obtain ⟨fuel, rfl⟩ : ∃ n, fuel = n + 1 := ⟨fuel - 1, by omega⟩
  rw [basePattern]
  cases p
  case tuple | cons | nil => simp [cues] at hleaf
  all_goals
    apply runs_bind (runs_peek hs rfl)
    rintro u s₁ ⟨hu, hs₁⟩
    rw [hu]
    apply runs_mono (runs_leaf _ hs₁)
    rintro q s₂ ⟨⟨span, rfl⟩, hs₂⟩
    refine ⟨?_, hs₂⟩
    simp only [same, beq_self_eq_true]
  rw [Int.toNat_of_nonneg h.1, beq_self_eq_true]

/-- **A tuple is read back** if its elements are. -/
theorem readBack_tuple {span : Span} {elems : List Pattern} (hlength : elems.length ≠ 1)
    (helems : ∀ p ∈ elems, p.ReadBack) : (Pattern.tuple span elems).ReadBack := by
  intro fuel s rest hfuel hs
  rw [cues, cuesAll_eq_map, List.length_cons, List.length_append, List.length_singleton] at hfuel
  rw [cues, cuesAll_eq_map, List.cons_append, List.append_assoc, List.singleton_append] at hs
  obtain ⟨fuel, rfl⟩ : ∃ n, fuel = n + 1 := ⟨fuel - 1, by omega⟩
  have hcount : elems.length ≤ (Cue.separated .comma true (elems.map cues)).length := by
    simpa using Cue.length_items_le_separated .comma true
      (show ∀ cs ∈ elems.map cues, cs ≠ [] by simp [cues_ne_nil])
  rw [basePattern]
  apply runs_bind (runs_peek hs rfl)
  rintro u s₁ ⟨hu, hs₁⟩
  rw [hu]
  -- an element ends at a comma or at the bracket, and does not begin with one
  have hitem : ∀ q ∈ elems, Reads (openPattern fuel (basePattern fuel)) q.cues
      [.comma, .parenRight] fun r => q.same r = true := by
    intro q hq
    have hle := Cue.length_le_separated .comma true (List.mem_map_of_mem (f := cues) hq)
    intro s rest t ht hnext hs
    exact (helems q hq).runs_openPattern (by omega) hs hnext (not_operator_of_mem ht)
  have hstart : ∀ q ∈ elems, ∃ t, Cue.next q.cues = some t ∧ t ≠ .parenRight := by
    intro q _
    obtain ⟨t, hnext, ht⟩ := q.exists_next_cues
    exact ⟨t, hnext, by rintro rfl; simp [Token.beginsPattern, Token.beginsBase] at ht⟩
  apply runs_bind (runs_delimited (by decide) hitem hstart (by omega) hs₁)
  rintro ⟨qs, span'⟩ s₂ ⟨hqs, hs₂⟩
  exact runs_pure ⟨same_ofParens hlength hqs, hs₂⟩

/-- **A cell is read back** if its head and its tail are. -/
theorem readBack_cons {span : Span} {head tail : Pattern} (hhead : head.ReadBack)
    (htail : tail.ReadBack) : (Pattern.cons span head tail).ReadBack := by
  intro fuel s rest hfuel hs
  simp only [cues, List.length_cons, List.length_append, List.length_nil] at hfuel
  replace hs : s.Yields (.token .parenLeft ::
      ((head.cues ++ .token (.operator ":") :: tail.cues) ++ .token .parenRight :: rest)) := by
    simpa [cues] using hs
  obtain ⟨fuel, rfl⟩ : ∃ n, fuel = n + 1 := ⟨fuel - 1, by omega⟩
  obtain ⟨t, hnext, ht⟩ := head.exists_next_cues
  rw [basePattern]
  apply runs_bind (runs_peek hs rfl)
  rintro u s₁ ⟨hu, hs₁⟩
  rw [hu]
  have hitem : Reads (openPattern fuel (basePattern fuel))
      (head.cues ++ .token (.operator ":") :: tail.cues) [.comma, .parenRight]
      fun q => ∀ span, (Pattern.cons span head tail).same q = true := by
    intro s rest t ht hnext hs
    exact runs_openPattern_cons hhead htail (by omega) hs hnext (not_operator_of_mem ht)
  apply runs_bind (runs_delimited_one (by decide) hitem (Cue.next_append hnext)
    (by rintro rfl; simp [Token.beginsPattern, Token.beginsBase] at ht) (by omega) hs₁)
  rintro ⟨qs, span'⟩ s₂ ⟨⟨q, rfl, hq⟩, hs₂⟩
  exact runs_pure ⟨by simpa [ofParens] using hq span, hs₂⟩

theorem readBack_nil {span : Span} : (Pattern.nil span).ReadBack := by
  intro fuel s rest hfuel hs
  simp only [cues, List.length_cons, List.length_nil] at hfuel
  obtain ⟨fuel, rfl⟩ : ∃ n, fuel = n + 1 := ⟨fuel - 1, by omega⟩
  rw [basePattern]
  apply runs_bind (runs_peek hs rfl)
  rintro u s₁ ⟨hu, hs₁⟩
  rw [hu]
  apply runs_bind (runs_delimited_nil (by decide) (by omega) hs₁)
  rintro ⟨qs, span'⟩ s₂ ⟨rfl, hs₂⟩
  exact runs_pure ⟨rfl, hs₂⟩

mutual

/-- **Every printable pattern is read back.** -/
theorem readBack (p : Pattern) (h : p.Printable) : p.ReadBack := by
  match p with
  | bind _ _ => exact readBack_of_leaf h rfl
  | wildcard _ => exact readBack_of_leaf h rfl
  | integer _ _ => exact readBack_of_leaf h rfl
  | boolean _ _ => exact readBack_of_leaf h rfl
  | tuple _ elems => exact readBack_tuple h.1 (readBackAll elems h.2)
  | cons _ head tail => exact readBack_cons (readBack head h.1) (readBack tail h.2)
  | nil _ => exact readBack_nil

/-- Every one of several printable patterns is read back. -/
theorem readBackAll (ps : List Pattern) (h : PrintableAll ps) : ∀ p ∈ ps, p.ReadBack := by
  match ps with
  | [] => simp
  | p :: ps => exact List.forall_mem_cons.2 ⟨readBack p h.1, readBackAll ps h.2⟩

end

end Pattern

end CallByNeed

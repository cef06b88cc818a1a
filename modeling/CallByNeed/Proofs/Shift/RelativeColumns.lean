import CallByNeed.Proofs.Shift.Layouts
import CallByNeed.Proofs.Shift.Parsers
import CallByNeed.Proofs.Totality.Fuel

/-!
# Only relative columns matter

A text and the text moved to the right are parsed alike, also if lines without tokens are put
between the lines of the second one (`Expr.parseWith_shifted`): either both parses fail, or both
yield the same tree up to spans.

The streams of the two texts hand out tokens that differ in their spans only, whatever is asked of
them (`TokenStream.bisimulation_tracks`).  The longer text gets more fuel, but neither parse uses
its fuel up.
-/

namespace CallByNeed

namespace TokenStream

/-- **Two streams in step**: their layouts are, and the same token has been looked at, spans
aside. -/
structure Tracks (k : Nat) (s s' : TokenStream) : Prop where
  layout : s.layout.Tracks k s'.layout
  lookahead : s'.lookahead.map (·.value) = s.lookahead.map (·.value)

theorem tracks_ofString {k : Nat} {text text' : String} (h : Text.Shifted k text text') :
    (ofString text).Tracks k (ofString text') :=
  ⟨Layout.tracks_ofString h, rfl⟩

section Tracks

variable {k : Nat} {s s' : TokenStream}

theorem Tracks.pull (h : s.Tracks k s') : Alike (Tracks k) s.pull s'.pull := by
  unfold TokenStream.pull
  cases h.layout.next with
  | ok hnext hnext' htracks =>
    rw [hnext, hnext']
    exact .ok _ _ _ ⟨htracks, h.lookahead⟩
  | error hnext hnext' =>
    split
    · rename_i heq
      simp [heq] at hnext
    · split
      · rename_i heq
        simp [heq] at hnext'
      · exact .error _ _

/-- The same token has been looked at, or none. -/
theorem Tracks.lookahead_cases (h : s.Tracks k s') :
    (∃ t span span', s.lookahead = some ⟨t, span⟩ ∧ s'.lookahead = some ⟨t, span'⟩) ∨
      (s.lookahead = none ∧ s'.lookahead = none) := by
  have hlookahead := h.lookahead
  cases hs : s.lookahead with
  | some t =>
    rw [hs] at hlookahead
    obtain ⟨⟨value, span'⟩, hs', hvalue⟩ := Option.map_eq_some_iff.1 hlookahead
    obtain ⟨_, span⟩ := t
    obtain rfl := hvalue
    exact .inl ⟨_, span, span', rfl, hs'⟩
  | none =>
    rw [hs] at hlookahead
    exact .inr ⟨rfl, Option.map_eq_none_iff.1 hlookahead⟩

theorem Tracks.peek (h : s.Tracks k s') : Alike (Tracks k) s.peek s'.peek := by
  unfold TokenStream.peek
  rcases h.lookahead_cases with ⟨t, span, span', hs, hs'⟩ | ⟨hs, hs'⟩
  · rw [hs, hs']
    exact .ok t span span' h
  · rw [hs, hs']
    have hpull := h.pull
    generalize s.pull = r at hpull ⊢
    generalize s'.pull = r' at hpull ⊢
    cases hpull with
    | ok t span span' htracks => exact .ok t span span' ⟨htracks.layout, rfl⟩
    | error e e' => exact .error e e'

theorem Tracks.advance (h : s.Tracks k s') : Alike (Tracks k) s.advance s'.advance := by
  unfold TokenStream.advance
  rcases h.lookahead_cases with ⟨t, span, span', hs, hs'⟩ | ⟨hs, hs'⟩
  · rw [hs, hs']
    exact .ok t span span' ⟨h.layout, rfl⟩
  · rw [hs, hs']
    exact h.pull

/-- **Streams in step stay in step**, whatever is asked of them. -/
theorem bisimulation_tracks (k : Nat) : Bisimulation (Tracks k) where
  peek := Tracks.peek
  advance := Tracks.advance
  closeInnermost h := by
    obtain ⟨hclosed, hlayout⟩ := h.layout.closeInnermost
    exact ⟨hclosed, hlayout, h.lookahead⟩

end Tracks

end TokenStream

namespace Expr

variable {table : OperatorTable} {k : Nat} {text text' : String}

/-- The results of two parses: trees that are equal up to spans, or errors. -/
inductive ParsedAlike : Except ParseError Expr → Except ParseError Expr → Prop where
  | ok {e e' : Expr} (h : e.Similar e') : ParsedAlike (.ok e) (.ok e')
  | error (e e' : ParseError) : ParsedAlike (.error e) (.error e')

/-- Neither parse uses its fuel up, so both end alike. -/
theorem parsedAlike_of_shifted (table : OperatorTable) (h : Text.Shifted k text text') :
    ParsedAlike (parseWith table text) (parseWith table text') := by
  have hfuel (text : String) := Parser.lasts_whole table ((TokenStream.ofString text).size + 1)
    (TokenStream.ofString text) (Nat.lt_succ_self _)
  have hleft := hfuel text
  have hright := hfuel text'
  have halike := Parser.mirrors_whole (TokenStream.bisimulation_tracks k) table
    ((TokenStream.ofString text).size + 1) ((TokenStream.ofString text').size + 1) _ _
    (TokenStream.tracks_ofString h)
  rw [parseWith, parseWith]
  generalize (Parser.whole table _).run (TokenStream.ofString text) = r at halike hleft ⊢
  generalize (Parser.whole table _).run (TokenStream.ofString text') = r' at halike hright ⊢
  cases halike with
  | ok _ he => exact .ok he
  | error why why' => cases why <;> cases why' <;> exact .error _ _
  | exhaustedLeft r => exact absurd rfl hleft
  | exhaustedRight r => exact absurd rfl hright

/-- **Only relative columns matter.**  For every table, a text parses if and only if the text moved
to the right does, with any lines of blanks and comments between its lines, and then both yield the
same tree up to spans. -/
theorem parseWith_shifted (table : OperatorTable) (k : Nat) (text text' : String)
    (h : Text.Shifted k text text') :
    ((∃ e, parseWith table text = .ok e) ↔ ∃ e', parseWith table text' = .ok e') ∧
      ∀ e e', parseWith table text = .ok e → parseWith table text' = .ok e' →
        e.same e' = true := by
  have halike := parsedAlike_of_shifted table h
  generalize parseWith table text = r at halike ⊢
  generalize parseWith table text' = r' at halike ⊢
  cases halike with
  | @ok e e' he =>
    refine ⟨⟨fun _ => ⟨e', rfl⟩, fun _ => ⟨e, rfl⟩⟩, ?_⟩
    rintro _ _ ⟨⟩ ⟨⟩
    exact (same_iff e e').2 he
  | error err err' => exact ⟨by simp, by simp⟩

/-- Lines are added in front, between `of` and the first option, inside of the block and at the
end:
```text

  -- first
  case xs of
---
   [] -> 0
    -- > no item
   y : ys -> y + 1
-- last
```
-/
theorem parseWith_shifted_case :
    let text := "case xs of\n [] -> 0\n y : ys -> y + 1"
    let text' := "\n  -- first\n  case xs of\n---\n   [] -> 0\n" ++
      "\t-- > no item\n   y : ys -> y + 1\n-- last"
    (Text.Shifted 2 text text' ∧ ∃ e, parseWith .standard text = .ok e) ∧
      ((∃ e, parseWith .standard text = .ok e) ↔ ∃ e', parseWith .standard text' = .ok e') ∧
      ∀ e e', parseWith .standard text = .ok e → parseWith .standard text' = .ok e' →
        e.same e' = true := by
  intro text text'
  -- a comment with blanks in front of it is an idle line
  have hcomment (blanks : List Char) (n : Nat) (rest : List Char)
      (hblanks : blanks.all Cursor.isInlineBlank = true)
      (hrest : rest.head?.all (!Token.isOperatorChar ·) = true) :
      Text.IsIdle (blanks ++ (List.replicate (n + 2) '-' ++ rest)) := by
    refine ⟨blanks, _, rfl, List.all_eq_true.1 hblanks, .inr ⟨n, rest, rfl, ?_⟩⟩
    intro c hc
    simpa [Option.mem_def.1 hc] using hrest
  have h : Text.Shifted 2 text text' := by
    have hlines : Text.pieces text.toList =
        ["case xs of".toList, " [] -> 0".toList, " y : ys -> y + 1".toList] := by decide
    have hlines' : Text.pieces text'.toList =
        [[], "  ".toList ++ (List.replicate 2 '-' ++ " first".toList),
          List.replicate 2 ' ' ++ "case xs of".toList, [] ++ (List.replicate 3 '-' ++ []),
          List.replicate 2 ' ' ++ " [] -> 0".toList,
          "\t".toList ++ (List.replicate 2 '-' ++ " > no item".toList),
          List.replicate 2 ' ' ++ " y : ys -> y + 1".toList,
          [] ++ (List.replicate 2 '-' ++ " last".toList)] := by decide
    rw [Text.Shifted, hlines, hlines']
    -- the lines that are put in are idle, and the others are moved to the right by two columns
    refine .idle ⟨[], [], rfl, by simp, .inl rfl⟩ ?_
    refine .idle (hcomment _ 0 _ (by decide) (by decide)) (.line _ ?_)
    refine .idle (hcomment _ 1 _ rfl rfl) (.line _ ?_)
    refine .idle (hcomment _ 0 _ (by decide) (by decide)) (.line _ ?_)
    exact .idle (hcomment _ 0 _ rfl (by decide)) .nil
  have hparse : (parseWith .standard text).isOk = true := by decide +kernel
  have hexists : ∃ e, parseWith .standard text = .ok e := by
    cases hresult : parseWith .standard text with
    | ok e => exact ⟨e, rfl⟩
    | error err =>
      rw [hresult] at hparse
      cases hparse
  exact ⟨⟨h, hexists⟩, parseWith_shifted .standard 2 text text' h⟩

end Expr

end CallByNeed

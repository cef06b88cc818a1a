import CallByNeed.TokenStream

/-!
# The points of a parse

A run of a parser performs one operation on the stream after the other: it looks at a token, takes
one, or closes the innermost block.  `Parser.Visits` says which operations are performed in which
state.  A state is a stream together with the blocks that are being read; for each of them the
reference column is kept that was on top of the layout's stack when its first token had been taken.

`Parser.Obeys` is the logic of such runs: an invariant holds whenever an operation is performed, a
failure is one of those allowed, and a value and the stream behind it satisfy a condition.  There is
one rule for each way to build a parser.
-/

namespace CallByNeed

/-- The operations that a parser performs on a stream. -/
inductive Operation where
  | look
  | take
  | close
deriving DecidableEq, Repr

namespace Parser

variable {α β : Type}

/-- **The run comes to a point**: it performs the operation on the stream `s'` while the blocks
`blocks'` are being read.  It starts on the stream `s` inside of `blocks`, the innermost first. -/
def Visits {α : Type} :
    Parser α → List Nat → TokenStream → Operation → List Nat → TokenStream → Prop
  | done _, _, _, _, _, _ => False
  | stop _, _, _, _, _, _ => False
  | peek, blocks, s, operation, blocks', s' => operation = .look ∧ blocks' = blocks ∧ s' = s
  | advance, blocks, s, operation, blocks', s' => operation = .take ∧ blocks' = blocks ∧ s' = s
  | closeInnermost, blocks, s, operation, blocks', s' =>
    operation = .close ∧ blocks' = blocks ∧ s' = s
  | within x, blocks, s, operation, blocks', s' =>
    x.Visits (s.layout.columns.headD 0 :: blocks) s operation blocks' s'
  | andThen x f, blocks, s, operation, blocks', s' =>
    x.Visits blocks s operation blocks' s' ∨
      ∃ a s₁, x.run s = .ok (a, s₁) ∧ (f a).Visits blocks s₁ operation blocks' s'

/-- The run obeys the invariant `I` at all its points, fails only as `E` allows, and ends in a state
of which `Q` holds. -/
structure Obeys (I : Operation → List Nat → TokenStream → Prop) (E : Failure → Prop)
    (x : Parser α) (blocks : List Nat) (s : TokenStream) (Q : α → TokenStream → Prop) : Prop where
  visits : ∀ operation blocks' s', x.Visits blocks s operation blocks' s' → I operation blocks' s'
  ok : ∀ a s', x.run s = .ok (a, s') → Q a s'
  error : ∀ why, x.run s = .error why → E why

section Rules

variable {I : Operation → List Nat → TokenStream → Prop} {E : Failure → Prop} {blocks : List Nat}
  {s : TokenStream} {Q : α → TokenStream → Prop}

theorem obeys_pure {a : α} (h : Q a s) : Obeys I E (pure a) blocks s Q := by
  refine ⟨fun _ _ _ h => h.elim, ?_, ?_⟩
  · rintro b s' hrun
    obtain ⟨rfl, rfl⟩ : a = b ∧ s = s' := by simpa [pure, run] using hrun
    exact h
  · intro why hrun
    simp [pure, run] at hrun

theorem obeys_stop {why : Failure} (h : E why) : Obeys I E (stop (α := α) why) blocks s Q := by
  refine ⟨fun _ _ _ h => h.elim, ?_, ?_⟩
  · intro a s' hrun
    simp [run] at hrun
  · intro why' hrun
    obtain rfl : why = why' := by simpa [run] using hrun
    exact h

/-- **Runs compose.** -/
theorem obeys_bind {x : Parser α} {f : α → Parser β} {P : α → TokenStream → Prop}
    {Q : β → TokenStream → Prop} (hx : Obeys I E x blocks s P)
    (hf : ∀ a s', P a s' → Obeys I E (f a) blocks s' Q) : Obeys I E (x >>= f) blocks s Q := by
  refine ⟨?_, ?_, ?_⟩
  · rintro operation blocks' s' (h | ⟨a, s₁, hrun, h⟩)
    · exact hx.visits operation blocks' s' h
    · exact (hf a s₁ (hx.ok a s₁ hrun)).visits operation blocks' s' h
  · intro b s' hrun
    change (andThen x f).run s = _ at hrun
    rw [run] at hrun
    cases hxs : x.run s with
    | error why => simp [hxs] at hrun
    | ok result =>
      obtain ⟨a, s₁⟩ := result
      rw [hxs] at hrun
      exact (hf a s₁ (hx.ok a s₁ hxs)).ok b s' hrun
  · intro why hrun
    change (andThen x f).run s = _ at hrun
    rw [run] at hrun
    cases hxs : x.run s with
    | error why' =>
      obtain rfl : why' = why := by simpa [hxs] using hrun
      exact hx.error why' hxs
    | ok result =>
      obtain ⟨a, s₁⟩ := result
      rw [hxs] at hrun
      exact (hf a s₁ (hx.ok a s₁ hxs)).error why hrun

theorem obeys_discard {x : Parser α} {Q : TokenStream → Prop}
    (hx : Obeys I E x blocks s fun _ s' => Q s') :
    Obeys I E (discard x) blocks s fun _ s' => Q s' :=
  obeys_bind hx fun _ _ h => obeys_pure h

/-- Inside a block its column stands on top of those of the blocks around it. -/
theorem obeys_within {x : Parser α}
    (hx : Obeys I E x (s.layout.columns.headD 0 :: blocks) s Q) :
    Obeys I E (within x) blocks s Q := by
  refine ⟨hx.visits, ?_, ?_⟩
  · intro a s' hrun
    rw [run] at hrun
    exact hx.ok a s' hrun
  · intro why hrun
    rw [run] at hrun
    exact hx.error why hrun

/-- An operation on the stream that reads a token obeys the invariant if it holds in front of it. -/
theorem obeys_of_stream {x : Parser (Located Token)} {operation : Operation}
    {r : Except LexError (Located Token × TokenStream)} {Q : Located Token → TokenStream → Prop}
    (hrun : x.run s = ofStream r)
    (hvisits : ∀ operation' blocks' s', x.Visits blocks s operation' blocks' s' →
      operation' = operation ∧ blocks' = blocks ∧ s' = s)
    (hI : I operation blocks s) (hok : ∀ t s', r = .ok (t, s') → Q t s')
    (herror : ∀ e, r = .error e → E (.error (.lexical e))) : Obeys I E x blocks s Q := by
  refine ⟨?_, ?_, ?_⟩
  · intro operation' blocks' s' h
    obtain ⟨rfl, rfl, rfl⟩ := hvisits operation' blocks' s' h
    exact hI
  · intro t s' h
    rw [hrun] at h
    cases r with
    | ok result => exact hok t s' (by simpa [ofStream] using h)
    | error e => simp [ofStream] at h
  · intro why h
    rw [hrun] at h
    cases r with
    | ok result => simp [ofStream] at h
    | error e =>
      obtain rfl : Failure.error (.lexical e) = why := by simpa [ofStream] using h
      exact herror e rfl

theorem obeys_peek {Q : Located Token → TokenStream → Prop} (hI : I .look blocks s)
    (hok : ∀ t s', s.peek = .ok (t, s') → Q t s') (herror : ∀ e, E (.error (.lexical e))) :
    Obeys I E peek blocks s Q :=
  obeys_of_stream (by rw [run]) (fun _ _ _ h => h) hI hok fun e _ => herror e

theorem obeys_advance {Q : Located Token → TokenStream → Prop} (hI : I .take blocks s)
    (hok : ∀ t s', s.advance = .ok (t, s') → Q t s') (herror : ∀ e, E (.error (.lexical e))) :
    Obeys I E advance blocks s Q :=
  obeys_of_stream (by rw [run]) (fun _ _ _ h => h) hI hok fun e _ => herror e

theorem obeys_closeInnermost {Q : Bool → TokenStream → Prop} (hI : I .close blocks s)
    (hok : Q s.closeInnermost.1 s.closeInnermost.2) : Obeys I E closeInnermost blocks s Q := by
  refine ⟨?_, ?_, ?_⟩
  · rintro _ _ _ ⟨rfl, rfl, rfl⟩
    exact hI
  · intro closed s' h
    obtain h : s.closeInnermost = (closed, s') := by simpa [run] using h
    rwa [h] at hok
  · intro why h
    simp [run] at h

end Rules

end Parser

end CallByNeed

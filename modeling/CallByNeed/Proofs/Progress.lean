import CallByNeed.Proofs.Cues

/-!
# Parsers only read on

The size of a stream bounds the number of tokens up to the end of its text.  No parser makes it
larger (`Parser.size_le_of_run`), whatever it is made of, since no operation does; and taking a
token before the end makes it smaller (`TokenStream.size_advance_lt`).
-/

namespace CallByNeed

namespace Layout

theorem size_dequeue_le {s s' : Layout} {t : Located Token} (h : s.dequeue = (t, s')) :
    s'.size ≤ s.size := by
  rw [dequeue] at h
  split at h
  · rename_i u queue hq
    obtain ⟨-, rfl⟩ : u = t ∧ { s with queue } = s' := by simpa using h
    have hcount : queue.countP isInner ≤ s.queue.countP isInner := by
      rw [hq]
      exact (List.sublist_cons_self u queue).countP_le
    simp only [size]
    omega
  · obtain ⟨-, rfl⟩ : _ ∧ s = s' := by simpa using h
    exact Nat.le_refl _

/-- Handing out a token does not make a layout larger. -/
theorem size_next_le {s s' : Layout} {t : Located Token} (h : s.next = (.ok t, s')) :
    s'.size ≤ s.size := by
  by_cases ht : t.value = .eof
  · -- the end of the text counts nothing, so that `size_next_lt` does not apply to it
    fun_induction next s with
    | case1 s hq e cursor hc => simp at h
    | case2 s hq u cursor hc hu hlt ih =>
      have := ih h
      simp only [size] at this ⊢
      omega
    | case3 s hq u cursor hc hu s₁ t₁ s₂ hd =>
      obtain ⟨rfl, rfl⟩ : t₁ = t ∧ s₂ = s' := by simpa using h
      have hd' := size_dequeue_le hd
      split at hd'
      · rename_i heof
        rw [size_acceptEnd _ _ heof] at hd'
        have hle : cursor.rest.length ≤ s.cursor.rest.length := Cursor.length_next_le hc
        simp only [s₁, size] at hd' ⊢
        omega
      · rename_i hne
        have hlt : cursor.rest.length < s.cursor.rest.length := Cursor.length_next_lt hc hne
        have hacc := size_accept_le s₁ u
        simp only [s₁, size] at hd' hacc ⊢
        omega
    -- what waits in the queue is handed out without reading
    | case4 s hq t₁ s₂ hd =>
      obtain ⟨rfl, rfl⟩ : t₁ = t ∧ s₂ = s' := by simpa using h
      exact size_dequeue_le hd
  · exact Nat.le_of_lt (size_next_lt h ht)

end Layout

namespace TokenStream

variable {s s' : TokenStream} {t : Located Token}

/-- What is read off the layout is counted as long as it waits. -/
theorem size_pull_le (h : s.pull = .ok (t, s')) :
    s'.layout.size + [t].countP Layout.isInner ≤ s.layout.size := by
  rw [pull] at h
  split at h
  · rename_i u layout hnext
    obtain ⟨rfl, rfl⟩ : u = t ∧ { s with layout } = s' := by simpa using h
    by_cases ht : u.value = .eof
    · have hcount : [u].countP Layout.isInner = 0 := by simp [Layout.isInner, ht]
      rw [hcount]
      exact Layout.size_next_le hnext
    · have hcount : [u].countP Layout.isInner = 1 := by simp [Layout.isInner, ht]
      rw [hcount]
      exact Layout.size_next_lt hnext ht
  · simp at h

theorem size_peek_le (h : s.peek = .ok (t, s')) : s'.size ≤ s.size := by
  rw [peek] at h
  split at h
  · obtain ⟨-, rfl⟩ : _ ∧ s = s' := by simpa using h
    exact Nat.le_refl _
  · rename_i hnone
    cases hpull : s.pull with
    | error e => simp [hpull, Except.map] at h
    | ok result =>
      obtain ⟨u, s₁⟩ := result
      obtain ⟨rfl, rfl⟩ : u = t ∧ { s₁ with lookahead := some u } = s' := by
        simpa [hpull, Except.map] using h
      have hle := size_pull_le hpull
      simpa [size, hnone] using hle

/-- Taking a token takes away what it counts. -/
theorem size_advance (h : s.advance = .ok (t, s')) :
    s'.size + [t].countP Layout.isInner ≤ s.size := by
  rw [advance] at h
  split at h
  · rename_i u hu
    obtain ⟨rfl, rfl⟩ : u = t ∧ { s with lookahead := none } = s' := by simpa using h
    simp [size, hu]
  · rename_i hnone
    have hle := size_pull_le h
    have hnone' := (lookahead_of_pull h).trans hnone
    simpa [size, hnone, hnone'] using hle

/-- **Taking a token before the end of the text is progress.** -/
theorem size_advance_lt (h : s.advance = .ok (t, s')) (ht : t.value ≠ .eof) : s'.size < s.size := by
  have hle := size_advance h
  have hcount : [t].countP Layout.isInner = 1 := by simp [Layout.isInner, ht]
  rwa [hcount] at hle

theorem size_closeInnermost_le (s : TokenStream) : s.closeInnermost.2.size ≤ s.size := by
  rw [closeInnermost]
  cases h : s.layout.closeInnermost with
  | mk closed layout =>
    cases closed with
    | true =>
      have := Layout.size_closeInnermost_lt h
      simp only [size]
      omega
    | false =>
      rw [Layout.closeInnermost] at h
      split at h
      · obtain ⟨-, rfl⟩ := Prod.mk.inj h
        exact Nat.le_refl _
      · simp at h

end TokenStream

/-- **Parsers only read on.** -/
theorem Parser.size_le_of_run {α : Type} (x : Parser α) {s s' : TokenStream} {a : α}
    (h : x.run s = .ok (a, s')) : s'.size ≤ s.size := by
  induction x generalizing s s' with
  | done b =>
    obtain ⟨-, rfl⟩ : b = a ∧ s = s' := by simpa [run] using h
    exact Nat.le_refl _
  | stop why => simp [run] at h
  | peek =>
    rw [run] at h
    cases hpeek : s.peek with
    | error e => simp [hpeek, ofStream] at h
    | ok result =>
      obtain rfl : result = (a, s') := by simpa [hpeek, ofStream] using h
      exact TokenStream.size_peek_le hpeek
  -- taking a token is the step that makes the stream smaller
  | advance =>
    rw [run] at h
    cases hadvance : s.advance with
    | error e => simp [hadvance, ofStream] at h
    | ok result =>
      obtain rfl : result = (a, s') := by simpa [hadvance, ofStream] using h
      exact Nat.le_trans (Nat.le_add_right _ _) (TokenStream.size_advance hadvance)
  | closeInnermost =>
    have heq : s.closeInnermost = (a, s') := by simpa [run] using h
    have hle := s.size_closeInnermost_le
    rwa [heq] at hle
  | within x ih =>
    rw [run] at h
    exact ih h
  | andThen x f ihx ihf =>
    rw [run] at h
    cases hx : x.run s with
    | error why => simp [hx] at h
    | ok result =>
      obtain ⟨b, s₁⟩ := result
      rw [hx] at h
      exact Nat.le_trans (ihf b h) (ihx hx)

end CallByNeed

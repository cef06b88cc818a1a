import CallByNeed.Proofs.Congruence.Machines
import CallByNeed.Proofs.Interpretation.Scheme

/-!
# Matching in congruent programs

Congruent patterns fit the same suspensions, and bind names that stand for each other to the same
addresses (`Binds`): the names of the first pattern on one side, and of the second on the other,
from the last to the first.  So the frames made of them open the scope in which the bodies are
congruent (`Binds.covers`).
-/

namespace CallByNeed

namespace Bindings

/-- Names that are not bound are not found. -/
theorem find?_eq_none_iff (bs : Bindings ThunkId) (x : String) :
    bs.find? x = none ↔ x ∉ bs.map (·.1) := by
  unfold Bindings.find?
  rw [List.lookup_eq_none_iff]
  constructor
  · intro h hmem
    obtain ⟨b, hb, rfl⟩ := List.mem_map.1 hmem
    exact absurd (h b hb) (by simp)
  · intro h b hb
    have hne : x ≠ b.1 := fun heq => h (heq ▸ List.mem_map_of_mem hb)
    simpa using hne

theorem find?_single (x : String) (t : ThunkId) (y : String) :
    find? [(x, t)] y = if y = x then some t else none := by
  unfold find?
  rw [List.lookup_cons]
  by_cases h : y = x
  · simp [h]
  · simp [h, beq_false_of_ne h]

theorem binds_cons (x : String) (t : ThunkId) (bs : Bindings ThunkId) (y : String) :
    binds ((x, t) :: bs) y = (y == x || bs.binds y) := by
  unfold binds find?
  rw [List.lookup_cons]
  cases y == x <;> simp

end Bindings

namespace Congruence

variable {l : Leeway} {w : World}

/-! ### Names that are bound -/

/-- The same suspensions are bound on both sides, which may be demanded, to names that stand for
each other. -/
structure Binds (ρ : Naming) (names names' : List String) (w : World)
    (bs bs' : Bindings ThunkId) : Prop where
  same : List.Forall₂ (fun b b' => ρ b.1 b'.1 ∧ b.2 = b'.2) bs bs'
  live : ∀ b ∈ bs, b.2 ∈ w.live
  left : bs.map (·.1) = names
  right : bs'.map (·.1) = names'

namespace Binds

variable {ρ : Naming} {names names' : List String} {bs bs' : Bindings ThunkId}

theorem nil (ρ : Naming) (w : World) : Binds ρ [] [] w [] [] :=
  ⟨.nil, by simp, rfl, rfl⟩

theorem mono (h : Binds ρ names names' w bs bs') {w' : World} (hw : w ≤ w') :
    Binds ρ names names' w' bs bs' :=
  { h with live := fun b hb => hw.1 _ (h.live b hb) }

theorem cons (h : Binds ρ names names' w bs bs') {x x' : String} (hx : ρ x x') {t : ThunkId}
    (ht : t ∈ w.live) : Binds ρ (x :: names) (x' :: names') w ((x, t) :: bs) ((x', t) :: bs') where
  same := .cons ⟨hx, rfl⟩ h.same
  live := List.forall_mem_cons.2 ⟨ht, h.live⟩
  left := by rw [List.map_cons, h.left]
  right := by rw [List.map_cons, h.right]

/-- **Names that stand for each other are bound to the same.** -/
theorem find?_eq (h : Binds ρ names names' w bs bs') (hρ : ρ.OneToOne) {x x' : String}
    (hx : ρ x x') : bs.find? x = bs'.find? x' := by
  obtain ⟨hsame, -, -, -⟩ := h
  unfold Bindings.find?
  induction hsame with
  | nil => rfl
  | @cons b b' bs bs' hb _ ih =>
    obtain ⟨y, t⟩ := b
    obtain ⟨y', t'⟩ := b'
    obtain ⟨hy, rfl⟩ : ρ y y' ∧ t = t' := hb
    rw [List.lookup_cons, List.lookup_cons]
    -- names stand for each other one to one, so that both searches stop at the same binding
    by_cases hxy : x = y
    · subst hxy
      rw [hρ.right hx hy]
      simp
    · have hxy' : x' ≠ y' := fun heq => hxy (hρ.left hx (heq ▸ hy))
      simp only [beq_false_of_ne hxy, beq_false_of_ne hxy']
      exact ih

theorem binds_eq (h : Binds ρ names names' w bs bs') (hρ : ρ.OneToOne) {x x' : String}
    (hx : ρ x x') : bs.binds x = bs'.binds x' := by
  rw [Bindings.binds, Bindings.binds, h.find?_eq hρ hx]

/-- **The frames of a match open the scope of its pattern.** -/
theorem covers {xs xs' : List String} (h : Binds ρ xs.reverse xs'.reverse w bs bs')
    (hρ : ρ.OneToOne) (outer : Naming) : w.Covers (ρ.under xs xs' outer) outer bs bs' := by
  have hleft (x : String) : bs.find? x = none ↔ x ∉ xs := by
    rw [Bindings.find?_eq_none_iff, h.left, List.mem_reverse]
  have hright (x : String) : bs'.find? x = none ↔ x ∉ xs' := by
    rw [Bindings.find?_eq_none_iff, h.right, List.mem_reverse]
  rintro x x' (⟨hmem, hx⟩ | ⟨hx, hx', houter⟩)
  · cases hfind : bs.find? x with
    | none => exact absurd hmem ((hleft x).1 hfind)
    | some t =>
      obtain ⟨before, behind, rfl, -⟩ := List.lookup_eq_some_iff.mp hfind
      exact .inl ⟨t, h.live (x, t) (List.mem_append_right before List.mem_cons_self), rfl,
        (h.find?_eq hρ hx).symm.trans hfind⟩
  · exact .inr ⟨(hleft x).2 hx, (hright x').2 hx', houter⟩

end Binds

/-- One name is bound on both sides. -/
theorem covers_single {ρ : Naming} (hρ : ρ.OneToOne) {x x' : String} (hx : ρ x x') {t : ThunkId}
    (ht : t ∈ w.live) (outer : Naming) :
    w.Covers (ρ.under [x] [x'] outer) outer [(x, t)] [(x', t)] := by
  have hbinds : Binds ρ [x].reverse [x'].reverse w [(x, t)] [(x', t)] :=
    (Binds.nil ρ w).cons hx ht
  exact hbinds.covers hρ outer

/-- **What is bound to a name that is not used may be anything**: the other names stand for what
they stand for outside. -/
theorem covers_unused (outer : Naming) (x : String) (t t' : ThunkId) :
    w.Covers (fun y y' => y ≠ x ∧ y' ≠ x ∧ outer y y') outer [(x, t)] [(x, t')] := by
  rintro y y' ⟨hy, hy', houter⟩
  exact .inr ⟨by rw [Bindings.find?_single, if_neg hy], by rw [Bindings.find?_single, if_neg hy'],
    houter⟩

/-! ### Patterns -/

section Matching

variable {force : ThunkId → Eval Value} {ρ : Naming}

/-- A literal fits or not on both sides, and binds nothing. -/
theorem runs_test {names names' : List String} {bs bs' : Bindings ThunkId} (b : Bool)
    (h : Binds ρ names names' w bs bs') :
    Runs l w (fun w' => Option.Rel (Binds ρ ([].reverse ++ names) ([].reverse ++ names') w'))
      (pure (if b then some bs else none)) (pure (if b then some bs' else none)) := by
  cases b with
  | true => exact runs_pure (.some h)
  | false => exact runs_pure .none

mutual

/-- **A match runs alike if demands do.** -/
theorem runs_matchOne (hforce : Forces l force) (hρ : ρ.OneToOne)
    (hnames : ∀ x x', ρ x x' → l.names x x') {p p' : Pattern} (hp : p.Congruent l ρ p')
    {w : World} {t : ThunkId} (ht : t ∈ w.live) {names names' : List String}
    {bs bs' : Bindings ThunkId} (hbs : Binds ρ names names' w bs bs') :
    Runs l w
      (fun w' => Option.Rel (Binds ρ (p.names.reverse ++ names) (p'.names.reverse ++ names') w'))
      (Scheme.matchOne force p t bs) (Scheme.matchOne force p' t bs') := by
  match hp with
  | .bind hs hx =>
    rw [Scheme.matchOne, Scheme.matchOne, ← hbs.binds_eq hρ hx]
    split
    · exact runs_throw (.duplicate (hnames _ _ hx) hs)
    · exact runs_pure (.some (hbs.cons hx ht))
  | .wildcard hs =>
    rw [Scheme.matchOne, Scheme.matchOne]
    exact runs_test true hbs
  | .integer value hs =>
    rw [Scheme.matchOne, Scheme.matchOne]
    refine (hforce ht).bind fun w₁ v v' hw₁ hv => ?_
    cases hv with
    | integer n => exact runs_test (n == value) (hbs.mono hw₁)
    | _ => exact runs_pure .none
  | .boolean value hs =>
    rw [Scheme.matchOne, Scheme.matchOne]
    refine (hforce ht).bind fun w₁ v v' hw₁ hv => ?_
    cases hv with
    | boolean b => exact runs_test (b == value) (hbs.mono hw₁)
    | _ => exact runs_pure .none
  | .tuple hs hps =>
    rw [Scheme.matchOne, Scheme.matchOne]
    refine (hforce ht).bind fun w₁ v v' hw₁ hv => ?_
    cases hv with
    | tuple hts =>
      simp only
      rw [← hps.length_eq]
      split
      · rename_i hlen
        exact runs_matchAll hforce hρ hnames hps hts hlen (hbs.mono hw₁)
      · exact runs_pure .none
    | _ => exact runs_pure .none
  | .cons hs hp hq =>
    rw [Scheme.matchOne, Scheme.matchOne]
    refine (hforce ht).bind fun w₁ v v' hw₁ hv => ?_
    cases hv with
    | cons hhead htail =>
      -- the names of the head are bound before those of the tail
      refine (runs_matchOne hforce hρ hnames hp hhead (hbs.mono hw₁)).bind fun w₂ r r' hw₂ hr => ?_
      cases hr with
      | none => exact runs_pure .none
      | some hbinds =>
        rw [Pattern.names, Pattern.names, List.reverse_append, List.reverse_append,
          List.append_assoc, List.append_assoc]
        exact runs_matchOne hforce hρ hnames hq (hw₂.1 _ htail) hbinds
    | _ => exact runs_pure .none
  | .nil hs =>
    rw [Scheme.matchOne, Scheme.matchOne]
    refine (hforce ht).bind fun w₁ v v' hw₁ hv => ?_
    cases hv with
    | nil => exact runs_test true (hbs.mono hw₁)
    | _ => exact runs_pure .none

theorem runs_matchAll (hforce : Forces l force) (hρ : ρ.OneToOne)
    (hnames : ∀ x x', ρ x x' → l.names x x') {ps ps' : List Pattern}
    (hps : Pattern.CongruentAll l ρ ps ps') {w : World} {ts : List ThunkId}
    (hts : ∀ t ∈ ts, t ∈ w.live) (hlen : ts.length = ps.length) {names names' : List String}
    {bs bs' : Bindings ThunkId} (hbs : Binds ρ names names' w bs bs') :
    Runs l w
      (fun w' => Option.Rel (Binds ρ ((Pattern.namesAll ps).reverse ++ names)
        ((Pattern.namesAll ps').reverse ++ names') w'))
      (Scheme.matchAll force ps ts bs) (Scheme.matchAll force ps' ts bs') := by
  match hps, ts with
  | .nil, [] =>
    rw [Scheme.matchAll, Scheme.matchAll]
    · exact runs_test true hbs
    all_goals simp
  | .cons hp hps, t :: ts =>
    obtain ⟨ht, hts⟩ := List.forall_mem_cons.1 hts
    -- the names bound so far are those of the patterns before, with the latest in front
    rw [Scheme.matchAll, Scheme.matchAll]
    refine (runs_matchOne hforce hρ hnames hp ht hbs).bind fun w₁ r r' hw₁ hr => ?_
    cases hr with
    | none => exact runs_pure .none
    | some hbinds =>
      rw [Pattern.namesAll, Pattern.namesAll, List.reverse_append, List.reverse_append,
        List.append_assoc, List.append_assoc]
      exact runs_matchAll hforce hρ hnames hps (fun u hu => hw₁.1 u (hts u hu))
        (Nat.succ.inj hlen) hbinds

end

theorem runs_bindingsOf (hforce : Forces l force) {p p' : Pattern}
    (hp : Expr.BindingPatterns l ρ p p') {t : ThunkId} (ht : t ∈ w.live) :
    Runs l w (fun w' => Option.Rel (Binds ρ p.names.reverse p'.names.reverse w'))
      (Eval.bindingsOf force p t) (Eval.bindingsOf force p' t) := by
  have heq (q : Pattern) : Eval.bindingsOf force q t = Scheme.matchOne force q t [] :=
    (Scheme.equality.matchOne (fun _ => rfl) q t []).symm
  have hmatch := runs_matchOne hforce hp.oneToOne hp.names hp.congruent ht (.nil ρ w)
  rw [List.append_nil, List.append_nil] at hmatch
  rw [heq, heq]
  exact hmatch

/-- A plain name matches anything without a demand. -/
theorem bindingsOf_bind (force : ThunkId → Eval Value) (s : Span) (x : String) (t : ThunkId) :
    Eval.bindingsOf force (.bind s x) t = pure (some [(x, t)]) := by
  show (Matching.one force (.bind s x) t).outcome [] = pure (some [(x, t)])
  rw [Matching.one, Matching.outcome_bindName, if_neg]
  simp [Bindings.binds, Bindings.find?]

variable (l) in
/-- Both sides take the same option. -/
structure Chooses (outer : Naming) (w : World) (r r' : Expr × Bindings ThunkId) : Prop where
  exists_inner : ∃ inner, Expr.Congruent l inner r.1 r'.1 ∧ w.Covers inner outer r.2 r'.2

theorem runs_firstMatch (hforce : Forces l force) {outer : Naming}
    {options options' : List (Pattern × Expr)}
    (h : Expr.CongruentOptions l outer options options') {t : ThunkId} (ht : t ∈ w.live) :
    Runs l w (fun w' => Option.Rel (Chooses l outer w'))
      (Eval.firstMatch force t options) (Eval.firstMatch force t options') := by
  induction options generalizing w options' with
  | nil =>
    cases h
    exact runs_pure .none
  | cons option options ih =>
    cases h with
    | cons hp he hoptions =>
      rw [Eval.firstMatch, Eval.firstMatch]
      refine (runs_bindingsOf hforce hp ht).bind fun w₁ r r' hw₁ hr => ?_
      cases hr with
      | none => exact ih hoptions (hw₁.1 t ht)
      | some hbinds => exact runs_pure (.some ⟨_, he, hbinds.covers hp.oneToOne outer⟩)

end Matching

end Congruence

end CallByNeed

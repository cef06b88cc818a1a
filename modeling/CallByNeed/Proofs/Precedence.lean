import CallByNeed.Expr.Sequence

/-!
# The tree that precedences dictate

An operator tree groups operands with operators between them.  It is valid if each operator binds
looser than those of its operands; one of the same precedence may stand on the left if both group to
the left, and on the right if both group to the right.  `Sequence.resolve` is the two-stack
algorithm on a sequence that has been read, and this module compares it with the valid trees of the
sequence:

* it yields every valid tree of the sequence (`resolve_of_valid`), so that there is at most one;
* it yields nothing but valid trees of the sequence, or else an error that names two operators of
  one precedence that do not agree, with tighter ones between them (`resolve_spec`).

For the first, a valid tree is read along its right spine: behind its last operand the operators of
the spine wait, each with its left operand, which is the state of the stacks (`resolve_append`).
For the second, the stacks are at each moment the right spine of a tree that is valid so far
(`Stacked`).

The algorithm does the same to operator trees and to expressions, up to `OperatorTree.expr`
(`resolve_map`).
-/

namespace CallByNeed

namespace Waiting

/-- How tight the operator binds. -/
def precedence (w : Waiting) : Nat :=
  w.operator.precedence

/-- How the operator groups. -/
def associativity (w : Waiting) : Associativity :=
  w.operator.associativity

/-- The operator `v` may stand at the top of the left operand. -/
def HoldsLeft (w v : Waiting) : Prop :=
  w.precedence < v.precedence ∨
    v.precedence = w.precedence ∧ v.associativity = .left ∧ w.associativity = .left

/-- The operator `v` may stand at the top of the right operand. -/
def HoldsRight (w v : Waiting) : Prop :=
  w.precedence < v.precedence ∨
    v.precedence = w.precedence ∧ v.associativity = .right ∧ w.associativity = .right

/-- The error says that the two operators have the same precedence but do not agree how to group. -/
def Clash (left right : Waiting) (e : ParseError) : Prop :=
  left.precedence = right.precedence ∧
    (left.associativity ≠ right.associativity ∧
        e = .mixedAssociativity left.symbol left.associativity right.symbol right.associativity
          left.precedence left.span ∨
      left.associativity = .none ∧ right.associativity = .none ∧
        e = .nonAssociative left.symbol right.symbol left.span)

end Waiting

/-- Operands with operators between them, grouped. -/
inductive OperatorTree where
  | operand (e : Expr)
  | node (w : Waiting) (left right : OperatorTree)

namespace OperatorTree

/-- The operator at the top. -/
def root? : OperatorTree → Option Waiting
  | operand _ => none
  | node w _ _ => some w

/-- The first operand. -/
def first : OperatorTree → Expr
  | operand e => e
  | node _ left _ => left.first

/-- What is behind the first operand: operators, each with the operand behind it. -/
def more : OperatorTree → List (Waiting × Expr)
  | operand _ => []
  | node w left right => left.more ++ (w, right.first) :: right.more

/-- The expression that the operators make of the operands. -/
def expr : OperatorTree → Expr
  | operand e => e
  | node w left right => w.complete left.expr right.expr

/-- Each operator may have those of its operands below it. -/
def Valid : OperatorTree → Prop
  | operand _ => True
  | node w left right =>
    (∀ v ∈ left.root?, w.HoldsLeft v) ∧ (∀ v ∈ right.root?, w.HoldsRight v) ∧
      left.Valid ∧ right.Valid

/-- **No operator of a valid tree binds looser than the one at the top.** -/
theorem precedence_le_of_mem {t : OperatorTree} (ht : t.Valid) {w v : Waiting}
    (hw : t.root? = some w) (hv : v ∈ t.more.map Prod.fst) : w.precedence ≤ v.precedence := by
  induction t generalizing w with
  | operand e => simp [root?] at hw
  | node u left right ihl ihr =>
    obtain rfl : u = w := by simpa [root?] using hw
    obtain ⟨hleft, hright, hl, hr⟩ := ht
    -- below an operand's own operator there is nothing looser than it, and it is not looser itself
    have key {t : OperatorTree} (hroot : ∀ x ∈ t.root?, u.precedence ≤ x.precedence)
        (ih : ∀ {x : Waiting}, t.root? = some x → v ∈ t.more.map Prod.fst →
          x.precedence ≤ v.precedence) (hv : v ∈ t.more.map Prod.fst) :
        u.precedence ≤ v.precedence := by
      cases hx : t.root? with
      | none => cases t <;> simp_all [root?, more]
      | some x => exact Nat.le_trans (hroot x hx) (ih hx hv)
    rw [more, List.map_append, List.mem_append, List.map_cons, List.mem_cons] at hv
    rcases hv with hv | rfl | hv
    · exact key (fun x hx => by rcases hleft x hx with h | h <;> omega) (fun hx => ihl hl hx) hv
    · exact Nat.le_refl _
    · exact key (fun x hx => by rcases hright x hx with h | h <;> omega) (fun hx => ihr hr hx) hv

end OperatorTree

/-! ### The two stacks -/

namespace Sequence

open OperatorTree

/-- **An operator takes its operands first** if it may stand on the left of the incoming one. -/
theorem takesFirst_of_holdsLeft {top w : Waiting} (h : w.HoldsLeft top) :
    takesFirst top w.symbol w.operator = .ok true := by
  simp only [Waiting.HoldsLeft, Waiting.precedence, Waiting.associativity] at h
  rcases h with h | ⟨hp, ht, hw⟩
  · simp [takesFirst, Nat.ne_of_gt h, h]
  · simp [takesFirst, hp, ht, hw]

/-- **An operator waits** if the incoming one may stand on its right. -/
theorem takesFirst_of_holdsRight {top w : Waiting} (h : top.HoldsRight w) :
    takesFirst top w.symbol w.operator = .ok false := by
  simp only [Waiting.HoldsRight, Waiting.precedence, Waiting.associativity] at h
  rcases h with h | ⟨hp, hw, ht⟩
  · simp [takesFirst, Nat.ne_of_lt h, Nat.le_of_lt h]
  · simp [takesFirst, hp, ht, hw]

/-- **Of two operators one may hold the other, or they clash.** -/
theorem takesFirst_cases (top w : Waiting) :
    takesFirst top w.symbol w.operator = .ok true ∧ w.HoldsLeft top ∨
      takesFirst top w.symbol w.operator = .ok false ∧ top.HoldsRight w ∨
        ∃ e, takesFirst top w.symbol w.operator = .error e ∧ top.Clash w e := by
  rcases Nat.lt_trichotomy w.precedence top.precedence with h | h | h
  · exact .inl ⟨takesFirst_of_holdsLeft (.inl h), .inl h⟩
  · -- at one precedence the associativities decide, which have to be the same
    have hp : top.operator.precedence = w.operator.precedence := h.symm
    by_cases hassoc : top.associativity = w.associativity
    · have hassoc' : top.operator.associativity = w.operator.associativity := hassoc
      cases ht : top.associativity with
      | left =>
        have hleft : w.HoldsLeft top := .inr ⟨h.symm, ht, hassoc ▸ ht⟩
        exact .inl ⟨takesFirst_of_holdsLeft hleft, hleft⟩
      | right =>
        have hright : top.HoldsRight w := .inr ⟨h, hassoc ▸ ht, ht⟩
        exact .inr (.inl ⟨takesFirst_of_holdsRight hright, hright⟩)
      | none =>
        have hw : w.operator.associativity = .none := hassoc.symm.trans ht
        refine .inr (.inr ⟨_, ?_, h.symm, .inr ⟨ht, hassoc ▸ ht, rfl⟩⟩)
        simp [takesFirst, hp, hassoc', hw]
    · have hassoc' : top.operator.associativity ≠ w.operator.associativity := hassoc
      refine .inr (.inr ⟨_, ?_, h.symm, .inl ⟨hassoc, rfl⟩⟩)
      simp [takesFirst, hp, hassoc', Waiting.precedence, Waiting.associativity]
  · exact .inr (.inl ⟨takesFirst_of_holdsRight (.inl h), .inl h⟩)

/-- The tree of a sequence, given the operators and the operands that wait: each operator comes in,
then its right operand, and at the end all waiting operators take their operands. -/
def resolve {α : Type} (complete : Waiting → α → α → α) :
    List Waiting → List α → List (Waiting × α) → Except Failure α
  | operators, operands, [] => close complete operators operands
  | operators, operands, (w, x) :: more =>
    match reduceFor complete w.symbol w.operator operators operands with
    | .error why => .error why
    | .ok (operators, operands) => resolve complete (w :: operators) (x :: operands) more

section Map

variable {α β : Type} {complete : Waiting → α → α → α} {complete' : Waiting → β → β → β} {f : α → β}

theorem reduce_map (hf : ∀ w l r, f (complete w l r) = complete' w (f l) (f r)) (w : Waiting)
    (operands : List α) :
    reduce complete' w (operands.map f) = (reduce complete w operands).map (List.map f) := by
  match operands with
  | [] | [_] => rfl
  | r :: l :: operands => simp [reduce, hf, Except.map]

theorem close_map (hf : ∀ w l r, f (complete w l r) = complete' w (f l) (f r))
    (operators : List Waiting) (operands : List α) :
    close complete' operators (operands.map f) = (close complete operators operands).map f := by
  induction operators generalizing operands with
  | nil =>
    match operands with
    | [] | [_] | _ :: _ :: _ => rfl
  | cons top operators ih =>
    simp only [close, reduce_map hf]
    cases reduce complete top operands with
    | error why => rfl
    | ok operands => exact ih operands

theorem reduceFor_map (hf : ∀ w l r, f (complete w l r) = complete' w (f l) (f r)) (w : Waiting)
    (operators : List Waiting) (operands : List α) :
    reduceFor complete' w.symbol w.operator operators (operands.map f) =
      (reduceFor complete w.symbol w.operator operators operands).map
        (Prod.map id (List.map f)) := by
  induction operators generalizing operands with
  | nil => rfl
  | cons top operators ih =>
    simp only [reduceFor]
    -- which operator takes its operands does not depend on the operands
    cases takesFirst top w.symbol w.operator with
    | error e => rfl
    | ok takes =>
      cases takes with
      | false => rfl
      | true =>
        simp only [reduce_map hf]
        cases reduce complete top operands with
        | error why => rfl
        | ok operands => exact ih operands

/-- **What the operands are does not matter**, as long as the operators act alike. -/
theorem resolve_map (hf : ∀ w l r, f (complete w l r) = complete' w (f l) (f r))
    (operators : List Waiting) (operands : List α) (more : List (Waiting × α)) :
    resolve complete' operators (operands.map f) (more.map (Prod.map id f)) =
      (resolve complete operators operands more).map f := by
  induction more generalizing operators operands with
  | nil => exact close_map hf operators operands
  | cons next more ih =>
    obtain ⟨w, x⟩ := next
    simp only [List.map_cons, Prod.map_apply, id_eq, resolve, reduceFor_map hf]
    cases reduceFor complete w.symbol w.operator operators operands with
    | error why => rfl
    | ok pair => exact ih (w :: pair.1) (x :: pair.2)

end Map

/-! ### Valid trees are found -/

/-- The operators on the right spine of a tree, the lowest first. -/
def spineOperators : OperatorTree → List Waiting
  | operand _ => []
  | node w _ right => spineOperators right ++ [w]

/-- The operands on the right spine of a tree, the last first. -/
def spineOperands : OperatorTree → List OperatorTree
  | operand e => [operand e]
  | node _ left right => spineOperands right ++ [left]

/-- An operator that may stand on the left of another is below only what may stand there too. -/
theorem holdsLeft_of_holdsRight {w v u : Waiting} (hw : w.HoldsLeft v) (hv : v.HoldsRight u) :
    w.HoldsLeft u := by
  rcases hw with hw | ⟨hp, hleft, -⟩
  · rcases hv with hv | ⟨hv, -⟩
    · exact .inl (Nat.lt_trans hw hv)
    · exact .inl (hv ▸ hw)
  · rcases hv with hv | ⟨-, -, hright⟩
    · exact .inl (hp ▸ hv)
    · rw [hleft] at hright
      simp at hright

/-- The left operand of an operator on the right of another may stand on its right too. -/
theorem holdsRight_of_holdsLeft {w v u : Waiting} (hw : w.HoldsRight v) (hv : v.HoldsLeft u) :
    w.HoldsRight u := by
  rcases hw with hw | ⟨hp, hright, -⟩
  · rcases hv with hv | ⟨hv, -⟩
    · exact .inl (Nat.lt_trans hw hv)
    · exact .inl (hv ▸ hw)
  · rcases hv with hv | ⟨-, -, hleft⟩
    · exact .inl (hp ▸ hv)
    · rw [hright] at hleft
      simp at hleft

/-- **An incoming operator completes the tree on its left.** -/
theorem reduceFor_spine {t : OperatorTree} (ht : t.Valid) {w : Waiting}
    (hw : ∀ v ∈ t.root?, w.HoldsLeft v) (operators : List Waiting) (operands : List OperatorTree) :
    reduceFor node w.symbol w.operator (spineOperators t ++ operators)
        (spineOperands t ++ operands) =
      reduceFor node w.symbol w.operator operators (t :: operands) := by
  induction t generalizing operators operands with
  | operand e => rfl
  | node v left right _ ihr =>
    obtain ⟨-, hright, -, hr⟩ := ht
    have hv : w.HoldsLeft v := hw v rfl
    have hroot : ∀ u ∈ right.root?, w.HoldsLeft u := fun u hu =>
      holdsLeft_of_holdsRight hv (hright u hu)
    simp only [spineOperators, spineOperands, List.append_assoc, List.singleton_append]
    rw [ihr hr hroot, reduceFor, takesFirst_of_holdsLeft hv]
    rfl

/-- An incoming operator leaves those alone that may hold it on their right. -/
theorem reduceFor_of_holdsRight {w : Waiting} {operators : List Waiting}
    (h : ∀ top ∈ operators.head?, top.HoldsRight w) (operands : List OperatorTree) :
    reduceFor node w.symbol w.operator operators operands = .ok (operators, operands) := by
  cases operators with
  | nil => rfl
  | cons top operators => rw [reduceFor, takesFirst_of_holdsRight (h top rfl)]

/-- The end of a sequence completes the tree on top. -/
theorem close_spine (t : OperatorTree) (operators : List Waiting) (operands : List OperatorTree) :
    close node (spineOperators t ++ operators) (spineOperands t ++ operands) =
      close node operators (t :: operands) := by
  induction t generalizing operators operands with
  | operand e => rfl
  | node w left right _ ihr =>
    simp only [spineOperators, spineOperands, List.append_assoc, List.singleton_append]
    rw [ihr, close]
    rfl

/-- The sequence behind the first operand of a tree, with trees for operands. -/
def leaves (t : OperatorTree) : List (Waiting × OperatorTree) :=
  t.more.map (Prod.map id operand)

/-- **A valid tree is read along its right spine**, if it may stand on the right of the operator on
top of the stack. -/
theorem resolve_append {t : OperatorTree} (ht : t.Valid) (operators : List Waiting)
    (hfits : ∀ top ∈ operators.head?, ∀ v ∈ t.root?, top.HoldsRight v)
    (operands : List OperatorTree) (rest : List (Waiting × OperatorTree)) :
    resolve node operators (operand t.first :: operands) (leaves t ++ rest) =
      resolve node (spineOperators t ++ operators) (spineOperands t ++ operands) rest := by
  induction t generalizing operators operands rest with
  | operand e => rfl
  | node w left right ihl ihr =>
    obtain ⟨hleft, hright, hl, hr⟩ := ht
    have hw : ∀ top ∈ operators.head?, top.HoldsRight w := fun top htop => hfits top htop w rfl
    have hleaves : leaves (node w left right) ++ rest =
        leaves left ++ (w, operand right.first) :: (leaves right ++ rest) := by
      simp [leaves, more]
    rw [hleaves, first, ihl hl operators fun top htop v hv =>
      holdsRight_of_holdsLeft (hw top htop) (hleft v hv)]
    -- the operator comes in, completes its left operand and waits for the right one
    rw [resolve, reduceFor_spine hl hleft, reduceFor_of_holdsRight hw]
    simp only
    rw [ihr hr (w :: operators) fun top htop v hv => by
      obtain rfl : w = top := by simpa using htop
      exact hright v hv]
    simp [spineOperators, spineOperands]

/-- **Every valid tree is found.** -/
theorem resolve_of_valid {t : OperatorTree} (ht : t.Valid) :
    resolve node [] [operand t.first] (leaves t) = .ok t := by
  have hread := resolve_append ht [] (by simp) [] []
  rw [List.append_nil] at hread
  rw [hread, resolve, close_spine]
  rfl

/-! ### Nothing else is found -/

/-- The stacks hold a tree that is valid so far: `first` and `more` are what has been read. -/
inductive Stacked : List Waiting → List OperatorTree → Expr → List (Waiting × Expr) → Prop where
  | one {t : OperatorTree} (ht : t.Valid) : Stacked [] [t] t.first t.more
  | more {w : Waiting} {operators : List Waiting} {left right : OperatorTree}
      {operands : List OperatorTree} {first : Expr} {before : List (Waiting × Expr)}
      (hbelow : Stacked operators (left :: operands) first before) (hr : right.Valid)
      (hleft : ∀ v ∈ left.root?, w.HoldsLeft v) (hright : ∀ v ∈ right.root?, w.HoldsRight v)
      (hfits : ∀ top ∈ operators.head?, top.HoldsRight w) :
      Stacked (w :: operators) (right :: left :: operands) first
        (before ++ (w, right.first) :: right.more)

theorem Stacked.valid {operators : List Waiting} {t : OperatorTree} {operands : List OperatorTree}
    {first : Expr} {before : List (Waiting × Expr)}
    (h : Stacked operators (t :: operands) first before) : t.Valid := by
  cases h with
  | one ht => exact ht
  | more _ hr => exact hr

/-- The operand on top may be replaced by one that goes on behind it. -/
theorem Stacked.extend {operators : List Waiting} {t t' : OperatorTree}
    {operands : List OperatorTree} {first : Expr} {before after : List (Waiting × Expr)}
    (h : Stacked operators (t :: operands) first before) (ht' : t'.Valid)
    (hroot : ∀ top ∈ operators.head?, ∀ v ∈ t'.root?, top.HoldsRight v)
    (hfirst : t'.first = t.first) (hmore : t'.more = t.more ++ after) :
    Stacked operators (t' :: operands) first (before ++ after) := by
  cases h with
  | one ht =>
    rw [← hfirst, ← hmore]
    exact .one ht'
  | more hbelow hr hleft hright hfits =>
    rw [List.append_assoc, List.cons_append, ← hfirst, ← hmore]
    exact .more hbelow ht' hleft (hroot _ rfl) hfits

/-- An operator of the sequence clashes with the incoming one, and only tighter ones are between. -/
def ClashesWith (before : List Waiting) (w : Waiting) (e : ParseError) : Prop :=
  ∃ earlier left between, before = earlier ++ left :: between ∧
    (∀ v ∈ between, left.precedence < v.precedence) ∧ left.Clash w e

/-- What is between two operators of one precedence, of which neither may hold it on the other side,
is tighter than they are. -/
theorem precedence_lt_of_clash {t : OperatorTree} (ht : t.Valid) {top w : Waiting}
    (hp : top.precedence = w.precedence) (hright : ∀ v ∈ t.root?, top.HoldsRight v)
    (hleft : ∀ v ∈ t.root?, w.HoldsLeft v) :
    ∀ v ∈ t.more.map Prod.fst, top.precedence < v.precedence := by
  intro v hv
  cases hroot : t.root? with
  | none => cases t <;> simp_all [root?, OperatorTree.more]
  | some u =>
    have hle := precedence_le_of_mem ht hroot hv
    rcases hright u hroot with h | ⟨_, hassoc, -⟩
    · omega
    · rcases hleft u hroot with h | ⟨_, hassoc', -⟩
      · omega
      · rw [hassoc] at hassoc'
        simp at hassoc'

/-- **An incoming operator finds a place on the stacks, or clashes.** -/
theorem Stacked.reduceFor {operators : List Waiting} {t : OperatorTree}
    {operands : List OperatorTree} {first : Expr} {before : List (Waiting × Expr)}
    (h : Stacked operators (t :: operands) first before) {w : Waiting}
    (hw : ∀ v ∈ t.root?, w.HoldsLeft v) :
    (∃ operators' t' operands',
      reduceFor node w.symbol w.operator operators (t :: operands) =
        .ok (operators', t' :: operands') ∧
      Stacked operators' (t' :: operands') first before ∧ (∀ v ∈ t'.root?, w.HoldsLeft v) ∧
        ∀ top ∈ operators'.head?, top.HoldsRight w) ∨
    ∃ e, reduceFor node w.symbol w.operator operators (t :: operands) = .error (.error e) ∧
      ClashesWith (before.map Prod.fst) w e := by
  induction operators generalizing t operands before with
  | nil => exact .inl ⟨[], t, operands, rfl, h, hw, by simp⟩
  | cons top operators ih =>
    rcases takesFirst_cases top w with ⟨htakes, hholds⟩ | ⟨htakes, hholds⟩ | ⟨e, htakes, hclash⟩
    · -- the operator on top takes its operands, and the new operand is looked at
      cases h with
      | @more _ _ left _ operands _ before hbelow hr hleft hright hfits =>
        have hstacked : Stacked operators (node top left t :: operands) first
            (before ++ (top, t.first) :: t.more) := by
          refine hbelow.extend ⟨hleft, hright, hbelow.valid, hr⟩ ?_ rfl rfl
          intro u hu v hv
          obtain rfl : top = v := by simpa [root?] using hv
          exact hfits u hu
        have hroot : ∀ v ∈ (node top left t).root?, w.HoldsLeft v := by
          intro v hv
          obtain rfl : top = v := by simpa [root?] using hv
          exact hholds
        have hstep : Sequence.reduceFor node w.symbol w.operator (top :: operators)
            (t :: left :: operands) =
              Sequence.reduceFor node w.symbol w.operator operators
                (node top left t :: operands) := by
          rw [Sequence.reduceFor, htakes]
          rfl
        rw [hstep]
        exact ih hstacked hroot
    · -- the operator on top waits
      refine .inl ⟨top :: operators, t, operands, ?_, h, hw, ?_⟩
      · rw [Sequence.reduceFor, htakes]
      · intro u hu
        obtain rfl : top = u := by simpa using hu
        exact hholds
    · -- the operator on top clashes with the incoming one
      refine .inr ⟨e, by rw [Sequence.reduceFor, htakes], ?_⟩
      cases h with
      | @more _ _ left _ operands _ before hbelow hr hleft hright hfits =>
        refine ⟨before.map Prod.fst, top, t.more.map Prod.fst, by simp, ?_, hclash⟩
        exact precedence_lt_of_clash hr hclash.1 hright hw

/-- At the end of the sequence the stacks become one tree. -/
theorem Stacked.close {operators : List Waiting} {operands : List OperatorTree} {first : Expr}
    {before : List (Waiting × Expr)} (h : Stacked operators operands first before) :
    ∃ t, close node operators operands = .ok t ∧ t.Valid ∧ t.first = first ∧ t.more = before := by
  induction operators generalizing operands before with
  | nil =>
    cases h with
    | @one t ht => exact ⟨t, rfl, ht, rfl, rfl⟩
  | cons top operators ih =>
    cases h with
    | @more _ _ left right operands _ before hbelow hr hleft hright hfits =>
      apply ih
      refine hbelow.extend ⟨hleft, hright, hbelow.valid, hr⟩ ?_ rfl rfl
      intro u hu v hv
      obtain rfl : top = v := by simpa [root?] using hv
      exact hfits u hu

/-- Two operators of the sequence clash, and those between them are tighter. -/
def Conflict (ops : List Waiting) (e : ParseError) : Prop :=
  ∃ earlier left between right later, ops = earlier ++ left :: between ++ right :: later ∧
    (∀ v ∈ between, left.precedence < v.precedence) ∧ left.Clash right e

/-- **A sequence has a valid tree, which is found, or two of its operators clash.** -/
theorem Stacked.resolve {operators : List Waiting} {e : Expr} {operands : List OperatorTree}
    {first : Expr} {before : List (Waiting × Expr)}
    (h : Stacked operators (operand e :: operands) first before) (after : List (Waiting × Expr)) :
    (∃ t, resolve node operators (operand e :: operands) (after.map (Prod.map id operand)) = .ok t ∧
      t.Valid ∧ t.first = first ∧ t.more = before ++ after) ∨
    ∃ err, resolve node operators (operand e :: operands) (after.map (Prod.map id operand)) =
      .error (.error err) ∧ Conflict ((before ++ after).map Prod.fst) err := by
  induction after generalizing operators e operands before with
  | nil =>
    -- the operators that wait apply to what is left
    obtain ⟨t, hclose, ht, hfirst, hmore⟩ := h.close
    exact .inl ⟨t, hclose, ht, hfirst, by rw [hmore, List.append_nil]⟩
  | cons next after ih =>
    obtain ⟨w, x⟩ := next
    rw [List.map_cons, Prod.map_apply, Sequence.resolve, id]
    rcases h.reduceFor (w := w) (by simp [root?]) with
      ⟨operators', t', operands', hreduce, hstacked, hleft, hfits⟩ | ⟨err, hreduce, hclash⟩
    · -- the operator waits on top, with its right operand behind it
      rw [hreduce]
      have hnext : Stacked (w :: operators') (operand x :: t' :: operands') first
          (before ++ [(w, x)]) :=
        .more hstacked trivial hleft (by simp [root?]) hfits
      have hrest := ih hnext
      rwa [List.append_assoc, List.singleton_append] at hrest
    · -- the operators that clash stand in the sequence, with tighter ones between them
      rw [hreduce]
      obtain ⟨earlier, left, between, hbefore, hbetween, hclash⟩ := hclash
      refine .inr ⟨err, rfl, earlier, left, between, w, after.map Prod.fst, ?_, hbetween, hclash⟩
      simp [hbefore]

end Sequence

end CallByNeed

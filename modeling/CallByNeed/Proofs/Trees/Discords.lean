import CallByNeed.Error

/-!
# Trees of values and where they differ

A value whose parts have all been found is a tree.  Two trees are compared node by node, in the
order of their elements and of the tails of lists, and the comparison ends at the first place where
it cannot go on (`Tree.compare`).  All such places, in that order, are the discords of the trees
(`Tree.discords`); the first one decides the comparison (`Tree.compare_eq`), and there is none if
and only if the trees are the same and free of functions (`Tree.discords_eq_nil_iff`).
-/

namespace CallByNeed

/-- Values with all their parts.  Of a function nothing is known but that it is one. -/
inductive Tree where
  | integer (value : Int)
  | boolean (value : Bool)
  | function
  | tuple (elems : List Tree)
  | cons (head tail : Tree)
  | nil
deriving Repr

/-- Why two trees cannot be compared further at some place. -/
inductive Discord where
  /-- Two numbers or truth values, the lengths of two tuples, or the ends of two lists differ. -/
  | difference
  /-- There is a function on one of the sides. -/
  | function
  /-- The trees are of different kinds. -/
  | clash (lhs rhs : String)
deriving DecidableEq, Repr

namespace Discord

/-- The same discord with the sides exchanged. -/
def swap : Discord → Discord
  | clash lhs rhs => clash rhs lhs
  | d => d

/-- What the `==` at `span` comes to at the discord. -/
def verdict (span : Span) : Discord → Except EvalError Bool
  | difference => .ok false
  | function => .error (.typeMismatch "comparable value" "function" span)
  | clash lhs rhs => .error (.typeMismatch lhs rhs span)

end Discord

namespace Tree

/-- The word for the kind of a tree. -/
def typeName : Tree → String
  | integer _ => "integer"
  | boolean _ => "boolean"
  | function => "function"
  | tuple _ => "tuple"
  | cons .. | nil => "list"

mutual

/-- The tree has no function in it. -/
def isData : Tree → Bool
  | function => false
  | tuple ts => allData ts
  | cons h t => h.isData && t.isData
  | integer _ | boolean _ | nil => true

/-- The trees have no function in them. -/
def allData : List Tree → Bool
  | [] => true
  | t :: ts => t.isData && allData ts

end

mutual

/-- The comparison that the `==` at `span` makes. -/
def compare (span : Span) : Tree → Tree → Except EvalError Bool
  | function, _ | _, function => .error (.typeMismatch "comparable value" "function" span)
  | integer a, integer b => .ok (a == b)
  | boolean a, boolean b => .ok (a == b)
  | nil, nil => .ok true
  | nil, cons .. | cons .., nil => .ok false
  | tuple ts, tuple us => if ts.length = us.length then compareAll span ts us else .ok false
  | cons h t, cons h' t' => do if ← compare span h h' then compare span t t' else return false
  | t, u => .error (.typeMismatch t.typeName u.typeName span)

/-- Compares trees pairwise, up to the first difference. -/
def compareAll (span : Span) : List Tree → List Tree → Except EvalError Bool
  | t :: ts, u :: us => do if ← compare span t u then compareAll span ts us else return false
  | _, _ => .ok true

end

mutual

/-- The places where the trees cannot be compared further, in the order in which they come. -/
def discords : Tree → Tree → List Discord
  | function, _ | _, function => [.function]
  | integer a, integer b => if a = b then [] else [.difference]
  | boolean a, boolean b => if a = b then [] else [.difference]
  | nil, nil => []
  | nil, cons .. | cons .., nil => [.difference]
  | tuple ts, tuple us => if ts.length = us.length then discordsAll ts us else [.difference]
  | cons h t, cons h' t' => discords h h' ++ discords t t'
  | t, u => [.clash t.typeName u.typeName]

/-- The discords of pairs of trees. -/
def discordsAll : List Tree → List Tree → List Discord
  | t :: ts, u :: us => discords t u ++ discordsAll ts us
  | _, _ => []

end

/-! ### The first discord decides -/

/-- What the first discord is decided to be; without one the trees are equal. -/
def verdict (span : Span) : List Discord → Except EvalError Bool
  | [] => .ok true
  | d :: _ => d.verdict span

/-- The second part of a comparison is made if there is no discord in the first. -/
theorem verdict_append (span : Span) (ds ds' : List Discord) :
    verdict span (ds ++ ds') =
      (do if ← verdict span ds then verdict span ds' else return false) := by
  cases ds with
  | nil => rfl
  | cons d ds => cases d <;> rfl

mutual

/-- **The first discord decides the comparison.** -/
theorem compare_eq (span : Span) : ∀ t u : Tree, compare span t u = verdict span (discords t u)
  | function, u => by simp [compare, discords, verdict, Discord.verdict]
  | integer a, u => by
    cases u with
    | integer b => by_cases h : a = b <;> simp [compare, discords, verdict, Discord.verdict, h]
    | _ => rfl
  | boolean a, u => by
    cases u with
    | boolean b => by_cases h : a = b <;> simp [compare, discords, verdict, Discord.verdict, h]
    | _ => rfl
  | nil, u => by cases u <;> rfl
  | tuple ts, u => by
    cases u with
    | tuple us =>
      rw [compare, discords]
      -- elements are compared just if there are equally many
      split
      · exact compareAll_eq span ts us
      · rfl
    | _ => rfl
  | cons h t, u => by
    cases u with
    | cons h' t' =>
      rw [compare, discords, verdict_append, compare_eq span h h', compare_eq span t t']
    | _ => rfl

theorem compareAll_eq (span : Span) :
    ∀ ts us : List Tree, compareAll span ts us = verdict span (discordsAll ts us)
  | [], us => by simp [compareAll, discordsAll, verdict]
  | t :: ts, [] => by simp [compareAll, discordsAll, verdict]
  | t :: ts, u :: us => by
    rw [compareAll, discordsAll, verdict_append, compare_eq span t u, compareAll_eq span ts us]

end

/-! ### No discord -/

mutual

/-- **Without discords the trees are the same**, and free of functions. -/
theorem discords_eq_nil_iff : ∀ t u : Tree, discords t u = [] ↔ t = u ∧ t.isData = true
  | function, u => by simp [discords, isData]
  | integer a, u => by
    cases u with
    | integer b => simp [discords, isData]
    | _ => simp [discords]
  | boolean a, u => by
    cases u with
    | boolean b => simp [discords, isData]
    | _ => simp [discords]
  | nil, u => by
    cases u with
    | nil => simp [discords, isData]
    | _ => simp [discords]
  | tuple ts, u => by
    cases u with
    | tuple us =>
      rw [discords, tuple.injEq, isData]
      split
      · -- elements have no discord just if the tuples agree in length and element by element
        rename_i hlen
        exact discordsAll_eq_nil_iff ts us hlen
      · rename_i hlen
        exact iff_of_false (List.cons_ne_nil _ _) fun h => hlen (by rw [h.1])
    | _ => simp [discords]
  | cons h t, u => by
    cases u with
    | cons h' t' =>
      rw [discords, List.append_eq_nil_iff, discords_eq_nil_iff h h', discords_eq_nil_iff t t',
        cons.injEq, isData, Bool.and_eq_true]
      exact and_and_and_comm
    | _ => simp [discords]

theorem discordsAll_eq_nil_iff :
    ∀ ts us : List Tree, ts.length = us.length →
      (discordsAll ts us = [] ↔ ts = us ∧ allData ts = true)
  | [], us, hlen => by
    obtain rfl : us = [] := List.length_eq_zero_iff.1 hlen.symm
    simp [discordsAll, allData]
  | t :: ts, [], hlen => by cases hlen
  | t :: ts, u :: us, hlen => by
    rw [discordsAll, List.append_eq_nil_iff, discords_eq_nil_iff t u,
      discordsAll_eq_nil_iff ts us (Nat.succ.inj hlen), List.cons.injEq, allData,
      Bool.and_eq_true]
    exact and_and_and_comm

end

/-! ### Exchanged sides -/

mutual

/-- **The discords are the same from the other side.** -/
theorem discords_swap : ∀ t u : Tree, discords u t = (discords t u).map Discord.swap
  | function, u => by cases u <;> rfl
  | integer a, u => by
    cases u with
    | integer b =>
      rw [discords, discords]
      by_cases h : a = b
      · rw [if_pos h, if_pos h.symm, List.map_nil]
      · rw [if_neg h, if_neg (Ne.symm h)]
        rfl
    | _ => rfl
  | boolean a, u => by
    cases u with
    | boolean b =>
      rw [discords, discords]
      by_cases h : a = b
      · rw [if_pos h, if_pos h.symm, List.map_nil]
      · rw [if_neg h, if_neg (Ne.symm h)]
        rfl
    | _ => rfl
  | nil, u => by cases u <;> rfl
  | tuple ts, u => by
    cases u with
    | tuple us =>
      rw [discords, discords]
      -- equally many elements are equally many from the other side
      by_cases h : ts.length = us.length
      · rw [if_pos h, if_pos h.symm]
        exact discordsAll_swap ts us
      · rw [if_neg h, if_neg (Ne.symm h)]
        rfl
    | _ => rfl
  | cons h t, u => by
    cases u with
    | cons h' t' =>
      rw [discords, discords, List.map_append, discords_swap h h', discords_swap t t']
    | _ => rfl

theorem discordsAll_swap :
    ∀ ts us : List Tree, discordsAll us ts = (discordsAll ts us).map Discord.swap
  | [], us => by cases us <;> rfl
  | t :: ts, [] => by rfl
  | t :: ts, u :: us => by
    rw [discordsAll, discordsAll, List.map_append, discords_swap t u, discordsAll_swap ts us]

end

end Tree

end CallByNeed

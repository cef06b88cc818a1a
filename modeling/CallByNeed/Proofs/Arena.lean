import CallByNeed.Expr.Arena
import Mathlib.Data.List.Forall2

/-!
# Numbers keep their meaning

An arena only grows, so that what a number stands for never changes (`Extends.pattern?`,
`Extends.expr?`).  Hence a node can be added behind those that it refers to, and its number stands
for the tree that it makes of theirs (`Arena.expr?_pushExpr`).
-/

namespace CallByNeed

/-! ### The tree of a node -/

/-- A list is mapped successfully if every element is. -/
theorem mapM_eq_some_iff {α β : Type} {f : α → Option β} {as : List α} {bs : List β} :
    as.mapM f = some bs ↔ List.Forall₂ (fun a b => f a = some b) as bs := by
  induction as generalizing bs with
  | nil => simp [eq_comm]
  | cons a as ih =>
    rw [List.mapM_cons]
    constructor
    · intro h
      obtain ⟨b, hb, h⟩ := Option.bind_eq_some_iff.1 h
      obtain ⟨bs', hbs, h⟩ := Option.bind_eq_some_iff.1 h
      obtain rfl : b :: bs' = bs := Option.some.inj h
      exact .cons hb (ih.1 hbs)
    · intro h
      obtain ⟨b, bs', hb, hbs, rfl⟩ := List.forall₂_cons_left_iff.1 h
      simp [hb, ih.2 hbs]

/-- A function that says at least as much maps at least as much. -/
theorem mapM_mono {α β : Type} {f g : α → Option β} (h : ∀ a b, f a = some b → g a = some b)
    {as : List α} {bs : List β} (has : as.mapM f = some bs) : as.mapM g = some bs :=
  mapM_eq_some_iff.2 ((mapM_eq_some_iff.1 has).imp h)

section Tree

variable {pattern pattern' : PatternId → Option Pattern} {part part' : ExprId → Option Expr}
  {span : Span}

/-- Parts that stand for at least as much make at least as much of a node. -/
theorem PatternNode.tree?_mono (h : ∀ i p, pattern i = some p → pattern' i = some p)
    {node : PatternNode} {p : Pattern} (hp : node.tree? pattern span = some p) :
    node.tree? pattern' span = some p := by
  cases node with
  | bind | wildcard | integer | boolean | nil => exact hp
  | tuple elems =>
    obtain ⟨ps, hps, hp⟩ := Option.bind_eq_some_iff.1 hp
    exact Option.bind_eq_some_iff.2 ⟨ps, mapM_mono h hps, hp⟩
  | cons head tail =>
    obtain ⟨a, ha, hp⟩ := Option.bind_eq_some_iff.1 hp
    obtain ⟨b, hb, hp⟩ := Option.bind_eq_some_iff.1 hp
    exact Option.bind_eq_some_iff.2 ⟨a, h _ _ ha, Option.bind_eq_some_iff.2 ⟨b, h _ _ hb, hp⟩⟩

/-- Parts that stand for at least as much make at least as much of a node. -/
theorem ExprNode.tree?_mono (hpattern : ∀ i p, pattern i = some p → pattern' i = some p)
    (hpart : ∀ i e, part i = some e → part' i = some e) {node : ExprNode} {e : Expr}
    (he : node.tree? pattern part span = some e) : node.tree? pattern' part' span = some e := by
  -- a part is found, and then the parts behind it
  have hbind {α β : Type} {x x' : Option α} {f f' : α → Option β} {b : β}
      (hx : ∀ a, x = some a → x' = some a) (hf : ∀ a, f a = some b → f' a = some b)
      (h : x.bind f = some b) : x'.bind f' = some b := by
    obtain ⟨a, ha, h⟩ := Option.bind_eq_some_iff.1 h
    exact Option.bind_eq_some_iff.2 ⟨a, hx a ha, hf a h⟩
  cases node with
  | boolean | integer | identifier | nil => exact he
  | condition test yes no =>
    exact hbind (hpart test) (fun _ => hbind (hpart yes) fun _ => hbind (hpart no) fun _ => id) he
  | binary op lhs rhs => exact hbind (hpart lhs) (fun _ => hbind (hpart rhs) fun _ => id) he
  | lambda param body => exact hbind (hpattern param) (fun _ => hbind (hpart body) fun _ => id) he
  | apply func arg => exact hbind (hpart func) (fun _ => hbind (hpart arg) fun _ => id) he
  | bind param value body =>
    exact hbind (hpattern param)
      (fun _ => hbind (hpart value) fun _ => hbind (hpart body) fun _ => id) he
  | cases subject options =>
    refine hbind (hpart subject) (fun _ => hbind (fun _ => mapM_mono ?_) fun _ => id) he
    rintro ⟨param, body⟩ b
    exact hbind (hpattern param) fun _ => hbind (hpart body) fun _ => id
  | tuple elems => exact hbind (fun _ => mapM_mono hpart) (fun _ => id) he
  | cons head tail => exact hbind (hpart head) (fun _ => hbind (hpart tail) fun _ => id) he

end Tree

namespace Arena

variable {a b c : Arena}

/-! ### Growing -/

/-- Every node of the one arena is in the other, under the same number. -/
structure Extends (a b : Arena) : Prop where
  patterns : ∀ (i : Nat) node, a.patterns[i]? = some node → b.patterns[i]? = some node
  exprs : ∀ (i : Nat) node, a.exprs[i]? = some node → b.exprs[i]? = some node

theorem Extends.refl (a : Arena) : a.Extends a :=
  ⟨fun _ _ => id, fun _ _ => id⟩

theorem Extends.trans (hab : a.Extends b) (hbc : b.Extends c) : a.Extends c :=
  ⟨fun i node h => hbc.patterns i node (hab.patterns i node h),
    fun i node h => hbc.exprs i node (hab.exprs i node h)⟩

theorem earlier_eq_some_iff {α : Type} {id i : Nat} {f : (i : Nat) → i < id → Option α} {x : α} :
    earlier id f i = some x ↔ ∃ h : i < id, f i h = some x := by
  rw [earlier]
  split
  · rename_i h
    exact ⟨fun hx => ⟨h, hx⟩, fun ⟨_, hx⟩ => hx⟩
  · rename_i h
    exact ⟨fun hx => by simp at hx, fun ⟨h', _⟩ => absurd h' h⟩

/-- **The pattern of a number stays the same.** -/
theorem Extends.pattern? (h : a.Extends b) {id : PatternId} {p : Pattern}
    (hp : a.pattern? id = some p) : b.pattern? id = some p := by
  induction id using Nat.strongRecOn generalizing p with
  | _ id ih =>
    rw [Arena.pattern?] at hp ⊢
    split at hp
    · simp at hp
    · rename_i node span hnode
      simp only [h.patterns id _ hnode]
      -- the parts of a node have smaller numbers
      refine PatternNode.tree?_mono (fun i q hq => ?_) hp
      obtain ⟨hi, hq⟩ := earlier_eq_some_iff.1 hq
      exact earlier_eq_some_iff.2 ⟨hi, ih i hi hq⟩

/-- **The expression of a number stays the same.** -/
theorem Extends.expr? (h : a.Extends b) {id : ExprId} {e : Expr}
    (he : a.expr? id = some e) : b.expr? id = some e := by
  induction id using Nat.strongRecOn generalizing e with
  | _ id ih =>
    rw [Arena.expr?] at he ⊢
    split at he
    · simp at he
    · rename_i node span hnode
      simp only [h.exprs id _ hnode]
      -- the parts of a node have smaller numbers
      refine ExprNode.tree?_mono (fun _ _ => h.pattern?) (fun i q hq => ?_) he
      obtain ⟨hi, hq⟩ := earlier_eq_some_iff.1 hq
      exact earlier_eq_some_iff.2 ⟨hi, ih i hi hq⟩

theorem lt_of_pattern? {id : PatternId} {p : Pattern} (h : a.pattern? id = some p) :
    id < a.patterns.size := by
  rw [Arena.pattern?] at h
  split at h
  · simp at h
  · rename_i hnode
    exact (Array.getElem?_eq_some_iff.1 hnode).1

theorem lt_of_expr? {id : ExprId} {e : Expr} (h : a.expr? id = some e) : id < a.exprs.size := by
  rw [Arena.expr?] at h
  split at h
  · simp at h
  · rename_i hnode
    exact (Array.getElem?_eq_some_iff.1 hnode).1

/-! ### Adding a node -/

theorem extends_pushPattern (a : Arena) (span : Span) (node : PatternNode) :
    a.Extends (a.pushPattern span node).2 := by
  refine ⟨fun i node' h => ?_, fun i node' h => h⟩
  have hi := (Array.getElem?_eq_some_iff.1 h).1
  rw [pushPattern, Array.getElem?_push_lt hi, ← h, Array.getElem?_eq_getElem hi]

theorem extends_pushExpr (a : Arena) (span : Span) (node : ExprNode) :
    a.Extends (a.pushExpr span node).2 := by
  refine ⟨fun i node' h => h, fun i node' h => ?_⟩
  have hi := (Array.getElem?_eq_some_iff.1 h).1
  rw [pushExpr, Array.getElem?_push_lt hi, ← h, Array.getElem?_eq_getElem hi]

/-- **A new node stands for the pattern that its parts make.** -/
theorem pattern?_pushPattern {span : Span} {node : PatternNode} {p : Pattern}
    (h : node.tree? a.pattern? span = some p) :
    (a.pushPattern span node).2.pattern? (a.pushPattern span node).1 = some p := by
  have hnode : (a.pushPattern span node).2.patterns[a.patterns.size]? = some ⟨node, span⟩ := by
    simp [pushPattern]
  show (a.pushPattern span node).2.pattern? a.patterns.size = some p
  rw [Arena.pattern?, hnode]
  refine PatternNode.tree?_mono (fun i q hq => ?_) h
  exact earlier_eq_some_iff.2 ⟨lt_of_pattern? hq, (extends_pushPattern a span node).pattern? hq⟩

/-- **A new node stands for the expression that its parts make.** -/
theorem expr?_pushExpr {span : Span} {node : ExprNode} {e : Expr}
    (h : node.tree? a.pattern? a.expr? span = some e) :
    (a.pushExpr span node).2.expr? (a.pushExpr span node).1 = some e := by
  have hnode : (a.pushExpr span node).2.exprs[a.exprs.size]? = some ⟨node, span⟩ := by
    simp [pushExpr]
  have hgrow := extends_pushExpr a span node
  show (a.pushExpr span node).2.expr? a.exprs.size = some e
  rw [Arena.expr?, hnode]
  refine ExprNode.tree?_mono (fun _ _ => hgrow.pattern?) (fun i q hq => ?_) h
  exact earlier_eq_some_iff.2 ⟨lt_of_expr? hq, hgrow.expr? hq⟩

end Arena

end CallByNeed

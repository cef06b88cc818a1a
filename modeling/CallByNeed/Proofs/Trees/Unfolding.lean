import CallByNeed.Proofs.Afresh.Evaluation
import CallByNeed.Proofs.Interpretation.Runs
import CallByNeed.Proofs.Trees.Discords

/-!
# Trees of values

A value is unfolded to a tree by demanding all its parts (`Eval.treeOf`).  In which order this is
done, and under which limits, does not matter: the tree is the one that evaluation afresh gives the
value on the machine where the unfolding starts (`Machine.HasTree.given`), and it gives it at most
one (`Afresh.Value.HasTree.unique`).
-/

namespace CallByNeed

/-! ### Unfolding on a machine -/

/-- The tree of a value, found by demanding its parts from left to right, with the given number of
levels left for each of them.  It may have at most as many levels as the last number says. -/
def Eval.treeOf (config : Config) (levels : Nat) : Nat → Value → Eval Tree
  | 0, _ => limitReached config .unknown
  | height + 1, v => do
    let part (t : ThunkId) : Eval Tree := do
      treeOf config levels height (← force (eval config levels) t)
    match v with
    | .integer n => return .integer n
    | .boolean b => return .boolean b
    | .closure .. => return .function
    | .tuple ts => return .tuple (← ts.mapM part)
    | .cons head tail =>
      let h ← part head
      let t ← part tail
      return .cons h t
    | .nil => return .nil

/-- Unfolding the value on the machine succeeds under some limits, and gives the tree. -/
def Machine.HasTree (m : Machine) (v : Value) (t : Tree) : Prop :=
  ∃ config levels height m', Eval.treeOf config levels height v m = .ok t m'

namespace Afresh

/-! ### Unfolding afresh -/

mutual

/-- The parts of the value have values again, and so on to the ends of the tree. -/
inductive Value.HasTree : Value → Tree → Prop where
  | integer (n : Int) : Value.HasTree (.integer n) (.integer n)
  | boolean (b : Bool) : Value.HasTree (.boolean b) (.boolean b)
  | closure (param : Pattern) (body : Expr) (env : Env) :
    Value.HasTree (.closure param body env) .function
  | tuple {ss : List Suspension} {ts : List Tree} (h : List.Forall₂ Suspension.HasTree ss ts) :
    Value.HasTree (.tuple ss) (.tuple ts)
  | cons {s s' : Suspension} {t t' : Tree} (h : Suspension.HasTree s t)
    (h' : Suspension.HasTree s' t') : Value.HasTree (.cons s s') (.cons t t')
  | nil : Value.HasTree .nil .nil

/-- The value of the suspension has the tree. -/
inductive Suspension.HasTree : Suspension → Tree → Prop where
  | value {s : Suspension} {x : Value} {t : Tree} (hs : (demand s).Yields (.ok x))
    (h : Value.HasTree x t) : Suspension.HasTree s t

end

mutual

/-- **A value has at most one tree.** -/
theorem Value.HasTree.unique : ∀ {t u : Tree} {x : Value}, x.HasTree t → x.HasTree u → t = u
  | .integer n, _, _, .integer _, .integer _ => rfl
  | .boolean b, _, _, .boolean _, .boolean _ => rfl
  | .function, _, _, .closure .., .closure .. => rfl
  | .nil, _, _, .nil, .nil => rfl
  | .tuple ts, _, _, .tuple h, .tuple h' => by rw [trees_unique h h']
  | .cons t t', _, _, .cons h h', .cons g g' => by
    rw [Suspension.HasTree.unique h g, Suspension.HasTree.unique h' g']

theorem Suspension.HasTree.unique :
    ∀ {t u : Tree} {s : Suspension}, s.HasTree t → s.HasTree u → t = u
  | t, u, s, .value hs h, .value hs' h' => by
    obtain rfl := Except.ok.inj (hs.unique hs')
    exact h.unique h'

theorem trees_unique : ∀ {ts us : List Tree} {ss : List Suspension},
    List.Forall₂ Suspension.HasTree ss ts → List.Forall₂ Suspension.HasTree ss us → ts = us
  | [], _, _, .nil, .nil => rfl
  | t :: ts, _, _, .cons h hs, .cons g gs => by
    rw [Suspension.HasTree.unique h g, trees_unique hs gs]

end

/-! ### From machines to plans -/

section Machines

variable {w : World} {m k : Machine}

/-- **What is demanded is what evaluation afresh yields.** -/
theorem exists_of_force {config : Config} {levels : Nat} (hm : w.Consistent m) {t : ThunkId}
    {s : Suspension} (hs : w.HasSuspension t s) {v : CallByNeed.Value}
    (h : Eval.force (Eval.eval config levels) t m = .ok v k) :
    ∃ w' v', w ≤ w' ∧ w'.Consistent k ∧ w'.Reads v v' ∧ (demand s).Yields (.ok v') := by
  have hagrees := (evaluates_eval config levels).1.forces w t s hs m hm
  rw [h] at hagrees
  cases hagrees with
  | ok hw hk _ hread hy => exact ⟨_, _, hw, hk, hread, hy⟩

/-- **What is known of each suspension is known of all**, evaluated one after the other. -/
theorem exists_of_each {α β : Type} {x : ThunkId → Eval α} {R : World → ThunkId → β → Prop}
    {P : β → α → Prop} {ts : List ThunkId} {bs : List β} {as : List α} (hm : w.Consistent m)
    (hts : List.Forall₂ (R w) ts bs) (h : Eval.Each x m ts as k)
    (hR : ∀ {w w' : World} {t : ThunkId} {b : β}, w ≤ w' → R w t b → R w' t b)
    (hx : ∀ {w : World} {m k : Machine} {t : ThunkId} {b : β} {a : α}, w.Consistent m →
      R w t b → x t m = .ok a k → ∃ w', w ≤ w' ∧ w'.Consistent k ∧ P b a) :
    ∃ w', w ≤ w' ∧ w'.Consistent k ∧ List.Forall₂ P bs as := by
  induction h generalizing w bs with
  | nil =>
    cases hts
    exact ⟨w, w.le_refl, hm, .nil⟩
  | cons ht _ ih =>
    cases hts with
    | cons hb hbs =>
      obtain ⟨w₁, hw₁, hm₁, ha⟩ := hx hm hb ht
      obtain ⟨w₂, hw₂, hm₂, has⟩ := ih hm₁ (hbs.imp fun _ _ => hR hw₁)
      exact ⟨w₂, World.le_trans hw₁ hw₂, hm₂, .cons ha has⟩

/-- **The tree found on a machine is the one by evaluation afresh.** -/
theorem exists_of_treeOf {config : Config} {levels height : Nat} (hm : w.Consistent m)
    {v : CallByNeed.Value} {v' : Value} (hv : w.Reads v v') {t : Tree}
    (h : Eval.treeOf config levels height v m = .ok t k) :
    ∃ w', w ≤ w' ∧ w'.Consistent k ∧ v'.HasTree t := by
  induction height generalizing w m v v' t k with
  | zero => cases h
  | succ height ih =>
    -- a part is demanded and then unfolded, on the machine that the demand leaves
    have hpart : ∀ {w : World} {m k : Machine} {t : ThunkId} {s : Suspension} {a : Tree},
        w.Consistent m → w.HasSuspension t s →
        (do Eval.treeOf config levels height (← Eval.force (Eval.eval config levels) t)) m =
          .ok a k → ∃ w', w ≤ w' ∧ w'.Consistent k ∧ s.HasTree a := by
      intro w m k t s a hm hs h
      obtain ⟨v, n, hforce, h⟩ := Eval.bind_eq_ok.1 h
      obtain ⟨w₁, v', hw₁, hn, hread, hy⟩ := exists_of_force hm hs hforce
      obtain ⟨w₂, hw₂, hk, htree⟩ := ih hn hread h
      exact ⟨w₂, World.le_trans hw₁ hw₂, hk, .value hy htree⟩
    unfold Eval.treeOf at h
    cases hv with
    | integer n =>
      obtain ⟨rfl, rfl⟩ := Eval.pure_eq_ok.1 h
      exact ⟨w, w.le_refl, hm, .integer n⟩
    | boolean b =>
      obtain ⟨rfl, rfl⟩ := Eval.pure_eq_ok.1 h
      exact ⟨w, w.le_refl, hm, .boolean b⟩
    | closure param body _ =>
      obtain ⟨rfl, rfl⟩ := Eval.pure_eq_ok.1 h
      exact ⟨w, w.le_refl, hm, .closure param body _⟩
    | tuple hts =>
      -- elements are unfolded from left to right, and the tail of a cell behind its head
      obtain ⟨trees, n, htrees, h⟩ := Eval.bind_eq_ok.1 h
      obtain ⟨rfl, rfl⟩ := Eval.pure_eq_ok.1 h
      obtain ⟨w', hw', hm', hss⟩ :=
        exists_of_each hm hts (Eval.mapM_eq_ok.1 htrees) (fun hw => hw.1 _ _) hpart
      exact ⟨w', hw', hm', .tuple hss⟩
    | cons hhead htail =>
      obtain ⟨head, n, hh, h⟩ := Eval.bind_eq_ok.1 h
      obtain ⟨tail, n', ht, h⟩ := Eval.bind_eq_ok.1 h
      obtain ⟨rfl, rfl⟩ := Eval.pure_eq_ok.1 h
      obtain ⟨w₁, hw₁, hm₁, hs⟩ := hpart hm hhead hh
      obtain ⟨w₂, hw₂, hm₂, hs'⟩ := hpart hm₁ (hw₁.1 _ _ htail) ht
      exact ⟨w₂, World.le_trans hw₁ hw₂, hm₂, .cons hs hs'⟩
    | nil =>
      obtain ⟨rfl, rfl⟩ := Eval.pure_eq_ok.1 h
      exact ⟨w, w.le_refl, hm, .nil⟩

end Machines

end Afresh

/-- **A tree found on a machine is that of the value by evaluation afresh**, and so the only one. -/
theorem Machine.HasTree.given {m : Machine} {v : Value} {t : Tree} (h : m.HasTree v t)
    (hm : m.Closed) (hv : m.HasPartsOf v) : (Afresh.Value.given m v).HasTree t := by
  obtain ⟨config, levels, height, m', hrun⟩ := h
  obtain ⟨_, _, _, htree⟩ :=
    Afresh.exists_of_treeOf (Afresh.World.consistent_given hm) (Afresh.World.reads_given hv) hrun
  exact htree

end CallByNeed

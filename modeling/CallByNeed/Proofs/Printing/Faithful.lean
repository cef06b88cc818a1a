import CallByNeed.Proofs.Printing.Limits
import CallByNeed.Proofs.Trees.Splicing
import CallByNeed.Proofs.Trees.Unfolding

/-!
# The text of a value

A value with a tree that fits into the limit is printed as the text of the tree
(`Afresh.printsTree_renderAt`), whatever is evaluated on the way.  So two values are printed alike
if and only if their trees are the same after splicing (`Eval.render_eq_iff`), and values whose
trees have nothing to splice are known from their texts.  Brackets are missing for chains of cells
that are elements of such chains, so trees with them are not known (`Eval.not_render_injective`).
-/

namespace CallByNeed

/-! ### Trees that are printed whole -/

namespace Tree

/-- How many cells there are one behind the other. -/
def cells : Tree → Nat
  | cons _ t => t.cells + 1
  | _ => 0

mutual

/-- There are no more elements in any tuple and any list than the limit says. -/
def fits (limit : Nat) : Tree → Bool
  | tuple ts => ts.length ≤ limit && allFit limit ts
  | cons h t => (cons h t).cells ≤ limit && h.fits limit && t.fits limit
  | _ => true

/-- All the trees fit into the limit. -/
def allFit (limit : Nat) : List Tree → Bool
  | [] => true
  | t :: ts => t.fits limit && allFit limit ts

end

theorem allFit_iff {limit : Nat} {ts : List Tree} :
    allFit limit ts = true ↔ ∀ t ∈ ts, t.fits limit = true := by
  induction ts with
  | nil => simp [allFit]
  | cons t ts ih => simp [allFit, ih]

theorem cells_foldr_cons (items : List Tree) (e : Tree) :
    (items.foldr cons e).cells = items.length + e.cells := by
  induction items with
  | nil => simp
  | cons h items ih => rw [List.foldr_cons, cells, ih, List.length_cons, Nat.add_right_comm]

theorem cells_le_of_fits {limit : Nat} {t : Tree} (h : t.fits limit = true) : t.cells ≤ limit := by
  cases t with
  | cons h t => simp_all [fits]
  | _ => exact Nat.zero_le limit

/-- What fits has elements that fit, and an end that does. -/
theorem fits_of_foldr_cons {limit : Nat} {items : List Tree} {e : Tree}
    (h : (items.foldr cons e).fits limit = true) :
    (∀ t ∈ items, t.fits limit = true) ∧ e.fits limit = true := by
  induction items with
  | nil => exact ⟨by simp, h⟩
  | cons t items ih =>
    obtain ⟨⟨-, ht⟩, hrest⟩ :
        (_ ∧ t.fits limit = true) ∧ (items.foldr cons e).fits limit = true := by
      simpa [fits] using h
    obtain ⟨hitems, he⟩ := ih hrest
    exact ⟨List.forall_mem_cons.2 ⟨ht, hitems⟩, he⟩

end Tree

namespace Afresh

/-! ### Trees of a machine -/

/-- The suspension at the address has the tree. -/
def World.HasTree (w : World) (t : ThunkId) (tree : Tree) : Prop :=
  ∃ s, w.HasSuspension t s ∧ s.HasTree tree

/-- The value has the tree. -/
def World.ReadsTree (w : World) (v : CallByNeed.Value) (tree : Tree) : Prop :=
  ∃ v', w.Reads v v' ∧ v'.HasTree tree

/-- The suspension at the address has the tree, and that fits into the limit. -/
def World.HasFitting (limit : Nat) (w : World) (t : ThunkId) (tree : Tree) : Prop :=
  tree.fits limit = true ∧ w.HasTree t tree

section Trees

variable {w w' : World} {m n k : Machine} {v last : CallByNeed.Value} {tree : Tree}
  {config : Config} {levels : Nat}

theorem World.HasTree.mono (hw : w ≤ w') {t : ThunkId} (h : w.HasTree t tree) :
    w'.HasTree t tree :=
  h.imp fun s hs => ⟨hw.1 t s hs.1, hs.2⟩

theorem World.ReadsTree.mono (hw : w ≤ w') (h : w.ReadsTree v tree) : w'.ReadsTree v tree :=
  h.imp fun _ hs => ⟨hs.1.mono hw, hs.2⟩

theorem World.hasTree_of_forall₂ {ts : List ThunkId} {ss : List Suspension}
    (hts : List.Forall₂ w.HasSuspension ts ss) {trees : List Tree}
    (htrees : List.Forall₂ Suspension.HasTree ss trees) : List.Forall₂ w.HasTree ts trees := by
  induction hts generalizing trees with
  | nil =>
    cases htrees
    exact .nil
  | cons hs _ ih =>
    cases htrees with
    | cons htree htrees => exact .cons ⟨_, hs, htree⟩ (ih htrees)

/-- The elements of a tuple have the trees of its tree. -/
theorem World.ReadsTree.tuple {ts : List ThunkId} (h : w.ReadsTree (.tuple ts) tree) :
    ∃ trees, tree = .tuple trees ∧ List.Forall₂ w.HasTree ts trees := by
  obtain ⟨_, hread, htree⟩ := h
  cases hread with
  | tuple hts =>
    cases htree with
    | tuple htrees => exact ⟨_, rfl, hasTree_of_forall₂ hts htrees⟩

/-- The parts of a cell have the trees of its tree. -/
theorem World.ReadsTree.cons {head tail : ThunkId} (h : w.ReadsTree (.cons head tail) tree) :
    ∃ t t', tree = .cons t t' ∧ w.HasTree head t ∧ w.HasTree tail t' := by
  obtain ⟨_, hread, htree⟩ := h
  cases hread with
  | cons hhead htail =>
    cases htree with
    | cons ht ht' => exact ⟨_, _, rfl, ⟨_, hhead, ht⟩, ⟨_, htail, ht'⟩⟩

theorem World.ReadsTree.nil (h : w.ReadsTree .nil tree) : tree = .nil := by
  obtain ⟨_, hread, htree⟩ := h
  cases hread
  cases htree
  rfl

theorem World.ReadsTree.cells_pos (h : w.ReadsTree v tree) (hcons : v.isCons = true) :
    1 ≤ tree.cells := by
  cases v with
  | cons head tail =>
    obtain ⟨t, t', rfl, -⟩ := h.cons
    exact Nat.succ_pos _
  | _ => cases hcons

/-- What is neither a cell nor the end of a list has no tree of those. -/
theorem World.ReadsTree.not_list (h : w.ReadsTree v tree) (hcons : v.isCons = false)
    (hnil : v ≠ .nil) : tree.isList = false := by
  obtain ⟨_, hread, htree⟩ := h
  cases hread with
  | cons => cases hcons
  | nil => exact absurd rfl hnil
  | _ => cases htree; rfl

/-- **What is demanded has the tree of its suspension.** -/
theorem exists_readsTree_of_force (hm : w.Consistent m) {t : ThunkId} (ht : w.HasTree t tree)
    (h : Eval.force (Eval.eval config levels) t m = .ok v k) :
    ∃ w', w ≤ w' ∧ w'.Consistent k ∧ w'.ReadsTree v tree := by
  obtain ⟨s, hs, htree⟩ := ht
  obtain ⟨w', v', hw, hk, hread, hy⟩ := exists_of_force hm hs h
  obtain ⟨hx, htree⟩ := htree
  obtain rfl := Except.ok.inj (hy.unique hx)
  exact ⟨w', hw, hk, v', hread, htree⟩

/-- **A walk along a list passes the elements of its tree.** -/
theorem exists_of_walk {heads : List ThunkId}
    (h : Eval.Walk (Eval.force (Eval.eval config levels)) m v heads last n) (hm : w.Consistent m)
    (hv : w.ReadsTree v tree) :
    ∃ w' items e, w ≤ w' ∧ w'.Consistent n ∧ List.Forall₂ w'.HasTree heads items ∧
      w'.ReadsTree last e ∧ tree = items.foldr .cons e := by
  induction h generalizing w tree with
  | stop => exact ⟨w, [], tree, w.le_refl, hm, .nil, hv, rfl⟩
  | pass hforce _ ih =>
    obtain ⟨t, t', rfl, ht, ht'⟩ := hv.cons
    obtain ⟨w₁, hw₁, hm₁, hnext⟩ := exists_readsTree_of_force hm ht' hforce
    obtain ⟨w₂, items, e, hw₂, hm₂, hitems, hlast, rfl⟩ := ih hm₁ hnext
    have hw := World.le_trans hw₁ hw₂
    exact ⟨w₂, t :: items, e, hw, hm₂, .cons (ht.mono hw) hitems, hlast, rfl⟩

end Trees

/-! ### The text printed -/

section Texts

variable {config : Config} {levels : Nat}

/-- There is room for a walk along all cells of a tree that fits: at its end is no cell. -/
theorem isCons_eq_false_of_fits {w : World} {last : CallByNeed.Value} {items : List Tree} {e : Tree}
    (hlast : w.ReadsTree last e) (hpos : 1 ≤ (items.foldr Tree.cons e).cells)
    (hfits : (items.foldr Tree.cons e).fits config.renderLimit = true)
    (hroom : Eval.listRoom config ≤ items.length) : last.isCons = false := by
  have hcells := Tree.cells_le_of_fits hfits
  rw [Eval.listRoom_of_pos (hpos.trans hcells)] at hroom
  rw [Tree.cells_foldr_cons] at hcells
  by_contra hcons
  have hbehind := hlast.cells_pos (by simpa using hcons)
  omega

/-- Values whose trees fit are printed as the texts of their trees. -/
def PrintsTree (limit : Nat) (print : CallByNeed.Value → Eval String) : Prop :=
  ∀ {w : World} {m k : Machine} {v : CallByNeed.Value} {tree : Tree} {text : String},
    w.Consistent m → w.ReadsTree v tree → tree.fits limit = true → print v m = .ok text k →
    ∃ w', w ≤ w' ∧ w'.Consistent k ∧ tree.text = text

section Nested

variable (hnested : PrintsTree config.renderLimit (Eval.nestedText config levels)) {w : World}
  {m n k : Machine} {text : String} {tree : Tree}

include hnested

/-- **An element is printed as the text of its tree.** -/
theorem exists_of_fitting {t : ThunkId} (hm : w.Consistent m)
    (ht : World.HasFitting config.renderLimit w t tree)
    (h : Eval.elementText config levels t m = .ok text k) :
    ∃ w', w ≤ w' ∧ w'.Consistent k ∧ tree.text = text := by
  obtain ⟨v, n, hforce, h⟩ := Eval.bind_eq_ok.1 h
  obtain ⟨w₁, hw₁, hn, hv⟩ := exists_readsTree_of_force hm ht.2 hforce
  obtain ⟨w₂, hw₂, hk, htext⟩ := hnested hn hv ht.1 h
  exact ⟨w₂, World.le_trans hw₁ hw₂, hk, htext⟩

/-- **Elements are printed as the texts of their trees.** -/
theorem exists_of_elementText {ts : List ThunkId} {trees : List Tree} {texts : List String}
    (hm : w.Consistent m) (hts : List.Forall₂ w.HasTree ts trees)
    (hfits : ∀ tree ∈ trees, tree.fits config.renderLimit = true)
    (h : Eval.Each (Eval.elementText config levels) m ts texts k) :
    ∃ w', w ≤ w' ∧ w'.Consistent k ∧ trees.map Tree.text = texts := by
  have hboth : List.Forall₂ (World.HasFitting config.renderLimit w) ts trees :=
    ((List.forall₂_and_left trees ts).2 ⟨hfits, hts.flip⟩).flip
  obtain ⟨w', hw, hk, htexts⟩ := exists_of_each (P := fun tree text => tree.text = text) hm hboth h
    (fun hw h => ⟨h.1, h.2.mono hw⟩) (exists_of_fitting hnested)
  exact ⟨w', hw, hk, List.forall₂_eq_eq_eq ▸ List.forall₂_map_left_iff.2 htexts⟩

/-- **Cells are printed as the text of their tree.** -/
theorem exists_of_renderAt_cons {head tail : ThunkId} (hm : w.Consistent m)
    (hv : w.ReadsTree (.cons head tail) tree) (hfits : tree.fits config.renderLimit = true)
    (h : Eval.renderAt config levels (.cons head tail) m = .ok text k) :
    ∃ w', w ≤ w' ∧ w'.Consistent k ∧ tree.text = text := by
  obtain ⟨heads, last, n, hwalk, hle, hend⟩ := Eval.exists_walk
    (Eval.force (Eval.eval config levels)) (Eval.listRoom config) (.cons head tail) m
  obtain ⟨w₁, items, e, hw₁, hn, hitems, hlast, rfl⟩ := exists_of_walk hwalk hm hv
  obtain ⟨hfit, hfite⟩ := Tree.fits_of_foldr_cons hfits
  -- the walk goes to the end of the list, since the tree fits the limit
  have hcons : last.isCons = false := by
    rcases hend with hend | ⟨-, next, further, e, k', -, -, herror⟩
    · rcases Nat.lt_or_ge heads.length (Eval.listRoom config) with hlt | hge
      · exact hend hlt
      · exact isCons_eq_false_of_fits hlast (hv.cells_pos rfl) hfits (hitems.length_eq ▸ hge)
    · rw [Eval.renderAt_cons, Eval.bind_apply_error herror] at h
      cases h
  -- a list ends with nil and is printed in brackets; every other value behind the cells makes a
  -- chain
  by_cases hnil : last = .nil
  · subst hnil
    obtain ⟨texts, htexts, rfl⟩ := (hwalk.prints_whole hle text k).1 h
    obtain ⟨w₂, hw₂, hk, rfl⟩ := exists_of_elementText hnested hn hitems hfit htexts
    refine ⟨w₂, World.le_trans hw₁ hw₂, hk, ?_⟩
    rw [hlast.nil, Tree.text_list, Eval.dots, if_neg (by simp), List.append_nil]
  · obtain ⟨texts, n', ending, htexts, hending, rfl⟩ :=
      (hwalk.prints_chain hle hcons hnil text k).1 h
    obtain ⟨w₂, hw₂, hn', rfl⟩ := exists_of_elementText hnested hn hitems hfit htexts
    have hn'' : w₂.Consistent { n' with hits := n'.hits + 1 } := hn'.congr rfl rfl
    obtain ⟨w₃, hw₃, hk, rfl⟩ := hnested hn'' (hlast.mono hw₂) hfite hending
    exact ⟨w₃, World.le_trans hw₁ (World.le_trans hw₂ hw₃), hk,
      Tree.text_chain items (hlast.not_list hcons hnil)⟩

end Nested

theorem printsTree_of_nested
    (hnested : PrintsTree config.renderLimit (Eval.nestedText config levels)) :
    PrintsTree config.renderLimit (Eval.renderAt config levels) := by
  intro w m k v tree text hm hv hfits h
  cases v with
  | cons head tail => exact exists_of_renderAt_cons hnested hm hv hfits h
  | tuple ts =>
    obtain ⟨trees, rfl, htrees⟩ := hv.tuple
    -- the tree fits the limit, so that no element is left out
    obtain ⟨hlength, hfits⟩ : trees.length ≤ config.renderLimit ∧
        Tree.allFit config.renderLimit trees = true := by simpa [Tree.fits] using hfits
    rw [← htrees.length_eq] at hlength
    obtain ⟨texts, htexts, rfl⟩ := (Eval.prints_tuple config levels m ts text k).1 h
    rw [List.take_of_length_le hlength] at htexts
    obtain ⟨w', hw, hk, rfl⟩ :=
      exists_of_elementText hnested hm htrees (Tree.allFit_iff.1 hfits) htexts
    refine ⟨w', hw, hk, ?_⟩
    rw [Tree.text_tuple, Eval.dots, if_neg (by simpa using hlength), List.append_nil]
  -- other values are printed as they are
  | _ =>
    obtain ⟨_, hread, htree⟩ := hv
    cases hread
    cases htree
    rw [Eval.renderAt_eq] at h
    obtain ⟨rfl, rfl⟩ := Eval.pure_eq_ok.1 h
    exact ⟨w, w.le_refl, hm, rfl⟩

/-- **A value is printed as the text of its tree**, if that fits. -/
theorem printsTree_renderAt (config : Config) (levels : Nat) :
    PrintsTree config.renderLimit (Eval.renderAt config levels) := by
  induction levels with
  | zero => exact printsTree_of_nested fun _ _ _ h => by cases h
  | succ levels ih => exact printsTree_of_nested ih

end Texts

end Afresh

namespace Eval

/-- **A value that fits is printed as the text of its tree.** -/
theorem render_eq_text {config : Config} {m m' : Machine} {v : Value} {t : Tree} {text : String}
    (hm : m.Closed) (hv : m.HasPartsOf v) (ht : m.HasTree v t)
    (hfits : t.fits config.renderLimit = true) (h : render config v m = .ok text m') :
    t.text = text := by
  obtain ⟨_, -, -, htext⟩ := Afresh.printsTree_renderAt config config.maxDepth
    (Afresh.World.consistent_given hm) ⟨_, Afresh.World.reads_given hv, ht.given hm hv⟩ hfits h
  exact htext

/-- **Printing is faithful up to splicing.**  Two values with trees that fit into the limits are
printed with the same text if and only if their trees are the same once every chain of cells is
spliced into the chain that it is an element of.  In particular the trees are the same if there are
no such chains in them.  The values may be those of different machines. -/
theorem render_eq_iff (config config' : Config) (m n m' n' : Machine) (x y : Value) (t u : Tree)
    (text text' : String) (hm : m.Closed) (hn : n.Closed) (hx : m.HasPartsOf x)
    (hy : n.HasPartsOf y) (ht : m.HasTree x t) (hu : n.HasTree y u)
    (htfits : t.fits config.renderLimit = true) (hufits : u.fits config'.renderLimit = true)
    (hxtext : render config x m = .ok text m') (hytext : render config' y n = .ok text' n') :
    (text = text' ↔ t.spliced = u.spliced) ∧
      (t.isPlain = true → u.isPlain = true → text = text' → t = u) := by
  obtain rfl := render_eq_text hm hx ht htfits hxtext
  obtain rfl := render_eq_text hn hy hu hufits hytext
  refine ⟨Tree.text_eq_iff, fun htplain huplain htext => ?_⟩
  rw [← Tree.spliced_of_isPlain htplain, Tree.text_eq_iff.1 htext,
    Tree.spliced_of_isPlain huplain]

/-- A pair of a list and a chain is not printed as the same pair with its parts exchanged. -/
theorem render_eq_iff_pairs :
    let cells : Array Cell := #[.evaluated (.integer 1), .evaluated .nil, .evaluated (.cons 0 1),
      .evaluated (.cons 0 0)]
    let m : Machine := { Machine.initial with cells }
    let x : Value := .tuple [2, 3]
    let y : Value := .tuple [3, 2]
    let list : Tree := .cons (.integer 1) .nil
    let chain : Tree := .cons (.integer 1) (.integer 1)
    let t : Tree := .tuple [list, chain]
    let u : Tree := .tuple [chain, list]
    ((m.Closed ∧ m.HasPartsOf x ∧ m.HasPartsOf y) ∧ (m.HasTree x t ∧ m.HasTree y u) ∧
        t.fits 2 = true ∧ u.fits 2 = true) ∧
      ∃ text text' m' n', render { renderLimit := 2 } x m = .ok text m' ∧
        render { renderLimit := 2 } y m = .ok text' n' ∧ text ≠ text' := by
  intro cells m x y list chain t u
  have hm : m.Closed :=
    Machine.closed_of_cells (by simp [cells, Machine.HasContentOf, Machine.HasPartsOf])
  have hx : m.HasPartsOf x := by simp [x, m, cells, Machine.HasPartsOf]
  have hy : m.HasPartsOf y := by simp [y, m, cells, Machine.HasPartsOf]
  have ht : m.HasTree x t := ⟨{}, 1, 3, _, rfl⟩
  have hu : m.HasTree y u := ⟨{}, 1, 3, _, rfl⟩
  obtain ⟨m', hxtext⟩ := exists_of_split (r := render { renderLimit := 2 } x m)
    (a := "([1], 1 : 1)") (by decide +kernel)
  obtain ⟨n', hytext⟩ := exists_of_split (r := render { renderLimit := 2 } y m)
    (a := "(1 : 1, [1])") (by decide +kernel)
  refine ⟨⟨⟨hm, hx, hy⟩, ⟨ht, hu⟩, rfl, rfl⟩, _, _, m', n', hxtext, hytext, fun htext => ?_⟩
  have hplain := (render_eq_iff _ _ m m m' n' x y t u _ _ hm hm hx hy ht hu rfl rfl hxtext hytext).2
  exact absurd (hplain rfl rfl htext) (by simp [t, u, list, chain])

/-- **The texts of chains within chains are ambiguous**: `(1 : 1) : 1` and `1 : (1 : 1)` are printed
alike. -/
theorem not_render_injective :
    ¬∀ (config : Config) (m : Machine) (x y : Value) (t u : Tree) (limit : Nat) (text : String)
        (m' n' : Machine), m.Closed → m.HasPartsOf x → m.HasPartsOf y → m.HasTree x t →
      m.HasTree y u → t.isData = true → u.isData = true → limit < config.renderLimit →
      t.fits limit = true → u.fits limit = true → render config x m = .ok text m' →
      render config y m = .ok text n' → t = u := by
  intro h
  let m : Machine :=
    { Machine.initial with cells := #[.evaluated (.integer 1), .evaluated (.cons 0 0)] }
  let one : Tree := .integer 1
  have hm : m.Closed := Machine.closed_of_cells (by simp [Machine.HasContentOf, Machine.HasPartsOf])
  have hx : m.HasTree (.cons 1 0) (.cons (.cons one one) one) := ⟨{}, 1, 3, _, rfl⟩
  have hy : m.HasTree (.cons 0 1) (.cons one (.cons one one)) := ⟨{}, 1, 3, _, rfl⟩
  obtain ⟨m', hxtext⟩ := exists_of_split (r := render { renderLimit := 3 } (.cons 1 0) m)
    (a := "1 : 1 : 1") (by decide +kernel)
  obtain ⟨n', hytext⟩ := exists_of_split (r := render { renderLimit := 3 } (.cons 0 1) m)
    (a := "1 : 1 : 1") (by decide +kernel)
  have heq := h _ m _ _ _ _ 2 _ m' n' hm (by simp [m, Machine.HasPartsOf])
    (by simp [m, Machine.HasPartsOf]) hx hy rfl rfl (by decide) rfl rfl hxtext hytext
  simp [one] at heq

end Eval

end CallByNeed

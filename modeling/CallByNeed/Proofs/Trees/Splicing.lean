import CallByNeed.Proofs.Trees.Text

/-!
# Trees with the same text

A chain that is an element of another one is printed without brackets, and so its text is that of
the longer chain in which its own elements stand in its place.  With all such chains spliced
(`Tree.spliced`) the trees with the same text are the same (`Tree.text_eq_iff`), and trees without
such chains are known from their texts (`Tree.spliced_of_isPlain`).
-/

namespace CallByNeed

namespace Tree

/-! ### Lists and chains -/

/-- The cells end in `[]`. -/
def isList : Tree → Bool
  | nil => true
  | cons _ t => t.isList
  | _ => false

/-- There are cells, and they do not end in `[]`. -/
def isChain : Tree → Bool
  | cons _ t => !t.isList
  | _ => false

mutual

/-- No chain is an element of another one. -/
def isPlain : Tree → Bool
  | tuple ts => allPlain ts
  | cons h t => h.isPlain && t.isPlain && (t.isList || !h.isChain)
  | _ => true

/-- In none of the trees is a chain an element of another one. -/
def allPlain : List Tree → Bool
  | [] => true
  | t :: ts => t.isPlain && allPlain ts

end

variable {h t u : Tree}

/-- A list is printed as one link. -/
theorem exists_chain_of_isList : ∀ {t : Tree}, t.isList = true → ∃ es, t.chain = .mk (.list es) []
  | nil, _ => ⟨[], rfl⟩
  | cons h t, ht => by
    obtain ⟨es, hes⟩ := exists_chain_of_isList (t := t) ht
    exact ⟨h.chain :: es, by rw [chain, hes, Chain.before]⟩

/-- Where the rest is not closed by `[]` its links come behind those of the element. -/
theorem before_mk {a b : Link} {as bs : List Link}
    (hlist : ∀ es, Chain.mk b bs ≠ .mk (.list es) []) :
    (Chain.mk a as).before (.mk b bs) = .mk a (as ++ b :: bs) := by
  rw [Chain.before]
  rintro es rfl rfl
  exact hlist es rfl

theorem before_of_ne_list {c d : Chain} (hd : ∀ es, d ≠ .mk (.list es) []) :
    ∃ a as b bs, c = .mk a as ∧ d = .mk b bs ∧ c.before d = .mk a (as ++ b :: bs) := by
  obtain ⟨a, as⟩ := c
  obtain ⟨b, bs⟩ := d
  exact ⟨a, as, b, bs, rfl, rfl, before_mk hd⟩

/-- Nothing else is printed as a list. -/
theorem chain_ne_list : ∀ {t : Tree}, t.isList = false → ∀ es, t.chain ≠ .mk (.list es) []
  | integer _, _, _ => by simp [chain]
  | boolean _, _, _ => by simp [chain]
  | function, _, _ => by simp [chain]
  | tuple _, _, _ => by simp [chain]
  | cons h t, ht, es => by
    obtain ⟨a, as, b, bs, -, -, hbefore⟩ :=
      before_of_ne_list (c := h.chain) (chain_ne_list (t := t) ht)
    rw [chain, hbefore]
    simp

/-! ### What is printed of cells -/

theorem isList_foldr_cons (items : List Tree) (e : Tree) :
    (items.foldr cons e).isList = e.isList := by
  induction items with
  | nil => rfl
  | cons h items ih => exact ih

theorem chain_foldr_nil (items : List Tree) :
    (items.foldr cons nil).chain = .mk (.list (items.map chain)) [] := by
  induction items with
  | nil => rfl
  | cons h items ih => rw [List.foldr_cons, chain, ih, Chain.before, List.map_cons]

theorem text_before {c d : Chain} (hd : ∀ es, d ≠ .mk (.list es) []) :
    (c.before d).text = c.text ++ " : " ++ d.text := by
  obtain ⟨a, as, b, bs, rfl, rfl, hbefore⟩ := before_of_ne_list (c := c) hd
  rw [hbefore]
  simp only [Chain.text, linkTexts_eq_map]
  rw [← List.map_cons, ← List.map_cons, ← List.map_cons, ← List.cons_append, List.map_append,
    String.intercalate_append_of_ne_nil (by simp) (by simp)]

/-- **The elements of a tuple are printed in parentheses.** -/
theorem text_tuple (ts : List Tree) :
    (tuple ts).text = "(" ++ ", ".intercalate (ts.map text) ++ ")" := by
  have htext : (ts.map chain).map Chain.text = ts.map text := List.map_map
  simp [text, chain, Chain.text, Link.text, -List.map_map, htext]

/-- **The elements of a list are printed in brackets.** -/
theorem text_list (items : List Tree) :
    (items.foldr cons nil).text = "[" ++ ", ".intercalate (items.map text) ++ "]" := by
  have htext : (items.map chain).map Chain.text = items.map text := List.map_map
  rw [text, chain_foldr_nil]
  simp [Chain.text, Link.text, -List.map_map, htext]

/-- **The elements of a chain are printed with colons**, and its end too. -/
theorem text_chain (items : List Tree) {e : Tree} (he : e.isList = false) :
    (items.foldr cons e).text = " : ".intercalate (items.map text ++ [e.text]) := by
  induction items with
  | nil => simp
  | cons h items ih =>
    have hrest : (items.foldr cons e).isList = false := by rw [isList_foldr_cons, he]
    rw [List.foldr_cons, text, chain, text_before (chain_ne_list hrest), ← text, ← text, ih,
      List.map_cons, List.cons_append, String.intercalate_cons_of_ne_nil (by simp)]

/-- **A cell is printed as a list or as a chain**, depending on how its tail ends. -/
theorem chain_cons (h t : Tree) :
    (t.isList = true ∧ ∃ es, t.chain = .mk (.list es) [] ∧
        (cons h t).chain = .mk (.list (h.chain :: es)) []) ∨
      t.isList = false ∧ ∃ a as b bs, h.chain = .mk a as ∧ t.chain = .mk b bs ∧
        (cons h t).chain = .mk a (as ++ b :: bs) := by
  cases ht : t.isList with
  | true =>
    obtain ⟨es, hes⟩ := exists_chain_of_isList ht
    exact .inl ⟨rfl, es, hes, by rw [chain, hes, Chain.before]⟩
  | false => exact .inr ⟨rfl, before_of_ne_list (chain_ne_list ht)⟩

/-- A tree that is no chain is printed as one link. -/
theorem exists_chain_of_not_isChain (ht : t.isChain = false) : ∃ a, t.chain = .mk a [] := by
  cases t with
  | cons h t =>
    have ht : t.isList = true := by simpa [isChain] using ht
    obtain ⟨es, hes⟩ := exists_chain_of_isList (t := cons h t) ht
    exact ⟨_, hes⟩
  | _ => exact ⟨_, rfl⟩

/-- **A cell is split at its first link**, if the head is no chain that has merged with it. -/
theorem chain_cons_inj {h t h' t' : Tree} (hend : t.isList = true ∨ h.isChain = false)
    (hend' : t'.isList = true ∨ h'.isChain = false) (heq : (cons h t).chain = (cons h' t').chain) :
    h.chain = h'.chain ∧ t.chain = t'.chain := by
  rcases chain_cons h t with ⟨-, es, ht, hcell⟩ | ⟨hlist, a, as, b, bs, hh, ht, hcell⟩
  <;> rcases chain_cons h' t' with
    ⟨-, es', ht', hcell'⟩ | ⟨hlist', a', as', b', bs', hh', ht', hcell'⟩
  <;> rw [hcell, hcell', Chain.mk.injEq] at heq
  · obtain ⟨hhead, rfl⟩ : h.chain = h'.chain ∧ es = es' := by simpa using heq
    exact ⟨hhead, ht.trans ht'.symm⟩
  · exact absurd heq.2 (by simp)
  · exact absurd heq.2 (by simp)
  · obtain ⟨c, hc⟩ := exists_chain_of_not_isChain (hend.resolve_left (by simp [hlist]))
    obtain ⟨c', hc'⟩ := exists_chain_of_not_isChain (hend'.resolve_left (by simp [hlist']))
    obtain ⟨rfl, rfl⟩ := Chain.mk.inj (hh.symm.trans hc)
    obtain ⟨rfl, rfl⟩ := Chain.mk.inj (hh'.symm.trans hc')
    obtain ⟨rfl, rfl, rfl⟩ : a = a' ∧ b = b' ∧ bs = bs' := by simpa using heq
    exact ⟨hc.trans hc'.symm, ht.trans ht'.symm⟩

/-- A cell is printed as nothing else is. -/
theorem chain_cons_ne (h t : Tree) {u : Tree} (hu : ∀ h' t', u ≠ cons h' t') :
    (cons h t).chain ≠ u.chain := by
  rcases chain_cons h t with ⟨-, es, -, hchain⟩ | ⟨-, a, as, b, bs, -, -, hchain⟩
  all_goals
    rw [hchain]
    cases u with
    | cons h' t' => exact absurd rfl (hu h' t')
    | _ => simp [chain]

/-! ### Plain trees -/

mutual

/-- **Plain trees are known from their chains.** -/
theorem eq_of_chain_eq : ∀ {t u : Tree}, t.isPlain = true → u.isPlain = true →
    t.chain = u.chain → t = u
  | .integer n, u, _, _, heq => by
    cases u with
    | integer m => simpa [chain] using heq
    -- a tree that is no cell has no links, and a cell has one at least
    | cons h' t' => exact absurd heq.symm (chain_cons_ne h' t' (by simp))
    | _ => simp [chain] at heq
  | .boolean b, u, _, _, heq => by
    cases u with
    | boolean c => simpa [chain] using heq
    | cons h' t' => exact absurd heq.symm (chain_cons_ne h' t' (by simp))
    | _ => simp [chain] at heq
  | .function, u, _, _, heq => by
    cases u with
    | function => rfl
    | cons h' t' => exact absurd heq.symm (chain_cons_ne h' t' (by simp))
    | _ => simp [chain] at heq
  | .nil, u, _, _, heq => by
    cases u with
    | nil => rfl
    | cons h' t' => exact absurd heq.symm (chain_cons_ne h' t' (by simp))
    | _ => simp [chain] at heq
  | .tuple ts, u, ht, hu, heq => by
    cases u with
    | tuple us =>
      rw [chain, chain, Chain.mk.injEq, Link.tuple.injEq] at heq
      rw [eq_of_chains_eq ht hu heq.1]
    | cons h' t' => exact absurd heq.symm (chain_cons_ne h' t' (by simp))
    | _ => simp [chain] at heq
  | .cons h t, u, ht, hu, heq => by
    cases u with
    | cons h' t' =>
      -- in a plain tree a head that is a chain stands in front of a list only
      obtain ⟨⟨hh, ht⟩, hend⟩ : (h.isPlain = true ∧ t.isPlain = true) ∧
          (t.isList = true ∨ h.isChain = false) := by simpa [isPlain] using ht
      obtain ⟨⟨hh', ht'⟩, hend'⟩ : (h'.isPlain = true ∧ t'.isPlain = true) ∧
          (t'.isList = true ∨ h'.isChain = false) := by simpa [isPlain] using hu
      obtain ⟨hhead, htail⟩ := chain_cons_inj hend hend' heq
      rw [eq_of_chain_eq hh hh' hhead, eq_of_chain_eq ht ht' htail]
    | _ => exact absurd heq (chain_cons_ne h t (by simp))

theorem eq_of_chains_eq : ∀ {ts us : List Tree}, allPlain ts = true → allPlain us = true →
    chains ts = chains us → ts = us
  | [], [], _, _, _ => rfl
  | t :: ts, u :: us, ht, hu, heq => by
    rw [allPlain, Bool.and_eq_true] at ht hu
    rw [chains, chains, List.cons.injEq] at heq
    rw [eq_of_chain_eq ht.1 hu.1 heq.1, eq_of_chains_eq ht.2 hu.2 heq.2]

end

/-! ### Splicing -/

/-- The elements of a chain, and its end, in front of another chain.  Every other tree is one
element. -/
def onto : Tree → Tree → Tree
  | cons a b, t => if b.isList then cons (cons a b) t else cons a (b.onto t)
  | h, t => cons h t

mutual

/-- The tree with every chain spliced into the chain that it is an element of. -/
def spliced : Tree → Tree
  | tuple ts => tuple (splicedAll ts)
  | cons h t => if t.isList then cons h.spliced t.spliced else h.spliced.onto t.spliced
  | t => t

/-- The trees with chains spliced. -/
def splicedAll : List Tree → List Tree
  | [] => []
  | t :: ts => t.spliced :: splicedAll ts

end

theorem isList_onto (t : Tree) : ∀ h : Tree, (h.onto t).isList = t.isList
  | integer _ | boolean _ | function | nil | tuple _ => rfl
  | cons a b => by
    rw [onto]
    split
    · rfl
    · exact isList_onto t b

theorem isList_spliced : ∀ t : Tree, t.spliced.isList = t.isList
  | integer _ | boolean _ | function | nil | tuple _ => rfl
  | cons h t => by
    rw [spliced, isList]
    split
    · exact isList_spliced t
    · rw [isList_onto, isList_spliced t]

theorem isPlain_cons {h t : Tree} : (cons h t).isPlain = true ↔
    h.isPlain = true ∧ t.isPlain = true ∧ (t.isList = true ∨ h.isChain = false) := by
  simp [isPlain, and_assoc]

theorem isPlain_onto {t : Tree} (ht : t.isPlain = true) :
    ∀ {h : Tree}, h.isPlain = true → (h.onto t).isPlain = true
  | integer _, _ | boolean _, _ | function, _ | nil, _ => isPlain_cons.2 ⟨rfl, ht, .inr rfl⟩
  | tuple _, hh => isPlain_cons.2 ⟨hh, ht, .inr rfl⟩
  | cons a b, hh => by
    obtain ⟨ha, hb, hend⟩ := isPlain_cons.1 hh
    rw [onto]
    split
    · rename_i hlist
      exact isPlain_cons.2 ⟨hh, ht, .inr (by rw [isChain, hlist]; rfl)⟩
    · rename_i hlist
      exact isPlain_cons.2 ⟨ha, isPlain_onto ht hb, .inr (hend.resolve_left hlist)⟩

mutual

/-- **No chain is left in another one.** -/
theorem isPlain_spliced : ∀ t : Tree, t.spliced.isPlain = true
  | integer _ | boolean _ | function | nil => rfl
  | tuple ts => by
    rw [spliced, isPlain]
    exact allPlain_spliced ts
  | cons h t => by
    rw [spliced]
    split
    · rename_i hlist
      exact isPlain_cons.2 ⟨isPlain_spliced h, isPlain_spliced t, .inl (by rwa [isList_spliced])⟩
    · exact isPlain_onto (isPlain_spliced t) (isPlain_spliced h)

theorem allPlain_spliced : ∀ ts : List Tree, allPlain (splicedAll ts) = true
  | [] => rfl
  | t :: ts => by
    rw [splicedAll, allPlain, isPlain_spliced t, allPlain_spliced ts]
    rfl

end

/-- Links are put together in any order. -/
theorem before_assoc {c d e : Chain} (hd : ∀ es, d ≠ .mk (.list es) [])
    (he : ∀ es, e ≠ .mk (.list es) []) : c.before (d.before e) = (c.before d).before e := by
  obtain ⟨a, as⟩ := c
  obtain ⟨b, bs⟩ := d
  obtain ⟨x, xs⟩ := e
  rw [before_mk he, before_mk hd, before_mk he, before_mk (by simp), List.append_assoc,
    List.cons_append]

/-- An element is printed in front of a chain with the chain that it is. -/
theorem chain_onto {t : Tree} (ht : t.isList = false) :
    ∀ h : Tree, (h.onto t).chain = h.chain.before t.chain
  | integer _ | boolean _ | function | nil | tuple _ => rfl
  | cons a b => by
    rw [onto]
    split
    · rfl
    · rename_i hlist
      have hb : b.isList = false := by simpa using hlist
      rw [chain, chain, chain_onto ht b, before_assoc (chain_ne_list hb) (chain_ne_list ht)]

mutual

/-- **Splicing is not seen.** -/
theorem chain_spliced : ∀ t : Tree, t.spliced.chain = t.chain
  | integer _ | boolean _ | function | nil => rfl
  | tuple ts => by rw [spliced, chain, chain, chains_spliced ts]
  | cons h t => by
    rw [spliced]
    split
    · rw [chain, chain, chain_spliced h, chain_spliced t]
    · rename_i hlist
      have ht : t.spliced.isList = false := by simpa [isList_spliced] using hlist
      rw [chain_onto ht, chain, chain_spliced h, chain_spliced t]

theorem chains_spliced : ∀ ts : List Tree, chains (splicedAll ts) = chains ts
  | [] => rfl
  | t :: ts => by rw [splicedAll, chains, chains, chain_spliced t, chains_spliced ts]

end

/-- **A text tells the tree up to splicing**, and no more. -/
theorem text_eq_iff {t u : Tree} : t.text = u.text ↔ t.spliced = u.spliced := by
  constructor
  · intro h
    have hchain : t.chain = u.chain := Chain.text_inj h
    exact eq_of_chain_eq (isPlain_spliced t) (isPlain_spliced u)
      (by rw [chain_spliced, chain_spliced, hchain])
  · intro h
    rw [text, text, ← chain_spliced t, h, chain_spliced u]

/-- **Plain trees have nothing to splice.** -/
theorem spliced_of_isPlain {t : Tree} (ht : t.isPlain = true) : t.spliced = t :=
  eq_of_chain_eq (isPlain_spliced t) ht (chain_spliced t)

end Tree

end CallByNeed

import CallByNeed.Expr.Parser
import CallByNeed.Proofs.Names
import CallByNeed.Proofs.Spans.Streams

/-!
# Trees over words

If the words that a node was read from stand one behind the other, its span goes from the start of
one of them to the end of one, and so do the spans of all its parts (`Node.Tree`).  Its own span
ends with the last word, and starts with the first one, except that brackets of lists do not count
(`Opening`): a list starts with its first element, and so do all nodes that start with a list.

This module says for each way to build a node that it covers the words of its parts, with those
between them (`Node.Covers`).
-/

namespace CallByNeed

namespace Words

variable {ws us : List (Located Token)}

theorem Ordered.sublist (h : Ordered us) (hsub : ws.Sublist us) : Ordered ws :=
  ⟨fun w hw => h.lt w (hsub.subset hw), h.pairwise.sublist hsub⟩

/-- Words further behind start later. -/
theorem Ordered.le (h : Ordered (ws ++ us)) {a b : Located Token} (ha : a ∈ ws) (hb : b ∈ us) :
    a.span.stop.index ≤ b.span.start.index :=
  (List.pairwise_append.1 h.pairwise).2.2 a ha b hb

/-- No word ends behind the last one. -/
theorem Ordered.le_last (h : Ordered ws) {a b : Located Token} (ha : a ∈ ws)
    (hb : ws.getLast? = some b) : a.span.stop.index ≤ b.span.stop.index := by
  obtain ⟨us, rfl⟩ := List.getLast?_eq_some_iff.1 hb
  rcases List.mem_append.1 ha with ha | ha
  · exact Nat.le_trans (h.le ha (List.mem_singleton_self b)) (Nat.le_of_lt (h.lt b (by simp)))
  · rw [List.mem_singleton.1 ha]

/-- The span goes from the start of a word to the end of a word. -/
structure Between (ws : List (Located Token)) (span : Span) : Prop where
  start : ∃ a ∈ ws, span.start = a.span.start
  stop : ∃ b ∈ ws, span.stop = b.span.stop
  lt : span.start.index < span.stop.index

theorem Between.mono {span : Span} (h : Between ws span) (hsub : ws ⊆ us) : Between us span := by
  obtain ⟨⟨a, ha, hstart⟩, ⟨b, hb, hstop⟩, hlt⟩ := h
  exact ⟨⟨a, hsub ha, hstart⟩, ⟨b, hsub hb, hstop⟩, hlt⟩

theorem between_word {w : Located Token} (h : Ordered ws) (hw : w ∈ ws) : Between ws w.span :=
  ⟨⟨w, hw, rfl⟩, ⟨w, hw, rfl⟩, h.lt w hw⟩

/-- A span over words further behind starts later. -/
theorem Between.le {a b : Span} (ha : Between ws a) (hb : Between us b) (h : Ordered (ws ++ us)) :
    a.stop.index ≤ b.start.index := by
  obtain ⟨w, hw, hstop⟩ := ha.stop
  obtain ⟨u, hu, hstart⟩ := hb.start
  rw [hstop, hstart]
  exact h.le hw hu

/-- Between words that are fragments of a text there are fragments. -/
theorem Between.exists_fragment {text : String} {span : Span} (h : Between ws span)
    (hws : ∀ w ∈ ws, ∃ f : Fragment text, f.span = w.span) :
    ∃ f : Fragment text, f.span = span := by
  obtain ⟨⟨a, ha, hstart⟩, ⟨b, hb, hstop⟩, hlt⟩ := h
  obtain ⟨f, hf⟩ := hws a ha
  obtain ⟨g, hg⟩ := hws b hb
  rw [hstart, ← hf, hstop, ← hg] at hlt
  obtain ⟨k, hk⟩ := f.exists_between g hlt
  refine ⟨k, ?_⟩
  rw [hk, hf, hg, ← hstart, ← hstop]

/-- Between words that cover stretches of a text there are stretches. -/
theorem Between.isStretch {text : String} {span : Span} (h : Between ws span)
    (hws : ∀ w ∈ ws, w.span.IsStretch text) : span.IsStretch text := by
  obtain ⟨⟨a, ha, hstart⟩, ⟨b, hb, hstop⟩, hlt⟩ := h
  refine ⟨?_, ?_, hlt, ?_⟩
  · rw [hstart]
    exact (hws a ha).start
  · rw [hstop]
    exact (hws b hb).stop
  · rw [hstop]
    exact (hws b hb).le_size

end Words

/-- The spans of which the second starts and ends later span what is from the one to the other. -/
theorem Span.merge_of_le {a b : Span} (hstart : a.start.index ≤ b.start.index)
    (hstop : a.stop.index < b.stop.index) : a.merge b = ⟨a.start, b.stop⟩ := by
  rw [merge, if_neg (Nat.not_lt.2 hstart), if_pos hstop]

/-- The word with which what is read from some words starts: the first one that is not the bracket
of a list with elements. -/
inductive Opening : List (Located Token) → Located Token → Prop where
  | word {w : Located Token} (ws : List (Located Token))
    (hw : w.value ≠ .bracketLeft ∧ w.value ≠ .bracketRight) : Opening (w :: ws) w
  | nil {w u : Located Token} (ws : List (Located Token)) (hw : w.value = .bracketLeft)
    (hu : u.value = .bracketRight) : Opening (w :: u :: ws) w
  | list {l w : Located Token} {ws : List (Located Token)} (hl : l.value = .bracketLeft)
    (h : Opening ws w) : Opening (l :: ws) w

theorem Opening.append {ws : List (Located Token)} {w : Located Token} (h : Opening ws w)
    (us : List (Located Token)) : Opening (ws ++ us) w := by
  induction h with
  | word ws hw => exact .word (ws ++ us) hw
  | nil ws hw hu => exact .nil (ws ++ us) hw hu
  | list hl _ ih => exact .list hl ih

/-! ### Nodes -/

namespace Node

/-- The tail of a list cell. -/
def tail? : Node → Option Node
  | expr (.cons _ _ tail) => some (expr tail)
  | pattern (.cons _ _ tail) => some (pattern tail)
  | _ => none

/-- The empty list. -/
def isNil : Node → Bool
  | expr (.nil _) | pattern (.nil _) => true
  | _ => false

/-- The span of a node contains that of its child, except that a list cell starts behind the bracket
with which an empty list at its end starts. -/
structure Nests (n c : Node) : Prop where
  stop : c.span.stop.index ≤ n.span.stop.index
  start : n.span.start.index ≤ c.span.start.index ∨
    n.tail? = some c ∧ c.isNil = true ∧ c.span.stop = n.span.stop

/-- All spans in a tree go from word to word, and nest. -/
def Tree (ws : List (Located Token)) (n : Node) : Prop :=
  ∀ m : Node, m.Within n → Words.Between ws m.span ∧ ∀ c ∈ m.children, m.Nests c

/-- A tree over all the words. -/
structure Covers (ws : List (Located Token)) (n : Node) : Prop where
  tree : n.Tree ws
  start : ∃ w, Opening ws w ∧ n.span.start = w.span.start
  stop : ∃ w, ws.getLast? = some w ∧ n.span.stop = w.span.stop

variable {ws us : List (Located Token)} {n c a b : Node} {w : Located Token} {u : Span}

theorem Tree.between (h : n.Tree ws) : Words.Between ws n.span :=
  (h n (.self n)).1

theorem Tree.child (h : n.Tree ws) (hc : c ∈ n.children) : c.Tree ws :=
  fun m hm => h m (.child hc hm)

theorem Tree.mono (h : n.Tree ws) (hsub : ws ⊆ us) : n.Tree us :=
  fun m hm => ⟨(h m hm).1.mono hsub, (h m hm).2⟩

/-- **A tree is made of its root and the trees of its children.** -/
theorem tree_of_children (hspan : Words.Between ws n.span)
    (hchildren : ∀ c ∈ n.children, c.Tree ws ∧ n.Nests c) : n.Tree ws := by
  intro m hm
  cases hm with
  | self => exact ⟨hspan, fun c hc => (hchildren c hc).2⟩
  | child hc hm => exact (hchildren _ hc).1 m hm

/-! ### Ways to build a node -/

/-- **A word is a node.** -/
theorem covers_word (hws : Words.Ordered [w])
    (hw : w.value ≠ .bracketLeft ∧ w.value ≠ .bracketRight) (hspan : n.span = w.span)
    (hchildren : n.children = []) : n.Covers [w] where
  tree := by
    refine tree_of_children ?_ ?_
    · rw [hspan]
      exact Words.between_word hws (List.mem_singleton_self w)
    · simp [hchildren]
  start := ⟨w, .word [] hw, by rw [hspan]⟩
  stop := ⟨w, rfl, by rw [hspan]⟩

/-- **A node that starts with a word of its own**, and ends where the last word behind it does. -/
theorem covers_headed (hws : Words.Ordered (w :: ws))
    (hw : w.value ≠ .bracketLeft ∧ w.value ≠ .bracketRight) (hspan : n.span = w.span.merge u)
    (hu : Words.Between ws u) (hstop : ∃ last, ws.getLast? = some last ∧ u.stop = last.span.stop)
    (hchildren : ∀ c ∈ n.children, c.Tree ws) : n.Covers (w :: ws) := by
  -- the word is in front of all that is read behind it
  have hfirst {span : Span} (h : Words.Between ws span) : w.span.stop.index ≤ span.start.index :=
    (Words.between_word (hws.sublist (by simp)) (List.mem_singleton_self w)).le h hws
  have hwlt := hws.lt w List.mem_cons_self
  have hult := hu.lt
  have hn : n.span = ⟨w.span.start, u.stop⟩ := by
    have hle := hfirst hu
    rw [hspan, Span.merge_of_le (by omega) (by omega)]
  obtain ⟨last, hlast, hustop⟩ := hstop
  have hmem : last ∈ ws := List.mem_of_getLast? hlast
  refine ⟨tree_of_children
    ⟨⟨w, List.mem_cons_self, ?_⟩, ⟨last, List.mem_cons_of_mem w hmem, ?_⟩, ?_⟩
    fun c hc => ⟨(hchildren c hc).mono (List.subset_cons_self w ws), ?_, .inl ?_⟩,
    ⟨w, .word ws hw, ?_⟩, ⟨last, ?_, ?_⟩⟩
  · rw [hn]
  · rw [hn, ← hustop]
  · have hle := hfirst hu
    rw [hn]
    show w.span.start.index < u.stop.index
    omega
  · obtain ⟨b, hb, hbstop⟩ := (hchildren c hc).between.stop
    rw [hbstop, hn]
    show _ ≤ u.stop.index
    rw [hustop]
    exact (hws.sublist (List.sublist_cons_self w ws)).le_last hb hlast
  · have hle := hfirst (hchildren c hc).between
    rw [hn]
    show w.span.start.index ≤ _
    omega
  · rw [hn]
  · rw [List.getLast?_cons, hlast]
    rfl
  · rw [hn, hustop]

/-- **A node with two children**, the second of which is read behind the first. -/
theorem covers_pair (mid : List (Located Token)) (hws : Words.Ordered (ws ++ (mid ++ us)))
    (ha : a.Covers ws) (hb : b.Covers us) (hspan : n.span = a.span.merge b.span)
    (hchildren : ∀ c ∈ n.children, c = a ∨ c = b) : n.Covers (ws ++ (mid ++ us)) := by
  -- the second child starts behind the first one, so that merging goes from the one to the other
  have hle : a.span.stop.index ≤ b.span.start.index :=
    ha.tree.between.le (hb.tree.between.mono (List.subset_append_right mid us)) hws
  have halt := ha.tree.between.lt
  have hblt := hb.tree.between.lt
  have hn : n.span = ⟨a.span.start, b.span.stop⟩ := by
    rw [hspan, Span.merge_of_le (by omega) (by omega)]
  have hsub : us ⊆ ws ++ (mid ++ us) := fun x hx => by simp [hx]
  have hatree : a.Tree (ws ++ (mid ++ us)) := ha.tree.mono (List.subset_append_left ws _)
  have hbtree : b.Tree (ws ++ (mid ++ us)) := hb.tree.mono hsub
  obtain ⟨first, hfirst, hastart⟩ := ha.start
  obtain ⟨last, hlast, hbstop⟩ := hb.stop
  refine ⟨tree_of_children ⟨?_, ?_, ?_⟩ fun c hc => ?_, ⟨first, hfirst.append _, ?_⟩,
    ⟨last, ?_, ?_⟩⟩
  · rw [hn]
    exact hatree.between.start
  · rw [hn]
    exact hbtree.between.stop
  · rw [hn]
    show a.span.start.index < b.span.stop.index
    omega
  · rcases hchildren c hc with rfl | rfl
    · refine ⟨hatree, ?_, .inl ?_⟩ <;> rw [hn]
      show c.span.stop.index ≤ b.span.stop.index
      omega
    · refine ⟨hbtree, ?_, .inl ?_⟩ <;> rw [hn]
      show a.span.start.index ≤ c.span.start.index
      omega
  · rw [hn, hastart]
  · rw [List.getLast?_append, List.getLast?_append, hlast]
    rfl
  · rw [hn, hbstop]

/-! ### Several nodes -/

/-- Trees over the words that start one behind the other. -/
structure Items (ws : List (Located Token)) (ns : List Node) : Prop where
  tree : ∀ n ∈ ns, n.Tree ws
  pairwise : ns.Pairwise fun a b => a.span.start.index ≤ b.span.start.index

variable {ns : List Node}

theorem items_nil (ws : List (Located Token)) : Items ws [] :=
  ⟨by simp, .nil⟩

theorem Items.mono (h : Items ws ns) (hsub : ws ⊆ us) : Items us ns :=
  ⟨fun n hn => (h.tree n hn).mono hsub, h.pairwise⟩

/-- **One more tree in front.** -/
theorem Items.cons (hws : Words.Ordered (ws ++ us)) (hn : n.Tree ws) (h : Items us ns) :
    Items (ws ++ us) (n :: ns) where
  tree := List.forall_mem_cons.2 ⟨hn.mono (List.subset_append_left ws us),
    fun m hm => (h.tree m hm).mono (List.subset_append_right ws us)⟩
  pairwise := by
    refine List.pairwise_cons.2 ⟨fun m hm => ?_, h.pairwise⟩
    have hle := hn.between.le (h.tree m hm).between hws
    have hlt := hn.between.lt
    omega

section Cells

variable {α : Type} (node : α → Node) (cell : Span → α → α → α) {xs : List α} {z : α}
  {stop : Position}
  (hspan : ∀ s x y, (node (cell s x y)).span = s)
  (hchildren : ∀ s x y, (node (cell s x y)).children = [node x, node y])
  (htail : ∀ s x y, (node (cell s x y)).tail? = some (node y))

include hspan hchildren htail

/-- **List cells** go from their heads to the place where the last tail ends.  That tail starts
behind the heads, or it is the empty list. -/
theorem tree_cells (hitems : Items ws (xs.map node)) (hz : (node z).Tree ws)
    (hstop : (node z).span.stop = stop)
    (hle : ∀ x ∈ xs, (node x).span.stop.index ≤ stop.index)
    (hbehind : (node z).isNil = true ∨
      ∀ x ∈ xs, (node x).span.start.index ≤ (node z).span.start.index) :
    let cells := xs.foldr (fun head tail => cell ⟨(node head).span.start, stop⟩ head tail) z
    (node cells).Tree ws ∧ (node cells).span.stop = stop ∧
      ∀ x ∈ xs.head?, (node cells).span.start = (node x).span.start := by
  induction xs with
  | nil => exact ⟨hz, hstop, by simp⟩
  | cons x xs ih =>
    obtain ⟨htree, hpairwise⟩ := hitems
    rw [List.map_cons] at htree hpairwise
    obtain ⟨hx, hxs⟩ := List.forall_mem_cons.1 htree
    obtain ⟨hfirst, hpairwise⟩ := List.pairwise_cons.1 hpairwise
    obtain ⟨hlex, hlexs⟩ := List.forall_mem_cons.1 hle
    obtain ⟨hcells, hcellsStop, hcellsStart⟩ := ih ⟨hxs, hpairwise⟩ hlexs
      (hbehind.imp_right fun h y hy => h y (List.mem_cons_of_mem x hy))
    intro cells
    have hcell : (node cells).span = ⟨(node x).span.start, stop⟩ := hspan ..
    have hlt := hx.between.lt
    refine ⟨tree_of_children ⟨?_, ?_, ?_⟩ fun c hc => ?_, by rw [hcell], by simp [hcell]⟩
    · rw [hcell]
      exact hx.between.start
    · rw [hcell, ← hstop]
      exact hz.between.stop
    · rw [hcell]
      show (node x).span.start.index < stop.index
      omega
    · have hpair := hchildren ⟨(node x).span.start, stop⟩ x
        (xs.foldr (fun head tail => cell ⟨(node head).span.start, stop⟩ head tail) z)
      rw [show (node cells).children = _ from hpair] at hc
      obtain rfl | rfl := List.mem_pair.1 hc
      · exact ⟨hx, by rw [hcell]; exact hlex, .inl (by rw [hcell])⟩
      · refine ⟨hcells, by rw [hcell, hcellsStop], ?_⟩
        rw [hcell]
        cases xs with
        | nil =>
          -- the tail of the last cell
          rcases hbehind with hnil | hbehind
          · exact .inr ⟨htail .., hnil, hstop⟩
          · exact .inl (hbehind x List.mem_cons_self)
        | cons y xs =>
          rw [hcellsStart y rfl]
          exact .inl (hfirst (node y) (by simp))

end Cells

end Node

end CallByNeed

import CallByNeed.Proofs.Trees.Discords

/-!
# Texts of trees

A tree is printed as a chain of links with colons between them (`Chain.text`).  Most chains have one
link only: a number, a truth value, a function, a tuple, or a list that is closed by `[]`.  A chain
of cells that ends in something else has more, and since it is printed without brackets, it merges
with the chain that it is an element of (`Tree.chain`).

A text can be read as a chain in only one way (`Chain.text_inj`).
-/

namespace CallByNeed

/-! ### Chains -/

mutual

/-- What stands between colons. -/
inductive Link where
  | integer (value : Int)
  | boolean (value : Bool)
  | function
  | tuple (elems : List Chain)
  | list (elems : List Chain)

/-- Links with colons between them. -/
inductive Chain where
  | mk (first : Link) (rest : List Link)

end

mutual

/-- The text of a link. -/
def Link.text : Link → String
  | .integer n => toString n
  | .boolean b => toString b
  | .function => "<function>"
  | .tuple elems => "(" ++ ", ".intercalate (chainTexts elems) ++ ")"
  | .list elems => "[" ++ ", ".intercalate (chainTexts elems) ++ "]"

/-- The text of a chain. -/
def Chain.text : Chain → String
  | .mk first rest => " : ".intercalate (first.text :: linkTexts rest)

/-- The texts of links. -/
def linkTexts : List Link → List String
  | [] => []
  | a :: as => a.text :: linkTexts as

/-- The texts of chains. -/
def chainTexts : List Chain → List String
  | [] => []
  | c :: cs => c.text :: chainTexts cs

end

@[simp]
theorem linkTexts_eq_map (as : List Link) : linkTexts as = as.map Link.text := by
  induction as with
  | nil => rfl
  | cons a as ih => rw [linkTexts, ih, List.map_cons]

@[simp]
theorem chainTexts_eq_map (cs : List Chain) : chainTexts cs = cs.map Chain.text := by
  induction cs with
  | nil => rfl
  | cons c cs ih => rw [chainTexts, ih, List.map_cons]

/-- An element in front of the rest of a list: it is one more element of a list that is closed by
`[]`, and otherwise its links come first. -/
def Chain.before : Chain → Chain → Chain
  | c, .mk (.list elems) [] => .mk (.list (c :: elems)) []
  | .mk a as, .mk b bs => .mk a (as ++ b :: bs)

mutual

/-- The chain that a tree is printed as. -/
def Tree.chain : Tree → Chain
  | .integer n => .mk (.integer n) []
  | .boolean b => .mk (.boolean b) []
  | .function => .mk .function []
  | .tuple ts => .mk (.tuple (chains ts)) []
  | .cons h t => h.chain.before t.chain
  | .nil => .mk (.list []) []

/-- The chains of trees. -/
def chains : List Tree → List Chain
  | [] => []
  | t :: ts => t.chain :: chains ts

end

@[simp]
theorem chains_eq_map (ts : List Tree) : chains ts = ts.map Tree.chain := by
  induction ts with
  | nil => rfl
  | cons t ts ih => rw [chains, ih, List.map_cons]

/-- The text of a tree. -/
def Tree.text (t : Tree) : String :=
  t.chain.text

/-! ### Reading separated texts -/

/-- The characters end, or go on with one of these. -/
def StopsAt (stops : List Char) : List Char → Prop
  | [] => True
  | c :: _ => c ∈ stops

theorem StopsAt.mono {stops stops' : List Char} (h : stops ⊆ stops') {r : List Char}
    (hr : StopsAt stops r) : StopsAt stops' r := by
  cases r with
  | nil => trivial
  | cons c r => exact h hr

/-- What is printed can be told from the characters that follow it, if they begin with one of the
stops. -/
def Readable {α : Type} (print : α → String) (stops : List Char) (a : α) : Prop :=
  ∀ b r s, StopsAt stops r → StopsAt stops s → (print a).toList ++ r = (print b).toList ++ s →
    a = b ∧ r = s

section Separated

variable {α : Type} {print : α → String} {stops : List Char} {x : Char} {xs r s : List Char}

theorem Readable.mono {stops' : List Char} (h : stops' ⊆ stops) {a : α}
    (ha : Readable print stops a) : Readable print stops' a :=
  fun b r s hr hs => ha b r s (hr.mono h) (hs.mono h)

/-- The characters of texts with a separator in front of each. -/
def separated (print : α → String) (sep : List Char) (as : List α) : List Char :=
  as.flatMap fun a => sep ++ (print a).toList

theorem toList_intercalate_cons (sep : String) (a : α) (as : List α) :
    (sep.intercalate ((a :: as).map print)).toList =
      (print a).toList ++ separated print sep.toList as := by
  induction as generalizing a with
  | nil => simp [separated]
  | cons b bs ih =>
    rw [List.map_cons, String.intercalate_cons_of_ne_nil (by simp), String.toList_append,
      String.toList_append, ih b]
    simp [separated]

/-- Behind a text stands a stop, or the separator. -/
theorem stopsAt_separated (as : List α) (hr : StopsAt stops r) :
    StopsAt (x :: stops) (separated print (x :: xs) as ++ r) := by
  cases as with
  | nil => exact hr.mono (List.subset_cons_self x stops)
  | cons a as => exact List.mem_cons_self

/-- **Separated texts are read one after the other**, up to a stop that is not the separator. -/
theorem separated_inj (hx : x ∉ stops) {as bs : List α}
    (has : ∀ a ∈ as, Readable print (x :: stops) a) (hr : StopsAt stops r) (hs : StopsAt stops s)
    (h : separated print (x :: xs) as ++ r = separated print (x :: xs) bs ++ s) :
    as = bs ∧ r = s := by
  induction as generalizing bs with
  | nil =>
    cases bs with
    | nil => exact ⟨rfl, h⟩
    | cons b bs =>
      -- what is behind the first list would start with the separator
      obtain rfl : r = _ := h
      exact absurd hr hx
  | cons a as ih =>
    obtain ⟨ha, has⟩ := List.forall_mem_cons.1 has
    cases bs with
    | nil =>
      obtain rfl : _ = s := h
      exact absurd hs hx
    | cons b bs =>
      have h : (print a).toList ++ (separated print (x :: xs) as ++ r) =
          (print b).toList ++ (separated print (x :: xs) bs ++ s) := by
        simpa [separated] using h
      -- the first elements are read off, and then the rest is
      obtain ⟨rfl, hrest⟩ := ha b _ _ (stopsAt_separated as hr) (stopsAt_separated bs hs) h
      obtain ⟨rfl, rfl⟩ := ih has hrest
      exact ⟨rfl, rfl⟩

end Separated

/-! ### Reading numbers -/

/-- Characters of a kind are told from others behind them. -/
theorem append_inj_of_all {p : Char → Bool} {as bs r s : List Char} (has : ∀ c ∈ as, p c = true)
    (hbs : ∀ c ∈ bs, p c = true) (hr : ∀ c ∈ r.head?, p c = false)
    (hs : ∀ c ∈ s.head?, p c = false) (h : as ++ r = bs ++ s) : as = bs ∧ r = s := by
  have htake : ∀ {l : List Char}, (∀ c ∈ l.head?, p c = false) → l.takeWhile p = [] := by
    intro l hl
    cases l with
    | nil => rfl
    | cons c l => exact List.takeWhile_cons_of_neg (by simp [hl c rfl])
  have heq : (as ++ r).takeWhile p = (bs ++ s).takeWhile p := by rw [h]
  rw [List.takeWhile_append_of_pos has, List.takeWhile_append_of_pos hbs, htake hr, htake hs,
    List.append_nil, List.append_nil] at heq
  subst heq
  exact ⟨rfl, List.append_cancel_left h⟩

/-- The characters of numbers. -/
def isNumberChar (c : Char) : Bool :=
  c.isDigit || c == '-'

theorem isDigit_of_mem_repr (n : Nat) : ∀ c ∈ n.repr.toList, c.isDigit = true := by
  intro c hc
  rw [Nat.repr_eq_ofList_toDigits, String.toList_ofList] at hc
  exact Nat.isDigit_of_mem_toDigits (by decide) (by decide) hc

theorem isNumberChar_of_mem (n : Int) : ∀ c ∈ (toString n).toList, isNumberChar c = true := by
  intro c hc
  rw [Int.toString_eq_repr, Int.repr_eq_if] at hc
  split at hc
  · simp [isNumberChar, isDigit_of_mem_repr _ c hc]
  · rw [String.toList_append, List.mem_append] at hc
    rcases hc with hc | hc
    · obtain rfl : c = '-' := by simpa using hc
      rfl
    · simp [isNumberChar, isDigit_of_mem_repr _ c hc]

theorem repr_nat_inj {n m : Nat} (h : n.repr = m.repr) : n = m := by
  rw [Nat.repr_eq_ofList_toDigits, Nat.repr_eq_ofList_toDigits, String.ofList_inj] at h
  rw [← Nat.ofDigitChars_ten_toDigits (n := n), h, Nat.ofDigitChars_ten_toDigits]

/-- **A number is known from its digits and its sign.** -/
theorem toString_int_inj {n m : Int} (h : toString n = toString m) : n = m := by
  have hsign : ∀ {n m : Nat}, n.repr ≠ "-" ++ m.repr := by
    intro n m heq
    have hmem : '-' ∈ n.repr.toList := by simp [heq]
    exact absurd (isDigit_of_mem_repr n '-' hmem) (by decide)
  rw [Int.toString_eq_repr, Int.toString_eq_repr, Int.repr_eq_if, Int.repr_eq_if] at h
  split at h <;> split at h
  · have := repr_nat_inj h
    omega
  · exact absurd h hsign
  · exact absurd h.symm hsign
  · have := repr_nat_inj ((String.append_right_inj "-").1 h)
    omega

/-- **A number begins with a character of numbers.** -/
theorem exists_cons_toString (n : Int) :
    ∃ c cs, (toString n).toList = c :: cs ∧ isNumberChar c = true := by
  cases hn : (toString n).toList with
  | nil =>
    rw [Int.toString_eq_repr, Int.repr_eq_if] at hn
    split at hn <;> simp at hn
  | cons c cs => exact ⟨c, cs, rfl, isNumberChar_of_mem n c (hn ▸ List.mem_cons_self)⟩

/-! ### Reading links and chains -/

/-- The characters that end a chain. -/
def chainStops : List Char :=
  [',', ')', ']']

/-- The characters that end a link. -/
def linkStops : List Char :=
  ' ' :: chainStops

theorem isNumberChar_of_mem_linkStops : ∀ c ∈ linkStops, isNumberChar c = false := by
  simp [linkStops, chainStops, isNumberChar]

theorem StopsAt.not_isNumberChar {r : List Char} (hr : StopsAt linkStops r) :
    ∀ c ∈ r.head?, isNumberChar c = false := by
  intro c hc
  cases r with
  | nil => cases hc
  | cons d r =>
    obtain rfl : d = c := Option.some.inj hc
    exact isNumberChar_of_mem_linkStops d hr

/-- The elements of a link stand between brackets. -/
theorem Link.toList_text_tuple (es : List Chain) : (Link.tuple es).text.toList =
    '(' :: ((", ".intercalate (chainTexts es)).toList ++ [')']) := by
  simp [text]

theorem Link.toList_text_list (es : List Chain) : (Link.list es).text.toList =
    '[' :: ((", ".intercalate (chainTexts es)).toList ++ [']']) := by
  simp [text]

/-- The first character of a link is not one that ends a link. -/
theorem Link.exists_cons_text (a : Link) :
    ∃ c cs, a.text.toList = c :: cs ∧ c ∉ linkStops := by
  cases a with
  | integer n =>
    obtain ⟨c, cs, hn, hc⟩ := exists_cons_toString n
    exact ⟨c, cs, hn, fun hmem => by simp [isNumberChar_of_mem_linkStops c hmem] at hc⟩
  | boolean b => cases b <;> exact ⟨_, _, rfl, by decide⟩
  | function => exact ⟨_, _, rfl, by decide⟩
  | tuple es => exact ⟨_, _, toList_text_tuple es, by decide⟩
  | list es => exact ⟨_, _, toList_text_list es, by decide⟩

/-- The first link of a chain comes first. -/
theorem Chain.toList_text (a : Link) (as : List Link) :
    (Chain.mk a as).text.toList = a.text.toList ++ separated Link.text [' ', ':', ' '] as := by
  rw [Chain.text, linkTexts_eq_map, ← List.map_cons, toList_intercalate_cons]
  rfl

theorem Chain.exists_cons_text (c : Chain) :
    ∃ x xs, c.text.toList = x :: xs ∧ x ∉ linkStops := by
  obtain ⟨a, as⟩ := c
  obtain ⟨x, xs, ha, hx⟩ := a.exists_cons_text
  exact ⟨x, _, by rw [Chain.toList_text, ha, List.cons_append], hx⟩

/-- A closing bracket ends a link, and is not the separator of elements. -/
theorem closing_stops :
    ∀ c ∈ [')', ']'], c ∈ linkStops ∧ ',' ∉ [c] ∧ ',' :: [c] ⊆ chainStops := by
  simp [linkStops, chainStops]

/-- **Elements are read up to the closing bracket.** -/
theorem elems_inj {opening close : Char} (hclose : close ∈ [')', ']']) {es fs : List Chain}
    (hes : ∀ e ∈ es, Readable Chain.text chainStops e) {r s : List Char}
    (h : opening :: ((", ".intercalate (chainTexts es)).toList ++ [close]) ++ r =
      opening :: ((", ".intercalate (chainTexts fs)).toList ++ [close]) ++ s) :
    es = fs ∧ r = s := by
  obtain ⟨hstop, hcomma, hsub⟩ := closing_stops close hclose
  have hchain : ∀ (f : Chain) (fs : List Chain) (r s : List Char),
      close :: r ≠ (", ".intercalate ((f :: fs).map Chain.text)).toList ++ close :: s := by
    intro f fs r s heq
    obtain ⟨x, xs, hf, hx⟩ := f.exists_cons_text
    rw [toList_intercalate_cons, hf] at heq
    obtain rfl := (List.cons.inj heq).1
    exact hx hstop
  rw [chainTexts_eq_map, chainTexts_eq_map, List.cons_append, List.cons_append, List.append_assoc,
    List.append_assoc] at h
  replace h := (List.cons.inj h).2
  -- no element starts with the bracket, so that both lists are empty or neither is
  rcases es with _ | ⟨e, es⟩ <;> rcases fs with _ | ⟨f, fs⟩
  · exact ⟨rfl, (List.cons.inj h).2⟩
  · exact absurd h (hchain f fs r s)
  · exact absurd h.symm (hchain e es s r)
  · obtain ⟨he, hes⟩ := List.forall_mem_cons.1 hes
    have hstops : ∀ r, StopsAt [close] (close :: r) := fun r => List.mem_singleton_self close
    rw [toList_intercalate_cons, toList_intercalate_cons, List.append_assoc,
      List.append_assoc] at h
    obtain ⟨rfl, hrest⟩ := he f _ _ ((stopsAt_separated es (hstops r)).mono hsub)
      ((stopsAt_separated fs (hstops s)).mono hsub) h
    obtain ⟨rfl, hbehind⟩ :=
      separated_inj hcomma (fun e h => (hes e h).mono hsub) (hstops r) (hstops s) hrest
    exact ⟨rfl, (List.cons.inj hbehind).2⟩

/-- A number is no other link. -/
theorem number_inj {n : Int} {b : Link} {r s : List Char} (hr : StopsAt linkStops r)
    (hs : StopsAt linkStops s) (h : (toString n).toList ++ r = b.text.toList ++ s) :
    .integer n = b ∧ r = s := by
  have hfirst : ∀ {x : Char} {xs : List Char}, (toString n).toList ++ r = x :: xs →
      isNumberChar x = true := by
    intro x xs heq
    obtain ⟨c, cs, hn, hc⟩ := exists_cons_toString n
    rw [hn, List.cons_append] at heq
    rwa [← (List.cons.inj heq).1]
  -- the first character tells a number from every other link
  cases b with
  | integer m =>
    obtain ⟨heq, hrest⟩ := append_inj_of_all (isNumberChar_of_mem n) (isNumberChar_of_mem m)
      hr.not_isNumberChar hs.not_isNumberChar h
    exact ⟨congrArg _ (toString_int_inj (String.toList_inj.1 heq)), hrest⟩
  | boolean b => cases b <;> exact absurd (hfirst h) (by decide)
  | function => exact absurd (hfirst h) (by decide)
  | tuple fs =>
    rw [Link.toList_text_tuple] at h
    exact absurd (hfirst h) (by decide)
  | list fs =>
    rw [Link.toList_text_list] at h
    exact absurd (hfirst h) (by decide)

/-- The character that tells the kind of a link.  All numbers have the same. -/
def Link.opening : Link → Char
  | integer _ => '0'
  | boolean b => if b then 't' else 'f'
  | function => '<'
  | tuple _ => '('
  | list _ => '['

/-- A link is a number, or begins with its character. -/
theorem Link.number_or_opening (a : Link) :
    (∃ n, a = .integer n) ∨ ∃ cs, a.text.toList = a.opening :: cs := by
  cases a with
  | integer n => exact .inl ⟨n, rfl⟩
  | boolean b => cases b <;> exact .inr ⟨_, rfl⟩
  | function => exact .inr ⟨_, rfl⟩
  | tuple es => exact .inr ⟨_, toList_text_tuple es⟩
  | list es => exact .inr ⟨_, toList_text_list es⟩

/-- **The kind of a link is told from its text.** -/
theorem Link.opening_eq {a b : Link} {r s : List Char} (hr : StopsAt linkStops r)
    (hs : StopsAt linkStops s) (h : a.text.toList ++ r = b.text.toList ++ s) :
    a.opening = b.opening := by
  rcases a.number_or_opening with ⟨n, rfl⟩ | ⟨cs, ha⟩
  · exact congrArg opening (number_inj hr hs h).1
  · rcases b.number_or_opening with ⟨n, rfl⟩ | ⟨ds, hb⟩
    · exact congrArg opening (number_inj hs hr h.symm).1.symm
    · rw [ha, hb] at h
      exact (List.cons.inj h).1

mutual

/-- **A link is read from its text.** -/
theorem Link.readable : ∀ a : Link, Readable Link.text linkStops a
  | .integer n => fun b r s hr hs h => number_inj hr hs h
  | .boolean b => by
    intro c r s hr hs h
    -- the opening tells the kinds of links from each other
    have hopening := Link.opening_eq hr hs h
    cases c with
    | boolean c =>
      obtain rfl : b = c := by cases b <;> cases c <;> simp_all [Link.opening]
      exact ⟨rfl, List.append_cancel_left h⟩
    | _ => cases b <;> simp [Link.opening] at hopening
  | .function => by
    intro c r s hr hs h
    have hopening := Link.opening_eq hr hs h
    cases c with
    | function => exact ⟨rfl, List.append_cancel_left h⟩
    | boolean c => cases c <;> simp [Link.opening] at hopening
    | _ => simp [Link.opening] at hopening
  | .tuple es => by
    intro c r s hr hs h
    have hopening := Link.opening_eq hr hs h
    cases c with
    | tuple fs =>
      rw [Link.toList_text_tuple, Link.toList_text_tuple] at h
      obtain ⟨rfl, hrest⟩ := elems_inj (by simp) (fun e _ => Chain.readable e) h
      exact ⟨rfl, hrest⟩
    | boolean c => cases c <;> simp [Link.opening] at hopening
    | _ => simp [Link.opening] at hopening
  | .list es => by
    intro c r s hr hs h
    have hopening := Link.opening_eq hr hs h
    cases c with
    | list fs =>
      rw [Link.toList_text_list, Link.toList_text_list] at h
      obtain ⟨rfl, hrest⟩ := elems_inj (by simp) (fun e _ => Chain.readable e) h
      exact ⟨rfl, hrest⟩
    | boolean c => cases c <;> simp [Link.opening] at hopening
    | _ => simp [Link.opening] at hopening

/-- **A chain is read from its text**, link by link. -/
theorem Chain.readable : ∀ c : Chain, Readable Chain.text chainStops c
  | .mk a as => by
    rintro ⟨b, bs⟩ r s hr hs h
    rw [Chain.toList_text, Chain.toList_text, List.append_assoc, List.append_assoc] at h
    obtain ⟨rfl, hrest⟩ :=
      Link.readable a b _ _ (stopsAt_separated as hr) (stopsAt_separated bs hs) h
    obtain ⟨rfl, hbehind⟩ :=
      separated_inj (by decide) (fun l _ => Link.readable l) hr hs hrest
    exact ⟨rfl, hbehind⟩

end

/-- **Chains with the same text are the same.** -/
theorem Chain.text_inj {c d : Chain} (h : c.text = d.text) : c = d :=
  (c.readable d [] [] trivial trivial (by rw [h])).1

end CallByNeed

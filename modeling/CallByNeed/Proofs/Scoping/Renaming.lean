import CallByNeed.Proofs.Congruence.Programs

/-!
# Names can be chosen freely

A name that is bound in a program can be replaced by one that does not occur in it: in the pattern
that binds it and, with that, wherever it stands for what the pattern binds.  This makes no
difference to what the program does (`Expr.outcome_rename`), except that the error for a name that
is bound twice by a pattern gives the new name.

The occurrences that belong to a pattern are the free ones in the body of its function, `let` or
option, and for a `let` of a plain name those in its value too (`Binder.rename`).
-/

namespace CallByNeed

/-! ### Renaming -/

namespace Pattern

mutual

/-- The pattern with `y` in place of `x`. -/
def rename (x y : String) : Pattern → Pattern
  | bind s z => bind s (if z = x then y else z)
  | wildcard s => wildcard s
  | integer s value => integer s value
  | boolean s value => boolean s value
  | tuple s elems => tuple s (renameAll x y elems)
  | cons s head tail => cons s (head.rename x y) (tail.rename x y)
  | nil s => nil s

/-- The patterns with `y` in place of `x`. -/
def renameAll (x y : String) : List Pattern → List Pattern
  | [] => []
  | p :: ps => p.rename x y :: renameAll x y ps

end

end Pattern

namespace Expr

mutual

/-- All names that occur in an expression, bound or free. -/
def mentions : Expr → List String
  | boolean _ _ | integer _ _ | nil _ => []
  | identifier _ name => [name]
  | condition _ test yes no => test.mentions ++ yes.mentions ++ no.mentions
  | binary _ _ lhs rhs => lhs.mentions ++ rhs.mentions
  | lambda _ param body => param.names ++ body.mentions
  | apply _ func arg => func.mentions ++ arg.mentions
  | bind _ pattern value body => pattern.names ++ value.mentions ++ body.mentions
  | cases _ subject options => subject.mentions ++ mentionsOptions options
  | tuple _ elems => mentionsAll elems
  | cons _ head tail => head.mentions ++ tail.mentions

/-- All names that occur in the expressions. -/
def mentionsAll : List Expr → List String
  | [] => []
  | e :: es => e.mentions ++ mentionsAll es

/-- All names that occur in the options. -/
def mentionsOptions : List (Pattern × Expr) → List String
  | [] => []
  | (p, e) :: options => p.names ++ e.mentions ++ mentionsOptions options

end

mutual

/-- The expression with `y` in place of the free occurrences of `x`. -/
def rename (x y : String) : Expr → Expr
  | boolean s value => boolean s value
  | integer s value => integer s value
  | identifier s z => identifier s (if z = x then y else z)
  | condition s test yes no => condition s (test.rename x y) (yes.rename x y) (no.rename x y)
  | binary s op lhs rhs => binary s op (lhs.rename x y) (rhs.rename x y)
  | lambda s p b => lambda s p (if x ∈ p.names then b else b.rename x y)
  | apply s func arg => apply s (func.rename x y) (arg.rename x y)
  | bind s p v b =>
    bind s p (if x ∈ p.ownNames then v else v.rename x y)
      (if x ∈ p.names then b else b.rename x y)
  | cases s subject options => cases s (subject.rename x y) (renameOptions x y options)
  | tuple s elems => tuple s (renameAll x y elems)
  | cons s head tail => cons s (head.rename x y) (tail.rename x y)
  | nil s => nil s

/-- The expressions with `y` in place of the free occurrences of `x`. -/
def renameAll (x y : String) : List Expr → List Expr
  | [] => []
  | e :: es => e.rename x y :: renameAll x y es

/-- The options with `y` in place of the free occurrences of `x`. -/
def renameOptions (x y : String) : List (Pattern × Expr) → List (Pattern × Expr)
  | [] => []
  | (p, e) :: options =>
    (p, if x ∈ p.names then e else e.rename x y) :: renameOptions x y options

end

end Expr

/-- What a pattern belongs to: a function, a `let` or an option of a `case`. -/
inductive Binder where
  | function (s : Span) (body : Expr)
  | definition (s : Span) (value body : Expr)
  | option (s : Span) (subject : Expr) (before : List (Pattern × Expr)) (body : Expr)
    (after : List (Pattern × Expr))

namespace Binder

/-- The binder with its pattern, as an expression. -/
def expr (p : Pattern) : Binder → Expr
  | function s body => .lambda s p body
  | definition s value body => .bind s p value body
  | option s subject before body after => .cases s subject (before ++ (p, body) :: after)

/-- The binder with `y` in place of those occurrences of `x` that belong to the pattern. -/
def rename (p : Pattern) (x y : String) : Binder → Binder
  | function s body => function s (body.rename x y)
  | definition s value body =>
    definition s (if x ∈ p.ownNames then value.rename x y else value) (body.rename x y)
  | option s subject before body after => option s subject before (body.rename x y) after

end Binder

/-! ### Names that occur -/

namespace Expr

mutual

theorem mem_mentions_of_mem_free {z : String} : ∀ {e : Expr}, z ∈ e.free → z ∈ e.mentions
  | .boolean _ _, h | .integer _ _, h | .nil _, h => by cases h
  | .identifier _ _, h => h
  | .condition _ a b c, h => by
    simp only [free, mentions, List.mem_append] at h ⊢
    exact h.imp (Or.imp mem_mentions_of_mem_free mem_mentions_of_mem_free)
      mem_mentions_of_mem_free
  | .binary _ _ a b, h | .apply _ a b, h | .cons _ a b, h => by
    simp only [free, mentions, List.mem_append] at h ⊢
    exact h.imp mem_mentions_of_mem_free mem_mentions_of_mem_free
  | .lambda _ p b, h => by
    -- only names that the pattern does not bind are free in the function
    simp only [free, mentions, List.mem_append] at h ⊢
    exact .inr (mem_mentions_of_mem_free (List.mem_filter.1 h).1)
  | .bind _ p v b, h => by
    simp only [free, mentions, List.mem_append] at h ⊢
    rcases h with h | h
    · exact .inl (.inr (mem_mentions_of_mem_free (List.mem_filter.1 h).1))
    · exact .inr (mem_mentions_of_mem_free (List.mem_filter.1 h).1)
  | .cases _ e options, h => by
    simp only [free, mentions, List.mem_append] at h ⊢
    exact h.imp mem_mentions_of_mem_free mem_mentionsOptions_of_mem_free
  | .tuple _ es, h => by
    simp only [free, mentions] at h ⊢
    exact mem_mentionsAll_of_mem_free h

theorem mem_mentionsAll_of_mem_free {z : String} :
    ∀ {es : List Expr}, z ∈ freeAll es → z ∈ mentionsAll es
  | [], h => by cases h
  | e :: es, h => by
    simp only [freeAll, mentionsAll, List.mem_append] at h ⊢
    exact h.imp mem_mentions_of_mem_free mem_mentionsAll_of_mem_free

theorem mem_mentionsOptions_of_mem_free {z : String} :
    ∀ {options : List (Pattern × Expr)}, z ∈ freeOptions options → z ∈ mentionsOptions options
  | [], h => by cases h
  | (p, e) :: options, h => by
    simp only [freeOptions, mentionsOptions, List.mem_append] at h ⊢
    rcases h with h | h
    · exact .inl (.inr (mem_mentions_of_mem_free (List.mem_filter.1 h).1))
    · exact .inr (mem_mentionsOptions_of_mem_free h)

end

theorem mentionsAll_append (es es' : List Expr) :
    mentionsAll (es ++ es') = mentionsAll es ++ mentionsAll es' := by
  induction es with
  | nil => rfl
  | cons e es ih => rw [List.cons_append, mentionsAll, mentionsAll, ih, List.append_assoc]

theorem mentionsOptions_append (options options' : List (Pattern × Expr)) :
    mentionsOptions (options ++ options') =
      mentionsOptions options ++ mentionsOptions options' := by
  induction options with
  | nil => rfl
  | cons option options ih =>
    rw [List.cons_append, mentionsOptions, mentionsOptions, ih]
    simp only [List.append_assoc]

/-- The names in a place of a program occur in the program. -/
theorem mem_mentions_fill {z : String} {e : Expr} (h : z ∈ e.mentions) (place : Place) :
    z ∈ (place.fill e).mentions := by
  induction place with
  | hole => exact h
  | inOption s subject before p place after ih =>
    simp [Place.fill, mentions, mentionsOptions_append, mentionsOptions, ih]
  | inElem s before place after ih =>
    simp [Place.fill, mentions, mentionsAll_append, mentionsAll, ih]
  | _ => simp_all [Place.fill, mentions]

end Expr

/-! ### Renamed programs are congruent -/

section Renaming

variable (x y : String)

/-- How far two programs differ if one name is replaced. -/
def renamingLeeway : Leeway where
  spans := Eq
  names z z' := z = z' ∨ z = x ∧ z' = y
  failures _ _ := False

/-- Which names stand for which in a pattern that is renamed. -/
def renamedTo : Naming := fun z z' =>
  z ≠ y ∧ z' = if z = x then y else z

variable {x y}

theorem oneToOne_renamedTo : (renamedTo x y).OneToOne where
  left := by
    rintro z u _ ⟨hz, rfl⟩ ⟨hu, heq⟩
    by_cases hzx : z = x
    · by_cases hux : u = x
      · rw [hzx, hux]
      · rw [if_pos hzx, if_neg hux] at heq
        exact absurd heq.symm hu
    · by_cases hux : u = x
      · rw [if_neg hzx, if_pos hux] at heq
        exact absurd heq hz
      · rwa [if_neg hzx, if_neg hux] at heq
  right := by
    rintro z _ _ ⟨-, rfl⟩ ⟨-, rfl⟩
    rfl

theorem names_self (z : String) : (renamingLeeway x y).names z z :=
  .inl rfl

theorem names_of_renamedTo {z z' : String} (h : renamedTo x y z z') :
    (renamingLeeway x y).names z z' := by
  obtain ⟨-, rfl⟩ := h
  by_cases hz : z = x
  · exact .inr ⟨hz, if_pos hz⟩
  · exact .inl (if_neg hz).symm

namespace Pattern

mutual

theorem congruent_rename : ∀ {p : Pattern}, y ∉ p.names →
    p.Congruent (renamingLeeway x y) (renamedTo x y) (p.rename x y)
  | .bind s z, h => .bind rfl ⟨fun heq => h (heq ▸ List.mem_singleton_self z), rfl⟩
  | .wildcard s, _ => .wildcard rfl
  | .integer s value, _ => .integer value rfl
  | .boolean s value, _ => .boolean value rfl
  | .tuple s ps, h => .tuple rfl (congruentAll_rename h)
  | .cons s p q, h =>
    have h : y ∉ p.names ∧ y ∉ q.names := by simpa [names] using h
    .cons rfl (congruent_rename h.1) (congruent_rename h.2)
  | .nil s, _ => .nil rfl

theorem congruentAll_rename : ∀ {ps : List Pattern}, y ∉ namesAll ps →
    CongruentAll (renamingLeeway x y) (renamedTo x y) ps (renameAll x y ps)
  | [], _ => .nil
  | p :: ps, h =>
    have h : y ∉ p.names ∧ y ∉ namesAll ps := by simpa [namesAll] using h
    .cons (congruent_rename h.1) (congruentAll_rename h.2)

end

mutual

theorem names_rename : ∀ p : Pattern,
    (p.rename x y).names = p.names.map fun z => if z = x then y else z
  | .bind s z | .wildcard s | .integer s value | .boolean s value | .nil s => rfl
  | .tuple s ps => namesAll_rename ps
  | .cons s p q => by
    rw [rename, names, names, names_rename p, names_rename q, List.map_append]

theorem namesAll_rename : ∀ ps : List Pattern,
    namesAll (renameAll x y ps) = (namesAll ps).map fun z => if z = x then y else z
  | [] => rfl
  | p :: ps => by
    rw [renameAll, namesAll, namesAll, names_rename p, namesAll_rename ps, List.map_append]

end

theorem ownNames_rename (p : Pattern) :
    (p.rename x y).ownNames = p.ownNames.map fun z => if z = x then y else z := by
  cases p <;> rfl

/-- The name that a `let` binds in its value is a name of its pattern. -/
theorem mem_names_of_mem_ownNames (p : Pattern) {z : String} (h : z ∈ p.ownNames) :
    z ∈ p.names := by
  cases p with
  | bind s x => exact h
  | _ => cases h

end Pattern

/-- Below a renamed pattern the name stands for the new one, and others stand for themselves. -/
theorem under_renamedTo {xs : List String} {z : String} (hzx : z ≠ x) (hzy : z ≠ y) :
    (renamedTo x y).under xs (xs.map fun z => if z = x then y else z) Eq z z := by
  by_cases hz : z ∈ xs
  · exact .inl ⟨hz, hzy, (if_neg hzx).symm⟩
  · refine .inr ⟨hz, fun hmem => ?_, rfl⟩
    obtain ⟨u, hu, heq⟩ := List.mem_map.1 hmem
    by_cases hux : u = x
    · exact hzy (heq.symm.trans (if_pos hux))
    · exact hz (heq ▸ (if_neg hux).symm ▸ hu)

variable (x y) in
/-- Of the given names `x` stands for `y`, and the others stand for themselves. -/
structure Renames (outer : Naming) (names : List String) : Prop where
  renamed : x ∈ names → outer x y
  others : ∀ z ∈ names, z ≠ x → outer z z

namespace Renames

variable {outer : Naming} {names names' xs : List String}

theorem left (h : Renames x y outer (names ++ names')) : Renames x y outer names :=
  ⟨fun hx => h.renamed (List.mem_append_left names' hx),
    fun z hz => h.others z (List.mem_append_left names' hz)⟩

theorem right (h : Renames x y outer (names ++ names')) : Renames x y outer names' :=
  ⟨fun hx => h.renamed (List.mem_append_right names hx),
    fun z hz => h.others z (List.mem_append_right names hz)⟩

/-- Below a pattern that does not bind the name it is still renamed. -/
theorem under (h : Renames x y outer (names.filter (· ∉ xs))) (hx : x ∉ xs) (hy : y ∉ xs) :
    Renames x y (Naming.under Eq xs xs outer) names where
  renamed hmem := .inr ⟨hx, hy, h.renamed (List.mem_filter.2 ⟨hmem, decide_eq_true hx⟩)⟩
  others z hz hne := by
    by_cases hbound : z ∈ xs
    · exact .inl ⟨hbound, rfl⟩
    · exact .inr ⟨hbound, hbound, h.others z (List.mem_filter.2 ⟨hz, decide_eq_true hbound⟩) hne⟩

/-- Below a pattern that binds the name too all names stand for themselves. -/
theorem hidden (h : Renames x y outer (names.filter (· ∉ xs))) (hx : x ∈ xs) :
    ∀ z ∈ names, Naming.under Eq xs xs outer z z := by
  refine Naming.under_self fun z hz => h.others z hz fun heq => ?_
  have hbound : z ∉ xs := of_decide_eq_true (List.mem_filter.1 hz).2
  exact hbound (heq ▸ hx)

end Renames

namespace Expr

theorem congruent_self_of_renaming {outer : Naming} (e : Expr) (h : ∀ z ∈ e.free, outer z z) :
    Congruent (renamingLeeway x y) outer e e :=
  .refl (fun _ => rfl) names_self e h

/-- A body that is renamed unless its pattern binds the name. -/
theorem congruent_body {outer : Naming} {xs : List String} {b : Expr}
    (h : Renames x y outer (b.free.filter (· ∉ xs))) (hy : y ∉ xs)
    (hb : Renames x y (Naming.under Eq xs xs outer) b.free →
      Congruent (renamingLeeway x y) (Naming.under Eq xs xs outer) b (b.rename x y)) :
    Congruent (renamingLeeway x y) (Naming.under Eq xs xs outer) b
      (if x ∈ xs then b else b.rename x y) := by
  by_cases hx : x ∈ xs
  · rw [if_pos hx]
    exact congruent_self_of_renaming b (h.hidden hx)
  · rw [if_neg hx]
    exact hb (h.under hx hy)

theorem bindingPatterns_self (p : Pattern) : BindingPatterns (renamingLeeway x y) Eq p p :=
  .refl (fun _ => rfl) names_self p

mutual

/-- **An expression is congruent to itself with free occurrences of a name replaced**, in a scope
where the name stands for the new one. -/
theorem congruent_rename {outer : Naming} : ∀ {e : Expr}, y ∉ e.mentions →
    Renames x y outer e.free → Congruent (renamingLeeway x y) outer e (e.rename x y)
  | .boolean s value, _, _ => .boolean value rfl
  | .integer s value, _, _ => .integer value rfl
  | .identifier s z, _, h => by
    refine .identifier rfl ?_
    -- an occurrence of the name is replaced, and every other name stays
    by_cases hz : z = x
    · rw [if_pos hz, hz]
      exact h.renamed (hz ▸ List.mem_singleton_self z)
    · rw [if_neg hz]
      exact h.others z (List.mem_singleton_self z) hz
  | .condition s a b c, hy, h => by
    simp only [mentions, List.mem_append, not_or] at hy
    exact .condition rfl (congruent_rename hy.1.1 h.left.left)
      (congruent_rename hy.1.2 h.left.right) (congruent_rename hy.2 h.right)
  | .binary s op a b, hy, h => by
    simp only [mentions, List.mem_append, not_or] at hy
    exact .binary op rfl (congruent_rename hy.1 h.left) (congruent_rename hy.2 h.right)
  | .lambda s p b, hy, h => by
    simp only [mentions, List.mem_append, not_or] at hy
    exact .lambda rfl (bindingPatterns_self p) (congruent_body h hy.1 (congruent_rename hy.2))
  | .apply s f a, hy, h => by
    simp only [mentions, List.mem_append, not_or] at hy
    exact .apply rfl (congruent_rename hy.1 h.left) (congruent_rename hy.2 h.right)
  | .bind s p v b, hy, h => by
    simp only [mentions, List.mem_append, not_or] at hy
    -- the new name is none that the pattern binds, in front of the value or of the body
    have hown : y ∉ p.ownNames := fun hmem => hy.1.1 (p.mem_names_of_mem_ownNames hmem)
    exact .bind rfl (bindingPatterns_self p)
      (congruent_body h.left hown (congruent_rename hy.1.2))
      (congruent_body h.right hy.1.1 (congruent_rename hy.2))
  | .cases s e options, hy, h => by
    simp only [mentions, List.mem_append, not_or] at hy
    exact .cases rfl (congruent_rename hy.1 h.left) (congruentOptions_rename hy.2 h.right)
  | .tuple s es, hy, h => .tuple rfl (congruentAll_rename hy h)
  | .cons s a b, hy, h => by
    simp only [mentions, List.mem_append, not_or] at hy
    exact .cons rfl (congruent_rename hy.1 h.left) (congruent_rename hy.2 h.right)
  | .nil s, _, _ => .nil rfl

theorem congruentAll_rename {outer : Naming} : ∀ {es : List Expr}, y ∉ mentionsAll es →
    Renames x y outer (freeAll es) →
    CongruentAll (renamingLeeway x y) outer es (renameAll x y es)
  | [], _, _ => .nil
  | e :: es, hy, h => by
    simp only [mentionsAll, List.mem_append, not_or] at hy
    exact .cons (congruent_rename hy.1 h.left) (congruentAll_rename hy.2 h.right)

theorem congruentOptions_rename {outer : Naming} : ∀ {options : List (Pattern × Expr)},
    y ∉ mentionsOptions options → Renames x y outer (freeOptions options) →
    CongruentOptions (renamingLeeway x y) outer options (renameOptions x y options)
  | [], _, _ => .nil
  | (p, e) :: options, hy, h => by
    simp only [mentionsOptions, List.mem_append, not_or] at hy
    exact .cons (bindingPatterns_self p)
      (congruent_body h.left hy.1.1 (congruent_rename hy.1.2))
      (congruentOptions_rename hy.2 h.right)

end

/-- Occurrences of a name below the pattern that binds it. -/
theorem renames_free {b : Expr} {xs : List String} (hx : x ∈ xs) (hxy : x ≠ y)
    (hb : y ∉ b.mentions) :
    Renames x y ((renamedTo x y).under xs (xs.map fun z => if z = x then y else z) Eq) b.free where
  renamed _ := .inl ⟨hx, hxy, (if_pos rfl).symm⟩
  others _ hz hzx := under_renamedTo hzx fun hzy => hb (hzy ▸ mem_mentions_of_mem_free hz)

/-- **A renamed binder is congruent to the binder.** -/
theorem congruent_binder {p : Pattern} (hx : x ∈ p.names) (binder : Binder)
    (hy : y ∉ (binder.expr p).mentions) :
    Congruent (renamingLeeway x y) Eq (binder.expr p)
      ((binder.rename p x y).expr (p.rename x y)) := by
  have hpatterns (hp : y ∉ p.names) :
      BindingPatterns (renamingLeeway x y) (renamedTo x y) p (p.rename x y) :=
    ⟨oneToOne_renamedTo, fun z z' => names_of_renamedTo, Pattern.congruent_rename hp⟩
  have hne (hp : y ∉ p.names) : x ≠ y := fun heq => hp (heq ▸ hx)
  -- the body is in the scope of the pattern, where the name stands for the new one
  have hbody {b : Expr} (hp : y ∉ p.names) (hb : y ∉ b.mentions) :
      Congruent (renamingLeeway x y)
        ((renamedTo x y).under p.names (p.rename x y).names Eq) b (b.rename x y) := by
    rw [Pattern.names_rename]
    exact congruent_rename hb (renames_free hx (hne hp) hb)
  cases binder with
  | function s b =>
    simp only [Binder.expr, mentions, List.mem_append, not_or] at hy
    exact .lambda rfl (hpatterns hy.1) (hbody hy.1 hy.2)
  | definition s v b =>
    simp only [Binder.expr, mentions, List.mem_append, not_or] at hy
    refine .bind rfl (hpatterns hy.1.1) ?_ (hbody hy.1.1 hy.2)
    rw [Pattern.ownNames_rename]
    by_cases hown : x ∈ p.ownNames
    · rw [if_pos hown]
      exact congruent_rename hy.1.2 (renames_free hown (hne hy.1.1) hy.1.2)
    · -- a plain name would be the one that is renamed, and other patterns bind nothing there
      rw [if_neg hown]
      have hnone : p.ownNames = [] := by
        cases p with
        | bind t z => exact absurd hx hown
        | _ => rfl
      rw [hnone]
      exact congruent_self_of_renaming v fun _ _ => .inr ⟨List.not_mem_nil, List.not_mem_nil, rfl⟩
  | option s e before b after =>
    simp only [Binder.expr, mentions, mentionsOptions_append, mentionsOptions, List.mem_append,
      not_or] at hy
    obtain ⟨hp, hb⟩ := hy.2.2.1
    refine .cases rfl (congruent_self_of_renaming e fun _ _ => rfl) ?_
    exact CongruentOptions.fill (fun _ => rfl) names_self (fun _ => rfl)
      (hpatterns hp) (hbody hp hb) before after

/-- **Names are lexically scoped.**  For every program, every pattern of a function, a `let` or an
option in it, every name `x` that the pattern binds and every name `y` that does not occur in the
program: if `x` is replaced by `y` in the pattern and in the occurrences that belong to it, the work
done, the text and the error with its span stay the same.  Only an error that `x` is bound twice may
become one that `y` is. -/
theorem outcome_rename (config : Config) (place : Place) (binder : Binder) (p : Pattern)
    (x y : String) (hx : x ∈ p.names) (hy : y ∉ (place.fill (binder.expr p)).mentions) :
    let e := place.fill (binder.expr p)
    let e' := place.fill ((binder.rename p x y).expr (p.rename x y))
    e.valueStats config = e'.valueStats config ∧
      (e.valueText config = e'.valueText config ∨ ∃ s,
        e.valueText config = .error (.duplicateBinding x s) ∧
          e'.valueText config = .error (.duplicateBinding y s)) := by
  intro e e'
  have hy' : y ∉ (binder.expr p).mentions := fun hmem => hy (mem_mentions_fill hmem place)
  have hcongruent : Congruent (renamingLeeway x y) Eq e e' :=
    (congruent_binder hx binder hy').fill (fun _ => rfl) names_self place fun _ => rfl
  have hexact : (renamingLeeway x y).Exact := fun _ _ h => h
  rcases hcongruent.outcome_cases rfl config with
    ⟨text, he, he', hstats⟩ | ⟨err, err', he, he', herr, hstats⟩
  · exact ⟨hstats, .inl (he.trans he'.symm)⟩
  · refine ⟨hstats hexact, ?_⟩
    rw [he, he']
    -- errors differ in the names they mention, and only one kind of error mentions a name bound
    cases herr with
    | same hbare hspan => exact .inl (congrArg Except.error (EvalError.eq_of_bare_eq hbare hspan))
    | @duplicate z z' s s' hname hs =>
      obtain rfl : s = s' := hs
      rcases hname with rfl | ⟨rfl, rfl⟩
      · exact .inl rfl
      · exact .inr ⟨s, rfl, rfl⟩
    | failure h => exact h.elim

/-- In `(\x -> HOLE) 1` the name of `let x = 2 : x in (\x -> x) x` is replaced by `y`, also in its
value.  A function that binds a name twice goes wrong under either name. -/
theorem outcome_rename_recursive :
    let name (z : String) : Expr := .identifier .unknown z
    let place : Place := .inFunc .unknown (.inLambda .unknown (.bind .unknown "x") .hole)
      (.integer .unknown 1)
    let list (z : String) : Expr := place.fill (.bind .unknown (.bind .unknown z)
      (.cons .unknown (.integer .unknown 2) (name z))
      (.apply .unknown (.lambda .unknown (.bind .unknown "x") (name "x")) (name z)))
    let twice (z : String) : Expr := .apply .unknown
      (.lambda .unknown (.tuple .unknown [.bind .unknown z, .bind .unknown z]) (name z))
      (.tuple .unknown [name "a", name "b"])
    let config : Config := { renderLimit := 3 }
    ((list "x").valueText config = .ok "[2, 2, 2, ...]" ∧
        (list "x").valueStats config = (list "y").valueStats config ∧
        (list "x").valueText config = (list "y").valueText config) ∧
      (twice "x").valueText config = .error (.duplicateBinding "x" .unknown) ∧
        (twice "x").valueStats config = (twice "y").valueStats config := by
  intro name place list twice config
  have htext : (list "x").valueText config = .ok "[2, 2, 2, ...]" := by decide +kernel
  have hlist := outcome_rename config place
    (.definition .unknown (.cons .unknown (.integer .unknown 2) (name "x"))
      (.apply .unknown (.lambda .unknown (.bind .unknown "x") (name "x")) (name "x")))
    (.bind .unknown "x") "x" "y" (by decide) (by decide)
  have htwice := outcome_rename config
    (.inFunc .unknown .hole (.tuple .unknown [name "a", name "b"]))
    (.function .unknown (name "x"))
    (.tuple .unknown [.bind .unknown "x", .bind .unknown "x"]) "x" "y" (by decide) (by decide)
  refine ⟨⟨htext, hlist.1, ?_⟩, by decide +kernel, htwice.1⟩
  rcases hlist.2 with heq | ⟨s, herror, -⟩
  · exact heq
  · exact absurd (htext.symm.trans herror) (by simp)

end Expr

end Renaming

end CallByNeed

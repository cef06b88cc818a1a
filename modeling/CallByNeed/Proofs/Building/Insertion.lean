import CallByNeed.Proofs.Building.Growth

/-!
# Adding a whole tree

All nodes of a tree are added one after the other, the parts of a node before the node itself.  All
of them are new, and the number that the last one gets stands for the tree
(`Arena.insertExpr_new`, `Arena.insertExpr_spec`).
-/

namespace CallByNeed.Arena

mutual

/-- **A pattern that is added is new.** -/
theorem insertPattern_new (p : Pattern) (a : Arena) :
    a.Grown (insertPattern p a).2 ∧ NewPattern a (insertPattern p a).2 (insertPattern p a).1 p := by
  -- leaves have no parts; the other kinds add their parts from left to right first
  have hleaf (node : PatternNode) (leaf : Span → Pattern) (hparts : node.parts = [])
      (htree : ∀ part span, node.tree? part span = some (leaf span)) (span : Span) :=
    (makesPattern_leaf node leaf hparts htree).push (.refl a) span
  match p with
  | .bind span name => exact hleaf (.bind name) (.bind · name) rfl (fun _ _ => rfl) span
  | .wildcard span => exact hleaf .wildcard .wildcard rfl (fun _ _ => rfl) span
  | .integer span n => exact hleaf (.integer n) (.integer · n) rfl (fun _ _ => rfl) span
  | .boolean span b => exact hleaf (.boolean b) (.boolean · b) rfl (fun _ _ => rfl) span
  | .nil span => exact hleaf .nil .nil rfl (fun _ _ => rfl) span
  | .tuple span elems =>
    obtain ⟨h, helems⟩ := insertPatterns_new elems a
    exact (makesPattern_tuple helems).push h span
  | .cons span head tail =>
    obtain ⟨h₁, hhead⟩ := insertPattern_new head a
    obtain ⟨h₂, htail⟩ := insertPattern_new tail (insertPattern head a).2
    exact (makesPattern_cons (hhead.mono h₂.extends) (htail.weaken h₁)).push (h₁.trans h₂) span

/-- Patterns that are added are new. -/
theorem insertPatterns_new (ps : List Pattern) (a : Arena) :
    a.Grown (insertPatterns ps a).2 ∧
      List.Forall₂ (NewPattern a (insertPatterns ps a).2) (insertPatterns ps a).1 ps := by
  match ps with
  | [] => exact ⟨.refl a, .nil⟩
  | p :: ps =>
    obtain ⟨h₁, hp⟩ := insertPattern_new p a
    obtain ⟨h₂, hps⟩ := insertPatterns_new ps (insertPattern p a).2
    exact ⟨h₁.trans h₂, .cons (hp.mono h₂.extends) (hps.imp fun _ _ h => h.weaken h₁)⟩

end

mutual

/-- **An expression that is added is new.** -/
theorem insertExpr_new (e : Expr) (a : Arena) :
    a.Grown (insertExpr e a).2 ∧ NewExpr a (insertExpr e a).2 (insertExpr e a).1 e := by
  -- leaves have no parts; the other kinds add their parts from left to right first
  have hleaf (node : ExprNode) (leaf : Span → Expr) (hparts : node.parts = [])
      (hpatterns : node.patterns = [])
      (htree : ∀ pattern part span, node.tree? pattern part span = some (leaf span))
      (span : Span) :=
    (makesExpr_leaf node leaf hparts hpatterns htree).push (.refl a) span
  match e with
  | .boolean span b => exact hleaf (.boolean b) (.boolean · b) rfl rfl (fun _ _ _ => rfl) span
  | .integer span n => exact hleaf (.integer n) (.integer · n) rfl rfl (fun _ _ _ => rfl) span
  | .identifier span name =>
    exact hleaf (.identifier name) (.identifier · name) rfl rfl (fun _ _ _ => rfl) span
  | .nil span => exact hleaf .nil .nil rfl rfl (fun _ _ _ => rfl) span
  | .condition span test yes no =>
    obtain ⟨h₁, htest⟩ := insertExpr_new test a
    obtain ⟨h₂, hyes⟩ := insertExpr_new yes (insertExpr test a).2
    -- numbers that were given earlier stay as the later parts are added
    obtain ⟨h₃, hno⟩ := insertExpr_new no (insertExpr yes (insertExpr test a).2).2
    have hmakes := makesExpr_condition (htest.mono (h₂.trans h₃).extends)
      ((hyes.weaken h₁).mono h₃.extends) (hno.weaken (h₁.trans h₂))
    exact hmakes.push ((h₁.trans h₂).trans h₃) span
  | .binary span op lhs rhs =>
    obtain ⟨h₁, hlhs⟩ := insertExpr_new lhs a
    obtain ⟨h₂, hrhs⟩ := insertExpr_new rhs (insertExpr lhs a).2
    exact (makesExpr_binary op (hlhs.mono h₂.extends) (hrhs.weaken h₁)).push (h₁.trans h₂) span
  | .lambda span param body =>
    obtain ⟨h₁, hparam⟩ := insertPattern_new param a
    obtain ⟨h₂, hbody⟩ := insertExpr_new body (insertPattern param a).2
    exact (makesExpr_lambda (hparam.mono h₂.extends) (hbody.weaken h₁)).push (h₁.trans h₂) span
  | .apply span func arg =>
    obtain ⟨h₁, hfunc⟩ := insertExpr_new func a
    obtain ⟨h₂, harg⟩ := insertExpr_new arg (insertExpr func a).2
    exact (makesExpr_apply (hfunc.mono h₂.extends) (harg.weaken h₁)).push (h₁.trans h₂) span
  | .bind span pattern value body =>
    obtain ⟨h₁, hpattern⟩ := insertPattern_new pattern a
    obtain ⟨h₂, hvalue⟩ := insertExpr_new value (insertPattern pattern a).2
    obtain ⟨h₃, hbody⟩ := insertExpr_new body (insertExpr value (insertPattern pattern a).2).2
    have hmakes := makesExpr_bind (hpattern.mono (h₂.trans h₃).extends)
      ((hvalue.weaken h₁).mono h₃.extends) (hbody.weaken (h₁.trans h₂))
    exact hmakes.push ((h₁.trans h₂).trans h₃) span
  | .cases span subject options =>
    obtain ⟨h₁, hsubject⟩ := insertExpr_new subject a
    obtain ⟨h₂, hoptions⟩ := insertOptions_new options (insertExpr subject a).2
    have hmakes := makesExpr_cases (hsubject.mono h₂.extends)
      (hoptions.imp fun _ _ h => h.weaken h₁)
    exact hmakes.push (h₁.trans h₂) span
  | .tuple span elems =>
    obtain ⟨h, helems⟩ := insertExprs_new elems a
    exact (makesExpr_tuple helems).push h span
  | .cons span head tail =>
    obtain ⟨h₁, hhead⟩ := insertExpr_new head a
    obtain ⟨h₂, htail⟩ := insertExpr_new tail (insertExpr head a).2
    exact (makesExpr_cons (hhead.mono h₂.extends) (htail.weaken h₁)).push (h₁.trans h₂) span

/-- Expressions that are added are new. -/
theorem insertExprs_new (es : List Expr) (a : Arena) :
    a.Grown (insertExprs es a).2 ∧
      List.Forall₂ (NewExpr a (insertExprs es a).2) (insertExprs es a).1 es := by
  match es with
  | [] => exact ⟨.refl a, .nil⟩
  | e :: es =>
    obtain ⟨h₁, he⟩ := insertExpr_new e a
    obtain ⟨h₂, hes⟩ := insertExprs_new es (insertExpr e a).2
    exact ⟨h₁.trans h₂, .cons (he.mono h₂.extends) (hes.imp fun _ _ h => h.weaken h₁)⟩

/-- Options that are added are new. -/
theorem insertOptions_new (options : List (Pattern × Expr)) (a : Arena) :
    a.Grown (insertOptions options a).2 ∧
      List.Forall₂ (NewOption a (insertOptions options a).2) (insertOptions options a).1
        options := by
  match options with
  | [] => exact ⟨.refl a, .nil⟩
  | (p, e) :: options =>
    obtain ⟨h₁, hp⟩ := insertPattern_new p a
    obtain ⟨h₂, he⟩ := insertExpr_new e (insertPattern p a).2
    obtain ⟨h₃, hoptions⟩ := insertOptions_new options (insertExpr e (insertPattern p a).2).2
    have hoption : NewOption a (insertOptions options _).2 (_, _) (p, e) :=
      ⟨hp.mono (h₂.trans h₃).extends, (he.weaken h₁).mono h₃.extends⟩
    exact ⟨(h₁.trans h₂).trans h₃,
      .cons hoption (hoptions.imp fun _ _ h => h.weaken (h₁.trans h₂))⟩

end

/-- **An expression that was added is found again** under its number. -/
theorem insertExpr_spec (e : Expr) (a : Arena) :
    a.Extends (insertExpr e a).2 ∧ (insertExpr e a).2.expr? (insertExpr e a).1 = some e := by
  obtain ⟨hgrown, hnew⟩ := insertExpr_new e a
  exact ⟨hgrown.extends, hnew.tree⟩

end CallByNeed.Arena

import CallByNeed.Proofs.Interpretation.Scheme
import CallByNeed.Proofs.Numbered.Machines

/-!
# Evaluation by number does what evaluation does

Each part of the evaluator by number runs as the evaluator itself does on the trees that the numbers
stand for: demands, matches, one step of the evaluation, comparisons and printing.  No access of
such a run finds nothing, since `Runs` leaves no room for that.  The evaluator follows by induction
on the levels that are left (`runs_level`).
-/

namespace CallByNeed.Numbered

variable {a : Arena} {w : Extent}

/-! ### Accesses -/

theorem fetch_of_some {α : Type} {xs : Array α} {i : Nat} {x : α} (h : xs[i]? = some x) :
    fetch xs i = pure x := by
  rw [fetch, h]

section Nodes

variable {id : Nat} {span : Span}

theorem exprNode_of_some {node : ExprNode} (h : a.exprs[id]? = some ⟨node, span⟩) :
    exprNode a id = pure node := by
  rw [exprNode, fetch_of_some h, pure_bind]

theorem patternNode_of_some {node : PatternNode} (h : a.patterns[id]? = some ⟨node, span⟩) :
    patternNode a id = pure node := by
  rw [patternNode, fetch_of_some h, pure_bind]

/-- A number that stands for an expression has its span. -/
theorem exprSpan_of_exprAt {e : Expr} (h : a.ExprAt id e) : exprSpan a id = pure e.span := by
  obtain ⟨node, hnode⟩ := h.node
  rw [exprSpan, fetch_of_some hnode, pure_bind]

/-- A number that stands for a pattern has its span. -/
theorem patternSpan_of_patternAt {p : Pattern} (h : a.PatternAt id p) :
    patternSpan a id = pure p.span := by
  obtain ⟨node, hnode⟩ := h.node
  rw [patternSpan, fetch_of_some hnode, pure_bind]

end Nodes

/-- What a name stands for in a sound machine is a cell. -/
theorem Machine.SoundIn.lookup_lt {m : Machine} (h : m.SoundIn a w) {name : String} {t : ThunkId}
    {env : EnvId} (hlookup : m.environments.lookup env name = some t) : t < w.cells := by
  induction env using Nat.strongRecOn with
  | _ env ih =>
    rw [Environments.lookup] at hlookup
    split at hlookup
    · cases hlookup
    · rename_i frame hframe
      split at hlookup
      · -- a binding of this frame, which the invariant speaks of
        rename_i value hfind
        obtain ⟨before, behind, hbindings, -⟩ := List.lookup_eq_some_iff.1 hfind
        have hmem : (name, t) ∈ frame.bindings := by
          rw [hbindings, Option.some.inj hlookup]
          exact List.mem_append_right before List.mem_cons_self
        exact h.bindings env frame hframe (name, t) hmem
      · split at hlookup
        · cases hlookup
        · rename_i parent _
          split at hlookup
          · -- a binding further up, in an older frame
            rename_i hlt
            exact ih parent hlt hlookup
          · cases hlookup

/-- **A search for a name ends**, and finds a cell if it finds anything. -/
theorem runs_lookup {env : EnvId} (henv : env < w.frames) (name : String) :
    Runs a w (fun w' found found' => found = found' ∧ ∀ t ∈ found, t < w'.cells)
      (lookup env name) (do return (← get).environments.lookup env name) := by
  intro s m hs hw
  have henv' : env < s.machine.environments.size := Nat.lt_of_lt_of_le henv hw.frames
  have hsearch := hs.sound.search_eq name henv' henv'
  have hleft : lookup env name s = .ok (s.machine.environments.lookup env name) s := by
    unfold lookup
    simp only [hsearch]
  rw [hleft]
  refine .ok hs hw ⟨?_, fun t ht => hs.sound.lookup_lt ht⟩
  rw [hs.represents.environments]

/-! ### Demands -/

variable (a) in
/-- The values are the same, with numbers for trees, and their parts are there. -/
structure Reads (w : Extent) (v : Value) (v' : CallByNeed.Value) : Prop where
  sound : v.Sound a w
  value : ValueAt a v v'

theorem Reads.mono {w' : Extent} {v : Value} {v' : CallByNeed.Value} (h : Reads a w v v')
    (hw : w ≤ w') : Reads a w' v v' :=
  ⟨h.sound.mono hw, h.value⟩

theorem reads_integer (n : Int) : Reads a w (.integer n) (.integer n) :=
  ⟨trivial, .integer n⟩

theorem reads_boolean (b : Bool) : Reads a w (.boolean b) (.boolean b) :=
  ⟨trivial, .boolean b⟩

variable (a) in
/-- The demands run as those of the evaluator. -/
def Forces (force : ThunkId → Run Value) (force' : ThunkId → Eval CallByNeed.Value) : Prop :=
  ∀ ⦃w : Extent⦄ ⦃t : ThunkId⦄, t < w.cells → Runs a w (Reads a) (force t) (force' t)

variable (a) in
/-- The evaluations run as those of the evaluator. -/
def Evaluates (eval : ExprId → EnvId → Run Value)
    (eval' : Expr → EnvId → Eval CallByNeed.Value) : Prop :=
  ∀ ⦃w : Extent⦄ ⦃id : ExprId⦄ ⦃e : Expr⦄ ⦃env : EnvId⦄, a.ExprAt id e → env < w.frames →
    Runs a w (Reads a) (eval id env) (eval' e env)

variable (a) in
/-- The comparisons run as those of the evaluator. -/
def Compares (equal : Value → Value → Run Bool)
    (equal' : CallByNeed.Value → CallByNeed.Value → Eval Bool) : Prop :=
  ∀ ⦃w : Extent⦄ ⦃x y : Value⦄ ⦃x' y' : CallByNeed.Value⦄, Reads a w x x' → Reads a w y y' →
    Runs a w (fun _ => Eq) (equal x y) (equal' x' y')

section Demand

variable {eval : ExprId → EnvId → Run Value} {eval' : Expr → EnvId → Eval CallByNeed.Value}

/-- A pending cell is marked, evaluated, and holds the value behind that or is pending again. -/
theorem Evaluates.answer_pending (heval : Evaluates a eval eval') {id : ExprId} {e : Expr}
    {env : EnvId} {t : ThunkId} (he : a.ExprAt id e) {s : State} {m : CallByNeed.Machine}
    (hs : Consistent a s m) (hw : w ≤ s.machine.extent) (ht : t < s.machine.cells.size)
    (henv : env < s.machine.extent.frames) (hcell : m.cell t = .pending e env) :
    Agree a w (Reads a) (answer a eval t (.pending id env) s) (Eval.force eval' t m) := by
  have hextent : (s.machine.setCell t (.forcing id env)).extent = s.machine.extent := by
    simp [Machine.extent, Machine.setCell]
  have hmark : Consistent a (s.onMachine (·.setCell t (.forcing id env)))
      (m.setCell t (.forcing e env)) :=
    ⟨hs.sound.setCell t ⟨he.lt_size, henv⟩, hs.history, hs.represents.setCell ht (.forcing env he)⟩
  have hinner := heval he henv _ _ hmark (by rw [State.onMachine, hextent]; exact Extent.le_refl _)
  rw [ByName.force_of_pending hcell]
  have hmodify (f : State → State) : (modify f : Run Unit) s = .ok () (f s) := rfl
  simp only [answer, bind, EStateM.bind, hmodify]
  generalize eval id env (s.onMachine (·.setCell t (.forcing id env))) = r at hinner ⊢
  generalize eval' e env (m.setCell t (.forcing e env)) = r' at hinner ⊢
  -- frames and cells have only become more meanwhile
  cases hinner with
  | @ok s₁ m₁ v v' hs₁ hw₁ hv =>
    have ht₁ : t < s₁.machine.cells.size := Nat.lt_of_lt_of_le ht hw₁.cells
    have hextent₁ : (s₁.machine.setCell t (.evaluated v)).extent = s₁.machine.extent := by
      simp [Machine.extent, Machine.setCell]
    have hset : (s₁.machine.setCell t (.evaluated v)).Sound a := hs₁.sound.setCell t hv.sound
    have hrepresents := hs₁.represents.setCell ht₁ (.evaluated hv.value)
    refine .ok ⟨hset.count rfl rfl, hs₁.history, ?_⟩ ?_ ?_
    · exact hrepresents.count rfl rfl rfl rfl hs₁.represents.created
        (congrArg (· + 1) hs₁.represents.evaluated) hs₁.represents.hits
    · exact Extent.le_trans hw (Extent.le_trans hw₁ (hextent₁ ▸ Extent.le_refl _))
    · exact hv.mono (hextent₁ ▸ Extent.le_refl _)
  | @error s₁ m₁ why hs₁ hw₁ =>
    have ht₁ : t < s₁.machine.cells.size := Nat.lt_of_lt_of_le ht hw₁.cells
    have henv₁ : env < s₁.machine.extent.frames := Nat.lt_of_lt_of_le henv hw₁.frames
    have hextent₁ : (s₁.machine.setCell t (.pending id env)).extent = s₁.machine.extent := by
      simp [Machine.extent, Machine.setCell]
    refine .error why ⟨hs₁.sound.setCell t ⟨he.lt_size, henv₁⟩, hs₁.history,
      hs₁.represents.setCell ht₁ (.pending env he)⟩ ?_
    exact Extent.le_trans hw (Extent.le_trans hw₁ (hextent₁ ▸ Extent.le_refl _))

/-- **A demand runs as in the evaluator if the evaluation it makes does.** -/
theorem Evaluates.force (heval : Evaluates a eval eval') :
    Forces a (force a eval) (Eval.force eval') := by
  intro w t ht
  refine Runs.noted ?_ ht fun w' v v' hv => hv.sound
  intro s m hs hw
  -- the number of the cell is checked, and there is a cell
  have ht' : t < s.machine.cells.size := Nat.lt_of_lt_of_le ht hw.cells
  obtain ⟨c, hc, hcell⟩ := hs.represents.cells t ht'
  have hsound := hs.sound.cells t c hc
  have hfetch : (do answer a eval t (← fetch (← get).machine.cells t) : Run Value) s =
      answer a eval t c s := by
    show (fetch s.machine.cells t >>= answer a eval t) s = _
    rw [fetch_of_some hc, pure_bind]
  rw [hfetch]
  generalize hc' : m.cell t = c' at hcell
  cases hcell with
  | @evaluated v v' hv =>
    rw [ByName.force_of_evaluated hc']
    -- a value that is there is counted as a hit on both sides
    have hcount : Represents a { s.machine with hits := s.machine.hits + 1 }
        { m with hits := m.hits + 1 } :=
      hs.represents.count rfl rfl rfl rfl hs.represents.created hs.represents.evaluated
        (congrArg (· + 1) hs.represents.hits)
    exact .ok ⟨hs.sound.count rfl rfl, hs.history, hcount⟩ hw ⟨hsound, hv⟩
  | @forcing id e env he =>
    rw [ByName.force_of_forcing hc', answer, exprSpan_of_exprAt he, pure_bind]
    exact .error _ hs hw
  | @pending id e env he => exact heval.answer_pending he hs hw ht' hsound.2 hc'

end Demand

/-! ### Matches -/

/-- Both matches fail, or both bind the same names to the same cells. -/
def MatchAt (w : Extent) (found found' : Option (Bindings ThunkId)) : Prop :=
  found = found' ∧ ∀ bindings ∈ found, BindingsSound w bindings

theorem matchAt_some {bindings : Bindings ThunkId} (h : BindingsSound w bindings) :
    MatchAt w (some bindings) (some bindings) :=
  ⟨rfl, fun _ h' => Option.some.inj h' ▸ h⟩

theorem matchAt_none : MatchAt w none none :=
  ⟨rfl, fun _ h => by cases h⟩

section Matching

variable {force : ThunkId → Run Value} {force' : ThunkId → Eval CallByNeed.Value}

/-- A literal fits or not on both sides, and binds nothing. -/
theorem runs_test {bindings : Bindings ThunkId} (b : Bool) (h : BindingsSound w bindings) :
    Runs a w MatchAt (pure (if b then some bindings else none))
      (pure (if b then some bindings else none)) := by
  cases b with
  | true => exact runs_pure fun w' hw => matchAt_some (h.mono hw)
  | false => exact runs_pure fun w' hw => matchAt_none

variable (a) in
/-- The matches against a pattern run as those of the evaluator. -/
def Fits (force' : ThunkId → Eval CallByNeed.Value) (one : Matcher) (p : PatternId) : Prop :=
  ∀ ⦃q : Pattern⦄, a.PatternAt p q → ∀ ⦃w : Extent⦄ ⦃t : ThunkId⦄ ⦃bindings : Bindings ThunkId⦄,
    t < w.cells → BindingsSound w bindings →
      Runs a w MatchAt (one p t bindings) (Scheme.matchOne force' q t bindings)

theorem runs_matchAll {one : Matcher} {ids : List PatternId} {ps : List Pattern}
    (hone : ∀ p ∈ ids, Fits a force' one p) (hps : a.PatternsAt ids ps) {ts : List ThunkId}
    {bindings : Bindings ThunkId} (hts : ∀ t ∈ ts, t < w.cells)
    (hbindings : BindingsSound w bindings) :
    Runs a w MatchAt (matchAll one ids ts bindings)
      (Scheme.matchAll force' ps ts bindings) := by
  induction ids generalizing w ps ts bindings with
  | nil =>
    cases hps
    rw [matchAll, Scheme.matchAll]
    · exact runs_test true hbindings
    all_goals simp
  | cons id ids ih =>
    cases hps with
    | cons hp hps =>
      cases ts with
      | nil =>
        rw [matchAll, Scheme.matchAll]
        · exact runs_test true hbindings
        all_goals simp
      | cons t ts =>
        obtain ⟨hid, hids⟩ := List.forall_mem_cons.1 hone
        obtain ⟨ht, hts⟩ := List.forall_mem_cons.1 hts
        rw [matchAll, Scheme.matchAll]
        -- the first pattern that does not fit ends the matching on both sides
        refine (hid hp ht hbindings).bind ?_
        rintro w₁ found _ hw₁ ⟨rfl, hfound⟩
        cases found with
        | none => exact runs_pure fun _ _ => matchAt_none
        | some bindings =>
          exact ih hids hps (fun u hu => Nat.lt_of_lt_of_le (hts u hu) hw₁.cells)
            (hfound bindings rfl)

/-- **Matches run as in the evaluator if demands do**, and never lack the room: the place of a
pattern in the row bounds how deeply it is nested. -/
theorem fits_matchOne {place : Nat → Nat} (hplace : ∀ (i : PatternId) node,
    a.patterns[i]? = some node → ∀ j ∈ node.value.parts, place j < place i)
    (hforce : Forces a force force') {room : Nat} {p : PatternId} (hroom : place p < room) :
    Fits a force' (matchOne a force room) p := by
  induction room generalizing p with
  | zero => exact absurd hroom (Nat.not_lt_zero _)
  | succ room ih =>
    intro q hq w t bindings ht hbindings
    -- parts stand at earlier places, for which the room that is left is enough
    have hparts (node : PatternNode) (span : Span) (hnode : a.patterns[p]? = some ⟨node, span⟩)
        (j : PatternId) (hj : j ∈ node.parts) : Fits a force' (matchOne a force room) j :=
      ih (Nat.lt_of_lt_of_le (hplace p _ hnode j hj) (Nat.le_of_lt_succ hroom))
    rw [matchOne]
    refine Runs.noted ?_ ⟨hq.lt_size, ht⟩ fun w' found found' hfound => hfound.2
    cases hq with
    | @bind _ span name h =>
      rw [patternNode_of_some h, pure_bind, Scheme.matchOne]
      simp only [patternSpan_of_patternAt (.bind h), pure_bind]
      by_cases hname : bindings.binds name
      · rw [if_pos hname, if_pos hname]
        exact runs_fail _
      · rw [if_neg hname, if_neg hname]
        refine runs_pure fun w' hw => matchAt_some ?_
        exact List.forall_mem_cons.2 ⟨Nat.lt_of_lt_of_le ht hw.cells, hbindings.mono hw⟩
    | wildcard h =>
      rw [patternNode_of_some h, pure_bind, Scheme.matchOne]
      exact runs_test true hbindings
    | @integer _ span value h =>
      rw [patternNode_of_some h, pure_bind, Scheme.matchOne]
      -- the value is found by number and by tree, and then the literals are compared
      refine (hforce ht).bind fun w₁ v v' hw₁ hv => ?_
      cases hv.value with
      | integer n => exact runs_test (n == value) (hbindings.mono hw₁)
      | _ => exact runs_pure fun _ _ => matchAt_none
    | @boolean _ span value h =>
      rw [patternNode_of_some h, pure_bind, Scheme.matchOne]
      refine (hforce ht).bind fun w₁ v v' hw₁ hv => ?_
      cases hv.value with
      | boolean b => exact runs_test (b == value) (hbindings.mono hw₁)
      | _ => exact runs_pure fun _ _ => matchAt_none
    | tuple h hps =>
      rw [patternNode_of_some h, pure_bind, Scheme.matchOne]
      -- the suspensions of the elements are cells of the machine, so that they may be demanded
      refine (hforce ht).bind fun w₁ v v' hw₁ hv => ?_
      obtain ⟨hsound, hvalue⟩ := hv
      cases hvalue with
      | tuple ts =>
        simp only [hps.length_eq]
        split
        · exact runs_matchAll (hparts _ _ h) hps hsound (hbindings.mono hw₁)
        · exact runs_pure fun _ _ => matchAt_none
      | _ => exact runs_pure fun _ _ => matchAt_none
    | cons h hp hq =>
      rw [patternNode_of_some h, pure_bind, Scheme.matchOne]
      refine (hforce ht).bind fun w₁ v v' hw₁ hv => ?_
      obtain ⟨hsound, hvalue⟩ := hv
      cases hvalue with
      | cons head tail =>
        have hfirst := hparts _ _ h _ (by simp [PatternNode.parts]) hp hsound.1
          (hbindings.mono hw₁)
        refine hfirst.bind ?_
        rintro w₂ found _ hw₂ ⟨rfl, hfound⟩
        cases found with
        | none => exact runs_pure fun _ _ => matchAt_none
        -- the names that the head has bound refer to cells as well
        | some bindings =>
          exact hparts _ _ h _ (by simp [PatternNode.parts]) hq
            (Nat.lt_of_lt_of_le hsound.2 hw₂.cells) (hfound bindings rfl)
      | _ => exact runs_pure fun _ _ => matchAt_none
    | nil h =>
      rw [patternNode_of_some h, pure_bind, Scheme.matchOne]
      refine (hforce ht).bind fun w₁ v v' hw₁ hv => ?_
      cases hv.value with
      | nil => exact runs_test true (hbindings.mono hw₁)
      | _ => exact runs_pure fun _ _ => matchAt_none

theorem fits_bindMatch (ha : a.Acyclic) (hforce : Forces a force force') {p : PatternId}
    (hp : p < a.patterns.size) : Fits a force' (bindMatch a force) p := by
  obtain ⟨place, hplace⟩ := ha.patterns
  have hparts : ∀ (i : PatternId) node, a.patterns[i]? = some node →
      ∀ j ∈ node.value.parts, place j < place i :=
    fun i node hi j hj => ((hplace i node hi).2 j hj).2
  exact fits_matchOne hparts hforce (hplace p _ (Array.getElem?_eq_getElem hp)).1

variable (a) in
/-- Both sides take the same option. -/
structure ChoiceAt (w : Extent) (r : ExprId × Bindings ThunkId) (r' : Expr × Bindings ThunkId) :
    Prop where
  body : a.ExprAt r.1 r'.1
  same : r.2 = r'.2
  sound : BindingsSound w r.2

theorem scheme_matchOne_eq (p : Pattern) (t : ThunkId) :
    Eval.bindingsOf force' p t = Scheme.matchOne force' p t [] :=
  (Scheme.equality.matchOne (fun _ => rfl) p t []).symm

theorem runs_firstMatch (ha : a.Acyclic) (hforce : Forces a force force')
    {ids : List (PatternId × ExprId)} {options : List (Pattern × Expr)}
    (hoptions : a.OptionsAt ids options) {t : ThunkId} (ht : t < w.cells) :
    Runs a w (fun w' => Option.Rel (ChoiceAt a w'))
      (firstMatch (bindMatch a force) t ids) (Eval.firstMatch force' t options) := by
  induction ids generalizing w options with
  | nil =>
    cases hoptions
    exact runs_pure fun _ _ => .none
  | cons id ids ih =>
    cases hoptions with
    | cons hp he hoptions =>
      rw [firstMatch, Eval.firstMatch, scheme_matchOne_eq]
      refine (fits_bindMatch ha hforce hp.lt_size hp ht (by simp [BindingsSound])).bind ?_
      rintro w₁ found _ hw₁ ⟨rfl, hfound⟩
      cases found with
      | none => exact ih hoptions (Nat.lt_of_lt_of_le ht hw₁.cells)
      | some bindings =>
        exact runs_pure fun w₂ hw₂ => .some ⟨he, rfl, (hfound bindings rfl).mono hw₂⟩

end Matching

/-! ### Steps -/

section Step

variable {eval : ExprId → EnvId → Run Value} {eval' : Expr → EnvId → Eval CallByNeed.Value}

theorem runs_suspendAll {env : EnvId} {ids : List ExprId} {es : List Expr}
    (hes : a.ExprsAt ids es) (henv : env < w.frames) :
    Runs a w (fun w' ts ts' => ts = ts' ∧ ∀ t ∈ ts, t < w'.cells) (suspendAll env ids)
      (Eval.suspendAll env es) := by
  induction ids generalizing w es with
  | nil =>
    cases hes
    exact runs_pure fun _ _ => ⟨rfl, by simp⟩
  | cons id ids ih =>
    cases hes with
    | cons he hes =>
      refine (runs_suspend he henv).bind ?_
      rintro w₁ t _ hw₁ ⟨rfl, ht⟩
      refine (ih hes (Nat.lt_of_lt_of_le henv hw₁.frames)).bind ?_
      rintro w₂ ts _ hw₂ ⟨rfl, hts⟩
      have hall : ∀ u ∈ t :: ts, u < w₂.cells :=
        List.forall_mem_cons.2 ⟨Nat.lt_of_lt_of_le ht hw₂.cells, hts⟩
      exact runs_pure fun w₃ hw₃ => ⟨rfl, fun u hu => Nat.lt_of_lt_of_le (hall u hu) hw₃.cells⟩

theorem runs_expectInteger {id : ExprId} {e : Expr} (he : a.ExprAt id e) {v : Value}
    {v' : CallByNeed.Value} (hv : Reads a w v v') :
    Runs a w (fun _ => Eq) (expectInteger a id v) (Eval.expectInteger e.span v') := by
  cases hv.value with
  | integer n => exact runs_pure fun _ _ => rfl
  | _ =>
    simp only [expectInteger, exprSpan_of_exprAt he, pure_bind]
    exact runs_fail _

theorem runs_arithmetic (span : Span) (op : BinaryOp) (x y : Int) :
    Runs a w (Reads a) (arithmetic span op x y) (Eval.arithmetic span op x y) := by
  have hresult (r : Except EvalError Int) : Runs a w (Reads a) (arithmetic.ofExcept r)
      (do return .integer (← Eval.ofExcept r)) := by
    cases r with
    | ok n => exact runs_pure fun _ _ => reads_integer n
    | error e => exact runs_fail e
  cases op with
  | lt => exact runs_pure fun _ _ => reads_boolean _
  | eq => exact runs_pure fun _ _ => reads_boolean _
  | _ => exact hresult _

/-- The body of a function, a `let` or an option is evaluated in a new frame. -/
theorem Evaluates.inFrame (heval : Evaluates a eval eval') {body : ExprId} {e : Expr}
    {parent : EnvId} {bindings : Bindings ThunkId} (he : a.ExprAt body e)
    (hparent : parent < w.frames) (hbindings : BindingsSound w bindings) :
    Runs a w (Reads a) (do eval body (← pushFrame parent bindings))
      (do eval' e (← Eval.pushFrame parent bindings)) := by
  refine (runs_pushFrame hparent hbindings).bind ?_
  rintro w₁ env _ hw₁ ⟨rfl, henv⟩
  exact heval he henv

/-- A suspension is matched, and the body is evaluated with the names bound. -/
theorem Evaluates.inMatch (heval : Evaluates a eval eval') (ha : a.Acyclic) {p : PatternId}
    {q : Pattern} {body : ExprId} {e : Expr} {parent : EnvId} {t : ThunkId}
    {failure : Run Value} {err : EvalError} (hp : a.PatternAt p q) (he : a.ExprAt body e)
    (hparent : parent < w.frames) (ht : t < w.cells) (hfailure : failure = fail err) :
    Runs a w (Reads a)
      (bindMatch a (Numbered.force a eval) p t [] >>= fun
        | some bindings => do eval body (← pushFrame parent bindings)
        | none => failure)
      (Eval.bindingsOf (Eval.force eval') q t >>= fun
        | some bindings => do eval' e (← Eval.pushFrame parent bindings)
        | none => throw err) := by
  rw [scheme_matchOne_eq, hfailure]
  refine (fits_bindMatch ha heval.force hp.lt_size hp ht (by simp [BindingsSound])).bind ?_
  rintro w₁ found _ hw₁ ⟨rfl, hfound⟩
  cases found with
  | none => exact runs_fail err
  | some bindings =>
    exact heval.inFrame he (Nat.lt_of_lt_of_le hparent hw₁.frames) (hfound bindings rfl)

variable {equal : Span → Value → Value → Run Bool}
  {equal' : Span → CallByNeed.Value → CallByNeed.Value → Eval Bool}

variable {id : ExprId} {span : Span} {env : EnvId}

/-- Reading the node at a number is where each form of expression starts. -/
theorem runs_node {node : ExprNode} (h : a.exprs[id]? = some ⟨node, span⟩)
    {x : ExprNode → Run Value} {y : Eval CallByNeed.Value}
    (hnode : Runs a w (Reads a) (x node) y) : Runs a w (Reads a) (exprNode a id >>= x) y := by
  rwa [exprNode_of_some h, pure_bind]

theorem Evaluates.identifier (heval : Evaluates a eval eval') {name : String}
    (h : a.exprs[id]? = some ⟨.identifier name, span⟩) (henv : env < w.frames) :
    Runs a w (Reads a) (step a eval equal id env)
      (Eval.step eval' equal' (.identifier span name) env) := by
  have hread : Eval.step eval' equal' (.identifier span name) env =
      (do return (← get).environments.lookup env name) >>= fun found =>
        found.elim (throw (.unboundVariable name span)) (Eval.force eval') := by
    rw [Eval.step_identifier]
    rfl
  rw [hread]
  refine runs_node h ((runs_lookup henv name).bind ?_)
  rintro w₁ found _ hw₁ ⟨rfl, hfound⟩
  cases found with
  | some t => exact heval.force (hfound t rfl)
  | none =>
    simp only [exprSpan_of_exprAt (.identifier h), pure_bind]
    exact runs_fail _

/-- The test yields the same truth value on both sides, so that the same branch is taken. -/
theorem Evaluates.condition (heval : Evaluates a eval eval') {i j k : ExprId} {e f g : Expr}
    (h : a.exprs[id]? = some ⟨.condition i j k, span⟩) (hi : a.ExprAt i e) (hj : a.ExprAt j f)
    (hk : a.ExprAt k g) (henv : env < w.frames) :
    Runs a w (Reads a) (step a eval equal id env)
      (Eval.step eval' equal' (.condition span e f g) env) := by
  rw [Eval.step]
  refine runs_node h ((heval hi henv).bind fun w₁ v v' hw₁ hv => ?_)
  have henv₁ := Nat.lt_of_lt_of_le henv hw₁.frames
  cases hv.value with
  | boolean b =>
    cases b with
    | true => exact heval hj henv₁
    | false => exact heval hk henv₁
  | _ =>
    simp only [exprSpan_of_exprAt hi, pure_bind]
    exact runs_fail _

/-- The span of an operator is looked up before its operands are evaluated; in the evaluator it is
known. -/
theorem Evaluates.binary (heval : Evaluates a eval eval')
    (hequal : Compares a (equal span) (equal' span)) {i j : ExprId} {op : BinaryOp} {e f : Expr}
    (h : a.exprs[id]? = some ⟨.binary op i j, span⟩) (hi : a.ExprAt i e) (hj : a.ExprAt j f)
    (henv : env < w.frames) :
    Runs a w (Reads a) (step a eval equal id env)
      (Eval.step eval' equal' (.binary span op e f) env) := by
  refine runs_node h ?_
  simp only [exprSpan_of_exprAt (.binary h hi hj), pure_bind]
  by_cases hop : op = .eq
  · -- `==` compares values of all kinds
    rw [if_pos hop, hop, Eval.step]
    refine (heval hi henv).bind fun w₁ v v' hw₁ hv => ?_
    -- the environment is still there when the second operand is evaluated
    refine (heval hj (Nat.lt_of_lt_of_le henv hw₁.frames)).bind fun w₂ u u' hw₂ hu => ?_
    refine (hequal (hv.mono hw₂) hu).bind ?_
    rintro w₃ b _ _ rfl
    exact runs_pure fun _ _ => reads_boolean b
  · rw [if_neg hop, Eval.step]
    · refine (heval hi henv).bind fun w₁ v v' hw₁ hv => ?_
      refine (runs_expectInteger hi hv).bind ?_
      rintro w₂ x _ hw₂ rfl
      have henv₂ := Nat.lt_of_lt_of_le henv (Extent.le_trans hw₁ hw₂).frames
      refine (heval hj henv₂).bind fun w₃ u u' hw₃ hu => ?_
      refine (runs_expectInteger hj hu).bind ?_
      rintro w₄ y _ hw₄ rfl
      exact runs_arithmetic _ op x y
    all_goals exact hop

/-- The body of a function is evaluated in a frame on the environment of the function, which was
there when the function was made. -/
theorem Evaluates.apply (heval : Evaluates a eval eval') (ha : a.Acyclic) {i j : ExprId}
    {e f : Expr} (h : a.exprs[id]? = some ⟨.apply i j, span⟩) (hi : a.ExprAt i e)
    (hj : a.ExprAt j f) (henv : env < w.frames) :
    Runs a w (Reads a) (step a eval equal id env)
      (Eval.step eval' equal' (.apply span e f) env) := by
  rw [Eval.step]
  refine runs_node h ((heval hi henv).bind fun w₁ v v' hw₁ hv => ?_)
  obtain ⟨hsound, hvalue⟩ := hv
  cases hvalue with
  | closure closureEnv hp hbody =>
    refine (runs_suspend hj (Nat.lt_of_lt_of_le henv hw₁.frames)).bind ?_
    rintro w₂ t _ hw₂ ⟨rfl, ht⟩
    exact heval.inMatch ha hp hbody (Nat.lt_of_lt_of_le hsound.2.2 hw₂.frames) ht
      (by rw [exprSpan_of_exprAt (.apply h hi hj), pure_bind]; rfl)
  | _ =>
    simp only [exprSpan_of_exprAt hi, pure_bind]
    exact runs_fail _

/-- A pattern that is no plain name has a node that is none. -/
theorem patternNode_of_name?_eq_none {p : PatternId} {pattern : Pattern}
    (hp : a.PatternAt p pattern) (hname : pattern.name? = none) :
    ∃ node, patternNode a p = pure node ∧ ∀ name, node ≠ .bind name := by
  cases hp with
  | bind _ => cases hname
  | _ => exact ⟨_, patternNode_of_some (by assumption), by simp⟩

/-- Only a plain name makes the recursive frame. -/
theorem Evaluates.bind (heval : Evaluates a eval eval') (ha : a.Acyclic) {i j : ExprId}
    {p : PatternId} {pattern : Pattern} {e f : Expr}
    (h : a.exprs[id]? = some ⟨.bind p i j, span⟩) (hp : a.PatternAt p pattern)
    (hi : a.ExprAt i e) (hj : a.ExprAt j f) (henv : env < w.frames) :
    Runs a w (Reads a) (step a eval equal id env)
      (Eval.step eval' equal' (.bind span pattern e f) env) := by
  refine runs_node h ?_
  rw [Eval.step]
  dsimp only
  cases hname : pattern.name? with
  | some name =>
    -- a plain name is a pattern of one node, which the arena holds at that number
    obtain ⟨s, rfl⟩ : ∃ s, pattern = .bind s name := by
      cases pattern <;> simp [Pattern.name?] at hname
      exact ⟨_, by rw [hname]⟩
    cases hp with
    | bind hnode =>
      rw [patternNode_of_some hnode, pure_bind]
      refine (runs_pushRecursive name henv hi).bind ?_
      rintro w₁ inner _ hw₁ ⟨rfl, hinner⟩
      exact heval hj hinner
  | none =>
    obtain ⟨node, hnode, hne⟩ := patternNode_of_name?_eq_none hp hname
    rw [hnode, pure_bind]
    have hmatch : Runs a w (Reads a)
        (do
          let t ← suspend i env
          match ← bindMatch a (Numbered.force a eval) p t [] with
          | some bindings => eval j (← pushFrame env bindings)
          | none => fail (.patternMismatch "let" (← exprSpan a id)))
        (do
          let t ← Eval.suspend e env
          match ← Eval.bindingsOf (Eval.force eval') pattern t with
          | some bindings => eval' f (← Eval.pushFrame env bindings)
          | none => throw (.patternMismatch "let" span)) := by
      refine (runs_suspend hi henv).bind ?_
      -- the suspension that is made is a cell, and the environment is still there
      rintro w₁ t _ hw₁ ⟨rfl, ht⟩
      exact heval.inMatch ha hp hj (Nat.lt_of_lt_of_le henv hw₁.frames) ht
        (by rw [exprSpan_of_exprAt (.bind h hp hi hj), pure_bind]; rfl)
    cases node with
    | bind name => exact absurd rfl (hne name)
    | _ => exact hmatch

theorem Evaluates.cases (heval : Evaluates a eval eval') (ha : a.Acyclic) {i : ExprId}
    {ids : List (PatternId × ExprId)} {e : Expr} {options : List (Pattern × Expr)}
    (h : a.exprs[id]? = some ⟨.cases i ids, span⟩) (hi : a.ExprAt i e)
    (hoptions : a.OptionsAt ids options) (henv : env < w.frames) :
    Runs a w (Reads a) (step a eval equal id env)
      (Eval.step eval' equal' (.cases span e options) env) := by
  rw [Eval.step]
  refine runs_node h ((runs_suspend hi henv).bind ?_)
  rintro w₁ t _ hw₁ ⟨rfl, ht⟩
  -- the option that is chosen is the same one, by number and by tree
  refine (runs_firstMatch ha heval.force hoptions ht).bind fun w₂ r r' hw₂ hr => ?_
  cases hr with
  | none =>
    simp only [exprSpan_of_exprAt (.cases h hi hoptions), pure_bind]
    exact runs_fail _
  | @some r r' hr =>
    obtain ⟨body, bindings⟩ := r
    obtain ⟨body', bindings'⟩ := r'
    obtain ⟨hbody, hsame, hbindings⟩ := hr
    obtain rfl : bindings = bindings' := hsame
    exact heval.inFrame hbody (Nat.lt_of_lt_of_le henv (Extent.le_trans hw₁ hw₂).frames)
      hbindings

theorem runs_tuple {ids : List ExprId} {es : List Expr}
    (h : a.exprs[id]? = some ⟨.tuple ids, span⟩) (hes : a.ExprsAt ids es) (henv : env < w.frames) :
    Runs a w (Reads a) (step a eval equal id env)
      (Eval.step eval' equal' (.tuple span es) env) := by
  rw [Eval.step]
  refine runs_node h ((runs_suspendAll hes henv).bind ?_)
  rintro w₁ ts _ hw₁ ⟨rfl, hts⟩
  exact runs_pure fun w₂ hw₂ => ⟨fun t ht => Nat.lt_of_lt_of_le (hts t ht) hw₂.cells, .tuple ts⟩

theorem runs_cons {i j : ExprId} {e f : Expr} (h : a.exprs[id]? = some ⟨.cons i j, span⟩)
    (hi : a.ExprAt i e) (hj : a.ExprAt j f) (henv : env < w.frames) :
    Runs a w (Reads a) (step a eval equal id env)
      (Eval.step eval' equal' (.cons span e f) env) := by
  rw [Eval.step]
  refine runs_node h ((runs_suspend hi henv).bind ?_)
  rintro w₁ x _ hw₁ ⟨rfl, hx⟩
  refine (runs_suspend hj (Nat.lt_of_lt_of_le henv hw₁.frames)).bind ?_
  rintro w₂ y _ hw₂ ⟨rfl, hy⟩
  exact runs_pure fun w₃ hw₃ => ⟨⟨Nat.lt_of_lt_of_le hx (Extent.le_trans hw₂ hw₃).cells,
    Nat.lt_of_lt_of_le hy hw₃.cells⟩, .cons x y⟩

/-- **One step runs as in the evaluator**, at every number that stands for an expression. -/
theorem runs_step (ha : a.Acyclic) (heval : Evaluates a eval eval')
    (hequal : ∀ span, Compares a (equal span) (equal' span)) :
    Evaluates a (step a eval equal) (Eval.step eval' equal') := by
  intro w id e env he henv
  cases he with
  | boolean h => exact runs_node h (runs_pure fun _ _ => reads_boolean _)
  | integer h => exact runs_node h (runs_pure fun _ _ => reads_integer _)
  | identifier h => exact heval.identifier h henv
  | condition h hi hj hk => exact heval.condition h hi hj hk henv
  | binary h hi hj => exact heval.binary (hequal _) h hi hj henv
  | lambda h hp hi =>
    exact runs_node h <| runs_pure fun w₁ hw₁ =>
      ⟨⟨hp.lt_size, hi.lt_size, Nat.lt_of_lt_of_le henv hw₁.frames⟩, .closure env hp hi⟩
  | apply h hi hj => exact heval.apply ha h hi hj henv
  | bind h hp hi hj => exact heval.bind ha h hp hi hj henv
  | cases h hi hoptions => exact heval.cases ha h hi hoptions henv
  | tuple h hes => exact runs_tuple h hes henv
  | cons h hi hj => exact runs_cons h hi hj henv
  | nil h => exact runs_node h (runs_pure fun _ _ => ⟨trivial, .nil⟩)

end Step

/-! ### Comparison and printing -/

section Values

variable {force : ThunkId → Run Value} {force' : ThunkId → Eval CallByNeed.Value}

theorem runs_compareElement {nested : Value → Value → Run Bool}
    {nested' : CallByNeed.Value → CallByNeed.Value → Eval Bool} (hforce : Forces a force force')
    (hnested : Compares a nested nested') ⦃w : Extent⦄ ⦃t u : ThunkId⦄ (ht : t < w.cells)
    (hu : u < w.cells) :
    Runs a w (fun _ => Eq) (do nested (← force t) (← force u))
      (do nested' (← force' t) (← force' u)) := by
  refine (hforce ht).bind fun w₁ v v' hw₁ hv => ?_
  refine (hforce (Nat.lt_of_lt_of_le hu hw₁.cells)).bind fun w₂ x x' hw₂ hx => ?_
  exact hnested (hv.mono hw₂) hx

theorem runs_compareAll {element : ThunkId → ThunkId → Run Bool}
    {element' : ThunkId → ThunkId → Eval Bool}
    (helement : ∀ ⦃w : Extent⦄ ⦃t u : ThunkId⦄, t < w.cells → u < w.cells →
      Runs a w (fun _ => Eq) (element t u) (element' t u)) {ts us : List ThunkId}
    (hts : ∀ t ∈ ts, t < w.cells) (hus : ∀ u ∈ us, u < w.cells) :
    Runs a w (fun _ => Eq) (compareAll element ts us) (Eval.compareAll element' ts us) := by
  induction ts generalizing w us with
  | nil => exact runs_pure fun _ _ => rfl
  | cons t ts ih =>
    cases us with
    | nil => exact runs_pure fun _ _ => rfl
    | cons u us =>
      obtain ⟨ht, hts⟩ := List.forall_mem_cons.1 hts
      obtain ⟨hu, hus⟩ := List.forall_mem_cons.1 hus
      refine (helement ht hu).bind ?_
      rintro w₁ b _ hw₁ rfl
      -- the cells are still there when the next elements are compared
      cases b with
      | true =>
        exact ih (fun x hx => Nat.lt_of_lt_of_le (hts x hx) hw₁.cells)
          fun x hx => Nat.lt_of_lt_of_le (hus x hx) hw₁.cells
      | false => exact runs_pure fun _ _ => rfl

/-- **Comparisons run as in the evaluator** if demands and the comparisons of elements do. -/
theorem compares_compareWith (config : Config) (span : Span) {nested : Value → Value → Run Bool}
    {nested' : CallByNeed.Value → CallByNeed.Value → Eval Bool} (hforce : Forces a force force')
    (hnested : Compares a nested nested') (room : Nat) :
    Compares a (compareWith config force nested span room)
      (Eval.compareWith config force' nested' span room) := by
  induction room with
  | zero => exact fun w x y x' y' _ _ => runs_fail _
  | succ room ih =>
    intro w x y x' y' hx hy
    obtain ⟨hxsound, hx⟩ := hx
    obtain ⟨hysound, hy⟩ := hy
    cases hx with
    | closure env hp hb => cases hy <;> exact runs_fail _
    | integer m =>
      cases hy with
      | integer n => exact runs_pure fun _ _ => rfl
      | _ => exact runs_fail _
    | boolean b =>
      cases hy with
      | boolean c => exact runs_pure fun _ _ => rfl
      | _ => exact runs_fail _
    | nil =>
      cases hy with
      | nil => exact runs_pure fun _ _ => rfl
      | cons _ _ => exact runs_pure fun _ _ => rfl
      | _ => exact runs_fail _
    | tuple ts =>
      cases hy with
      | tuple us =>
        rw [compareWith, Eval.compareWith]
        split
        · exact runs_compareAll (runs_compareElement hforce hnested) hxsound hysound
        · exact runs_pure fun _ _ => rfl
      | _ => exact runs_fail _
    | cons h t =>
      cases hy with
      | nil => exact runs_pure fun _ _ => rfl
      | cons h' t' =>
        rw [compareWith, Eval.compareWith]
        -- the tails are compared behind equal heads only
        refine (runs_compareElement hforce hnested hxsound.1 hysound.1).bind ?_
        rintro w₁ b _ hw₁ rfl
        cases b with
        | true =>
          exact runs_compareElement hforce ih (Nat.lt_of_lt_of_le hxsound.2 hw₁.cells)
            (Nat.lt_of_lt_of_le hysound.2 hw₁.cells)
        | false => exact runs_pure fun _ _ => rfl
      | _ => exact runs_fail _

section Print

variable {element : ThunkId → Run String} {element' : ThunkId → Eval String}
  (helement : ∀ ⦃w : Extent⦄ ⦃t : ThunkId⦄, t < w.cells →
    Runs a w (fun _ => Eq) (element t) (element' t))

include helement

theorem runs_commaSeparated {ts : List ThunkId} (hts : ∀ t ∈ ts, t < w.cells) :
    Runs a w (fun _ => Eq) (commaSeparated element ts) (Eval.commaSeparated element' ts) := by
  induction ts generalizing w with
  | nil => exact runs_pure fun _ _ => rfl
  | cons t ts ih =>
    obtain ⟨ht, hts⟩ := List.forall_mem_cons.1 hts
    cases ts with
    | nil => exact helement ht
    | cons u ts =>
      refine (helement ht).bind ?_
      rintro w₁ first _ hw₁ rfl
      refine (ih fun x hx => Nat.lt_of_lt_of_le (hts x hx) hw₁.cells).bind ?_
      rintro w₂ rest _ hw₂ rfl
      exact runs_pure fun _ _ => rfl

theorem runs_colonTerminated {ts : List ThunkId} (hts : ∀ t ∈ ts, t < w.cells) :
    Runs a w (fun _ => Eq) (colonTerminated element ts) (Eval.colonTerminated element' ts) := by
  induction ts generalizing w with
  | nil => exact runs_pure fun _ _ => rfl
  | cons t ts ih =>
    obtain ⟨ht, hts⟩ := List.forall_mem_cons.1 hts
    refine (helement ht).bind ?_
    rintro w₁ first _ hw₁ rfl
    refine (ih fun x hx => Nat.lt_of_lt_of_le (hts x hx) hw₁.cells).bind ?_
    rintro w₂ rest _ hw₂ rfl
    exact runs_pure fun _ _ => rfl

end Print

variable (a) in
/-- A list has been walked on both sides, up to the same cells and the same value. -/
structure SpineAt (w : Extent) (r : List ThunkId × Value)
    (r' : List ThunkId × CallByNeed.Value) : Prop where
  same : r.1 = r'.1
  sound : ∀ t ∈ r.1, t < w.cells
  last : Reads a w r.2 r'.2

theorem SpineAt.mono {w' : Extent} {r : List ThunkId × Value}
    {r' : List ThunkId × CallByNeed.Value} (h : SpineAt a w r r') (hw : w ≤ w') :
    SpineAt a w' r r' :=
  ⟨h.same, fun t ht => Nat.lt_of_lt_of_le (h.sound t ht) hw.cells, h.last.mono hw⟩

theorem runs_spine (hforce : Forces a force force') (room : Nat) {v : Value}
    {v' : CallByNeed.Value} (hv : Reads a w v v') :
    Runs a w (SpineAt a) (spine force room v) (Eval.spine force' room v') := by
  have hend {w : Extent} {v : Value} {v' : CallByNeed.Value} (hv : Reads a w v v') :
      Runs a w (SpineAt a) (pure ([], v)) (pure ([], v')) :=
    runs_pure fun w' hw => ⟨rfl, by simp, hv.mono hw⟩
  induction room generalizing w v v' with
  | zero => exact hend hv
  | succ room ih =>
    cases hv.value with
    | cons head tail =>
      rw [spine, Eval.spine]
      refine (hforce hv.sound.2).bind fun w₁ u u' hw₁ hu => ?_
      refine (ih hu).bind ?_
      rintro w₂ ⟨heads, last⟩ ⟨_, last'⟩ hw₂ ⟨rfl, hheads, hlast⟩
      have hhead : head < w₂.cells :=
        Nat.lt_of_lt_of_le hv.sound.1 (Extent.le_trans hw₁ hw₂).cells
      have hwalked : SpineAt a w₂ (head :: heads, last) (head :: heads, last') :=
        ⟨rfl, List.forall_mem_cons.2 ⟨hhead, hheads⟩, hlast⟩
      exact runs_pure fun w₃ hw₃ => hwalked.mono hw₃
    | _ => exact hend hv

variable (a) in
/-- Printing runs as in the evaluator. -/
def Prints (render : Value → Run String) (render' : CallByNeed.Value → Eval String) : Prop :=
  ∀ ⦃w : Extent⦄ ⦃v : Value⦄ ⦃v' : CallByNeed.Value⦄, Reads a w v v' →
    Runs a w (fun _ => Eq) (render v) (render' v')

/-- **Printing runs as in the evaluator** if demands and the printing of elements do. -/
theorem prints_renderWith (config : Config) {nested : Value → Run String}
    {nested' : CallByNeed.Value → Eval String} (hforce : Forces a force force')
    (hnested : Prints a nested nested') :
    Prints a (renderWith config force nested) (Eval.renderWith config force' nested') := by
  have helement ⦃w : Extent⦄ ⦃t : ThunkId⦄ (ht : t < w.cells) :
      Runs a w (fun _ => Eq) (do nested (← force t)) (do nested' (← force' t)) :=
    (hforce ht).bind fun w₁ v v' hw₁ hv => hnested hv
  intro w v v' hv
  cases hv.value with
  | integer n => exact runs_pure fun _ _ => rfl
  | boolean b => exact runs_pure fun _ _ => rfl
  | closure env hp hb => exact runs_pure fun _ _ => rfl
  | nil => exact runs_pure fun _ _ => rfl
  | tuple ts =>
    rw [renderWith, Eval.renderWith, renderTuple, Eval.renderTuple]
    refine (runs_commaSeparated helement fun t ht => hv.sound t (List.mem_of_mem_take ht)).bind ?_
    rintro w₁ shown _ hw₁ rfl
    exact runs_pure fun _ _ => rfl
  | cons head tail =>
    rw [renderWith, Eval.renderWith]
    refine (hforce hv.sound.2).bind fun w₁ next next' hw₁ hnext => ?_
    refine (runs_spine hforce _ hnext).bind ?_
    rintro w₂ ⟨heads, last⟩ ⟨_, last'⟩ hw₂ ⟨rfl, hheads, hlast⟩
    have hall : ∀ t ∈ head :: heads, t < w₂.cells := List.forall_mem_cons.2
      ⟨Nat.lt_of_lt_of_le hv.sound.1 (Extent.le_trans hw₁ hw₂).cells, hheads⟩
    have hlist := runs_commaSeparated helement hall
    -- a chain that ends in something else shows its end, which counts as a demand
    have hchain : Runs a w₂ (fun _ => Eq)
        (do
          let shown ← colonTerminated (fun t => do nested (← force t)) (head :: heads)
          countHit
          return shown ++ (← nested last))
        (do
          let shown ← Eval.colonTerminated (fun t => do nested' (← force' t)) (head :: heads)
          Eval.countHit
          return shown ++ (← nested' last')) := by
      refine (runs_colonTerminated helement hall).bind ?_
      rintro w₃ shown _ hw₃ rfl
      refine runs_countHit.bind fun w₄ _ _ hw₄ _ => ?_
      refine (hnested (hlast.mono (Extent.le_trans hw₃ hw₄))).bind ?_
      rintro w₅ text _ hw₅ rfl
      exact runs_pure fun _ _ => rfl
    cases hlast.value with
    | nil =>
      refine hlist.bind ?_
      rintro w₃ shown _ hw₃ rfl
      exact runs_pure fun _ _ => rfl
    | cons _ _ =>
      simp only
      split
      · exact runs_fail _
      · refine hlist.bind ?_
        rintro w₃ shown _ hw₃ rfl
        exact runs_pure fun _ _ => rfl
    | _ => exact hchain

end Values

/-! ### Levels -/

section Levels

variable (config : Config)

/-- **The evaluator by number runs as the evaluator**, with whatever number of levels left. -/
theorem runs_level (ha : a.Acyclic) (n : Nat) :
    Evaluates a (level a config n).eval (Eval.eval config n) ∧
      ∀ span, Compares a ((level a config n).equal span) (Eval.equal config n span) := by
  -- each entry is noted with what it refers to, which exists by the hypotheses on it
  have hnoted {x : ExprId → EnvId → Run Value} {x' : Expr → EnvId → Eval CallByNeed.Value}
      (h : Evaluates a x x') :
      Evaluates a (fun id env => noted (.evaluation id env) .value (x id env)) x' :=
    fun w id e env he henv =>
      (h he henv).noted ⟨he.lt_size, henv⟩ fun _ _ _ hv => hv.sound
  have hcompared {x : Value → Value → Run Bool}
      {x' : CallByNeed.Value → CallByNeed.Value → Eval Bool} (h : Compares a x x') :
      Compares a (fun u v => noted (.comparison u v) (fun _ => .result) (x u v)) x' :=
    fun w u v u' v' hu hv => (h hu hv).noted ⟨hu.sound, hv.sound⟩ fun _ _ _ _ => trivial
  induction n with
  | zero =>
    have hlimit : Evaluates a
        (fun id _ => do fail (.recursionLimit config.maxDepth (← exprSpan a id)))
        (Eval.eval config 0) := by
      intro w id e env he henv
      simp only [exprSpan_of_exprAt he, pure_bind, Eval.eval_zero]
      exact runs_fail _
    refine ⟨hnoted hlimit, fun span => ?_⟩
    rw [Eval.equal_zero]
    refine hcompared (compares_compareWith config span (hnoted hlimit).force ?_ _)
    exact fun w u v u' v' _ _ => runs_fail _
  | succ n ih =>
    obtain ⟨heval, hequal⟩ := ih
    -- the span is looked up first, and that checks the number of the expression
    have hstep : Evaluates a
        (fun id env => do
          discard <| exprSpan a id
          step a (level a config n).eval (level a config n).equal id env)
        (Eval.eval config (n + 1)) := by
      intro w id e env he henv
      simp only [exprSpan_of_exprAt he, Eval.eval_succ]
      exact runs_step ha heval hequal he henv
    refine ⟨hnoted hstep, fun span => ?_⟩
    rw [Eval.equal_succ]
    exact hcompared (compares_compareWith config span (hnoted hstep).force (hequal span) _)

theorem prints_renderAt (ha : a.Acyclic) (n : Nat) :
    Prints a (renderAt a config n) (Eval.renderAt config n) := by
  have hforce (n : Nat) := (runs_level config ha n).1.force
  induction n with
  | zero =>
    intro w v v' hv
    refine Runs.noted ?_ hv.sound fun _ _ _ _ => trivial
    exact prints_renderWith config (hforce 0) (fun _ _ _ _ => runs_fail _) hv
  | succ n ih =>
    intro w v v' hv
    refine Runs.noted ?_ hv.sound fun _ _ _ _ => trivial
    exact prints_renderWith config (hforce (n + 1)) ih hv

end Levels

end CallByNeed.Numbered

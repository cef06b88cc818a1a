import CallByNeed.Proofs.Building.Appending
import CallByNeed.Proofs.Interpretation.Cleanup
import CallByNeed.Proofs.Numbered.Agreement

/-!
# No reference dangles

An interpreter is used by defining names in the root and by calls: to evaluate, to demand, to match
and to print.  It stays sound whatever is done with it, when a call has succeeded and when it has
failed, and at the beginning and at the end of every call that it makes of itself
(`references_sound`).  So no access finds nothing, and every search for a name ends.

What a user hands to the interpreter has to be there.  Everything that the interpreter has answered
before is there, since frames and cells only become more.
-/

namespace CallByNeed.Numbered

variable {a : Arena} {config : Config} {w : Extent}

/-! ### Calls -/

variable (a) in
/-- What the call is given is there. -/
def Call.Sound (w : Extent) : Call → Prop
  | .evaluate id => id < a.exprs.size
  | .force t => t < w.cells
  | .bindMatch p t bindings => p < a.patterns.size ∧ t < w.cells ∧ BindingsSound w bindings
  | .render v => v.Sound a w

variable (a) in
/-- What the answer refers to is there. -/
def Answer.Sound (w : Extent) : Answer → Prop
  | .value v => v.Sound a w
  | .bindings found => ∀ bindings ∈ found, BindingsSound w bindings
  | .text _ => True

variable (a) in
/-- The call is that of the evaluator, with numbers for trees. -/
inductive CallAt : Call → CallByNeed.Call → Prop where
  | evaluate {id : ExprId} {e : Expr} (he : a.ExprAt id e) : CallAt (.evaluate id) (.evaluate e)
  | force (t : ThunkId) : CallAt (.force t) (.force t)
  | bindMatch {p : PatternId} {q : Pattern} (hp : a.PatternAt p q) (t : ThunkId)
    (bindings : Bindings ThunkId) : CallAt (.bindMatch p t bindings) (.bindMatch q t bindings)
  | render {v : Value} {v' : CallByNeed.Value} (hv : ValueAt a v v') :
    CallAt (.render v) (.render v')

variable (a) in
/-- The answer is that of the evaluator, with numbers for trees. -/
inductive AnswerAt : Answer → CallByNeed.Answer → Prop where
  | value {v : Value} {v' : CallByNeed.Value} (hv : ValueAt a v v') :
    AnswerAt (.value v) (.value v')
  | bindings (found : Option (Bindings ThunkId)) : AnswerAt (.bindings found) (.bindings found)
  | text (s : String) : AnswerAt (.text s) (.text s)

variable (a) in
/-- Both sides answer the same, and what the answer refers to is there. -/
structure Answers (w : Extent) (r : Answer) (r' : CallByNeed.Answer) : Prop where
  sound : r.Sound a w
  same : AnswerAt a r r'

/-- **A call runs as in the evaluator** if what it is given is there. -/
theorem runs_call (ha : a.Acyclic) {call : Call} {call' : CallByNeed.Call}
    (hcall : call.Sound a w) (hat : CallAt a call call') (hroot : Environments.root < w.frames) :
    Runs a w (Answers a) (call.run a config) (call'.eval config) := by
  have heval := (runs_level config ha config.maxDepth).1
  cases hat with
  | evaluate he =>
    refine (heval he hroot).bind fun w₁ v v' hw₁ hv => ?_
    exact runs_pure fun w₂ hw₂ => ⟨(hv.mono hw₂).sound, .value hv.value⟩
  | force t =>
    refine (heval.force hcall).bind fun w₁ v v' hw₁ hv => ?_
    exact runs_pure fun w₂ hw₂ => ⟨(hv.mono hw₂).sound, .value hv.value⟩
  | @bindMatch p q hp t bindings =>
    obtain ⟨hp', ht, hbindings⟩ := hcall
    have hmatch := fits_bindMatch ha heval.force hp' hp ht hbindings
    -- the evaluator keeps the names bound in the state of a match
    have hforce (t : ThunkId) : Eval.demand config t = Eval.demand config t := rfl
    have hsame := Scheme.equality.matchOne hforce q t bindings
    refine Runs.bind (R := MatchAt) (hsame ▸ hmatch) ?_
    rintro w₁ found _ hw₁ ⟨rfl, hfound⟩
    exact runs_pure fun w₂ hw₂ => ⟨fun bs hbs => (hfound bs hbs).mono hw₂, .bindings found⟩
  | render hv =>
    refine (prints_renderAt config ha config.maxDepth ⟨hcall, hv⟩).bind ?_
    rintro w₁ text _ hw₁ rfl
    exact runs_pure fun w₂ hw₂ => ⟨trivial, .text text⟩

/-! ### Uses of an interpreter -/

/-- The state that is left. -/
def left {α : Type} : EStateM.Result Stop State α → State
  | .ok _ s | .error _ s => s

variable (a config) in
/-- What is done with an interpreter leads to the state, and leads the evaluator to the machine.
Whatever it is given has to be there. -/
inductive Reachable : State → CallByNeed.Machine → Prop where
  | start : Reachable .initial .initial
  | define {s : State} {m : CallByNeed.Machine} {v : Value} {v' : CallByNeed.Value} (name : String)
    (h : Reachable s m) (hv : v.Sound a s.machine.extent) (hat : ValueAt a v v') :
    Reachable (s.onMachine (·.define name v)) (m.define name v')
  /-- A suspension is made by hand. -/
  | allocate {s : State} {m : CallByNeed.Machine} {c : Cell} {c' : CallByNeed.Cell}
    (h : Reachable s m) (hc : c.Sound a s.machine.extent) (hat : CellAt a c c') :
    Reachable (s.onMachine (·.allocate c)) (m.allocate c').2
  | call {s : State} {m : CallByNeed.Machine} {call : Call} {call' : CallByNeed.Call}
    (h : Reachable s m) (hcall : call.Sound a s.machine.extent) (hat : CallAt a call call') :
    Reachable (left (call.run a config s)) (Eval.split (call'.eval config m)).2

variable (config) in
/-- A call keeps the states consistent, whether or not it succeeds. -/
theorem Consistent.call (ha : a.Acyclic) {s : State} {m : CallByNeed.Machine}
    (h : Consistent a s m) {call : Call} {call' : CallByNeed.Call}
    (hcall : call.Sound a s.machine.extent) (hat : CallAt a call call') :
    Agree a s.machine.extent (Answers a) (call.run a config s) (call'.eval config m) :=
  runs_call ha hcall hat h.sound.frames_pos s m h (Extent.le_refl _)

/-- **All that is done with an interpreter keeps it sound.** -/
theorem Reachable.consistent (ha : a.Acyclic) {s : State} {m : CallByNeed.Machine}
    (h : Reachable a config s m) : Consistent a s m := by
  induction h with
  | start => exact ⟨Machine.sound_initial, by simp [State.initial], .initial⟩
  | define name _ hv hat ih =>
    exact ⟨ih.sound.define name hv, ih.history, ih.represents.define name hat⟩
  | @allocate s _ c _ _ hc hat ih =>
    have hle := s.machine.extent_le_allocate c
    exact ⟨(ih.sound.mono hle).allocate (hc.mono hle), ih.history, ih.represents.allocate hat⟩
  | @call s m call call' _ hcall hat ih =>
    have hagree := ih.call config ha hcall hat
    generalize call.run a config s = r at hagree ⊢
    generalize call'.eval config m = r' at hagree ⊢
    cases hagree with
    | ok hs _ _ => exact hs
    | error e hs _ => exact hs

/-! ### What is there has a tree -/

theorem exists_valueAt (ha : a.Acyclic) {v : Value} (h : v.Sound a w) : ∃ v', ValueAt a v v' := by
  cases v with
  | closure param body env =>
    obtain ⟨p, hp⟩ := ha.exists_patternAt h.1
    obtain ⟨e, he⟩ := ha.exists_exprAt h.2.1
    exact ⟨_, .closure env hp he⟩
  | integer n => exact ⟨_, .integer n⟩
  | boolean b => exact ⟨_, .boolean b⟩
  | tuple elems => exact ⟨_, .tuple elems⟩
  | cons head tail => exact ⟨_, .cons head tail⟩
  | nil => exact ⟨_, .nil⟩

/-- **Every call that is given what is there is one of the evaluator.** -/
theorem exists_callAt (ha : a.Acyclic) {call : Call} (h : call.Sound a w) :
    ∃ call', CallAt a call call' := by
  cases call with
  | evaluate id =>
    obtain ⟨e, he⟩ := ha.exists_exprAt h
    exact ⟨_, .evaluate he⟩
  | force t => exact ⟨_, .force t⟩
  | bindMatch p t bindings =>
    obtain ⟨q, hq⟩ := ha.exists_patternAt h.1
    exact ⟨_, .bindMatch hq t bindings⟩
  | render v =>
    obtain ⟨v', hv⟩ := exists_valueAt ha h
    exact ⟨_, .render hv⟩

/-! ### The invariant -/

variable (a) in
/-- What a call makes of a state: an answer or an error of the program, and never an access that
finds nothing.  The frames and cells that were there are still there, and so is everything that the
answer refers to. -/
inductive Proper (s : State) : EStateM.Result Stop State Answer → Prop where
  | answer {r : Answer} {after : State} (hr : r.Sound a after.machine.extent)
    (hgrows : s.machine.extent ≤ after.machine.extent) : Proper s (.ok r after)
  | error {e : EvalError} {after : State} (hgrows : s.machine.extent ≤ after.machine.extent) :
    Proper s (.error (.error e) after)

variable (a) in
/-- The result is that of the evaluator, with numbers for trees. -/
inductive ResultAt : EStateM.Result Stop State Answer →
    EStateM.Result EvalError CallByNeed.Machine CallByNeed.Answer → Prop where
  | ok {s : State} {m : CallByNeed.Machine} {r : Answer} {r' : CallByNeed.Answer}
    (hm : Represents a s.machine m) (hr : AnswerAt a r r') : ResultAt (.ok r s) (.ok r' m)
  | error {s : State} {m : CallByNeed.Machine} (e : EvalError) (hm : Represents a s.machine m) :
    ResultAt (.error (.error e) s) (.error e m)

/-- **No reference of an interpreter dangles, and none leads back.**  An arena has no cycles when it
is empty, and when a text has been read into one that has none.  In such an arena, whatever has been
done with an interpreter:

* its machine is sound, and has been so whenever a call began or ended, nested or not,
* a search for a name, in any of its frames, ends within as many frames as there are, and
* each further call with arguments that are there is proper: no access to a node, a span, a frame or
  a cell finds nothing.

The interpreter and the evaluator have done the same, and do the same with each further call. -/
theorem references_sound :
    (Arena.empty.Acyclic ∧ ∀ (b : Arena) (table : OperatorTable) (source : String), b.Acyclic →
      (b.read table source).2.Acyclic ∧ (b.build table source).2.Acyclic) ∧
    ∀ (a : Arena) (config : Config) (s : State) (m : CallByNeed.Machine), a.Acyclic →
      Reachable a config s m →
      (s.machine.Sound a ∧ ∀ moment ∈ s.history, moment.Sound a) ∧
      (∀ machine ∈ s.machine :: s.history.map Moment.machine,
        ∀ env < machine.environments.size, ∀ name,
          machine.environments.search name machine.environments.size env =
            some (machine.environments.lookup env name)) ∧
      Represents a s.machine m ∧
      ∀ call : Call, call.Sound a s.machine.extent → Proper a s (call.run a config s) ∧
        (∃ call', CallAt a call call') ∧ ∀ call', CallAt a call call' →
          ResultAt a (call.run a config s) (call'.eval config m) := by
  refine ⟨⟨Arena.acyclic_empty, fun b table source hb => ?_⟩, fun a config s m ha hreachable => ?_⟩
  · -- both ways to read add nodes behind the nodes that they refer to
    exact ⟨hb.of_adds (b.adds_read table source), hb.of_adds (b.adds_build table source)⟩
  -- everything else follows from the correspondence with the evaluator
  have h := hreachable.consistent ha
  refine ⟨⟨h.sound, h.history⟩, fun machine hmachine env henv name => ?_, h.represents,
    fun call hcall => ?_⟩
  · have hsound : machine.Sound a := by
      rcases List.mem_cons.1 hmachine with rfl | hmem
      · exact h.sound
      · obtain ⟨moment, hmoment, rfl⟩ := List.mem_map.1 hmem
        exact (h.history moment hmoment).machine
    exact hsound.search_eq name henv henv
  · have hresult (call' : CallByNeed.Call) (hat : CallAt a call call') :
        Proper a s (call.run a config s) ∧
          ResultAt a (call.run a config s) (call'.eval config m) := by
      have hagree := h.call config ha hcall hat
      generalize call.run a config s = r at hagree ⊢
      generalize call'.eval config m = r' at hagree ⊢
      cases hagree with
      | ok hs hw hr => exact ⟨.answer hr.sound hw, .ok hs.represents hr.same⟩
      | error e hs hw => exact ⟨.error hw, .error e hs.represents⟩
    obtain ⟨call', hat⟩ := exists_callAt ha hcall
    exact ⟨(hresult call' hat).1, ⟨call', hat⟩, fun call' hat => (hresult call' hat).2⟩

/-- A list that refers to itself is evaluated, and printed behind that: `let x = 1 : x in x` makes a
suspension in a frame that is pushed in the same step. -/
theorem references_sound_recursive :
    let x : Expr := .identifier .unknown "x"
    let e : Expr := .bind .unknown (.bind .unknown "x") (.cons .unknown (.integer .unknown 1) x) x
    let a := (Arena.insertExpr e .empty).2
    let config : Config := { maxDepth := 10, renderLimit := 2 }
    let s := left ((Call.evaluate 4).run a config .initial)
    let print : Call := .render (.cons 1 2)
    (a.Acyclic ∧ (s.machine.extent.frames = 2 ∧ s.machine.extent.cells = 3) ∧
      s.history.length = 8) ∧
      s.machine.Sound a ∧ Proper a s (print.run a config s) := by
  intro x e a config s print
  have ha : a.Acyclic := Arena.acyclic_empty.grown (Arena.insertExpr_new e .empty).1
  have hframes : s.machine.extent.frames = 2 := by decide +kernel
  have hcells : s.machine.extent.cells = 3 := by decide +kernel
  have hid : (Call.evaluate 4).Sound a Machine.initial.extent := by
    show 4 < a.exprs.size
    decide +kernel
  obtain ⟨call, hcall⟩ := exists_callAt ha hid
  have hprint : print.Sound a s.machine.extent := by
    show 1 < s.machine.extent.cells ∧ 2 < s.machine.extent.cells
    omega
  have h := references_sound.2 a config s _ ha (.call .start hid hcall)
  exact ⟨⟨ha, ⟨hframes, hcells⟩, by decide +kernel⟩, h.1.1, (h.2.2.2 print hprint).1⟩

end CallByNeed.Numbered

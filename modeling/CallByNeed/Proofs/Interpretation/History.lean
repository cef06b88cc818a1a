import CallByNeed.Proofs.Interpretation.Cleanup
import Mathlib.Data.Finset.Card
import Mathlib.Data.Finset.Range

/-!
# The history of a machine

The evaluator hands a machine on and forgets what it was like before.  A recorder keeps every
machine that there was: each time a computation suspends something, pushes a frame or counts, and
each time a demand marks a cell, settles it or takes the mark away, the machine is added to a
history.  This module reads the evaluator in that way, and shows that the answers and the last
machine are those of the evaluator (`Recorder.Follows`).

What can happen from one moment of a history to the next is said once (`Machine.Advances`), with one
law for each way in which a machine changes.  A history is lawful if it begins with the fresh
machine and goes on in this way.
-/

namespace CallByNeed

/-! ### The levels of the evaluator over any monad -/

namespace Scheme

variable {M : Type → Type} [Monad M] [MonadLiftT Eval M]

/-- How a value is demanded, given how expressions are evaluated. -/
abbrev Demand (M : Type → Type) :=
  (Expr → EnvId → M Value) → ThunkId → M Value

mutual

/-- The value of an expression, with the given number of levels left. -/
def eval (config : Config) (force : Demand M) : Nat → Expr → EnvId → M Value
  | 0, e, _ => fail (.recursionLimit config.maxDepth e.span)
  | depth + 1, e, env =>
    step (force (eval config force depth)) (eval config force depth) (equal config force depth)
      e env

/-- The comparison that `==` at `span` makes, with the given number of levels left. -/
def equal (config : Config) (force : Demand M) : Nat → Span → Value → Value → M Bool
  | 0, span, x, y =>
    compareWith config (force fun e _ => fail (.recursionLimit config.maxDepth e.span))
      (fun _ _ => fail (.recursionLimit config.maxDepth span)) span (config.spineLimit + 1) x y
  | depth + 1, span, x, y =>
    compareWith config
      (force (step (force (eval config force depth)) (eval config force depth)
        (equal config force depth)))
      (equal config force depth span) span (config.spineLimit + 1) x y

end

/-- The text of a value, with the given number of levels left. -/
def renderAt (config : Config) (force : Demand M) : Nat → Value → M String
  | 0, v =>
    renderWith config (force (eval config force 0))
      (fun _ => fail (.recursionLimit config.maxDepth .unknown)) v
  | depth + 1, v =>
    renderWith config (force (eval config force (depth + 1))) (renderAt config force depth) v

end Scheme

namespace Correspondence

variable {M : Type → Type} [Monad M] [MonadLiftT Eval M] (C : Correspondence M)
  {force : Scheme.Demand M}
  (hforce : ∀ {eval : Expr → EnvId → M Value} {eval' : Expr → EnvId → Eval Value},
    (∀ e env, C.Related (eval e env) (eval' e env)) →
      ∀ t, C.Related (force eval t) (Eval.force eval' t))

include hforce

/-- **Evaluations correspond if demands do**, with whatever number of levels left. -/
theorem eval (config : Config) (n : Nat) :
    (∀ e env, C.Related (Scheme.eval config force n e env) (Eval.eval config n e env)) ∧
      ∀ span x y,
        C.Related (Scheme.equal config force n span x y) (Eval.equal config n span x y) := by
  induction n with
  | zero =>
    refine ⟨fun e env => ?_, fun span x y => ?_⟩
    · rw [Scheme.eval, Eval.eval_zero]
      exact C.fail _
    · rw [Scheme.equal, Eval.equal]
      exact C.compareWith config (hforce fun _ _ => C.fail _) (fun _ _ => C.fail _) span _ x y
  | succ n ih =>
    obtain ⟨heval, hequal⟩ := ih
    -- a step demands values with the levels that deeper evaluations have
    have hstep := C.step (hforce heval) heval hequal
    refine ⟨fun e env => ?_, fun span x y => ?_⟩
    · rw [Scheme.eval, Eval.eval_succ]
      exact hstep e env
    · rw [Scheme.equal, Eval.equal]
      exact C.compareWith config (hforce hstep) (hequal span) span _ x y

/-- **Printing corresponds if demands do.** -/
theorem renderAt (config : Config) (n : Nat) (v : Value) :
    C.Related (Scheme.renderAt config force n v) (Eval.renderAt config n v) := by
  have hdemand (k : Nat) := hforce (C.eval hforce config k).1
  induction n generalizing v with
  | zero => exact C.renderWith config (hdemand 0) (fun _ => C.fail _) v
  | succ n ih => exact C.renderWith config (hdemand (n + 1)) ih v

end Correspondence

/-! ### What happens from one moment to the next -/

/-- What a machine is changed by. -/
inductive Cause where
  /-- A call of the interpreter. -/
  | call
  /-- A definition of a name in the root. -/
  | definition
  /-- Somebody else, who makes a cell. -/
  | outside
deriving DecidableEq, Repr

namespace Machine

/-- A value has been found at the address. -/
def holdsValue (m : Machine) (t : ThunkId) : Bool :=
  match m.cells[t]? with
  | some (.evaluated _) => true
  | _ => false

/-- There is a suspension at the address that nobody has demanded yet, or the demand has failed. -/
def isPending (m : Machine) (t : ThunkId) : Bool :=
  match m.cells[t]? with
  | some (.pending _ _) => true
  | _ => false

/-- The addresses at which the second machine, but not yet the first, holds a value. -/
def found (m m' : Machine) : Finset ThunkId :=
  {t ∈ Finset.range m.cells.size | !m.holdsValue t && m'.holdsValue t}

/-- How a machine changes from one moment to the next. -/
structure Advances (cause : Cause) (m m' : Machine) : Prop where
  size_le : m.cells.size ≤ m'.cells.size
  /-- A value that has been found stays. -/
  evaluated : ∀ (t : ThunkId) v, m.cells[t]? = some (.evaluated v) →
    m'.cells[t]? = some (.evaluated v)
  /-- A call makes pending cells and a definition one with a value. -/
  fresh : ∀ t, m.cells.size ≤ t → t < m'.cells.size →
    m'.isPending t ∧ cause ≠ .definition ∨ m'.holdsValue t ∧ cause ≠ .call
  created_eq : m'.created = m.created + if cause = .call then m'.cells.size - m.cells.size else 0
  evaluated_eq : m'.evaluated = m.evaluated + (m.found m').card

variable {m m' m'' : Machine} {t : ThunkId} {c : Cell} {e : Expr} {env : EnvId}

theorem holdsValue_iff : m.holdsValue t = true ↔ ∃ v, m.cells[t]? = some (.evaluated v) := by
  unfold holdsValue
  split
  · rename_i v h
    exact ⟨fun _ => ⟨v, h⟩, fun _ => rfl⟩
  · rename_i h
    exact ⟨fun hfalse => absurd hfalse Bool.false_ne_true, fun ⟨v, hv⟩ => absurd hv (h v)⟩

theorem isPending_iff : m.isPending t = true ↔ ∃ e env, m.cells[t]? = some (.pending e env) := by
  unfold isPending
  split
  · rename_i e env h
    exact ⟨fun _ => ⟨e, env, h⟩, fun _ => rfl⟩
  · rename_i h
    exact ⟨fun hfalse => absurd hfalse Bool.false_ne_true, fun ⟨e, env, he⟩ => absurd he (h e env)⟩

/-- An address holds the same as before if the cell there is the same. -/
theorem holdsValue_congr (h : m'.cells[t]? = m.cells[t]?) : m'.holdsValue t = m.holdsValue t := by
  unfold holdsValue
  rw [h]

theorem not_isPending_of_holdsValue (h : m.holdsValue t = true) : m.isPending t = false := by
  obtain ⟨v, hv⟩ := holdsValue_iff.1 h
  unfold isPending
  rw [hv]

theorem mem_found : t ∈ m.found m' ↔ m.holdsValue t = false ∧ m'.holdsValue t = true ∧
    t < m.cells.size := by
  unfold found
  simp only [Finset.mem_filter, Finset.mem_range, Bool.and_eq_true, Bool.not_eq_true']
  exact ⟨fun h => ⟨h.2.1, h.2.2, h.1⟩, fun h => ⟨h.2.2, h.1, h.2.1⟩⟩

/-- Nothing is found where the cells stay as they are. -/
theorem found_eq_empty (h : ∀ t < m.cells.size, m'.cells[t]? = m.cells[t]?) :
    m.found m' = ∅ := by
  refine Finset.eq_empty_of_forall_notMem fun t ht => ?_
  obtain ⟨hbefore, hafter, hlt⟩ := mem_found.1 ht
  rw [holdsValue_congr (h t hlt), hbefore] at hafter
  cases hafter

/-- A machine at work that demands nothing: it only makes new suspensions, and counts them. -/
structure Works (m m' : Machine) : Prop where
  size_le : m.cells.size ≤ m'.cells.size
  old : ∀ t < m.cells.size, m'.cells[t]? = m.cells[t]?
  new : ∀ t, m.cells.size ≤ t → t < m'.cells.size → m'.isPending t
  created_eq : m'.created = m.created + (m'.cells.size - m.cells.size)
  evaluated_eq : m'.evaluated = m.evaluated

/-- Frames and hits do not matter. -/
theorem works_of_eq (hcells : m'.cells = m.cells) (hcreated : m'.created = m.created)
    (hevaluated : m'.evaluated = m.evaluated) : Works m m' where
  size_le := by rw [hcells]
  old t _ := by rw [hcells]
  new t hle hlt := absurd (hcells ▸ hlt) (Nat.not_lt.2 hle)
  created_eq := by rw [hcreated, hcells, Nat.sub_self, Nat.add_zero]
  evaluated_eq := hevaluated

theorem Works.trans (h : Works m m') (h' : Works m' m'') : Works m m'' where
  size_le := Nat.le_trans h.size_le h'.size_le
  old t ht := (h'.old t (Nat.lt_of_lt_of_le ht h.size_le)).trans (h.old t ht)
  new t hle hlt := by
    by_cases ht : t < m'.cells.size
    · obtain ⟨e, env, he⟩ := isPending_iff.1 (h.new t hle ht)
      exact isPending_iff.2 ⟨e, env, (h'.old t ht).trans he⟩
    · exact h'.new t (Nat.le_of_not_lt ht) hlt
  created_eq := by
    have hle := h.size_le
    have hle' := h'.size_le
    rw [h'.created_eq, h.created_eq]
    omega
  evaluated_eq := h'.evaluated_eq.trans h.evaluated_eq

/-- **A suspension is made.** -/
theorem works_suspend (hcells : m'.cells = m.cells.push (.pending e env))
    (hcreated : m'.created = m.created + 1) (hevaluated : m'.evaluated = m.evaluated) :
    Works m m' where
  size_le := by rw [hcells, Array.size_push]; exact Nat.le_succ _
  old t ht := by
    rw [hcells, Array.getElem?_push_lt ht, Array.getElem?_eq_getElem ht]
  new t hle hlt := by
    rw [hcells, Array.size_push] at hlt
    obtain rfl : t = m.cells.size := Nat.le_antisymm (Nat.le_of_lt_succ hlt) hle
    exact isPending_iff.2 ⟨_, _, by rw [hcells, Array.getElem?_push_size]⟩
  created_eq := by rw [hcreated, hcells, Array.size_push, Nat.add_sub_cancel_left]
  evaluated_eq := hevaluated

theorem Works.advances (h : Works m m') : Advances .call m m' where
  size_le := h.size_le
  evaluated t v hv := by
    rw [h.old t (Array.getElem?_eq_some_iff.1 hv).1, hv]
  fresh t hle hlt := .inl ⟨h.new t hle hlt, by decide⟩
  created_eq := h.created_eq
  evaluated_eq := by rw [h.evaluated_eq, found_eq_empty h.old, Finset.card_empty, Nat.add_zero]

/-- **A cell without a value is marked, settled or pending again.**  If it is settled, that is
counted. -/
theorem advances_setCell (ht : t < m.cells.size) (hvalue : m.holdsValue t = false)
    (hcells : m'.cells = (m.setCell t c).cells) (hcreated : m'.created = m.created)
    (hevaluated : m'.evaluated = m.evaluated + if m'.holdsValue t then 1 else 0) :
    Advances .call m m' := by
  -- no other cell changes, so that at most this one gets a value
  have hother {u : ThunkId} (hu : u ≠ t) : m'.cells[u]? = m.cells[u]? := by
    rw [hcells]
    simp [setCell, hu.symm]
  have hsize : m'.cells.size = m.cells.size := by
    rw [hcells]
    simp [setCell]
  have hfound : m.found m' = if m'.holdsValue t then {t} else ∅ := by
    ext u
    rw [mem_found]
    by_cases hu : u = t
    · subst hu
      cases h : m'.holdsValue u <;> simp [hvalue, ht]
    · rw [holdsValue_congr (hother hu)]
      cases h : m.holdsValue u <;> split <;> simp [hu]
  refine ⟨Nat.le_of_eq hsize.symm, fun u v hv => ?_, fun u hle hlt => ?_, ?_, ?_⟩
  · have hu : u ≠ t := by
      rintro rfl
      rw [holdsValue_iff.2 ⟨v, hv⟩] at hvalue
      cases hvalue
    rw [hother hu, hv]
  · exact absurd (hsize ▸ hlt) (Nat.not_lt.2 hle)
  · rw [hcreated, hsize, Nat.sub_self]
    rfl
  · rw [hevaluated, hfound]
    split <;> rfl

/-- **A demand marks the cell.** -/
theorem advances_mark (ht : m.cells[t]? = some (.pending e env)) :
    Advances .call m (m.setCell t (.forcing e env)) := by
  have hlt : t < m.cells.size := (Array.getElem?_eq_some_iff.1 ht).1
  refine advances_setCell hlt (by simp [holdsValue, ht]) rfl rfl ?_
  simp [holdsValue, setCell, hlt]

/-- **A demand that has failed takes its mark away.** -/
theorem advances_release (ht : m.cells[t]? = some (.forcing e env)) :
    Advances .call m (m.setCell t (.pending e env)) := by
  have hlt : t < m.cells.size := (Array.getElem?_eq_some_iff.1 ht).1
  refine advances_setCell hlt (by simp [holdsValue, ht]) rfl rfl ?_
  simp [holdsValue, setCell, hlt]

/-- **A demand that has succeeded puts the value in place of its mark.** -/
theorem advances_settle (ht : m.cells[t]? = some (.forcing e env)) (v : Value) :
    Advances .call m (m.settle t v) := by
  have hlt : t < m.cells.size := (Array.getElem?_eq_some_iff.1 ht).1
  refine advances_setCell (c := .evaluated v) hlt (by simp [holdsValue, ht]) rfl rfl ?_
  simp [holdsValue, settle, hlt]

/-- **A cell is made that no call has asked for**, pending or with a value. -/
theorem advances_push {cause : Cause} (hcause : cause ≠ .call) (hcells : m'.cells = m.cells.push c)
    (hc : (∃ v, c = .evaluated v) ∨ cause ≠ .definition ∧ ∃ e env, c = .pending e env)
    (hcreated : m'.created = m.created) (hevaluated : m'.evaluated = m.evaluated) :
    Advances cause m m' := by
  have hold (t : ThunkId) (ht : t < m.cells.size) : m'.cells[t]? = m.cells[t]? := by
    rw [hcells, Array.getElem?_push_lt ht, Array.getElem?_eq_getElem ht]
  have hsize : m'.cells.size = m.cells.size + 1 := by rw [hcells, Array.size_push]
  refine ⟨hsize ▸ Nat.le_succ _, fun t v hv => ?_, fun t hle hlt => ?_, ?_, ?_⟩
  · rw [hold t (Array.getElem?_eq_some_iff.1 hv).1, hv]
  · obtain rfl : t = m.cells.size := Nat.le_antisymm (Nat.le_of_lt_succ (hlt.trans_eq hsize)) hle
    have hnew : m'.cells[m.cells.size]? = some c := by rw [hcells, Array.getElem?_push_size]
    rcases hc with ⟨v, rfl⟩ | ⟨hdefinition, e, env, rfl⟩
    · exact .inr ⟨holdsValue_iff.2 ⟨v, hnew⟩, hcause⟩
    · exact .inl ⟨isPending_iff.2 ⟨e, env, hnew⟩, hdefinition⟩
  · rw [hcreated, if_neg hcause, Nat.add_zero]
  · rw [hevaluated, found_eq_empty hold, Finset.card_empty, Nat.add_zero]

end Machine

/-- **An evaluation that demands nothing only makes suspensions.** -/
theorem Eval.Basic.works {α : Type} {x : Eval α} (h : x.Basic) :
    ∀ m : Machine, m.Works (Eval.split (x m)).2 := by
  induction h with
  | pure a => exact fun m => Machine.works_of_eq rfl rfl rfl
  | @bind _ _ x f _ _ hx hf =>
    intro m
    have h := hx m
    change m.Works (Eval.split (EStateM.bind x f m)).2
    unfold EStateM.bind
    generalize x m = r at h ⊢
    cases r with
    | ok a m' => exact h.trans (hf a m')
    | error e m' => exact h
  | read f => exact fun m => Machine.works_of_eq rfl rfl rfl
  | throw e => exact fun m => Machine.works_of_eq rfl rfl rfl
  | countHit => exact fun m => Machine.works_of_eq rfl rfl rfl
  | suspend e env => exact fun m => Machine.works_suspend rfl rfl rfl
  | pushFrame parent bindings => exact fun m => Machine.works_of_eq rfl rfl rfl
  | pushRecursive parent name e => exact fun m => Machine.works_suspend rfl rfl rfl

/-! ### The recorder -/

/-- A machine at one moment, and what has led to it. -/
structure Moment where
  machine : Machine
  cause : Cause

/-- A machine with its history: the moments until now, this one included, the earliest first. -/
structure Recorder where
  machine : Machine
  history : List Moment

/-- Computations that are recorded. -/
abbrev Recorded (α : Type) :=
  EStateM EvalError Recorder α

namespace Recorder

variable {α β : Type}

/-- The fresh machine. -/
def start : Recorder :=
  ⟨.initial, [⟨.initial, .outside⟩]⟩

/-- Goes on to the next moment. -/
def record (s : Recorder) (cause : Cause) (m : Machine) : Recorder :=
  ⟨m, s.history ++ [⟨m, cause⟩]⟩

@[simp]
theorem machine_record (s : Recorder) (cause : Cause) (m : Machine) :
    (s.record cause m).machine = m :=
  rfl

@[simp]
theorem history_record (s : Recorder) (cause : Cause) (m : Machine) :
    (s.record cause m).history = s.history ++ [⟨m, cause⟩] :=
  rfl

/-- An evaluation that demands nothing. -/
def lift (x : Eval α) : Recorded α := fun s =>
  match x s.machine with
  | .ok a m => .ok a (s.record .call m)
  | .error e m => .error e (s.record .call m)

instance : MonadLift Eval Recorded :=
  ⟨lift⟩

/-- The value of a suspension, found with `eval` at the first demand. -/
def force (eval : Expr → EnvId → Recorded Value) (t : ThunkId) : Recorded Value := fun s =>
  match s.machine.cell t with
  | .evaluated v => .ok v (s.record .call { s.machine with hits := s.machine.hits + 1 })
  | .forcing e _ => .error (.infiniteLoop e.span) s
  | .pending e env =>
    match eval e env (s.record .call (s.machine.setCell t (.forcing e env))) with
    | .ok v s => .ok v (s.record .call (s.machine.settle t v))
    | .error err s => .error err (s.record .call (s.machine.setCell t (.pending e env)))

/-- The history begins with the fresh machine, and each moment follows from the one before by a
cause that is allowed. -/
inductive Lawful (allowed : Cause → Prop) : Recorder → Prop where
  | start : Lawful allowed start
  | record {s : Recorder} {cause : Cause} {m : Machine} (hs : Lawful allowed s)
    (hcause : allowed cause) (hm : s.machine.Advances cause m) :
    Lawful allowed (s.record cause m)

/-- The results are the same, and the history is lawful. -/
inductive Agrees (allowed : Cause → Prop) :
    EStateM.Result EvalError Recorder α → EStateM.Result EvalError Machine α → Prop where
  | ok {s : Recorder} (a : α) (hs : s.Lawful allowed) : Agrees allowed (.ok a s) (.ok a s.machine)
  | error {s : Recorder} (e : EvalError) (hs : s.Lawful allowed) :
    Agrees allowed (.error e s) (.error e s.machine)

/-- The recorded computation does what the evaluation does, and its history stays lawful. -/
def Follows (allowed : Cause → Prop) (x : Recorded α) (y : Eval α) : Prop :=
  ∀ s : Recorder, s.Lawful allowed → Agrees allowed (x s) (y s.machine)

section Rules

variable {allowed : Cause → Prop}

theorem follows_pure (a : α) : Follows allowed (pure a) (pure a) :=
  fun _ hs => .ok a hs

theorem Follows.bind {x : Recorded α} {y : Eval α} {f : α → Recorded β} {g : α → Eval β}
    (hx : Follows allowed x y) (hf : ∀ a, Follows allowed (f a) (g a)) :
    Follows allowed (x >>= f) (y >>= g) := by
  intro s hs
  have h := hx s hs
  change Agrees allowed (EStateM.bind x f s) (EStateM.bind y g s.machine)
  unfold EStateM.bind
  generalize x s = r at h ⊢
  generalize y s.machine = r' at h ⊢
  cases h with
  | ok a hs' => exact hf a _ hs'
  | error e hs' => exact .error e hs'

variable (hcall : allowed .call)

include hcall in
theorem follows_lift {x : Eval α} (h : x.Basic) : Follows allowed (lift x) x := by
  intro s hs
  have hworks := (h.works s.machine).advances
  unfold lift
  generalize x s.machine = r at hworks ⊢
  cases r with
  | ok a m => exact .ok a (hs.record hcall hworks)
  | error e m => exact .error e (hs.record hcall hworks)

/-- Recording is a correspondence.  It keeps in mind that machines evolve, since a demand relies on
the mark that it has left. -/
def recording : Correspondence Recorded where
  Related x y := Follows allowed x y ∧ Eval.Keeps y
  pure a := ⟨follows_pure a, Eval.keeps_pure a⟩
  bind hx hf := ⟨hx.1.bind fun a => (hf a).1, hx.2.bind fun a => (hf a).2⟩
  basic h := ⟨follows_lift hcall h, Eval.keeps_of_basic h⟩

/-- **A demand goes on lawfully if the evaluation it makes does**: the cell is marked, and it is
settled or pending again afterwards. -/
theorem recording_force {eval : Expr → EnvId → Recorded Value} {eval' : Expr → EnvId → Eval Value}
    (h : ∀ e env, (recording hcall).Related (eval e env) (eval' e env)) (t : ThunkId) :
    (recording hcall).Related (force eval t) (Eval.force eval' t) := by
  refine ⟨fun s hs => ?_, Eval.Keeps.force (fun e env => (h e env).2) t⟩
  unfold force
  cases hcell : s.machine.cell t with
  | evaluated v =>
    rw [ByName.force_of_evaluated hcell]
    have hhit : s.machine.Works { s.machine with hits := s.machine.hits + 1 } :=
      Machine.works_of_eq rfl rfl rfl
    exact .ok v (hs.record hcall hhit.advances)
  | forcing e env =>
    rw [ByName.force_of_forcing hcell]
    exact .error _ hs
  | pending e env =>
    rw [ByName.force_of_pending hcell]
    have ht : s.machine.cells[t]? = some (.pending e env) := by
      by_cases hlt : t < s.machine.cells.size
      · simpa [Machine.cell, hlt] using hcell
      · simp [Machine.cell, hlt] at hcell
    have hinside := (h e env).1 _ (hs.record hcall (Machine.advances_mark ht))
    -- the mark is still there when the evaluation ends
    have hmark := ((h e env).2 (s.machine.setCell t (.forcing e env))).forcing t e env
    have hmarked : (s.machine.setCell t (.forcing e env)).cells[t]? = some (.forcing e env) := by
      simp [Machine.setCell, (Array.getElem?_eq_some_iff.1 ht).1]
    replace hmark := hmark.2 hmarked
    simp only [machine_record] at hinside ⊢
    generalize eval e env _ = r at hinside ⊢
    generalize eval' e env _ = r' at hinside hmark ⊢
    cases hinside with
    | ok v hs' => exact .ok v (hs'.record hcall (Machine.advances_settle hmark v))
    | error err hs' => exact .error err (hs'.record hcall (Machine.advances_release hmark))

end Rules

end Recorder

end CallByNeed

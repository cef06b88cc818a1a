import CallByNeed.Proofs.Interpretation.History
import Mathlib.Order.Interval.Finset.Nat

/-!
# Each suspension is evaluated at most once

The calls of an interpreter, the definitions in its root and the cells that are made by others make
up a history of its machine.  In this history a cell gets a value at most once and then keeps it,
since every moment is a lawful successor of the one before.  The counters say the same: `created` is
the number of cells that a call has suspended, and `evaluated` the number of cells that were pending
once and hold a value now.  Both are invariants of every step (`Recorder.Lawful.created_eq`,
`Recorder.Lawful.evaluated_eq`).
-/

namespace CallByNeed

namespace Recorder

/-! ### Where cells come from -/

/-- The first moment at which there is a cell at the address. -/
def birth (s : Recorder) (t : ThunkId) : Option Moment :=
  s.history.find? fun moment => t < moment.machine.cells.size

/-- The cell was pending when it came up. -/
def bornPending (s : Recorder) (t : ThunkId) : Bool :=
  (s.birth t).any fun moment => moment.machine.isPending t

/-- The cell came up during a call of the interpreter. -/
def bornInCall (s : Recorder) (t : ThunkId) : Bool :=
  (s.birth t).any fun moment => moment.cause = .call

/-- The addresses of the cells that the interpreter has suspended. -/
def suspended (s : Recorder) : Finset ThunkId :=
  {t ∈ Finset.range s.machine.cells.size | s.bornInCall t}

/-- The addresses of the cells that were pending when they came up and hold a value now. -/
def settled (s : Recorder) : Finset ThunkId :=
  {t ∈ Finset.range s.machine.cells.size | s.bornPending t && s.machine.holdsValue t}

/-- The number of moments at which the cell at the address gets a value. -/
def settlings (s : Recorder) (t : ThunkId) : Nat :=
  (s.history.zip s.history.tail).countP fun (before, after) =>
    t ∈ before.machine.found after.machine

theorem mem_suspended {s : Recorder} {t : ThunkId} :
    t ∈ s.suspended ↔ t < s.machine.cells.size ∧ s.bornInCall t = true := by
  rw [suspended, Finset.mem_filter, Finset.mem_range]

theorem mem_settled {s : Recorder} {t : ThunkId} :
    t ∈ s.settled ↔
      t < s.machine.cells.size ∧ s.bornPending t = true ∧ s.machine.holdsValue t = true := by
  rw [settled, Finset.mem_filter, Finset.mem_range, Bool.and_eq_true]

section Lawful

variable {allowed : Cause → Prop} {s : Recorder} {cause : Cause} {m : Machine} {t : ThunkId}

/-- The last moment of the history is now. -/
theorem Lawful.getLast?_history (hs : s.Lawful allowed) :
    s.history.getLast?.map (·.machine) = some s.machine := by
  cases hs with
  | start => rfl
  | record hs hcause hm => simp

/-- No machine had more cells than there are now. -/
theorem Lawful.size_le (hs : s.Lawful allowed) :
    ∀ moment ∈ s.history, moment.machine.cells.size ≤ s.machine.cells.size := by
  induction hs with
  | start =>
    intro moment hmoment
    obtain rfl := List.mem_singleton.1 hmoment
    exact Nat.le_refl _
  | record hs hcause hm ih =>
    intro moment hmoment
    rcases List.mem_append.1 hmoment with hmoment | hmoment
    · exact Nat.le_trans (ih moment hmoment) hm.size_le
    · obtain rfl := List.mem_singleton.1 hmoment
      exact Nat.le_refl _

/-- **A cell that is there has the same birth later.** -/
theorem Lawful.birth_record_of_lt (hs : s.Lawful allowed) (ht : t < s.machine.cells.size) :
    (s.record cause m).birth t = s.birth t := by
  -- it is there now, so that it came up at some moment
  obtain ⟨now, hlast, hnow⟩ := Option.map_eq_some_iff.1 hs.getLast?_history
  have hfound : (s.birth t).isSome := by
    refine List.find?_isSome.2 ⟨now, List.mem_of_getLast? hlast, decide_eq_true ?_⟩
    rwa [hnow]
  obtain ⟨moment, hmoment⟩ := Option.isSome_iff_exists.1 hfound
  unfold birth at hmoment ⊢
  rw [history_record, List.find?_append, hmoment, Option.some_or]

/-- **A new cell comes up now.** -/
theorem Lawful.birth_record_of_le (hs : s.Lawful allowed) (hle : s.machine.cells.size ≤ t) :
    (s.record cause m).birth t = if t < m.cells.size then some ⟨m, cause⟩ else none := by
  have hnone : s.birth t = none := by
    refine List.find?_eq_none.2 fun moment hmoment => ?_
    simpa using Nat.le_trans (hs.size_le moment hmoment) hle
  unfold birth at hnone ⊢
  rw [history_record, List.find?_append, hnone, Option.none_or]
  by_cases ht : t < m.cells.size <;> simp [ht]

/-! ### What is true at every moment -/

/-- **What a cell is like when it comes up**: pending if a call has made it, and a value if a
definition has. -/
theorem Lawful.birth_spec (hs : s.Lawful allowed) {moment : Moment}
    (h : s.birth t = some moment) :
    allowed moment.cause ∧
      (moment.machine.isPending t ∧ moment.cause ≠ .definition ∨
        moment.machine.holdsValue t ∧ moment.cause ≠ .call) := by
  induction hs with
  | start => cases h
  | @record s cause m hs hcause hm ih =>
    -- a cell from before the step, or one that comes up in it
    by_cases hlt : t < s.machine.cells.size
    · rw [hs.birth_record_of_lt hlt] at h
      exact ih h
    · have hle := Nat.le_of_not_lt hlt
      rw [hs.birth_record_of_le hle] at h
      split at h
      · rename_i ht
        obtain rfl := Option.some.inj h
        exact ⟨hcause, hm.fresh t hle ht⟩
      · cases h

/-- **A cell that a call has made was pending when it came up.** -/
theorem Lawful.bornPending_of_bornInCall (hs : s.Lawful allowed) (h : s.bornInCall t = true) :
    s.bornPending t = true := by
  unfold bornInCall at h
  unfold bornPending
  cases hbirth : s.birth t with
  | none =>
    rw [hbirth] at h
    cases h
  | some moment =>
    rw [hbirth] at h
    rcases (hs.birth_spec hbirth).2 with ⟨hpending, -⟩ | ⟨-, hcause⟩
    · exact hpending
    · exact absurd (of_decide_eq_true h) hcause

/-- **A pending cell was made by a call** if nobody else makes cells. -/
theorem Lawful.bornInCall_of_bornPending (hs : s.Lawful (· ≠ .outside))
    (h : s.bornPending t = true) : s.bornInCall t = true := by
  unfold bornPending at h
  unfold bornInCall
  cases hbirth : s.birth t with
  | none =>
    rw [hbirth] at h
    cases h
  | some moment =>
    rw [hbirth] at h
    obtain ⟨hallowed, ⟨-, hcause⟩ | ⟨hvalue, -⟩⟩ := hs.birth_spec hbirth
    · refine decide_eq_true ?_
      -- a call remains: a definition would have left a value
      generalize moment.cause = cause at hallowed hcause
      cases cause with
      | call => rfl
      | definition => exact absurd rfl hcause
      | outside => exact absurd rfl hallowed
    · exact absurd (h.symm.trans (Machine.not_isPending_of_holdsValue hvalue)) (by decide)

/-- **A cell without a value was pending when it came up.** -/
theorem Lawful.bornPending_of_not_holdsValue (hs : s.Lawful allowed)
    (ht : t < s.machine.cells.size) (hvalue : s.machine.holdsValue t = false) :
    s.bornPending t = true := by
  induction hs with
  | start => exact absurd ht (Nat.not_lt_zero t)
  | @record s cause m hs hcause hm ih =>
    unfold bornPending at ih ⊢
    by_cases hlt : t < s.machine.cells.size
    · rw [hs.birth_record_of_lt hlt]
      refine ih hlt (Bool.eq_false_iff.2 fun hold => ?_)
      -- a value that was there would still be there
      obtain ⟨v, hv⟩ := Machine.holdsValue_iff.1 hold
      exact Bool.eq_false_iff.1 hvalue (Machine.holdsValue_iff.2 ⟨v, hm.evaluated t v hv⟩)
    · have hle := Nat.le_of_not_lt hlt
      rw [hs.birth_record_of_le hle, if_pos (show t < m.cells.size from ht)]
      rcases hm.fresh t hle ht with ⟨hpending, -⟩ | ⟨hnew, -⟩
      · exact hpending
      · exact absurd hnew (Bool.eq_false_iff.1 hvalue)

/-- A call suspends the cells that come up in it. -/
theorem Lawful.mem_suspended_record (hs : s.Lawful allowed)
    (hsize : s.machine.cells.size ≤ m.cells.size) :
    t ∈ (s.record cause m).suspended ↔
      t ∈ s.suspended ∨ cause = .call ∧ s.machine.cells.size ≤ t ∧ t < m.cells.size := by
  rw [mem_suspended, mem_suspended, bornInCall, bornInCall, machine_record]
  by_cases hlt : t < s.machine.cells.size
  · rw [hs.birth_record_of_lt hlt]
    simp [hlt, hlt.trans_le hsize, Nat.not_le.2 hlt]
  · have hle := Nat.le_of_not_lt hlt
    rw [hs.birth_record_of_le hle]
    by_cases ht : t < m.cells.size <;> simp [hlt, hle, ht]

/-- **The machine counts the cells that the interpreter has suspended.** -/
theorem Lawful.created_eq (hs : s.Lawful allowed) : s.machine.created = s.suspended.card := by
  induction hs with
  | start => rfl
  | @record s cause m hs hcause hm ih =>
    have hmem (t : ThunkId) : t ∈ (s.record cause m).suspended ↔
        t ∈ s.suspended ∨ cause = .call ∧ s.machine.cells.size ≤ t ∧ t < m.cells.size :=
      hs.mem_suspended_record hm.size_le
    rw [machine_record, hm.created_eq, ih]
    by_cases hcall : cause = .call
    · -- the cells that a call makes come behind all others
      have hunion : (s.record cause m).suspended =
          s.suspended ∪ Finset.Ico s.machine.cells.size m.cells.size := by
        ext t
        rw [hmem, Finset.mem_union, Finset.mem_Ico, and_iff_right hcall]
      have hdisjoint :
          Disjoint s.suspended (Finset.Ico s.machine.cells.size m.cells.size) := by
        refine Finset.disjoint_left.2 fun t hold hnew => ?_
        exact Nat.not_lt.2 (Finset.mem_Ico.1 hnew).1 (mem_suspended.1 hold).1
      rw [if_pos hcall, hunion, Finset.card_union_of_disjoint hdisjoint, Nat.card_Ico]
    · have hsame : (s.record cause m).suspended = s.suspended := by
        ext t
        rw [hmem, or_iff_left fun h => hcall h.1]
      rw [if_neg hcall, hsame, Nat.add_zero]

/-- The cells that are found now join those that have been settled. -/
theorem Lawful.mem_settled_record (hs : s.Lawful allowed) (hm : s.machine.Advances cause m) :
    t ∈ (s.record cause m).settled ↔ t ∈ s.settled ∨ t ∈ s.machine.found m := by
  rw [mem_settled, mem_settled, Machine.mem_found, bornPending, bornPending, machine_record]
  by_cases hlt : t < s.machine.cells.size
  · rw [hs.birth_record_of_lt hlt]
    cases hvalue : s.machine.holdsValue t with
    | false =>
      -- a cell without a value has been pending since it came up
      have hpending := hs.bornPending_of_not_holdsValue hlt hvalue
      rw [bornPending] at hpending
      simp [hpending, hlt, hlt.trans_le hm.size_le]
    | true =>
      obtain ⟨v, hv⟩ := Machine.holdsValue_iff.1 hvalue
      have hstays := Machine.holdsValue_iff.2 ⟨v, hm.evaluated t v hv⟩
      simp [hstays, hlt, hlt.trans_le hm.size_le]
  · -- a cell that comes up pending holds no value yet
    rw [hs.birth_record_of_le (Nat.le_of_not_lt hlt)]
    by_cases ht : t < m.cells.size
    · cases hvalue : m.holdsValue t with
      | false => simp [hlt]
      | true => simp [hlt, ht, Machine.not_isPending_of_holdsValue hvalue]
    · simp [hlt, ht]

/-- **The machine counts the pending cells that got a value.** -/
theorem Lawful.evaluated_eq (hs : s.Lawful allowed) : s.machine.evaluated = s.settled.card := by
  induction hs with
  | start => rfl
  | @record s cause m hs hcause hm ih =>
    have hunion : (s.record cause m).settled = s.settled ∪ s.machine.found m := by
      ext t
      rw [hs.mem_settled_record hm, Finset.mem_union]
    have hdisjoint : Disjoint s.settled (s.machine.found m) := by
      refine Finset.disjoint_left.2 fun t hold hnew => ?_
      have hvalue := (mem_settled.1 hold).2.2
      exact absurd (hvalue.symm.trans (Machine.mem_found.1 hnew).1) (by decide)
    rw [machine_record, hm.evaluated_eq, ih, hunion, Finset.card_union_of_disjoint hdisjoint]

/-- **A value that has been found stays.** -/
theorem Lawful.evaluated (hs : s.Lawful allowed) :
    ∀ moment ∈ s.history, ∀ (t : ThunkId) (v : Value),
      moment.machine.cells[t]? = some (.evaluated v) →
        s.machine.cells[t]? = some (.evaluated v) := by
  induction hs with
  | start =>
    intro moment hmoment t v hv
    obtain rfl := List.mem_singleton.1 hmoment
    exact hv
  | record hs hcause hm ih =>
    intro moment hmoment t v hv
    rcases List.mem_append.1 hmoment with hmoment | hmoment
    · exact hm.evaluated t v (ih moment hmoment t v hv)
    · obtain rfl := List.mem_singleton.1 hmoment
      exact hv

/-- **It stays at all later moments.** -/
theorem Lawful.pairwise_history (hs : s.Lawful allowed) :
    s.history.Pairwise fun earlier later => ∀ (t : ThunkId) (v : Value),
      earlier.machine.cells[t]? = some (Cell.evaluated v) →
        later.machine.cells[t]? = some (Cell.evaluated v) := by
  induction hs with
  | start => exact List.pairwise_singleton _ _
  | record hs hcause hm ih =>
    refine List.pairwise_append.2 ⟨ih, List.pairwise_singleton _ _, ?_⟩
    intro earlier hearlier later hlater t v hv
    obtain rfl := List.mem_singleton.1 hlater
    exact hm.evaluated t v (hs.evaluated earlier hearlier t v hv)

/-- **A cell gets a value at most once**, since it holds one from then on. -/
theorem Lawful.settlings_le_one (hs : s.Lawful allowed) (t : ThunkId) : s.settlings t ≤ 1 := by
  have hpairs := hs.pairwise_history
  unfold settlings
  generalize s.history = history at hpairs
  induction history with
  | nil => exact Nat.zero_le 1
  | cons a history ih =>
    cases history with
    | nil => exact Nat.zero_le 1
    | cons b history =>
      obtain ⟨hstays, hrest⟩ := List.pairwise_cons.1 hpairs
      rw [List.tail_cons, List.zip_cons_cons, List.countP_cons]
      by_cases hfound : t ∈ a.machine.found b.machine
      · -- the value is there at all later moments, so that it is not found again
        obtain ⟨v, hv⟩ := Machine.holdsValue_iff.1 (Machine.mem_found.1 hfound).2.1
        have hlater : ∀ moment ∈ b :: history, moment.machine.holdsValue t = true := by
          intro moment hmoment
          rcases List.mem_cons.1 hmoment with rfl | hmoment
          · exact Machine.holdsValue_iff.2 ⟨v, hv⟩
          · have hmoment := (List.pairwise_cons.1 hrest).1 moment hmoment
            exact Machine.holdsValue_iff.2 ⟨v, hmoment t v hv⟩
        have hnone : ((b :: history).zip history).countP (fun (before, after) =>
            t ∈ before.machine.found after.machine) = 0 := by
          refine List.countP_eq_zero.2 fun pair hpair hagain => ?_
          have hbefore := hlater pair.1 (List.of_mem_zip hpair).1
          have hagain := (Machine.mem_found.1 (of_decide_eq_true hagain)).1
          exact absurd (hbefore.symm.trans hagain) (by decide)
        rw [hnone, if_pos (decide_eq_true hfound)]
      · rw [if_neg (by simpa using hfound)]
        exact ih hrest

end Lawful

end Recorder

/-! ### Sequences of actions -/

/-- A call as a recorded computation. -/
def Call.recorded (config : Config) : Call → Recorded Answer
  | evaluate e => do
    return .value (← Scheme.eval config Recorder.force config.maxDepth e Environments.root)
  | force t => do
    return .value (← Recorder.force (Scheme.eval config Recorder.force config.maxDepth) t)
  | bindMatch p t bindings => do
    let demand := Recorder.force (Scheme.eval config Recorder.force config.maxDepth)
    return .bindings (← Scheme.matchOne demand p t bindings)
  | render v => do return .text (← Scheme.renderAt config Recorder.force config.maxDepth v)

/-- **A call that is recorded is the call.** -/
theorem Call.follows_recorded {allowed : Cause → Prop} (hcall : allowed .call) (config : Config)
    (call : Call) : Recorder.Follows allowed (call.recorded config) (call.eval config) := by
  have heval := ((Recorder.recording hcall).eval (Recorder.recording_force hcall) config
    config.maxDepth).1
  have hdemand := Recorder.recording_force hcall heval
  cases call with
  | evaluate e => exact (heval e _).1.bind fun v => Recorder.follows_pure _
  | force t => exact (hdemand t).1.bind fun v => Recorder.follows_pure _
  | bindMatch p t bindings =>
    have hmatch := (Recorder.recording hcall).matchOne hdemand p t bindings
    exact hmatch.1.bind fun found => Recorder.follows_pure _
  | render v =>
    have hrender := (Recorder.recording hcall).renderAt (Recorder.recording_force hcall) config
      config.maxDepth v
    exact hrender.1.bind fun text => Recorder.follows_pure _

/-- What can happen to an interpreter from outside. -/
inductive Action where
  | call (call : Call)
  | define (name : String) (v : Value)
  /-- Somebody else suspends an expression. -/
  | suspend (e : Expr) (env : EnvId)
  /-- Somebody else makes a cell with a value. -/
  | hold (v : Value)

namespace Action

/-- What an action is the cause of. -/
def cause : Action → Cause
  | call _ => .call
  | define _ _ => .definition
  | suspend _ _ | hold _ => .outside

/-- The machine after an action. -/
def run (config : Config) (m : Machine) : Action → Machine
  | call c => (Eval.split (c.eval config m)).2
  | define name v => m.define name v
  | suspend e env => (m.allocate (.pending e env)).2
  | hold v => (m.allocate (.evaluated v)).2

/-- An action that is recorded, moment by moment. -/
def recorded (config : Config) (s : Recorder) : Action → Recorder
  | call c => (Eval.split (c.recorded config s)).2
  | action => s.record action.cause (action.run config s.machine)

/-- **An action goes on lawfully**, and leaves the machine of the action that is not
recorded. -/
theorem lawful_recorded {allowed : Cause → Prop} (hcall : allowed .call) (config : Config)
    {s : Recorder} (hs : s.Lawful allowed) (action : Action) (haction : allowed action.cause) :
    (action.recorded config s).Lawful allowed ∧
      (action.recorded config s).machine = action.run config s.machine := by
  cases action with
  | call c =>
    have hfollows := c.follows_recorded hcall config s hs
    rw [recorded, run]
    generalize c.recorded config s = r at hfollows ⊢
    generalize c.eval config s.machine = r' at hfollows ⊢
    cases hfollows with
    | ok a hs' => exact ⟨hs', rfl⟩
    | error e hs' => exact ⟨hs', rfl⟩
  | define name v =>
    exact ⟨hs.record haction (Machine.advances_push nofun rfl (.inl ⟨v, rfl⟩) rfl rfl), rfl⟩
  | suspend e env =>
    have hcause : (suspend e env).cause ≠ .definition := nofun
    exact ⟨hs.record haction
      (Machine.advances_push nofun rfl (.inr ⟨hcause, e, env, rfl⟩) rfl rfl), rfl⟩
  | hold v =>
    exact ⟨hs.record haction (Machine.advances_push nofun rfl (.inl ⟨v, rfl⟩) rfl rfl), rfl⟩

end Action

namespace Recorder

/-- A fresh interpreter after a sequence of actions. -/
def run (config : Config) (actions : List Action) : Recorder :=
  actions.foldl (Action.recorded config) start

/-- **A sequence of actions has a lawful history**, and leaves the machine of the actions
that are not recorded. -/
theorem lawful_run (allowed : Cause → Prop) (hcall : allowed .call) (config : Config)
    (actions : List Action) (hactions : ∀ action ∈ actions, allowed action.cause) :
    (run config actions).Lawful allowed ∧
      (run config actions).machine = actions.foldl (Action.run config) Machine.initial := by
  have hfrom {s : Recorder} (hs : s.Lawful allowed) :
      (actions.foldl (Action.recorded config) s).Lawful allowed ∧
        (actions.foldl (Action.recorded config) s).machine =
          actions.foldl (Action.run config) s.machine := by
    induction actions generalizing s with
    | nil => exact ⟨hs, rfl⟩
    | cons action actions ih =>
      obtain ⟨haction, hactions⟩ := List.forall_mem_cons.1 hactions
      obtain ⟨hs', hmachine⟩ := action.lawful_recorded hcall config hs haction
      rw [List.foldl_cons, List.foldl_cons, ← hmachine]
      exact ih hactions hs'
  exact hfrom .start

/-- **Each suspension is evaluated at most once, and the counters say so.**  Whatever is done with a
fresh interpreter, the history of its machine is such that
* a value that has been found stays for all later moments, so that no cell gets a value twice;
* `evaluated` is the number of cells that were pending when they came up and hold a value now;
* `created` is the number of cells that came up in calls, all of them pending, so that it is not
  less than `evaluated` unless somebody else has made cells;
* the machine is the one that the evaluator leaves.

A demand for a value that has been found is counted and changes nothing else. -/
theorem run_evaluates_once (config : Config) (actions : List Action) :
    let s := run config actions
    (s.machine = actions.foldl (Action.run config) Machine.initial ∧
        s.history.getLast?.map (·.machine) = some s.machine) ∧
      (s.history.Pairwise fun earlier later => ∀ (t : ThunkId) (v : Value),
          earlier.machine.cells[t]? = some (Cell.evaluated v) →
            later.machine.cells[t]? = some (Cell.evaluated v)) ∧
      (∀ t, s.settlings t ≤ 1) ∧
      s.machine.stats.evaluated = s.settled.card ∧
      s.machine.stats.created = s.suspended.card ∧
      (∀ t ∈ s.suspended, s.bornPending t = true) ∧
      ((∀ action ∈ actions, action.cause ≠ .outside) →
        s.machine.stats.evaluated ≤ s.machine.stats.created) ∧
      ∀ (eval : Expr → EnvId → Eval Value) (m : Machine) (t : ThunkId) (v : Value),
        m.cells[t]? = some (.evaluated v) →
          Eval.force eval t m = .ok v { m with hits := m.hits + 1 } := by
  intro s
  obtain ⟨hs, hmachine⟩ := lawful_run (fun _ => True) trivial config actions fun _ _ => trivial
  refine ⟨⟨hmachine, hs.getLast?_history⟩, hs.pairwise_history, hs.settlings_le_one,
    hs.evaluated_eq, hs.created_eq, fun t ht => ?_, fun hactions => ?_, fun eval m t v hv => ?_⟩
  · exact hs.bornPending_of_bornInCall (mem_suspended.1 ht).2
  · -- every cell that was pending when it came up has been made by a call
    have hs' := (lawful_run (· ≠ .outside) (by decide) config actions hactions).1
    have hsubset : s.settled ⊆ s.suspended := by
      intro t ht
      obtain ⟨hlt, hpending, -⟩ := mem_settled.1 ht
      exact mem_suspended.2 ⟨hlt, hs'.bornInCall_of_bornPending hpending⟩
    calc s.machine.stats.evaluated = s.settled.card := hs.evaluated_eq
      _ ≤ s.suspended.card := Finset.card_le_card hsubset
      _ = s.machine.stats.created := hs.created_eq.symm
  · refine ByName.force_of_evaluated ?_
    rw [Machine.cell, Array.getD_eq_getD_getElem?, hv, Option.getD_some]

/-- A name is demanded before and after its definition, and once more, through a cell that somebody
else has made: it gets its value once, at the second demand.  Then `let x = 1 + 1 in x + x`. -/
theorem run_evaluates_once_retried :
    let name (x : String) : Expr := .identifier .unknown x
    let double : Expr := .bind .unknown (.bind .unknown "x")
      (.binary .unknown .add (.integer .unknown 1) (.integer .unknown 1))
      (.binary .unknown .add (name "x") (name "x"))
    let s := run {} [.suspend (name "y") 0, .call (.force 0), .define "y" (.integer 3),
      .call (.force 0), .call (.force 0), .call (.evaluate double)]
    (s.machine.stats = ⟨1, 2, 3, 2⟩ ∧ 0 < s.settlings 0) ∧
      s.settlings 0 ≤ 1 ∧ s.settled.card = 2 ∧ s.suspended.card = 1 := by
  intro name double s
  have h := run_evaluates_once {} [.suspend (name "y") 0, .call (.force 0),
    .define "y" (.integer 3), .call (.force 0), .call (.force 0), .call (.evaluate double)]
  have hstats : s.machine.stats = ⟨1, 2, 3, 2⟩ := by decide +kernel
  obtain ⟨-, -, honce, hevaluated, hcreated, -⟩ := h
  refine ⟨⟨hstats, by decide +kernel⟩, honce 0, ?_, ?_⟩
  · exact hevaluated.symm.trans (congrArg Stats.evaluated hstats)
  · exact hcreated.symm.trans (congrArg Stats.created hstats)

end Recorder

end CallByNeed

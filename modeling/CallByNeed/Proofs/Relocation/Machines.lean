import CallByNeed.Proofs.ByName.Simulation

/-!
# The same run in another place

Two machines may hold the same suspensions and the same environments at other addresses.  A
relocation says where: the first few cells are kept in arbitrary places, and all other cells, like
all frames but the root, follow each other from some place on (`Relocation`).  The second machine
may hold anything else besides, since a run can only come to what it has been given or has made
itself.

`Relocation.Runs` says of two evaluations that they end alike on such machines, with values that are
relocated or with the same error.  Whatever a machine does by itself is in this relation to what it
does in the other place: suspending, pushing frames, and demanding if evaluating is.
-/

namespace CallByNeed

namespace Environments

variable {α : Type} {envs : Environments α}

/-- Behind the last environment nothing is bound. -/
theorem lookup_of_size_le {env : EnvId} (h : envs.size ≤ env) (name : String) :
    envs.lookup env name = none := by
  have hframe : envs.frames[env]? = none := Array.getElem?_eq_none h
  rw [lookup, hframe]

/-- The parent of a new environment that is not there adds nothing to it. -/
theorem lookup_push_of_size_le {parent : EnvId} (h : envs.size ≤ parent) (bindings : Bindings α)
    (name : String) :
    (envs.push parent bindings).2.lookup envs.size name = bindings.find? name := by
  have hframe :
      (envs.push parent bindings).2.frames[envs.size]? = some ⟨some parent, bindings⟩ := by
    simp [push, size]
  rw [lookup, hframe]
  simp only
  rcases bindings.find? name with _ | value
  · simp only
    rw [if_neg (Nat.not_lt.2 h)]
  · rfl

end Environments

/-! ### Relocations -/

/-- Where the cells and the frames of a machine are found in another one. -/
structure Relocation where
  /-- The places of the first cells. -/
  kept : List Nat
  /-- The place of the cell behind them. -/
  cells : Nat
  /-- The place of the frame behind the root, which stays. -/
  frames : Nat
  lt_cells : ∀ t ∈ kept, t < cells
  frames_pos : 0 < frames

namespace Relocation

variable (ρ : Relocation)

/-- The place of a cell. -/
def thunk (t : Nat) : Nat :=
  (ρ.kept[t]?).getD (t - ρ.kept.length + ρ.cells)

/-- The place of an environment. -/
def env : Nat → Nat
  | 0 => 0
  | id + 1 => id + ρ.frames

/-- The value with the places of its parts. -/
def value : Value → Value
  | .integer n => .integer n
  | .boolean b => .boolean b
  | .closure param body env => .closure param body (ρ.env env)
  | .tuple elems => .tuple (elems.map ρ.thunk)
  | .cons head tail => .cons (ρ.thunk head) (ρ.thunk tail)
  | .nil => .nil

/-- The cell with the places of what it refers to. -/
def cell : Cell → Cell
  | .pending e env => .pending e (ρ.env env)
  | .forcing e env => .forcing e (ρ.env env)
  | .evaluated v => .evaluated (ρ.value v)

/-- Names with the places of what they stand for. -/
def bindings (bs : Bindings ThunkId) : Bindings ThunkId :=
  bs.map fun (name, t) => (name, ρ.thunk t)

theorem thunk_of_le {t : Nat} (h : ρ.kept.length ≤ t) :
    ρ.thunk t = t - ρ.kept.length + ρ.cells := by
  rw [thunk, List.getElem?_eq_none h, Option.getD_none]

theorem thunk_lt_cells {t : Nat} (h : t < ρ.kept.length) : ρ.thunk t < ρ.cells := by
  rw [thunk, List.getElem?_eq_getElem h, Option.getD_some]
  exact ρ.lt_cells _ (List.getElem_mem h)

/-- **Cells behind the first ones have a place of their own.** -/
theorem thunk_ne_thunk {t u : Nat} (ht : ρ.kept.length ≤ t) (hne : u ≠ t) :
    ρ.thunk u ≠ ρ.thunk t := by
  rw [ρ.thunk_of_le ht]
  by_cases hu : u < ρ.kept.length
  · have hlt := ρ.thunk_lt_cells hu
    omega
  · rw [ρ.thunk_of_le (Nat.le_of_not_lt hu)]
    omega

/-- **The order of the environments stays.** -/
theorem env_lt_env_iff {a b : Nat} : ρ.env a < ρ.env b ↔ a < b := by
  have hpos := ρ.frames_pos
  cases a <;> cases b <;> simp only [env] <;> omega

theorem find?_bindings (bs : Bindings ThunkId) (name : String) :
    (ρ.bindings bs).find? name = (bs.find? name).map ρ.thunk := by
  induction bs with
  | nil => rfl
  | cons b bs ih =>
    obtain ⟨x, t⟩ := b
    simp only [bindings, Bindings.find?, List.map_cons, List.lookup_cons] at ih ⊢
    cases name == x with
    | true => rfl
    | false => exact ih

theorem binds_bindings (bs : Bindings ThunkId) (name : String) :
    (ρ.bindings bs).binds name = bs.binds name := by
  rw [Bindings.binds, find?_bindings, Option.isSome_map, Bindings.binds]

/-! ### Machines -/

/-- The second machine holds what the first one holds, in other places. -/
structure Relocates (m m' : Machine) : Prop where
  kept_le : ρ.kept.length ≤ m.cells.size
  /-- The first cells hold values, so that they do not change. -/
  kept : ∀ t < ρ.kept.length, ∃ v, m.cell t = .evaluated v
  cell : ∀ t, m'.cell (ρ.thunk t) = ρ.cell (m.cell t)
  cells : m'.cells.size = ρ.thunk m.cells.size
  lookup : ∀ env name,
    m'.environments.lookup (ρ.env env) name = (m.environments.lookup env name).map ρ.thunk
  frames : m'.environments.size = ρ.env m.environments.size
  root : 0 < m.environments.size

namespace Relocates

variable {ρ} {m m' n n' : Machine} {t : Nat}

/-- Counters do not matter. -/
theorem count (h : ρ.Relocates m m') (hcells : n.cells = m.cells) (hcells' : n'.cells = m'.cells)
    (henvs : n.environments = m.environments) (henvs' : n'.environments = m'.environments) :
    ρ.Relocates n n' where
  kept_le := hcells ▸ h.kept_le
  kept t ht := by
    unfold Machine.cell
    rw [hcells]
    exact h.kept t ht
  cell t := by
    unfold Machine.cell
    rw [hcells, hcells']
    exact h.cell t
  cells := by rw [hcells, hcells', h.cells]
  lookup env name := by rw [henvs, henvs', h.lookup]
  frames := by rw [henvs, henvs', h.frames]
  root := henvs ▸ h.root

/-- A cell that holds no value is none of the first ones. -/
theorem kept_le_of_ne (h : ρ.Relocates m m') (ht : ∀ v, m.cell t ≠ .evaluated v) :
    ρ.kept.length ≤ t := by
  by_cases hlt : t < ρ.kept.length
  · obtain ⟨v, hv⟩ := h.kept t hlt
    exact absurd hv (ht v)
  · exact Nat.le_of_not_lt hlt

theorem thunk_lt_size_iff (h : ρ.Relocates m m') (ht : ρ.kept.length ≤ t) :
    ρ.thunk t < m'.cells.size ↔ t < m.cells.size := by
  have hle := h.kept_le
  rw [h.cells, ρ.thunk_of_le ht, ρ.thunk_of_le hle]
  omega

/-- **A cell is replaced in both places.** -/
theorem setCell (h : ρ.Relocates m m') (ht : ρ.kept.length ≤ t) (c : Cell) :
    ρ.Relocates (m.setCell t c) (m'.setCell (ρ.thunk t) (ρ.cell c)) where
  kept_le := by simpa [Machine.setCell] using h.kept_le
  kept u hu := by
    rw [Machine.cell_setCell_of_ne (Nat.ne_of_lt (Nat.lt_of_lt_of_le hu ht))]
    exact h.kept u hu
  cell u := by
    -- a cell that is kept is not the one that is replaced
    by_cases hut : u = t
    · subst hut
      by_cases hlt : u < m.cells.size
      · rw [Machine.cell_setCell_self hlt,
          Machine.cell_setCell_self ((h.thunk_lt_size_iff ht).2 hlt)]
      · -- nothing is there to be replaced
        have hlt' := mt (h.thunk_lt_size_iff ht).1 hlt
        have hcell := h.cell u
        simp only [Machine.cell, Machine.setCell] at hcell ⊢
        rwa [Array.setIfInBounds_eq_of_size_le (Nat.le_of_not_lt hlt),
          Array.setIfInBounds_eq_of_size_le (Nat.le_of_not_lt hlt')]
    · rw [Machine.cell_setCell_of_ne hut, Machine.cell_setCell_of_ne (ρ.thunk_ne_thunk ht hut)]
      exact h.cell u
  cells := by simpa [Machine.setCell] using h.cells
  lookup := h.lookup
  frames := h.frames
  root := h.root

/-- **A cell is allocated in both places.** -/
theorem allocate (h : ρ.Relocates m m') (c : Cell) :
    ρ.Relocates (m.allocate c).2 (m'.allocate (ρ.cell c)).2 where
  kept_le := by
    simp only [Machine.allocate, Array.size_push]
    exact Nat.le_succ_of_le h.kept_le
  kept u hu := by
    rw [Machine.cell_allocate_of_ne (Nat.ne_of_lt (Nat.lt_of_lt_of_le hu h.kept_le))]
    exact h.kept u hu
  cell u := by
    -- the new cell comes behind all others in either place
    by_cases hu : u = m.cells.size
    · subst hu
      rw [Machine.cell_allocate_self, ← h.cells, Machine.cell_allocate_self]
    · have hne := ρ.thunk_ne_thunk h.kept_le hu
      rw [← h.cells] at hne
      rw [Machine.cell_allocate_of_ne hu, Machine.cell_allocate_of_ne hne]
      exact h.cell u
  cells := by
    have hle := h.kept_le
    have hcells := h.cells
    simp only [Machine.allocate, Array.size_push]
    rw [ρ.thunk_of_le hle] at hcells
    rw [hcells, ρ.thunk_of_le (Nat.le_succ_of_le hle)]
    omega
  lookup := h.lookup
  frames := h.frames
  root := h.root

/-- **A frame is pushed in both places.** -/
theorem push (h : ρ.Relocates m m') (parent : Nat) (bs : Bindings ThunkId) :
    ρ.Relocates { m with environments := (m.environments.push parent bs).2 }
      { m' with environments := (m'.environments.push (ρ.env parent) (ρ.bindings bs)).2 } where
  kept_le := h.kept_le
  kept := h.kept
  cell := h.cell
  cells := h.cells
  lookup (id : Nat) name := by
    have hiff (a : Nat) : ρ.env a < m'.environments.size ↔ a < m.environments.size := by
      rw [h.frames, ρ.env_lt_env_iff]
    rcases Nat.lt_trichotomy id m.environments.size with hlt | rfl | hgt
    · rw [Environments.lookup_push_of_lt hlt, Environments.lookup_push_of_lt ((hiff id).2 hlt)]
      exact h.lookup id name
    · -- the new frame: its own names, and behind them those of its parent if that is there
      rw [← h.frames]
      by_cases hparent : parent < m.environments.size
      · rw [Environments.lookup_push_size hparent,
          Environments.lookup_push_size ((hiff parent).2 hparent), ρ.find?_bindings]
        cases bs.find? name with
        | some t => rfl
        | none => exact h.lookup parent name
      · have hparent' := mt (hiff parent).1 hparent
        rw [Environments.lookup_push_of_size_le (Nat.le_of_not_lt hparent),
          Environments.lookup_push_of_size_le (Nat.le_of_not_lt hparent'), ρ.find?_bindings]
    · -- behind the new frame there are no others
      have hgt' : m'.environments.size < ρ.env id := by rwa [h.frames, ρ.env_lt_env_iff]
      rw [Environments.lookup_of_size_le (by rw [Environments.size_push]; exact hgt'),
        Environments.lookup_of_size_le (by rw [Environments.size_push]; exact hgt)]
      rfl
  frames := by
    obtain ⟨k, hk⟩ := Nat.exists_eq_add_one_of_ne_zero (Nat.ne_of_gt h.root)
    have hframes := h.frames
    rw [Environments.size_push, Environments.size_push, hframes, hk]
    simp only [env]
    omega
  root := by
    rw [Environments.size_push]
    exact Nat.succ_pos _

end Relocates

/-! ### Runs -/

section Runs

variable {α β γ δ : Type}

/-- The results are the same, up to what `f` does to a value. -/
inductive Agree (f : α → β) :
    EStateM.Result EvalError Machine α → EStateM.Result EvalError Machine β → Prop where
  | ok {m m' : Machine} {a : α} {b : β} (hm : ρ.Relocates m m') (hb : b = f a) :
    Agree f (.ok a m) (.ok b m')
  | error {m m' : Machine} (e : EvalError) : Agree f (.error e m) (.error e m')

/-- In both places the evaluations end alike. -/
def Runs (f : α → β) (x : Eval α) (y : Eval β) : Prop :=
  ∀ m m', ρ.Relocates m m' → ρ.Agree f (x m) (y m')

variable {ρ} {f : α → β} {x : Eval α} {y : Eval β}

theorem runs_pure (a : α) : ρ.Runs f (pure a) (pure (f a)) :=
  fun _ _ hm => .ok hm rfl

theorem runs_throw (e : EvalError) : ρ.Runs f (throw e) (throw e) :=
  fun _ _ _ => .error e

/-- **Sequences of evaluations that end alike end alike.** -/
theorem Runs.bind {g : γ → δ} {k : α → Eval γ} {k' : β → Eval δ} (hx : ρ.Runs f x y)
    (hk : ∀ a, ρ.Runs g (k a) (k' (f a))) : ρ.Runs g (x >>= k) (y >>= k') := by
  intro m m' hm
  have hxm := hx m m' hm
  change ρ.Agree g (EStateM.bind x k m) (EStateM.bind y k' m')
  unfold EStateM.bind
  generalize x m = r at hxm ⊢
  generalize y m' = r' at hxm ⊢
  cases hxm with
  | ok hm' hb => exact hb ▸ hk _ _ _ hm'
  | error e => exact .error e

/-- What a name stands for. -/
theorem runs_lookup {g : γ → γ} (id : Nat) (name : String) {k : Option ThunkId → Eval γ}
    (hk : ∀ found, ρ.Runs g (k found) (k (found.map ρ.thunk))) :
    ρ.Runs g (do k ((← get).environments.lookup id name))
      (do k ((← get).environments.lookup (ρ.env id) name)) := by
  intro m m' hm
  have hrun := hk (m.environments.lookup id name) m m' hm
  rw [← hm.lookup] at hrun
  exact hrun

/-! ### Steps of the machines -/

theorem runs_countHit : ρ.Runs id Eval.countHit Eval.countHit :=
  fun _ _ hm => .ok (hm.count rfl rfl rfl rfl) rfl

theorem runs_suspend (e : Expr) (id : Nat) :
    ρ.Runs ρ.thunk (Eval.suspend e id) (Eval.suspend e (ρ.env id)) := by
  intro m m' hm
  exact .ok ((hm.allocate (.pending e id)).count rfl rfl rfl rfl) hm.cells

theorem runs_suspendAll (id : Nat) (es : List Expr) :
    ρ.Runs (List.map ρ.thunk) (Eval.suspendAll id es) (Eval.suspendAll (ρ.env id) es) := by
  induction es with
  | nil => exact runs_pure []
  | cons e es ih =>
    refine (runs_suspend e id).bind fun t => ?_
    exact ih.bind fun ts => runs_pure (t :: ts)

theorem runs_pushFrame (parent : Nat) (bs : Bindings ThunkId) :
    ρ.Runs ρ.env (Eval.pushFrame parent bs)
      (Eval.pushFrame (ρ.env parent) (ρ.bindings bs)) := by
  intro m m' hm
  exact .ok (hm.push parent bs) hm.frames

/-- **A recursive frame**: the suspension belongs to the frame in which it is bound. -/
theorem runs_pushRecursive (parent : Nat) (name : String) (e : Expr) :
    ρ.Runs ρ.env (Eval.pushRecursive parent name e)
      (Eval.pushRecursive (ρ.env parent) name e) := by
  intro m m' hm
  have hallocate := hm.allocate (.pending e m.environments.fresh)
  have hpush := hallocate.push parent [(name, m.cells.size)]
  refine .ok (hpush.count rfl ?_ rfl ?_) hm.frames
  · have hfresh : m'.environments.fresh = ρ.env m.environments.fresh := hm.frames
    show m'.cells.push (.pending e m'.environments.fresh) = _
    rw [hfresh]
    rfl
  · show (m'.environments.push (ρ.env parent) [(name, m'.cells.size)]).2 = _
    rw [hm.cells]
    rfl

/-! ### Demands -/

variable (ρ) in
/-- Evaluations end alike in both places. -/
def Evaluates (eval : Expr → EnvId → Eval Value) : Prop :=
  ∀ (e : Expr) (id : Nat), ρ.Runs ρ.value (eval e id) (eval e (ρ.env id))

variable (ρ) in
/-- Demands end alike in both places. -/
def Forces (force : ThunkId → Eval Value) : Prop :=
  ∀ t : Nat, ρ.Runs ρ.value (force t) (force (ρ.thunk t))

/-- **A demand ends alike if the evaluation that it makes does.** -/
theorem Evaluates.force {eval : Expr → EnvId → Eval Value} (h : ρ.Evaluates eval) :
    ρ.Forces (Eval.force eval) := by
  intro t m m' hm
  have hcell := hm.cell t
  cases hleft : m.cell t with
  | evaluated v =>
    rw [hleft] at hcell
    rw [ByName.force_of_evaluated hleft, ByName.force_of_evaluated hcell]
    exact .ok (hm.count rfl rfl rfl rfl) rfl
  | forcing e id =>
    rw [hleft] at hcell
    rw [ByName.force_of_forcing hleft, ByName.force_of_forcing hcell]
    exact .error _
  | pending e id =>
    have ht := hm.kept_le_of_ne (t := t) (by simp [hleft])
    rw [hleft] at hcell
    rw [ByName.force_of_pending hleft, ByName.force_of_pending hcell]
    -- both cells are marked while the evaluation runs
    have hinside := h e id _ _ (hm.setCell ht (.forcing e id))
    rw [cell] at hinside
    generalize eval e id (m.setCell t (.forcing e id)) = r at hinside ⊢
    generalize eval e (ρ.env id) (m'.setCell (ρ.thunk t) (.forcing e (ρ.env id))) = r'
      at hinside ⊢
    cases hinside with
    | error err => exact .error err
    | ok hn hv =>
      obtain rfl := hv
      exact .ok ((hn.setCell ht (.evaluated _)).count rfl rfl rfl rfl) rfl

end Runs

end Relocation

end CallByNeed

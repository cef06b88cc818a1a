import CallByNeed.Proofs.ByName.Simulation
import CallByNeed.Proofs.Numbered.Evaluator
import CallByNeed.Proofs.Numbered.Trees

/-!
# Machines without dangling references

A machine is sound (`Machine.Sound`) if its chains of frames lead to the root and everything that
its frames, functions and cells refer to is there.  A sound machine whose numbers stand for the
trees of a machine of the evaluator is consistent with it (`Consistent`).  Each change that a run
makes keeps two machines consistent, and computations that keep them consistent and end alike
(`Runs`) can be put one behind the other.

In a sound machine a search for a name ends after at most as many frames as there are, and never
leaves them (`Machine.SoundIn.search_eq`).
-/

namespace CallByNeed.Numbered

variable {a : Arena}

/-! ### Soundness -/

/-- The numbers of frames and cells of a machine. -/
structure Extent where
  frames : Nat
  cells : Nat

/-- The second machine has at least as many frames and cells. -/
structure Extent.Le (w w' : Extent) : Prop where
  frames : w.frames ≤ w'.frames
  cells : w.cells ≤ w'.cells

instance : LE Extent :=
  ⟨Extent.Le⟩

namespace Extent

theorem le_refl (w : Extent) : w ≤ w :=
  ⟨Nat.le_refl _, Nat.le_refl _⟩

theorem le_trans {w w' w'' : Extent} (h : w ≤ w') (h' : w' ≤ w'') : w ≤ w'' :=
  ⟨Nat.le_trans h.frames h'.frames, Nat.le_trans h.cells h'.cells⟩

end Extent

variable (a) in
/-- The parts of the value are there. -/
def Value.Sound (w : Extent) : Value → Prop
  | .closure param body env => param < a.patterns.size ∧ body < a.exprs.size ∧ env < w.frames
  | .tuple elems => ∀ t ∈ elems, t < w.cells
  | .cons head tail => head < w.cells ∧ tail < w.cells
  | .integer _ | .boolean _ | .nil => True

variable (a) in
/-- What the cell refers to is there. -/
def Cell.Sound (w : Extent) : Cell → Prop
  | .pending id env | .forcing id env => id < a.exprs.size ∧ env < w.frames
  | .evaluated v => v.Sound a w

/-- The names are bound to cells. -/
def BindingsSound (w : Extent) (bindings : Bindings ThunkId) : Prop :=
  ∀ b ∈ bindings, b.2 < w.cells

variable (a) in
/-- What the call has been given, or what it yields, is there. -/
def Event.Sound (w : Extent) : Event → Prop
  | .evaluation id env => id < a.exprs.size ∧ env < w.frames
  | .demand t => t < w.cells
  | .matching id t => id < a.patterns.size ∧ t < w.cells
  | .comparison x y => x.Sound a w ∧ y.Sound a w
  | .printing v | .value v => v.Sound a w
  | .bindings found => ∀ bindings ∈ found, BindingsSound w bindings
  | .result | .failure => True

/-- The numbers of frames and cells. -/
def Machine.extent (m : Machine) : Extent :=
  ⟨m.environments.size, m.cells.size⟩

variable (a) in
/-- The chains of frames lead to the root, and everything that the machine refers to is among the
nodes of the arena and within the numbers of frames and cells. -/
structure Machine.SoundIn (w : Extent) (m : Machine) : Prop where
  root : ∃ bindings, m.environments.frames[Environments.root]? = some ⟨none, bindings⟩
  /-- A frame other than the root has a parent with a smaller index. -/
  parent : ∀ (id : EnvId) frame, m.environments.frames[id]? = some frame →
    id ≠ Environments.root → ∃ parent, frame.parent = some parent ∧ parent < id
  bindings : ∀ (id : EnvId) frame, m.environments.frames[id]? = some frame →
    BindingsSound w frame.bindings
  cells : ∀ (t : ThunkId) c, m.cells[t]? = some c → c.Sound a w

variable (a) in
/-- Nothing that the machine refers to is missing, and no chain of its frames leads back. -/
def Machine.Sound (m : Machine) : Prop :=
  m.SoundIn a m.extent

variable (a) in
/-- The machine is sound at the moment, and what is at hand is there. -/
structure Moment.Sound (moment : Moment) : Prop where
  machine : moment.machine.Sound a
  event : moment.event.Sound a moment.machine.extent

section Mono

variable {w w' : Extent}

theorem Value.Sound.mono {v : Value} (h : v.Sound a w) (hw : w ≤ w') : v.Sound a w' := by
  cases v with
  | closure param body env => exact ⟨h.1, h.2.1, Nat.lt_of_lt_of_le h.2.2 hw.frames⟩
  | tuple elems => exact fun t ht => Nat.lt_of_lt_of_le (h t ht) hw.cells
  | cons head tail =>
    exact ⟨Nat.lt_of_lt_of_le h.1 hw.cells, Nat.lt_of_lt_of_le h.2 hw.cells⟩
  | _ => trivial

theorem Cell.Sound.mono {c : Cell} (h : c.Sound a w) (hw : w ≤ w') : c.Sound a w' := by
  cases c with
  | pending id env => exact ⟨h.1, Nat.lt_of_lt_of_le h.2 hw.frames⟩
  | forcing id env => exact ⟨h.1, Nat.lt_of_lt_of_le h.2 hw.frames⟩
  | evaluated v => exact Value.Sound.mono h hw

theorem BindingsSound.mono {bindings : Bindings ThunkId} (h : BindingsSound w bindings)
    (hw : w ≤ w') : BindingsSound w' bindings :=
  fun b hb => Nat.lt_of_lt_of_le (h b hb) hw.cells

theorem Event.Sound.mono {event : Event} (h : event.Sound a w) (hw : w ≤ w') :
    event.Sound a w' := by
  cases event with
  | evaluation id env => exact ⟨h.1, Nat.lt_of_lt_of_le h.2 hw.frames⟩
  | demand t => exact Nat.lt_of_lt_of_le h hw.cells
  | matching id t => exact ⟨h.1, Nat.lt_of_lt_of_le h.2 hw.cells⟩
  | comparison x y => exact ⟨h.1.mono hw, h.2.mono hw⟩
  | printing v => exact Value.Sound.mono h hw
  | value v => exact Value.Sound.mono h hw
  | bindings found => exact fun bindings hbindings => (h bindings hbindings).mono hw
  | result => trivial
  | failure => trivial

end Mono

namespace Machine

variable {m : Machine} {w : Extent}

theorem sound_initial : Sound a initial where
  root := ⟨[], rfl⟩
  parent id frame h hid := by
    have hlt := (Array.getElem?_eq_some_iff.1 h).1
    exact absurd (Nat.lt_one_iff.1 hlt) hid
  bindings id frame h := by
    obtain ⟨hlt, hframe⟩ := Array.getElem?_eq_some_iff.1 h
    obtain rfl : id = 0 := Nat.lt_one_iff.1 hlt
    rw [← hframe]
    exact fun b hb => by cases hb
  cells t c h := by simp [initial] at h

theorem SoundIn.mono {w' : Extent} (h : m.SoundIn a w) (hw : w ≤ w') : m.SoundIn a w' where
  root := h.root
  parent := h.parent
  bindings id frame hframe := (h.bindings id frame hframe).mono hw
  cells t c hc := (h.cells t c hc).mono hw

/-- Counters do not matter. -/
theorem Sound.count {m' : Machine} (h : m.Sound a) (hframes : m'.environments = m.environments)
    (hcells : m'.cells = m.cells) : m'.Sound a := by
  have hextent : m'.extent = m.extent := by rw [extent, extent, hframes, hcells]
  unfold Sound
  rw [hextent]
  exact ⟨hframes ▸ h.root, hframes ▸ h.parent, hframes ▸ h.bindings, hcells ▸ h.cells⟩

theorem SoundIn.frames_pos (h : m.SoundIn a w) : Environments.root < m.environments.size := by
  obtain ⟨bindings, hroot⟩ := h.root
  exact (Array.getElem?_eq_some_iff.1 hroot).1

theorem extent_le_allocate (m : Machine) (c : Cell) : m.extent ≤ (m.allocate c).extent :=
  ⟨Nat.le_refl _, by simp [extent, allocate]⟩

theorem extent_le_push (m : Machine) (parent : EnvId) (bindings : Bindings ThunkId) :
    m.extent ≤ (m.push parent bindings).extent :=
  ⟨by simp [extent, push], Nat.le_refl _⟩

/-- **A cell is allocated.** -/
theorem SoundIn.allocate {c : Cell} (h : m.SoundIn a w) (hc : c.Sound a w) :
    (m.allocate c).SoundIn a w where
  root := h.root
  parent := h.parent
  bindings := h.bindings
  cells t c' ht := by
    rw [Machine.allocate, Array.getElem?_push] at ht
    by_cases hnew : t = m.cells.size
    · rw [if_pos hnew] at ht
      exact Option.some.inj ht ▸ hc
    · rw [if_neg hnew] at ht
      exact h.cells t c' ht

/-- **A cell is replaced.** -/
theorem Sound.setCell {c : Cell} (h : m.Sound a) (t : ThunkId) (hc : c.Sound a m.extent) :
    (m.setCell t c).Sound a := by
  have hextent : (m.setCell t c).extent = m.extent := by simp [extent, Machine.setCell]
  unfold Sound
  rw [hextent]
  refine ⟨h.root, h.parent, h.bindings, fun u c' hu => ?_⟩
  rw [Machine.setCell, Array.getElem?_setIfInBounds] at hu
  by_cases htu : t = u
  · rw [if_pos htu] at hu
    split at hu
    · exact Option.some.inj hu ▸ hc
    · cases hu
  · rw [if_neg htu] at hu
    exact h.cells u c' hu

/-- **A frame is pushed on another one.** -/
theorem SoundIn.push {parent : EnvId} {bindings : Bindings ThunkId} (h : m.SoundIn a w)
    (hparent : parent < m.environments.size) (hbindings : BindingsSound w bindings) :
    (m.push parent bindings).SoundIn a w := by
  have hframes (id : EnvId) : (m.push parent bindings).environments.frames[id]? =
      if id = m.environments.size then some ⟨some parent, bindings⟩
      else m.environments.frames[id]? := by
    rw [Machine.push, Environments.push, Array.getElem?_push]
    rfl
  refine ⟨?_, fun id frame hframe hid => ?_, fun id frame hframe => ?_, h.cells⟩
  · -- the root stays, and the new frame has a parent that is there
    rw [hframes, if_neg (Nat.ne_of_lt h.frames_pos)]
    exact h.root
  · rw [hframes] at hframe
    split at hframe
    · rename_i hlast
      exact ⟨parent, by rw [← Option.some.inj hframe], hlast ▸ hparent⟩
    · exact h.parent id frame hframe hid
  · rw [hframes] at hframe
    split at hframe
    · rw [← Option.some.inj hframe]
      exact hbindings
    · exact h.bindings id frame hframe

/-- **A name is defined in the root.** -/
theorem Sound.define {v : Value} (h : m.Sound a) (name : String) (hv : v.Sound a m.extent) :
    (m.define name v).Sound a := by
  have hle := m.extent_le_allocate (.evaluated v)
  have hallocate := (h.mono hle).allocate (c := .evaluated v) (Value.Sound.mono hv hle)
  have hextent : (m.define name v).extent = (m.allocate (.evaluated v)).extent := by
    simp [extent, Machine.define, Machine.allocate, Environments.define, Environments.size]
  have hframes (id : EnvId) : (m.define name v).environments.frames[id]? =
      if Environments.root = id then
        m.environments.frames[id]?.map fun frame =>
          { frame with bindings := (name, m.cells.size) :: frame.bindings }
      else m.environments.frames[id]? := by
    rw [Machine.define, Environments.define, Array.getElem?_modify]
  unfold Sound
  rw [hextent]
  refine ⟨?_, fun id frame hframe hid => ?_, fun id frame hframe => ?_, hallocate.cells⟩
  · obtain ⟨names, hroot⟩ := h.root
    exact ⟨(name, m.cells.size) :: names, by rw [hframes, if_pos rfl, hroot]; rfl⟩
  · rw [hframes, if_neg (Ne.symm hid)] at hframe
    exact h.parent id frame hframe hid
  · rw [hframes] at hframe
    split at hframe
    · -- the new cell is in front of the names that were there
      obtain ⟨before, hbefore, rfl⟩ := Option.map_eq_some_iff.1 hframe
      refine List.forall_mem_cons.2 ⟨?_, hallocate.bindings id before hbefore⟩
      simp [extent, Machine.allocate]
    · exact hallocate.bindings id frame hframe

/-- **Every search for a name ends within the frames**, and finds what the name stands for. -/
theorem SoundIn.search_eq (h : m.SoundIn a w) (name : String) {room : Nat} {env : EnvId}
    (hroom : env < room) (henv : env < m.environments.size) :
    m.environments.search name room env = some (m.environments.lookup env name) := by
  -- parents have smaller indices, so that an index bounds what is left of its chain
  induction room generalizing env with
  | zero => exact absurd hroom (Nat.not_lt_zero env)
  | succ room ih =>
    obtain ⟨frame, hframe⟩ : ∃ frame, m.environments.frames[env]? = some frame :=
      ⟨_, Array.getElem?_eq_getElem henv⟩
    rw [Environments.search, Environments.lookup, hframe]
    simp only
    cases frame.bindings.find? name with
    | some t => rfl
    | none =>
      by_cases hroot : env = Environments.root
      · obtain ⟨names, hroot'⟩ := h.root
        rw [hroot, hroot'] at hframe
        rw [← Option.some.inj hframe]
      · obtain ⟨parent, hparent, hlt⟩ := h.parent env frame hframe hroot
        rw [hparent]
        simp only [if_pos hlt]
        exact ih (Nat.lt_of_lt_of_le hlt (Nat.le_of_lt_succ hroom)) (Nat.lt_trans hlt henv)

end Machine

/-! ### Machines that stand for each other -/

variable (a) in
/-- The value is that of the evaluator, with numbers for trees. -/
inductive ValueAt : Value → CallByNeed.Value → Prop where
  | integer (n : Int) : ValueAt (.integer n) (.integer n)
  | boolean (b : Bool) : ValueAt (.boolean b) (.boolean b)
  | closure {p : PatternId} {id : ExprId} {param : Pattern} {body : Expr} (env : EnvId)
    (hp : a.PatternAt p param) (hbody : a.ExprAt id body) :
    ValueAt (.closure p id env) (.closure param body env)
  | tuple (elems : List ThunkId) : ValueAt (.tuple elems) (.tuple elems)
  | cons (head tail : ThunkId) : ValueAt (.cons head tail) (.cons head tail)
  | nil : ValueAt .nil .nil

variable (a) in
/-- The cell is that of the evaluator, with numbers for trees. -/
inductive CellAt : Cell → CallByNeed.Cell → Prop where
  | pending {id : ExprId} {e : Expr} (env : EnvId) (he : a.ExprAt id e) :
    CellAt (.pending id env) (.pending e env)
  | forcing {id : ExprId} {e : Expr} (env : EnvId) (he : a.ExprAt id e) :
    CellAt (.forcing id env) (.forcing e env)
  | evaluated {v : Value} {v' : CallByNeed.Value} (hv : ValueAt a v v') :
    CellAt (.evaluated v) (.evaluated v')

variable (a) in
/-- The machine holds what the machine of the evaluator holds, with numbers for trees. -/
structure Represents (m : Machine) (m' : CallByNeed.Machine) : Prop where
  environments : m'.environments = m.environments
  size : m'.cells.size = m.cells.size
  cells : ∀ t < m.cells.size, ∃ c, m.cells[t]? = some c ∧ CellAt a c (m'.cell t)
  created : m'.created = m.created
  evaluated : m'.evaluated = m.evaluated
  hits : m'.hits = m.hits

namespace Represents

variable {m n : Machine} {m' n' : CallByNeed.Machine}

theorem initial : Represents a Machine.initial CallByNeed.Machine.initial :=
  ⟨rfl, rfl, fun t ht => absurd ht (Nat.not_lt_zero t), rfl, rfl, rfl⟩

/-- Both sides count alike. -/
theorem count (h : Represents a m m') (henvs : n.environments = m.environments)
    (henvs' : n'.environments = m'.environments) (hcells : n.cells = m.cells)
    (hcells' : n'.cells = m'.cells) (hcreated : n'.created = n.created)
    (hevaluated : n'.evaluated = n.evaluated) (hhits : n'.hits = n.hits) : Represents a n n' where
  environments := by rw [henvs, henvs', h.environments]
  size := by rw [hcells, hcells', h.size]
  cells t ht := by
    rw [hcells] at ht ⊢
    unfold CallByNeed.Machine.cell
    rw [hcells']
    exact h.cells t ht
  created := hcreated
  evaluated := hevaluated
  hits := hhits

theorem allocate {c : Cell} {c' : CallByNeed.Cell} (h : Represents a m m') (hc : CellAt a c c') :
    Represents a (m.allocate c) (m'.allocate c').2 where
  environments := h.environments
  size := by simp [Machine.allocate, CallByNeed.Machine.allocate, h.size]
  cells t ht := by
    rw [Machine.allocate, Array.getElem?_push]
    by_cases hnew : t = m.cells.size
    · rw [if_pos hnew, hnew, ← h.size, CallByNeed.Machine.cell_allocate_self]
      exact ⟨c, rfl, hc⟩
    · have hold : t < m.cells.size := by
        simp only [Machine.allocate, Array.size_push] at ht
        omega
      rw [if_neg hnew, CallByNeed.Machine.cell_allocate_of_ne (h.size ▸ hnew)]
      exact h.cells t hold
  created := h.created
  evaluated := h.evaluated
  hits := h.hits

theorem setCell {c : Cell} {c' : CallByNeed.Cell} {t : ThunkId} (h : Represents a m m')
    (ht : t < m.cells.size) (hc : CellAt a c c') :
    Represents a (m.setCell t c) (m'.setCell t c') where
  environments := h.environments
  size := by simpa [Machine.setCell, CallByNeed.Machine.setCell] using h.size
  cells u hu := by
    have hold : u < m.cells.size := by simpa [Machine.setCell] using hu
    by_cases htu : u = t
    · subst htu
      rw [CallByNeed.Machine.cell_setCell_self (h.size ▸ hold)]
      exact ⟨c, by simp [Machine.setCell, hold], hc⟩
    · rw [CallByNeed.Machine.cell_setCell_of_ne htu, Machine.setCell,
        Array.getElem?_setIfInBounds_ne (Ne.symm htu)]
      exact h.cells u hold
  created := h.created
  evaluated := h.evaluated
  hits := h.hits

theorem push (h : Represents a m m') (parent : EnvId) (bindings : Bindings ThunkId) :
    Represents a (m.push parent bindings)
      { m' with environments := (m'.environments.push parent bindings).2 } where
  environments := by rw [h.environments]; rfl
  size := h.size
  cells := h.cells
  created := h.created
  evaluated := h.evaluated
  hits := h.hits

theorem define {v : Value} {v' : CallByNeed.Value} (h : Represents a m m') (name : String)
    (hv : ValueAt a v v') : Represents a (m.define name v) (m'.define name v') := by
  have hallocate := h.allocate (.evaluated hv)
  refine ⟨?_, hallocate.size, hallocate.cells, h.created, h.evaluated, h.hits⟩
  show (m'.environments.define name m'.cells.size) = m.environments.define name m.cells.size
  rw [h.environments, h.size]

end Represents

/-! ### Runs -/

variable (a) in
/-- The state is sound, was so at every moment, and holds what the machine of the evaluator
holds. -/
structure Consistent (s : State) (m : CallByNeed.Machine) : Prop where
  sound : s.machine.Sound a
  history : ∀ moment ∈ s.history, moment.Sound a
  represents : Represents a s.machine m

theorem Consistent.note {s : State} {m : CallByNeed.Machine} (h : Consistent a s m) {event : Event}
    (hevent : event.Sound a s.machine.extent) : Consistent a (s.note event) m where
  sound := h.sound
  history := by
    refine List.forall_mem_append.2 ⟨h.history, fun moment hmoment => ?_⟩
    obtain rfl := List.mem_singleton.1 hmoment
    exact ⟨h.sound, hevent⟩
  represents := h.represents

section Runs

variable {α β γ δ : Type}

variable (a) in
/-- The results are alike, and the states that are left are consistent, also behind an error. -/
inductive Agree (w : Extent) (R : Extent → α → β → Prop) :
    EStateM.Result Stop State α → EStateM.Result EvalError CallByNeed.Machine β → Prop where
  | ok {s : State} {m : CallByNeed.Machine} {x : α} {y : β} (hs : Consistent a s m)
    (hw : w ≤ s.machine.extent) (hxy : R s.machine.extent x y) : Agree w R (.ok x s) (.ok y m)
  | error {s : State} {m : CallByNeed.Machine} (e : EvalError) (hs : Consistent a s m)
    (hw : w ≤ s.machine.extent) : Agree w R (.error (.error e) s) (.error e m)

variable (a) in
/-- From consistent states the computation does what the evaluation does. -/
def Runs (w : Extent) (R : Extent → α → β → Prop) (x : Run α) (y : Eval β) : Prop :=
  ∀ s m, Consistent a s m → w ≤ s.machine.extent → Agree a w R (x s) (y m)

variable {w : Extent} {R : Extent → α → β → Prop} {S : Extent → γ → δ → Prop} {x : Run α}
  {y : Eval β}

theorem runs_pure {v : α} {v' : β} (h : ∀ w', w ≤ w' → R w' v v') :
    Runs a w R (pure v) (pure v') :=
  fun _ _ hs hw => .ok hs hw (h _ hw)

theorem runs_fail (e : EvalError) : Runs a w R (fail e) (throw e) :=
  fun _ _ hs hw => .error e hs hw

/-- **Sequences of computations that end alike end alike.** -/
theorem Runs.bind {f : α → Run γ} {g : β → Eval δ} (hx : Runs a w R x y)
    (hf : ∀ w' v v', w ≤ w' → R w' v v' → Runs a w' S (f v) (g v')) :
    Runs a w S (x >>= f) (y >>= g) := by
  intro s m hs hw
  have h := hx s m hs hw
  change Agree a w S (EStateM.bind x f s) (EStateM.bind y g m)
  unfold EStateM.bind
  generalize x s = r at h ⊢
  generalize y m = r' at h ⊢
  cases h with
  | error e hs' hw' => exact .error e hs' hw'
  | @ok s' m' v v' hs' hw' hv =>
    have h' := hf _ v v' hw' hv s' m' hs' (Extent.le_refl _)
    change Agree a w S (f v s') (g v' m')
    generalize f v s' = r at h' ⊢
    generalize g v' m' = r' at h' ⊢
    cases h' with
    | ok hs'' hw'' hz => exact .ok hs'' (Extent.le_trans hw' hw'') hz
    | error e hs'' hw'' => exact .error e hs'' (Extent.le_trans hw' hw'')

/-- **Calls are noted in sound machines**, if what they are given and what they yield is there. -/
theorem Runs.noted {enter : Event} {leave : α → Event} (hx : Runs a w R x y)
    (henter : enter.Sound a w) (hleave : ∀ w' v v', R w' v v' → (leave v).Sound a w') :
    Runs a w R (noted enter leave x) y := by
  intro s m hs hw
  have h := hx (s.note enter) m (hs.note (henter.mono hw)) hw
  unfold Numbered.noted
  generalize x (s.note enter) = r at h ⊢
  generalize y m = r' at h ⊢
  cases h with
  | ok hs' hw' hv => exact .ok (hs'.note (hleave _ _ _ hv)) hw' hv
  | error e hs' hw' => exact .error e (hs'.note trivial) hw'

/-! ### Steps of the machines -/

theorem runs_countHit : Runs a w (fun _ => Eq) countHit Eval.countHit := by
  intro s m hs hw
  have h := hs.represents
  exact .ok ⟨hs.sound.count rfl rfl, hs.history, h.count rfl rfl rfl rfl h.created h.evaluated
    (congrArg (· + 1) h.hits)⟩ hw rfl

/-- The same address on both sides, at which there is a cell. -/
def AddressAt (w : Extent) (t t' : ThunkId) : Prop :=
  t = t' ∧ t < w.cells

theorem runs_suspend {id : ExprId} {e : Expr} {env : EnvId} (he : a.ExprAt id e)
    (henv : env < w.frames) : Runs a w AddressAt (suspend id env) (Eval.suspend e env) := by
  intro s m hs hw
  have h := hs.represents
  have hle := s.machine.extent_le_allocate (.pending id env)
  have hcell : (Cell.pending id env).Sound a s.machine.extent :=
    ⟨he.lt_size, Nat.lt_of_lt_of_le henv hw.frames⟩
  have hsound : (s.machine.allocate (.pending id env)).Sound a :=
    (hs.sound.mono hle).allocate (hcell.mono hle)
  refine .ok ⟨hsound.count rfl rfl, hs.history, ?_⟩ (Extent.le_trans hw hle) ⟨h.size.symm, ?_⟩
  · exact (h.allocate (.pending env he)).count rfl rfl rfl rfl (congrArg (· + 1) h.created)
      h.evaluated h.hits
  · simp [State.onMachine, Machine.extent, Machine.allocate]

/-- The same environment on both sides, which is there. -/
def EnvAt (w : Extent) (env env' : EnvId) : Prop :=
  env = env' ∧ env < w.frames

theorem runs_pushFrame {parent : EnvId} {bindings : Bindings ThunkId} (hparent : parent < w.frames)
    (hbindings : BindingsSound w bindings) :
    Runs a w EnvAt (pushFrame parent bindings) (Eval.pushFrame parent bindings) := by
  intro s m hs hw
  have h := hs.represents
  have hle := s.machine.extent_le_push parent bindings
  have hsound : (s.machine.push parent bindings).Sound a :=
    (hs.sound.mono hle).push (Nat.lt_of_lt_of_le hparent hw.frames)
      ((hbindings.mono hw).mono hle)
  refine .ok ⟨hsound, hs.history, h.push parent bindings⟩ (Extent.le_trans hw hle) ⟨?_, ?_⟩
  · rw [h.environments]
  · simp [State.onMachine, Machine.extent, Machine.push, Environments.fresh, Environments.size,
      Environments.push]

/-- **A recursive frame**: the suspension refers to a frame that comes up in the same step. -/
theorem runs_pushRecursive {parent : EnvId} {id : ExprId} {e : Expr} (name : String)
    (hparent : parent < w.frames) (he : a.ExprAt id e) :
    Runs a w EnvAt (pushRecursive parent name id) (Eval.pushRecursive parent name e) := by
  intro s m hs hw
  have h := hs.represents
  let env := s.machine.environments.size
  let t := s.machine.cells.size
  let after := (s.machine.allocate (.pending id env)).push parent [(name, t)]
  have hle : s.machine.extent ≤ after.extent :=
    Extent.le_trans (s.machine.extent_le_allocate _) (Machine.extent_le_push _ _ _)
  have henv : env < after.extent.frames := by
    simp [after, env, Machine.extent, Machine.push, Machine.allocate]
  have ht : t < after.extent.cells := by
    simp [after, t, Machine.extent, Machine.push, Machine.allocate]
  -- frame and suspension refer to each other, and both are there behind the step
  have hsound : after.Sound a :=
    ((hs.sound.mono hle).allocate (c := .pending id env) ⟨he.lt_size, henv⟩).push
      (Nat.lt_of_lt_of_le hparent hw.frames) (List.forall_mem_singleton.2 ht)
  refine .ok ⟨hsound.count rfl rfl, hs.history, ?_⟩ (Extent.le_trans hw hle) ⟨?_, henv⟩
  · have hpush := (h.allocate (.pending env he)).push parent [(name, t)]
    refine hpush.count rfl ?_ rfl ?_ (congrArg (· + 1) h.created) h.evaluated h.hits
    · show (m.environments.push parent [(name, m.cells.size)]).2 = _
      rw [h.size]
      rfl
    · show m.cells.push (.pending e m.environments.fresh) = _
      rw [h.environments]
      rfl
  · show env = m.environments.fresh
    rw [h.environments]
    rfl

end Runs

end CallByNeed.Numbered

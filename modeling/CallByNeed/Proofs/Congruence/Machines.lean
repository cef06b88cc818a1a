import CallByNeed.Proofs.ByName.Simulation
import CallByNeed.Proofs.Congruence.Trees

/-!
# Two runs side by side

Congruent programs are run on two machines.  Both runs make the same suspensions in the same order,
so that an address means the same on both sides, and they make as many frames.  But the frames may
bind other names, and an expression that is suspended need not belong to the same frame on both
sides.

What the two machines know of each other is kept in a world (`World`): their environments, and the
addresses that may be demanded.  At such an address the cells are congruent; at any other address
there may be two quite different suspensions, which neither run ever looks at.  An environment of
one machine and one of the other open a scope (`World.Opens`) if the names that stand for each other
are bound to the same addresses, which may be demanded.

`Runs` says of two evaluations that they end alike on such machines: with values in a given relation
and the same work done, or with errors that differ no more than the programs may.  All that a
machine does by itself is in this relation, and a demand is if the evaluation that it makes is
(`Evaluates.force`).
-/

namespace CallByNeed.Congruence

variable {l : Leeway}

/-! ### Worlds -/

/-- The work done is the same. -/
structure SameWork (m m' : Machine) : Prop where
  created : m.created = m'.created
  evaluated : m.evaluated = m'.evaluated
  hits : m.hits = m'.hits

/-- What two machines know of each other. -/
structure World where
  /-- The addresses that may be demanded. -/
  live : Set ThunkId
  left : Environments ThunkId
  right : Environments ThunkId

/-- Environments that are there stay as they are. -/
structure Keeps (envs envs' : Environments ThunkId) : Prop where
  size_le : envs.size ≤ envs'.size
  lookup_eq : ∀ env < envs.size, ∀ name, envs'.lookup env name = envs.lookup env name

theorem Keeps.refl (envs : Environments ThunkId) : Keeps envs envs :=
  ⟨Nat.le_refl _, fun _ _ _ => rfl⟩

theorem Keeps.trans {envs envs' envs'' : Environments ThunkId} (h : Keeps envs envs')
    (h' : Keeps envs' envs'') : Keeps envs envs'' where
  size_le := Nat.le_trans h.size_le h'.size_le
  lookup_eq env henv name :=
    (h'.lookup_eq env (Nat.lt_of_lt_of_le henv h.size_le) name).trans (h.lookup_eq env henv name)

theorem keeps_push (envs : Environments ThunkId) (parent : EnvId) (bs : Bindings ThunkId) :
    Keeps envs (envs.push parent bs).2 where
  size_le := by
    rw [Environments.size_push]
    exact Nat.le_succ _
  lookup_eq env henv name := Environments.lookup_push_of_lt henv name

/-- What is found in a new environment: its own names, and behind them those of its parent. -/
theorem lookup_push {envs : Environments ThunkId} {parent : EnvId} (h : parent < envs.size)
    (bs : Bindings ThunkId) (x : String) :
    (envs.push parent bs).2.lookup envs.size x = (bs.find? x).or (envs.lookup parent x) := by
  rw [Environments.lookup_push_size h]
  cases bs.find? x <;> rfl

theorem lt_size_push (envs : Environments ThunkId) (parent : EnvId) (bs : Bindings ThunkId) :
    envs.size < (envs.push parent bs).2.size := by
  rw [Environments.size_push]
  exact Nat.lt_succ_self _

namespace World

/-- The second world knows more addresses and more environments. -/
instance : LE World where
  le w w' := (∀ t ∈ w.live, t ∈ w'.live) ∧ Keeps w.left w'.left ∧ Keeps w.right w'.right

variable {w w' w'' : World} {env env' : EnvId} {outer : Naming} {t : ThunkId}

theorem le_refl (w : World) : w ≤ w :=
  ⟨fun _ h => h, .refl _, .refl _⟩

theorem le_trans (h : w ≤ w') (h' : w' ≤ w'') : w ≤ w'' :=
  ⟨fun t ht => h'.1 t (h.1 t ht), h.2.1.trans h'.2.1, h.2.2.trans h'.2.2⟩

/-- Names that stand for each other are bound to the same address in the two environments, one that
may be demanded, or not at all.  A name that stands for another one is bound. -/
structure Opens (outer : Naming) (w : World) (env env' : EnvId) : Prop where
  left_lt : env < w.left.size
  right_lt : env' < w.right.size
  same : ∀ x x', outer x x' → w.left.lookup env x = w.right.lookup env' x'
  live : ∀ x x', outer x x' → ∀ t, w.left.lookup env x = some t → t ∈ w.live
  found : ∀ x x', outer x x' → x ≠ x' → (w.left.lookup env x).isSome

theorem Opens.mono (h : w.Opens outer env env') (hw : w ≤ w') : w'.Opens outer env env' where
  left_lt := Nat.lt_of_lt_of_le h.left_lt hw.2.1.size_le
  right_lt := Nat.lt_of_lt_of_le h.right_lt hw.2.2.size_le
  same x x' hx := by
    rw [hw.2.1.lookup_eq env h.left_lt, hw.2.2.lookup_eq env' h.right_lt, h.same x x' hx]
  live x x' hx t ht := by
    rw [hw.2.1.lookup_eq env h.left_lt] at ht
    exact hw.1 t (h.live x x' hx t ht)
  found x x' hx hne := by
    rw [hw.2.1.lookup_eq env h.left_lt]
    exact h.found x x' hx hne

/-- The world in which one more address may be demanded. -/
def enliven (w : World) (t : ThunkId) : World :=
  { w with live := insert t w.live }

theorem le_enliven (w : World) (t : ThunkId) : w ≤ w.enliven t :=
  ⟨fun _ h => .inr h, .refl _, .refl _⟩

theorem mem_live_enliven (w : World) (t : ThunkId) : t ∈ (w.enliven t).live :=
  .inl rfl

/-- The world with one more environment on both sides. -/
def push (w : World) (parent : EnvId) (bs : Bindings ThunkId) (parent' : EnvId)
    (bs' : Bindings ThunkId) : World :=
  { w with left := (w.left.push parent bs).2, right := (w.right.push parent' bs').2 }

variable {parent parent' : EnvId} {bs bs' : Bindings ThunkId}

theorem le_push (w : World) (parent : EnvId) (bs : Bindings ThunkId) (parent' : EnvId)
    (bs' : Bindings ThunkId) : w ≤ w.push parent bs parent' bs' :=
  ⟨fun _ h => h, keeps_push _ _ _, keeps_push _ _ _⟩

/-- The names of an inner scope are bound to the same address in the new frames, one that may be
demanded, or they stand for each other outside and are not bound there. -/
def Covers (inner outer : Naming) (w : World) (bs bs' : Bindings ThunkId) : Prop :=
  ∀ x x', inner x x' → (∃ t ∈ w.live, bs.find? x = some t ∧ bs'.find? x' = some t) ∨
    bs.find? x = none ∧ bs'.find? x' = none ∧ outer x x'

/-- **The new environments** open the inner scope. -/
theorem Opens.push {inner : Naming} (h : w.Opens outer parent parent')
    (hcovers : w.Covers inner outer bs bs') :
    (w.push parent bs parent' bs').Opens inner w.left.size w.right.size := by
  have hleft (x : String) : (w.push parent bs parent' bs').left.lookup w.left.size x =
      (bs.find? x).or (w.left.lookup parent x) := lookup_push h.left_lt bs x
  have hright (x : String) : (w.push parent bs parent' bs').right.lookup w.right.size x =
      (bs'.find? x).or (w.right.lookup parent' x) := lookup_push h.right_lt bs' x
  refine ⟨lt_size_push _ _ _, lt_size_push _ _ _, fun x x' hx => ?_, fun x x' hx u hu => ?_,
    fun x x' hx hne => ?_⟩
  · -- the same suspension is found for both names: in the new frames, or outside
    rw [hleft, hright]
    rcases hcovers x x' hx with ⟨t, -, ht, ht'⟩ | ⟨hnone, hnone', houter⟩
    · rw [ht, ht', Option.some_or, Option.some_or]
    · rw [hnone, hnone']
      exact h.same x x' houter
  · -- what is found is live, since the frames bind live suspensions only
    rw [hleft] at hu
    rcases hcovers x x' hx with ⟨t, hlive, ht, -⟩ | ⟨hnone, -, houter⟩
    · rw [ht, Option.some_or] at hu
      exact Option.some.inj hu ▸ hlive
    · rw [hnone] at hu
      exact h.live x x' houter u hu
  · -- a name that is bound outside is still bound
    rw [hleft]
    rcases hcovers x x' hx with ⟨t, -, ht, -⟩ | ⟨hnone, -, houter⟩
    · rw [ht]
      rfl
    · rw [hnone]
      exact h.found x x' houter hne

/-! ### Values and cells -/

variable (l)

/-- The values are congruent, and their parts may be demanded. -/
inductive Values (w : World) : Value → Value → Prop where
  | integer (n : Int) : Values w (.integer n) (.integer n)
  | boolean (b : Bool) : Values w (.boolean b) (.boolean b)
  | closure {outer ρ : Naming} {p p' : Pattern} {b b' : Expr} {env env' : EnvId}
    (henv : w.Opens outer env env') (hp : Expr.BindingPatterns l ρ p p')
    (hb : Expr.Congruent l (ρ.under p.names p'.names outer) b b') :
    Values w (.closure p b env) (.closure p' b' env')
  | tuple {ts : List ThunkId} (h : ∀ t ∈ ts, t ∈ w.live) : Values w (.tuple ts) (.tuple ts)
  | cons {t u : ThunkId} (ht : t ∈ w.live) (hu : u ∈ w.live) : Values w (.cons t u) (.cons t u)
  | nil : Values w .nil .nil

/-- The cells are congruent. -/
inductive Cells (w : World) : Cell → Cell → Prop where
  | pending {outer : Naming} {e e' : Expr} {env env' : EnvId} (henv : w.Opens outer env env')
    (he : Expr.Congruent l outer e e') : Cells w (.pending e env) (.pending e' env')
  | forcing {outer : Naming} {e e' : Expr} {env env' : EnvId} (henv : w.Opens outer env env')
    (he : Expr.Congruent l outer e e') : Cells w (.forcing e env) (.forcing e' env')
  | evaluated {v v' : Value} (hv : w.Values l v v') : Cells w (.evaluated v) (.evaluated v')

variable {l}

theorem Values.mono {v v' : Value} (h : w.Values l v v') (hw : w ≤ w') : w'.Values l v v' := by
  cases h with
  | integer n => exact .integer n
  | boolean b => exact .boolean b
  | closure henv hp hb => exact .closure (henv.mono hw) hp hb
  | tuple h => exact .tuple fun t ht => hw.1 t (h t ht)
  | cons ht hu => exact .cons (hw.1 _ ht) (hw.1 _ hu)
  | nil => exact .nil

theorem Cells.mono {c c' : Cell} (h : w.Cells l c c') (hw : w ≤ w') : w'.Cells l c c' := by
  cases h with
  | pending henv he => exact .pending (henv.mono hw) he
  | forcing henv he => exact .forcing (henv.mono hw) he
  | evaluated hv => exact .evaluated (hv.mono hw)

/-! ### Machines -/

variable (l) in
/-- The machines hold congruent cells wherever one may be demanded, and have done the same work. -/
structure Consistent (w : World) (m m' : Machine) : Prop where
  left : m.environments = w.left
  right : m'.environments = w.right
  frames : w.left.size = w.right.size
  size : m.cells.size = m'.cells.size
  work : SameWork m m'
  lt_size : ∀ t ∈ w.live, t < m.cells.size
  cells : ∀ t ∈ w.live, w.Cells l (m.cell t) (m'.cell t)

namespace Consistent

variable {m m' : Machine} {c c' : Cell}

theorem stats_eq (h : w.Consistent l m m') : m.stats = m'.stats := by
  unfold Machine.stats
  rw [h.work.created, h.work.evaluated, h.work.hits, h.left, h.right, h.frames]

/-- **A cell is replaced on both sides.** -/
theorem setCell (h : w.Consistent l m m') (ht : t ∈ w.live) (hc : w.Cells l c c') :
    w.Consistent l (m.setCell t c) (m'.setCell t c') where
  left := h.left
  right := h.right
  frames := h.frames
  size := by simpa [Machine.setCell] using h.size
  work := ⟨h.work.created, h.work.evaluated, h.work.hits⟩
  lt_size u hu := by simpa [Machine.setCell] using h.lt_size u hu
  cells u hu := by
    have hlt := h.lt_size t ht
    by_cases hut : u = t
    · subst hut
      rw [Machine.cell_setCell_self hlt, Machine.cell_setCell_self (h.size ▸ hlt)]
      exact hc
    · rw [Machine.cell_setCell_of_ne hut, Machine.cell_setCell_of_ne hut]
      exact h.cells u hu

/-- **Cells are allocated that nobody will demand.** -/
theorem allocate (h : w.Consistent l m m') (c c' : Cell) :
    w.Consistent l (m.allocate c).2 (m'.allocate c').2 where
  left := h.left
  right := h.right
  frames := h.frames
  size := by simpa [Machine.allocate] using h.size
  work := ⟨h.work.created, h.work.evaluated, h.work.hits⟩
  lt_size u hu := by
    have hlt := h.lt_size u hu
    simp only [Machine.allocate, Array.size_push]
    exact Nat.lt_succ_of_lt hlt
  cells u hu := by
    have hne := Nat.ne_of_lt (h.lt_size u hu)
    rw [Machine.cell_allocate_of_ne hne, Machine.cell_allocate_of_ne (h.size ▸ hne)]
    exact h.cells u hu

/-- **An address may be demanded** if the cells there are congruent. -/
theorem enliven (h : w.Consistent l m m') (ht : t < m.cells.size)
    (hc : (w.enliven t).Cells l (m.cell t) (m'.cell t)) : (w.enliven t).Consistent l m m' where
  left := h.left
  right := h.right
  frames := h.frames
  size := h.size
  work := h.work
  lt_size := by
    rintro u (rfl | hu)
    · exact ht
    · exact h.lt_size u hu
  cells := by
    rintro u (rfl | hu)
    · exact hc
    · exact (h.cells u hu).mono (w.le_enliven t)

/-- **Frames are pushed on both sides.** -/
theorem push (h : w.Consistent l m m') (parent : EnvId) (bs : Bindings ThunkId)
    (parent' : EnvId) (bs' : Bindings ThunkId) :
    (w.push parent bs parent' bs').Consistent l
      { m with environments := (m.environments.push parent bs).2 }
      { m' with environments := (m'.environments.push parent' bs').2 } where
  left := by rw [h.left]; rfl
  right := by rw [h.right]; rfl
  frames := by
    show (w.left.push parent bs).2.size = (w.right.push parent' bs').2.size
    rw [Environments.size_push, Environments.size_push, h.frames]
  size := h.size
  work := ⟨h.work.created, h.work.evaluated, h.work.hits⟩
  lt_size := h.lt_size
  cells t ht := (h.cells t ht).mono (w.le_push parent bs parent' bs')

/-- Both sides count alike. -/
theorem count {n n' : Machine} (h : w.Consistent l m m') (hcells : n.cells = m.cells)
    (hcells' : n'.cells = m'.cells) (henvs : n.environments = m.environments)
    (henvs' : n'.environments = m'.environments) (hwork : SameWork n n') :
    w.Consistent l n n' where
  left := henvs.trans h.left
  right := henvs'.trans h.right
  frames := h.frames
  size := by rw [hcells, hcells', h.size]
  work := hwork
  lt_size t ht := hcells ▸ h.lt_size t ht
  cells t ht := by
    unfold Machine.cell
    rw [hcells, hcells']
    exact h.cells t ht

end Consistent

end World

/-! ### Runs -/

variable {α β γ δ : Type}

variable (l) in
/-- The results of two runs are alike. -/
inductive Agree (w : World) (R : World → α → β → Prop) :
    EStateM.Result EvalError Machine α → EStateM.Result EvalError Machine β → Prop where
  | ok {w' : World} {m m' : Machine} {a : α} {b : β} (hw : w ≤ w')
    (hm : w'.Consistent l m m') (hab : R w' a b) : Agree w R (.ok a m) (.ok b m')
  | error {e e' : EvalError} {m m' : Machine} (he : l.Errors e e')
    (hstats : l.Exact → m.stats = m'.stats) : Agree w R (.error e m) (.error e' m')

variable (l) in
/-- On machines with congruent cells the evaluations end alike. -/
def Runs (w : World) (R : World → α → β → Prop) (x : Eval α) (y : Eval β) : Prop :=
  ∀ m m', w.Consistent l m m' → Agree l w R (x m) (y m')

section Rules

variable {w : World} {R : World → α → β → Prop} {S : World → γ → δ → Prop} {x : Eval α}
  {y : Eval β}

theorem runs_pure {a : α} {b : β} (h : R w a b) : Runs l w R (pure a) (pure b) :=
  fun _ _ hm => .ok w.le_refl hm h

theorem runs_throw {e e' : EvalError} (h : l.Errors e e') : Runs l w R (throw e) (throw e') :=
  fun _ _ hm => .error h fun _ => hm.stats_eq

/-- What the evaluations read of the machines. -/
theorem runs_get {f : Machine → Eval α} {g : Machine → Eval β}
    (h : ∀ m m', w.Consistent l m m' → Runs l w R (f m) (g m')) :
    Runs l w R (get >>= f) (get >>= g) :=
  fun m m' hm => h m m' hm m m' hm

/-- **Sequences of evaluations that end alike end alike.** -/
theorem Runs.bind {f : α → Eval γ} {g : β → Eval δ} (hx : Runs l w R x y)
    (hf : ∀ w' a b, w ≤ w' → R w' a b → Runs l w' S (f a) (g b)) :
    Runs l w S (x >>= f) (y >>= g) := by
  intro m m' hm
  have hxm := hx m m' hm
  change Agree l w S (EStateM.bind x f m) (EStateM.bind y g m')
  unfold EStateM.bind
  generalize x m = r at hxm ⊢
  generalize y m' = r' at hxm ⊢
  cases hxm with
  -- a failure of the first evaluation ends both
  | error he hstats => exact .error he hstats
  | @ok w' n n' a b hw hn hab =>
    have hfn := hf w' a b hw hab n n' hn
    change Agree l w S (f a n) (g b n')
    generalize f a n = r at hfn ⊢
    generalize g b n' = r' at hfn ⊢
    cases hfn with
    | ok hw' hm' hcd => exact .ok (World.le_trans hw hw') hm' hcd
    | error he hstats => exact .error he hstats

/-! ### Steps of the machines -/

theorem runs_countHit : Runs l w (fun _ => Eq) Eval.countHit Eval.countHit := by
  intro m m' hm
  have hwork : SameWork { m with hits := m.hits + 1 } { m' with hits := m'.hits + 1 } :=
    ⟨hm.work.created, hm.work.evaluated, congrArg (· + 1) hm.work.hits⟩
  exact .ok w.le_refl (hm.count rfl rfl rfl rfl hwork) rfl

variable {outer inner : Naming} {env env' parent parent' : EnvId} {e e' : Expr}
  {bs bs' : Bindings ThunkId}

/-- The same address on both sides, which may be demanded. -/
def World.Live (w : World) (t t' : ThunkId) : Prop :=
  t = t' ∧ t ∈ w.live

/-- **Suspensions that nobody will demand** may be of any two expressions. -/
theorem runs_suspend_unused (e e' : Expr) (env env' : EnvId) :
    Runs l w (fun _ => Eq) (Eval.suspend e env) (Eval.suspend e' env') := by
  intro m m' hm
  have hm' := hm.allocate (.pending e env) (.pending e' env')
  refine .ok w.le_refl (hm'.count rfl rfl rfl rfl ?_) hm.size
  exact ⟨congrArg (· + 1) hm.work.created, hm.work.evaluated, hm.work.hits⟩

/-- New cells hold the same suspension, up to congruence. -/
theorem World.Cells.allocate {w' : World} {m m' : Machine} (hm : w.Consistent l m m')
    (henv : w'.Opens outer env env') (he : Expr.Congruent l outer e e') :
    w'.Cells l ((m.allocate (.pending e env)).2.cell m.cells.size)
      ((m'.allocate (.pending e' env')).2.cell m.cells.size) := by
  have hright : (m'.allocate (.pending e' env')).2.cell m.cells.size = .pending e' env' := by
    rw [hm.size, Machine.cell_allocate_self]
  rw [Machine.cell_allocate_self, hright]
  exact .pending henv he

/-- **Congruent expressions are suspended.** -/
theorem runs_suspend (henv : w.Opens outer env env') (he : Expr.Congruent l outer e e') :
    Runs l w World.Live (Eval.suspend e env) (Eval.suspend e' env') := by
  intro m m' hm
  have hw := w.le_enliven m.cells.size
  have hm' := (hm.allocate (.pending e env) (.pending e' env')).enliven
    (by simp [Machine.allocate]) (.allocate hm (henv.mono hw) he)
  refine .ok hw (hm'.count rfl rfl rfl rfl ?_) ⟨hm.size, w.mem_live_enliven _⟩
  exact ⟨congrArg (· + 1) hm.work.created, hm.work.evaluated, hm.work.hits⟩

/-- The environments in which frames are pushed are the next ones. -/
theorem World.Opens.fresh {m m' : Machine} (hm : w.Consistent l m m') {w' : World}
    (h : w'.Opens inner w.left.size w.right.size) :
    w'.Opens inner m.environments.size m'.environments.size := by
  rwa [hm.left, hm.right]

/-- **Frames are pushed** in which an inner scope is open. -/
theorem runs_pushFrame (hparent : w.Opens outer parent parent')
    (hcovers : w.Covers inner outer bs bs') :
    Runs l w (World.Opens inner) (Eval.pushFrame parent bs) (Eval.pushFrame parent' bs') := by
  intro m m' hm
  exact .ok (w.le_push parent bs parent' bs') (hm.push parent bs parent' bs')
    (.fresh hm (hparent.push hcovers))

/-! ### Recursive frames -/

/-- The world with one more environment on both sides, in which a name is bound to the same new
cell. -/
def World.bindCell (w : World) (t : ThunkId) (parent : EnvId) (x : String) (parent' : EnvId)
    (x' : String) : World :=
  (w.push parent [(x, t)] parent' [(x', t)]).enliven t

theorem World.le_bindCell (w : World) (t : ThunkId) (parent : EnvId) (x : String)
    (parent' : EnvId) (x' : String) : w ≤ w.bindCell t parent x parent' x' :=
  World.le_trans (w.le_push _ _ _ _) (World.le_enliven _ t)

/-- The machine with a new suspension of `e`, and with a frame in which `x` is bound to it. -/
def pushCell (m : Machine) (e : Expr) (env parent : EnvId) (x : String) : Machine :=
  { (m.allocate (.pending e env)).2 with
    environments := (m.environments.push parent [(x, m.cells.size)]).2
    created := m.created + 1 }

namespace World.Consistent

variable {m m' : Machine} {x x' : String}

/-- A new cell that nobody will demand is bound in new frames. -/
theorem pushCell_unused (hm : w.Consistent l m m') (e e' : Expr) (env env' : EnvId) :
    (w.push parent [(x, m.cells.size)] parent' [(x', m.cells.size)]).Consistent l
      (pushCell m e env parent x) (pushCell m' e' env' parent' x') := by
  have hpush := (hm.allocate (.pending e env) (.pending e' env')).push parent
    [(x, m.cells.size)] parent' [(x', m.cells.size)]
  refine hpush.count rfl rfl rfl ?_ ?_
  · show (m'.environments.push parent' [(x', m'.cells.size)]).2 = _
    rw [← hm.size]
    rfl
  · exact ⟨congrArg (· + 1) hm.work.created, hm.work.evaluated, hm.work.hits⟩

/-- **A new cell is bound in new frames.**  The suspended expressions may belong to any environments
that open a scope in which they are congruent. -/
theorem pushCell (hm : w.Consistent l m m') {scope : Naming}
    (henv : (w.bindCell m.cells.size parent x parent' x').Opens scope env env')
    (he : Expr.Congruent l scope e e') :
    (w.bindCell m.cells.size parent x parent' x').Consistent l
      (Congruence.pushCell m e env parent x) (Congruence.pushCell m' e' env' parent' x') :=
  (hm.pushCell_unused e e' env env').enliven (by simp [Congruence.pushCell, Machine.allocate])
    (.allocate hm henv he)

end World.Consistent

/-- **The new environments open the scope** in which the names that are bound stand for each
other. -/
theorem World.Opens.bindCell {t : ThunkId} {x x' : String} (h : w.Opens outer parent parent')
    (hcovers : (w.enliven t).Covers inner outer [(x, t)] [(x', t)]) :
    (w.bindCell t parent x parent' x').Opens inner w.left.size w.right.size :=
  (h.mono (w.le_enliven t)).push hcovers

end Rules

/-! ### Demands -/

variable (l) in
/-- The evaluator runs alike on congruent expressions. -/
def Evaluates (eval : Expr → EnvId → Eval Value) : Prop :=
  ∀ ⦃w : World⦄ ⦃outer : Naming⦄ ⦃env env' : EnvId⦄ ⦃e e' : Expr⦄, w.Opens outer env env' →
    Expr.Congruent l outer e e' → Runs l w (World.Values l) (eval e env) (eval e' env')

variable (l) in
/-- Demands run alike where they are allowed. -/
def Forces (force : ThunkId → Eval Value) : Prop :=
  ∀ ⦃w : World⦄ ⦃t : ThunkId⦄, t ∈ w.live → Runs l w (World.Values l) (force t) (force t)

/-- **A demand runs alike if the evaluation that it makes does.** -/
theorem Evaluates.force {eval : Expr → EnvId → Eval Value} (h : Evaluates l eval) :
    Forces l (Eval.force eval) := by
  intro w t ht m m' hm
  have hcells := hm.cells t ht
  generalize hleft : m.cell t = c at hcells
  generalize hright : m'.cell t = c' at hcells
  cases hcells with
  | evaluated hv =>
    rw [ByName.force_of_evaluated hleft, ByName.force_of_evaluated hright]
    refine .ok w.le_refl (hm.count rfl rfl rfl rfl ?_) hv
    exact ⟨hm.work.created, hm.work.evaluated, congrArg (· + 1) hm.work.hits⟩
  | forcing henv he =>
    -- the value is demanded again while it is being found, on both sides
    rw [ByName.force_of_forcing hleft, ByName.force_of_forcing hright]
    exact .error (.same rfl he.span) fun _ => hm.stats_eq
  | @pending outer e e' env env' henv he =>
    rw [ByName.force_of_pending hleft, ByName.force_of_pending hright]
    -- both cells are marked while the evaluation runs
    have hinside := h henv he _ _ (hm.setCell ht (.forcing henv he))
    generalize eval e env (m.setCell t (.forcing e env)) = r at hinside ⊢
    generalize eval e' env' (m'.setCell t (.forcing e' env')) = r' at hinside ⊢
    cases hinside with
    | error herr hstats => exact .error herr hstats
    | @ok w' n n' v v' hw hn hv =>
      have hsettled := hn.setCell (hw.1 t ht) (.evaluated hv)
      refine .ok hw (hsettled.count rfl rfl rfl rfl ?_) hv
      exact ⟨hn.work.created, congrArg (· + 1) hn.work.evaluated, hn.work.hits⟩

end CallByNeed.Congruence

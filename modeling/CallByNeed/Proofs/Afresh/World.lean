import CallByNeed.Proofs.Afresh.Semantics
import CallByNeed.Proofs.ByName.World
import CallByNeed.Proofs.Matching.Paths

/-!
# What a machine stands for after a given one

As for evaluation by name, the addresses and environments of a machine are read in a world, which
gives the meaning of each and only grows (`World`).  A machine is consistent with it if each cell is
one for its suspension, and if names are found in an environment as in its meaning
(`World.Consistent`).  The given machine itself is consistent with the world in which everything
stands for itself (`World.consistent_given`), provided that no address dangles.
-/

namespace CallByNeed.Afresh

/-- The meanings of addresses and of environments. -/
structure World where
  suspensions : List Suspension
  environments : List Env

namespace World

/-- The address stands for the suspension. -/
def HasSuspension (w : World) (t : ThunkId) (s : Suspension) : Prop :=
  w.suspensions[t]? = some s

/-- The environment has the meaning. -/
def HasEnv (w : World) (id : EnvId) (env : Env) : Prop :=
  w.environments[id]? = some env

/-- The second world has all meanings of the first. -/
instance : LE World where
  le w w' := (∀ t s, w.HasSuspension t s → w'.HasSuspension t s) ∧
    ∀ id env, w.HasEnv id env → w'.HasEnv id env

theorem le_refl (w : World) : w ≤ w :=
  ⟨fun _ _ h => h, fun _ _ h => h⟩

theorem le_trans {w₁ w₂ w₃ : World} (h : w₁ ≤ w₂) (h' : w₂ ≤ w₃) : w₁ ≤ w₃ :=
  ⟨fun t s hs => h'.1 t s (h.1 t s hs), fun id env henv => h'.2 id env (h.2 id env henv)⟩

/-- The world with a meaning for one more address. -/
def addSuspension (w : World) (s : Suspension) : World :=
  { w with suspensions := w.suspensions ++ [s] }

/-- The world with a meaning for one more environment. -/
def addEnv (w : World) (env : Env) : World :=
  { w with environments := w.environments ++ [env] }

theorem hasSuspension_addSuspension {w : World} {s s' : Suspension} {t : ThunkId} :
    (w.addSuspension s).HasSuspension t s' ↔
      w.HasSuspension t s' ∨ t = w.suspensions.length ∧ s' = s :=
  ByName.World.getElem?_concat_eq_some

theorem hasEnv_addEnv {w : World} {env env' : Env} {id : EnvId} :
    (w.addEnv env).HasEnv id env' ↔ w.HasEnv id env' ∨ id = w.environments.length ∧ env' = env :=
  ByName.World.getElem?_concat_eq_some

theorem le_addSuspension (w : World) (s : Suspension) : w ≤ w.addSuspension s :=
  ⟨fun _ _ h => hasSuspension_addSuspension.mpr (.inl h), fun _ _ h => h⟩

theorem le_addEnv (w : World) (env : Env) : w ≤ w.addEnv env :=
  ⟨fun _ _ h => h, fun _ _ h => hasEnv_addEnv.mpr (.inl h)⟩

/-! ### Values and cells -/

/-- The value of a machine, read in the world. -/
inductive Reads (w : World) : CallByNeed.Value → Value → Prop where
  | integer (n : Int) : Reads w (.integer n) (.integer n)
  | boolean (b : Bool) : Reads w (.boolean b) (.boolean b)
  | closure {id : EnvId} {env : Env} (param : Pattern) (body : Expr) (h : w.HasEnv id env) :
    Reads w (.closure param body id) (.closure param body env)
  | tuple {ts : List ThunkId} {ss : List Suspension} (h : List.Forall₂ w.HasSuspension ts ss) :
    Reads w (.tuple ts) (.tuple ss)
  | cons {t t' : ThunkId} {s s' : Suspension} (h : w.HasSuspension t s)
    (h' : w.HasSuspension t' s') : Reads w (.cons t t') (.cons s s')
  | nil : Reads w .nil .nil

/-- The cell is one for the suspension. -/
inductive Holds (w : World) : Cell → Suspension → Prop where
  | pending {id : EnvId} {env : Env} {e : Expr} {s : Suspension} (h : w.HasEnv id env)
    (hs : demand s = Plan.query (.eval e env)) : Holds w (.pending e id) s
  | forcing (e : Expr) (id : EnvId) (s : Suspension) : Holds w (.forcing e id) s
  | evaluated {v : CallByNeed.Value} {v' : Value} {s : Suspension} (hread : w.Reads v v')
    (h : (demand s).Yields (.ok v')) : Holds w (.evaluated v) s

/-- The same names stand for the suspensions of the addresses. -/
def ReadsBindings (w : World) : Bindings ThunkId → Bindings Suspension → Prop :=
  List.Forall₂ fun b b' => b.1 = b'.1 ∧ w.HasSuspension b.2 b'.2

/-- The names of an environment stand for the same suspensions in its meaning. -/
def Finds (w : World) (m : Machine) (id : EnvId) (env : Env) : Prop :=
  ∀ name, Option.Rel w.HasSuspension (m.environments.lookup id name) (env.lookup name)

/-- The machine is one for the world. -/
structure Consistent (w : World) (m : Machine) : Prop where
  length_suspensions : w.suspensions.length = m.cells.size
  length_environments : w.environments.length = m.environments.size
  holds : ∀ t s, w.HasSuspension t s → w.Holds (m.cell t) s
  finds : ∀ id env, w.HasEnv id env → w.Finds m id env

section Mono

variable {w w' : World} (hw : w ≤ w')

include hw

/-- **A value is read alike in a larger world.** -/
theorem Reads.mono {v : CallByNeed.Value} {v' : Value} (h : w.Reads v v') : w'.Reads v v' := by
  cases h with
  | integer n => exact .integer n
  | boolean b => exact .boolean b
  | closure param body h => exact .closure param body (hw.2 _ _ h)
  | tuple h => exact .tuple (h.imp hw.1)
  | cons h h' => exact .cons (hw.1 _ _ h) (hw.1 _ _ h')
  | nil => exact .nil

theorem Holds.mono {c : Cell} {s : Suspension} (h : w.Holds c s) : w'.Holds c s := by
  cases h with
  | pending h hs => exact .pending (hw.2 _ _ h) hs
  | forcing e id => exact .forcing e id s
  | evaluated hread h => exact .evaluated (hread.mono hw) h

theorem ReadsBindings.mono {bs : Bindings ThunkId} {bs' : Bindings Suspension}
    (h : w.ReadsBindings bs bs') : w'.ReadsBindings bs bs' :=
  h.imp fun _ _ hb => ⟨hb.1, hw.1 _ _ hb.2⟩

theorem Finds.mono {m : Machine} {id : EnvId} {env : Env} (h : w.Finds m id env) :
    w'.Finds m id env := by
  intro name
  rcases ByName.World.cases_rel (h name) with ⟨hx, hy⟩ | ⟨t, s, hx, hy, hs⟩
  · rw [hx, hy]
    exact .none
  · rw [hx, hy]
    exact .some (hw.1 t s hs)

end Mono

section Bindings

variable {w : World} {bs : Bindings ThunkId} {bs' : Bindings Suspension}

theorem ReadsBindings.find? (h : w.ReadsBindings bs bs') (name : String) :
    Option.Rel w.HasSuspension (bs.find? name) (bs'.find? name) := by
  induction h with
  | nil => exact .none
  | @cons b b' bs bs' hb _ ih =>
    obtain ⟨x, t⟩ := b
    obtain ⟨x', s⟩ := b'
    obtain ⟨rfl, ht⟩ : x = x' ∧ w.HasSuspension t s := hb
    unfold Bindings.find? at ih ⊢
    rw [List.lookup_cons, List.lookup_cons]
    cases name == x with
    | true => exact .some ht
    | false => exact ih

theorem ReadsBindings.binds (h : w.ReadsBindings bs bs') (name : String) :
    bs.binds name = bs'.binds name := by
  unfold Bindings.binds
  rcases ByName.World.cases_rel (h.find? name) with ⟨hx, hy⟩ | ⟨_, _, hx, hy, _⟩ <;>
    rw [hx, hy] <;> rfl

end Bindings

/-! ### What keeps a machine consistent -/

namespace Consistent

variable {w w' : World} {m m' : Machine}

theorem lt_size (h : w.Consistent m) {t : ThunkId} {s : Suspension} (hs : w.HasSuspension t s) :
    t < m.cells.size :=
  h.length_suspensions ▸ (List.getElem?_eq_some_iff.mp hs).1

theorem env_lt_size (h : w.Consistent m) {id : EnvId} {env : Env} (henv : w.HasEnv id env) :
    id < m.environments.size :=
  h.length_environments ▸ (List.getElem?_eq_some_iff.mp henv).1

/-- Counters do not matter. -/
theorem congr (h : w.Consistent m) (hcells : m'.cells = m.cells)
    (henvs : m'.environments = m.environments) : w.Consistent m' where
  length_suspensions := hcells ▸ h.length_suspensions
  length_environments := henvs ▸ h.length_environments
  holds t s hs := by
    unfold Machine.cell
    rw [hcells]
    exact h.holds t s hs
  finds id env henv := by
    unfold Finds
    rw [henvs]
    exact h.finds id env henv

/-- **A cell may be replaced by one for the same suspension.** -/
theorem setCell (h : w.Consistent m) {t : ThunkId} {s : Suspension} {c : Cell}
    (hs : w.HasSuspension t s) (hc : w.Holds c s) : w.Consistent (m.setCell t c) where
  length_suspensions := by
    rw [h.length_suspensions]
    exact Array.size_setIfInBounds.symm
  length_environments := h.length_environments
  holds u s' hs' := by
    by_cases hu : u = t
    · -- an address has only one meaning
      subst hu
      obtain rfl : s = s' := Option.some.inj (hs.symm.trans hs')
      rw [Machine.cell_setCell_self (h.lt_size hs)]
      exact hc
    · rw [Machine.cell_setCell_of_ne hu]
      exact h.holds u s' hs'
  finds := h.finds

/-- **A suspension is made.** -/
theorem allocate (h : w.Consistent m) {id : EnvId} {env : Env} (e : Expr)
    (henv : w.HasEnv id env) :
    (w.addSuspension (.made e env)).Consistent (m.allocate (.pending e id)).2 where
  length_suspensions := by
    simp [addSuspension, Machine.allocate, h.length_suspensions]
  length_environments := h.length_environments
  holds t s hs := by
    rcases hasSuspension_addSuspension.mp hs with hs | ⟨rfl, rfl⟩
    · rw [Machine.cell_allocate_of_ne (Nat.ne_of_lt (h.lt_size hs))]
      exact (h.holds t s hs).mono (w.le_addSuspension _)
    · rw [h.length_suspensions, Machine.cell_allocate_self]
      exact .pending henv rfl
  finds id' env' henv' := (h.finds id' env' henv').mono (w.le_addSuspension _)

/-- After a push the environments find what their meanings do: those that were there before as
before, and the new one its own names first and then those of its parent. -/
theorem finds_of_push (h : w.Consistent m) (hw : w ≤ w') {parent id : EnvId} {env env' env₁ : Env}
    {bindings : Bindings ThunkId} {bindings' : Bindings Suspension}
    (hm : m'.environments = (m.environments.push parent bindings).2)
    (hparent : w.HasEnv parent env) (hbindings : w'.ReadsBindings bindings bindings')
    (hlookup : ∀ name, env'.lookup name =
      match bindings'.find? name with
      | some s => some s
      | none => env.lookup name)
    (hid : w.HasEnv id env₁ ∨ id = w.environments.length ∧ env₁ = env') :
    w'.Finds m' id env₁ := by
  intro name
  rw [hm]
  -- an environment from before, or the new one
  rcases hid with hid | ⟨rfl, rfl⟩
  · rw [Environments.lookup_push_of_lt (h.env_lt_size hid)]
    exact (h.finds id env₁ hid).mono hw name
  · rw [h.length_environments, Environments.lookup_push_size (h.env_lt_size hparent), hlookup]
    rcases ByName.World.cases_rel (hbindings.find? name) with ⟨hx, hy⟩ | ⟨t, s, hx, hy, hs⟩
    · -- the new frame does not bind the name
      rw [hx, hy]
      exact (h.finds parent env hparent).mono hw name
    · rw [hx, hy]
      exact .some hs

/-- **A frame is pushed.** -/
theorem pushFrame (h : w.Consistent m) {parent : EnvId} {env : Env}
    {bindings : Bindings ThunkId} {bindings' : Bindings Suspension}
    (hparent : w.HasEnv parent env) (hbindings : w.ReadsBindings bindings bindings') :
    (w.addEnv (.frame bindings' env)).Consistent
      { m with environments := (m.environments.push parent bindings).2 } where
  length_suspensions := h.length_suspensions
  length_environments := by
    simp [addEnv, h.length_environments]
  holds t s hs := (h.holds t s hs).mono (w.le_addEnv _)
  finds id env₁ henv := by
    refine h.finds_of_push (w.le_addEnv _) rfl hparent (hbindings.mono (w.le_addEnv _)) ?_
      (hasEnv_addEnv.mp henv)
    intro name
    cases hfind : bindings'.find? name <;> simp only [Env.lookup, hfind]

/-- **A recursive frame is pushed**, together with the suspension that refers to it. -/
theorem pushRecursive (h : w.Consistent m) {parent : EnvId} {env : Env} (name : String) (e : Expr)
    (hparent : w.HasEnv parent env) :
    ((w.addSuspension (.made e (.recursive name e env))).addEnv
        (.recursive name e env)).Consistent
      { (m.allocate (.pending e m.environments.size)).2 with
        environments := (m.environments.push parent [(name, m.cells.size)]).2 } where
  length_suspensions := by
    simp [addEnv, addSuspension, Machine.allocate, h.length_suspensions]
  length_environments := by
    simp [addEnv, addSuspension, h.length_environments]
  holds t s hs := by
    change World.Holds _ ((m.allocate _).2.cell t) s
    rcases hasSuspension_addSuspension.mp hs with hs | ⟨rfl, rfl⟩
    · rw [Machine.cell_allocate_of_ne (Nat.ne_of_lt (h.lt_size hs))]
      exact (h.holds t s hs).mono (le_trans (w.le_addSuspension _) (le_addEnv _ _))
    · -- the new cell belongs to the new environment
      rw [h.length_suspensions, Machine.cell_allocate_self]
      exact .pending (hasEnv_addEnv.mpr (.inr ⟨h.length_environments.symm, rfl⟩)) rfl
  finds id env₁ henv := by
    have hw := le_trans (w.le_addSuspension (.made e (.recursive name e env)))
      (le_addEnv _ (.recursive name e env))
    -- the new environment finds the new suspension under the name
    have hself : World.HasSuspension _ m.cells.size (.made e (.recursive name e env)) :=
      (le_addEnv _ (.recursive name e env)).1 _ _
        (hasSuspension_addSuspension.mpr (.inr ⟨h.length_suspensions.symm, rfl⟩))
    have hbindings : World.ReadsBindings _ [(name, m.cells.size)]
        [(name, .made e (.recursive name e env))] := .cons ⟨rfl, hself⟩ .nil
    refine h.finds_of_push hw rfl hparent hbindings ?_ (hasEnv_addEnv.mp henv)
    intro x
    rw [Env.lookup, Bindings.find?, List.lookup_cons]
    cases x == name <;> rfl

end Consistent

/-! ### The given machine -/

/-- Everything stands for itself. -/
def given (m : Machine) : World :=
  ⟨(List.range m.cells.size).map (.given m), (List.range m.environments.size).map (.given m)⟩

section Given

variable {m : Machine}

theorem getElem?_map_range_eq_some {α : Type} {f : Nat → α} {n i : Nat} {a : α} :
    ((List.range n).map f)[i]? = some a ↔ i < n ∧ a = f i := by
  rw [List.getElem?_eq_some_iff]
  simp [eq_comm]

theorem hasSuspension_given {t : ThunkId} {s : Suspension} :
    (given m).HasSuspension t s ↔ t < m.cells.size ∧ s = .given m t :=
  getElem?_map_range_eq_some

theorem hasEnv_given {id : EnvId} {env : Env} :
    (given m).HasEnv id env ↔ id < m.environments.size ∧ env = .given m id :=
  getElem?_map_range_eq_some

/-- **A value is read as itself** if nothing that it refers to is missing. -/
theorem reads_given {v : CallByNeed.Value} (h : m.HasPartsOf v) :
    (given m).Reads v (.given m v) := by
  cases v with
  | integer n => exact .integer n
  | boolean b => exact .boolean b
  | closure param body id => exact .closure param body (hasEnv_given.2 ⟨h, rfl⟩)
  | tuple ts =>
    refine .tuple (List.forall₂_map_right_iff.2 (List.forall₂_same.2 fun t ht => ?_))
    exact hasSuspension_given.2 ⟨h t ht, rfl⟩
  | cons head tail =>
    exact .cons (hasSuspension_given.2 ⟨h.1, rfl⟩) (hasSuspension_given.2 ⟨h.2, rfl⟩)
  | nil => exact .nil

/-- **A machine is consistent with what it stands for itself.** -/
theorem consistent_given (hm : m.Closed) : (given m).Consistent m where
  length_suspensions := by simp [given]
  length_environments := by simp [given]
  holds t s hs := by
    obtain ⟨ht, rfl⟩ := hasSuspension_given.1 hs
    have hcontent := hm.cells t _ ((Machine.cell_eq_iff ht).1 rfl)
    -- an address stands for itself, so that its demand is read off from its cell
    cases hcell : m.cell t with
    | pending e id =>
      rw [hcell] at hcontent
      exact .pending (hasEnv_given.2 ⟨hcontent, rfl⟩) (by simp only [demand, hcell])
    | forcing e id => exact .forcing e id _
    | evaluated v =>
      rw [hcell] at hcontent
      refine .evaluated (reads_given hcontent) ?_
      simp only [demand, hcell]
      exact Plan.yields_pure _
  finds id env henv := by
    obtain ⟨-, rfl⟩ := hasEnv_given.1 henv
    intro name
    rw [Env.lookup]
    cases hlookup : m.environments.lookup id name with
    | none => exact .none
    | some t => exact .some (hasSuspension_given.2 ⟨hm.lookup_lt id hlookup, rfl⟩)

end Given

end World

end CallByNeed.Afresh

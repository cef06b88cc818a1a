import CallByNeed.Proofs.Congruence.Evaluation
import CallByNeed.Proofs.Numbered.References
import CallByNeed.Proofs.Relocation.Independence

/-!
# Paths through data

The parts of a tuple or of a list cell are suspensions again, and a path says which part to go to at
each step (`Machine.follow?`).  Only cells that have been evaluated have parts, and a value stays
once it has been found, so that a path keeps leading to the same cell.

No address of a machine that an interpreter has come to dangles (`Machine.Closed`).  During a run
only the addresses that can be reached matter (`Machine.Grounded`): a demand that succeeds leaves
the value in the cell, and whatever a path leads to is still there (`Grounded.force`).
-/

namespace CallByNeed

/-- The numbers of the parts to go to, one after the other. -/
abbrev Path :=
  List Nat

/-- The suspensions that a value is made of. -/
def Value.parts : Value → List ThunkId
  | tuple ts => ts
  | cons head tail => [head, tail]
  | integer _ | boolean _ | closure .. | nil => []

namespace Machine

/-- The cell that a path leads to, if the cells on the way have been evaluated and have enough
parts. -/
def follow? (m : Machine) (t : ThunkId) : Path → Option ThunkId
  | [] => some t
  | i :: path =>
    match m.cell t with
    | .evaluated v => v.parts[i]?.bind fun u => m.follow? u path
    | _ => none

variable {m n : Machine} {t c : ThunkId} {v : Value} {path : Path}

theorem follow?_cons (h : m.cell t = .evaluated v) (i : Nat) (path : Path) :
    m.follow? t (i :: path) = v.parts[i]?.bind fun u => m.follow? u path := by
  simp only [follow?, h]

/-- A path with a step is followed through a value that has the part. -/
theorem follow?_cons_eq_some {i : Nat} (h : m.follow? t (i :: path) = some c) :
    ∃ v u, m.cell t = .evaluated v ∧ v.parts[i]? = some u ∧ m.follow? u path = some c := by
  unfold follow? at h
  split at h
  · rename_i v hv
    obtain ⟨u, hu, hc⟩ := Option.bind_eq_some_iff.mp h
    exact ⟨v, u, hv, hu, hc⟩
  · cases h

/-- **One step behind a path** goes to a part of the value that it leads to. -/
theorem follow?_append (hc : m.follow? t path = some c) (hv : m.cell c = .evaluated v) (i : Nat) :
    m.follow? t (path ++ [i]) = v.parts[i]? := by
  induction path generalizing t with
  | nil =>
    obtain rfl : t = c := Option.some.inj hc
    rw [List.nil_append, follow?_cons hv]
    cases v.parts[i]? <;> rfl
  | cons j path ih =>
    obtain ⟨w, u, hw, hu, hc⟩ := follow?_cons_eq_some hc
    rw [List.cons_append, follow?_cons hw, hu]
    exact ih hc

/-! ### What stays -/

theorem cell_eq_iff (ht : t < m.cells.size) {cell : Cell} :
    m.cell t = cell ↔ m.cells[t]? = some cell := by
  rw [Machine.cell, Array.getD_eq_getD_getElem?, Array.getElem?_eq_getElem ht]
  simp

/-- A cell with parts has been allocated. -/
theorem lt_size_of_parts {i : Nat} {u : ThunkId} (hv : m.cell t = .evaluated v)
    (hu : v.parts[i]? = some u) : t < m.cells.size := by
  by_contra hge
  rw [cell_of_size_le (Nat.le_of_not_lt hge)] at hv
  cases hv
  simp [Value.parts] at hu

theorem Evolves.cell_of_evaluated (h : m.Evolves n) (ht : t < m.cells.size)
    (hv : m.cell t = .evaluated v) : n.cell t = .evaluated v := by
  have hn := h.evaluated t v ((cell_eq_iff ht).1 hv)
  exact (cell_eq_iff (Array.getElem?_eq_some_iff.mp hn).1).2 hn

/-- **A path keeps leading to the same cell.** -/
theorem Evolves.follow? (h : m.Evolves n) (hc : m.follow? t path = some c) :
    n.follow? t path = some c := by
  induction path generalizing t with
  | nil => exact hc
  | cons i path ih =>
    obtain ⟨v, u, hv, hu, hc⟩ := follow?_cons_eq_some hc
    rw [follow?_cons (h.cell_of_evaluated (lt_size_of_parts hv hu) hv), hu]
    exact ih hc

/-! ### Addresses that are there -/

/-- What the value refers to is in the machine. -/
def HasPartsOf (m : Machine) : Value → Prop
  | .closure _ _ env => env < m.environments.size
  | .tuple ts => ∀ t ∈ ts, t < m.cells.size
  | .cons head tail => head < m.cells.size ∧ tail < m.cells.size
  | .integer _ | .boolean _ | .nil => True

/-- What the cell refers to is in the machine. -/
def HasContentOf (m : Machine) : Cell → Prop
  | .pending _ env | .forcing _ env => env < m.environments.size
  | .evaluated v => m.HasPartsOf v

/-- No address and no environment that the machine refers to is missing. -/
structure Closed (m : Machine) : Prop where
  bindings : ∀ (env : EnvId) frame, m.environments.frames[env]? = some frame →
    ∀ b ∈ frame.bindings, b.2 < m.cells.size
  cells : ∀ (t : ThunkId) cell, m.cells[t]? = some cell → m.HasContentOf cell

/-- With nothing defined, only the cells can refer to something that is missing. -/
theorem closed_of_cells {cells : Array Cell}
    (h : ∀ cell ∈ cells, { initial with cells }.HasContentOf cell) :
    { initial with cells }.Closed := by
  refine ⟨fun env frame hframe b hb => ?_, fun t cell ht => h cell (Array.mem_of_getElem? ht)⟩
  obtain rfl : frame = ⟨none, []⟩ := by
    simpa [initial, Environments.initial] using Array.mem_of_getElem? hframe
  cases hb

/-- **What a name stands for is in the machine.** -/
theorem Closed.lookup_lt (h : m.Closed) (env : EnvId) {name : String}
    (ht : m.environments.lookup env name = some t) : t < m.cells.size := by
  induction env using Nat.strong_induction_on with
  | _ env ih =>
    rw [Environments.lookup] at ht
    split at ht
    · cases ht
    rename_i frame hframe
    split at ht
    · rename_i u hfind
      obtain rfl : u = t := Option.some.inj ht
      obtain ⟨before, behind, heq, -⟩ := List.lookup_eq_some_iff.mp hfind
      exact h.bindings env frame hframe (name, u) (by simp [heq])
    · split at ht
      · cases ht
      · split at ht
        · rename_i hparent
          exact ih _ hparent ht
        · cases ht

/-- Nothing that can be reached from the address is missing: there is a world in which it may be
demanded, and with it all that a demand can come to. -/
def Grounded (m : Machine) (t : ThunkId) : Prop :=
  ∃ w : Congruence.World, w.Consistent (.onlySpans Eq) m m ∧ t ∈ w.live

/-- **In a closed machine everything may be demanded**, and values of its own parts are congruent to
themselves. -/
theorem Closed.exists_world (h : m.Closed) :
    ∃ w : Congruence.World, w.Consistent (.onlySpans Eq) m m ∧
      (∀ t < m.cells.size, t ∈ w.live) ∧
        ∀ v, m.HasPartsOf v → w.Values (.onlySpans Eq) v v := by
  -- the world in which every cell is live, and every environment stands for itself
  let l := Leeway.onlySpans Eq
  let w : Congruence.World := ⟨{u | u < m.cells.size}, m.environments, m.environments⟩
  have hopens {env : EnvId} (henv : env < m.environments.size) : w.Opens Eq env env :=
    ⟨henv, henv, fun _ _ hx => hx ▸ rfl, fun _ _ _ _ hu => h.lookup_lt env hu,
      fun _ _ hx hne => absurd hx hne⟩
  have hself {outer : Naming} (e : Expr) (houter : ∀ x, outer x x) : Expr.Congruent l outer e e :=
    .refl (fun _ => rfl) (fun _ => rfl) e fun x _ => houter x
  have hvalues (v : Value) (hv : m.HasPartsOf v) : w.Values l v v := by
    cases v with
    | integer n => exact .integer n
    | boolean b => exact .boolean b
    | closure param body env =>
      exact .closure (hopens hv) (.refl (fun _ => rfl) (fun _ => rfl) param)
        (hself body (Naming.under_refl rfl fun _ => rfl))
    | tuple ts => exact .tuple hv
    | cons head tail => exact .cons hv.1 hv.2
    | nil => exact .nil
  refine ⟨w, ⟨rfl, rfl, rfl, rfl, ⟨rfl, rfl, rfl⟩, fun u hu => hu, fun u hu => ?_⟩,
    fun t ht => ht, hvalues⟩
  -- a cell refers to parts of the machine only, which stand for themselves
  have hcell := h.cells u (m.cell u) ((cell_eq_iff hu).1 rfl)
  generalize m.cell u = cell at hcell ⊢
  cases cell with
  | pending e env => exact .pending (hopens hcell) (hself e fun _ => rfl)
  | forcing e env => exact .forcing (hopens hcell) (hself e fun _ => rfl)
  | evaluated v => exact .evaluated (hvalues v hcell)

/-- **In a closed machine nothing is missing**, whatever is demanded. -/
theorem Closed.grounded (h : m.Closed) (ht : t < m.cells.size) : m.Grounded t := by
  obtain ⟨w, hw, hlive, -⟩ := h.exists_world
  exact ⟨w, hw, hlive t ht⟩

end Machine

namespace Congruence

variable {l : Leeway} {w : World} {m m' : Machine} {t c : ThunkId} {path : Path}

/-- The parts of congruent values may be demanded. -/
theorem World.Values.live_of_mem_parts {v v' : Value} (h : w.Values l v v') {i : Nat}
    {u : ThunkId} (hu : v.parts[i]? = some u) : u ∈ w.live := by
  have hmem := List.mem_of_getElem? hu
  cases h with
  | tuple hts => exact hts u hmem
  | cons hhead htail =>
    obtain rfl | rfl := List.mem_pair.1 hmem
    · exact hhead
    · exact htail
  | _ => cases hmem

/-- **A path leads to addresses that may be demanded.** -/
theorem World.Consistent.live_of_follow? (h : w.Consistent l m m') (ht : t ∈ w.live)
    (hc : m.follow? t path = some c) : c ∈ w.live := by
  induction path generalizing t with
  | nil => exact Option.some.inj hc ▸ ht
  | cons i path ih =>
    obtain ⟨v, u, hv, hu, hc⟩ := Machine.follow?_cons_eq_some hc
    have hcells := h.cells t ht
    rw [hv] at hcells
    generalize m'.cell t = cell' at hcells
    cases hcells with
    | evaluated hvalues => exact ih (hvalues.live_of_mem_parts hu) hc

end Congruence

/-! ### Demands -/

namespace Machine

variable {config : Config} {levels : Nat} {m n : Machine} {t c : ThunkId} {v : Value} {path : Path}

/-- **A demand that succeeds leaves the value in the cell.** -/
theorem cell_of_force (hc : c < m.cells.size)
    (h : Eval.force (Eval.eval config levels) c m = .ok v n) : n.cell c = .evaluated v := by
  generalize hcell : m.cell c = cell at h
  cases cell with
  | evaluated u =>
    rw [ByName.force_of_evaluated hcell] at h
    cases h
    exact hcell
  | forcing e env =>
    rw [ByName.force_of_forcing hcell] at h
    cases h
  | pending e env =>
    rw [ByName.force_of_pending hcell] at h
    have hkeeps := (Eval.keeps_eval config levels).1 e env (m.setCell c (.forcing e env))
    generalize Eval.eval config levels e env (m.setCell c (.forcing e env)) = r at h hkeeps
    cases r with
    | error err n' => cases h
    | ok u n' =>
      cases h
      -- the cell is still marked when the value has been found
      have hmark : n'.cells[c]? = some (.forcing e env) := by
        refine (Evolves.forcing hkeeps c e env).2 ?_
        simp [setCell, hc]
      exact cell_setCell_self (m := n') (Array.getElem?_eq_some_iff.mp hmark).1

/-- A path leads to a cell that is there. -/
theorem Grounded.lt_size (hm : m.Grounded t) (hc : m.follow? t path = some c) :
    c < m.cells.size := by
  obtain ⟨w, hw, ht⟩ := hm
  exact hw.lt_size c (hw.live_of_follow? ht hc)

/-- **A demand of what a path leads to**, if it succeeds, leaves the value in the cell and nothing
missing. -/
theorem Grounded.force (hm : m.Grounded t) (hc : m.follow? t path = some c)
    (h : Eval.force (Eval.eval config levels) c m = .ok v n) :
    n.Grounded t ∧ n.cell c = .evaluated v ∧ m.Evolves n := by
  obtain ⟨w, hw, ht⟩ := hm
  have hlive := hw.live_of_follow? ht hc
  have hruns := (Congruence.evaluates_eval config levels).1.force hlive m m hw
  have hkeeps := Eval.Keeps.force (Eval.keeps_eval config levels).1 c m
  refine ⟨?_, cell_of_force (hw.lt_size c hlive) h, ?_⟩
  · rw [h] at hruns
    cases hruns with
    | ok hle hn _ => exact ⟨_, hn, hle.1 t ht⟩
  · rw [h] at hkeeps
    exact hkeeps

end Machine

/-- **No machine that an interpreter comes to lacks anything.** -/
theorem Numbered.Reachable.closed {a : Arena} {config : Config} {s : State} {m : CallByNeed.Machine}
    (ha : a.Acyclic) (h : Reachable a config s m) : m.Closed := by
  have hconsistent := h.consistent ha
  have hsound := hconsistent.sound
  have hsame := hconsistent.represents
  refine ⟨fun env frame hframe b hb => ?_, fun t cell ht => ?_⟩
  · rw [hsame.size]
    exact hsound.bindings env frame (hsame.environments ▸ hframe) b hb
  · -- the cell is one of the evaluator by number, which refers to nothing that is missing
    have hlt := (Array.getElem?_eq_some_iff.mp ht).1
    obtain ⟨c, hc, hcell⟩ := hsame.cells t (hsame.size ▸ hlt)
    rw [(Machine.cell_eq_iff hlt).2 ht] at hcell
    have hcontent := hsound.cells t c hc
    have hframes : s.machine.environments.size = m.environments.size :=
      congrArg Environments.size hsame.environments.symm
    cases hcell with
    | pending env he => exact Nat.lt_of_lt_of_eq hcontent.2 hframes
    | forcing env he => exact Nat.lt_of_lt_of_eq hcontent.2 hframes
    | evaluated hv =>
      cases hv with
      | closure env hp hbody => exact Nat.lt_of_lt_of_eq hcontent.2.2 hframes
      | tuple elems => exact fun u hu => hsame.size ▸ hcontent u hu
      | cons head tail => exact ⟨hsame.size ▸ hcontent.1, hsame.size ▸ hcontent.2⟩
      | _ => trivial

end CallByNeed

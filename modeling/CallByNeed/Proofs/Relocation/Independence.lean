import CallByNeed.Proofs.Interpretation.Sharing
import CallByNeed.Proofs.Relocation.Evaluation
import Mathlib.Data.List.Induction

/-!
# An answer does not depend on earlier ones

An interpreter keeps its frames and its cells from one call to the next.  What an expression
evaluates to in the root depends on two things that earlier calls leave behind: on the names that
are visible there and on the counter.  The counter is back at zero after every call, whether or not
it fails, and the names that have been defined keep their values (`Machine.Defines`).  Everything
else that is left behind is only in the way, in that new cells and new frames get other numbers.

So if the visible names stand for numbers, truth values or the empty list, an expression is answered
as by a fresh interpreter in which these names have been defined and nothing else has been done
(`Interpreter.answer_after`).  Where the fresh interpreter keeps what it makes, the other one keeps
the same in another place (`Relocation`).
-/

namespace CallByNeed

/-- A number, a truth value or the empty list. -/
def Value.isScalar : Value → Bool
  | integer _ | boolean _ | nil => true
  | _ => false

/-- Such a value refers to nothing, so that it is the same in every place. -/
theorem Relocation.value_of_isScalar (ρ : Relocation) {v : Value} (h : v.isScalar = true) :
    ρ.value v = v := by
  cases v <;> first | rfl | simp [Value.isScalar] at h

/-! ### Histories -/

namespace Action

/-- The interpreter after an action. -/
def perform (config : Config) (s : Interpreter) : Action → Interpreter
  | call c => (c.run config s).2
  | action => s.onMachine fun m => action.run config m

/-- The definition that an action makes, if it makes one. -/
def definition? : Action → Option (String × Value)
  | define name v => some (name, v)
  | _ => none

/-- The definitions among the actions, the newest first. -/
def definitions (actions : List Action) : Bindings Value :=
  (actions.filterMap definition?).reverse

/-- **An action puts the counter back**, and leaves the machine that the evaluator leaves. -/
theorem perform_spec (config : Config) {s : Interpreter} (hs : s.depth = 0) (action : Action) :
    (perform config s action).depth = 0 ∧
      (perform config s action).machine = action.run config s.machine := by
  cases action with
  | call c =>
    obtain ⟨trail, -, hrun⟩ := c.tracks_counted config s (by rw [hs, Nat.zero_add])
    have hafter : c.run config s = Eval.split (s.resume trail (c.eval config s.machine)) :=
      congrArg Eval.split hrun
    rw [perform, run, hafter]
    cases c.eval config s.machine <;> exact ⟨hs, rfl⟩
  | _ => exact ⟨hs, rfl⟩

end Action

namespace Interpreter

/-- A fresh interpreter. -/
def initial : Interpreter :=
  ⟨.initial, 0, []⟩

/-- The interpreter after some actions. -/
def after (config : Config) (actions : List Action) : Interpreter :=
  actions.foldl (Action.perform config) initial

/-- A fresh interpreter in which some names have been defined, one after the other. -/
def defining (config : Config) (definitions : List (String × Value)) : Interpreter :=
  after config (definitions.map fun (name, v) => .define name v)

/-- Evaluates an expression and prints its value. -/
def answer (config : Config) (e : Expr) (s : Interpreter) : Except EvalError String :=
  (Eval.split ((do render config (← evaluate config e) : Counted String) s)).1

/-- **A history leaves the counter at zero**, and the machine that the evaluator leaves. -/
theorem after_spec (config : Config) (actions : List Action) :
    (after config actions).depth = 0 ∧
      (after config actions).machine = actions.foldl (Action.run config) Machine.initial := by
  have hfrom {s : Interpreter} (hs : s.depth = 0) :
      (actions.foldl (Action.perform config) s).depth = 0 ∧
        (actions.foldl (Action.perform config) s).machine =
          actions.foldl (Action.run config) s.machine := by
    induction actions generalizing s with
    | nil => exact ⟨hs, rfl⟩
    | cons action actions ih =>
      obtain ⟨hdepth, hmachine⟩ := Action.perform_spec config hs action
      rw [List.foldl_cons, List.foldl_cons, ← hmachine]
      exact ih hdepth
  exact hfrom rfl

/-- With the counter at zero the answer is that of the evaluator. -/
theorem answer_eq (config : Config) (e : Expr) {s : Interpreter} (hs : s.depth = 0) :
    s.answer config e =
      (Eval.split ((do Eval.render config (← Eval.evaluate config e)) s.machine)).1 := by
  have heval := tracks_eval config config.maxDepth _ (Nat.lt_succ_self _) e Environments.root
  have hrender := tracks_renderAt config config.maxDepth (Nat.le_refl _) _ (Nat.lt_succ_self _)
  obtain ⟨trail, -, hrun⟩ := heval.bind hrender s (by rw [hs, Nat.zero_add])
  have hanswer : s.answer config e = (Eval.split (s.resume trail
      ((do Eval.render config (← Eval.evaluate config e) : Eval String) s.machine))).1 :=
    congrArg (fun r => (Eval.split r).1) hrun
  rw [hanswer]
  generalize (do Eval.render config (← Eval.evaluate config e) : Eval String) s.machine = r
  cases r <;> rfl

end Interpreter

/-! ### The names in the root -/

theorem Bindings.find?_cons {α : Type} (name : String) (a : α) (bs : Bindings α) (x : String) :
    find? ((name, a) :: bs) x = if x = name then some a else bs.find? x := by
  rw [find?, List.lookup_cons]
  by_cases hx : x = name
  · rw [beq_iff_eq.2 hx, if_pos hx]
  · rw [beq_eq_false_iff_ne.2 hx, if_neg hx, find?]

namespace Environments

variable {α : Type} {envs : Environments α}

/-- In the root only its own names are visible, since no frame is earlier. -/
theorem lookup_root {frame : Frame α} (h : envs.frames[root]? = some frame) (name : String) :
    envs.lookup root name = frame.bindings.find? name := by
  rw [lookup, h]
  simp only
  cases frame.bindings.find? name with
  | some a => rfl
  | none => cases frame.parent <;> rfl

theorem lookup_root_define (h : 0 < envs.size) (name : String) (a : α) (x : String) :
    (envs.define name a).lookup root x = if x = name then some a else envs.lookup root x := by
  have hframe : envs.frames[root]? = some envs.frames[root] := Array.getElem?_eq_getElem h
  have hframe' : (envs.define name a).frames[root]? =
      some { envs.frames[root] with bindings := (name, a) :: envs.frames[root].bindings } := by
    rw [define, Array.getElem?_modify, if_pos rfl, hframe, Option.map_some]
  rw [lookup_root hframe', lookup_root hframe, Bindings.find?_cons]

theorem lookup_root_initial (name : String) :
    (initial : Environments α).lookup root name = none := by
  rw [lookup_root rfl]
  rfl

theorem size_define (name : String) (a : α) : (envs.define name a).size = envs.size :=
  Array.size_modify

end Environments

namespace Machine

theorem cell_of_size_le {m : Machine} {t : Nat} (h : m.cells.size ≤ t) :
    m.cell t = .evaluated .nil := by
  simp [cell, h]

theorem getElem?_allocate {m : Machine} {t : Nat} {c c' : Cell} (h : m.cells[t]? = some c') :
    (m.allocate c).2.cells[t]? = some c' := by
  have hlt : t < m.cells.size := (Array.getElem?_eq_some_iff.1 h).1
  rw [allocate, Array.getElem?_push_lt hlt, ← Array.getElem?_eq_getElem hlt, h]

theorem lookup_root_define {m : Machine} (h : 0 < m.environments.size) (name : String) (v : Value)
    (x : String) : (m.define name v).environments.lookup Environments.root x =
      if x = name then some m.cells.size else m.environments.lookup Environments.root x :=
  Environments.lookup_root_define h name m.cells.size x

/-- What is defined stands in the root, with its values, and nothing else does. -/
structure Defines (m : Machine) (bs : Bindings Value) : Prop where
  root : 0 < m.environments.size
  unbound : ∀ name, bs.find? name = none → m.environments.lookup Environments.root name = none
  bound : ∀ name v, bs.find? name = some v →
    ∃ t : Nat, m.environments.lookup Environments.root name = some t ∧
      m.cells[t]? = some (.evaluated v)

namespace Defines

variable {m m' : Machine} {bs : Bindings Value}

theorem initial : Machine.initial.Defines [] where
  root := Nat.one_pos
  unbound name _ := Environments.lookup_root_initial name
  bound _ _ h := nomatch h

/-- What is defined stays if the names in the root and the values stay. -/
theorem mono (h : m.Defines bs) (hroot : 0 < m'.environments.size)
    (hlookup : ∀ name, m'.environments.lookup Environments.root name =
      m.environments.lookup Environments.root name)
    (hcells : ∀ (t : Nat) v, m.cells[t]? = some (.evaluated v) →
      m'.cells[t]? = some (.evaluated v)) : m'.Defines bs where
  root := hroot
  unbound name hname := (hlookup name).trans (h.unbound name hname)
  bound name v hname := by
    obtain ⟨t, ht, hcell⟩ := h.bound name v hname
    exact ⟨t, (hlookup name).trans ht, hcells t v hcell⟩

/-- **Evaluation keeps what is defined**, whether or not it fails. -/
theorem evolves (h : m.Defines bs) (hm : m.Evolves m') : m'.Defines bs := by
  have hframe : m.environments.frames[Environments.root]? = some _ :=
    Array.getElem?_eq_getElem h.root
  have hframe' := hm.frames _ _ hframe
  refine h.mono (Array.getElem?_eq_some_iff.1 hframe').1 (fun name => ?_) hm.evaluated
  rw [Environments.lookup_root hframe', Environments.lookup_root hframe]

/-- A cell that somebody makes is in nobody's way. -/
theorem allocate (h : m.Defines bs) (c : Cell) : (m.allocate c).2.Defines bs :=
  h.mono h.root (fun _ => rfl) fun _ _ ht => getElem?_allocate ht

/-- **A definition adds its name**, in place of what the name stood for. -/
theorem define (h : m.Defines bs) (name : String) (v : Value) :
    (m.define name v).Defines ((name, v) :: bs) where
  root := by
    rw [Machine.define, Environments.size_define]
    exact h.root
  unbound x hx := by
    rw [Bindings.find?_cons] at hx
    rw [lookup_root_define h.root]
    -- only the name that is defined stands for something else than before
    by_cases hname : x = name
    · rw [if_pos hname] at hx
      cases hx
    · rw [if_neg hname] at hx ⊢
      exact h.unbound x hx
  bound x w hx := by
    rw [Bindings.find?_cons] at hx
    rw [lookup_root_define h.root]
    by_cases hname : x = name
    · rw [if_pos hname] at hx ⊢
      obtain rfl := Option.some.inj hx
      exact ⟨m.cells.size, rfl, Array.getElem?_push_size⟩
    · rw [if_neg hname] at hx ⊢
      obtain ⟨t, ht, hcell⟩ := h.bound x w hx
      exact ⟨t, ht, getElem?_allocate hcell⟩

/-- **An action keeps what is defined**, up to the definition that it makes itself. -/
theorem run (h : m.Defines bs) (config : Config) (action : Action) :
    (action.run config m).Defines (action.definition?.toList ++ bs) := by
  cases action with
  | call c => exact h.evolves (c.keeps_eval config m)
  | define name v => exact h.define name v
  | suspend e env => exact h.allocate (.pending e env)
  | hold v => exact h.allocate (.evaluated v)

/-- **After a history the definitions in it stand in the root**, the newest of each name, and
nothing else does. -/
theorem foldl (config : Config) (actions : List Action) :
    (actions.foldl (Action.run config) Machine.initial).Defines (Action.definitions actions) := by
  induction actions using List.reverseRecOn with
  | nil => exact initial
  | append_singleton actions action ih =>
    have hdefinitions : Action.definitions (actions ++ [action]) =
        action.definition?.toList ++ Action.definitions actions := by
      rw [Action.definitions, List.filterMap_append, List.reverse_append, Action.definitions]
      cases action <;> rfl
    rw [List.foldl_append, hdefinitions]
    exact ih.run config action

end Defines

/-! ### A machine in which names are defined and nothing else is done -/

/-- The machine has been used for these definitions and for nothing else. -/
structure Fresh (m : Machine) (defs : List (String × Value)) : Prop where
  cells : m.cells = (defs.map fun d => Cell.evaluated d.2).toArray
  frames : m.environments.size = 1
  bound : ∀ d ∈ defs, (m.environments.lookup Environments.root d.1).isSome
  /-- A name stands for the value of one of its definitions. -/
  names : ∀ (name : String) (t : Nat), m.environments.lookup Environments.root name = some t →
    ∃ v, defs[t]? = some (name, v)

namespace Fresh

variable {m : Machine} {defs : List (String × Value)}

theorem initial : Machine.initial.Fresh [] where
  cells := rfl
  frames := rfl
  bound _ h := nomatch h
  names name _ h := nomatch (Environments.lookup_root_initial name).symm.trans h

theorem root (h : m.Fresh defs) : 0 < m.environments.size := by
  rw [h.frames]
  exact Nat.one_pos

theorem size (h : m.Fresh defs) : m.cells.size = defs.length := by
  rw [h.cells, List.size_toArray, List.length_map]

theorem cell (h : m.Fresh defs) {t : Nat} {d : String × Value} (ht : defs[t]? = some d) :
    m.cell t = .evaluated d.2 := by
  simp [Machine.cell, h.cells, ht]

theorem define (h : m.Fresh defs) (name : String) (v : Value) :
    (m.define name v).Fresh (defs ++ [(name, v)]) where
  cells := by
    rw [Machine.define, allocate, h.cells, List.push_toArray, List.map_append]
    rfl
  frames := by
    rw [Machine.define, Environments.size_define]
    exact h.frames
  bound d hd := by
    rw [lookup_root_define h.root]
    -- an earlier definition keeps its cell if it is of another name
    by_cases hname : d.1 = name
    · rw [if_pos hname]
      rfl
    · rw [if_neg hname]
      rcases List.mem_append.1 hd with hd | hd
      · exact h.bound d hd
      · exact absurd (congrArg Prod.fst (List.mem_singleton.1 hd)) hname
  names x t ht := by
    rw [lookup_root_define h.root, h.size] at ht
    by_cases hname : x = name
    · rw [if_pos hname] at ht
      obtain rfl := Option.some.inj ht
      exact ⟨v, by rw [List.getElem?_concat_length, hname]⟩
    · rw [if_neg hname] at ht
      obtain ⟨w, hw⟩ := h.names x t ht
      exact ⟨w, List.getElem?_append_left (List.getElem?_eq_some_iff.1 hw).1 ▸ hw⟩

/-- **A machine in which names are defined one after the other** holds their values in this
order. -/
theorem foldl (config : Config) (defs : List (String × Value)) :
    ((defs.map fun (name, v) => Action.define name v).foldl (Action.run config)
      Machine.initial).Fresh defs := by
  induction defs using List.reverseRecOn with
  | nil => exact initial
  | append_singleton defs d ih =>
    rw [List.map_append, List.foldl_append]
    exact ih.define d.1 d.2

end Fresh

end Machine

/-! ### The same answers -/

namespace Relocation

theorem Agree.split_fst {ρ : Relocation} {α : Type} {r r' : EStateM.Result EvalError Machine α}
    (h : ρ.Agree id r r') : (Eval.split r).1 = (Eval.split r').1 := by
  cases h with
  | ok _ hb => exact congrArg Except.ok hb.symm
  | error e => rfl

variable {m m' : Machine} {bs : Bindings Value} {defs : List (String × Value)}
  (h : m'.Defines bs) (hdefs : ∀ name v, (name, v) ∈ defs ↔ bs.find? name = some v)

/-- The places of a fresh machine in another one: each name where it is defined there, and what is
new behind what there is. -/
def behind : Relocation where
  kept := defs.map fun d => (m'.environments.lookup Environments.root d.1).getD 0
  cells := m'.cells.size
  frames := m'.environments.size
  lt_cells t ht := by
    obtain ⟨⟨name, v⟩, hmem, rfl⟩ := List.mem_map.1 ht
    obtain ⟨u, hu, hcell⟩ := h.bound name v ((hdefs name v).1 hmem)
    simp only [hu, Option.getD_some]
    exact (Array.getElem?_eq_some_iff.1 hcell).1
  frames_pos := h.root

/-- **What has been defined is found where its name is**, with its value. -/
theorem thunk_behind {t : Nat} {name : String} {v : Value} (ht : defs[t]? = some (name, v)) :
    m'.environments.lookup Environments.root name = some ((behind h hdefs).thunk t) ∧
      m'.cell ((behind h hdefs).thunk t) = .evaluated v := by
  obtain ⟨u, hu, hcell⟩ := h.bound name v ((hdefs name v).1 (List.mem_of_getElem? ht))
  have hthunk : (behind h hdefs).thunk t = u := by
    simp only [thunk, behind, List.getElem?_map, ht, hu, Option.map_some, Option.getD_some]
  rw [hthunk, Machine.cell, Array.getD_eq_getD_getElem?, hcell]
  exact ⟨hu, rfl⟩

/-- Everything else is behind what there is. -/
theorem thunk_behind_of_le {t : Nat} (ht : defs.length ≤ t) :
    (behind h hdefs).thunk t = t - defs.length + m'.cells.size := by
  have hlength : (behind h hdefs).kept.length = defs.length := List.length_map _
  rw [thunk_of_le _ (by rwa [hlength]), hlength]
  rfl

/-- The names in the root are the same, each in its place. -/
theorem lookup_root_behind (hfresh : m.Fresh defs) (name : String) :
    m'.environments.lookup Environments.root name =
      (m.environments.lookup Environments.root name).map (behind h hdefs).thunk := by
  cases hlookup : m.environments.lookup Environments.root name with
  | some t =>
    obtain ⟨v, hv⟩ := hfresh.names name t hlookup
    exact (thunk_behind h hdefs hv).1
  | none =>
    refine h.unbound name (Option.eq_none_iff_forall_ne_some.2 fun v hv => ?_)
    have hbound := hfresh.bound (name, v) ((hdefs name v).2 hv)
    rw [hlookup] at hbound
    cases hbound

/-- **A machine in which the same names are defined holds what a fresh one holds.** -/
theorem relocates_behind (hfresh : m.Fresh defs) (hscalar : ∀ d ∈ defs, d.2.isScalar = true) :
    (behind h hdefs).Relocates m m' where
  kept_le := by
    rw [hfresh.size]
    exact Nat.le_of_eq (List.length_map _)
  kept t ht := by
    have hlt : t < defs.length := Nat.lt_of_lt_of_eq ht (List.length_map _)
    exact ⟨_, hfresh.cell (List.getElem?_eq_getElem hlt)⟩
  cell t := by
    cases hd : defs[t]? with
    | some d =>
      have hvalue := value_of_isScalar (behind h hdefs) (hscalar d (List.mem_of_getElem? hd))
      rw [hfresh.cell hd, (thunk_behind h hdefs hd).2, cell, hvalue]
    | none =>
      -- behind the cells both machines read the same
      have hle : defs.length ≤ t := List.getElem?_eq_none_iff.1 hd
      rw [thunk_behind_of_le h hdefs hle, Machine.cell_of_size_le (Nat.le_add_left _ _),
        Machine.cell_of_size_le (hfresh.size ▸ hle)]
      rfl
  cells := by
    rw [hfresh.size, thunk_behind_of_le h hdefs (Nat.le_refl _), Nat.sub_self, Nat.zero_add]
  lookup (id : Nat) name := by
    cases id with
    | zero => exact lookup_root_behind h hdefs hfresh name
    | succ id =>
      have hle : m'.environments.size ≤ (behind h hdefs).env (id + 1) := Nat.le_add_left _ id
      rw [Environments.lookup_of_size_le hle,
        Environments.lookup_of_size_le (hfresh.frames ▸ Nat.le_add_left 1 id)]
      rfl
  frames := by
    rw [hfresh.frames]
    exact (Nat.zero_add _).symm
  root := hfresh.root

end Relocation

namespace Interpreter

/-- **An answer does not depend on earlier ones.**  Whatever has been done with an interpreter, an
expression is answered, with a text or with an error, as by a fresh interpreter in which the names
that are visible have been defined, in any order, and nothing else has been done. -/
theorem answer_after (config : Config) (actions : List Action) (defs : List (String × Value))
    (hdefs : ∀ name v, (name, v) ∈ defs ↔ (Action.definitions actions).find? name = some v)
    (hscalar : ∀ d ∈ defs, d.2.isScalar = true) (e : Expr) :
    (after config actions).answer config e = (defining config defs).answer config e := by
  obtain ⟨hdepth, hmachine⟩ := after_spec config actions
  obtain ⟨hdepth', hmachine'⟩ :=
    after_spec config (defs.map fun (name, v) => Action.define name v)
  rw [answer_eq config e hdepth, hmachine, defining, answer_eq config e hdepth', hmachine']
  have hm := Relocation.relocates_behind (Machine.Defines.foldl config actions) hdefs
    (Machine.Fresh.foldl config defs) hscalar
  exact (Relocation.runs_program config e _ _ hm).split_fst.symm

/-- `n` is defined twice and `b` once; in between, `(\x -> x + true) n` fails inside the body and so
does the demand for a suspended `b`, which succeeds later and is matched.  Then `(b, n * 2)` and
`n + b` are asked for. -/
theorem answer_after_retried :
    let name (x : String) : Expr := .identifier .unknown x
    let failing : Expr := .apply .unknown (.lambda .unknown (.bind .unknown "x")
      (.binary .unknown .add (name "x") (.boolean .unknown true))) (name "n")
    let actions : List Action := [.define "n" (.integer 1), .call (.evaluate failing),
      .suspend (name "b") 0, .call (.force 1), .define "b" (.boolean true), .call (.force 1),
      .define "n" (.integer 5), .call (.bindMatch (.bind .unknown "y") 1 []),
      .call (.render (.tuple [1]))]
    let defs : List (String × Value) := [("b", .boolean true), ("n", .integer 5)]
    let pair : Expr :=
      .tuple .unknown [name "b", .binary .unknown .mul (name "n") (.integer .unknown 2)]
    let sum : Expr := .binary .unknown .add (name "n") (name "b")
    ((∀ x v, (x, v) ∈ defs ↔ (Action.definitions actions).find? x = some v) ∧
        ∀ d ∈ defs, d.2.isScalar = true) ∧
      ((after {} actions).answer {} pair = .ok "(true, 10)" ∧
        (defining {} defs).answer {} pair = .ok "(true, 10)") ∧
      (after {} actions).answer {} sum = (defining {} defs).answer {} sum := by
  intro name failing actions defs pair sum
  have hdefs (x : String) (v : Value) :
      (x, v) ∈ defs ↔ (Action.definitions actions).find? x = some v := by
    have hdefinitions : Action.definitions actions =
        [("n", .integer 5), ("b", .boolean true), ("n", .integer 1)] := rfl
    simp only [hdefinitions, Bindings.find?_cons, defs, List.mem_cons, Prod.mk.injEq]
    -- the latest definition of each name is the one that counts
    by_cases hn : x = "n"
    · simp [hn, eq_comm]
    · by_cases hb : x = "b" <;> simp [hn, hb, eq_comm, Bindings.find?]
  have hscalar : ∀ d ∈ defs, d.2.isScalar = true := by decide
  have hanswer : (after {} actions).answer {} pair = .ok "(true, 10)" := by decide +kernel
  have hafter := answer_after {} actions defs hdefs hscalar
  exact ⟨⟨hdefs, hscalar⟩, ⟨hanswer, hafter pair ▸ hanswer⟩, hafter sum⟩

end Interpreter

end CallByNeed

import CallByNeed.Proofs.ByName.World
import CallByNeed.Proofs.Numbered.Evaluator
import CallByNeed.Proofs.Relocation.Independence

/-!
# What names stand for

Frames are pushed on frames that are there already, and names are defined in the root.  So in every
history of these changes parents are older than their children (`Environments.Ordered`), and the
chain of an environment is finite and ends with the root (`Ordered.exists_chain`).

A search for a name that follows the chain comes to its end, and finds the nearest binding
(`Chain.search_eq`, `Ordered.lookup_eq`).  What is pushed later is on no chain that was there
before, and what is defined later is found only by a search that comes to the root and asks for
that very name (`Ordered.lookup_define`).
-/

namespace CallByNeed.Environments

variable {α : Type}

/-! ### Histories -/

/-- What is done to environments. -/
inductive Change (α : Type) where
  | push (parent : EnvId) (bindings : Bindings α)
  /-- The bindings may refer to the frame that is pushed. -/
  | pushWith (parent : EnvId) (bindings : EnvId → Bindings α)
  | define (name : String) (value : α)

/-- The environments behind a change, if the frame that it pushes on is there. -/
def change (envs : Environments α) : Change α → Option (Environments α)
  | .push parent bindings =>
    if parent < envs.size then some (envs.push parent bindings).2 else none
  | .pushWith parent bindings =>
    if parent < envs.size then some (envs.pushWith parent bindings).2 else none
  | .define name value => some (envs.define name value)

/-- The environments behind several changes, one after the other. -/
def run (envs : Environments α) (changes : List (Change α)) : Option (Environments α) :=
  changes.foldlM change envs

/-- Parents are older than their children, and only the root has none. -/
structure Ordered (envs : Environments α) : Prop where
  top : ∃ frame, envs.frames[root]? = some frame ∧ frame.parent = none
  older : ∀ (id : EnvId) (frame : Frame α), envs.frames[id]? = some frame → id ≠ root →
    ∃ parent, frame.parent = some parent ∧ parent < id

theorem ordered_initial : (initial : Environments α).Ordered where
  top := ⟨_, rfl, rfl⟩
  older := by
    intro id frame hframe hid
    have hlt : id < 1 := (Array.getElem?_eq_some_iff.1 hframe).1
    exact absurd (Nat.lt_one_iff.1 hlt) hid

section Ordered

variable {envs envs' : Environments α} {parent : EnvId} {bindings : Bindings α}

theorem Ordered.size_pos (h : envs.Ordered) : 0 < envs.size := by
  obtain ⟨frame, hframe, -⟩ := h.top
  exact (Array.getElem?_eq_some_iff.1 hframe).1

theorem getElem?_push (id : EnvId) : (envs.push parent bindings).2.frames[id]? =
    if id = envs.size then some ⟨some parent, bindings⟩ else envs.frames[id]? :=
  Array.getElem?_push

theorem Ordered.push (h : envs.Ordered) (hparent : parent < envs.size) :
    (envs.push parent bindings).2.Ordered := by
  constructor
  · have hne : root ≠ envs.size := Nat.ne_of_lt h.size_pos
    rw [getElem?_push, if_neg hne]
    exact h.top
  · intro id frame hframe hid
    rw [getElem?_push] at hframe
    by_cases hlast : id = envs.size
    · rw [if_pos hlast] at hframe
      obtain rfl := Option.some.inj hframe
      exact ⟨parent, rfl, hlast ▸ hparent⟩
    · rw [if_neg hlast] at hframe
      exact h.older id frame hframe hid

/-- What is defined in the root is bound there, and nowhere else. -/
theorem getElem?_define (name : String) (value : α) (id : EnvId) :
    (envs.define name value).frames[id]? = (envs.frames[id]?).map fun frame =>
      if id = root then { frame with bindings := (name, value) :: frame.bindings } else frame := by
  unfold define
  rw [Array.getElem?_modify]
  by_cases hid : id = root
  · rw [if_pos hid.symm]
    simp only [if_pos hid]
  · rw [if_neg (Ne.symm hid)]
    simp only [if_neg hid, Option.map_id']

theorem exists_of_getElem?_define {name : String} {value : α} {id : EnvId} {frame : Frame α}
    (hframe : (envs.define name value).frames[id]? = some frame) :
    ∃ before, envs.frames[id]? = some before ∧ before.parent = frame.parent := by
  rw [getElem?_define, Option.map_eq_some_iff] at hframe
  obtain ⟨before, hbefore, rfl⟩ := hframe
  refine ⟨before, hbefore, ?_⟩
  split <;> rfl

theorem Ordered.define (h : envs.Ordered) (name : String) (value : α) :
    (envs.define name value).Ordered := by
  constructor
  · obtain ⟨frame, hframe, hparent⟩ := h.top
    refine ⟨{ frame with bindings := (name, value) :: frame.bindings }, ?_, hparent⟩
    rw [getElem?_define, hframe, Option.map_some, if_pos rfl]
  · intro id frame hframe hid
    obtain ⟨before, hbefore, hparent⟩ := exists_of_getElem?_define hframe
    rw [← hparent]
    exact h.older id before hbefore hid

/-- **A change keeps the order of the frames.** -/
theorem Ordered.change {c : Change α} (h : envs.Ordered) (hc : envs.change c = some envs') :
    envs'.Ordered := by
  cases c with
  | push parent bindings =>
    obtain ⟨hparent, rfl⟩ : parent < envs.size ∧ (envs.push parent bindings).2 = envs' := by
      simpa [Environments.change] using hc
    exact h.push hparent
  | pushWith parent bindings =>
    obtain ⟨hparent, rfl⟩ : parent < envs.size ∧ (envs.pushWith parent bindings).2 = envs' := by
      simpa [Environments.change] using hc
    exact h.push hparent
  | define name value =>
    obtain rfl : envs.define name value = envs' := Option.some.inj hc
    exact h.define name value

/-- **In every history parents are older than their children.** -/
theorem Ordered.run {changes : List (Change α)} (h : envs.Ordered)
    (hrun : envs.run changes = some envs') : envs'.Ordered := by
  induction changes generalizing envs with
  | nil =>
    obtain rfl : envs = envs' := Option.some.inj hrun
    exact h
  | cons c changes ih =>
    obtain ⟨next, hnext, hrest⟩ : ∃ next, envs.change c = some next ∧
        next.run changes = some envs' := by
      simpa [Environments.run, Option.bind_eq_some_iff] using hrun
    exact ih (h.change hnext) hrest

end Ordered

/-! ### Chains -/

/-- What the frame itself binds a name to. -/
def own? (envs : Environments α) (name : String) (id : EnvId) : Option α :=
  (envs.frames[id]?).bind (·.bindings.find? name)

/-- The chain of an environment: the frames that are met when parents are followed, up to one
without a parent. -/
inductive Chain (envs : Environments α) : EnvId → List EnvId → Prop where
  | last {env : EnvId} {frame : Frame α} (hframe : envs.frames[env]? = some frame)
    (hparent : frame.parent = none) : Chain envs env [env]
  | link {env parent : EnvId} {frame : Frame α} {ids : List EnvId}
    (hframe : envs.frames[env]? = some frame) (hparent : frame.parent = some parent)
    (h : Chain envs parent ids) : Chain envs env (env :: ids)

section Chain

variable {envs : Environments α} {env : EnvId} {chain : List EnvId}

theorem own?_of_getElem? {frame : Frame α} (hframe : envs.frames[env]? = some frame)
    (name : String) : envs.own? name env = frame.bindings.find? name := by
  rw [own?, hframe, Option.bind_some]

/-- **Every environment has a chain**, since indices fall along it. -/
theorem Ordered.exists_chain (h : envs.Ordered) (henv : env < envs.size) :
    ∃ chain, envs.Chain env chain := by
  induction env using Nat.strongRecOn with
  | _ env ih =>
    have hframe : envs.frames[env]? = some envs.frames[env] := Array.getElem?_eq_getElem henv
    by_cases hroot : env = root
    · obtain ⟨frame, hframe, hparent⟩ := h.top
      rw [← hroot] at hframe
      exact ⟨[env], .last hframe hparent⟩
    · obtain ⟨parent, hparent, hlt⟩ := h.older env _ hframe hroot
      obtain ⟨ids, hids⟩ := ih parent hlt (Nat.lt_trans hlt henv)
      exact ⟨env :: ids, .link hframe hparent hids⟩

/-- **A search ends with the chain**, and finds what the first frame that binds the name says. -/
theorem Chain.search_eq (h : envs.Chain env chain) (name : String) {room : Nat}
    (hroom : chain.length ≤ room) :
    envs.search name room env = some (chain.findSome? (envs.own? name)) := by
  induction h generalizing room with
  | @last env frame hframe hparent =>
    obtain ⟨room, rfl⟩ : ∃ n, room = n + 1 := ⟨room - 1, by simp at hroom; omega⟩
    rw [search, hframe, List.findSome?_singleton, own?_of_getElem? hframe]
    dsimp only
    rw [hparent]
    -- the last frame of the chain has no parent to go on with
    cases frame.bindings.find? name <;> rfl
  | @link env parent frame ids hframe hparent _ ih =>
    obtain ⟨room, rfl⟩ : ∃ n, room = n + 1 := ⟨room - 1, by simp at hroom; omega⟩
    have hrest : ids.length ≤ room := by
      rw [List.length_cons] at hroom
      omega
    rw [search, hframe, List.findSome?_cons, own?_of_getElem? hframe]
    dsimp only
    rw [hparent]
    -- a frame that binds the name ends both searches, and another one hands them on to its parent
    cases frame.bindings.find? name with
    | some value => rfl
    | none => exact ih hrest

/-- **What a name stands for is its nearest binding.** -/
theorem Ordered.lookup_eq (h : envs.Ordered) (hchain : envs.Chain env chain) (name : String) :
    envs.lookup env name = chain.findSome? (envs.own? name) := by
  induction hchain with
  | @last env frame hframe hparent =>
    rw [lookup, hframe, List.findSome?_singleton, own?_of_getElem? hframe]
    dsimp only
    rw [hparent]
    cases frame.bindings.find? name <;> rfl
  | @link env parent frame ids hframe hparent _ ih =>
    -- the parent is older, so that the search goes on
    have hlt : parent < env := by
      by_cases hroot : env = root
      · obtain ⟨frame', hframe', hnone⟩ := h.top
        obtain rfl : frame = frame' := Option.some.inj (hframe.symm.trans (hroot ▸ hframe'))
        rw [hparent] at hnone
        cases hnone
      · obtain ⟨parent', hparent', hlt⟩ := h.older env frame hframe hroot
        obtain rfl : parent = parent' := Option.some.inj (hparent.symm.trans hparent')
        exact hlt
    rw [lookup, hframe, List.findSome?_cons, own?_of_getElem? hframe]
    dsimp only
    rw [hparent]
    cases frame.bindings.find? name with
    | some value => rfl
    | none =>
      dsimp only
      rw [if_pos hlt]
      exact ih

/-- **A chain ends with the root**, which stands nowhere else in it. -/
theorem Ordered.exists_concat (h : envs.Ordered) (hchain : envs.Chain env chain) :
    ∃ below, chain = below ++ [root] ∧ root ∉ below := by
  induction hchain with
  | @last env frame hframe hparent =>
    -- only the root has no parent
    have hroot : env = root := by
      by_contra hne
      obtain ⟨parent, hparent', -⟩ := h.older env frame hframe hne
      rw [hparent] at hparent'
      cases hparent'
    exact ⟨[], by rw [hroot]; rfl, List.not_mem_nil⟩
  | @link env parent frame ids hframe hparent _ ih =>
    obtain ⟨below, rfl, hbelow⟩ := ih
    -- an environment with a parent is not the root
    have hne : root ≠ env := by
      rintro rfl
      obtain ⟨frame', hframe', hnone⟩ := h.top
      obtain rfl : frame = frame' := Option.some.inj (hframe.symm.trans hframe')
      rw [hparent] at hnone
      cases hnone
    refine ⟨env :: below, rfl, ?_⟩
    simp [hne, hbelow]

/-! ### Later changes -/

/-- A frame that is pushed is on no chain that is there already. -/
theorem Chain.push (h : envs.Chain env chain) (parent : EnvId) (bindings : Bindings α) :
    (envs.push parent bindings).2.Chain env chain := by
  have hkept {id : EnvId} {frame : Frame α} (hframe : envs.frames[id]? = some frame) :
      (envs.push parent bindings).2.frames[id]? = some frame := by
    have hlt : id < envs.size := (Array.getElem?_eq_some_iff.1 hframe).1
    rw [getElem?_push, if_neg (Nat.ne_of_lt hlt)]
    exact hframe
  induction h with
  | last hframe hparent => exact .last (hkept hframe) hparent
  | link hframe hparent _ ih => exact .link (hkept hframe) hparent ih

/-- A definition changes no chain. -/
theorem Chain.define (h : envs.Chain env chain) (name : String) (value : α) :
    (envs.define name value).Chain env chain := by
  induction h with
  | @last env frame hframe hparent =>
    refine .last (getElem?_define name value env ▸ congrArg (Option.map _) hframe) ?_
    split
    · exact hparent
    · exact hparent
  | @link env parent frame ids hframe hparent _ ih =>
    refine .link (getElem?_define name value env ▸ congrArg (Option.map _) hframe) ?_ ih
    split
    · exact hparent
    · exact hparent

/-- **No change changes a chain.** -/
theorem Chain.change {envs' : Environments α} {c : Change α} (h : envs.Chain env chain)
    (hc : envs.change c = some envs') : envs'.Chain env chain := by
  cases c with
  | push parent bindings =>
    obtain ⟨-, rfl⟩ : parent < envs.size ∧ (envs.push parent bindings).2 = envs' := by
      simpa [Environments.change] using hc
    exact h.push parent bindings
  | pushWith parent bindings =>
    obtain ⟨-, rfl⟩ : parent < envs.size ∧ (envs.pushWith parent bindings).2 = envs' := by
      simpa [Environments.change] using hc
    exact h.push parent _
  | define name value =>
    obtain rfl : envs.define name value = envs' := Option.some.inj hc
    exact h.define name value

theorem Chain.run {envs' : Environments α} {changes : List (Change α)} (h : envs.Chain env chain)
    (hrun : envs.run changes = some envs') : envs'.Chain env chain := by
  induction changes generalizing envs with
  | nil =>
    obtain rfl : envs = envs' := Option.some.inj hrun
    exact h
  | cons c changes ih =>
    obtain ⟨next, hnext, hrest⟩ : ∃ next, envs.change c = some next ∧
        next.run changes = some envs' := by
      simpa [Environments.run, Option.bind_eq_some_iff] using hrun
    exact ih (h.change hnext) hrest

theorem Chain.lt_size (h : envs.Chain env chain) : env < envs.size := by
  cases h with
  | last hframe => exact (Array.getElem?_eq_some_iff.1 hframe).1
  | link hframe => exact (Array.getElem?_eq_some_iff.1 hframe).1

theorem own?_define_of_ne {id : EnvId} (hid : id ≠ root) (name : String) (value : α) (x : String) :
    (envs.define name value).own? x id = envs.own? x id := by
  unfold own?
  rw [getElem?_define]
  simp only [if_neg hid, Option.map_id']

theorem Ordered.own?_define_root (h : envs.Ordered) (name : String) (value : α) (x : String) :
    (envs.define name value).own? x root = if x = name then some value else envs.own? x root := by
  obtain ⟨frame, hframe, -⟩ := h.top
  unfold own?
  rw [getElem?_define, hframe, Option.map_some, if_pos rfl, Option.bind_some, Option.bind_some,
    Bindings.find?_cons]

/-- **A definition is found where nothing nearer is**, and only by its name. -/
theorem Ordered.lookup_define (h : envs.Ordered) (hchain : envs.Chain env chain) (name : String)
    (value : α) (x : String) :
    (envs.define name value).lookup env x =
      if name = x ∧ ∀ id ∈ chain, id ≠ root → envs.own? x id = none then some value
      else envs.lookup env x := by
  rw [(h.define name value).lookup_eq (hchain.define name value), h.lookup_eq hchain]
  obtain ⟨below, rfl, hbelow⟩ := h.exists_concat hchain
  -- in front of the root a definition changes nothing
  have hsame : below.findSome? ((envs.define name value).own? x) =
      below.findSome? (envs.own? x) := by
    rw [← List.head?_filterMap, ← List.head?_filterMap]
    refine congrArg List.head? (List.filterMap_congr fun id hid => ?_)
    exact own?_define_of_ne (fun hroot => hbelow (hroot ▸ hid)) name value x
  have hnearer : (∀ id ∈ below ++ [root], id ≠ root → envs.own? x id = none) ↔
      below.findSome? (envs.own? x) = none := by
    rw [List.findSome?_eq_none_iff]
    constructor
    · intro hnone id hid
      exact hnone id (List.mem_append_left _ hid) fun hroot => hbelow (hroot ▸ hid)
    · intro hnone id hid hne
      rcases List.mem_append.1 hid with hid | hid
      · exact hnone id hid
      · exact absurd (List.mem_singleton.1 hid) hne
  rw [List.findSome?_append, List.findSome?_append, hsame, List.findSome?_singleton,
    List.findSome?_singleton, h.own?_define_root]
  cases hfound : below.findSome? (envs.own? x) with
  | some found =>
    -- a nearer frame has the name, so that the definition is hidden
    have hnot : ¬ ∀ id ∈ below ++ [root], id ≠ root → envs.own? x id = none := by
      rw [hnearer, hfound]
      exact Option.some_ne_none found
    rw [Option.some_or, Option.some_or, if_neg fun hboth => hnot hboth.2]
  | none =>
    rw [Option.none_or]
    by_cases hname : name = x
    · rw [if_pos hname.symm, if_pos ⟨hname, hnearer.2 hfound⟩]
    · rw [if_neg (Ne.symm hname), if_neg fun hboth => hname hboth.1, Option.none_or]

end Chain

/-! ### Whole histories -/

/-- **A name stands for its nearest binding, and goes on doing so.**  In every history a search for
a name along the chain of an environment ends, within the frames that are there, and finds the
binding in the first frame that has one.  Whatever has happened since, the chain is the same, a
frame that is pushed changes nothing, and a definition is found exactly if it is one of the name
and no frame in front of the root binds that. -/
theorem lookup_nearest {changes : List (Change α)} {envs : Environments α}
    (h : initial.run changes = some envs) {env : EnvId} (henv : env < envs.size) (x : String) :
    ∃ chain, envs.Chain env chain ∧
      (∀ room, chain.length ≤ room → envs.search x room env = some (envs.lookup env x)) ∧
      envs.lookup env x = chain.findSome? (envs.own? x) ∧
      ∀ later envs', envs.run later = some envs' →
        envs'.Chain env chain ∧
        (∀ parent bindings, (envs'.push parent bindings).2.lookup env x = envs'.lookup env x) ∧
        (∀ parent bindings,
          (envs'.pushWith parent bindings).2.lookup env x = envs'.lookup env x) ∧
        ∀ name value, (envs'.define name value).lookup env x =
          if name = x ∧ ∀ id ∈ chain, id ≠ root → envs'.own? x id = none then some value
          else envs'.lookup env x := by
  have hordered := ordered_initial.run h
  obtain ⟨chain, hchain⟩ := hordered.exists_chain henv
  have hlookup := hordered.lookup_eq hchain x
  refine ⟨chain, hchain, ?_, hlookup, ?_⟩
  · -- a search in the environments as they are
    intro room hroom
    rw [hlookup]
    exact hchain.search_eq x hroom
  · -- the same after any further changes, which leave the chain as it is
    intro later envs' hlater
    have hchain' := hchain.run hlater
    refine ⟨hchain', ?_, ?_, ?_⟩
    · exact fun _ _ => lookup_push_of_lt hchain'.lt_size x
    · exact fun _ _ => lookup_push_of_lt hchain'.lt_size x
    · exact fun name value => (hordered.run hlater).lookup_define hchain' name value x

/-- A frame that refers to itself, on one that hides a name, on the root; then the names are defined
anew. -/
theorem lookup_nearest_hidden :
    let changes : List (Change Nat) := [.define "x" 1, .define "y" 2, .push root [("y", 3)],
      .pushWith 1 fun id => [("self", id)]]
    ∃ envs, initial.run changes = some envs ∧ 2 < envs.size ∧
      (envs.lookup 2 "self", envs.lookup 2 "x", envs.lookup 2 "y", envs.lookup 2 "z") =
        (some 2, some 1, some 3, none) ∧
      (envs.define "x" 4).lookup 2 "x" = some 4 ∧
      (envs.define "y" 4).lookup 2 "y" = some 3 ∧
      ∃ chain, envs.Chain 2 chain ∧ envs.lookup 2 "y" = chain.findSome? (envs.own? "y") := by
  intro changes
  let envs : Environments Nat :=
    ⟨#[⟨none, [("y", 2), ("x", 1)]⟩, ⟨some 0, [("y", 3)]⟩, ⟨some 1, [("self", 2)]⟩]⟩
  have hrun : initial.run changes = some envs := rfl
  have hsize : 2 < envs.size := by decide
  obtain ⟨chain, hchain, -, hlookup, -⟩ := lookup_nearest hrun hsize "y"
  refine ⟨envs, hrun, hsize, ?_, ?_, ?_, chain, hchain, hlookup⟩
  · decide +kernel
  · decide +kernel
  · decide +kernel

end CallByNeed.Environments

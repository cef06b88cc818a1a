import CallByNeed.Proofs.Matching.Paths
import CallByNeed.Proofs.Names

/-!
# What a match binds

A match visits the sub-patterns of a pattern in preorder: a pattern comes in front of its parts, and
the parts come from left to right (`Pattern.nodes`).  Each of them is matched, without its parts,
against the cell that its path leads to.  A name is bound to that cell as it is, and a literal, a
tuple, a list cell or the empty list demands the value of it.  The match ends at the first visit
that fails (`Matching.Visits`).

So the sub-patterns visited so far tell what the match has done (`Matching.Fitted`,
`Matching.Forced`), and a visit that ends the match tells why (`Matching.one_outcome`).
-/

namespace CallByNeed

namespace Pattern

mutual

/-- The sub-patterns of a pattern, itself included, in preorder.  Each has its path, and `path` is
that of the pattern. -/
def nodesAt (path : Path) : Pattern → List (Path × Pattern)
  | tuple span ps => (path, tuple span ps) :: nodesFrom path 0 ps
  | cons span p q =>
    (path, cons span p q) :: (nodesAt (path ++ [0]) p ++ nodesAt (path ++ [1]) q)
  | p => [(path, p)]

/-- The sub-patterns of the parts from number `i` on of the pattern at `path`. -/
def nodesFrom (path : Path) (i : Nat) : List Pattern → List (Path × Pattern)
  | [] => []
  | p :: ps => nodesAt (path ++ [i]) p ++ nodesFrom path (i + 1) ps

end

/-- The sub-patterns of a pattern in preorder, with their paths. -/
def nodes (p : Pattern) : List (Path × Pattern) :=
  p.nodesAt []

/-- The pattern needs the value of what it is matched against. -/
def demands : Pattern → Bool
  | bind .. | wildcard _ => false
  | integer .. | boolean .. | tuple .. | cons .. | nil _ => true

/-- The value has the outermost shape that the pattern asks for. -/
def fits : Pattern → Value → Bool
  | bind .., _ | wildcard _, _ => true
  | integer _ n, .integer k => k == n
  | boolean _ b, .boolean c => c == b
  | tuple _ ps, .tuple ts => ts.length == ps.length
  | cons .., .cons .. => true
  | nil _, .nil => true
  | _, _ => false

/-- The names that are bound by some of the sub-patterns, in their order. -/
def namesOf (nodes : List (Path × Pattern)) : List String :=
  nodes.filterMap fun node => node.2.name?

theorem namesOf_append (nodes more : List (Path × Pattern)) :
    namesOf (nodes ++ more) = namesOf nodes ++ namesOf more :=
  List.filterMap_append

mutual

theorem namesOf_nodesAt (path : Path) : ∀ p : Pattern, namesOf (p.nodesAt path) = p.names
  | bind .. | wildcard _ | integer .. | boolean .. | nil _ => rfl
  | tuple span ps => namesOf_nodesFrom path 0 ps
  | cons span p q => by
    rw [nodesAt, names, ← namesOf_nodesAt (path ++ [0]) p, ← namesOf_nodesAt (path ++ [1]) q,
      ← namesOf_append]
    rfl

theorem namesOf_nodesFrom (path : Path) (i : Nat) :
    ∀ ps : List Pattern, namesOf (nodesFrom path i ps) = namesAll ps
  | [] => rfl
  | p :: ps => by
    rw [nodesFrom, namesAll, namesOf_append, namesOf_nodesAt (path ++ [i]) p,
      namesOf_nodesFrom path (i + 1) ps]

end

/-- **The sub-patterns bind the names of the pattern.** -/
theorem namesOf_nodes (p : Pattern) : namesOf p.nodes = p.names :=
  namesOf_nodesAt [] p

end Pattern

namespace Matching

open Pattern (namesOf)

variable {force : ThunkId → Eval Value} {t c : ThunkId} {path : Path} {p q : Pattern}
  {nodes more front : List (Path × Pattern)} {s s' : Scope} {m n : Machine}
  {r : EStateM.Result EvalError Scope Bool}

/-- A demand of what a path leads to, if it succeeds, leaves the value in the cell and nothing
missing. -/
def Settles (force : ThunkId → Eval Value) : Prop :=
  ∀ ⦃m n : Machine⦄ ⦃t c : ThunkId⦄ ⦃path : Path⦄ ⦃v : Value⦄, m.Grounded t →
    m.follow? t path = some c → force c m = .ok v n →
    n.Grounded t ∧ n.cell c = .evaluated v ∧ m.Evolves n

theorem settles_force (config : Config) (levels : Nat) :
    Settles (Eval.force (Eval.eval config levels)) :=
  fun _ _ _ _ _ _ hm hc h => hm.force hc h

/-! ### Visits -/

variable (force t) in
/-- The sub-patterns are visited one after the other, up to the first visit that fails. -/
inductive Visits : List (Path × Pattern) → Scope → EStateM.Result EvalError Scope Bool → Prop where
  | done (s : Scope) : Visits [] s (.ok true s)
  | wildcard {s : Scope} {path : Path} {c : ThunkId} {nodes : List (Path × Pattern)}
    {r : EStateM.Result EvalError Scope Bool} (span : Span)
    (hc : s.machine.follow? t path = some c) (h : Visits nodes s r) :
    Visits ((path, .wildcard span) :: nodes) s r
  | bind {s : Scope} {path : Path} {c : ThunkId} {nodes : List (Path × Pattern)}
    {r : EStateM.Result EvalError Scope Bool} (span : Span) {name : String}
    (hc : s.machine.follow? t path = some c) (hnew : s.bindings.binds name = false)
    (h : Visits nodes ⟨s.machine, (name, c) :: s.bindings⟩ r) :
    Visits ((path, .bind span name) :: nodes) s r
  | duplicate {s : Scope} {path : Path} {c : ThunkId} {nodes : List (Path × Pattern)} (span : Span)
    {name : String} (hc : s.machine.follow? t path = some c) (hold : s.bindings.binds name = true) :
    Visits ((path, .bind span name) :: nodes) s (.error (.duplicateBinding name span) s)
  | fits {s : Scope} {n : Machine} {path : Path} {c : ThunkId} {v : Value} {q : Pattern}
    {nodes : List (Path × Pattern)} {r : EStateM.Result EvalError Scope Bool}
    (hq : q.demands = true) (hc : s.machine.follow? t path = some c)
    (hforce : force c s.machine = .ok v n) (hfits : q.fits v = true)
    (h : Visits nodes ⟨n, s.bindings⟩ r) : Visits ((path, q) :: nodes) s r
  | misfits {s : Scope} {n : Machine} {path : Path} {c : ThunkId} {v : Value} {q : Pattern}
    {nodes : List (Path × Pattern)} (hq : q.demands = true)
    (hc : s.machine.follow? t path = some c) (hforce : force c s.machine = .ok v n)
    (hfits : q.fits v = false) : Visits ((path, q) :: nodes) s (.ok false ⟨n, s.bindings⟩)
  | fails {s : Scope} {n : Machine} {path : Path} {c : ThunkId} {e : EvalError} {q : Pattern}
    {nodes : List (Path × Pattern)} (hq : q.demands = true)
    (hc : s.machine.follow? t path = some c) (hforce : force c s.machine = .error e n) :
    Visits ((path, q) :: nodes) s (.error e ⟨n, s.bindings⟩)

/-- **Visits that succeed leave nothing missing.** -/
theorem Visits.grounded (hforce : Settles force) (h : Visits force t nodes s (.ok true s'))
    (hs : s.machine.Grounded t) :
    s'.machine.Grounded t ∧ s.machine.Evolves s'.machine := by
  generalize hr : EStateM.Result.ok true s' = r at h
  induction h with
  | done s =>
    cases hr
    exact ⟨hs, .refl _⟩
  | wildcard span hc _ ih => exact ih hs hr
  | bind span hc hnew _ ih => exact ih hs hr
  | fits hq hc hv hfits _ ih =>
    obtain ⟨hn, -, hevolves⟩ := hforce hs hc hv
    obtain ⟨hs', hevolves'⟩ := ih hn hr
    exact ⟨hs', hevolves.trans hevolves'⟩
  | duplicate | misfits | fails => cases hr

/-- Further visits follow those that succeed. -/
theorem Visits.append (h : Visits force t nodes s (.ok true s')) (h' : Visits force t more s' r) :
    Visits force t (nodes ++ more) s r := by
  generalize hr : EStateM.Result.ok true s' = r' at h
  induction h with
  | done s =>
    cases hr
    exact h'
  | wildcard span hc _ ih => exact .wildcard span hc (ih hr)
  | bind span hc hnew _ ih => exact .bind span hc hnew (ih hr)
  | fits hq hc hv hfits _ ih => exact .fits hq hc hv hfits (ih hr)
  | duplicate | misfits | fails => cases hr

/-- Behind a visit that fails there are no further ones. -/
theorem Visits.stop (h : Visits force t nodes s r) (hr : ∀ s', r ≠ .ok true s') :
    Visits force t (nodes ++ more) s r := by
  induction h with
  | done s => exact absurd rfl (hr s)
  | wildcard span hc _ ih => exact .wildcard span hc (ih hr)
  | bind span hc hnew _ ih => exact .bind span hc hnew (ih hr)
  | duplicate span hc hold => exact .duplicate span hc hold
  | fits hq hc hv hfits _ ih => exact .fits hq hc hv hfits (ih hr)
  | misfits hq hc hv hfits => exact .misfits hq hc hv hfits
  | fails hq hc he => exact .fails hq hc he

/-- **Of two matches the second visits its sub-patterns behind those of the first.** -/
theorem Visits.andThen {x y : Matching Bool} (h : Visits force t nodes s (x s))
    (h' : ∀ s', x s = .ok true s' → Visits force t more s' (y s')) :
    Visits force t (nodes ++ more) s ((do if ← x then y else return false : Matching Bool) s) := by
  change Visits force t _ s (EStateM.bind x (fun b => if b then y else return false) s)
  unfold EStateM.bind
  generalize x s = r at h h'
  match r with
  | .ok true s' => exact h.append (h' s' rfl)
  | .ok false s' => exact h.stop fun _ hr => by cases hr
  | .error e s' => exact h.stop fun _ hr => by cases hr

/-- **A demanding pattern** is visited in front of its parts, which are visited if the value fits.
-/
theorem Visits.demand (hq : q.demands = true) (hc : s.machine.follow? t path = some c)
    {next : Value → Matching Bool} (hmisfit : ∀ v, q.fits v = false → next v = pure false)
    (hnext : ∀ v n, force c s.machine = .ok v n → q.fits v = true →
      Visits force t nodes ⟨n, s.bindings⟩ (next v ⟨n, s.bindings⟩)) :
    Visits force t ((path, q) :: nodes) s ((ofEval (force c) >>= next) s) := by
  change Visits force t _ s (EStateM.bind (ofEval (force c)) next s)
  unfold EStateM.bind ofEval
  generalize hr : force c s.machine = r at hnext
  cases r with
  | error e n => exact .fails hq hc hr
  | ok v n =>
    cases hfits : q.fits v with
    | true => exact .fits hq hc hr hfits (hnext v n rfl hfits)
    | false =>
      show Visits force t _ s (next v ⟨n, s.bindings⟩)
      rw [hmisfit v hfits]
      exact .misfits hq hc hr hfits

/-- A name is bound if it is new. -/
theorem bindName_run (span : Span) (name : String) (c : ThunkId) (s : Scope) :
    (do bindName span name c; return true : Matching Bool) s =
      if s.bindings.binds name then .error (.duplicateBinding name span) s
      else .ok true ⟨s.machine, (name, c) :: s.bindings⟩ := by
  simp only [bindName, bind, EStateM.bind, ByName.get_apply]
  cases s.bindings.binds name <;> rfl

mutual

/-- **A match visits the sub-patterns in preorder.** -/
theorem visits_one (hforce : Settles force) {path : Path} {c : ThunkId} {s : Scope}
    (hs : s.machine.Grounded t) (hc : s.machine.follow? t path = some c) :
    ∀ p : Pattern, Visits force t (p.nodesAt path) s (one force p c s)
  | .bind span name => by
    rw [one, bindName_run]
    -- a name that is bound already ends the match
    cases hname : s.bindings.binds name with
    | true => exact .duplicate span hc hname
    | false => exact .bind span hc hname (.done _)
  | .wildcard span => by
    rw [one]
    exact .wildcard span hc (.done s)
  | .integer span k => by
    rw [one]
    -- the demand is the visit of this node, and what is found fits it or not
    refine .demand rfl hc (fun v hv => ?_) fun v n _ hv => ?_
    · cases v with
      | integer i => exact congrArg pure hv
      | _ => rfl
    · cases v with
      | integer i =>
        simp only [show (i == k) = true from hv]
        exact .done _
      | _ => cases hv
  | .boolean span b => by
    rw [one]
    refine .demand rfl hc (fun v hv => ?_) fun v n _ hv => ?_
    · cases v with
      | boolean b' => exact congrArg pure hv
      | _ => rfl
    · cases v with
      | boolean b' =>
        simp only [show (b' == b) = true from hv]
        exact .done _
      | _ => cases hv
  | .nil span => by
    rw [one]
    refine .demand rfl hc (fun v hv => ?_) fun v n _ hv => ?_
    · cases v with
      | nil => cases hv
      | _ => rfl
    · cases v with
      | nil => exact .done _
      | _ => cases hv
  | .tuple span ps => by
    rw [one]
    refine .demand rfl hc (fun v hv => ?_) fun v n hrun hv => ?_
    · cases v with
      | tuple ts => exact if_neg (beq_eq_false_iff_ne.1 hv)
      | _ => rfl
    · cases v with
      | tuple ts =>
        have hlen : ts.length = ps.length := beq_iff_eq.1 hv
        -- the elements stand behind the value that has been found, at the next positions
        obtain ⟨hn, hcell, hevolves⟩ := hforce hs hc hrun
        simp only [if_pos hlen]
        refine visits_all hforce hlen hn fun j u hu => ?_
        rw [Nat.zero_add, ← hu]
        exact Machine.follow?_append (hevolves.follow? hc) hcell j
      | _ => cases hv
  | .cons span p q => by
    rw [one]
    refine .demand rfl hc (fun v hv => ?_) fun v n hrun hv => ?_
    · cases v with
      | cons head tail => cases hv
      | _ => rfl
    · cases v with
      | cons head tail =>
        obtain ⟨hn, hcell, hevolves⟩ := hforce hs hc hrun
        have hparts := Machine.follow?_append (hevolves.follow? hc) hcell
        have hhead := visits_one hforce (s := ⟨n, s.bindings⟩) hn (hparts 0) p
        -- the head has been visited when the tail is, on the machine that this leaves
        refine hhead.andThen fun s' hs' => ?_
        rw [hs'] at hhead
        obtain ⟨hn', hevolves'⟩ := hhead.grounded hforce hn
        exact visits_one hforce hn' (hevolves'.follow? (hparts 1)) q
      | _ => cases hv

theorem visits_all (hforce : Settles force) {path : Path} {i : Nat} {ts : List ThunkId} {s : Scope}
    {ps : List Pattern} (hlen : ts.length = ps.length) (hs : s.machine.Grounded t)
    (hc : ∀ j u, ts[j]? = some u → s.machine.follow? t (path ++ [i + j]) = some u) :
    Visits force t (Pattern.nodesFrom path i ps) s (all force ps ts s) := by
  match ps, ts with
  | [], [] =>
    rw [all]
    · exact .done s
    · simp
  | p :: ps, u :: ts =>
    rw [all]
    have hhead := visits_one hforce hs (hc 0 u rfl) p
    refine hhead.andThen fun s' hs' => ?_
    rw [hs'] at hhead
    obtain ⟨hn, hevolves⟩ := hhead.grounded hforce hs
    refine visits_all hforce (Nat.succ.inj hlen) hn fun j u' hu' => ?_
    rw [Nat.add_assoc, Nat.add_comm 1]
    exact hevolves.follow? (hc (j + 1) u' hu')

end

/-! ### What the visits have done -/

variable (force t) in
/-- The cells of the sub-patterns that demand a value are forced one after the other, and nothing
else happens to the machine. -/
inductive Forced : List (Path × Pattern) → Machine → Machine → Prop where
  | nil (m : Machine) : Forced [] m m
  | idle {nodes : List (Path × Pattern)} {m n : Machine} {q : Pattern} (path : Path)
    (hq : q.demands = false) (h : Forced nodes m n) : Forced ((path, q) :: nodes) m n
  | force {nodes : List (Path × Pattern)} {m m' n : Machine} {q : Pattern} {path : Path}
    {c : ThunkId} {v : Value} (hq : q.demands = true) (hc : m.follow? t path = some c)
    (hforce : force c m = .ok v m') (h : Forced nodes m' n) : Forced ((path, q) :: nodes) m n

theorem Forced.append {m' : Machine} (h : Forced force t nodes m m')
    (h' : Forced force t more m' n) : Forced force t (nodes ++ more) m n := by
  induction h with
  | nil m => exact h'
  | idle path hq _ ih => exact .idle path hq (ih h')
  | force hq hc hv _ ih => exact .force hq hc hv (ih h')

variable (t) in
/-- The sub-patterns fit what has been bound and found so far, when the match began with the names
of `bindings`. -/
structure Fitted (nodes : List (Path × Pattern)) (bindings : Bindings ThunkId) (s : Scope) :
    Prop where
  /-- The path of a sub-pattern leads to a cell.  If the sub-pattern demands a value, the cell has
  one that fits. -/
  fits : ∀ path q, (path, q) ∈ nodes → ∃ c, s.machine.follow? t path = some c ∧
    (q.demands = true → ∃ v, s.machine.cell c = .evaluated v ∧ q.fits v = true)
  /-- A name is bound to the cell that its path leads to. -/
  bound : ∀ path span name, (path, .bind span name) ∈ nodes →
    s.bindings.find? name = s.machine.follow? t path
  /-- Nothing else has been bound. -/
  keys : ∀ name, s.bindings.binds name = true ↔ name ∈ namesOf nodes ∨ bindings.binds name = true
  /-- What was bound before stands for the same as before. -/
  kept : ∀ name, bindings.binds name = true → s.bindings.find? name = bindings.find? name
  /-- No name occurs twice. -/
  nodup : (namesOf nodes).Nodup
  /-- No name was bound before. -/
  fresh : ∀ name ∈ namesOf nodes, bindings.binds name = false

section Fitted

variable {bindings : Bindings ThunkId}

theorem fitted_nil (m : Machine) : Fitted t [] bindings ⟨m, bindings⟩ where
  fits _ _ h := absurd h List.not_mem_nil
  bound _ _ _ h := absurd h List.not_mem_nil
  keys _ := by simp [namesOf]
  kept _ _ := rfl
  nodup := .nil
  fresh _ h := absurd h List.not_mem_nil

/-- **What fits keeps fitting** while the machine evolves. -/
theorem Fitted.evolve (h : Fitted t front bindings s) (hs : s.machine.Grounded t)
    (hn : s.machine.Evolves n) : Fitted t front bindings ⟨n, s.bindings⟩ := by
  refine ⟨fun path q hmem => ?_, fun path span name hmem => ?_, h.keys, h.kept, h.nodup, h.fresh⟩
  · obtain ⟨c, hc, hvalue⟩ := h.fits path q hmem
    refine ⟨c, hn.follow? hc, fun hq => ?_⟩
    obtain ⟨v, hv, hfits⟩ := hvalue hq
    exact ⟨v, hn.cell_of_evaluated (hs.lt_size hc) hv, hfits⟩
  · obtain ⟨c, hc, -⟩ := h.fits path _ hmem
    exact (h.bound path span name hmem).trans (hc.trans (hn.follow? hc).symm)

/-- **A name is bound** that is new. -/
theorem Fitted.bind (h : Fitted t front bindings s) (span : Span) {name : String}
    (hc : s.machine.follow? t path = some c) (hnew : s.bindings.binds name = false) :
    Fitted t (front ++ [(path, .bind span name)]) bindings
      ⟨s.machine, (name, c) :: s.bindings⟩ := by
  have hnames : namesOf (front ++ [(path, .bind span name)]) = namesOf front ++ [name] :=
    Pattern.namesOf_append ..
  -- the names that are bound so far are others
  have hold {x : String} (hx : s.bindings.binds x = true) : x ≠ name := by
    rintro rfl
    simp [hx] at hnew
  refine ⟨fun path' q hmem => ?_, fun path' span' x hmem => ?_, fun x => ?_, fun x hx => ?_, ?_,
    fun x hx => ?_⟩
  · rcases List.mem_append.1 hmem with hmem | hmem
    · exact h.fits path' q hmem
    · obtain ⟨rfl, rfl⟩ := Prod.mk.inj (List.mem_singleton.1 hmem)
      exact ⟨c, hc, fun hq => by cases hq⟩
  · rw [Bindings.find?_cons]
    rcases List.mem_append.1 hmem with hmem | hmem
    · have hx : x ∈ namesOf front := List.mem_filterMap.2 ⟨_, hmem, rfl⟩
      rw [if_neg (hold ((h.keys x).2 (.inl hx)))]
      exact h.bound path' span' x hmem
    · cases List.mem_singleton.1 hmem
      rw [if_pos rfl, hc]
  · rw [Bindings.binds_cons, hnames, Bool.or_eq_true, h.keys x, beq_iff_eq, List.mem_append,
      List.mem_singleton]
    tauto
  · rw [Bindings.find?_cons, if_neg (hold ((h.keys x).2 (.inr hx)))]
    exact h.kept x hx
  · rw [hnames]
    refine List.nodup_append.2 ⟨h.nodup, List.nodup_singleton _, fun x hx y hy => ?_⟩
    rw [List.mem_singleton.1 hy]
    exact hold ((h.keys x).2 (.inl hx))
  · rw [hnames] at hx
    rcases List.mem_append.1 hx with hx | hx
    · exact h.fresh x hx
    · rw [List.mem_singleton.1 hx, ← Bool.not_eq_true]
      exact fun hbound => hold ((h.keys name).2 (.inr hbound)) rfl

/-- **A sub-pattern that binds no name** and fits. -/
theorem Fitted.snoc (h : Fitted t front bindings s) (hq : q.name? = none)
    (hc : s.machine.follow? t path = some c)
    (hvalue : q.demands = true → ∃ v, s.machine.cell c = .evaluated v ∧ q.fits v = true) :
    Fitted t (front ++ [(path, q)]) bindings s := by
  have hnames : namesOf (front ++ [(path, q)]) = namesOf front := by
    simp [namesOf, hq]
  refine ⟨fun path' q' hmem => ?_, fun path' span' x hmem => ?_, hnames ▸ h.keys, h.kept,
    hnames ▸ h.nodup, hnames ▸ h.fresh⟩
  · rcases List.mem_append.1 hmem with hmem | hmem
    · exact h.fits path' q' hmem
    · obtain ⟨rfl, rfl⟩ := Prod.mk.inj (List.mem_singleton.1 hmem)
      exact ⟨c, hc, hvalue⟩
  · rcases List.mem_append.1 hmem with hmem | hmem
    · exact h.bound path' span' x hmem
    · cases List.mem_singleton.1 hmem
      cases hq

end Fitted

/-! ### How a match ends -/

variable (force t) in
/-- How a match of the sub-patterns ends that begins with a machine and some names.  In front of the
sub-pattern at which it ends all of them fit. -/
inductive Outcome (nodes : List (Path × Pattern)) (m : Machine) (bindings : Bindings ThunkId) :
    EStateM.Result EvalError Scope Bool → Prop where
  /-- All sub-patterns fit. -/
  | matched {s : Scope} (hforced : Forced force t nodes m s.machine)
    (hfitted : Fitted t nodes bindings s) : Outcome nodes m bindings (.ok true s)
  /-- A sub-pattern does not fit the value of its cell. -/
  | failed {s : Scope} {front behind : List (Path × Pattern)} {path : Path} {q : Pattern}
    {n : Machine} {c : ThunkId} {v : Value} (hnodes : nodes = front ++ (path, q) :: behind)
    (hforced : Forced force t front m n) (hfitted : Fitted t front bindings s)
    (hq : q.demands = true) (hforce : force c n = .ok v s.machine)
    (hc : s.machine.follow? t path = some c) (hv : s.machine.cell c = .evaluated v)
    (hfits : q.fits v = false) : Outcome nodes m bindings (.ok false s)
  /-- The cell of a sub-pattern that demands a value has none. -/
  | propagated {s : Scope} {front behind : List (Path × Pattern)} {path : Path} {q : Pattern}
    {n : Machine} {c : ThunkId} {e : EvalError} (hnodes : nodes = front ++ (path, q) :: behind)
    (hforced : Forced force t front m n) (hfitted : Fitted t front bindings ⟨n, s.bindings⟩)
    (hq : q.demands = true) (hc : n.follow? t path = some c)
    (hforce : force c n = .error e s.machine) : Outcome nodes m bindings (.error e s)
  /-- A name has been bound already. -/
  | duplicate {s : Scope} {front behind : List (Path × Pattern)} {path : Path} {span : Span}
    {name : String} (hnodes : nodes = front ++ (path, .bind span name) :: behind)
    (hforced : Forced force t front m s.machine) (hfitted : Fitted t front bindings s)
    (hname : name ∈ namesOf front ∨ bindings.binds name = true) :
    Outcome nodes m bindings (.error (.duplicateBinding name span) s)

/-- A sub-pattern that demands a value is no name. -/
theorem name?_of_demands (hq : q.demands = true) : q.name? = none := by
  cases q with
  | bind => cases hq
  | _ => rfl

/-- **The outcome of a match** is known from the visits behind those that have succeeded. -/
theorem Visits.outcome (hforce : Settles force) {bindings : Bindings ThunkId}
    (h : Visits force t nodes s r) (hs : s.machine.Grounded t)
    (hforced : Forced force t front m s.machine) (hfitted : Fitted t front bindings s) :
    Outcome force t (front ++ nodes) m bindings r := by
  induction h generalizing front with
  | done s =>
    rw [List.append_nil]
    exact .matched hforced hfitted
  | wildcard span hc _ ih =>
    rw [List.append_cons]
    exact ih hs (hforced.append (.idle _ rfl (.nil _)))
      (hfitted.snoc rfl hc fun hq => by cases hq)
  | bind span hc hnew _ ih =>
    rw [List.append_cons]
    exact ih hs (hforced.append (.idle _ rfl (.nil _))) (hfitted.bind span hc hnew)
  | duplicate span hc hold =>
    exact .duplicate rfl hforced hfitted ((hfitted.keys _).1 hold)
  -- the value that fits stays where it is during the rest of the match
  | @fits s n _ c v _ _ _ hq hc hv hfits _ ih =>
    obtain ⟨hn, hcell, hevolves⟩ := hforce hs hc hv
    rw [List.append_cons]
    refine ih hn (hforced.append (.force hq hc hv (.nil _))) ?_
    exact (hfitted.evolve hs hevolves).snoc (name?_of_demands hq) (hevolves.follow? hc)
      fun _ => ⟨v, hcell, hfits⟩
  | misfits hq hc hv hfits =>
    obtain ⟨hn, hcell, hevolves⟩ := hforce hs hc hv
    exact .failed rfl hforced (hfitted.evolve hs hevolves) hq hv (hevolves.follow? hc) hcell hfits
  | fails hq hc he => exact .propagated rfl hforced hfitted hq hc he

/-- **Matching binds exactly what the pattern says.**  With whatever names bound already, a match in
a machine that lacks nothing

* fits if every sub-pattern fits; then the names of the pattern, which are new and all different,
  are bound to the cells that their paths lead to,
* fails at the first sub-pattern in preorder that does not fit the value of its cell, and
* is an error if the cell of the first sub-pattern that neither fits nor fails has no value, or if
  that sub-pattern is a name which has been bound already, before the match or in front.

The bindings made before stay in all cases, and the cells that are forced are those of the
sub-patterns that demand a value, one after the other up to where the match ends. -/
theorem one_outcome (config : Config) (levels : Nat) (p : Pattern) (t : ThunkId) (m : Machine)
    (bindings : Bindings ThunkId) (hm : m.Closed) (ht : t < m.cells.size) :
    let force := Eval.force (Eval.eval config levels)
    namesOf p.nodes = p.names ∧
      Outcome force t p.nodes m bindings (one force p t ⟨m, bindings⟩) := by
  intro force
  have hforce : Settles force := settles_force config levels
  have hvisits : Visits force t p.nodes ⟨m, bindings⟩ (one force p t ⟨m, bindings⟩) :=
    visits_one hforce (hm.grounded ht) rfl p
  exact ⟨p.namesOf_nodes, hvisits.outcome hforce (hm.grounded ht) (.nil m) (fitted_nil m)⟩

/-- The suspension of `(1, [2])` fits `(x, [y])`: both names are bound to cells that have not been
evaluated. -/
theorem one_outcome_pair :
    let two : Expr := .cons .unknown (.integer .unknown 2) (.nil .unknown)
    let m : Machine :=
      { Machine.initial with cells := #[.pending (.tuple .unknown [.integer .unknown 1, two]) 0] }
    let list : Pattern := .cons .unknown (.bind .unknown "y") (.nil .unknown)
    let pair (p : Pattern) : Pattern := .tuple .unknown [.bind .unknown "x", p]
    let force := Eval.force (Eval.eval {} 5)
    let found (p : Pattern) := (one force p 0).outcome [] m
    (m.Closed ∧ 0 < m.cells.size) ∧
      ((Eval.split (found (pair list))).1.toOption = some (some [("y", 3), ("x", 1)]) ∧
        Outcome force 0 (pair list).nodes m [] (one force (pair list) 0 ⟨m, []⟩)) := by
  intro two m list pair force found
  have hm : m.Closed := by
    refine ⟨fun env frame hframe b hb => ?_, fun t cell ht => ?_⟩
    · rcases env with _ | env <;> simp [m, Machine.initial, Environments.initial] at hframe
      simp [← hframe] at hb
    · rcases t with _ | t <;> simp [m] at ht
      subst ht
      exact Nat.one_pos
  exact ⟨⟨hm, Nat.one_pos⟩, by decide +kernel,
    (one_outcome {} 5 (pair list) 0 m [] hm Nat.one_pos).2⟩

end Matching

end CallByNeed

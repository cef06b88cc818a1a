import CallByNeed.Proofs.Interpretation.Sharing
import CallByNeed.Proofs.Matching.Paths

/-!
# Printing a value again

Whatever a value is printed from has been demanded, so that its cell holds a value from then on
(`Machine.cell_of_force`).  Printing the value once more finds these values, takes the same turns
with them, and comes to the same text on the same levels: all that it does to the machine is to
count the demands (`Eval.Replays`).

It does not matter what is done in between, since no cell loses its value (`Action.retains_run`).
-/

namespace CallByNeed

/-! ### Values that stay -/

namespace Machine

/-- The second machine has all values that have been found in the first. -/
def Retains (m n : Machine) : Prop :=
  ∀ (t : ThunkId) v, m.cells[t]? = some (.evaluated v) → n.cells[t]? = some (.evaluated v)

variable {m n k : Machine}

theorem Retains.refl (m : Machine) : m.Retains m :=
  fun _ _ h => h

theorem Retains.trans (h : m.Retains n) (h' : n.Retains k) : m.Retains k :=
  fun t v ht => h' t v (h t v ht)

/-- Counters do not matter. -/
theorem Retains.count (h : m.Retains n) (hits : Nat) : m.Retains { n with hits } :=
  h

/-- A new cell leaves the others alone. -/
theorem retains_allocate (m : Machine) (c : Cell) : m.Retains (m.allocate c).2 := by
  intro t v ht
  have hlt : t < m.cells.size := (Array.getElem?_eq_some_iff.mp ht).1
  change (m.cells.push c)[t]? = _
  rw [Array.getElem?_push_lt hlt, ← Array.getElem?_eq_getElem hlt, ht]

end Machine

/-- **No action takes a value away.** -/
theorem Action.retains_run (config : Config) (action : Action) (m : Machine) :
    m.Retains (action.run config m) := by
  cases action with
  | call call => exact (call.keeps_eval config m).evaluated
  | define name v => exact m.retains_allocate _
  | suspend e env => exact m.retains_allocate _
  | hold v => exact m.retains_allocate _

theorem Action.retains_foldl (config : Config) (actions : List Action) (m : Machine) :
    m.Retains (actions.foldl (Action.run config) m) := by
  induction actions generalizing m with
  | nil => exact .refl m
  | cons action actions ih => exact (action.retains_run config m).trans (ih _)

/-! ### Evaluations that can be repeated -/

namespace Eval

open Congruence (World)

variable {α β : Type} {w : World} {P : World → α → Prop} {Q : World → β → Prop}

/-- Where the evaluation has succeeded it can be repeated as long as the values stay that are there
at its end: with the same result, and without any change but to the number of hits.  The worlds tell
the addresses that may be demanded, none of which is missing. -/
def Replays (w : World) (P : World → α → Prop) (x : Eval α) : Prop :=
  ∀ m, w.Consistent (.onlySpans Eq) m m → ∀ a m', x m = .ok a m' →
    ∃ w', w ≤ w' ∧ w'.Consistent (.onlySpans Eq) m' m' ∧ P w' a ∧ m.Retains m' ∧
      ∀ n, m'.Retains n → ∃ hits, x n = .ok a { n with hits }

theorem replays_pure {a : α} (h : P w a) : Replays w P (pure a) := by
  rintro m hm a m' ⟨⟩
  exact ⟨w, w.le_refl, hm, h, .refl m, fun n _ => ⟨n.hits, rfl⟩⟩

theorem replays_throw (e : EvalError) : Replays w P (throw e) := by
  rintro m hm a m' ⟨⟩

theorem replays_countHit : Replays w (fun _ _ => True) countHit := by
  rintro m hm a m' ⟨⟩
  refine ⟨w, w.le_refl, hm.count rfl rfl rfl rfl ?_, trivial, .refl m, fun n _ => ⟨_, rfl⟩⟩
  exact ⟨hm.work.created, hm.work.evaluated, rfl⟩

/-- **A sequence can be repeated if its parts can**: the values that the first part leaves are there
at the end of the second. -/
theorem Replays.bind {x : Eval α} {f : α → Eval β} (hx : Replays w P x)
    (hf : ∀ w' a, w ≤ w' → P w' a → Replays w' Q (f a)) : Replays w Q (x >>= f) := by
  intro m hm b m₂ hrun
  change EStateM.bind x f m = .ok b m₂ at hrun
  unfold EStateM.bind at hrun
  -- only a sequence that succeeds is to be repeated
  cases hxm : x m with
  | error e m₁ =>
    rw [hxm] at hrun
    cases hrun
  | ok a m₁ =>
    rw [hxm] at hrun
    obtain ⟨w₁, hw₁, hm₁, ha, hretains, hagain⟩ := hx m hm a m₁ hxm
    obtain ⟨w₂, hw₂, hm₂, hb, hretains', hagain'⟩ := hf w₁ a hw₁ ha m₁ hm₁ b m₂ hrun
    refine ⟨w₂, World.le_trans hw₁ hw₂, hm₂, hb, hretains.trans hretains', fun n hn => ?_⟩
    -- the first part is repeated with the values that are there at the end of both
    obtain ⟨hits, hxn⟩ := hagain n (hretains'.trans hn)
    obtain ⟨hits', hfn⟩ := hagain' { n with hits } (hn.count hits)
    refine ⟨hits', ?_⟩
    change EStateM.bind x f n = _
    unfold EStateM.bind
    rw [hxn]
    exact hfn

/-- **A demand leaves the value in the cell**, where the next one finds it. -/
theorem replays_force (config : Config) (levels : Nat) {t : ThunkId} (ht : t ∈ w.live) :
    Replays w (fun w' v => w'.Values (.onlySpans Eq) v v) (force (eval config levels) t) := by
  intro m hm v m' hrun
  have hlt := hm.lt_size t ht
  have hkeeps := Keeps.force (keeps_eval config levels).1 t m
  have hruns := (Congruence.evaluates_eval config levels).1.force ht m m hm
  rw [hrun] at hkeeps hruns
  cases hruns with
  | @ok w' _ _ _ _ hw hm' hv =>
    refine ⟨w', hw, hm', hv, hkeeps.evaluated, fun n hn => ?_⟩
    have hcell := Machine.cell_of_force hlt hrun
    have hfound := hn t v ((Machine.cell_eq_iff (hm'.lt_size t (hw.1 t ht))).1 hcell)
    refine ⟨n.hits + 1, ByName.force_of_evaluated ?_⟩
    rw [Machine.cell, Array.getD_eq_getD_getElem?, hfound, Option.getD_some]

/-! ### Printing -/

section Print

variable {element : ThunkId → Eval String}
  (helement : ∀ ⦃w : World⦄ ⦃t : ThunkId⦄, t ∈ w.live → Replays w (fun _ _ => True) (element t))

include helement

theorem replays_commaSeparated {ts : List ThunkId} (hts : ∀ t ∈ ts, t ∈ w.live) :
    Replays w (fun _ _ => True) (commaSeparated element ts) := by
  induction ts generalizing w with
  | nil => exact replays_pure trivial
  | cons t ts ih =>
    obtain ⟨ht, hts⟩ := List.forall_mem_cons.1 hts
    cases ts with
    | nil => exact helement ht
    | cons u ts =>
      refine (helement ht).bind fun w₁ first hw₁ _ => ?_
      refine (ih fun x hx => hw₁.1 x (hts x hx)).bind fun w₂ rest hw₂ _ => ?_
      exact replays_pure trivial

theorem replays_colonTerminated {ts : List ThunkId} (hts : ∀ t ∈ ts, t ∈ w.live) :
    Replays w (fun _ _ => True) (colonTerminated element ts) := by
  induction ts generalizing w with
  | nil => exact replays_pure trivial
  | cons t ts ih =>
    obtain ⟨ht, hts⟩ := List.forall_mem_cons.1 hts
    refine (helement ht).bind fun w₁ first hw₁ _ => ?_
    refine (ih fun x hx => hw₁.1 x (hts x hx)).bind fun w₂ rest hw₂ _ => ?_
    exact replays_pure trivial

end Print

/-- A chain of cells that ends in something else. -/
theorem replays_improper {element : ThunkId → Eval String}
    (helement : ∀ ⦃w : World⦄ ⦃t : ThunkId⦄, t ∈ w.live → Replays w (fun _ _ => True) (element t))
    {nested : Value → Eval String}
    (hnested : ∀ ⦃w : World⦄ ⦃v : Value⦄, w.Values (.onlySpans Eq) v v →
      Replays w (fun _ _ => True) (nested v)) {ts : List ThunkId} (hts : ∀ t ∈ ts, t ∈ w.live)
    {last : Value} (hlast : w.Values (.onlySpans Eq) last last) :
    Replays w (fun _ _ => True) (do
      let shown ← colonTerminated element ts
      countHit
      return shown ++ (← nested last)) := by
  refine (replays_colonTerminated helement hts).bind fun w₁ shown hw₁ _ => ?_
  refine replays_countHit.bind fun w₂ _ hw₂ _ => ?_
  refine (hnested (hlast.mono (World.le_trans hw₁ hw₂))).bind fun w₃ text hw₃ _ => ?_
  exact replays_pure trivial

section Walk

variable {force : ThunkId → Eval Value} (hforce : ∀ ⦃w : World⦄ ⦃t : ThunkId⦄, t ∈ w.live →
  Replays w (fun w' v => w'.Values (.onlySpans Eq) v v) (force t))

include hforce

/-- A walk along a list can be repeated, and may be followed by demands for the heads. -/
theorem replays_spine (room : Nat) {v : Value} (hv : w.Values (.onlySpans Eq) v v) :
    Replays w
      (fun w' found => (∀ t ∈ found.1, t ∈ w'.live) ∧
        w'.Values (.onlySpans Eq) found.2 found.2)
      (spine force room v) := by
  induction room generalizing w v with
  | zero => exact replays_pure ⟨by simp, hv⟩
  | succ room ih =>
    cases hv with
    | cons hhead htail =>
      refine (hforce htail).bind fun w₁ next hw₁ hnext => ?_
      refine (ih hnext).bind fun w₂ found hw₂ hfound => ?_
      exact replays_pure
        ⟨List.forall_mem_cons.2 ⟨hw₂.1 _ (hw₁.1 _ hhead), hfound.1⟩, hfound.2⟩
    | integer n => exact replays_pure ⟨by simp, .integer n⟩
    | boolean b => exact replays_pure ⟨by simp, .boolean b⟩
    | closure henv hp hb => exact replays_pure ⟨by simp, .closure henv hp hb⟩
    | tuple hts => exact replays_pure ⟨by simp, .tuple hts⟩
    | nil => exact replays_pure ⟨by simp, .nil⟩

/-- **Printing can be repeated** if demands and the printing of elements can. -/
theorem replays_renderWith (config : Config) {nested : Value → Eval String}
    (hnested : ∀ ⦃w : World⦄ ⦃v : Value⦄, w.Values (.onlySpans Eq) v v →
      Replays w (fun _ _ => True) (nested v)) {v : Value} (hv : w.Values (.onlySpans Eq) v v) :
    Replays w (fun _ _ => True) (renderWith config force nested v) := by
  have helement ⦃w : World⦄ ⦃t : ThunkId⦄ (ht : t ∈ w.live) :
      Replays w (fun _ _ => True) (do nested (← force t)) :=
    (hforce ht).bind fun _ _ _ hv => hnested hv
  cases hv with
  | integer n => exact replays_pure trivial
  | boolean b => exact replays_pure trivial
  | closure henv hp hb => exact replays_pure trivial
  | nil => exact replays_pure trivial
  | tuple hts =>
    refine (replays_commaSeparated helement fun t ht => hts t (List.mem_of_mem_take ht)).bind ?_
    exact fun w₁ shown hw₁ _ => replays_pure trivial
  | cons hhead htail =>
    refine (hforce htail).bind fun w₁ next hw₁ hnext => ?_
    refine (replays_spine hforce _ hnext).bind ?_
    rintro w₂ ⟨heads, last⟩ hw₂ ⟨hheads, hlast⟩
    have helems := List.forall_mem_cons.2 ⟨hw₂.1 _ (hw₁.1 _ hhead), hheads⟩
    have hlist := replays_commaSeparated helement helems
    -- behind the cells there may be anything but a list
    have himproper {last : Value} := @replays_improper w₂ _ helement nested hnested _ helems last
    cases hlast with
    | nil => exact hlist.bind fun w₃ shown hw₃ _ => replays_pure trivial
    | cons _ _ =>
      simp only
      split
      · exact replays_throw _
      · exact hlist.bind fun w₃ shown hw₃ _ => replays_pure trivial
    | integer n => exact himproper (.integer n)
    | boolean b => exact himproper (.boolean b)
    | closure henv hp hb => exact himproper (.closure henv hp hb)
    | tuple hts => exact himproper (.tuple hts)

end Walk

/-- **Printing can be repeated**, with whatever number of levels left. -/
theorem replays_renderAt (config : Config) (levels : Nat) {v : Value}
    (hv : w.Values (.onlySpans Eq) v v) :
    Replays w (fun _ _ => True) (renderAt config levels v) := by
  induction levels generalizing w v with
  | zero =>
    exact replays_renderWith (fun _ _ => replays_force config 0) config
      (fun _ _ _ => replays_throw _) hv
  | succ levels ih =>
    exact replays_renderWith (fun _ _ => replays_force config (levels + 1)) config
      (fun _ _ hv => ih hv) hv

/-- **Printing a value again prints the same and changes nothing.**  If a value has been printed,
then it is printed once more with the same text, at once or after any actions; and all that this
does to the machine is to count hits.  So it makes no suspension and no environment, evaluates
nothing, and leaves every cell as it is. -/
theorem render_again (config : Config) (m : Machine) (hm : m.Closed) (v : Value)
    (hv : m.HasPartsOf v) {text : String} {m' : Machine} (h : render config v m = .ok text m')
    (actions : List Action) :
    let n := actions.foldl (Action.run config) m'
    ∃ hits, render config v n = .ok text { n with hits } := by
  intro n
  obtain ⟨w, hw, -, hvalues⟩ := hm.exists_world
  obtain ⟨-, -, -, -, -, hagain⟩ :=
    replays_renderAt config config.maxDepth (hvalues v hv) m hw text m' h
  exact hagain n (Action.retains_foldl config actions m')

/-- A list that goes round in circles, twice in a pair and cut short.  In between a name is defined
and an evaluation fails. -/
theorem render_again_circular :
    let config : Config := { renderLimit := 2 }
    let name (x : String) : Expr := .identifier .unknown x
    let ones : Expr := .bind .unknown (.bind .unknown "ones")
      (.cons .unknown (.integer .unknown 1) (name "ones")) (name "ones")
    let m : Machine := { Machine.initial with cells := #[.pending ones 0] }
    let v : Value := .tuple [0, 0]
    let actions : List Action := [.define "n" (.integer 3),
      .call (.evaluate (.binary .unknown .add (name "n") (.boolean .unknown true)))]
    let text := "([1, 1, ...], [1, 1, ...])"
    (m.Closed ∧ m.HasPartsOf v) ∧
      ∃ m', render config v m = .ok text m' ∧
        let n := actions.foldl (Action.run config) m'
        ∃ hits, render config v n = .ok text { n with hits } := by
  intro config name ones m v actions text
  have hm : m.Closed :=
    Machine.closed_of_cells (by simp [Machine.HasContentOf, Machine.initial, Environments.initial,
      Environments.size])
  have hv : m.HasPartsOf v := by simp [v, m, Machine.HasPartsOf]
  obtain ⟨m', h⟩ := exists_of_split (r := render config v m) (a := text) (by decide +kernel)
  exact ⟨⟨hm, hv⟩, m', h, render_again config m hm v hv h actions⟩

end Eval

end CallByNeed

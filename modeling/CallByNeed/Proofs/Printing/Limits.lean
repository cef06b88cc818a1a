import CallByNeed.Proofs.Interpretation.Runs
import CallByNeed.Proofs.Interpretation.Unbounded
import CallByNeed.Proofs.Relocation.Independence

/-!
# How much of a value is printed

A tuple shows as many of its elements as the limit allows, from the left, and three dots if there
are more.  A list is first walked along, cell by cell (`Eval.Walk`): each step demands a tail, and
the walk ends behind the last cell or when as many cells have been passed as elements may be shown.
Then the elements passed are printed one after the other (`Eval.Each`).

So a limit of at least one bounds the demands for tails, and an endless list is printed in as many
steps as a long one.  Only a limit of nothing does not bound lists, and it lets them through whole
(`Eval.renderAt_limited`).
-/

namespace CallByNeed

/-- The value is a list cell. -/
def Value.isCons : Value → Bool
  | cons .. => true
  | _ => false

namespace Eval

/-! ### Elements, one after the other -/

/-- The three dots, if something is left out. -/
def dots (cut : Bool) : List String :=
  if cut then ["..."] else []

section Elements

variable {element : ThunkId → Eval String} {ts : List ThunkId} {m n : Machine} {text : String}

theorem commaSeparated_eq_ok :
    commaSeparated element ts m = .ok text n ↔
      ∃ texts, Each element m ts texts n ∧ text = ", ".intercalate texts := by
  induction ts generalizing m text with
  | nil =>
    refine pure_eq_ok.trans ⟨?_, ?_⟩
    · rintro ⟨rfl, rfl⟩
      exact ⟨[], .nil m, by simp⟩
    · rintro ⟨texts, htexts, rfl⟩
      cases htexts
      exact ⟨by simp, rfl⟩
  | cons t ts ih =>
    -- no comma follows the last element, so that it is a case of its own
    rcases ts with _ | ⟨u, us⟩
    · refine ⟨fun h => ⟨[text], .cons h (.nil n), by simp⟩, ?_⟩
      rintro ⟨texts, htexts, rfl⟩
      cases htexts with
      | cons ht hts =>
        cases hts
        rw [String.intercalate_singleton]
        exact ht
    · rw [commaSeparated.eq_3 _ _ _ (by simp)]
      simp only [bind_eq_ok, pure_eq_ok]
      constructor
      · rintro ⟨first, k, hfirst, rest, k', hrest, rfl, rfl⟩
        obtain ⟨texts, htexts, rfl⟩ := ih.1 hrest
        refine ⟨first :: texts, .cons hfirst htexts, ?_⟩
        rw [String.intercalate_cons_of_ne_nil htexts.ne_nil]
      · rintro ⟨texts, htexts, rfl⟩
        cases htexts with
        | @cons _ k _ _ _ first texts hfirst htexts =>
          refine ⟨first, k, hfirst, _, n, ih.2 ⟨texts, htexts, rfl⟩, ?_, rfl⟩
          rw [String.intercalate_cons_of_ne_nil htexts.ne_nil]

theorem colonTerminated_eq_ok :
    colonTerminated element ts m = .ok text n ↔
      ∃ texts, Each element m ts texts n ∧ text = String.join (texts.map (· ++ " : ")) := by
  induction ts generalizing m text with
  | nil =>
    refine pure_eq_ok.trans ⟨?_, ?_⟩
    · rintro ⟨rfl, rfl⟩
      exact ⟨[], .nil m, rfl⟩
    · rintro ⟨texts, htexts, rfl⟩
      cases htexts
      exact ⟨rfl, rfl⟩
  | cons t ts ih =>
    rw [colonTerminated]
    simp only [bind_eq_ok, pure_eq_ok]
    constructor
    · -- the machine is handed on from one element to the next
      rintro ⟨first, k, hfirst, rest, k', hrest, rfl, rfl⟩
      obtain ⟨texts, htexts, rfl⟩ := ih.1 hrest
      exact ⟨first :: texts, .cons hfirst htexts, by simp⟩
    · rintro ⟨texts, htexts, rfl⟩
      cases htexts with
      | @cons _ k _ _ _ first texts hfirst htexts =>
        exact ⟨first, k, hfirst, _, n, ih.2 ⟨texts, htexts, rfl⟩, by simp, rfl⟩

/-- Colons behind all texts but the last are colons between all of them. -/
theorem join_colons_append (texts : List String) (last : String) :
    String.join (texts.map (· ++ " : ")) ++ last = " : ".intercalate (texts ++ [last]) := by
  induction texts with
  | nil => simp
  | cons s ss ih =>
    rw [List.cons_append, String.intercalate_cons_of_ne_nil (by simp), ← ih]
    simp [String.append_assoc]

end Elements

/-! ### Walks along lists -/

/-- Some cells of a list are passed, by demanding the tail of each.  `heads` are their heads, and
the last value is the one behind them. -/
inductive Walk (force : ThunkId → Eval Value) :
    Machine → Value → List ThunkId → Value → Machine → Prop where
  | stop (m : Machine) (v : Value) : Walk force m v [] v m
  | pass {m n k : Machine} {head tail : ThunkId} {next last : Value} {heads : List ThunkId}
    (htail : force tail m = .ok next n) (hnext : Walk force n next heads last k) :
    Walk force m (.cons head tail) (head :: heads) last k

section Walks

variable {force : ThunkId → Eval Value} {m n : Machine} {v last : Value} {heads : List ThunkId}

/-- A walk that stops earlier has come to a cell. -/
theorem Walk.take (h : Walk force m v heads last n) {count : Nat} (hcount : count < heads.length) :
    ∃ head tail k, Walk force m v (heads.take count) (.cons head tail) k := by
  induction h generalizing count with
  | stop => exact absurd hcount (Nat.not_lt_zero _)
  | @pass m _ _ head tail _ _ _ htail _ ih =>
    cases count with
    | zero => exact ⟨head, tail, m, .stop m _⟩
    | succ count =>
      obtain ⟨head', tail', k, hwalk⟩ := ih (Nat.lt_of_succ_lt_succ hcount)
      exact ⟨head', tail', k, .pass htail hwalk⟩

/-- **The cells of a list are walked along** until there are no more, or until there is no more
room. -/
theorem Walk.spine_eq (h : Walk force m v heads last n) {room : Nat}
    (hroom : heads.length ≤ room) (hlast : heads.length < room → last.isCons = false) :
    spine force room v m = .ok (heads, last) n := by
  induction h generalizing room with
  | stop m v =>
    cases room with
    | zero => cases v <;> rfl
    | succ room =>
      have hv := hlast (Nat.succ_pos room)
      cases v with
      | cons => cases hv
      | _ => rfl
  | pass htail _ ih =>
    obtain ⟨room, rfl⟩ : ∃ k, room = k + 1 := ⟨room - 1, by rw [List.length_cons] at hroom; omega⟩
    have hrest := ih (Nat.le_of_succ_le_succ hroom) fun hlt => hlast (Nat.succ_lt_succ hlt)
    rw [spine, bind_apply_ok htail, bind_apply_ok hrest]
    rfl

/-- **Never are more tails demanded than there is room**, also when a demand fails: the cells that
have been passed are as many as demands that have been answered. -/
theorem exists_walk (force : ThunkId → Eval Value) (room : Nat) (v : Value) (m : Machine) :
    ∃ heads last n, Walk force m v heads last n ∧ heads.length ≤ room ∧
      ((heads.length < room → last.isCons = false) ∨
        heads.length < room ∧ ∃ head tail e k, last = .cons head tail ∧
          force tail n = .error e k ∧ spine force room v m = .error e k) := by
  induction room generalizing v m with
  | zero => exact ⟨[], v, m, .stop m v, Nat.le_refl 0, .inl fun h => absurd h (Nat.lt_irrefl 0)⟩
  | succ room ih =>
    cases v with
    | cons head tail =>
      -- if the demand for the next cell fails, so does the walk
      cases htail : force tail m with
      | error e k =>
        refine ⟨[], _, m, .stop m _, Nat.zero_le _, .inr ⟨Nat.succ_pos room, ?_⟩⟩
        exact ⟨head, tail, e, k, rfl, htail, bind_apply_error htail _⟩
      | ok next n =>
        obtain ⟨heads, last, k, hwalk, hle, hend⟩ := ih next n
        refine ⟨head :: heads, last, k, .pass htail hwalk, Nat.succ_le_succ hle, ?_⟩
        rcases hend with hlast | ⟨hlt, head', tail', e, k', hlast, herror, hspine⟩
        · exact .inl fun h => hlast (Nat.lt_of_succ_lt_succ h)
        · refine .inr ⟨Nat.succ_lt_succ hlt, head', tail', e, k', hlast, herror, ?_⟩
          rw [spine, bind_apply_ok htail]
          exact bind_apply_error hspine _
    -- a value that is no cell ends the walk
    | _ => exact ⟨[], _, m, .stop m _, Nat.zero_le _, .inl fun _ => rfl⟩

end Walks

/-! ### Lists -/

/-- The text of a value one level deeper. -/
def nestedText (config : Config) : Nat → Value → Eval String
  | 0, _ => limitReached config .unknown
  | levels + 1, v => renderAt config levels v

/-- The text of a suspension's value one level deeper. -/
def elementText (config : Config) (levels : Nat) (t : ThunkId) : Eval String := do
  nestedText config levels (← force (eval config levels) t)

theorem renderAt_eq (config : Config) (levels : Nat) :
    renderAt config levels =
      renderWith config (force (eval config levels)) (nestedText config levels) := by
  funext v
  cases levels <;> rw [renderAt] <;> rfl

/-- The text of a list of which the heads of some cells are known, and what is behind them. -/
def listText (config : Config) (levels : Nat) (heads : List ThunkId) : Value → Eval String
  | .nil => do
    return "[" ++ (← commaSeparated (elementText config levels) heads) ++ "]"
  | .cons .. =>
    if config.renderLimit = 0 then throw (.spineLimit config.spineLimit .unknown)
    else do return "[" ++ (← commaSeparated (elementText config levels) heads) ++ ", ...]"
  | last => do
    let shown ← colonTerminated (elementText config levels) heads
    countHit
    return shown ++ (← nestedText config levels last)

/-- The most tails of a list that are demanded. -/
def listRoom (config : Config) : Nat :=
  if config.renderLimit = 0 then config.spineLimit + 1 else config.renderLimit

theorem listRoom_of_pos {config : Config} (h : 1 ≤ config.renderLimit) :
    listRoom config = config.renderLimit :=
  if_neg (Nat.ne_of_gt h)

/-- **A list is walked along first**, and printed then. -/
theorem renderAt_cons (config : Config) (levels : Nat) (head tail : ThunkId) :
    renderAt config levels (.cons head tail) =
      spine (force (eval config levels)) (listRoom config) (.cons head tail) >>= fun found =>
        listText config levels found.1 found.2 := by
  have hroom : listRoom config =
      (if config.renderLimit = 0 then config.spineLimit else config.renderLimit - 1) + 1 := by
    unfold listRoom
    split <;> omega
  rw [renderAt_eq, renderWith, hroom, spine]
  simp only [bind_assoc, pure_bind]
  rfl

section Texts

variable {config : Config} {levels : Nat} {m n : Machine} {text : String} {heads : List ThunkId}

/-- Elements between brackets. -/
theorem enclosed_eq_ok {element : ThunkId → Eval String} {ts : List ThunkId}
    {opening closing : String} :
    (do return opening ++ (← commaSeparated element ts) ++ closing : Eval String) m = .ok text n ↔
      ∃ texts, Each element m ts texts n ∧
        text = opening ++ ", ".intercalate texts ++ closing := by
  refine bind_eq_ok.trans ?_
  simp only [pure_eq_ok, commaSeparated_eq_ok]
  constructor
  · rintro ⟨_, k, ⟨texts, htexts, rfl⟩, rfl, rfl⟩
    exact ⟨texts, htexts, rfl⟩
  · rintro ⟨texts, htexts, rfl⟩
    exact ⟨_, n, ⟨texts, htexts, rfl⟩, rfl, rfl⟩

/-- The dots stand behind a comma, unless nothing is shown. -/
theorem intercalate_dots (texts : List String) :
    ", ".intercalate (texts ++ dots true) =
      ", ".intercalate texts ++ if texts = [] then "..." else ", ..." := by
  by_cases h : texts = []
  · subst h
    simp [dots]
  · rw [dots, if_pos rfl, String.intercalate_append_of_ne_nil h (List.cons_ne_nil _ _), if_neg h,
      String.intercalate_singleton, String.append_assoc]
    rfl

/-- The value prints as the texts of these elements between brackets, with dots behind them if
something is left out.  They are demanded from the second machine on. -/
def Prints (config : Config) (levels : Nat) (m : Machine) (v : Value) (n : Machine)
    (opening : String) (shown : List ThunkId) (cut : Bool) (closing : String) : Prop :=
  ∀ text k, renderAt config levels v m = .ok text k ↔
    ∃ texts, Each (elementText config levels) n shown texts k ∧
      text = opening ++ ", ".intercalate (texts ++ dots cut) ++ closing

/-- The value prints as the texts of these elements and that of the last value, with colons between
them.  The last value is not behind a suspension, and finding it counts as a hit. -/
def PrintsChain (config : Config) (levels : Nat) (m : Machine) (v : Value) (n : Machine)
    (shown : List ThunkId) (last : Value) : Prop :=
  ∀ text k, renderAt config levels v m = .ok text k ↔
    ∃ texts n' ending, Each (elementText config levels) n shown texts n' ∧
      nestedText config levels last { n' with hits := n'.hits + 1 } = .ok ending k ∧
      text = " : ".intercalate (texts ++ [ending])

/-- **A tuple shows its first elements**, and dots for the others. -/
theorem prints_tuple (config : Config) (levels : Nat) (m : Machine) (ts : List ThunkId) :
    Prints config levels m (.tuple ts) m "(" (ts.take config.renderLimit)
      (config.renderLimit < ts.length) ")" := by
  have htuple : renderAt config levels (.tuple ts) = (do
      return "(" ++ (← commaSeparated (elementText config levels) (ts.take config.renderLimit)) ++
        ((if ts.length ≤ config.renderLimit then "" else
          if config.renderLimit = 0 then "..." else ", ...") ++ ")")) := by
    rw [renderAt_eq, renderWith, renderTuple]
    simp only [String.append_assoc]
    rfl
  intro text k
  rw [htuple, enclosed_eq_ok]
  refine exists_congr fun texts => and_congr_right fun htexts => ?_
  by_cases hall : ts.length ≤ config.renderLimit
  · have hdots : dots (config.renderLimit < ts.length) = [] := by simp [dots, hall]
    rw [if_pos hall, hdots, List.append_nil, String.empty_append]
  · have hcut : decide (config.renderLimit < ts.length) = true := by simpa using hall
    -- nothing is shown just if the limit is zero, and then the dots stand alone
    have hnone : texts = [] ↔ config.renderLimit = 0 := by
      have hlength := htexts.length_eq
      rw [List.length_take] at hlength
      rw [← List.length_eq_zero_iff]
      omega
    rw [if_neg hall, hcut, intercalate_dots, if_congr hnone rfl rfl]
    simp only [String.append_assoc]

end Texts

section Lists

variable {config : Config} {levels : Nat} {m n : Machine} {head tail : ThunkId}
  {heads : List ThunkId} {last : Value}

/-- **A list that has been walked along is printed from there**, if there is room for the walk. -/
theorem Walk.renderAt_eq
    (h : Walk (force (eval config levels)) m (.cons head tail) heads last n)
    (hroom : heads.length ≤ listRoom config)
    (hlast : heads.length < listRoom config → last.isCons = false) :
    renderAt config levels (.cons head tail) m = listText config levels heads last n := by
  rw [renderAt_cons, bind_apply_ok (h.spine_eq hroom hlast)]

/-- A list within the limits is printed whole. -/
theorem Walk.prints_whole
    (h : Walk (force (eval config levels)) m (.cons head tail) heads .nil n)
    (hroom : heads.length ≤ listRoom config) :
    Prints config levels m (.cons head tail) n "[" heads false "]" := by
  intro text k
  rw [h.renderAt_eq hroom fun _ => rfl, listText, enclosed_eq_ok]
  simp [dots]

/-- A list with a further cell behind the last one that may be shown is cut. -/
theorem Walk.prints_cut {next further : ThunkId}
    (h : Walk (force (eval config levels)) m (.cons head tail) heads (.cons next further) n)
    (hlimit : 1 ≤ config.renderLimit) (hheads : heads.length = config.renderLimit) :
    Prints config levels m (.cons head tail) n "[" heads true "]" := by
  have hroom := listRoom_of_pos hlimit
  intro text k
  rw [h.renderAt_eq (by omega) (by omega), listText, if_neg (by omega), enclosed_eq_ok]
  refine exists_congr fun texts => and_congr_right fun htexts => ?_
  have hne : texts ≠ [] := by
    rw [← List.length_pos_iff, htexts.length_eq]
    omega
  rw [intercalate_dots, if_neg hne]
  simp only [String.append_assoc]
  rfl

/-- **A proper list shows its first elements**, and dots for the others. -/
theorem Walk.exists_prints (h : Walk (force (eval config levels)) m (.cons head tail) heads .nil n)
    (hlimit : 1 ≤ config.renderLimit) :
    ∃ last k, Walk (force (eval config levels)) m (.cons head tail)
        (heads.take config.renderLimit) last k ∧
      Prints config levels m (.cons head tail) k "[" (heads.take config.renderLimit)
        (config.renderLimit < heads.length) "]" := by
  by_cases hcut : config.renderLimit < heads.length
  · obtain ⟨next, further, k, htake⟩ := h.take hcut
    refine ⟨_, k, htake, ?_⟩
    rw [decide_eq_true hcut]
    exact htake.prints_cut hlimit (List.length_take_of_le hcut.le)
  · rw [List.take_of_length_le (Nat.le_of_not_lt hcut), decide_eq_false hcut]
    exact ⟨_, n, h, h.prints_whole (by rw [listRoom_of_pos hlimit]; omega)⟩

/-- A chain of cells that ends in something else prints all its elements and its end. -/
theorem Walk.prints_chain
    (h : Walk (force (eval config levels)) m (.cons head tail) heads last n)
    (hroom : heads.length ≤ listRoom config) (hcons : last.isCons = false) (hnil : last ≠ .nil) :
    PrintsChain config levels m (.cons head tail) n heads last := by
  have hlist : listText config levels heads last = (do
      let shown ← colonTerminated (elementText config levels) heads
      countHit
      return shown ++ (← nestedText config levels last)) := by
    -- what is behind the cells is neither a cell nor the end of a list
    cases last with
    | nil => exact absurd rfl hnil
    | cons => cases hcons
    | _ => rfl
  intro text k
  rw [h.renderAt_eq hroom fun _ => hcons, hlist]
  simp only [bind_eq_ok, pure_eq_ok, colonTerminated_eq_ok]
  constructor
  · rintro ⟨_, n', ⟨texts, htexts, rfl⟩, _, n'', hcount, ending, k', hending, rfl, rfl⟩
    cases hcount
    -- the hit for the last tail is counted between the elements and the end
    exact ⟨texts, n', ending, htexts, hending, join_colons_append texts ending⟩
  · rintro ⟨texts, n', ending, htexts, hending, rfl⟩
    exact ⟨_, n', ⟨texts, htexts, rfl⟩, (), _, rfl, ending, k, hending,
      join_colons_append texts ending, rfl⟩

/-- **A limited list is printed with few demands for tails**, whether that succeeds or fails. -/
theorem exists_walk_renderAt (hlimit : 1 ≤ config.renderLimit) (levels : Nat) (head tail : ThunkId)
    (m : Machine) :
    ∃ heads last n, Walk (force (eval config levels)) m (.cons head tail) heads last n ∧
      heads.length ≤ config.renderLimit ∧
      ((heads.length < config.renderLimit → last.isCons = false) ∧
          renderAt config levels (.cons head tail) m = listText config levels heads last n ∨
        heads.length < config.renderLimit ∧ ∃ next further e k, last = .cons next further ∧
          force (eval config levels) further n = .error e k ∧
          renderAt config levels (.cons head tail) m = .error e k) := by
  have hroom := listRoom_of_pos hlimit
  obtain ⟨heads, last, n, hwalk, hle, hend⟩ :=
    exists_walk (force (eval config levels)) config.renderLimit (.cons head tail) m
  refine ⟨heads, last, n, hwalk, hle, hend.imp (fun hlast => ?_) ?_⟩
  · exact ⟨hlast, hwalk.renderAt_eq (by omega) (by rwa [hroom])⟩
  · rintro ⟨hlt, next, further, e, k, hlast, herror, hspine⟩
    refine ⟨hlt, next, further, e, k, hlast, herror, ?_⟩
    rw [renderAt_cons, hroom]
    exact bind_apply_error hspine _

/-! ### Endless lists -/

/-- A scalar prints without any demand. -/
theorem exists_renderAt_of_isScalar (config : Config) (levels : Nat) {v : Value}
    (hv : v.isScalar = true) : ∃ text, renderAt config levels v = pure text := by
  rw [renderAt_eq]
  cases v with
  | integer n => exact ⟨_, rfl⟩
  | boolean b => exact ⟨_, rfl⟩
  | nil => exact ⟨_, rfl⟩
  | _ => cases hv

/-- Elements that are scalars are printed with their demands alone. -/
theorem Each.elementText_of_isScalar {ts : List ThunkId} {values : List Value} {k : Machine}
    (h : Each (force (eval config (levels + 1))) m ts values k)
    (hvalues : ∀ v ∈ values, v.isScalar = true) :
    ∃ texts, Each (elementText config (levels + 1)) m ts texts k := by
  induction h with
  | nil => exact ⟨[], .nil _⟩
  | @cons m n k t ts v values ht hts ih =>
    obtain ⟨hv, hvalues⟩ := List.forall_mem_cons.1 hvalues
    obtain ⟨texts, htexts⟩ := ih hvalues
    obtain ⟨text, htext⟩ := exists_renderAt_of_isScalar config levels hv
    refine ⟨text :: texts, .cons ?_ htexts⟩
    rw [elementText, bind_apply_ok ht]
    change renderAt config levels v n = _
    rw [htext]
    rfl

/-- **A list of scalars is printed as far as the limit goes**, when one level is left for them. -/
theorem Walk.exists_renderAt_of_isScalar {next further : ThunkId} {values : List Value}
    {k : Machine}
    (h : Walk (force (eval config (levels + 1))) m (.cons head tail) heads (.cons next further) n)
    (hlimit : 1 ≤ config.renderLimit) (hheads : heads.length = config.renderLimit)
    (helems : Each (force (eval config (levels + 1))) n heads values k)
    (hvalues : ∀ v ∈ values, v.isScalar = true) :
    ∃ text, renderAt config (levels + 1) (.cons head tail) m = .ok text k := by
  obtain ⟨texts, htexts⟩ := helems.elementText_of_isScalar hvalues
  exact ⟨_, (h.prints_cut hlimit hheads _ k).2 ⟨texts, htexts, rfl⟩⟩

/-- With no level left its first element fails. -/
theorem Walk.renderAt_zero {next further : ThunkId} {values : List Value} {k : Machine}
    (h : Walk (force (eval config 0)) m (.cons head tail) heads (.cons next further) n)
    (hlimit : 1 ≤ config.renderLimit) (hheads : heads.length = config.renderLimit)
    (helems : Each (force (eval config 0)) n heads values k) :
    ∃ k', renderAt config 0 (.cons head tail) m =
      .error (.recursionLimit config.maxDepth .unknown) k' := by
  have hroom := listRoom_of_pos hlimit
  rw [h.renderAt_eq (by omega) (by omega), listText, if_neg (by omega)]
  cases helems with
  | nil => exact absurd hheads (by rw [List.length_nil]; omega)
  | @cons _ k' _ t ts _ _ ht _ =>
    have helement : elementText config 0 t n =
        .error (.recursionLimit config.maxDepth .unknown) k' := by
      rw [elementText, bind_apply_ok ht]
      rfl
    refine ⟨k', bind_apply_error ?_ _⟩
    cases ts with
    | nil => exact helement
    | cons => exact bind_apply_error helement _

/-- **Printing an endless list of scalars ends**, whatever is behind the elements shown: the
interpreter that repeats its loops without bound comes to what the evaluator comes to. -/
theorem Walk.run_render {next further : ThunkId} {values : List Value} {k : Machine}
    (h : Walk (force (eval config levels)) m (.cons head tail) heads (.cons next further) n)
    (hlimit : 1 ≤ config.renderLimit) (hheads : heads.length = config.renderLimit)
    (helems : Each (force (eval config levels)) n heads values k)
    (hvalues : ∀ v ∈ values, v.isScalar = true) {depth fuel : Nat}
    (hdepth : depth + levels = config.maxDepth)
    (hfuel : Unbounded.evalTurns config levels + config.renderLimit + 1 < fuel) :
    Unbounded.run config fuel (.render (.cons head tail)) ⟨m, depth⟩ =
      some (Unbounded.resume ⟨m, depth⟩ (renderAt config levels (.cons head tail) m)) := by
  have hcompletes := Unbounded.completes_render config hlimit levels fuel hfuel (.cons head tail)
    ⟨m, depth⟩ hdepth
  refine hcompletes.resolve_left ?_
  -- the interpreter without bounds ends unless the evaluator gives up, which it does not here
  rintro ⟨limit, span, m', hgives⟩
  cases levels with
  | zero =>
    obtain ⟨k', herror⟩ := h.renderAt_zero hlimit hheads helems
    rw [herror] at hgives
    cases hgives
  | succ levels =>
    obtain ⟨text, htext⟩ := h.exists_renderAt_of_isScalar hlimit hheads helems hvalues
    rw [htext] at hgives
    cases hgives

end Lists

/-! ### The limit -/

/-- **Printing respects the limit**, on any machine and with any number of levels left.  A tuple
shows its first elements up to the limit, and dots if there are more.

With a limit of at least one the same holds for lists.  A proper list shows its first elements and
dots if there are more; a list with more cells than that, whatever is behind them, shows the first
ones and dots; and one that ends in something else shows its elements and its end.  No more tails
are demanded than elements may be shown, also when one of the demands fails.  So the text of an
endless list of scalars is found, by an interpreter without bounds on its loops too.

With a limit of zero no list is cut. -/
theorem renderAt_limited (config : Config) (levels : Nat) (m : Machine) :
    let limit := config.renderLimit
    let force := force (eval config levels)
    (∀ ts, Prints config levels m (.tuple ts) m "(" (ts.take limit) (limit < ts.length) ")") ∧
    (1 ≤ limit → ∀ head tail,
      let v := Value.cons head tail
      (∀ items n, Walk force m v items .nil n →
        ∃ last k, Walk force m v (items.take limit) last k ∧
          Prints config levels m v k "[" (items.take limit) (limit < items.length) "]") ∧
      (∀ heads next further n, Walk force m v heads (.cons next further) n →
        heads.length = limit → Prints config levels m v n "[" heads true "]") ∧
      (∀ items last n, Walk force m v items last n → items.length ≤ limit →
        last.isCons = false → last ≠ .nil → PrintsChain config levels m v n items last) ∧
      (∃ heads last n, Walk force m v heads last n ∧ heads.length ≤ limit ∧
        ((heads.length < limit → last.isCons = false) ∧
            renderAt config levels v m = listText config levels heads last n ∨
          heads.length < limit ∧ ∃ next further e k, last = .cons next further ∧
            force further n = .error e k ∧ renderAt config levels v m = .error e k)) ∧
      ∀ heads next further n values k, Walk force m v heads (.cons next further) n →
        heads.length = limit → Each force n heads values k → (∀ w ∈ values, w.isScalar = true) →
          (1 ≤ levels → ∃ text, renderAt config levels v m = .ok text k) ∧
          ∀ depth fuel, depth + levels = config.maxDepth →
            Unbounded.evalTurns config levels + limit + 1 < fuel →
              Unbounded.run config fuel (.render v) ⟨m, depth⟩ =
                some (Unbounded.resume ⟨m, depth⟩ (renderAt config levels v m))) ∧
    (limit = 0 → ∀ head tail items last n,
      let v := Value.cons head tail
      Walk force m v items last n → items.length ≤ config.spineLimit + 1 →
        (last = .nil → Prints config levels m v n "[" items false "]") ∧
        (last.isCons = false → last ≠ .nil → PrintsChain config levels m v n items last)) := by
  intro limit force
  refine ⟨prints_tuple config levels m, fun hlimit head tail => ?_, fun hlimit => ?_⟩
  · -- a positive limit is the room of the walk
    have hroom : listRoom config = limit := listRoom_of_pos hlimit
    refine ⟨fun items n h => h.exists_prints hlimit,
      fun heads next further n h hheads => h.prints_cut hlimit hheads,
      fun items last n h hle => h.prints_chain (hle.trans_eq hroom.symm),
      exists_walk_renderAt hlimit levels head tail m,
      fun heads next further n values k h hheads helems hvalues =>
        ⟨fun hlevels => ?_, fun depth fuel hdepth hfuel =>
          h.run_render hlimit hheads helems hvalues hdepth hfuel⟩⟩
    obtain ⟨levels, rfl⟩ : ∃ l, levels = l + 1 := ⟨levels - 1, by omega⟩
    exact h.exists_renderAt_of_isScalar hlimit hheads helems hvalues
  · -- without a limit the walk goes on to the bound on lists, and no element is cut off
    intro head tail items last n v h hle
    have hroom : listRoom config = config.spineLimit + 1 := if_pos hlimit
    refine ⟨?_, h.prints_chain (hle.trans_eq hroom.symm)⟩
    rintro rfl
    exact h.prints_whole (hle.trans_eq hroom.symm)

/-- Ones without end: two are shown, also by the interpreter without bounds on its loops, which
needs few turns. -/
theorem renderAt_limited_ones :
    let config : Config := { maxDepth := 1, renderLimit := 2 }
    let m : Machine :=
      { Machine.initial with cells := #[.evaluated (.integer 1), .evaluated (.cons 0 1)] }
    let fuel := Unbounded.evalTurns config 1 + config.renderLimit + 2
    ∃ text, renderAt config 1 (.cons 0 1) m = .ok text { m with hits := 4 } ∧
      Unbounded.run config fuel (.render (.cons 0 1)) ⟨m, 0⟩ =
        some (.ok text, ⟨{ m with hits := 4 }, 0⟩) := by
  intro config m fuel
  let seen (hits : Nat) : Machine := { m with hits }
  have hhead (hits : Nat) :
      force (eval config 1) 0 (seen hits) = .ok (.integer 1) (seen (hits + 1)) :=
    ByName.force_of_evaluated rfl
  have htail (hits : Nat) :
      force (eval config 1) 1 (seen hits) = .ok (.cons 0 1) (seen (hits + 1)) :=
    ByName.force_of_evaluated rfl
  have hwalk : Walk (force (eval config 1)) m (.cons 0 1) [0, 0] (.cons 0 1) (seen 2) :=
    .pass (htail 0) (.pass (htail 1) (.stop _ _))
  have helems : Each (force (eval config 1)) (seen 2) [0, 0] [.integer 1, .integer 1] (seen 4) :=
    .cons (hhead 2) (.cons (hhead 3) (.nil _))
  -- of the general statement the part about lists without end is used
  have hends := ((renderAt_limited config 1 m).2.1 (by decide) 0 1).2.2.2.2
  obtain ⟨hshown, hrun⟩ := hends _ _ _ _ _ _ hwalk rfl helems (by simp [Value.isScalar])
  obtain ⟨text, htext⟩ := hshown (Nat.le_refl 1)
  refine ⟨text, htext, ?_⟩
  rw [hrun 0 fuel rfl (Nat.lt_succ_self _), htext]
  rfl

/-- **With a limit of zero** one element of a list is shown, and no dots. -/
theorem not_prints_dots :
    ¬∀ (config : Config) (levels : Nat) (m : Machine) (head tail : ThunkId) (items : List ThunkId)
        (n : Machine), Walk (force (eval config levels)) m (.cons head tail) items .nil n →
      ∃ last k, Walk (force (eval config levels)) m (.cons head tail)
          (items.take config.renderLimit) last k ∧
        Prints config levels m (.cons head tail) k "[" (items.take config.renderLimit)
          (config.renderLimit < items.length) "]" := by
  intro h
  let config : Config := { renderLimit := 0 }
  let m : Machine :=
    { Machine.initial with cells := #[.evaluated (.integer 1), .evaluated .nil] }
  have hwalk : Walk (force (eval config 1)) m (.cons 0 1) [0] .nil { m with hits := 1 } :=
    .pass (ByName.force_of_evaluated rfl) (.stop _ _)
  obtain ⟨last, k, -, hprints⟩ := h config 1 m 0 1 [0] _ hwalk
  have helement : elementText config 1 0 { m with hits := 1 } = .ok "1" { m with hits := 2 } := by
    rw [elementText, bind_apply_ok (ByName.force_of_evaluated rfl)]
    rfl
  have htext : renderAt config 1 (.cons 0 1) m = .ok "[1]" { m with hits := 2 } :=
    (hwalk.prints_whole (by decide) _ _).2 ⟨["1"], .cons helement (.nil _), by decide⟩
  obtain ⟨texts, htexts, htext⟩ := (hprints _ _).1 htext
  cases htexts
  exact absurd htext (by decide)

end Eval

end CallByNeed

import CallByNeed.Evaluator

/-!
# Printing values

A value is evaluated completely while it is printed.  A list prints in square brackets, a tuple in
round ones and a function as `<function>`; a chain of cells that ends in something else prints its
elements and its end with colons between them.

At most `renderLimit` elements of a list or a tuple are printed, and three dots stand for the
others.  The limit `0` holds for tuples only: it lets a list through whole.  The cells of a list
are demanded before its elements are printed.  Each element takes one level of nesting.
-/

namespace CallByNeed.Eval

/-- The texts of suspended elements, with commas between them. -/
def commaSeparated (element : ThunkId → Eval String) : List ThunkId → Eval String
  | [] => return ""
  | [t] => element t
  | t :: ts => do
    let first ← element t
    let rest ← commaSeparated element ts
    return first ++ ", " ++ rest

/-- The text of a tuple that shows at most `limit` elements. -/
def renderTuple (limit : Nat) (element : ThunkId → Eval String) (ts : List ThunkId) :
    Eval String := do
  let shown ← commaSeparated element (ts.take limit)
  let dots := if ts.length ≤ limit then "" else if limit = 0 then "..." else ", ..."
  return "(" ++ shown ++ dots ++ ")"

/-- Walks along a list for at most `room` cells, demanding the tail of each.  Yields their heads
and the value behind them. -/
def spine (force : ThunkId → Eval Value) : Nat → Value → Eval (List ThunkId × Value)
  | room + 1, .cons head tail => do
    let next ← force tail
    let (heads, last) ← spine force room next
    return (head :: heads, last)
  | _, v => return ([], v)

/-- The texts of suspended elements, with a colon behind each. -/
def colonTerminated (element : ThunkId → Eval String) : List ThunkId → Eval String
  | [] => return ""
  | t :: ts => do
    let first ← element t
    let rest ← colonTerminated element ts
    return first ++ " : " ++ rest

/-- The text of a value.  The values of suspensions are found with `force`, and those of elements
printed with `nested`. -/
def renderWith (config : Config) (force : ThunkId → Eval Value)
    (nested : Value → Eval String) : Value → Eval String
  | .integer n => return toString n
  | .boolean b => return toString b
  | .closure .. => return "<function>"
  | .nil => return "[]"
  | .tuple ts => renderTuple config.renderLimit (fun t => do nested (← force t)) ts
  | .cons head tail => do
    let element (t : ThunkId) : Eval String := do nested (← force t)
    let room := if config.renderLimit = 0 then config.spineLimit else config.renderLimit - 1
    let (heads, last) ← spine force room (← force tail)
    match last with
    | .nil => return "[" ++ (← commaSeparated element (head :: heads)) ++ "]"
    | .cons .. =>
      if config.renderLimit = 0 then throw (.spineLimit config.spineLimit .unknown)
      else return "[" ++ (← commaSeparated element (head :: heads)) ++ ", ...]"
    | last =>
      let shown ← colonTerminated element (head :: heads)
      countHit
      return shown ++ (← nested last)

/-- The text of a value, with the given number of levels left. -/
def renderAt (config : Config) : Nat → Value → Eval String
  | 0, v =>
    renderWith config (force (eval config 0)) (fun _ => limitReached config .unknown) v
  | depth + 1, v =>
    renderWith config (force (eval config (depth + 1))) (renderAt config depth) v

/-- The text of a value. -/
def render (config : Config) (v : Value) : Eval String :=
  renderAt config config.maxDepth v

end CallByNeed.Eval

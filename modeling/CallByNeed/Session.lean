import CallByNeed.Expr.Arena
import CallByNeed.Render

/-!
# Sessions

A session evaluates one expression after the other on the same machine.  Texts are read into its
arena first and then known by their numbers.  The values that are found are kept in numbered slots
and can be printed, bound to names in the root, or taken apart by patterns; the names that the last
pattern bound can be demanded one by one.  Neither an error nor a failed match ends a session.
-/

namespace CallByNeed

/-- The state of a session. -/
structure Session where
  config : Config
  arena : Arena
  machine : Machine
  /-- The values found so far, `none` where there was an error. -/
  slots : Array (Option Value)
  /-- The names that the last pattern bound. -/
  bindings : Bindings ThunkId

namespace Session

/-- A session before its first step. -/
def start (config : Config) : Session :=
  ⟨config, .empty, .initial, #[], []⟩

/-- The work done so far. -/
def stats (s : Session) : Stats :=
  s.machine.stats

/-- Reads a text that is one expression. -/
def read (s : Session) (source : String) : Except ParseError ExprId × Session :=
  let (result, arena) := s.arena.read .standard source
  (result, { s with arena })

/-- Reads a text that is one pattern. -/
def readPattern (s : Session) (source : String) : Except ParseError PatternId × Session :=
  let (result, arena) := s.arena.readPattern source
  (result, { s with arena })

/-- The value in a slot. -/
def slot? (s : Session) (slot : Nat) : Option Value :=
  (s.slots[slot]?).join

/-- Puts a value, or nothing after an error, into the next slot. -/
def store (s : Session) (v : Option Value) : Session :=
  { s with slots := s.slots.push v }

/-- Evaluates an expression and puts the value into the next slot.  Answers with the kind of the
value; after an error the slot stays empty.  A number that stands for no expression has no
answer. -/
def evaluate (s : Session) (id : ExprId) : Option (Except EvalError String) × Session :=
  match s.arena.expr? id with
  | none => (none, s)
  | some e =>
    match Eval.evaluate s.config e s.machine with
    | .ok v machine => (some (.ok v.typeName), { s with machine }.store (some v))
    | .error err machine => (some (.error err), { s with machine }.store none)

/-- Prints the value in a slot; no answer if there is none. -/
def render (s : Session) (slot : Nat) : Option (Except EvalError String) × Session :=
  match s.slot? slot with
  | none => (none, s)
  | some v =>
    match Eval.render s.config v s.machine with
    | .ok text machine => (some (.ok text), { s with machine })
    | .error err machine => (some (.error err), { s with machine })

/-- Binds a name in the root to a value. -/
def define (s : Session) (name : String) (v : Value) : Session :=
  { s with machine := s.machine.define name v }

/-- Binds a name in the root to the value in a slot, and tells whether there is one. -/
def defineSlot (s : Session) (name : String) (slot : Nat) : Bool × Session :=
  match s.slot? slot with
  | none => (false, s)
  | some v => (true, s.define name v)

/-- Matches the suspension of an expression against a pattern and keeps the names that it binds,
also those bound before a failure or an error.  Answers whether the pattern fits; numbers that
stand for nothing have no answer. -/
def matchPattern (s : Session) (pattern : PatternId) (subject : ExprId) :
    Option (Except EvalError Bool) × Session :=
  match s.arena.pattern? pattern, s.arena.expr? subject with
  | some p, some e =>
    let (t, machine) := s.machine.allocate (.pending e Environments.root)
    match Matching.one (Eval.demand s.config) p t ⟨machine, []⟩ with
    | .ok fits ⟨machine, bindings⟩ => (some (.ok fits), { s with machine, bindings })
    | .error err ⟨machine, bindings⟩ => (some (.error err), { s with machine, bindings })
  | _, _ => (none, s)

/-- Demands the value of a name that the last pattern bound and puts it into the next slot.
Answers with the kind of the value and the slot; no answer if the name is not bound. -/
def force (s : Session) (name : String) : Option (Except EvalError (String × Nat)) × Session :=
  match s.bindings.find? name with
  | none => (none, s)
  | some t =>
    match Eval.demand s.config t s.machine with
    | .ok v machine => (some (.ok (v.typeName, s.slots.size)), { s with machine }.store (some v))
    | .error err machine => (some (.error err), { s with machine })

end Session

end CallByNeed

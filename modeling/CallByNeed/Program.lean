import CallByNeed.Expr.Parser
import CallByNeed.Expr.Printer
import CallByNeed.Render

/-!
# Whole programs

A program is one expression.  Running it means to read it, to reserve the stack for its evaluation,
to evaluate it and to print its value; each of these can fail, and the first failure is the result.
-/

namespace CallByNeed

namespace Expr

/-- The text of an expression's value, found on a machine of its own. -/
def valueText (config : Config) (e : Expr) : Except EvalError String :=
  let run : Eval String := do Eval.render config (← Eval.evaluate config e)
  match run Machine.initial with
  | .ok text _ => .ok text
  | .error err _ => .error err

/-- The text of an expression's value, provided that the stack can be reserved. -/
def evaluate (config : Config) (e : Expr) : Except EvalError String :=
  if config.stackAvailable then e.valueText config
  else .error (.stackUnavailable config.evalStackSize)

/-- Reads the canonical text of an expression and compares the result with it. -/
def readBack (e : Expr) : Except ParseError Bool :=
  (parse e.text).map e.same

end Expr

namespace Program

/-- Reads and evaluates a program that uses the operators of `table`. -/
def runWith (table : OperatorTable) (config : Config) (source : String) : Except Error String :=
  match Expr.parseWith table source with
  | .error err => .error (.parse err)
  | .ok e =>
    match e.evaluate config with
    | .error err => .error (.eval err)
    | .ok text => .ok text

/-- Reads and evaluates a program. -/
def run (config : Config) (source : String) : Except Error String :=
  runWith .standard config source

end Program

end CallByNeed

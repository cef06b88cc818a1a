/-!
# Limits

Evaluation is bounded by the nesting of evaluations, printing by the number of elements shown, and
comparison by the number of list cells walked.  Evaluation also reserves a stack in proportion to
the nesting it allows; sizes are machine words, so the product stops at the largest word, and a
size that no address space holds cannot be reserved.
-/

namespace CallByNeed

/-- The limits under which a program is evaluated and its value printed. -/
structure Config where
  /-- Deepest nesting of evaluations. -/
  maxDepth : Nat := 2000
  /-- Most elements of a list or tuple that are printed. -/
  renderLimit : Nat := 1000
  /-- Bytes of stack for the evaluation, if not derived from `maxDepth`. -/
  stackSize : Option Nat := none
  /-- Most cells of a list that one comparison walks, and that are printed without a limit. -/
  spineLimit : Nat := 4611686018427387904
deriving DecidableEq, Repr

namespace Config

/-- The largest machine word, `2 ^ 64 - 1`. -/
def maxWord : Nat :=
  18446744073709551615

/-- The product of two machine words, or the largest word if it is no word. -/
def saturatingMul (a b : Nat) : Nat :=
  min (a * b) maxWord

/-- Bytes of stack that one level of nesting takes. -/
def stackPerLevel : Nat :=
  32 * 1024

/-- Bytes of stack that are reserved at least. -/
def minStackSize : Nat :=
  2 * 1024 * 1024

/-- Bytes of stack that the evaluation reserves: as many as asked for, otherwise enough for
`maxDepth` levels. -/
def evalStackSize (config : Config) : Nat :=
  match config.stackSize with
  | some size => size
  | none => max (saturatingMul config.maxDepth stackPerLevel) minStackSize

/-- Sizes from here on, `2 ^ 47` bytes, exceed the address space. -/
def addressSpace : Nat :=
  140737488355328

/-- The stack of the evaluation can be reserved. -/
def stackAvailable (config : Config) : Bool :=
  config.evalStackSize < addressSpace

end Config

end CallByNeed

import CallByNeed.Error

/-!
# Integers of the language

Integers are those from `-2 ^ 63` to `2 ^ 63 - 1`.  An operation computes the exact result, and it
is an overflow if that is not one of them.

A power with a huge exponent is not written out: from `64` on only the parity of the exponent
matters.  Bases of absolute value at most one have the same power at any two such exponents of one
parity, and for all other bases the result is out of range at each of them.
-/

namespace CallByNeed.Arithmetic

/-- The number is an integer of the language, that is one of `64` bits with a sign. -/
def inRange (n : Int) : Bool :=
  -9223372036854775808 ≤ n && n ≤ 9223372036854775807

/-- The number as a result, or an overflow at `span`. -/
def checked (span : Span) (n : Int) : Except EvalError Int :=
  if inRange n then .ok n else .error (.overflow span)

/-- An exponent of the same effect that is at most `65`. -/
def smallExponent (n : Nat) : Nat :=
  if n < 64 then n else 64 + n % 2

/-- The power `base ^ exponent`. -/
def power (span : Span) (base exponent : Int) : Except EvalError Int :=
  if exponent < 0 then .error (.negativeExponent span)
  else checked span (base.pow (smallExponent exponent.toNat))

end CallByNeed.Arithmetic

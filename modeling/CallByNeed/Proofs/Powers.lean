import CallByNeed.Arithmetic
import Mathlib.Algebra.Order.Ring.Int
import Mathlib.Algebra.Ring.Parity

/-!
# Powers are exact

`Arithmetic.power` never writes a huge power out, but takes a small exponent of the same parity in
place of a large one.  For a base of absolute value at most one that gives the same power, since
only the parity of a large exponent matters (`pow_smallExponent`).  For every other base both powers
are out of range, because `2 ^ 64` is already (`not_inRange_pow`).  So the result is the power
itself, and an overflow just if the power is no integer of the language (`power_exact`).
-/

namespace CallByNeed.Arithmetic

variable {span : Span} {base : Int} {n : Nat}

/-! ### The range -/

theorem inRange_iff (n : Int) : inRange n = true ↔ -2 ^ 63 ≤ n ∧ n ≤ 2 ^ 63 - 1 := by
  simp [inRange]

theorem checked_eq_ok_iff {n r : Int} :
    checked span n = .ok r ↔ n = r ∧ -2 ^ 63 ≤ r ∧ r ≤ 2 ^ 63 - 1 := by
  rw [checked, ← inRange_iff]
  split <;> grind

theorem checked_eq_error_iff {n : Int} {e : EvalError} :
    checked span n = .error e ↔ ¬(-2 ^ 63 ≤ n ∧ n ≤ 2 ^ 63 - 1) ∧ e = .overflow span := by
  rw [checked, ← inRange_iff]
  split <;> grind

/-! ### Large exponents -/

/-- **From `64` on the powers are out of range**, unless the base is `-1`, `0` or `1`. -/
theorem not_inRange_pow (hbase : 2 ≤ base.natAbs) (hn : 64 ≤ n) : inRange (base ^ n) = false := by
  have hlarge : 2 ^ 64 ≤ (base ^ n).natAbs := calc
    2 ^ 64 ≤ 2 ^ n := Nat.pow_le_pow_right (by decide) hn
    _ ≤ base.natAbs ^ n := Nat.pow_le_pow_left hbase n
    _ = (base ^ n).natAbs := (Int.natAbs_pow base n).symm
  rw [Bool.eq_false_iff, Ne, inRange_iff]
  omega

/-- The small exponent is large as well, and of the same parity. -/
theorem smallExponent_of_le (hn : 64 ≤ n) :
    64 ≤ smallExponent n ∧ (Even (smallExponent n) ↔ Even n) := by
  rw [smallExponent, if_neg (Nat.not_lt.2 hn), Nat.even_iff, Nat.even_iff]
  omega

/-- **Of a small base only the parity of a large exponent matters.** -/
theorem pow_smallExponent (hbase : base.natAbs ≤ 1) : base ^ smallExponent n = base ^ n := by
  by_cases hn : n < 64
  · rw [smallExponent, if_pos hn]
  · obtain ⟨hlarge, hparity⟩ := smallExponent_of_le (Nat.le_of_not_lt hn)
    obtain rfl | rfl | rfl : base = 0 ∨ base = 1 ∨ base = -1 := by omega
    · rw [zero_pow (by omega), zero_pow (by omega)]
    · rw [one_pow, one_pow]
    · rcases Nat.even_or_odd n with heven | hodd
      · rw [heven.neg_one_pow, (hparity.2 heven).neg_one_pow]
      · have hodd' : Odd (smallExponent n) := by
          rw [← Nat.not_even_iff_odd, hparity, Nat.not_even_iff_odd]
          exact hodd
        rw [hodd.neg_one_pow, hodd'.neg_one_pow]

/-- **The small exponent stands for the given one**: the two powers are equal or both out of
range. -/
theorem checked_pow_smallExponent (span : Span) (base : Int) (n : Nat) :
    checked span (base ^ smallExponent n) = checked span (base ^ n) := by
  by_cases hbase : base.natAbs ≤ 1
  · rw [pow_smallExponent hbase]
  by_cases hn : n < 64
  · rw [smallExponent, if_pos hn]
  · have hlarge := Nat.le_of_not_lt hn
    have hbase : 2 ≤ base.natAbs := by omega
    simp [checked, not_inRange_pow hbase hlarge,
      not_inRange_pow hbase (smallExponent_of_le hlarge).1]

/-! ### Powers -/

/-- **A power is exact.**  A negative exponent is an error.  For any other exponent, however large,
the result is the mathematical power if that is an integer of the language, and an overflow if it is
not.  There are no other results. -/
theorem power_exact (span : Span) (base exponent : Int) :
    (∀ r, power span base exponent = .ok r ↔
      0 ≤ exponent ∧ base ^ exponent.toNat = r ∧ -2 ^ 63 ≤ r ∧ r ≤ 2 ^ 63 - 1) ∧
    (∀ e, power span base exponent = .error e ↔
      exponent < 0 ∧ e = .negativeExponent span ∨
      0 ≤ exponent ∧ ¬(-2 ^ 63 ≤ base ^ exponent.toNat ∧ base ^ exponent.toNat ≤ 2 ^ 63 - 1) ∧
        e = .overflow span) := by
  by_cases hneg : exponent < 0
  · have hpower : power span base exponent = .error (.negativeExponent span) := if_pos hneg
    rw [hpower]
    grind
  · have hpower : power span base exponent = checked span (base ^ exponent.toNat) :=
      (if_neg hneg).trans (checked_pow_smallExponent span base exponent.toNat)
    have hnonneg : 0 ≤ exponent := Int.not_lt.1 hneg
    rw [hpower]
    refine ⟨fun r => ?_, fun e => ?_⟩
    · rw [checked_eq_ok_iff]
      exact ⟨fun h => ⟨hnonneg, h⟩, fun h => h.2⟩
    · rw [checked_eq_error_iff]
      exact ⟨fun h => .inr ⟨hnonneg, h⟩, fun h => (h.resolve_left fun h => hneg h.1).2⟩

/-- The smallest integer is a power, and at a huge exponent there are powers of `-1`. -/
example : power .unknown (-2) 63 = .ok (-9223372036854775808) ∧
    power .unknown (-1) 4294967297 = .ok (-1) ∧
    power .unknown 2 4294967296 = .error (.overflow .unknown) := by
  decide

end CallByNeed.Arithmetic

import Mathlib.Algebra.Order.Floor.Div
import Mathlib.Data.Nat.Log

/-!
# Doubling

`doubled c n` is the least of the numbers `c`, `2 * c`, `4 * c`, … that is at least `n`.
-/

namespace Doubling

/-- The least number `c * 2 ^ k` that is at least `n`. -/
def doubled (c n : ℕ) : ℕ :=
  c * 2 ^ Nat.clog 2 (n ⌈/⌉ c)

variable {c n : ℕ}

/-- How often `c` has to be doubled. -/
theorem clog_ceilDiv_le_iff (hc : 0 < c) (k : ℕ) :
  Nat.clog 2 (n ⌈/⌉ c) ≤ k ↔ n ≤ c * 2 ^ k
  := by
  rw [Nat.clog_le_iff_le_pow Nat.one_lt_two, ceilDiv_le_iff_le_mul hc]

theorem le_doubled (hc : 0 < c) (n : ℕ) :
  n ≤ doubled c n
  := (clog_ceilDiv_le_iff hc _).mp (Nat.le_refl _)

theorem self_le_doubled (c n : ℕ) :
  c ≤ doubled c n
  := Nat.le_mul_of_pos_right c (Nat.two_pow_pos _)

/-- A number that is large enough is not doubled. -/
theorem doubled_of_le (hc : 0 < c) (h : n ≤ c) :
  doubled c n = c
  := by
  have hzero : Nat.clog 2 (n ⌈/⌉ c) ≤ 0 := by
    rw [clog_ceilDiv_le_iff hc, pow_zero, mul_one]
    exact h
  rw [doubled, Nat.le_zero.mp hzero, pow_zero, mul_one]

/-- A number that is too small is doubled. -/
theorem doubled_of_lt (hc : 0 < c) (h : c < n) :
  doubled c n = doubled (c * 2) n
  := by
  have hdouble : 0 < c * 2 := Nat.mul_pos hc Nat.two_pos
  have hclog : Nat.clog 2 (n ⌈/⌉ c) = Nat.clog 2 (n ⌈/⌉ (c * 2)) + 1 := by
    apply eq_of_forall_ge_iff
    intro k
    rw [clog_ceilDiv_le_iff hc]
    cases k with
    | zero => omega
    | succ k => rw [Nat.add_le_add_iff_right, clog_ceilDiv_le_iff hdouble, pow_succ', mul_assoc]
  rw [doubled, doubled, hclog, pow_succ', mul_assoc]

end Doubling

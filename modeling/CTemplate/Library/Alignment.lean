import Mathlib.Algebra.Group.Nat.Defs
import Mathlib.Order.Bounds.Basic

/-!
# Alignment

`roundUp n a` is the least multiple of `a` that is at least `n`.  When `a` is a power of
two, clearing the low bits of `n + (a - 1)` gives it, in a machine word as long as the sum
does not wrap around, `roundUp_eq_and`.
-/

namespace Alignment

variable {n m a : ℕ}

/-- The least multiple of `a` that is at least `n`. -/
def roundUp (n a : ℕ) : ℕ := (n + (a - 1)) / a * a

theorem dvd_roundUp (n a : ℕ) :
  a ∣ roundUp n a
  := Nat.dvd_mul_left a _

theorem le_roundUp (ha : 0 < a) :
  n ≤ roundUp n a
  := by
  have hdiv := Nat.div_add_mod' (n + (a - 1)) a
  have hmod := Nat.mod_lt (n + (a - 1)) ha
  rw [roundUp]
  omega

theorem roundUp_le (ha : 0 < a) (hm : a ∣ m) (hn : n ≤ m) :
  roundUp n a ≤ m
  := by
  obtain ⟨k, rfl⟩ := hm
  have hlt : (n + (a - 1)) / a < k + 1 := by
    rw [Nat.div_lt_iff_lt_mul ha, Nat.succ_mul, Nat.mul_comm]
    omega
  rw [roundUp, Nat.mul_comm a]
  apply Nat.mul_le_mul_right a (Nat.le_of_lt_succ hlt)

/-- `roundUp n a` is the least multiple of `a` that is at least `n`. -/
theorem isLeast_roundUp (ha : 0 < a) :
  IsLeast { m | n ≤ m ∧ a ∣ m } (roundUp n a)
  := by
  constructor
  · apply And.intro (le_roundUp ha) (dvd_roundUp n a)
  · rintro m ⟨hn, hm⟩
    apply roundUp_le ha hm hn

/-- Clearing the low `k` bits of a number of `w` bits rounds it down. -/
theorem and_compl_mask {w k : ℕ} (hk : k ≤ w) (hn : n < 2 ^ w) :
  n &&& (2 ^ w - 1 - (2 ^ k - 1)) = n / 2 ^ k * 2 ^ k
  := by
  have hpow : 2 ^ k ≤ 2 ^ w := Nat.pow_le_pow_right Nat.two_pos hk
  have hpos := Nat.two_pow_pos k
  have hmask : 2 ^ w - 1 - (2 ^ k - 1) = 2 ^ w - (2 ^ k - 1 + 1) := by omega
  rw [hmask, ← Nat.shiftRight_eq_div_pow, ← Nat.shiftLeft_eq]
  apply Nat.eq_of_testBit_eq
  intro i
  rw [Nat.testBit_and, Nat.testBit_two_pow_sub_succ (by omega), Nat.testBit_two_pow_sub_one,
    Nat.testBit_shiftLeft, Nat.testBit_shiftRight]
  by_cases hi : k ≤ i
  · rw [Nat.add_sub_cancel' hi]
    by_cases hw : i < w
    · simp [hi, hw]
    · have hbit : n.testBit i = false := by
        apply Nat.testBit_lt_two_pow
        apply Nat.lt_of_lt_of_le hn (Nat.pow_le_pow_right Nat.two_pos (Nat.le_of_not_lt hw))
      simp [hbit]
  · simp [hi, Nat.lt_of_not_le hi]

/-- In a word of `w` bits, clearing the low bits of `n + (a - 1)` rounds `n` up to a
multiple of the power of two `a`. -/
theorem roundUp_eq_and {w : ℕ} (ha : a.isPowerOfTwo) (haw : a < 2 ^ w)
    (hn : n + (a - 1) < 2 ^ w) :
  (n + (a - 1)) &&& (2 ^ w - 1 - (a - 1)) = roundUp n a
  := by
  obtain ⟨k, rfl⟩ := ha
  apply and_compl_mask _ hn
  apply Nat.le_of_lt
  rwa [Nat.pow_lt_pow_iff_right Nat.one_lt_two] at haw

/-- Rounding up to a power of two that is less than `2 ^ w` exceeds every word of `w` bits
when adding `a - 1` does. -/
theorem le_roundUp_of_overflow {w : ℕ} (ha : a.isPowerOfTwo) (haw : a < 2 ^ w)
    (hn : 2 ^ w ≤ n + (a - 1)) :
  2 ^ w ≤ roundUp n a
  := by
  have hpos := Nat.pos_of_isPowerOfTwo ha
  have hdvd : a ∣ 2 ^ w := by
    obtain ⟨k, rfl⟩ := ha
    apply Nat.pow_dvd_pow 2
    apply Nat.le_of_lt
    rwa [Nat.pow_lt_pow_iff_right Nat.one_lt_two] at haw
  rw [roundUp]
  obtain ⟨k, hk⟩ := hdvd
  rw [hk, Nat.mul_comm a]
  apply Nat.mul_le_mul_right a
  rw [Nat.le_div_iff_mul_le hpos, Nat.mul_comm, ← hk]
  exact hn

end Alignment

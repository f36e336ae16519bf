import Mathlib.Algebra.Order.Ring.Nat
import Mathlib.Data.Nat.Find
import Mathlib.Data.List.Basic

/-!
# Balanced partitions of an interval

The numbers below `n` are cut into `k` consecutive intervals, of which the first `n % k` have one
number more than the others.  The interval `i` goes from `bound n k i` to `bound n k (i + 1)`.  When
`k` is at most `n`, no interval is empty, and every number below `n` is in one of them,
`exists_chunk`.
-/

namespace Chunks

/-- The lower bound of the interval `i`, and the upper bound of the one before. -/
def bound (n k i : ℕ) : ℕ :=
  i * (n / k) + min i (n % k)

variable {n k i j : ℕ}

theorem bound_zero (n k : ℕ) :
  bound n k 0 = 0
  := by
  rw [bound, Nat.zero_mul, Nat.zero_min]

/-- The last interval ends at `n`. -/
theorem bound_self (hk : 0 < k) :
  bound n k k = n
  := by
  rw [bound, Nat.min_eq_right (Nat.mod_lt n hk).le, Nat.div_add_mod]

/-- The interval `i` has `n / k` numbers, and one more if `i` is less than the remainder. -/
theorem bound_succ (n k i : ℕ) :
  bound n k (i + 1) = bound n k i + n / k + if i < n % k then 1 else 0
  := by
  rw [bound, bound, Nat.add_mul, Nat.one_mul]
  split <;> omega

theorem bound_le_bound_succ (n k i : ℕ) :
  bound n k i ≤ bound n k (i + 1)
  := by
  rw [bound_succ, Nat.add_assoc]
  apply Nat.le_add_right

theorem bound_mono (n k : ℕ) :
  Monotone (bound n k)
  := monotone_nat_of_le_succ (bound_le_bound_succ n k)

/-- No interval is empty when there are at least as many numbers as intervals. -/
theorem bound_lt_bound_succ (hk : 0 < k) (hle : k ≤ n) (i : ℕ) :
  bound n k i < bound n k (i + 1)
  := by
  have hpos := Nat.div_pos hle hk
  rw [bound_succ]
  omega

theorem bound_le (hk : 0 < k) (hi : i ≤ k) :
  bound n k i ≤ n
  := by
  apply (bound_mono n k hi).trans_eq
  apply bound_self hk

/-- The lengths of two intervals differ by at most one. -/
theorem length_le (n k i j : ℕ) :
  bound n k (i + 1) - bound n k i ≤ bound n k (j + 1) - bound n k j + 1
  := by
  rw [bound_succ, bound_succ]
  split <;> split <;> omega

/-- Every number below `n` is in one of the intervals. -/
theorem exists_chunk (hk : 0 < k) {x : ℕ} (hx : x < n) :
  ∃ i < k, bound n k i ≤ x ∧ x < bound n k (i + 1)
  := by
  have hend : x < bound n k k := by
    rwa [bound_self hk]
  -- the first bound above `x` is the end of its interval
  have hex : ∃ i, x < bound n k i := ⟨k, hend⟩
  have hspec := Nat.find_spec hex
  cases hfirst : Nat.find hex with
  | zero =>
    rw [hfirst, bound_zero] at hspec
    omega
  | succ i =>
    have hle := Nat.find_min' hex hend
    have hbefore := Nat.find_min hex (m := i) (by omega)
    rw [hfirst] at hspec
    exact ⟨i, by omega, Nat.le_of_not_lt hbefore, hspec⟩

/-- Two different intervals have no number in common. -/
theorem disjoint (hij : i ≠ j) :
  bound n k (i + 1) ≤ bound n k j ∨ bound n k (j + 1) ≤ bound n k i
  := by
  rcases Nat.lt_or_gt_of_ne hij with hlt | hlt
  · left
    apply bound_mono n k hlt
  · right
    apply bound_mono n k hlt

end Chunks

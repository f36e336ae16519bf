import Mathlib.Algebra.BigOperators.Group.List.Basic
import Mathlib.Algebra.BigOperators.Ring.List
import Mathlib.Algebra.CharZero.Defs
import Mathlib.Data.List.Induction
import Mathlib.Data.Nat.Cast.Basic
import Mathlib.Tactic.FieldSimp
import Mathlib.Tactic.LinearCombination
import Mathlib.Tactic.Ring

/-!
# Mean and variance in one pass

Welford's recurrence goes once through a list and keeps a mean and a sum of squares, `step`.  In
exact arithmetic, what it keeps after a list is the mean of the list and the sum of the squared
deviations from that mean, `run_eq`.

The deviations from the mean add up to zero, and so they do when they are all divided by one
number, `sum_scaled`; divided by a square root of the sample variance, they have the sample
variance one, `sampleVariance_scaled`.
-/

namespace Welford

universe u

variable {F : Type u} [Field F]

/-- The mean of a list. -/
def mean (xs : List F) : F :=
  xs.sum / xs.length

/-- The sum of the squared deviations from the mean. -/
def squares (xs : List F) : F :=
  (xs.map fun x => (x - mean xs) ^ 2).sum

/-- The sample variance. -/
def sampleVariance (xs : List F) : F :=
  squares xs / (xs.length - 1)

/-- What the recurrence keeps. -/
@[ext] structure Moments (F : Type u) where
  mean : F
  m2 : F

/-- A step of the recurrence, after `count` elements. -/
def step (count : ℕ) (s : Moments F) (x : F) : Moments F :=
  let delta := x - s.mean
  let mean := s.mean + delta / (count + 1 : ℕ)
  { mean, m2 := s.m2 + delta * (x - mean) }

/-- The recurrence after `count` elements, for the elements of a list. -/
def runFrom (count : ℕ) (s : Moments F) : List F → Moments F
  | [] => s
  | x :: xs => runFrom (count + 1) (step count s x) xs

/-- The recurrence for a list. -/
def run (xs : List F) : Moments F :=
  runFrom 0 ⟨0, 0⟩ xs

theorem runFrom_snoc (count : ℕ) (s : Moments F) (xs : List F) (x : F) :
  runFrom count s (xs ++ [x]) = step (count + xs.length) (runFrom count s xs) x
  := by
  induction xs generalizing count s with
  | nil => rfl
  | cons y ys ih =>
      rw [List.cons_append, runFrom, ih, List.length_cons, runFrom, Nat.add_assoc,
        Nat.add_comm 1]

theorem run_snoc (xs : List F) (x : F) :
  run (xs ++ [x]) = step xs.length (run xs) x
  := by
  rw [run, run, runFrom_snoc, Nat.zero_add]

/-! ### Deviations -/

/-- The squared deviations from any number. -/
theorem sum_sq_sub (xs : List F) (c : F) :
  (xs.map fun x => (x - c) ^ 2).sum
    = (xs.map fun x => x ^ 2).sum - 2 * c * xs.sum + xs.length * c ^ 2
  := by
  induction xs with
  | nil => simp
  | cons x xs ih =>
      simp only [List.map_cons, List.sum_cons, ih, List.length_cons]
      push_cast
      ring

/-- The deviations from any number, divided by `s`. -/
theorem sum_sub_div (xs : List F) (c s : F) :
  (xs.map fun x => (x - c) / s).sum = (xs.sum - xs.length * c) / s
  := by
  induction xs with
  | nil => simp
  | cons x xs ih =>
      simp only [List.map_cons, List.sum_cons, ih, List.length_cons]
      push_cast
      ring

variable [CharZero F]

theorem length_mul_mean (xs : List F) :
  xs.length * mean xs = xs.sum
  := by
  cases xs with
  | nil => simp
  | cons x xs =>
      have hne : ((x :: xs).length : F) ≠ 0 := Nat.cast_ne_zero.mpr (Nat.succ_ne_zero _)
      rw [mean, mul_div_cancel₀ _ hne]

/-- The squared deviations from the mean, without the deviations. -/
theorem squares_eq (xs : List F) :
  squares xs = (xs.map fun x => x ^ 2).sum - mean xs * xs.sum
  := by
  rw [squares, sum_sq_sub]
  linear_combination mean xs * length_mul_mean xs

/-! ### The recurrence -/

/-- The mean of a list with one more element. -/
theorem mean_snoc (xs : List F) (x : F) :
  mean (xs ++ [x]) = mean xs + (x - mean xs) / (xs.length + 1 : ℕ)
  := by
  have hne : ((xs.length + 1 : ℕ) : F) ≠ 0 := Nat.cast_ne_zero.mpr (Nat.succ_ne_zero _)
  have hsum := length_mul_mean xs
  rw [mean, List.sum_append, List.sum_singleton, List.length_append, List.length_singleton]
  field_simp
  push_cast
  linear_combination -hsum

/-- The squared deviations of a list with one more element. -/
theorem squares_snoc (xs : List F) (x : F) :
  squares (xs ++ [x]) = squares xs + (x - mean xs) * (x - mean (xs ++ [x]))
  := by
  have hsum := length_mul_mean xs
  have hsum' := length_mul_mean (xs ++ [x])
  rw [List.length_append, List.length_singleton, List.sum_append, List.sum_singleton] at hsum'
  push_cast at hsum'
  rw [squares_eq, squares_eq, List.map_append, List.sum_append, List.sum_append, List.map_singleton,
    List.sum_singleton, List.sum_singleton]
  linear_combination mean (xs ++ [x]) * hsum - mean xs * hsum'

/-- The recurrence keeps the mean and the squared deviations. -/
theorem run_eq (xs : List F) :
  run xs = ⟨mean xs, squares xs⟩
  := by
  induction xs using List.reverseRecOn with
  | nil => simp [run, runFrom, mean, squares]
  | append_singleton xs x ih =>
      rw [run_snoc, ih, squares_snoc, mean_snoc]
      rfl

/-! ### Standard scores -/

/-- The deviations from the mean, divided by one number, add up to zero. -/
theorem sum_scaled (xs : List F) (s : F) :
  (xs.map fun x => (x - mean xs) / s).sum = 0
  := by
  rw [sum_sub_div, length_mul_mean, sub_self, zero_div]

/-- Divided by a square root of the sample variance, the deviations have the variance one. -/
theorem sampleVariance_scaled
    {xs : List F} {s : F} (hs : s ≠ 0) (hroot : s * s = sampleVariance xs) :
  sampleVariance (xs.map fun x => (x - mean xs) / s) = 1
  := by
  have hmean : mean (xs.map fun x => (x - mean xs) / s) = 0 := by
    rw [mean, sum_scaled, zero_div]
  have hsquares : squares (xs.map fun x => (x - mean xs) / s) = squares xs / (s * s) := by
    rw [squares, hmean, List.map_map, squares, div_eq_mul_inv, ← List.sum_map_mul_right]
    congr 1
    apply List.map_congr_left
    intro x _
    rw [Function.comp_apply, sub_zero, div_pow, pow_two s, div_eq_mul_inv]
  have hvariance : sampleVariance xs ≠ 0 := hroot ▸ mul_ne_zero hs hs
  rw [sampleVariance, hsquares, List.length_map, div_right_comm, ← sampleVariance, hroot,
    div_self hvariance]

end Welford

import Mathlib.Algebra.BigOperators.Field
import Mathlib.Analysis.SpecialFunctions.ExpDeriv
import Mathlib.Analysis.SpecialFunctions.Log.Deriv
import Mathlib.Tactic.Linarith

/-!
# The logarithm of a sum of exponentials

`logSumExp x` of finitely many numbers does not depend on what is subtracted from them before
they are exponentiated, `logSumExp_shift`.  `softmax x` are numbers with the sum one, which are
its partial derivatives.  `crossEntropy y x` is the cross-entropy of `softmax x` for the
weights `y`; for weights with the sum one its partial derivatives are `softmax x - y`.
-/

namespace LogSumExp

open Real

universe u

variable {ι : Type u} [Fintype ι]

/-- The logarithm of the sum of the exponentials. -/
noncomputable def logSumExp (x : ι → ℝ) : ℝ :=
  log (∑ i, exp (x i))

/-- The exponentials divided by their sum. -/
noncomputable def softmax (x : ι → ℝ) (i : ι) : ℝ :=
  exp (x i - logSumExp x)

/-- The sum of the negative logarithms of `softmax x` with the weights `y`. -/
noncomputable def crossEntropy (y x : ι → ℝ) : ℝ :=
  ∑ i, y i * (logSumExp x - x i)

variable {x y dx : ι → ℝ}

section Nonempty

variable [Nonempty ι]

theorem sum_exp_pos (x : ι → ℝ) : 0 < ∑ i, exp (x i) :=
  Finset.sum_pos (fun i _ => exp_pos (x i)) Finset.univ_nonempty

theorem exp_logSumExp (x : ι → ℝ) :
  exp (logSumExp x) = ∑ i, exp (x i)
  := exp_log (sum_exp_pos x)

theorem softmax_eq (x : ι → ℝ) (i : ι) :
  softmax x i = exp (x i) / ∑ j, exp (x j)
  := by
  rw [softmax, exp_sub, exp_logSumExp]

theorem sum_softmax (x : ι → ℝ) :
  ∑ i, softmax x i = 1
  := by
  simp only [softmax_eq]
  rw [← Finset.sum_div, div_self (sum_exp_pos x).ne']

/-- A number may be subtracted before the exponentials and added after the logarithm. -/
theorem logSumExp_shift (x : ι → ℝ) (m : ℝ) :
  log (∑ i, exp (x i - m)) + m = logSumExp x
  := by
  have hsum : ∑ i, exp (x i - m) = (∑ i, exp (x i)) * exp (-m) := by
    rw [Finset.sum_mul]
    apply Finset.sum_congr rfl
    intro i _
    rw [← exp_add, sub_eq_add_neg]
  rw [hsum, log_mul (sum_exp_pos x).ne' (exp_pos _).ne', log_exp, logSumExp, neg_add_cancel_right]

/-- No number is larger. -/
theorem le_logSumExp (x : ι → ℝ) (i : ι) :
  x i ≤ logSumExp x
  := by
  rw [logSumExp, le_log_iff_exp_le (sum_exp_pos x)]
  apply Finset.single_le_sum (fun j _ => (exp_pos (x j)).le) (Finset.mem_univ i)

theorem crossEntropy_nonneg (hy : ∀ i, 0 ≤ y i) (x : ι → ℝ) :
  0 ≤ crossEntropy y x
  := by
  apply Finset.sum_nonneg
  intro i _
  apply mul_nonneg (hy i)
  exact sub_nonneg.mpr (le_logSumExp x i)

/-! ### Derivatives along a curve -/

local instance instContinuousSMulReal : ContinuousSMul ℝ ℝ := inferInstance

variable {c : ℝ → ι → ℝ} {t : ℝ}

theorem hasDerivAt_logSumExp (hc : ∀ i, HasDerivAt (fun s => c s i) (dx i) t) :
  HasDerivAt (fun s => logSumExp (c s)) (∑ i, softmax (c t) i * dx i) t
  := by
  have hsum : HasDerivAt (fun s => ∑ i, exp (c s i)) (∑ i, exp (c t i) * dx i) t :=
    HasDerivAt.fun_sum fun i _ => (hc i).exp
  have hlog := hsum.log (sum_exp_pos (c t)).ne'
  have hderiv : (∑ i, exp (c t i) * dx i) / ∑ i, exp (c t i) = ∑ i, softmax (c t) i * dx i := by
    rw [Finset.sum_div]
    apply Finset.sum_congr rfl
    intro i _
    rw [softmax_eq, div_mul_eq_mul_div]
  rwa [hderiv] at hlog

/-- The partial derivatives of the cross-entropy, for weights with the sum one. -/
theorem hasDerivAt_crossEntropy
    (hy : ∑ i, y i = 1) (hc : ∀ i, HasDerivAt (fun s => c s i) (dx i) t) :
  HasDerivAt (fun s => crossEntropy y (c s)) (∑ i, (softmax (c t) i - y i) * dx i) t
  := by
  have hterms : HasDerivAt (fun s => crossEntropy y (c s))
      (∑ i, y i * (∑ j, softmax (c t) j * dx j - dx i)) t := by
    apply HasDerivAt.fun_sum
    intro i _
    exact ((hasDerivAt_logSumExp hc).sub (hc i)).const_mul (y i)
  have hderiv : ∑ i, y i * (∑ j, softmax (c t) j * dx j - dx i)
      = ∑ i, (softmax (c t) i - y i) * dx i := by
    simp only [mul_sub, sub_mul, Finset.sum_sub_distrib]
    rw [← Finset.sum_mul, hy, one_mul]
  rwa [hderiv] at hterms

end Nonempty

end LogSumExp

import Mathlib.Algebra.Polynomial.Derivative
import Mathlib.Analysis.Calculus.Deriv.Polynomial
import Mathlib.MeasureTheory.Integral.IntervalIntegral.FundThmCalculus
import Mathlib.Tactic.FieldSimp
import Mathlib.Topology.Algebra.Polynomial

/-!
# Integrals of polynomials and Simpson's rule

`integral f a b` is the integral of the polynomial `f` from `a` to `b` over any field of
characteristic zero: the difference of the values of a polynomial with derivative `f`, where it
does not matter which, `integral_eq_sub`.  Over the real numbers it is the integral of analysis,
`intervalIntegral_eq`.

Simpson's rule weighs the values at both ends and in the middle of a panel by `1`, `4` and `1`.  It
is exact for polynomials of degree at most three, `simpson_panel`, and so is the sum over the
panels of an interval, `sum_panels`.
-/

namespace Quadrature

open Polynomial

universe u

variable {F : Type u} [Field F] {f : F[X]}

/-- The polynomial with derivative `f` that is zero at zero. -/
noncomputable def antiderivative (f : F[X]) : F[X] :=
  f.sum fun k c => monomial (k + 1) (c / (k + 1))

/-- The integral of `f` from `a` to `b`. -/
noncomputable def integral (f : F[X]) (a b : F) : F :=
  (antiderivative f).eval b - (antiderivative f).eval a

theorem antiderivative_eq_sum {n : ℕ} (hn : f.natDegree < n) :
  antiderivative f = ∑ k ∈ Finset.range n, monomial (k + 1) (f.coeff k / (k + 1))
  := by
  apply sum_over_range' _ _ n hn
  intro k
  rw [zero_div, monomial_zero_right]

variable [CharZero F]

theorem derivative_antiderivative (f : F[X]) :
  derivative (antiderivative f) = f
  := by
  have hterm : ∀ k : ℕ, derivative (monomial (k + 1) (f.coeff k / (k + 1)))
      = monomial k (f.coeff k) := by
    intro k
    have hne : (k + 1 : F) ≠ 0 := Nat.cast_add_one_ne_zero k
    rw [derivative_monomial, Nat.add_sub_cancel, Nat.cast_add_one, div_mul_cancel₀ _ hne]
  rw [antiderivative_eq_sum (Nat.lt_succ_self _), derivative_sum, Finset.sum_congr rfl fun k _ =>
    hterm k, ← as_sum_range]

/-- The integral of a derivative. -/
theorem integral_eq_sub {P : F[X]} (h : derivative P = f) (a b : F) :
  integral f a b = P.eval b - P.eval a
  := by
  have hconstant : derivative (P - antiderivative f) = 0 := by
    rw [derivative_sub, h, derivative_antiderivative, sub_self]
  obtain ⟨c, hc⟩ : ∃ c, P = antiderivative f + C c := by
    use (P - antiderivative f).coeff 0
    rw [← eq_C_of_derivative_eq_zero hconstant, add_sub_cancel]
  rw [hc, eval_add, eval_add, eval_C, eval_C, add_sub_add_right_eq_sub, integral]

omit [CharZero F] in
theorem integral_add (f : F[X]) (a b c : F) :
  integral f a b + integral f b c = integral f a c
  := by
  rw [integral, integral, integral, add_comm, sub_add_sub_cancel]

/-- Over the real numbers it is the integral of the function. -/
theorem intervalIntegral_eq (f : ℝ[X]) (a b : ℝ) :
  ∫ x in a..b, f.eval x = integral f a b
  := by
  have hderiv : ∀ x ∈ Set.uIcc a b, HasDerivAt (antiderivative f).eval (f.eval x) x := by
    intro x _
    have hx := (antiderivative f).hasDerivAt x
    rwa [derivative_antiderivative] at hx
  apply intervalIntegral.integral_eq_sub_of_hasDerivAt hderiv
  apply f.continuous.intervalIntegrable

/-! ### Simpson's rule -/

/-- Simpson's rule is exact for polynomials of degree at most three. -/
theorem simpson_panel (hf : f.natDegree ≤ 3) (x h : F) :
  h / 3 * (f.eval x + 4 * f.eval (x + h) + f.eval (x + 2 * h)) = integral f x (x + 2 * h)
  := by
  have hdegree : f.natDegree < 4 := Nat.lt_succ_of_le hf
  rw [integral, antiderivative_eq_sum hdegree, eval_eq_sum_range' hdegree,
    eval_eq_sum_range' hdegree, eval_eq_sum_range' hdegree]
  simp only [Finset.sum_range_succ, Finset.sum_range_zero, eval_add, eval_monomial, eval_zero]
  field_simp
  push_cast
  ring

/-- The panels of an interval add up to its integral. -/
theorem sum_panels (hf : f.natDegree ≤ 3) (a h : F) (m : ℕ) :
  h / 3 * ∑ j ∈ Finset.range m, (f.eval (a + (2 * j : ℕ) * h)
      + 4 * f.eval (a + (2 * j + 1 : ℕ) * h) + f.eval (a + (2 * j + 2 : ℕ) * h))
    = integral f a (a + (2 * m : ℕ) * h)
  := by
  induction m with
  | zero => simp [integral]
  | succ m ih =>
      have hpanel := simpson_panel hf (a + (2 * m : ℕ) * h) h
      have hmiddle : a + (2 * m + 1 : ℕ) * h = a + (2 * m : ℕ) * h + h := by
        push_cast
        ring
      have hend : a + (2 * m + 2 : ℕ) * h = a + (2 * m : ℕ) * h + 2 * h := by
        push_cast
        ring
      rw [Finset.sum_range_succ, mul_add, ih, hmiddle, hend, hpanel, integral_add, ← hend,
        Nat.mul_succ]

omit [CharZero F] in
/-- The weights `2` and `4` of the values between both ends are those of the panels. -/
theorem foldl_weights (g : ℕ → F) (s : F) (m : ℕ) :
  (List.range' 1 (2 * m + 1)).foldl
      (fun s i => s + g i * (if i % 2 = 0 then 2 else 4)) s
    = s - g 0 - g (2 * m + 2)
      + ∑ j ∈ Finset.range (m + 1), (g (2 * j) + 4 * g (2 * j + 1) + g (2 * j + 2))
  := by
  induction m with
  | zero =>
      simp
      ring
  | succ m ih =>
      have heven : (2 * m + 2) % 2 = 0 := by
        omega
      have hodd : ¬ (2 * m + 3) % 2 = 0 := by
        omega
      have hrange : List.range' 1 (2 * (m + 1) + 1)
          = List.range' 1 (2 * m + 1) ++ [2 * m + 2] ++ [2 * m + 3] := by
        rw [show 2 * m + 2 = 1 + (2 * m + 1) by ring, ← List.range'_1_concat,
          show 2 * m + 3 = 1 + (2 * m + 1 + 1) by ring, ← List.range'_1_concat]
        rfl
      rw [hrange, List.foldl_append, List.foldl_append, ih, Finset.sum_range_succ _ (m + 1)]
      simp only [List.foldl_cons, List.foldl_nil, if_pos heven, if_neg hodd, Nat.mul_succ]
      ring

end Quadrature

import CTemplate.Library.Quadrature
import Mathlib.Tactic.NormNum

/-!
# Simpson's rule

`numerical_integrate_simpson` of `simulation/numerical.c`, in exact arithmetic: a `double` is an
element of a field of characteristic zero.  For every even number of intervals it returns the
exact integral of a polynomial of degree at most three, `numericalIntegrateSimpson_exact`.
-/

namespace CTemplate

open Polynomial

variable {F : Type} [Field F]

/-- `numerical_integrate_simpson` -/
def numericalIntegrateSimpson (f : F → F) (a b : F) (n : ℤ) : F :=
  if n ≤ 0 ∨ n % 2 ≠ 0 then 0
  else
    let h := (b - a) / n
    let sum := (List.range' 1 (n.toNat - 1)).foldl
      (fun sum (i : ℕ) => sum + f (a + i * h) * (if i % 2 = 0 then 2.0 else 4.0)) (f a + f b)
    sum * h / 3.0

variable [CharZero F]

/-- With an even number of intervals, the loop adds up the panels of two intervals each. -/
theorem numericalIntegrateSimpson_eq_panels
    (f : F → F) (a b : F) {n : ℤ} {m : ℕ} (hn : n = (2 * (m + 1) : ℕ)) {h : F}
    (hh : h = (b - a) / n) :
  a + (2 * (m + 1) : ℕ) * h = b
    ∧ numericalIntegrateSimpson f a b n
      = h / 3 * ∑ j ∈ Finset.range (m + 1), (f (a + (2 * j : ℕ) * h)
        + 4 * f (a + (2 * j + 1 : ℕ) * h) + f (a + (2 * j + 2 : ℕ) * h))
  := by
  have htwo : (2.0 : F) = 2 := by
    norm_num
  have hthree : (3.0 : F) = 3 := by
    norm_num
  have hfour : (4.0 : F) = 4 := by
    norm_num
  have hgo : ¬ (n ≤ 0 ∨ n % 2 ≠ 0) := by
    omega
  have hcount : n.toNat - 1 = 2 * m + 1 := by
    omega
  have hne : ((2 * (m + 1) : ℕ) : F) ≠ 0 := by
    rw [Nat.cast_ne_zero]
    omega
  have hcast : (n : F) = (2 * (m + 1) : ℕ) := by
    rw [hn, Int.cast_natCast]
  have hend : a + (2 * (m + 1) : ℕ) * h = b := by
    rw [hh, hcast, mul_div_cancel₀ _ hne, add_sub_cancel]
  have hstart : a + (0 : ℕ) * h = a := by
    rw [Nat.cast_zero, zero_mul, add_zero]
  have hweights := Quadrature.foldl_weights (fun i : ℕ => f (a + i * h)) (f a + f b) m
  rw [← Nat.mul_succ, hend, hstart] at hweights
  use hend
  simp only [numericalIntegrateSimpson, if_neg hgo, ← hh, hcount, htwo, hthree, hfour, hweights]
  ring

/-- An even number of intervals is twice a number of panels. -/
theorem exists_panels {n : ℤ} (hpos : 0 < n) (heven : Even n) :
  ∃ m : ℕ, n = (2 * (m + 1) : ℕ)
  := by
  rw [Int.even_iff] at heven
  use ((n - 2) / 2).toNat
  omega

/-- Simpson's rule with an even number of intervals is exact for polynomials of degree at most
three. -/
theorem numericalIntegrateSimpson_exact
    {f : F[X]} (hf : f.natDegree ≤ 3) (a b : F) {n : ℤ} (hpos : 0 < n) (heven : Even n) :
  numericalIntegrateSimpson f.eval a b n = Quadrature.integral f a b
  := by
  obtain ⟨m, hn⟩ := exists_panels hpos heven
  obtain ⟨hend, hpanels⟩ := numericalIntegrateSimpson_eq_panels f.eval a b hn rfl
  rw [hpanels, Quadrature.sum_panels hf, hend]

/-- The integral of the cube from `0` to `2`, with two intervals. -/
theorem numericalIntegrateSimpson_cube :
  numericalIntegrateSimpson (X ^ 3 : ℚ[X]).eval 0 2 2 = 4
  := by
  have hderivative : derivative (C (1 / 4) * X ^ 4 : ℚ[X]) = X ^ 3 := by
    rw [derivative_C_mul_X_pow]
    norm_num
  rw [numericalIntegrateSimpson_exact (natDegree_X_pow 3).le 0 2 two_pos even_two,
    Quadrature.integral_eq_sub hderivative]
  norm_num

/-- Over the real numbers it returns the integral of analysis. -/
theorem intervalIntegral_eq_numericalIntegrateSimpson
    {f : ℝ[X]} (hf : f.natDegree ≤ 3) (a b : ℝ) {n : ℤ} (hpos : 0 < n) (heven : Even n) :
  ∫ x in a..b, f.eval x = numericalIntegrateSimpson f.eval a b n
  := by
  obtain ⟨m, hn⟩ := exists_panels hpos heven
  obtain ⟨hend, hpanels⟩ := numericalIntegrateSimpson_eq_panels f.eval a b hn rfl
  rw [Quadrature.intervalIntegral_eq, hpanels, Quadrature.sum_panels hf, hend]

end CTemplate

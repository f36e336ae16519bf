import CTemplate.Core.Stdio
import Mathlib.Algebra.Order.Group.Unbundled.Int

/-!
# Computations of type `int`

The exact result of a computation of type `int` is an integer.  A function that computes with
values of this type takes what such a computation gives as an argument: `int32` is what it gives
in 32 bits, and `some` what it would give if there were no bounds.
-/

namespace CTemplate

/-- `INT_MIN ≤ z ≤ INT_MAX` -/
def FitsInt (z : ℤ) : Prop :=
  -(intMax : ℤ) - 1 ≤ z ∧ z ≤ intMax

instance (z : ℤ) : Decidable (FitsInt z) := inferInstanceAs (Decidable (_ ∧ _))

/-- A value of type `int`. -/
abbrev CInt : Type := { z : ℤ // FitsInt z }

/-- What a computation of type `int` with the exact result `z` gives, or `none` when it
overflows. -/
def int32 (z : ℤ) : Option ℤ :=
  if FitsInt z then some z else none

theorem int32_of_fits {z : ℤ} (h : FitsInt z) :
  int32 z = some z
  := if_pos h

/-- A computation gives its exact result. -/
def Exact (int : ℤ → Option ℤ) (z : ℤ) : Prop :=
  int z = some z

theorem exact_some (z : ℤ) :
  Exact some z
  := rfl

theorem exact_int32_iff {z : ℤ} :
  Exact int32 z ↔ FitsInt z
  := by
  rw [Exact, int32, Option.ite_none_right_eq_some, and_iff_left rfl]

theorem int32_of_not_fits {z : ℤ} (h : ¬ FitsInt z) :
  int32 z = none
  := if_neg h

/-- What 32 bits give is the exact result. -/
theorem eq_of_int32 {z w : ℤ} (h : int32 z = some w) :
  FitsInt z ∧ w = z
  := by
  rw [int32, Option.ite_none_right_eq_some] at h
  obtain ⟨hz, h⟩ := h
  cases h
  exact ⟨hz, rfl⟩

/-- `abs` -/
def absInt (int : ℤ → Option ℤ) (z : ℤ) : Option ℤ :=
  int |z|

end CTemplate

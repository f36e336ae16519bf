import Mathlib.Data.Matrix.Mul

/-!
# The product of matrices entry by entry

`entryPairing A B` is the sum of the products of the entries of `A` and `B`.  A product of matrices
on one side is moved to the other by transposing a factor.  `entryPairing_affine` is what it gives
for the differential of `X * W + b` along changes of `X`, `W` and `b`.
-/

namespace Frobenius

open Matrix

universe u v w x

variable {m : Type u} {n : Type v} {k : Type w} {R : Type x} [Fintype m] [Fintype n] [Fintype k]
  [CommRing R]

/-- The sum of the products of the entries. -/
def entryPairing (A B : Matrix m n R) : R :=
  ∑ i, ∑ j, A i j * B i j

theorem entryPairing_add (D A B : Matrix m n R) :
  entryPairing D (A + B) = entryPairing D A + entryPairing D B
  := by
  simp only [entryPairing, Matrix.add_apply, mul_add, Finset.sum_add_distrib]

/-- A factor on the left is moved to the other side. -/
theorem entryPairing_mul (D : Matrix m n R) (A : Matrix m k R) (B : Matrix k n R) :
  entryPairing D (A * B) = entryPairing (Aᵀ * D) B
  := by
  simp only [entryPairing, Matrix.mul_apply, Matrix.transpose_apply, Finset.mul_sum, Finset.sum_mul]
  calc
    ∑ i, ∑ j, ∑ q, D i j * (A i q * B q j)
      = ∑ i, ∑ q, ∑ j, D i j * (A i q * B q j) :=
        Finset.sum_congr rfl fun i _ => Finset.sum_comm
    _ = ∑ q, ∑ i, ∑ j, D i j * (A i q * B q j) := Finset.sum_comm
    _ = ∑ q, ∑ j, ∑ i, D i j * (A i q * B q j) :=
        Finset.sum_congr rfl fun q _ => Finset.sum_comm
    _ = ∑ q, ∑ j, ∑ i, A i q * D i j * B q j := by
        apply Finset.sum_congr rfl
        intro q _
        apply Finset.sum_congr rfl
        intro j _
        apply Finset.sum_congr rfl
        intro i _
        ring

theorem entryPairing_transpose (A B : Matrix m n R) :
  entryPairing Aᵀ Bᵀ = entryPairing A B
  := Finset.sum_comm

/-- A factor on the right is moved to the other side. -/
theorem entryPairing_mul_right (D : Matrix m n R) (A : Matrix m k R) (B : Matrix k n R) :
  entryPairing D (A * B) = entryPairing (D * Bᵀ) A
  := by
  rw [← entryPairing_transpose, Matrix.transpose_mul, entryPairing_mul, Matrix.transpose_transpose,
    ← entryPairing_transpose, Matrix.transpose_mul, Matrix.transpose_transpose,
    Matrix.transpose_transpose]

/-- Rows that are all the same are multiplied with the sums of the columns. -/
theorem entryPairing_replicateRow (D : Matrix m n R) (v : n → R) :
  entryPairing D (Matrix.of fun _ j => v j) = ∑ j, (∑ i, D i j) * v j
  := by
  simp only [entryPairing, Matrix.of_apply, Finset.sum_mul]
  exact Finset.sum_comm

/-- The differential of `X * W + b` along the changes `dX`, `dW` and `db`, multiplied with
`D`. -/
theorem entryPairing_affine
    (D : Matrix m n R) (X dX : Matrix m k R) (W dW : Matrix k n R) (db : n → R) :
  entryPairing D (dX * W + X * dW + Matrix.of fun _ j => db j)
    = entryPairing (D * Wᵀ) dX + entryPairing (Xᵀ * D) dW + ∑ j, (∑ i, D i j) * db j
  := by
  rw [entryPairing_add, entryPairing_add, entryPairing_mul_right, entryPairing_mul,
    entryPairing_replicateRow]

end Frobenius

import CTemplate.Math.Vec
import Mathlib.Algebra.BigOperators.Fin
import Mathlib.Algebra.Order.Field.Basic
import Mathlib.Algebra.Order.Field.Rat
import Mathlib.LinearAlgebra.Matrix.Adjugate
import Mathlib.Tactic.FinCases
import Mathlib.Tactic.IntervalCases
import Mathlib.Tactic.NormNum

/-!
# Matrices of four rows and columns

The product and the inverse of `math/mat.c`, in exact arithmetic.  A matrix is stored column by
column.

Multiplied with the matrix of its cofactors, from either side, a matrix gives its determinant on
the diagonal.  So what `mat4_inverse` writes is the inverse of the matrix on both sides.
-/

namespace CTemplate

/-- `Mat4` -/
@[ext] structure Mat4 (F : Type) where
  m : Fin 16 → F

namespace Mat4

variable {F : Type}

section Elements

variable [Zero F]

/-- The element `m[i]`. -/
def get (a : Mat4 F) (i : ℕ) : F :=
  if h : i < 16 then a.m ⟨i, h⟩ else 0

/-- `M(mat, r, c)`, the element in row `r` and column `c`. -/
def el (a : Mat4 F) (r c : ℕ) : F :=
  a.get (c * 4 + r)

end Elements

/-- The matrix after a write to `M(out, r, c)` for every `r` and `c`. -/
def ofEl (f : ℕ → ℕ → F) : Mat4 F :=
  ⟨fun i => f (i.val % 4) (i.val / 4)⟩

variable [Zero F] {r c : ℕ}

theorem el_ofEl (f : ℕ → ℕ → F) (hr : r < 4) (hc : c < 4) :
  (ofEl f).el r c = f r c
  := by
  have hrow : (c * 4 + r) % 4 = r := by
    omega
  have hcol : (c * 4 + r) / 4 = c := by
    omega
  have hlt : c * 4 + r < 16 := by
    omega
  simp only [Mat4.el, get, ofEl, dif_pos hlt, hrow, hcol]

/-- Matrices with the same elements are equal. -/
theorem ext_el {a b : Mat4 F} (h : ∀ r c, r < 4 → c < 4 → a.el r c = b.el r c) :
  a = b
  := by
  ext i
  have hi := h (i.val % 4) (i.val / 4) (by omega) (by omega)
  have hindex : i.val / 4 * 4 + i.val % 4 = i.val := by
    omega
  rwa [Mat4.el, Mat4.el, hindex, get, get, dif_pos i.isLt, dif_pos i.isLt] at hi

end Mat4

section Operations

variable {F : Type} [CommRing F]

/-- `mat4_identity` -/
def mat4Identity : Mat4 F :=
  ⟨fun i => if i.val = 0 ∨ i.val = 5 ∨ i.val = 10 ∨ i.val = 15 then 1 else 0⟩

/-- `mat4_mul` -/
def mat4Mul (a b : Mat4 F) : Mat4 F :=
  Mat4.ofEl fun r c => (List.range 4).foldl (fun sum k => sum + a.el r k * b.el k c) 0

/-- `mat4_mul_vec4` -/
def mat4MulVec4 (a : Mat4 F) (v : Vec4 F) : Vec4 F :=
  ⟨a.el 0 0 * v.x + a.el 0 1 * v.y + a.el 0 2 * v.z + a.el 0 3 * v.w,
    a.el 1 0 * v.x + a.el 1 1 * v.y + a.el 1 2 * v.z + a.el 1 3 * v.w,
    a.el 2 0 * v.x + a.el 2 1 * v.y + a.el 2 2 * v.z + a.el 2 3 * v.w,
    a.el 3 0 * v.x + a.el 3 1 * v.y + a.el 3 2 * v.z + a.el 3 3 * v.w⟩

/-- `mat4_mul_point` -/
def mat4MulPoint (a : Mat4 F) (p : Vec3 F) : Vec3 F :=
  let r := mat4MulVec4 a ⟨p.x, p.y, p.z, 1⟩
  ⟨r.x, r.y, r.z⟩

/-- The array `inv` of `mat4_inverse`, from `inv[0]` to `inv[15]`. -/
def mat4Cofactors (m : ℕ → F) : Mat4 F :=
  ⟨![m 5 * m 10 * m 15 - m 5 * m 11 * m 14 - m 9 * m 6 * m 15 + m 9 * m 7 * m 14
      + m 13 * m 6 * m 11 - m 13 * m 7 * m 10,
    -m 1 * m 10 * m 15 + m 1 * m 11 * m 14 + m 9 * m 2 * m 15 - m 9 * m 3 * m 14
      - m 13 * m 2 * m 11 + m 13 * m 3 * m 10,
    m 1 * m 6 * m 15 - m 1 * m 7 * m 14 - m 5 * m 2 * m 15 + m 5 * m 3 * m 14
      + m 13 * m 2 * m 7 - m 13 * m 3 * m 6,
    -m 1 * m 6 * m 11 + m 1 * m 7 * m 10 + m 5 * m 2 * m 11 - m 5 * m 3 * m 10
      - m 9 * m 2 * m 7 + m 9 * m 3 * m 6,
    -m 4 * m 10 * m 15 + m 4 * m 11 * m 14 + m 8 * m 6 * m 15 - m 8 * m 7 * m 14
      - m 12 * m 6 * m 11 + m 12 * m 7 * m 10,
    m 0 * m 10 * m 15 - m 0 * m 11 * m 14 - m 8 * m 2 * m 15 + m 8 * m 3 * m 14
      + m 12 * m 2 * m 11 - m 12 * m 3 * m 10,
    -m 0 * m 6 * m 15 + m 0 * m 7 * m 14 + m 4 * m 2 * m 15 - m 4 * m 3 * m 14
      - m 12 * m 2 * m 7 + m 12 * m 3 * m 6,
    m 0 * m 6 * m 11 - m 0 * m 7 * m 10 - m 4 * m 2 * m 11 + m 4 * m 3 * m 10
      + m 8 * m 2 * m 7 - m 8 * m 3 * m 6,
    m 4 * m 9 * m 15 - m 4 * m 11 * m 13 - m 8 * m 5 * m 15 + m 8 * m 7 * m 13
      + m 12 * m 5 * m 11 - m 12 * m 7 * m 9,
    -m 0 * m 9 * m 15 + m 0 * m 11 * m 13 + m 8 * m 1 * m 15 - m 8 * m 3 * m 13
      - m 12 * m 1 * m 11 + m 12 * m 3 * m 9,
    m 0 * m 5 * m 15 - m 0 * m 7 * m 13 - m 4 * m 1 * m 15 + m 4 * m 3 * m 13
      + m 12 * m 1 * m 7 - m 12 * m 3 * m 5,
    -m 0 * m 5 * m 11 + m 0 * m 7 * m 9 + m 4 * m 1 * m 11 - m 4 * m 3 * m 9
      - m 8 * m 1 * m 7 + m 8 * m 3 * m 5,
    -m 4 * m 9 * m 14 + m 4 * m 10 * m 13 + m 8 * m 5 * m 14 - m 8 * m 6 * m 13
      - m 12 * m 5 * m 10 + m 12 * m 6 * m 9,
    m 0 * m 9 * m 14 - m 0 * m 10 * m 13 - m 8 * m 1 * m 14 + m 8 * m 2 * m 13
      + m 12 * m 1 * m 10 - m 12 * m 2 * m 9,
    -m 0 * m 5 * m 14 + m 0 * m 6 * m 13 + m 4 * m 1 * m 14 - m 4 * m 2 * m 13
      - m 12 * m 1 * m 6 + m 12 * m 2 * m 5,
    m 0 * m 5 * m 10 - m 0 * m 6 * m 9 - m 4 * m 1 * m 10 + m 4 * m 2 * m 9
      + m 8 * m 1 * m 6 - m 8 * m 2 * m 5]⟩

/-- The determinant `det` of `mat4_inverse`. -/
def mat4Det (m : ℕ → F) : F :=
  let inv := mat4Cofactors m
  m 0 * inv.get 0 + m 1 * inv.get 4 + m 2 * inv.get 8 + m 3 * inv.get 12

end Operations

/-- `mat4_inverse`: the value returned and the target of `out_inv` after the call, or `none` for
`NULL`. -/
def mat4Inverse {F : Type} [Field F] [LinearOrder F] (a : Mat4 F) (outInv : Option (Mat4 F)) :
    Bool × Option (Mat4 F) :=
  let inv := mat4Cofactors a.get
  let det := mat4Det a.get
  if |det| < 1e-12 then (false, outInv)
  else
    let invDet := 1 / det
    (true, outInv.map fun _ => ⟨fun i => inv.get i.val * invDet⟩)

/-! ### Mathlib's matrices -/

section Matrices

variable {F : Type} [CommRing F]

/-- The matrix as a matrix of Mathlib. -/
def Mat4.toMatrix (a : Mat4 F) : Matrix (Fin 4) (Fin 4) F :=
  Matrix.of fun r c => a.el r.val c.val

theorem Mat4.toMatrix_inj {a b : Mat4 F} :
  a.toMatrix = b.toMatrix ↔ a = b
  := by
  constructor
  · intro h
    apply Mat4.ext_el
    intro r c hr hc
    exact congrFun (congrFun h ⟨r, hr⟩) ⟨c, hc⟩
  · rintro rfl
    rfl

theorem toMatrix_ofEl (f : ℕ → ℕ → F) (r c : Fin 4) :
  (Mat4.ofEl f).toMatrix r c = f r.val c.val
  := Mat4.el_ofEl f r.isLt c.isLt

/-- The matrix with `s` on the diagonal. -/
def mat4Diagonal (s : F) : Mat4 F :=
  Mat4.ofEl fun r c => if r = c then s else 0

@[simp] theorem toMatrix_mat4Diagonal (s : F) :
  (mat4Diagonal s).toMatrix = s • 1
  := by
  ext r c
  simp only [mat4Diagonal, toMatrix_ofEl, Matrix.smul_apply, Matrix.one_apply, smul_eq_mul,
    mul_ite, mul_one, mul_zero, Fin.ext_iff]

theorem mat4Identity_eq :
  mat4Identity = mat4Diagonal (1 : F)
  := by
  ext i
  simp only [mat4Identity, mat4Diagonal, Mat4.ofEl]
  fin_cases i <;> simp

@[simp] theorem toMatrix_mat4Identity :
  (mat4Identity : Mat4 F).toMatrix = 1
  := by
  rw [mat4Identity_eq, toMatrix_mat4Diagonal, one_smul]

/-- The elements of a product. -/
theorem el_mat4Mul (a b : Mat4 F) {r c : ℕ} (hr : r < 4) (hc : c < 4) :
  (mat4Mul a b).el r c
    = a.el r 0 * b.el 0 c + a.el r 1 * b.el 1 c + a.el r 2 * b.el 2 c + a.el r 3 * b.el 3 c
  := by
  rw [mat4Mul, Mat4.el_ofEl _ hr hc]
  simp [List.range_succ]

@[simp] theorem toMatrix_mat4Mul (a b : Mat4 F) :
  (mat4Mul a b).toMatrix = a.toMatrix * b.toMatrix
  := by
  ext r c
  rw [Matrix.mul_apply, Fin.sum_univ_four]
  apply el_mat4Mul a b r.isLt c.isLt

/-- The cofactors are the elements of the adjugate matrix. -/
theorem toMatrix_mat4Cofactors (m : ℕ → F) :
  (mat4Cofactors m).toMatrix = Matrix.adjugate (Matrix.of fun r c => m (c.val * 4 + r.val))
  := by
  ext r c
  rw [Matrix.adjugate_fin_succ_eq_det_submatrix, Matrix.det_fin_three]
  fin_cases r <;> fin_cases c <;>
    simp [Mat4.toMatrix, Mat4.el, Mat4.get, mat4Cofactors, Fin.succAbove] <;> ring

theorem toMatrix_mat4Cofactors_get (a : Mat4 F) :
  (mat4Cofactors a.get).toMatrix = a.toMatrix.adjugate
  := toMatrix_mat4Cofactors a.get

/-- The determinant that `mat4_inverse` computes is that of the matrix. -/
theorem mat4Det_eq_det (a : Mat4 F) :
  mat4Det a.get = a.toMatrix.det
  := by
  have hcorner := congrFun (congrFun a.toMatrix.adjugate_mul 0) 0
  rw [← toMatrix_mat4Cofactors_get, Matrix.mul_apply, Fin.sum_univ_four, Matrix.smul_apply,
    Matrix.one_apply_eq, smul_eq_mul, mul_one] at hcorner
  rw [← hcorner, mat4Det, mul_comm (a.get 0), mul_comm (a.get 1), mul_comm (a.get 2),
    mul_comm (a.get 3)]
  rfl

/-- A matrix times its cofactors has the determinant on the diagonal. -/
theorem mat4Mul_cofactors (a : Mat4 F) :
  mat4Mul a (mat4Cofactors a.get) = mat4Diagonal (mat4Det a.get)
  := by
  rw [← Mat4.toMatrix_inj, toMatrix_mat4Mul, toMatrix_mat4Cofactors_get, Matrix.mul_adjugate,
    toMatrix_mat4Diagonal, mat4Det_eq_det]

/-- The cofactors times the matrix have the determinant on the diagonal. -/
theorem cofactors_mat4Mul (a : Mat4 F) :
  mat4Mul (mat4Cofactors a.get) a = mat4Diagonal (mat4Det a.get)
  := by
  rw [← Mat4.toMatrix_inj, toMatrix_mat4Mul, toMatrix_mat4Cofactors_get, Matrix.adjugate_mul,
    toMatrix_mat4Diagonal, mat4Det_eq_det]

end Matrices

/-! ### Linear maps -/

section Linear

variable {F : Type} [CommRing F]

/-- The last row and the last column are those of the identity, so that the matrix maps points
linearly. -/
structure Mat4.Linear (a : Mat4 F) : Prop where
  row : ∀ c, c < 4 → a.el 3 c = if c = 3 then 1 else 0
  col : ∀ r, r < 4 → a.el r 3 = if r = 3 then 1 else 0

variable {a b : Mat4 F}

theorem Mat4.Linear.mul (ha : a.Linear) (hb : b.Linear) :
  (mat4Mul a b).Linear
  where
  row c hc := by
    rw [el_mat4Mul a b (by decide) hc, hb.row c hc]
    simp [ha.row]
  col r hr := by
    rw [el_mat4Mul a b hr (by decide), ha.col r hr]
    simp [hb.col]

/-- The point that a linear matrix maps a point to. -/
theorem Mat4.Linear.mulPoint_eq (h : a.Linear) (v : Vec3 F) :
  mat4MulPoint a v
    = ⟨a.el 0 0 * v.x + a.el 0 1 * v.y + a.el 0 2 * v.z,
      a.el 1 0 * v.x + a.el 1 1 * v.y + a.el 1 2 * v.z,
      a.el 2 0 * v.x + a.el 2 1 * v.y + a.el 2 2 * v.z⟩
  := by
  simp [mat4MulPoint, mat4MulVec4, h.col]

/-- The product maps a point as the second matrix and then the first one do. -/
theorem Mat4.Linear.mulPoint_mul (ha : a.Linear) (hb : b.Linear) (v : Vec3 F) :
  mat4MulPoint (mat4Mul a b) v = mat4MulPoint a (mat4MulPoint b v)
  := by
  rw [(ha.mul hb).mulPoint_eq, ha.mulPoint_eq, hb.mulPoint_eq]
  ext <;> simp [el_mat4Mul, hb.row] <;> ring

/-- Linear matrices that map all points to the same points are equal. -/
theorem Mat4.Linear.ext_point
    (ha : a.Linear) (hb : b.Linear) (h : ∀ v, mat4MulPoint a v = mat4MulPoint b v) :
  a = b
  := by
  have hx := h ⟨1, 0, 0⟩
  have hy := h ⟨0, 1, 0⟩
  have hz := h ⟨0, 0, 1⟩
  rw [ha.mulPoint_eq, hb.mulPoint_eq] at hx hy hz
  simp only [mul_one, mul_zero, add_zero, zero_add, Vec3.mk.injEq] at hx hy hz
  apply Mat4.ext_el
  intro r c hr hc
  have hrow := (ha.row c hc).trans (hb.row c hc).symm
  have hcol := (ha.col r hr).trans (hb.col r hr).symm
  interval_cases r <;> interval_cases c <;> first | exact hrow | exact hcol | simp [hx, hy, hz]

end Linear

/-! ### The inverse -/

section Inverse

variable {F : Type} [Field F]

/-- The matrix `b` is the inverse of `a` on both sides. -/
def InverseOf (a b : Mat4 F) : Prop :=
  mat4Mul a b = mat4Identity ∧ mat4Mul b a = mat4Identity

/-- The matrix whose elements are those of another one times `s`. -/
theorem toMatrix_scaled (a : Mat4 F) (s : F) :
  (⟨fun i => a.get i.val * s⟩ : Mat4 F).toMatrix = s • a.toMatrix
  := by
  ext r c
  have hlt : c.val * 4 + r.val < 16 := by
    omega
  rw [Matrix.smul_apply, smul_eq_mul, mul_comm, Mat4.toMatrix, Matrix.of_apply, Mat4.el, Mat4.get,
    dif_pos hlt]
  rfl

/-- The cofactors divided by the determinant are the inverse. -/
theorem inverseOf_cofactors {a : Mat4 F} (hdet : mat4Det a.get ≠ 0) :
  InverseOf a ⟨fun i => (mat4Cofactors a.get).get i.val * (1 / mat4Det a.get)⟩
  := by
  have hcancel : (1 / mat4Det a.get) • mat4Det a.get • (1 : Matrix (Fin 4) (Fin 4) F) = 1 := by
    rw [smul_smul, one_div, inv_mul_cancel₀ hdet, one_smul]
  constructor
  · rw [← Mat4.toMatrix_inj, toMatrix_mat4Mul, toMatrix_scaled, Matrix.mul_smul,
      ← toMatrix_mat4Mul, mat4Mul_cofactors, toMatrix_mat4Diagonal, hcancel,
      toMatrix_mat4Identity]
  · rw [← Mat4.toMatrix_inj, toMatrix_mat4Mul, toMatrix_scaled, Matrix.smul_mul,
      ← toMatrix_mat4Mul, cofactors_mat4Mul, toMatrix_mat4Diagonal, hcancel,
      toMatrix_mat4Identity]

variable [LinearOrder F] [IsStrictOrderedRing F]

/-- The cofactors of `mat4_inverse` and its determinant are those of the matrix.  The call
returns `false` if and only if the determinant is near zero, and then it writes nothing; otherwise
it writes the inverse. -/
theorem mat4Inverse_spec (a : Mat4 F) (outInv : Option (Mat4 F)) :
  mat4Mul a (mat4Cofactors a.get) = mat4Diagonal (mat4Det a.get)
    ∧ mat4Mul (mat4Cofactors a.get) a = mat4Diagonal (mat4Det a.get)
    ∧ ((mat4Inverse a outInv).1 = false ↔ |mat4Det a.get| < 1e-12)
    ∧ ((mat4Inverse a outInv).1 = false → (mat4Inverse a outInv).2 = outInv)
    ∧ ((mat4Inverse a outInv).1 = true → ∀ out, outInv = some out →
      ∃ inv, (mat4Inverse a outInv).2 = some inv ∧ InverseOf a inv)
  := by
  refine ⟨mat4Mul_cofactors a, cofactors_mat4Mul a, ?_⟩
  simp only [mat4Inverse]
  split
  case isTrue hsmall => exact ⟨by simp [hsmall], fun _ => rfl, by simp⟩
  case isFalse hlarge =>
    refine ⟨by simp [hlarge], by simp, ?_⟩
    rintro - out rfl
    refine ⟨_, rfl, ?_⟩
    apply inverseOf_cofactors
    intro hzero
    apply hlarge
    rw [hzero, abs_zero]
    norm_num

/-- The inverse of the matrix with `2` on the diagonal is found. -/
theorem mat4Inverse_double :
  ∃ inv, (mat4Inverse (mat4Diagonal (2 : ℚ)) (some mat4Identity)).2 = some inv
    ∧ InverseOf (mat4Diagonal 2) inv
  := by
  have hdet : mat4Det (mat4Diagonal (2 : ℚ)).get = 16 := by
    rw [mat4Det_eq_det, toMatrix_mat4Diagonal, Matrix.det_smul, Matrix.det_one, Fintype.card_fin]
    norm_num
  have hfound : (mat4Inverse (mat4Diagonal (2 : ℚ)) (some mat4Identity)).1 = true := by
    norm_num [mat4Inverse, hdet]
  obtain ⟨-, -, -, -, hinverse⟩ := mat4Inverse_spec (mat4Diagonal (2 : ℚ)) (some mat4Identity)
  apply hinverse hfound _ rfl

end Inverse

end CTemplate

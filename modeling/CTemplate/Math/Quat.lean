import CTemplate.Math.Mat
import Mathlib.Tactic.LinearCombination

/-!
# Quaternions

The rotations of `math/quat.c`, in exact arithmetic.  A unit quaternion `q` rotates a vector `v`
in three ways: `quat_rotate_vec3` computes it with two cross products, the product of quaternions
`q * (v, 0) * conj(q)` defines it, and the matrix of `quat_to_mat4` maps the point to it.  The
three agree.

The second one shows how rotations compose, because products of quaternions are associative and
the conjugate of a product is the product of the conjugates in the other order.
-/

namespace CTemplate

/-- `Quat` -/
@[ext] structure Quat (F : Type) where
  x : F
  y : F
  z : F
  w : F
  deriving DecidableEq

section Operations

variable {F : Type} [Field F]

/-- `quat_identity` -/
def quatIdentity : Quat F :=
  ⟨0, 0, 0, 1⟩

/-- `quat_mul` -/
def quatMul (a b : Quat F) : Quat F :=
  ⟨a.w * b.x + a.x * b.w + a.y * b.z - a.z * b.y,
    a.w * b.y - a.x * b.z + a.y * b.w + a.z * b.x,
    a.w * b.z + a.x * b.y - a.y * b.x + a.z * b.w,
    a.w * b.w - a.x * b.x - a.y * b.y - a.z * b.z⟩

/-- `quat_conjugate` -/
def quatConjugate (q : Quat F) : Quat F :=
  ⟨-q.x, -q.y, -q.z, q.w⟩

/-- `quat_rotate_vec3` -/
def quatRotateVec3 (q : Quat F) (v : Vec3 F) : Vec3 F :=
  let qv : Vec3 F := ⟨q.x, q.y, q.z⟩
  let t := vec3Scale (vec3Cross qv v) 2.0
  vec3Add (vec3Add v (vec3Scale t q.w)) (vec3Cross qv t)

/-- `quat_to_mat4` -/
def quatToMat4 (q : Quat F) : Mat4 F :=
  let xx := q.x * q.x
  let yy := q.y * q.y
  let zz := q.z * q.z
  let xy := q.x * q.y
  let xz := q.x * q.z
  let yz := q.y * q.z
  let wx := q.w * q.x
  let wy := q.w * q.y
  let wz := q.w * q.z
  ⟨![1 - 2.0 * (yy + zz), 2.0 * (xy + wz), 2.0 * (xz - wy), mat4Identity.get 3,
    2.0 * (xy - wz), 1 - 2.0 * (xx + zz), 2.0 * (yz + wx), mat4Identity.get 7,
    2.0 * (xz + wy), 2.0 * (yz - wx), 1 - 2.0 * (xx + yy), mat4Identity.get 11,
    mat4Identity.get 12, mat4Identity.get 13, mat4Identity.get 14, mat4Identity.get 15]⟩

end Operations

/-! ### Products -/

section Products

variable {F : Type} [Field F]

/-- The square of the length of a quaternion. -/
def Quat.norm2 (q : Quat F) : F :=
  q.x * q.x + q.y * q.y + q.z * q.z + q.w * q.w

/-- The quaternion `(v, 0)`. -/
def Quat.ofVec3 (v : Vec3 F) : Quat F :=
  ⟨v.x, v.y, v.z, 0⟩

/-- The vector part of a quaternion. -/
def Quat.vec3 (q : Quat F) : Vec3 F :=
  ⟨q.x, q.y, q.z⟩

theorem Quat.vec3_ofVec3 (v : Vec3 F) : (Quat.ofVec3 v).vec3 = v :=
  rfl

theorem quatMul_assoc (p q r : Quat F) :
  quatMul (quatMul p q) r = quatMul p (quatMul q r)
  := by
  ext <;> simp only [quatMul] <;> ring

theorem quatConjugate_quatMul (p q : Quat F) :
  quatConjugate (quatMul p q) = quatMul (quatConjugate q) (quatConjugate p)
  := by
  ext <;> simp only [quatMul, quatConjugate] <;> ring

theorem norm2_quatMul (p q : Quat F) :
  (quatMul p q).norm2 = p.norm2 * q.norm2
  := by
  simp only [Quat.norm2, quatMul]
  ring

theorem norm2_quatConjugate (q : Quat F) :
  (quatConjugate q).norm2 = q.norm2
  := by
  simp only [Quat.norm2, quatConjugate]
  ring

theorem quatConjugate_quatConjugate (q : Quat F) :
  quatConjugate (quatConjugate q) = q
  := by
  simp only [quatConjugate, neg_neg]

/-- The conjugate of a unit quaternion is its inverse. -/
theorem quatConjugate_mul_self {q : Quat F} (hq : q.norm2 = 1) :
  quatMul (quatConjugate q) q = quatIdentity
  := by
  rw [Quat.norm2] at hq
  ext <;> simp only [quatMul, quatConjugate, quatIdentity]
  · ring
  · ring
  · ring
  · linear_combination hq

/-- A rotation by the identity moves nothing. -/
theorem quatRotateVec3_identity (v : Vec3 F) :
  quatRotateVec3 quatIdentity v = v
  := by
  ext <;> simp [quatRotateVec3, quatIdentity, vec3Add, vec3Scale, vec3Cross]

/-! ### Matrices -/

theorem linear_quatToMat4 (q : Quat F) :
  (quatToMat4 q).Linear
  where
  row c hc := by
    interval_cases c <;> simp [quatToMat4, Mat4.el, Mat4.get, mat4Identity]
  col r hr := by
    interval_cases r <;> simp [quatToMat4, Mat4.el, Mat4.get, mat4Identity]

/-- The matrix maps a point to what the quaternion rotates it to. -/
theorem mat4MulPoint_quatToMat4 (q : Quat F) (v : Vec3 F) :
  mat4MulPoint (quatToMat4 q) v = quatRotateVec3 q v
  := by
  rw [(linear_quatToMat4 q).mulPoint_eq]
  ext <;>
    simp [quatToMat4, Mat4.el, Mat4.get, quatRotateVec3, vec3Add, vec3Scale, vec3Cross] <;>
    ring

end Products

/-! ### Rotations -/

section Rotations

variable {F : Type} [Field F] [CharZero F] {p q : Quat F}

/-- A unit quaternion rotates a vector as the product `q * (v, 0) * conj(q)` does. -/
theorem ofVec3_quatRotateVec3 (hq : q.norm2 = 1) (v : Vec3 F) :
  Quat.ofVec3 (quatRotateVec3 q v) = quatMul (quatMul q (Quat.ofVec3 v)) (quatConjugate q)
  := by
  rw [Quat.norm2] at hq
  ext <;>
    simp only [Quat.ofVec3, quatRotateVec3, quatMul, quatConjugate, vec3Add, vec3Scale, vec3Cross,
      two_eq]
  · linear_combination (-v.x) * hq
  · linear_combination (-v.y) * hq
  · linear_combination (-v.z) * hq
  · ring

/-- The rotation by a product is the rotation by the second quaternion and then by the first. -/
theorem quatRotateVec3_quatMul (hp : p.norm2 = 1) (hq : q.norm2 = 1) (v : Vec3 F) :
  quatRotateVec3 (quatMul p q) v = quatRotateVec3 p (quatRotateVec3 q v)
  := by
  have hpq : (quatMul p q).norm2 = 1 := by
    rw [norm2_quatMul, hp, hq, one_mul]
  have hquat : Quat.ofVec3 (quatRotateVec3 (quatMul p q) v)
      = Quat.ofVec3 (quatRotateVec3 p (quatRotateVec3 q v)) := by
    rw [ofVec3_quatRotateVec3 hpq, ofVec3_quatRotateVec3 hp, ofVec3_quatRotateVec3 hq,
      quatConjugate_quatMul]
    simp only [quatMul_assoc]
  rw [← Quat.vec3_ofVec3 (quatRotateVec3 (quatMul p q) v), hquat, Quat.vec3_ofVec3]

/-- The rotation by the conjugate goes back. -/
theorem quatRotateVec3_quatConjugate (hq : q.norm2 = 1) (v : Vec3 F) :
  quatRotateVec3 (quatConjugate q) (quatRotateVec3 q v) = v
  := by
  have hconjugate : (quatConjugate q).norm2 = 1 := (norm2_quatConjugate q).trans hq
  rw [← quatRotateVec3_quatMul hconjugate hq, quatConjugate_mul_self hq, quatRotateVec3_identity]

/-- The matrix of a product is the product of the matrices. -/
theorem quatToMat4_quatMul (hp : p.norm2 = 1) (hq : q.norm2 = 1) :
  quatToMat4 (quatMul p q) = mat4Mul (quatToMat4 p) (quatToMat4 q)
  := by
  have hproduct := (linear_quatToMat4 p).mul (linear_quatToMat4 q)
  apply (linear_quatToMat4 _).ext_point hproduct
  intro v
  rw [(linear_quatToMat4 p).mulPoint_mul (linear_quatToMat4 q), mat4MulPoint_quatToMat4,
    mat4MulPoint_quatToMat4, mat4MulPoint_quatToMat4, quatRotateVec3_quatMul hp hq]

/-- Let `p` and `q` be unit quaternions.  The rotation of a vector by `q` is the product of
quaternions `q * (v, 0) * conj(q)` and the image of the point under the matrix of `q`.  Rotations
and their matrices compose as the quaternions do, and the conjugate undoes a rotation. -/
theorem quatRotateVec3_spec (hp : p.norm2 = 1) (hq : q.norm2 = 1) :
  (∀ v, Quat.ofVec3 (quatRotateVec3 q v)
      = quatMul (quatMul q (Quat.ofVec3 v)) (quatConjugate q))
    ∧ (∀ v, quatRotateVec3 q v = mat4MulPoint (quatToMat4 q) v)
    ∧ (∀ v, quatRotateVec3 (quatMul p q) v = quatRotateVec3 p (quatRotateVec3 q v))
    ∧ quatToMat4 (quatMul p q) = mat4Mul (quatToMat4 p) (quatToMat4 q)
    ∧ (∀ v, quatRotateVec3 (quatConjugate q) (quatRotateVec3 q v) = v
      ∧ quatRotateVec3 q (quatRotateVec3 (quatConjugate q) v) = v)
    ∧ quatMul (quatConjugate q) q = quatIdentity
  := by
  have hconjugate : (quatConjugate q).norm2 = 1 := (norm2_quatConjugate q).trans hq
  refine ⟨?_, ?_, ?_, ?_, ?_, ?_⟩
  · intro v
    apply ofVec3_quatRotateVec3 hq
  · intro v
    rw [mat4MulPoint_quatToMat4]
  · intro v
    apply quatRotateVec3_quatMul hp hq
  · apply quatToMat4_quatMul hp hq
  · intro v
    have hback := quatRotateVec3_quatConjugate hconjugate v
    rw [quatConjugate_quatConjugate] at hback
    exact ⟨quatRotateVec3_quatConjugate hq v, hback⟩
  · apply quatConjugate_mul_self hq

/-- Half turns around two axes compose to a half turn around the third one. -/
theorem quatRotateVec3_halfTurns :
  quatRotateVec3 (quatMul ⟨1, 0, 0, 0⟩ ⟨0, 1, 0, 0⟩) (⟨1, 2, 3⟩ : Vec3 ℚ) = ⟨-1, -2, 3⟩
  := by
  have hp : (⟨1, 0, 0, 0⟩ : Quat ℚ).norm2 = 1 := by
    norm_num [Quat.norm2]
  have hq : (⟨0, 1, 0, 0⟩ : Quat ℚ).norm2 = 1 := by
    norm_num [Quat.norm2]
  rw [(quatRotateVec3_spec hp hq).2.2.1]
  norm_num [quatRotateVec3, vec3Add, vec3Scale, vec3Cross]

end Rotations

end CTemplate

import Mathlib.Algebra.Field.Defs
import Mathlib.Tactic.NormNum
import Mathlib.Tactic.Ring

/-!
# Vectors

The vectors of `math/vec.c` in three dimensions and in four, with components in an arbitrary type
with the operations of a field, which stands for `float` in exact arithmetic.
-/

namespace CTemplate

/-- `Vec3` -/
@[ext] structure Vec3 (F : Type) where
  x : F
  y : F
  z : F
  deriving DecidableEq

variable {F : Type}

/-- `vec3_add` -/
def vec3Add [Add F] (a b : Vec3 F) : Vec3 F :=
  ⟨a.x + b.x, a.y + b.y, a.z + b.z⟩

/-- `vec3_sub` -/
def vec3Sub [Sub F] (a b : Vec3 F) : Vec3 F :=
  ⟨a.x - b.x, a.y - b.y, a.z - b.z⟩

/-- `vec3_scale` -/
def vec3Scale [Mul F] (v : Vec3 F) (s : F) : Vec3 F :=
  ⟨v.x * s, v.y * s, v.z * s⟩

/-- `vec3_dot` -/
def vec3Dot [Add F] [Mul F] (a b : Vec3 F) : F :=
  a.x * b.x + a.y * b.y + a.z * b.z

/-- `vec3_cross` -/
def vec3Cross [Sub F] [Mul F] (a b : Vec3 F) : Vec3 F :=
  ⟨a.y * b.z - a.z * b.y, a.z * b.x - a.x * b.z, a.x * b.y - a.y * b.x⟩

/-- `vec3_length`, for the square root `sqrtf`. -/
def vec3Length [Add F] [Mul F] (sqrtf : F → F) (v : Vec3 F) : F :=
  sqrtf (vec3Dot v v)

/-- `Vec4` -/
@[ext] structure Vec4 (F : Type) where
  x : F
  y : F
  z : F
  w : F
  deriving DecidableEq

/-- The constant `2.0f`. -/
theorem two_eq [Field F] [CharZero F] : (2.0 : F) = 2 := by
  norm_num

/-! ### Components -/

/-- The three axes. -/
inductive Axis where
  | x
  | y
  | z
  deriving DecidableEq

/-- The component of a vector along an axis. -/
def Vec3.along (v : Vec3 F) : Axis → F
  | .x => v.x
  | .y => v.y
  | .z => v.z

/-- Vectors with the same components are equal. -/
theorem Vec3.ext_along {a b : Vec3 F} (h : ∀ axis, a.along axis = b.along axis) :
  a = b
  := by
  ext
  · apply h .x
  · apply h .y
  · apply h .z

@[simp] theorem along_vec3Add [Add F] (a b : Vec3 F) (axis : Axis) :
  (vec3Add a b).along axis = a.along axis + b.along axis
  := by
  cases axis <;> rfl

@[simp] theorem along_vec3Sub [Sub F] (a b : Vec3 F) (axis : Axis) :
  (vec3Sub a b).along axis = a.along axis - b.along axis
  := by
  cases axis <;> rfl

@[simp] theorem along_vec3Scale [Mul F] (v : Vec3 F) (s : F) (axis : Axis) :
  (vec3Scale v s).along axis = v.along axis * s
  := by
  cases axis <;> rfl

/-! ### Vectors over a ring -/

section Ring

variable {R : Type} [CommRing R]

theorem vec3Scale_vec3Scale (v : Vec3 R) (s t : R) :
  vec3Scale (vec3Scale v s) t = vec3Scale v (s * t)
  := by
  apply Vec3.ext_along
  intro axis
  rw [along_vec3Scale, along_vec3Scale, along_vec3Scale, mul_assoc]

theorem vec3Sub_vec3Scale (u v : Vec3 R) (s : R) :
  vec3Sub u (vec3Scale v s) = vec3Add u (vec3Scale v (-s))
  := by
  apply Vec3.ext_along
  intro axis
  rw [along_vec3Sub, along_vec3Add, along_vec3Scale, along_vec3Scale, mul_neg, sub_eq_add_neg]

theorem vec3Dot_comm (a b : Vec3 R) :
  vec3Dot a b = vec3Dot b a
  := by
  rw [vec3Dot, vec3Dot]
  ring

@[simp] theorem vec3Dot_vec3Add (a b v : Vec3 R) :
  vec3Dot (vec3Add a b) v = vec3Dot a v + vec3Dot b v
  := by
  rw [vec3Dot, vec3Dot, vec3Dot, vec3Add]
  ring

@[simp] theorem vec3Dot_vec3Sub (a b v : Vec3 R) :
  vec3Dot (vec3Sub a b) v = vec3Dot a v - vec3Dot b v
  := by
  rw [vec3Dot, vec3Dot, vec3Dot, vec3Sub]
  ring

@[simp] theorem vec3Dot_vec3Scale (a v : Vec3 R) (s : R) :
  vec3Dot (vec3Scale a s) v = vec3Dot a v * s
  := by
  rw [vec3Dot, vec3Dot, vec3Scale]
  ring

end Ring

end CTemplate

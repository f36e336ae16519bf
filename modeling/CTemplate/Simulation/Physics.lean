import CTemplate.Math.Vec
import Mathlib.Algebra.BigOperators.Fin
import Mathlib.Algebra.Order.Field.Basic
import Mathlib.Algebra.Order.Field.Rat
import Mathlib.Tactic.FieldSimp
import Mathlib.Tactic.NormNum
import Mathlib.Tactic.Ring

/-!
# Particles

The springs and the collisions of `simulation/physics.c`, in exact arithmetic: a `float` is an
element of an ordered field, and `sqrtf` is any function on it.  The particles are those of an
array of `n`, a pointer to a particle is its index or, for `NULL`, `none`, and both pointers of a
call may be the same.

Every call keeps the total linear momentum, `momentum`, when all masses are positive, and so does
every sequence of calls, `momentum_physicsRun`.
-/

namespace CTemplate

/-- `Particle` -/
structure Particle (F : Type) where
  pos : Vec3 F
  vel : Vec3 F
  prevPos : Vec3 F
  mass : F
  deriving DecidableEq

/-- The array of the `n` particles. -/
abbrev Particles (F : Type) (n : ℕ) := Fin n → Particle F

namespace Particles

variable {F : Type} {n : ℕ}

/-- `p->pos = v`, for the particle `p` at `i`. -/
def setPos (ps : Particles F n) (i : Fin n) (v : Vec3 F) : Particles F n :=
  Function.update ps i { ps i with pos := v }

/-- `p->vel = v`, for the particle `p` at `i`. -/
def setVel (ps : Particles F n) (i : Fin n) (v : Vec3 F) : Particles F n :=
  Function.update ps i { ps i with vel := v }

@[simp] theorem mass_setPos (ps : Particles F n) (i j : Fin n) (v : Vec3 F) :
  (ps.setPos i v j).mass = (ps j).mass
  := by
  rw [setPos, Function.update_apply]
  split
  · subst j
    rfl
  · rfl

@[simp] theorem vel_setPos (ps : Particles F n) (i j : Fin n) (v : Vec3 F) :
  (ps.setPos i v j).vel = (ps j).vel
  := by
  rw [setPos, Function.update_apply]
  split
  · subst j
    rfl
  · rfl

@[simp] theorem mass_setVel (ps : Particles F n) (i j : Fin n) (v : Vec3 F) :
  (ps.setVel i v j).mass = (ps j).mass
  := by
  rw [setVel, Function.update_apply]
  split
  · subst j
    rfl
  · rfl

theorem vel_setVel (ps : Particles F n) (i j : Fin n) (v : Vec3 F) :
  (ps.setVel i v j).vel = if j = i then v else (ps j).vel
  := by
  rw [setVel, Function.update_apply]
  split <;> rfl

end Particles

section Calls

variable {F : Type} [Field F] [LinearOrder F] {n : ℕ}

/-- `physics_apply_spring` -/
def physicsApplySpring (sqrtf : F → F) (ps : Particles F n) (a b : Option (Fin n))
    (restLen k damping dt : F) : Particles F n :=
  match a, b with
  | some a, some b =>
      if (ps a).mass ≤ 0 ∨ (ps b).mass ≤ 0 then ps
      else
        let delta := vec3Sub (ps b).pos (ps a).pos
        let dist := vec3Length sqrtf delta
        if dist < 1e-8 then ps
        else
          let relV := vec3Dot (vec3Sub (ps b).vel (ps a).vel) delta / dist
          let force := k * (dist - restLen) + damping * relV
          let impulse := vec3Scale delta (force / dist)
          let ps := ps.setVel a (vec3Add (ps a).vel (vec3Scale impulse (dt / (ps a).mass)))
          ps.setVel b (vec3Sub (ps b).vel (vec3Scale impulse (dt / (ps b).mass)))
  | _, _ => ps

/-- The masses `ma` and `mb` that a collision works with. -/
def collisionMass (p : Particle F) : F :=
  if 0 < p.mass then p.mass else 1

/-- `physics_collide_spheres` -/
def physicsCollideSpheres (sqrtf : F → F) (ps : Particles F n) (a b : Option (Fin n))
    (radius : F) : Particles F n :=
  match a, b with
  | some a, some b =>
      let delta := vec3Sub (ps b).pos (ps a).pos
      let dist2 := vec3Dot delta delta
      let minDist := 2.0 * radius
      if minDist * minDist ≤ dist2 ∨ dist2 < 1e-12 then ps
      else
        let dist := sqrtf dist2
        let normal := vec3Scale delta (1 / dist)
        let ma := collisionMass (ps a)
        let mb := collisionMass (ps b)
        let invMass := 1 / (ma + mb)
        let push := vec3Scale normal (minDist - dist)
        let ps := ps.setPos a (vec3Sub (ps a).pos (vec3Scale push (mb * invMass)))
        let ps := ps.setPos b (vec3Add (ps b).pos (vec3Scale push (ma * invMass)))
        let va := vec3Dot (ps a).vel normal
        let vb := vec3Dot (ps b).vel normal
        let va2 := (va * (ma - mb) + 2.0 * mb * vb) * invMass
        let vb2 := (vb * (mb - ma) + 2.0 * ma * va) * invMass
        let ps := ps.setVel a (vec3Add (ps a).vel (vec3Scale normal (va2 - va)))
        ps.setVel b (vec3Add (ps b).vel (vec3Scale normal (vb2 - vb)))
  | _, _ => ps

/-- A call of `physics_apply_spring` or of `physics_collide_spheres`. -/
inductive PhysicsCall (F : Type) (n : ℕ) where
  | applySpring (a b : Option (Fin n)) (restLen k damping dt : F)
  | collideSpheres (a b : Option (Fin n)) (radius : F)

/-- The particles after a call. -/
def physicsCall (sqrtf : F → F) (ps : Particles F n) : PhysicsCall F n → Particles F n
  | .applySpring a b restLen k damping dt =>
      physicsApplySpring sqrtf ps a b restLen k damping dt
  | .collideSpheres a b radius => physicsCollideSpheres sqrtf ps a b radius

/-- The particles after a sequence of calls. -/
def physicsRun (sqrtf : F → F) (ps : Particles F n) (calls : List (PhysicsCall F n)) :
    Particles F n :=
  calls.foldl (physicsCall sqrtf) ps

end Calls

/-! ### Momentum -/

section Momentum

variable {F : Type} [Field F] {n : ℕ}

/-- The component of the total linear momentum along an axis: the sum of mass times velocity. -/
def momentum (ps : Particles F n) (axis : Axis) : F :=
  ∑ i, (ps i).mass * (ps i).vel.along axis

@[simp] theorem momentum_setPos (ps : Particles F n) (i : Fin n) (v : Vec3 F) (axis : Axis) :
  momentum (ps.setPos i v) axis = momentum ps axis
  := by
  simp [momentum]

/-- A new velocity for one particle changes the momentum by its mass times the change. -/
theorem momentum_setVel (ps : Particles F n) (i : Fin n) (v : Vec3 F) (axis : Axis) :
  momentum (ps.setVel i v) axis
    = momentum ps axis + (ps i).mass * (v.along axis - (ps i).vel.along axis)
  := by
  have hrest : ∀ j ∈ Finset.univ.erase i,
      (ps.setVel i v j).mass * (ps.setVel i v j).vel.along axis
        = (ps j).mass * (ps j).vel.along axis := by
    intro j hj
    rw [Particles.mass_setVel, Particles.vel_setVel, if_neg (Finset.ne_of_mem_erase hj)]
  rw [momentum, momentum, ← Finset.add_sum_erase _ _ (Finset.mem_univ i),
    ← Finset.add_sum_erase Finset.univ (fun j => (ps j).mass * _) (Finset.mem_univ i),
    Finset.sum_congr rfl hrest, Particles.mass_setVel, Particles.vel_setVel, if_pos rfl]
  ring

end Momentum

section Conservation

variable {F : Type} [Field F] [LinearOrder F] {n : ℕ}

/-- A spring takes from one particle the momentum it gives to the other. -/
theorem momentum_physicsApplySpring
    (sqrtf : F → F) (ps : Particles F n) (a b : Option (Fin n)) (restLen k damping dt : F)
    (axis : Axis) :
  momentum (physicsApplySpring sqrtf ps a b restLen k damping dt) axis = momentum ps axis
  := by
  cases a with
  | none => rfl
  | some a =>
    cases b with
    | none => rfl
    | some b =>
      rw [physicsApplySpring]
      split
      · rfl
      next hmass =>
        push Not at hmass
        have ha := hmass.1.ne'
        have hb := hmass.2.ne'
        dsimp only
        split
        · rfl
        · -- the second write reads the velocity that the first one left, so that `a` and `b`
          -- may be the same particle
          rw [momentum_setVel, momentum_setVel]
          simp only [along_vec3Add, along_vec3Sub, along_vec3Scale, Particles.mass_setVel]
          field_simp
          ring

/-- The changes of the two velocities along the contact normal, weighted by the masses, add up
to zero. -/
theorem collision_exchange
    {F : Type} [Field F] [CharZero F] {ma mb : F} (hm : ma + mb ≠ 0) (va vb : F) :
  ma * ((va * (ma - mb) + 2.0 * mb * vb) * (1 / (ma + mb)) - va)
      + mb * ((vb * (mb - ma) + 2.0 * ma * va) * (1 / (ma + mb)) - vb)
    = 0
  := by
  rw [two_eq]
  field_simp
  ring

theorem collisionMass_eq {p : Particle F} (h : 0 < p.mass) : collisionMass p = p.mass :=
  if_pos h

/-- A collision of two particles with positive masses keeps the momentum. -/
theorem momentum_physicsCollideSpheres
    [IsStrictOrderedRing F]
    (sqrtf : F → F) {ps : Particles F n} (hmass : ∀ i, 0 < (ps i).mass) (a b : Option (Fin n))
    (radius : F) (axis : Axis) :
  momentum (physicsCollideSpheres sqrtf ps a b radius) axis = momentum ps axis
  := by
  cases a with
  | none => rfl
  | some a =>
    cases b with
    | none => rfl
    | some b =>
      rw [physicsCollideSpheres]
      dsimp only
      split
      · rfl
      · have hexchange := collision_exchange (add_pos (hmass a) (hmass b)).ne'
        rw [momentum_setVel, momentum_setVel, momentum_setPos, momentum_setPos,
          collisionMass_eq (hmass a), collisionMass_eq (hmass b)]
        simp only [along_vec3Add, along_vec3Scale, Particles.mass_setVel, Particles.mass_setPos,
          Particles.vel_setPos, add_sub_cancel_left]
        rw [add_assoc, mul_left_comm, mul_left_comm (ps b).mass, ← mul_add, hexchange, mul_zero,
          add_zero]

/-- A call changes no mass. -/
theorem mass_physicsCall
    (sqrtf : F → F) (ps : Particles F n) (call : PhysicsCall F n) (i : Fin n) :
  (physicsCall sqrtf ps call i).mass = (ps i).mass
  := by
  cases call with
  | applySpring a b restLen k damping dt =>
    rw [physicsCall, physicsApplySpring.eq_def]
    split
    · split
      · rfl
      dsimp only
      split
      · rfl
      · simp only [Particles.mass_setVel]
    · rfl
  | collideSpheres a b radius =>
    rw [physicsCall, physicsCollideSpheres.eq_def]
    split
    · dsimp only
      split
      · rfl
      · simp only [Particles.mass_setVel, Particles.mass_setPos]
    · rfl

/-- A call keeps the momentum of particles with positive masses. -/
theorem momentum_physicsCall
    [IsStrictOrderedRing F]
    (sqrtf : F → F) {ps : Particles F n} (hmass : ∀ i, 0 < (ps i).mass)
    (call : PhysicsCall F n) (axis : Axis) :
  momentum (physicsCall sqrtf ps call) axis = momentum ps axis
  := by
  cases call with
  | applySpring a b restLen k damping dt => apply momentum_physicsApplySpring
  | collideSpheres a b radius => apply momentum_physicsCollideSpheres _ hmass

/-- A sequence of calls keeps the momentum of particles with positive masses, in each
component.  No property of `sqrtf` is needed. -/
theorem momentum_physicsRun
    [IsStrictOrderedRing F]
    (sqrtf : F → F) {ps : Particles F n} (hmass : ∀ i, 0 < (ps i).mass)
    (calls : List (PhysicsCall F n)) (axis : Axis) :
  momentum (physicsRun sqrtf ps calls) axis = momentum ps axis
  := by
  induction calls generalizing ps with
  | nil => rfl
  | cons call calls ih =>
    have hnext : ∀ i, 0 < (physicsCall sqrtf ps call i).mass := by
      intro i
      rw [mass_physicsCall]
      apply hmass
    calc momentum (physicsRun sqrtf ps (call :: calls)) axis
        = momentum (physicsRun sqrtf (physicsCall sqrtf ps call) calls) axis := rfl
      _ = momentum (physicsCall sqrtf ps call) axis := ih hnext
      _ = momentum ps axis := momentum_physicsCall sqrtf hmass call axis

/-- Two particles of masses `1` and `3` that fly at each other. -/
def twoParticles : Particles ℚ 2
  | 0 => ⟨⟨0, 0, 0⟩, ⟨1, 0, 2⟩, ⟨0, 0, 0⟩, 1⟩
  | 1 => ⟨⟨1, 0, 0⟩, ⟨-1, 0, 0⟩, ⟨1, 0, 0⟩, 3⟩

/-- A spring between the two particles and their collision, where the only square root taken is
that of `1`. -/
theorem momentum_twoParticles :
  (∀ i, 0 < (twoParticles i).mass)
    ∧ momentum (physicsRun id twoParticles
        [.applySpring (some 0) (some 1) 2 1 1 1, .collideSpheres (some 0) (some 1) 1]) .x = -2
  := by
  have hmass : ∀ i, 0 < (twoParticles i).mass := by
    decide
  use hmass
  rw [momentum_physicsRun id hmass, momentum, Fin.sum_univ_two]
  norm_num [twoParticles, Vec3.along]

end Conservation

end CTemplate

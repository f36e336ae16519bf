import CTemplate.Simulation.Physics
import Mathlib.Tactic.LinearCombination

/-!
# The collision of two spheres

What `physics_collide_spheres` does to two particles that overlap.  Along the contact normal each
particle is pushed away from the other one, and its velocity is changed; nothing else happens,
`physicsCollideSpheres_eq`.  The push and the change of the velocity of each are weighted by the
mass of the other one, so that the collision is elastic, `physicsCollideSpheres_elastic`.

The change of the velocities is the same whether the two approach each other or separate.  Two
particles that separate approach each other after the call, `physicsCollideSpheres_separates_iff`.
-/

namespace CTemplate

section Pairs

variable {F : Type} [Field F]

/-- The squared distance of two particles. -/
def distance2 (p q : Particle F) : F :=
  vec3Dot (vec3Sub q.pos p.pos) (vec3Sub q.pos p.pos)

/-- Two spheres with the given radius overlap, and their centres are not too close for a contact
normal. -/
def Overlap [LinearOrder F] (p q : Particle F) (radius : F) : Prop :=
  1e-12 ≤ distance2 p q ∧ distance2 p q < 2.0 * radius * (2.0 * radius)

/-- What `sqrtf` returns is a positive square root. -/
def RootAt [LinearOrder F] (sqrtf : F → F) (d : F) : Prop :=
  0 < sqrtf d ∧ sqrtf d * sqrtf d = d

/-- The unit vector from the first particle to the second. -/
def contactNormal (sqrtf : F → F) (p q : Particle F) : Vec3 F :=
  vec3Scale (vec3Sub q.pos p.pos) (1 / sqrtf (distance2 p q))

/-- The velocity of the second particle with respect to the first, along a vector. -/
def relativeSpeed (v : Vec3 F) (p q : Particle F) : F :=
  vec3Dot (vec3Sub q.vel p.vel) v

/-- The part of a velocity that is orthogonal to a unit vector. -/
def tangential (n v : Vec3 F) : Vec3 F :=
  vec3Sub v (vec3Scale n (vec3Dot v n))

/-- The mass-weighted centre of two particles. -/
def centre (p q : Particle F) : Vec3 F :=
  vec3Scale (vec3Add (vec3Scale p.pos p.mass) (vec3Scale q.pos q.mass)) (1 / (p.mass + q.mass))

/-- The kinetic energy of a particle. -/
def energy (p : Particle F) : F :=
  p.mass * vec3Dot p.vel p.vel / 2.0

/-- The total kinetic energy. -/
def kineticEnergy {n : ℕ} (ps : Particles F n) : F :=
  ∑ i, energy (ps i)

/-- The particle is pushed by `move` and its velocity changed by `change`, along a vector. -/
def pushed (p : Particle F) (v : Vec3 F) (move change : F) : Particle F :=
  { p with pos := vec3Add p.pos (vec3Scale v move), vel := vec3Add p.vel (vec3Scale v change) }

/-- A contact normal is a unit vector. -/
theorem contactNormal_unit
    [LinearOrder F] {sqrtf : F → F} {p q : Particle F} (h : RootAt sqrtf (distance2 p q)) :
  vec3Dot (contactNormal sqrtf p q) (contactNormal sqrtf p q) = 1
  := by
  obtain ⟨hpos, hroot⟩ := h
  have hne := hpos.ne'
  rw [contactNormal, vec3Dot_vec3Scale, vec3Dot_comm, vec3Dot_vec3Scale]
  change distance2 p q * _ * _ = 1
  nth_rewrite 1 [← hroot]
  field_simp

/-- The second particle is at its distance along the contact normal. -/
theorem along_contactNormal
    [LinearOrder F] {sqrtf : F → F} {p q : Particle F} (h : RootAt sqrtf (distance2 p q))
    (axis : Axis) :
  q.pos.along axis - p.pos.along axis
    = (contactNormal sqrtf p q).along axis * sqrtf (distance2 p q)
  := by
  have hne := h.1.ne'
  rw [contactNormal, along_vec3Scale, along_vec3Sub]
  field_simp

end Pairs

/-! ### What a call does -/

section Writes

variable {F : Type} {n : ℕ} (ps : Particles F n)

theorem Particles.pos_setPos_of_ne {i j : Fin n} (hij : j ≠ i) (v : Vec3 F) :
  (ps.setPos i v j).pos = (ps j).pos
  := by
  rw [setPos, Function.update_of_ne hij]

/-- Writes to the positions and then to the velocities of two particles. -/
theorem Particles.setVel_setPos {a b : Fin n} (hab : a ≠ b) (pa pb va vb : Vec3 F) :
  (((ps.setPos a pa).setPos b pb).setVel a va).setVel b vb
    = Function.update (Function.update ps a { ps a with pos := pa, vel := va }) b
      { ps b with pos := pb, vel := vb }
  := by
  simp only [setVel, setPos, Function.update_self, Function.update_of_ne hab,
    Function.update_of_ne hab.symm, Function.update_comm hab, Function.update_idem]

end Writes

section Call

variable {F : Type} [Field F] [LinearOrder F] [IsStrictOrderedRing F] {n : ℕ}
  {sqrtf : F → F} {ps : Particles F n} {a b : Fin n} {radius : F}

/-- A particle does not overlap itself. -/
theorem Overlap.ne (h : Overlap (ps a) (ps b) radius) :
  a ≠ b
  := by
  rintro rfl
  have hfar := h.1
  have hzero : distance2 (ps a) (ps a) = 0 := by
    simp [distance2]
  rw [hzero] at hfar
  norm_num at hfar

/-- The changes of both velocities, in terms of the relative velocity. -/
theorem collision_changes {ma mb : F} (hm : ma + mb ≠ 0) (va vb : F) :
  (va * (ma - mb) + 2.0 * mb * vb) / (ma + mb) - va = 2.0 * mb * (vb - va) / (ma + mb)
    ∧ (vb * (mb - ma) + 2.0 * ma * va) / (ma + mb) - vb = -(2.0 * ma * (vb - va) / (ma + mb))
  := by
  rw [two_eq]
  constructor
  · field_simp
    ring
  · field_simp
    ring

/-- Where two particles with positive masses overlap, the collision pushes both along the contact
normal, changes their velocities along it and does nothing else. -/
theorem physicsCollideSpheres_eq
    (hma : 0 < (ps a).mass) (hmb : 0 < (ps b).mass) (hoverlap : Overlap (ps a) (ps b) radius)
    {v : Vec3 F} {gap u total : F} (hv : v = contactNormal sqrtf (ps a) (ps b))
    (hgap : gap = 2.0 * radius - sqrtf (distance2 (ps a) (ps b)))
    (hu : u = relativeSpeed v (ps a) (ps b)) (htotal : total = (ps a).mass + (ps b).mass) :
  physicsCollideSpheres sqrtf ps (some a) (some b) radius
    = Function.update
      (Function.update ps a
        (pushed (ps a) v (-(gap * ((ps b).mass / total))) (2.0 * (ps b).mass * u / total)))
      b (pushed (ps b) v (gap * ((ps a).mass / total)) (-(2.0 * (ps a).mass * u / total)))
  := by
  have hab := hoverlap.ne
  have hgo : ¬ (2.0 * radius * (2.0 * radius) ≤ distance2 (ps a) (ps b)
      ∨ distance2 (ps a) (ps b) < 1e-12) := by
    rw [not_or, not_le, not_lt]
    exact ⟨hoverlap.2, hoverlap.1⟩
  obtain ⟨hchange, hchange'⟩ :=
    collision_changes (add_pos hma hmb).ne' (vec3Dot (ps a).vel v) (vec3Dot (ps b).vel v)
  rw [relativeSpeed, vec3Dot_vec3Sub] at hu
  rw [← htotal, ← hu] at hchange hchange'
  rw [contactNormal] at hv
  rw [distance2] at hgo hv hgap
  rw [physicsCollideSpheres]
  simp only [if_neg hgo, collisionMass_eq hma, collisionMass_eq hmb, ← hv, ← hgap, ← htotal,
    Particles.vel_setPos, Particles.pos_setPos_of_ne ps hab.symm, Particles.vel_setVel,
    if_neg hab.symm, Particles.setVel_setPos ps hab, vec3Scale_vec3Scale, vec3Sub_vec3Scale,
    mul_one_div, hchange, hchange', pushed]

end Call

/-! ### Elastic collisions -/

section Elastic

variable {F : Type} [Field F]

/-- A new particle in the place of `i` changes the kinetic energy by the difference of the two. -/
theorem kineticEnergy_update (ps : Particles F n) (i : Fin n) (p : Particle F) :
  kineticEnergy (Function.update ps i p) = kineticEnergy ps + (energy p - energy (ps i))
  := by
  have hrest : ∀ j ∈ Finset.univ.erase i,
      energy (Function.update ps i p j) = energy (ps j) := by
    intro j hj
    rw [Function.update_of_ne (Finset.ne_of_mem_erase hj)]
  rw [kineticEnergy, kineticEnergy, ← Finset.add_sum_erase _ _ (Finset.mem_univ i),
    ← Finset.add_sum_erase Finset.univ (fun j => energy (ps j)) (Finset.mem_univ i),
    Finset.sum_congr rfl hrest, Function.update_self]
  ring

/-- The energy of a particle whose velocity was changed along a unit vector. -/
theorem energy_pushed
    [CharZero F] {v : Vec3 F} (hunit : vec3Dot v v = 1) (p : Particle F) (move change : F) :
  energy (pushed p v move change) - energy p
    = p.mass * (change * vec3Dot p.vel v + change * change / 2)
  := by
  have hsquare : vec3Dot (pushed p v move change).vel (pushed p v move change).vel
      = vec3Dot p.vel p.vel + 2 * change * vec3Dot p.vel v + change * change := by
    rw [pushed, vec3Dot_vec3Add, vec3Dot_vec3Scale, vec3Dot_comm p.vel, vec3Dot_comm v,
      vec3Dot_vec3Add, vec3Dot_vec3Add, vec3Dot_vec3Scale, vec3Dot_vec3Scale, hunit,
      vec3Dot_comm v]
    ring
  rw [energy, energy, hsquare, two_eq]
  change p.mass * _ / 2 - _ = _
  ring

/-- The relative velocity of two particles that were pushed along a unit vector. -/
theorem relativeSpeed_pushed
    {v : Vec3 F} (hunit : vec3Dot v v = 1) (p q : Particle F) (move move' change change' : F) :
  relativeSpeed v (pushed p v move change) (pushed q v move' change')
    = relativeSpeed v p q + (change' - change)
  := by
  simp only [relativeSpeed, pushed, vec3Dot_vec3Sub, vec3Dot_vec3Add, vec3Dot_vec3Scale, hunit]
  ring

/-- A change of the velocity along a unit vector leaves its orthogonal part alone. -/
theorem tangential_pushed
    {v : Vec3 F} (hunit : vec3Dot v v = 1) (p : Particle F) (move change : F) :
  tangential v (pushed p v move change).vel = tangential v p.vel
  := by
  apply Vec3.ext_along
  intro axis
  simp only [tangential, pushed, along_vec3Sub, along_vec3Add, along_vec3Scale, vec3Dot_vec3Add,
    vec3Dot_vec3Scale, hunit]
  ring

/-- Pushes that are weighted by the other mass keep the mass-weighted centre. -/
theorem centre_pushed (v : Vec3 F) (p q : Particle F) (gap total change change' : F) :
  centre (pushed p v (-(gap * (q.mass / total))) change)
      (pushed q v (gap * (p.mass / total)) change')
    = centre p q
  := by
  apply Vec3.ext_along
  intro axis
  simp only [centre, pushed, along_vec3Scale, along_vec3Add]
  ring

/-- `d` is the distance of two particles. -/
def AtDistance [LinearOrder F] (p q : Particle F) (d : F) : Prop :=
  0 ≤ d ∧ d * d = distance2 p q

/-- Particles whose difference is `d` times a unit vector have the distance `d`. -/
theorem atDistance_of_along
    [LinearOrder F] {v : Vec3 F} (hunit : vec3Dot v v = 1) {p q : Particle F} {d : F}
    (hd : 0 ≤ d) (h : ∀ axis, q.pos.along axis - p.pos.along axis = v.along axis * d) :
  AtDistance p q d
  := by
  have hdelta : vec3Sub q.pos p.pos = vec3Scale v d := by
    apply Vec3.ext_along
    intro axis
    rw [along_vec3Sub, along_vec3Scale, h]
  refine ⟨hd, ?_⟩
  rw [distance2, hdelta, vec3Dot_vec3Scale, vec3Dot_comm, vec3Dot_vec3Scale, hunit, one_mul]

/-- An elastic collision of two spheres along the normal `v`: the particles `p` and `q` become
`p'` and `q'`. -/
structure ElasticCollision [LinearOrder F] (v : Vec3 F) (radius : F) (p q p' q' : Particle F) :
    Prop where
  apart : AtDistance p' q' (2.0 * radius)
  centre_eq : centre p' q' = centre p q
  energy_eq : energy p' + energy q' = energy p + energy q
  tangential_left : tangential v p'.vel = tangential v p.vel
  tangential_right : tangential v q'.vel = tangential v q.vel
  relativeSpeed_eq : relativeSpeed v p' q' = -relativeSpeed v p q

variable [LinearOrder F] [IsStrictOrderedRing F] {sqrtf : F → F} {n : ℕ} {ps : Particles F n}
  {a b : Fin n} {radius : F}

/-- The relative velocity changes by twice its amount. -/
theorem relativeSpeed_exchange {ma mb : F} (hm : ma + mb ≠ 0) (u : F) :
  u + (-(2.0 * ma * u / (ma + mb)) - 2.0 * mb * u / (ma + mb)) = -u
  := by
  rw [two_eq]
  field_simp
  ring

/-- The energy that one particle gains is the energy that the other one loses. -/
theorem energy_exchange {ma mb : F} (hm : ma + mb ≠ 0) (va vb : F) :
  ma * (2.0 * mb * (vb - va) / (ma + mb) * va
      + 2.0 * mb * (vb - va) / (ma + mb) * (2.0 * mb * (vb - va) / (ma + mb)) / 2)
    + mb * (-(2.0 * ma * (vb - va) / (ma + mb)) * vb
      + -(2.0 * ma * (vb - va) / (ma + mb)) * -(2.0 * ma * (vb - va) / (ma + mb)) / 2)
    = 0
  := by
  rw [two_eq]
  field_simp
  ring

/-- Pushes and changes that are weighted by the other mass make an elastic collision. -/
theorem elasticCollision_pushed
    {v : Vec3 F} {p q : Particle F} {d gap u total : F} (hunit : vec3Dot v v = 1)
    (hnormal : ∀ axis, q.pos.along axis - p.pos.along axis = v.along axis * d)
    (hradius : 0 < radius) (hgap : gap = 2.0 * radius - d) (hu : u = relativeSpeed v p q)
    (htotal : total = p.mass + q.mass) (hne : p.mass + q.mass ≠ 0) :
  ElasticCollision v radius p q
    (pushed p v (-(gap * (q.mass / total))) (2.0 * q.mass * u / total))
    (pushed q v (gap * (p.mass / total)) (-(2.0 * p.mass * u / total)))
  where
  apart := by
    apply atDistance_of_along hunit
    · rw [two_eq]
      positivity
    · intro axis
      simp only [pushed, along_vec3Add, along_vec3Scale]
      -- the two pushes close the gap together
      have hshare : gap * (p.mass / total) + gap * (q.mass / total) = gap := by
        rw [← mul_add, ← add_div, ← htotal, div_self (htotal ▸ hne), mul_one]
      have hpushes : q.pos.along axis + v.along axis * (gap * (p.mass / total))
            - (p.pos.along axis + v.along axis * -(gap * (q.mass / total)))
          = q.pos.along axis - p.pos.along axis
            + v.along axis * (gap * (p.mass / total) + gap * (q.mass / total)) := by
        ring
      rw [hpushes, hshare, hnormal, hgap, mul_sub, add_sub_cancel]
  centre_eq := centre_pushed v p q gap total _ _
  energy_eq := by
    have hgain := energy_pushed hunit p (-(gap * (q.mass / total))) (2.0 * q.mass * u / total)
    have hloss := energy_pushed hunit q (gap * (p.mass / total)) (-(2.0 * p.mass * u / total))
    have hexchange := energy_exchange hne (vec3Dot p.vel v) (vec3Dot q.vel v)
    rw [← vec3Dot_vec3Sub, ← relativeSpeed, ← hu, ← htotal, ← hgain, ← hloss] at hexchange
    rw [← sub_eq_zero, ← hexchange]
    ring
  tangential_left := tangential_pushed hunit p _ _
  tangential_right := tangential_pushed hunit q _ _
  relativeSpeed_eq := by
    rw [relativeSpeed_pushed hunit, ← hu, htotal, relativeSpeed_exchange hne]

/-- Two particles with positive masses that overlap collide elastically along the contact normal.
The total kinetic energy is kept and no other particle is touched. -/
theorem physicsCollideSpheres_elastic
    (hma : 0 < (ps a).mass) (hmb : 0 < (ps b).mass) (hradius : 0 < radius)
    (hoverlap : Overlap (ps a) (ps b) radius) (hroot : RootAt sqrtf (distance2 (ps a) (ps b))) :
  ∃ ps', physicsCollideSpheres sqrtf ps (some a) (some b) radius = ps'
    ∧ ElasticCollision (contactNormal sqrtf (ps a) (ps b)) radius (ps a) (ps b) (ps' a) (ps' b)
    ∧ kineticEnergy ps' = kineticEnergy ps
    ∧ ∀ c, c ≠ a → c ≠ b → ps' c = ps c
  := by
  have hab := hoverlap.ne
  have helastic := elasticCollision_pushed (contactNormal_unit hroot) (along_contactNormal hroot)
    hradius rfl rfl rfl (add_pos hma hmb).ne'
  refine ⟨_, physicsCollideSpheres_eq hma hmb hoverlap rfl rfl rfl rfl, ?_, ?_, ?_⟩
  · rw [Function.update_of_ne hab, Function.update_self, Function.update_self]
    exact helastic
  · rw [kineticEnergy_update, kineticEnergy_update, Function.update_of_ne hab.symm]
    have henergy := helastic.energy_eq
    linear_combination henergy
  · intro c hca hcb
    rw [Function.update_of_ne hcb, Function.update_of_ne hca]

/-- The head-on part of the collision of two particles of masses `1` and `3`. -/
theorem physicsCollideSpheres_elastic_twoParticles :
  ∃ ps', physicsCollideSpheres id twoParticles (some 0) (some 1) 1 = ps'
    ∧ AtDistance (ps' 0) (ps' 1) (2.0 * 1)
    ∧ relativeSpeed (contactNormal id (twoParticles 0) (twoParticles 1)) (ps' 0) (ps' 1) = 2
  := by
  have hmass : ∀ i, 0 < (twoParticles i).mass := by
    decide
  have hdistance : distance2 (twoParticles 0) (twoParticles 1) = 1 := by
    norm_num [distance2, vec3Dot, vec3Sub, twoParticles]
  have hoverlap : Overlap (twoParticles 0) (twoParticles 1) 1 := by
    rw [Overlap, hdistance]
    norm_num
  have hroot : RootAt id (distance2 (twoParticles 0) (twoParticles 1)) := by
    rw [RootAt, hdistance]
    norm_num
  obtain ⟨ps', hcall, helastic, -, -⟩ :=
    physicsCollideSpheres_elastic (hmass 0) (hmass 1) one_pos hoverlap hroot
  refine ⟨ps', hcall, helastic.apart, ?_⟩
  rw [helastic.relativeSpeed_eq, contactNormal, hdistance]
  norm_num [relativeSpeed, vec3Dot, vec3Sub, vec3Scale, twoParticles]

/-! ### Approaching and separating -/

/-- The relative velocity along the contact normal is negated, whatever its sign is. -/
theorem physicsCollideSpheres_relativeSpeed
    (hma : 0 < (ps a).mass) (hmb : 0 < (ps b).mass) (hoverlap : Overlap (ps a) (ps b) radius)
    (hroot : RootAt sqrtf (distance2 (ps a) (ps b))) {v : Vec3 F}
    (hv : v = contactNormal sqrtf (ps a) (ps b)) :
  relativeSpeed v (physicsCollideSpheres sqrtf ps (some a) (some b) radius a)
      (physicsCollideSpheres sqrtf ps (some a) (some b) radius b)
    = -relativeSpeed v (ps a) (ps b)
  := by
  have hunit : vec3Dot v v = 1 := by
    rw [hv]
    apply contactNormal_unit hroot
  rw [physicsCollideSpheres_eq hma hmb hoverlap hv rfl rfl rfl, Function.update_self,
    Function.update_of_ne hoverlap.ne, Function.update_self, relativeSpeed_pushed hunit,
    relativeSpeed_exchange (add_pos hma hmb).ne']

/-- Two particles that overlap do not approach each other after the call if and only if they did
not separate before it. -/
theorem physicsCollideSpheres_separates_iff
    (hma : 0 < (ps a).mass) (hmb : 0 < (ps b).mass) (hoverlap : Overlap (ps a) (ps b) radius)
    (hroot : RootAt sqrtf (distance2 (ps a) (ps b))) :
  0 ≤ relativeSpeed (contactNormal sqrtf (ps a) (ps b))
      (physicsCollideSpheres sqrtf ps (some a) (some b) radius a)
      (physicsCollideSpheres sqrtf ps (some a) (some b) radius b)
    ↔ relativeSpeed (contactNormal sqrtf (ps a) (ps b)) (ps a) (ps b) ≤ 0
  := by
  rw [physicsCollideSpheres_relativeSpeed hma hmb hoverlap hroot rfl, neg_nonneg]

/-- Two particles that overlap, of which the second one flies away from the first with speed
`speed`. -/
def leavingParticles (speed : ℚ) : Particles ℚ 2
  | 0 => ⟨⟨0, 0, 0⟩, ⟨0, 0, 0⟩, ⟨0, 0, 0⟩, 1⟩
  | 1 => ⟨⟨1, 0, 0⟩, ⟨speed, 0, 0⟩, ⟨1, 0, 0⟩, 1⟩

theorem distance2_leavingParticles (speed : ℚ) :
  distance2 (leavingParticles speed 0) (leavingParticles speed 1) = 1
  := by
  norm_num [distance2, vec3Dot, vec3Sub, leavingParticles]

theorem overlap_leavingParticles (speed : ℚ) :
  Overlap (leavingParticles speed 0) (leavingParticles speed 1) 1
  := by
  rw [Overlap, distance2_leavingParticles]
  norm_num

theorem rootAt_leavingParticles (speed : ℚ) :
  RootAt id (distance2 (leavingParticles speed 0) (leavingParticles speed 1))
  := by
  rw [RootAt, distance2_leavingParticles]
  norm_num

/-- Particles that fly at each other fly apart after the call. -/
theorem physicsCollideSpheres_separates_headOn :
  0 ≤ relativeSpeed (contactNormal id (leavingParticles (-1) 0) (leavingParticles (-1) 1))
    (physicsCollideSpheres id (leavingParticles (-1)) (some 0) (some 1) 1 0)
    (physicsCollideSpheres id (leavingParticles (-1)) (some 0) (some 1) 1 1)
  := by
  rw [physicsCollideSpheres_separates_iff one_pos one_pos (overlap_leavingParticles (-1))
    (rootAt_leavingParticles (-1)), contactNormal, distance2_leavingParticles]
  norm_num [relativeSpeed, vec3Dot, vec3Sub, vec3Scale, leavingParticles]

/-- Particles that fly apart fly at each other after the call. -/
theorem physicsCollideSpheres_approaches :
  Overlap (leavingParticles 1 0) (leavingParticles 1 1) 1
    ∧ RootAt id (distance2 (leavingParticles 1 0) (leavingParticles 1 1))
    ∧ ¬ 0 ≤ relativeSpeed (contactNormal id (leavingParticles 1 0) (leavingParticles 1 1))
      (physicsCollideSpheres id (leavingParticles 1) (some 0) (some 1) 1 0)
      (physicsCollideSpheres id (leavingParticles 1) (some 0) (some 1) 1 1)
  := by
  use overlap_leavingParticles 1
  use rootAt_leavingParticles 1
  rw [physicsCollideSpheres_relativeSpeed one_pos one_pos (overlap_leavingParticles 1)
    (rootAt_leavingParticles 1) rfl, contactNormal, distance2_leavingParticles]
  norm_num [relativeSpeed, vec3Dot, vec3Sub, vec3Scale, leavingParticles]

end Elastic

end CTemplate

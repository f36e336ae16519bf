import CTemplate.Simulation.Physics

/-!
# Confinement to a box

What `physics_confine_box` does to a particle.  A position outside the box is moved to the wall,
and the velocity is reflected there, along each axis on its own, `along_confineBox`.  So the
particle is in the box after the call and not faster than before.

The reflection does not look at the velocity: a particle that is outside and already on its way
back is reflected out of the box.  The call confines all other particles and, where the walls
absorb the whole velocity, also these, `physicsConfineBox_confined_iff`.
-/

namespace CTemplate

variable {F : Type}

/-! ### Components -/

/-- The vector with another component along an axis. -/
def Vec3.setAlong (v : Vec3 F) (axis : Axis) (s : F) : Vec3 F :=
  match axis with
  | .x => { v with x := s }
  | .y => { v with y := s }
  | .z => { v with z := s }

@[simp] theorem Vec3.along_setAlong_self (v : Vec3 F) (axis : Axis) (s : F) :
  (v.setAlong axis s).along axis = s
  := by
  cases axis <;> rfl

theorem Vec3.along_setAlong_of_ne (v : Vec3 F) {axis axis' : Axis} (hne : axis' ≠ axis) (s : F) :
  (v.setAlong axis s).along axis' = v.along axis'
  := by
  cases axis <;> cases axis' <;> first | rfl | exact absurd rfl hne

section Box

variable [Field F] [LinearOrder F]

/-- The body of both branches in the loop of `physics_confine_box`, for a wall at `wall`. -/
def hitWall (p : Particle F) (axis : Axis) (wall restitution : F) : Particle F :=
  { p with
    pos := p.pos.setAlong axis wall
    vel := p.vel.setAlong axis (-p.vel.along axis * restitution) }

/-- A round of the loop of `physics_confine_box`. -/
def confineAxis (bounds : Vec3 F) (restitution : F) (p : Particle F) (axis : Axis) :
    Particle F :=
  let p := if p.pos.along axis < 0 then hitWall p axis 0 restitution else p
  if bounds.along axis < p.pos.along axis then hitWall p axis (bounds.along axis) restitution
  else p

/-- `physics_confine_box`: the particle after the call, or `none` for `NULL`. -/
def physicsConfineBox (p : Option (Particle F)) (bounds : Vec3 F) (restitution : F) :
    Option (Particle F) :=
  p.map fun p => [Axis.x, Axis.y, Axis.z].foldl (confineAxis bounds restitution) p

/-! ### Each axis on its own -/

/-- The coordinate in the interval from `0` to `limit` that is next to `x`. -/
def confined (limit x : F) : F :=
  if x < 0 then 0 else if limit < x then limit else x

/-- The component of the velocity after a wall was hit. -/
def reflected (limit restitution x v : F) : F :=
  if x < 0 ∨ limit < x then -v * restitution else v

variable {bounds : Vec3 F} {restitution : F} {p : Particle F} {axis axis' : Axis}

/-- A round changes nothing along the other axes. -/
theorem confineAxis_of_ne (hne : axis' ≠ axis) :
  (confineAxis bounds restitution p axis).pos.along axis' = p.pos.along axis'
    ∧ (confineAxis bounds restitution p axis).vel.along axis' = p.vel.along axis'
  := by
  have hwall : ∀ (p : Particle F) wall,
      (hitWall p axis wall restitution).pos.along axis' = p.pos.along axis'
        ∧ (hitWall p axis wall restitution).vel.along axis' = p.vel.along axis' := by
    intro p wall
    exact ⟨Vec3.along_setAlong_of_ne _ hne _, Vec3.along_setAlong_of_ne _ hne _⟩
  rw [confineAxis]
  split <;> split <;> simp [hwall]

/-- A round moves the particle to the next point between the two walls of its axis. -/
theorem confineAxis_self (hbound : 0 ≤ bounds.along axis) :
  (confineAxis bounds restitution p axis).pos.along axis
      = confined (bounds.along axis) (p.pos.along axis)
    ∧ (confineAxis bounds restitution p axis).vel.along axis
      = reflected (bounds.along axis) restitution (p.pos.along axis) (p.vel.along axis)
  := by
  rw [confineAxis, confined, reflected]
  by_cases hlow : p.pos.along axis < 0
  · -- at the low wall the particle is not beyond the high one
    have hhigh : ¬ bounds.along axis < (hitWall p axis 0 restitution).pos.along axis := by
      rw [hitWall, Vec3.along_setAlong_self, not_lt]
      exact hbound
    simp only [if_pos hlow, if_neg hhigh, if_pos (Or.inl hlow)]
    exact ⟨Vec3.along_setAlong_self _ _ _, Vec3.along_setAlong_self _ _ _⟩
  · simp only [if_neg hlow]
    by_cases hhigh : bounds.along axis < p.pos.along axis
    · simp only [if_pos hhigh, if_pos (Or.inr hhigh)]
      exact ⟨Vec3.along_setAlong_self _ _ _, Vec3.along_setAlong_self _ _ _⟩
    · simp [hlow, hhigh]

/-- Rounds for other axes change nothing along an axis. -/
theorem foldl_confineAxis_of_notMem {axes : List Axis} (h : axis ∉ axes) :
  (axes.foldl (confineAxis bounds restitution) p).pos.along axis = p.pos.along axis
    ∧ (axes.foldl (confineAxis bounds restitution) p).vel.along axis = p.vel.along axis
  := by
  induction axes generalizing p with
  | nil => exact ⟨rfl, rfl⟩
  | cons axis' axes ih =>
      rw [List.mem_cons, not_or] at h
      have hround : (confineAxis bounds restitution p axis').pos.along axis = p.pos.along axis
          ∧ (confineAxis bounds restitution p axis').vel.along axis = p.vel.along axis :=
        confineAxis_of_ne h.1
      rw [List.foldl_cons, (ih h.2).1, (ih h.2).2]
      exact hround

/-- Rounds for different axes, among them `axis`, do along it what its own round does. -/
theorem foldl_confineAxis_of_mem
    (hbound : 0 ≤ bounds.along axis) {axes : List Axis} (hnodup : axes.Nodup)
    (hmem : axis ∈ axes) :
  (axes.foldl (confineAxis bounds restitution) p).pos.along axis
      = confined (bounds.along axis) (p.pos.along axis)
    ∧ (axes.foldl (confineAxis bounds restitution) p).vel.along axis
      = reflected (bounds.along axis) restitution (p.pos.along axis) (p.vel.along axis)
  := by
  induction axes generalizing p with
  | nil => cases hmem
  | cons axis' axes ih =>
      obtain ⟨hnot, hnodup⟩ := List.nodup_cons.mp hnodup
      rw [List.foldl_cons]
      rcases List.mem_cons.mp hmem with rfl | hlater
      · rw [(foldl_confineAxis_of_notMem hnot).1, (foldl_confineAxis_of_notMem hnot).2]
        apply confineAxis_self hbound
      · have hne : axis ≠ axis' := by
          rintro rfl
          exact hnot hlater
        rw [(ih hnodup hlater).1, (ih hnodup hlater).2, (confineAxis_of_ne hne).1,
          (confineAxis_of_ne hne).2]
        exact ⟨rfl, rfl⟩

/-- The call moves the particle to the next point in the box, and reflects its velocity along
each axis on which it was outside. -/
theorem along_confineBox (hbounds : ∀ axis, 0 ≤ bounds.along axis) :
  ∃ p', physicsConfineBox (some p) bounds restitution = some p'
    ∧ (∀ axis, p'.pos.along axis = confined (bounds.along axis) (p.pos.along axis))
    ∧ ∀ axis, p'.vel.along axis
      = reflected (bounds.along axis) restitution (p.pos.along axis) (p.vel.along axis)
  := by
  have hmem : ∀ axis, axis ∈ [Axis.x, Axis.y, Axis.z] := by
    intro axis
    cases axis <;> decide
  refine ⟨_, rfl, ?_, ?_⟩
  · intro axis
    exact (foldl_confineAxis_of_mem (hbounds axis) (by decide) (hmem axis)).1
  · intro axis
    exact (foldl_confineAxis_of_mem (hbounds axis) (by decide) (hmem axis)).2

/-! ### Confined particles -/

/-- The particle `p` became `p'`, which is in the box, not faster than before, and on no axis on
which `p` was outside on its way out. -/
structure Confined (bounds : Vec3 F) (p p' : Particle F) : Prop where
  inside : ∀ axis, 0 ≤ p'.pos.along axis ∧ p'.pos.along axis ≤ bounds.along axis
  slower : ∀ axis, |p'.vel.along axis| ≤ |p.vel.along axis|
  low : ∀ axis, p.pos.along axis < 0 → 0 ≤ p'.vel.along axis
  high : ∀ axis, bounds.along axis < p.pos.along axis → p'.vel.along axis ≤ 0

/-- The particle is outside the box and on its way back along an axis. -/
def Returning (bounds : Vec3 F) (p : Particle F) (axis : Axis) : Prop :=
  (p.pos.along axis < 0 ∧ 0 < p.vel.along axis)
    ∨ (bounds.along axis < p.pos.along axis ∧ p.vel.along axis < 0)

variable {limit x v : F}

theorem confined_mem (hlimit : 0 ≤ limit) :
  0 ≤ confined limit x ∧ confined limit x ≤ limit
  := by
  rw [confined]
  split
  · exact ⟨le_refl 0, hlimit⟩
  case isFalse hlow =>
  split
  · exact ⟨hlimit, le_refl limit⟩
  case isFalse hhigh => exact ⟨not_lt.mp hlow, not_lt.mp hhigh⟩

variable [IsStrictOrderedRing F]

/-- A reflection does not make the particle faster. -/
theorem abs_reflected_le (hnonneg : 0 ≤ restitution) (hle : restitution ≤ 1) :
  |reflected limit restitution x v| ≤ |v|
  := by
  rw [reflected]
  split
  · rw [abs_mul, abs_neg, abs_of_nonneg hnonneg]
    apply mul_le_of_le_one_right (abs_nonneg v) hle
  · apply le_refl

/-- The reflection at the low wall leads into the box, unless the particle was on its way back. -/
theorem reflected_low_iff (hnonneg : 0 ≤ restitution) (hlow : x < 0) :
  0 ≤ reflected limit restitution x v ↔ restitution = 0 ∨ ¬ 0 < v
  := by
  rw [reflected, if_pos (Or.inl hlow), not_lt]
  rcases hnonneg.eq_or_lt with rfl | hpos
  · simp
  · rw [mul_nonneg_iff_of_pos_right hpos, neg_nonneg, or_iff_right hpos.ne']

/-- The same at the high wall. -/
theorem reflected_high_iff (hnonneg : 0 ≤ restitution) (hhigh : limit < x) :
  reflected limit restitution x v ≤ 0 ↔ restitution = 0 ∨ ¬ v < 0
  := by
  rw [reflected, if_pos (Or.inr hhigh), not_lt, neg_mul, neg_nonpos]
  rcases hnonneg.eq_or_lt with rfl | hpos
  · simp
  · rw [mul_nonneg_iff_of_pos_right hpos, or_iff_right hpos.ne']

/-- The call confines the particle if and only if the walls absorb the whole velocity or the
particle is not on its way back into the box on any axis. -/
theorem physicsConfineBox_confined_iff
    (hbounds : ∀ axis, 0 ≤ bounds.along axis) (hnonneg : 0 ≤ restitution)
    (hle : restitution ≤ 1) :
  (∃ p', physicsConfineBox (some p) bounds restitution = some p' ∧ Confined bounds p p')
    ↔ restitution = 0 ∨ ∀ axis, ¬ Returning bounds p axis
  := by
  obtain ⟨p', hcall, hpos, hvel⟩ : ∃ p', physicsConfineBox (some p) bounds restitution = some p'
      ∧ _ := along_confineBox hbounds
  constructor
  · rintro ⟨p'', hcall', hconfined⟩
    rw [hcall] at hcall'
    obtain rfl := Option.some.inj hcall'
    rw [or_iff_not_imp_left]
    rintro hbounce axis (⟨hlow, hback⟩ | ⟨hhigh, hback⟩)
    · have hinward := hconfined.low axis hlow
      rw [hvel, reflected_low_iff hnonneg hlow] at hinward
      exact hinward.elim hbounce (absurd hback)
    · have hinward := hconfined.high axis hhigh
      rw [hvel, reflected_high_iff hnonneg hhigh] at hinward
      exact hinward.elim hbounce (absurd hback)
  · intro hcond
    refine ⟨p', hcall, ?_, ?_, ?_, ?_⟩
    · intro axis
      rw [hpos]
      apply confined_mem (hbounds axis)
    · intro axis
      rw [hvel]
      apply abs_reflected_le hnonneg hle
    · intro axis hlow
      rw [hvel, reflected_low_iff hnonneg hlow]
      exact hcond.imp_right fun h hback => h axis (.inl ⟨hlow, hback⟩)
    · intro axis hhigh
      rw [hvel, reflected_high_iff hnonneg hhigh]
      exact hcond.imp_right fun h hback => h axis (.inr ⟨hhigh, hback⟩)

/-- A particle that moves with the given velocity one unit to the left of the box with side
`1`. -/
def leftOfBox (v : ℚ) : Particle ℚ :=
  ⟨⟨-1, 0, 0⟩, ⟨v, 0, 0⟩, ⟨0, 0, 0⟩, 1⟩

/-- A particle on its way out of the box is confined. -/
theorem physicsConfineBox_confines_outward :
  ∃ p', physicsConfineBox (some (leftOfBox (-1))) ⟨1, 1, 1⟩ 1 = some p'
    ∧ Confined ⟨1, 1, 1⟩ (leftOfBox (-1)) p'
  := by
  have hbounds : ∀ axis, 0 ≤ (⟨1, 1, 1⟩ : Vec3 ℚ).along axis := by
    intro axis
    cases axis <;> exact zero_le_one
  rw [physicsConfineBox_confined_iff hbounds zero_le_one (le_refl 1)]
  right
  intro axis
  cases axis <;> norm_num [Returning, leftOfBox, Vec3.along]

/-- A particle that is outside the box and on its way back leaves the call with a velocity out of
the box. -/
theorem physicsConfineBox_returning :
  physicsConfineBox (some (leftOfBox 1)) ⟨1, 1, 1⟩ 1 = some ⟨⟨0, 0, 0⟩, ⟨-1, 0, 0⟩, ⟨0, 0, 0⟩, 1⟩
    ∧ ¬ ∃ p', physicsConfineBox (some (leftOfBox 1)) ⟨1, 1, 1⟩ 1 = some p'
      ∧ Confined ⟨1, 1, 1⟩ (leftOfBox 1) p'
  := by
  have hcall : physicsConfineBox (some (leftOfBox 1)) ⟨1, 1, 1⟩ 1
      = some ⟨⟨0, 0, 0⟩, ⟨-1, 0, 0⟩, ⟨0, 0, 0⟩, 1⟩ := by
    norm_num [physicsConfineBox, confineAxis, hitWall, Vec3.along, Vec3.setAlong, leftOfBox]
  use hcall
  rintro ⟨p', hcall', hconfined⟩
  rw [hcall] at hcall'
  obtain rfl := Option.some.inj hcall'
  have hinward := hconfined.low .x (by decide)
  exact absurd hinward (by decide)

end Box

end CTemplate

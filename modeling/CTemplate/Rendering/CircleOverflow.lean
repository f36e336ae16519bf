import CTemplate.Rendering.Circle

/-!
# Overflow in circles

The first value that overflows in the loop of `framebuffer_circle`, if any does, is a coordinate in
the first round or the change of the decision when the circle leaves its first column, which
happens at the square root of the radius.
-/

namespace CTemplate

open Raster

/-- No computation in `framebuffer_circle` overflows: a negative radius can be subtracted from one,
the square around any other circle has corners of type `int`, and twice the way from where the
circle leaves its first column to the diagonal is of type `int`. -/
structure CircleFits (cx cy r : ℤ) : Prop where
  lower : -(intMax : ℤ) < r
  columns : 0 ≤ r → FitsInt (cx - r) ∧ FitsInt (cx + r)
  rows : 0 ≤ r → FitsInt (cy - r) ∧ FitsInt (cy + r)
  upper : 0 ≤ r → 2 * (r - Int.sqrt r - 2) ≤ intMax + 1

variable {σ : Type} {plot : ℤ → ℤ → σ → σ} {cx cy r x y : ℤ}

/-! ### When nothing overflows -/

/-- A point whose coordinates are at most `r` away from the centre has coordinates of type
`int`. -/
theorem fits_near {a n : ℤ} (h : FitsInt (a - r) ∧ FitsInt (a + r)) (hn : -r ≤ n ∧ n ≤ r) :
  FitsInt (a + n) ∧ FitsInt (a - n)
  := by
  obtain ⟨⟨hlow, -⟩, -, hhigh⟩ := h
  constructor <;> constructor <;> omega

/-- The radius is small when the circle can leave its first column. -/
theorem CircleFits.radius_le (h : CircleFits cx cy r) (hr : 0 ≤ r) (hfits : FitsInt r) :
  r ≤ 1100000000
  := by
  have hlow := h.upper hr
  have hsq := sqrt_sq_le hr
  have hmax := hfits.2
  unfold intMax at hlow hmax
  have hroot : Int.sqrt r ≤ 46340 := by
    by_contra hlt
    have hmono : (46341 : ℤ) ^ 2 ≤ Int.sqrt r ^ 2 := by
      apply pow_le_pow_left₀ (by omega) (by omega)
    omega
  omega

/-- The rows of the octant of a small circle. -/
theorem row_le_of_onCircle
    (h : OnCircle r x y) (hy : 0 ≤ y) (hle : y ≤ x) (hr : r ≤ 1100000000) (hr₀ : 0 ≤ r) :
  y ≤ 1000000000
  := by
  have hinner := h.inner
  by_contra hlt
  have hrsq : r ^ 2 ≤ 1100000000 ^ 2 := pow_le_pow_left₀ hr₀ hr 2
  have hysq : 1000000000 * 1000000000 ≤ y * (y - 1) := by
    apply mul_le_mul (by omega) (by omega) (by omega) (by omega)
  have hxsq : y * (y - 1) ≤ x * (x - 1) := by
    apply mul_le_mul (by omega) (by omega) (by omega) (by omega)
  nlinarith

/-- In a round above the diagonal nothing overflows. -/
theorem CircleFits.round
    (h : CircleFits cx cy r) (hfits : FitsInt r) (hcircle : OnCircle r x y) (hy : 0 ≤ y)
    (hle : y ≤ x) (hx : x ≤ r) (hd : FitsInt (decision r x y)) :
  CircleRoundExact int32 cx cy r x y
  := by
  have hr : 0 ≤ r := by omega
  have hrow := row_le_of_onCircle hcircle hy hle (h.radius_le hr hfits) hr
  have hupper := hcircle.decision_le
  have hmax : (intMax : ℤ) = 2147483647 := rfl
  have hrmax := hfits.2
  obtain ⟨hlow, hhigh⟩ := hd
  have hcx := fits_near (n := x) (h.columns hr) (by omega)
  have hcx' := fits_near (n := y) (h.columns hr) (by omega)
  have hcy := fits_near (n := y) (h.rows hr) (by omega)
  have hcy' := fits_near (n := x) (h.rows hr) (by omega)
  have hturn : 0 < decision r x y → -(intMax : ℤ) - 1 ≤ 2 * (y + 1 - (x - 1)) := by
    intro hpos
    have hroot := hcircle.sqrt_le ⟨by omega, hx⟩ hy hpos
    have hfirst := h.upper hr
    omega
  constructor
  · simp only [reflections, List.forall_mem_cons, exact_int32_iff]
    exact ⟨⟨hcx.1, hcy.1⟩, ⟨hcx.2, hcy.1⟩, ⟨hcx.1, hcy.2⟩, ⟨hcx.2, hcy.2⟩, ⟨hcx'.1, hcy'.1⟩,
      ⟨hcx'.2, hcy'.1⟩, ⟨hcx'.1, hcy'.2⟩, ⟨hcx'.2, hcy'.2⟩, fun _ hp => absurd hp List.not_mem_nil⟩
  · rw [exact_int32_iff]
    constructor <;> omega
  · intro _
    simp only [exact_int32_iff]
    constructor <;> constructor <;> omega
  · intro hpos
    have hturn := hturn hpos
    simp only [exact_int32_iff]
    refine ⟨⟨?_, ?_⟩, ?_, ?_⟩ <;> constructor <;> omega
  · rw [exact_int32_iff, nextColumn]
    split
    case isTrue hneg =>
      rw [decision_up]
      constructor <;> omega
    case isFalse hpos =>
      have hturn := hturn (not_le.mp hpos)
      rw [decision_diagonal]
      constructor <;> omega

theorem CircleFits.start (h : CircleFits cx cy r) (hfits : FitsInt r) :
  FitsInt (1 - r)
  := by
  have hlower := h.lower
  obtain ⟨hlow, hhigh⟩ := hfits
  constructor <;> omega

/-- When nothing overflows, `framebuffer_circle` draws what it draws without bounds. -/
theorem drawCircle_int32
    (h : CircleFits cx cy r) (hfits : FitsInt r) (plot : ℤ → ℤ → σ → σ) (fuel : ℕ) (canvas : σ) :
  drawCircle int32 plot fuel canvas cx cy r = drawCircle some plot fuel canvas cx cy r
  := by
  rw [drawCircle, drawCircle, int32_of_fits (h.start hfits), Option.bind_some, Option.bind_some,
    ← decision_zero]
  apply While.run_congr (I := fun s => ∃ x y canvas, s = circleAt r x y canvas
    ∧ (y ≤ x → OnCircle r x y) ∧ 0 ≤ y ∧ x ≤ r ∧ FitsInt (decision r x y))
  · rintro _ ⟨x, y, canvas, rfl, hcircle, hy, hx, hd⟩
    rcases lt_or_ge x y with hlt | hle
    · rw [circleStep_end int32 canvas hlt, circleStep_end some canvas hlt]
      use rfl
      intro s' hs'
      cases hs'
    · have hround := h.round hfits (hcircle hle) hy hle hx hd
      rw [circleStep_next hround canvas hle, circleStep_next (circleRoundExact_some ..) canvas hle]
      use rfl
      intro s' hs'
      cases hs'
      have hcases := nextColumn_cases r x y
      refine ⟨_, _, _, rfl, (hcircle hle).next hy rfl, ?_, ?_, exact_int32_iff.mp hround.next⟩
      · omega
      · omega
  · refine ⟨r, 0, canvas, rfl, onCircle_zero, Int.le_refl 0, Int.le_refl r, ?_⟩
    rw [decision_zero]
    exact h.start hfits

/-! ### When something overflows -/

theorem fits_of_foldlM
    {points : List (ℤ × ℤ)} {canvas r : σ}
    (h : points.foldlM (fun canvas p => plotAt int32 plot p.1 p.2 canvas) canvas = some r) :
  ∀ p ∈ points, Exact int32 p.1 ∧ Exact int32 p.2
  := by
  induction points generalizing canvas with
  | nil => exact fun _ hp => absurd hp List.not_mem_nil
  | cons p points ih =>
      rw [List.foldlM_cons] at h
      obtain ⟨canvas', hplot, h⟩ := Option.bind_eq_some_iff.mp h
      obtain ⟨x, hx, hplot⟩ := Option.bind_eq_some_iff.mp hplot
      obtain ⟨y, hy, -⟩ := Option.map_eq_some_iff.mp hplot
      rw [List.forall_mem_cons, exact_int32_iff, exact_int32_iff]
      exact ⟨⟨(eq_of_int32 hx).1, (eq_of_int32 hy).1⟩, ih h⟩

/-- In a round that has a result nothing overflows. -/
theorem circleRoundExact_of_step
    {canvas : σ} {q : CircleState σ ⊕ σ} (hle : y ≤ x)
    (h : circleStep int32 plot cx cy (circleAt r x y canvas) = some q) :
  CircleRoundExact int32 cx cy r x y
  := by
  have hle' : CircleState.x (circleAt r x y canvas) ≥ CircleState.y (circleAt r x y canvas) := hle
  rw [circleStep, if_pos hle'] at h
  dsimp only [circleAt] at h
  obtain ⟨canvas', hpoints, h⟩ := Option.bind_eq_some_iff.mp h
  obtain ⟨row, hrow, h⟩ := Option.bind_eq_some_iff.mp h
  obtain rfl := (eq_of_int32 hrow).2
  by_cases hd : decision r x y ≤ 0
  · replace h := (if_pos hd).symm.trans h
    obtain ⟨a, hdouble, h⟩ := Option.bind_eq_some_iff.mp h
    obtain rfl := (eq_of_int32 hdouble).2
    obtain ⟨b, hsucc, h⟩ := Option.bind_eq_some_iff.mp h
    obtain rfl := (eq_of_int32 hsucc).2
    obtain ⟨d, hnext, -⟩ := Option.map_eq_some_iff.mp h
    obtain rfl := (eq_of_int32 hnext).2
    refine ⟨fits_of_foldlM hpoints, hrow, ?_, ?_, ?_⟩
    · exact fun _ => ⟨hdouble, hsucc⟩
    · exact fun hpos => absurd hd (not_le.mpr hpos)
    · rwa [nextColumn, if_pos hd, decision_up]
  · replace h := (if_neg hd).symm.trans h
    obtain ⟨x', hcol, h⟩ := Option.bind_eq_some_iff.mp h
    obtain rfl := (eq_of_int32 hcol).2
    obtain ⟨a, hsub, h⟩ := Option.bind_eq_some_iff.mp h
    obtain rfl := (eq_of_int32 hsub).2
    obtain ⟨b, hdouble, h⟩ := Option.bind_eq_some_iff.mp h
    obtain rfl := (eq_of_int32 hdouble).2
    obtain ⟨c, hsucc, h⟩ := Option.bind_eq_some_iff.mp h
    obtain rfl := (eq_of_int32 hsucc).2
    obtain ⟨d, hnext, -⟩ := Option.map_eq_some_iff.mp h
    obtain rfl := (eq_of_int32 hnext).2
    refine ⟨fits_of_foldlM hpoints, hrow, ?_, ?_, ?_⟩
    · exact fun hneg => absurd hneg hd
    · exact fun _ => ⟨⟨hcol, hsub⟩,
        hdouble, hsucc⟩
    · rwa [nextColumn, if_neg hd, decision_diagonal]

/-- In a circle that is drawn nothing overflows in the first round, nor in the one in which the
circle leaves its first column. -/
theorem rounds_of_drawCircle
    {fuel : ℕ} {canvas q : σ} (hr : 0 ≤ r)
    (h : drawCircle int32 plot fuel canvas cx cy r = some q) (hy : 0 ≤ y) (hle : y ≤ Int.sqrt r) :
  CircleRoundExact int32 cx cy r r y
  := by
  obtain ⟨d, hd, h⟩ := Option.bind_eq_some_iff.mp h
  obtain ⟨-, rfl⟩ := eq_of_int32 hd
  by_contra hbad
  have hroot : Int.sqrt r ≤ r := by
    have hsq := sqrt_sq_le hr
    have hself := Int.le_self_sq (Int.sqrt r)
    omega
  have hrun : While.run (circleStep int32 plot cx cy) fuel { x := r, y := 0, d := 1 - r, canvas }
      = none := by
    apply While.run_eq_none (I := fun s => ∃ y' canvas, s = circleAt r r y' canvas
      ∧ 0 ≤ y' ∧ y' ≤ y)
    · rintro _ ⟨y', canvas, rfl, hy', hle'⟩
      cases hstep : circleStep int32 plot cx cy (circleAt r r y' canvas) with
      | none => exact .inl rfl
      | some q =>
          have hround := circleRoundExact_of_step (by omega) hstep
          have hlt : y' < y := by
            apply lt_of_le_of_ne hle'
            rintro rfl
            exact hbad hround
          have hcolumn : nextColumn r r y' = r :=
            if_pos ((decision_self_le_iff hr hy').mpr (by omega))
          rw [circleStep_next hround canvas (by omega), hcolumn] at hstep
          cases hstep
          exact .inr ⟨_, rfl, y' + 1, _, rfl, by omega, by omega⟩
    · exact ⟨0, canvas, by rw [circleAt, decision_zero], Int.le_refl 0, hy⟩
  rw [hrun] at h
  cases h

/-- In a circle that is drawn nothing overflows. -/
theorem circleFits_of_drawCircle
    {fuel : ℕ} {canvas q : σ} (h : drawCircle int32 plot fuel canvas cx cy r = some q) :
  CircleFits cx cy r
  := by
  have hfirst : 0 ≤ r → CircleRoundExact int32 cx cy r r 0 := fun hr =>
    rounds_of_drawCircle hr h (Int.le_refl 0) (Int.sqrt_nonneg r)
  constructor
  · obtain ⟨d, hd, -⟩ := Option.bind_eq_some_iff.mp h
    have hhigh := (eq_of_int32 hd).1.2
    omega
  · intro hr
    have hpoints := (hfirst hr).points
    simp only [reflections, List.forall_mem_cons, exact_int32_iff] at hpoints
    obtain ⟨hright, hleft, -⟩ := hpoints
    exact ⟨hleft.1, hright.1⟩
  · intro hr
    have hpoints := (hfirst hr).points
    simp only [reflections, List.forall_mem_cons, exact_int32_iff] at hpoints
    obtain ⟨-, -, -, -, habove, -, hbelow, -⟩ := hpoints
    exact ⟨hbelow.2, habove.2⟩
  · intro hr
    have hroot := Int.sqrt_nonneg r
    have hround := rounds_of_drawCircle hr h hroot (Int.le_refl _)
    have hpos : 0 < decision r r (Int.sqrt r) := by
      rw [← not_le, decision_self_le_iff hr hroot]
      omega
    obtain ⟨hlow, -⟩ := exact_int32_iff.mp (hround.left hpos).2.1
    omega

end CTemplate

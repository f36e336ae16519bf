import CTemplate.Library.While
import CTemplate.Rendering.Framebuffer

/-!
# Filled rectangles

The loops of `framebuffer_fill_rect`, and when the sums in their conditions overflow.
-/

namespace CTemplate

/-- One round of a loop `for (int i = …; i < a + n; i++)` over values of type `int`. -/
def forStep {σ : Type} (int : ℤ → Option ℤ) (a n : ℤ) (body : ℤ → σ → Option σ) (s : ℤ × σ) :
    Option (ℤ × σ ⊕ σ) :=
  (int (a + n)).bind fun hi =>
    if s.1 < hi then
      (body s.1 s.2).bind fun canvas => (int (s.1 + 1)).map fun i => .inl (i, canvas)
    else some (.inr s.2)

/-- The body of `framebuffer_fill_rect`, for any kind of picture. -/
def drawRect {σ : Type} (int : ℤ → Option ℤ) (plot : ℤ → ℤ → σ → σ) (fuel : ℕ) (canvas : σ)
    (x y w h : ℤ) : Option σ :=
  While.run
    (forStep int y h fun row canvas =>
      While.run (forStep int x w fun col canvas => some (plot col row canvas)) fuel (x, canvas))
    fuel (y, canvas)

/-- `framebuffer_fill_rect`, with loops of at most `fuel` rounds. -/
def framebufferFillRect (int : ℤ → Option ℤ) (fuel : ℕ) (fb : Framebuffer) (x y w h : ℤ)
    (color : UInt32) : Option Framebuffer :=
  drawRect int (fun x y fb => framebufferSetPixel fb x y color) fuel fb x y w h

/-! ### Loops over values of type `int` -/

variable {σ : Type} {a n i : ℤ} {body body' : ℤ → σ → Option σ} {canvas : σ} {fuel : ℕ}

/-- Such a loop has no result when the sum overflows. -/
theorem forStep_of_not_fits (h : ¬ FitsInt (a + n)) (s : ℤ × σ) :
  forStep int32 a n body s = none
  := by
  rw [forStep, int32_of_not_fits h, Option.bind_none]

/-- When the sum does not overflow, nothing does. -/
theorem forStep_int32 (h : FitsInt (a + n)) {s : ℤ × σ} (hs : FitsInt s.1) :
  forStep int32 a n body s = forStep some a n body s
  := by
  rw [forStep, forStep, int32_of_fits h, Option.bind_some, Option.bind_some]
  split
  case isTrue hlt =>
    rw [int32_of_fits ⟨by linarith [hs.1], by linarith [h.2]⟩]
  case isFalse => rfl

/-- A round that is not the last goes on to the next number. -/
theorem forStep_inl {s s' : ℤ × σ} (hstep : forStep some a n body s = some (.inl s')) :
  s.1 < a + n ∧ s'.1 = s.1 + 1
  := by
  rw [forStep, Option.bind_some] at hstep
  split at hstep
  case isTrue hlt =>
    obtain ⟨canvas, -, heq⟩ := Option.bind_eq_some_iff.mp hstep
    cases heq
    exact ⟨hlt, rfl⟩
  case isFalse => cases hstep

/-- When the sum does not overflow, the loop is the one without bounds. -/
theorem run_forStep_int32 (h : FitsInt (a + n)) (hi : FitsInt i) (fuel : ℕ) (canvas : σ) :
  While.run (forStep int32 a n body) fuel (i, canvas)
    = While.run (forStep some a n body) fuel (i, canvas)
  := by
  apply While.run_congr (I := fun s : ℤ × σ => FitsInt s.1) _ hi
  intro s hs
  use forStep_int32 h hs
  intro s' hs'
  obtain ⟨hlt, hnext⟩ := forStep_inl hs'
  rw [hnext]
  exact ⟨by linarith [hs.1], by linarith [h.2]⟩

/-- A loop ends when its body does. -/
theorem exists_run_forStep
    (hbody : ∀ j canvas, i ≤ j → j < a + n → ∃ canvas', body j canvas = some canvas')
    (hfuel : (a + n - i).toNat < fuel) :
  ∃ canvas', While.run (forStep some a n body) fuel (i, canvas) = some canvas'
  := by
  have hturn : ∀ (m : ℕ) (s : ℤ × σ), i ≤ s.1 ∧ m = (a + n - s.1).toNat →
      (∃ canvas', forStep some a n body s = some (.inr canvas') ∧ True)
        ∨ ∃ s', forStep some a n body s = some (.inl s')
          ∧ ∃ m' < m, i ≤ s'.1 ∧ m' = (a + n - s'.1).toNat := by
    rintro m ⟨j, canvas⟩ ⟨hj, rfl⟩
    rw [forStep, Option.bind_some]
    dsimp only at hj ⊢
    split
    case isTrue hlt =>
      obtain ⟨canvas', hcanvas⟩ := hbody j canvas hj hlt
      refine .inr ⟨(j + 1, canvas'), ?_, (a + n - (j + 1)).toNat, ?_, ?_, rfl⟩
      · rw [hcanvas]
        rfl
      · omega
      · dsimp only
        omega
    case isFalse => exact .inl ⟨canvas, rfl, trivial⟩
  obtain ⟨canvas', hrun, -⟩ :=
    While.exists_run (s := (i, canvas)) hturn ⟨Int.le_refl i, rfl⟩ hfuel
  exact ⟨canvas', hrun⟩

/-! ### Overflow -/

/-- The sums in the conditions of the loops of `framebuffer_fill_rect` that are computed do not
overflow. -/
def RectFits (x y w h : ℤ) : Prop :=
  FitsInt (y + h) ∧ (0 < h → FitsInt (x + w))

instance (x y w h : ℤ) : Decidable (RectFits x y w h) := inferInstanceAs (Decidable (_ ∧ _))

theorem drawRect_int32
    (plot : ℤ → ℤ → σ → σ) (fuel : ℕ) (canvas : σ) {x y w h : ℤ} (hx : FitsInt x) (hy : FitsInt y)
    (hfits : RectFits x y w h) :
  drawRect int32 plot fuel canvas x y w h = drawRect some plot fuel canvas x y w h
  := by
  rw [drawRect, drawRect, run_forStep_int32 hfits.1 hy]
  apply While.run_congr (I := fun s : ℤ × σ => y ≤ s.1) _ (Int.le_refl y)
  rintro ⟨row, canvas⟩ hrow
  dsimp only at hrow
  constructor
  · rw [forStep, forStep, Option.bind_some, Option.bind_some]
    dsimp only
    split
    case isTrue hlt => rw [run_forStep_int32 (hfits.2 (by omega)) hx]
    case isFalse => rfl
  · intro s' hs'
    obtain ⟨-, hnext⟩ := forStep_inl hs'
    dsimp only at hnext
    omega

theorem exists_drawRect (plot : ℤ → ℤ → σ → σ) (canvas : σ) (x y w h : ℤ) :
  ∃ fuel canvas', drawRect some plot fuel canvas x y w h = some canvas'
  := by
  use max w.toNat h.toNat + 1
  apply exists_run_forStep
  · intro row canvas _ _
    apply exists_run_forStep
    · exact fun _ _ _ _ => ⟨_, rfl⟩
    · omega
  · omega

/-- A call of `framebuffer_fill_rect` in which a sum overflows has no result. -/
theorem drawRect_of_not_fits
    (plot : ℤ → ℤ → σ → σ) (fuel : ℕ) (canvas : σ) {x y w h : ℤ} (hfits : ¬ RectFits x y w h) :
  drawRect int32 plot fuel canvas x y w h = none
  := by
  apply While.run_of_none
  by_cases hy : FitsInt (y + h)
  · obtain ⟨hpos, hx⟩ := Classical.not_imp.mp (not_and.mp hfits hy)
    rw [forStep, int32_of_fits hy, Option.bind_some, if_pos (by omega),
      While.run_of_none (forStep_of_not_fits hx _), Option.bind_none]
  · apply forStep_of_not_fits hy

end CTemplate

import CTemplate.Rendering.CircleOverflow
import CTemplate.Rendering.LineOverflow
import CTemplate.Rendering.Rect

/-!
# Overflow in drawing

Which calls of the drawing functions compute without overflow: not all of them, since clipping is
left to `framebuffer_set_pixel`.
-/

namespace CTemplate

/-- A call ends without overflow, with the picture that integers without bounds give. -/
def DrawsExactly (draw : (ℤ → Option ℤ) → ℕ → Option Framebuffer) : Prop :=
  ∃ fuel fb, draw int32 fuel = some fb ∧ draw some fuel = some fb

theorem framebufferLine_drawsExactly_iff
    (fb : Framebuffer) (color : UInt32) (x0 y0 x1 y1 : CInt) :
  DrawsExactly (fun int fuel => framebufferLine int fuel fb x0.1 y0.1 x1.1 y1.1 color)
    ↔ LineFits |x1.1 - x0.1| |y1.1 - y0.1|
  := by
  constructor
  · rintro ⟨fuel, fb', hdraw, -⟩
    apply lineFits_of_drawLine hdraw
  · intro h
    obtain ⟨points, -, hdraw⟩ := exists_drawLine x0.1 y0.1 x1.1 y1.1
    have hexact := hdraw (fun x y fb => framebufferSetPixel fb x y color) fb (Nat.le_refl _)
    have hsame := drawLine_int32 h x0.2 y0.2 x1.2 y1.2
      (fun x y fb => framebufferSetPixel fb x y color) points.length fb
    exact ⟨points.length, _, hsame.trans hexact, hexact⟩

theorem framebufferFillRect_drawsExactly_iff
    (fb : Framebuffer) (color : UInt32) (x y w h : CInt) :
  DrawsExactly (fun int fuel => framebufferFillRect int fuel fb x.1 y.1 w.1 h.1 color)
    ↔ RectFits x.1 y.1 w.1 h.1
  := by
  constructor
  · rintro ⟨fuel, fb', hdraw, -⟩
    by_contra hbad
    have hnone := drawRect_of_not_fits (fun x y fb => framebufferSetPixel fb x y color) fuel fb hbad
    cases hnone.symm.trans hdraw
  · intro hfits
    obtain ⟨fuel, fb', hexact⟩ :=
      exists_drawRect (fun x y fb => framebufferSetPixel fb x y color) fb x.1 y.1 w.1 h.1
    have hsame := drawRect_int32 (fun x y fb => framebufferSetPixel fb x y color) fuel fb x.2 y.2
      hfits
    exact ⟨fuel, fb', hsame.trans hexact, hexact⟩

theorem framebufferCircle_drawsExactly_iff
    (fb : Framebuffer) (color : UInt32) (cx cy r : CInt) :
  DrawsExactly (fun int fuel => framebufferCircle int fuel fb cx.1 cy.1 r.1 color)
    ↔ CircleFits cx.1 cy.1 r.1
  := by
  constructor
  · rintro ⟨fuel, fb', hdraw, -⟩
    apply circleFits_of_drawCircle hdraw
  · intro h
    obtain ⟨octant, -, -, hdraw⟩ := exists_drawCircle cx.1 cy.1 r.1
    have hexact := hdraw (fun x y fb => framebufferSetPixel fb x y color) fb (Nat.lt_succ_self _)
    have hsame := drawCircle_int32 h r.2 (fun x y fb => framebufferSetPixel fb x y color)
      (octant.length + 1) fb
    exact ⟨octant.length + 1, _, hsame.trans hexact, hexact⟩

/-- The drawing functions compute without overflow, end and clip on the true coordinates exactly
when their arguments satisfy `LineFits`, `RectFits` and `CircleFits`. -/
theorem drawsExactly_iff (fb : Framebuffer) (color : UInt32) :
  (∀ x0 y0 x1 y1 : CInt,
      DrawsExactly (fun int fuel => framebufferLine int fuel fb x0.1 y0.1 x1.1 y1.1 color)
        ↔ LineFits |x1.1 - x0.1| |y1.1 - y0.1|)
    ∧ (∀ x y w h : CInt,
      DrawsExactly (fun int fuel => framebufferFillRect int fuel fb x.1 y.1 w.1 h.1 color)
        ↔ RectFits x.1 y.1 w.1 h.1)
    ∧ ∀ cx cy r : CInt,
      DrawsExactly (fun int fuel => framebufferCircle int fuel fb cx.1 cy.1 r.1 color)
        ↔ CircleFits cx.1 cy.1 r.1
  := ⟨framebufferLine_drawsExactly_iff fb color, framebufferFillRect_drawsExactly_iff fb color,
    framebufferCircle_drawsExactly_iff fb color⟩

/-- A framebuffer of one pixel. -/
def onePixel : Framebuffer where
  pixels := some [0]
  width := 1
  height := 1
  sized := by decide

/-- A horizontal line of 2³⁰ moves, a rectangle of one pixel in the last column that an `int` can
name, and a circle of a radius just above 2³⁰ overflow. -/
theorem drawing_overflows :
  ¬ DrawsExactly (fun int fuel => framebufferLine int fuel onePixel 0 0 1073741824 0 0)
    ∧ ¬ DrawsExactly (fun int fuel => framebufferFillRect int fuel onePixel 2147483647 0 1 1 0)
    ∧ ¬ DrawsExactly (fun int fuel => framebufferCircle int fuel onePixel 0 0 1073774595 0)
  := by
  refine ⟨?_, ?_, ?_⟩
  · rintro ⟨fuel, fb, hdraw, -⟩
    have hflat := (lineFits_of_drawLine hdraw).flat (by decide)
    have hzero : 0 ≤ extremeOffset |1073741824 - 0| |0 - 0| (|1073741824 - 0| / 2) :=
      extremeOffset_nonneg (.inl (by decide)) (by decide)
    have hextents : |(1073741824 : ℤ) - 0| - |0 - 0| = 1073741824 := by decide
    have hmax : (intMax : ℤ) = 2147483647 := rfl
    omega
  · rintro ⟨fuel, fb, hdraw, -⟩
    have hnone := drawRect_of_not_fits (fun x y fb => framebufferSetPixel fb x y 0) fuel onePixel
      (show ¬ RectFits 2147483647 0 1 1 by decide)
    cases hnone.symm.trans hdraw
  · rintro ⟨fuel, fb, hdraw, -⟩
    have hupper := (circleFits_of_drawCircle hdraw).upper (by decide)
    have hroot : Int.sqrt 1073774595 ≤ 32768 :=
      Raster.sqrt_le_of_lt_sq (by decide) (by decide) (by decide)
    have hmax : (intMax : ℤ) = 2147483647 := rfl
    omega

/-! ### Small pictures -/

/-- A number small enough that sums and differences of two of them are far from overflow. -/
def Small (z : ℤ) : Prop :=
  -268435456 ≤ z ∧ z ≤ 268435456

theorem lineFits_of_small {x0 y0 x1 y1 : ℤ} (hx0 : Small x0) (hy0 : Small y0) (hx1 : Small x1)
    (hy1 : Small y1) :
  LineFits |x1 - x0| |y1 - y0|
  := by
  obtain ⟨hx0, hx0'⟩ := hx0
  obtain ⟨hy0, hy0'⟩ := hy0
  obtain ⟨hx1, hx1'⟩ := hx1
  obtain ⟨hy1, hy1'⟩ := hy1
  have hdx : |x1 - x0| ≤ 536870912 := by
    rw [abs_le]
    omega
  have hdy : |y1 - y0| ≤ 536870912 := by
    rw [abs_le]
    omega
  have hdx₀ : 0 ≤ |x1 - x0| := abs_nonneg _
  have hdy₀ : 0 ≤ |y1 - y0| := abs_nonneg _
  have hmax : (intMax : ℤ) = 2147483647 := rfl
  generalize |x1 - x0| = dx at *
  generalize |y1 - y0| = dy at *
  by_cases hpos : 0 < dx ∨ 0 < dy
  · have hupper : ∀ n, extremeOffset dx dy n ≤ n := Raster.multipleUpTo_le (gcd_pos hpos)
    have hflat := hupper (dx / 2)
    have hflat' := hupper ((dx - 1) / 2)
    have hsteep := hupper (dy / 2)
    constructor <;> omega
  · obtain ⟨rfl, rfl⟩ : dx = 0 ∧ dy = 0 := by omega
    apply lineFits_zero

theorem rectFits_of_small {x y w h : ℤ} (hx : Small x) (hy : Small y) (hw : Small w)
    (hh : Small h) :
  RectFits x y w h
  := by
  have hsum : ∀ {a b : ℤ}, Small a → Small b → FitsInt (a + b) := by
    rintro a b ⟨ha, ha'⟩ ⟨hb, hb'⟩
    have hmax : (intMax : ℤ) = 2147483647 := rfl
    constructor <;> omega
  exact ⟨hsum hy hh, fun _ => hsum hx hw⟩

theorem circleFits_of_small {cx cy r : ℤ} (hx : Small cx) (hy : Small cy) (hr : Small r) :
  CircleFits cx cy r
  := by
  obtain ⟨hx, hx'⟩ := hx
  obtain ⟨hy, hy'⟩ := hy
  obtain ⟨hr, hr'⟩ := hr
  have hmax : (intMax : ℤ) = 2147483647 := rfl
  have hroot := Int.sqrt_nonneg r
  constructor
  · omega
  · exact fun _ => ⟨by constructor <;> omega, by constructor <;> omega⟩
  · exact fun _ => ⟨by constructor <;> omega, by constructor <;> omega⟩
  · omega

/-- With arguments of at most 2²⁸ the drawing functions compute without overflow, on every
framebuffer. -/
theorem drawsExactly_of_small (fb : Framebuffer) (color : UInt32) :
  (∀ x0 y0 x1 y1 : CInt, Small x0.1 → Small y0.1 → Small x1.1 → Small y1.1 →
      DrawsExactly (fun int fuel => framebufferLine int fuel fb x0.1 y0.1 x1.1 y1.1 color))
    ∧ (∀ x y w h : CInt, Small x.1 → Small y.1 → Small w.1 → Small h.1 →
      DrawsExactly (fun int fuel => framebufferFillRect int fuel fb x.1 y.1 w.1 h.1 color))
    ∧ ∀ cx cy r : CInt, Small cx.1 → Small cy.1 → Small r.1 →
      DrawsExactly (fun int fuel => framebufferCircle int fuel fb cx.1 cy.1 r.1 color)
  := by
  refine ⟨?_, ?_, ?_⟩
  · intro x0 y0 x1 y1 hx0 hy0 hx1 hy1
    rw [framebufferLine_drawsExactly_iff]
    apply lineFits_of_small hx0 hy0 hx1 hy1
  · intro x y w h hx hy hw hh
    rw [framebufferFillRect_drawsExactly_iff]
    apply rectFits_of_small hx hy hw hh
  · intro cx cy r hx hy hr
    rw [framebufferCircle_drawsExactly_iff]
    apply circleFits_of_small hx hy hr

end CTemplate

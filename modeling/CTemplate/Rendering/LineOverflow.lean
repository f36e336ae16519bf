import CTemplate.Rendering.Line

/-!
# Overflow in lines

The error in the loop of `framebuffer_line` depends on the offset of the current point alone, and
the offsets of the points near a line of the extents `dx` and `dy` are multiples of the greatest
common divisor of `dx` and `dy`.  So nothing overflows exactly when the computations at the points
of the largest and of the smallest offset do not, `drawLine_int32` and `drawLine_of_not_fits`.
-/

namespace CTemplate

open Raster

/-- The largest multiple of the greatest common divisor of `dx` and `dy` that is at most `n`. -/
def extremeOffset (dx dy n : ℤ) : ℤ :=
  multipleUpTo (Int.gcd dx dy) n

/-- No computation in `framebuffer_line` overflows for a line of the extents `dx` and `dy`. -/
structure LineFits (dx dy : ℤ) : Prop where
  dx_le : dx ≤ intMax
  dy_le : dy ≤ intMax
  flat : dy ≤ dx → 2 * (dx - dy + extremeOffset dx dy (dx / 2)) ≤ intMax
    ∧ 2 * dy - dx + extremeOffset dx dy ((dx - 1) / 2) ≤ intMax + 1
  steep : dx < dy → 2 * (dy - dx + extremeOffset dx dy (dy / 2)) ≤ intMax + 1
    ∧ (0 < dx → dy + extremeOffset dx dy (dy / 2) ≤ intMax + 1)

variable {σ : Type} {plot : ℤ → ℤ → σ → σ} {x0 y0 x1 y1 dx dy sx sy X Y c n : ℤ}

theorem gcd_pos (hpos : 0 < dx ∨ 0 < dy) :
  0 < Int.gcd dx dy
  := by
  rw [Int.gcd_pos_iff]
  omega

theorem le_extremeOffset (hpos : 0 < dx ∨ 0 < dy) (hdvd : (Int.gcd dx dy : ℤ) ∣ c) (hle : c ≤ n) :
  c ≤ extremeOffset dx dy n
  := le_multipleUpTo (gcd_pos hpos) hdvd hle

theorem extremeOffset_nonneg (hpos : 0 < dx ∨ 0 < dy) (hn : 0 ≤ n) :
  0 ≤ extremeOffset dx dy n
  := le_extremeOffset hpos (Int.dvd_zero _) hn

/-! ### When nothing overflows -/

theorem fits_of_twice {z : ℤ} (h : FitsInt (2 * z)) :
  FitsInt z
  := by
  obtain ⟨hlow, hhigh⟩ := h
  constructor <;> omega

/-- The coordinates between the ends of a line are values of type `int`. -/
theorem fits_between
    {a s d : ℤ} (hs : s = 1 ∨ s = -1) (ha : FitsInt a) (hd : FitsInt (a + s * d))
    (hn : 0 ≤ n ∧ n ≤ d) :
  FitsInt (a + s * n)
  := by
  obtain ⟨hlow, hhigh⟩ := ha
  obtain ⟨hlow', hhigh'⟩ := hd
  rcases hs with rfl | rfl <;> constructor <;> omega

/-- The errors at the points near a flat line fit. -/
theorem LineFits.flat_error
    (h : LineFits dx dy) (hle : dy ≤ dx) (hpos : 0 < dx) (hnear : Near dx dy X Y) :
  FitsInt (2 * (dx - dy - offset dx dy X Y))
    ∧ FitsInt (dx - dy - offset dx dy (X + 1) Y)
  := by
  obtain ⟨hlow, hhigh⟩ := hnear.flat hle
  obtain ⟨htwice, hfirst⟩ := h.flat hle
  have hdvd := gcd_dvd_offset dx dy X Y
  have hmost := le_extremeOffset (n := (dx - 1) / 2) (.inl hpos) hdvd (by omega)
  have hleast := le_extremeOffset (n := dx / 2) (.inl hpos) (Int.dvd_neg.mpr hdvd) (by omega)
  have hdx := h.dx_le
  rw [offset_succ_left]
  constructor <;> constructor <;> omega

/-- The errors at the points near a steep line fit. -/
theorem LineFits.steep_error
    (h : LineFits dx dy) (hlt : dx < dy) (hdx : 0 ≤ dx) (hnear : Near dx dy X Y) :
  FitsInt (2 * (dx - dy - offset dx dy X Y))
    ∧ (2 * (dx - dy - offset dx dy X Y) ≥ -dy → FitsInt (dx - dy - offset dx dy (X + 1) Y))
  := by
  obtain ⟨hlow, hhigh⟩ := hnear.steep hlt
  obtain ⟨htwice, hfirst⟩ := h.steep hlt
  have hpos : 0 < dx ∨ 0 < dy := .inr (by omega)
  have hdvd := gcd_dvd_offset dx dy X Y
  have hmost := le_extremeOffset (n := dy / 2) hpos hdvd (by omega)
  have hdy := h.dy_le
  constructor
  · constructor <;> omega
  · intro hmove
    -- with the move along x comes an offset whose complement to the extents is small as well
    have hdvd' : (Int.gcd dx dy : ℤ) ∣ offset dx dy X Y + dy - dx :=
      Int.dvd_sub (Int.dvd_add hdvd (Int.gcd_dvd_right dx dy)) (Int.gcd_dvd_left dx dy)
    have hmost' := le_extremeOffset (n := dy / 2) hpos hdvd' (by omega)
    have hfirst := hfirst (by omega)
    rw [offset_succ_left]
    constructor <;> omega

/-- The ends of a line are values of type `int`. -/
structure EndsFit (x0 y0 dx sx dy sy : ℤ) : Prop where
  start_x : FitsInt x0
  start_y : FitsInt y0
  end_x : FitsInt (x0 + sx * dx)
  end_y : FitsInt (y0 + sy * dy)

/-- In a round away from the end of the line nothing overflows. -/
theorem LineFits.round
    (h : LineFits dx dy) (hs : LineShape dx sx dy sy) (hends : EndsFit x0 y0 dx sx dy sy) {m : ℕ}
    (hat : LineUnderway dx dy X Y (m + 1)) :
  LineRoundExact int32 x0 y0 dx sx dy sy X Y
  := by
  obtain ⟨hnext, hnextX, hnextY⟩ := hat.next hs
  have hdx := hs.dx_nonneg
  have hdy := hs.dy_nonneg
  have hX₀ := hnext.x_nonneg
  have hY₀ := hnext.y_nonneg
  rcases le_or_gt dy dx with hle | hlt
  · have hleft := hnext.x_left hle
    have hpos : 0 < dx := by
      have hX := hat.x_nonneg
      have hleft := hat.x_left hle
      omega
    obtain ⟨htwice, hfirst⟩ := h.flat_error hle hpos hat.near
    obtain ⟨htwice', -⟩ := h.flat_error hle hpos hnext.near
    have hrange : 0 ≤ nextX dx dy X Y ∧ nextX dx dy X Y ≤ dx := by omega
    constructor <;> rw [exact_int32_iff]
    · exact htwice
    · rw [hnextX hle]
      exact hfirst
    · apply fits_of_twice htwice'
    · apply fits_between hs.sx_cases hends.start_x hends.end_x hrange
    · apply fits_between hs.sy_cases hends.start_y hends.end_y
      apply hnext.near.le_of_flat hle hdy hrange
  · have hleft := hnext.y_left (Int.le_of_lt hlt)
    obtain ⟨htwice, hfirst⟩ := h.steep_error hlt hdx hat.near
    obtain ⟨htwice', -⟩ := h.steep_error hlt hdx hnext.near
    have hrange : 0 ≤ nextY dx dy X Y ∧ nextY dx dy X Y ≤ dy := by omega
    constructor <;> rw [exact_int32_iff]
    · exact htwice
    · rw [nextX]
      split
      case isTrue hmove => apply hfirst hmove
      case isFalse => apply fits_of_twice htwice
    · apply fits_of_twice htwice'
    · apply fits_between hs.sx_cases hends.start_x hends.end_x
      apply hnext.near.le_of_steep hlt hdx hrange
    · apply fits_between hs.sy_cases hends.start_y hends.end_y hrange

/-- When nothing overflows, the loop is the one without bounds. -/
theorem LineFits.run_eq
    (h : LineFits dx dy) (hs : LineShape dx sx dy sy) (hends : EndsFit x0 y0 dx sx dy sy)
    (plot : ℤ → ℤ → σ → σ) (fuel : ℕ) (canvas : σ) :
  While.run (lineStep int32 plot (x0 + sx * dx) (y0 + sy * dy) dx sx (-dy) sy) fuel
      (lineAt x0 y0 dx sx dy sy 0 0 canvas)
    = While.run (lineStep some plot (x0 + sx * dx) (y0 + sy * dy) dx sx (-dy) sy) fuel
      (lineAt x0 y0 dx sx dy sy 0 0 canvas)
  := by
  apply While.run_congr (I := fun s => ∃ X Y m canvas, LineUnderway dx dy X Y m
    ∧ s = lineAt x0 y0 dx sx dy sy X Y canvas) _ ⟨0, 0, _, canvas, hs.start, rfl⟩
  rintro _ ⟨X, Y, m, canvas, hat, rfl⟩
  cases m with
  | zero =>
      obtain ⟨rfl, rfl⟩ := hat.eq_end hs
      rw [lineStep_end, lineStep_end]
      use rfl
      rintro s' hs'
      cases hs'
  | succ m =>
      rw [lineStep_next (h.round hs hends hat) canvas (hat.ne_end hs x0 y0),
        lineStep_next (lineRoundExact_some ..) canvas (hat.ne_end hs x0 y0)]
      use rfl
      intro s' hs'
      cases hs'
      exact ⟨_, _, m, _, (hat.next hs).1, rfl⟩

theorem LineFits.start
    (h : LineFits |x1 - x0| |y1 - y0|) :
  LineStartExact int32 x0 y0 x1 y1
  := by
  have hx := h.dx_le
  have hy := h.dy_le
  have hx₀ := abs_cases (x1 - x0)
  have hy₀ := abs_cases (y1 - y0)
  constructor <;> rw [exact_int32_iff] <;> constructor <;> omega

/-- When nothing overflows, `framebuffer_line` draws what it draws without bounds. -/
theorem drawLine_int32
    (h : LineFits |x1 - x0| |y1 - y0|) (hx0 : FitsInt x0) (hy0 : FitsInt y0) (hx1 : FitsInt x1)
    (hy1 : FitsInt y1) (plot : ℤ → ℤ → σ → σ) (fuel : ℕ) (canvas : σ) :
  drawLine int32 plot fuel canvas x0 y0 x1 y1 = drawLine some plot fuel canvas x0 y0 x1 y1
  := by
  rw [drawLine_eq_run h.start, drawLine_eq_run (lineStartExact_some ..)]
  obtain ⟨dx, sx, dy, sy, ⟨hdx, hsx, hdy, hsy⟩, rfl, rfl, hline⟩ := line_cases x0 y0 x1 y1
  rw [hdx, hdy] at h
  rw [hdx, hsx, hdy, hsy]
  rcases hline with hs | ⟨rfl, rfl⟩
  · apply h.run_eq hs ⟨hx0, hy0, hx1, hy1⟩
  · -- the line is a single point
    cases fuel with
    | zero => rfl
    | succ fuel =>
        rw [While.run_of_inr (lineStep_end int32 canvas),
          While.run_of_inr (lineStep_end some canvas)]

/-! ### When something overflows -/

/-- A round in which the error overflows has no result. -/
theorem lineStep_eq_none
    (canvas : σ) (hend : ¬ (x0 + sx * X = x1 ∧ y0 + sy * Y = y1))
    (hbad : ¬ FitsInt (2 * (dx - dy - offset dx dy X Y))
      ∨ 2 * (dx - dy - offset dx dy X Y) ≥ -dy ∧ ¬ FitsInt (dx - dy - offset dx dy X Y + -dy)) :
  lineStep int32 plot x1 y1 dx sx (-dy) sy (lineAt x0 y0 dx sx dy sy X Y canvas) = none
  := by
  have hend' : ¬ (LineState.x0 (lineAt x0 y0 dx sx dy sy X Y canvas) = x1
      ∧ LineState.y0 (lineAt x0 y0 dx sx dy sy X Y canvas) = y1) := hend
  rw [lineStep, if_neg hend']
  dsimp only [lineAt]
  rcases hbad with htwice | ⟨hmove, hfirst⟩
  · rw [int32_of_not_fits htwice, Option.bind_none]
  · by_cases htwice : FitsInt (2 * (dx - dy - offset dx dy X Y))
    · rw [int32_of_fits htwice, Option.bind_some, lineMove, if_pos (decide_eq_true hmove),
        int32_of_not_fits hfirst, Option.bind_none, Option.bind_none]
    · rw [int32_of_not_fits htwice, Option.bind_none]

theorem lineMove_mono
    {move : Bool} {err d x s : ℤ} {r : ℤ × ℤ} (h : lineMove int32 move err d x s = some r) :
  lineMove some move err d x s = some r
  := by
  rw [lineMove] at h ⊢
  split at h
  case isTrue hmove =>
    obtain ⟨err', herr, h⟩ := Option.bind_eq_some_iff.mp h
    obtain ⟨x', hx, rfl⟩ := Option.map_eq_some_iff.mp h
    rw [if_pos hmove, (eq_of_int32 herr).2, (eq_of_int32 hx).2]
    rfl
  case isFalse hmove =>
    rw [if_neg hmove, h]

/-- What a round gives in 32 bits is what it gives without bounds. -/
theorem lineStep_mono
    {s : LineState σ} {r : LineState σ ⊕ σ} (h : lineStep int32 plot x1 y1 dx sx dy sy s = some r) :
  lineStep some plot x1 y1 dx sx dy sy s = some r
  := by
  rw [lineStep] at h ⊢
  dsimp only at h ⊢
  split at h
  case isTrue hend => rw [if_pos hend, h]
  case isFalse hend =>
    obtain ⟨e2, he2, h⟩ := Option.bind_eq_some_iff.mp h
    obtain ⟨first, hfirst, h⟩ := Option.bind_eq_some_iff.mp h
    obtain ⟨second, hsecond, rfl⟩ := Option.map_eq_some_iff.mp h
    obtain rfl := (eq_of_int32 he2).2
    rw [if_neg hend, Option.bind_some, lineMove_mono hfirst, Option.bind_some,
      lineMove_mono hsecond]
    rfl

/-- With as many moves to go, the loop is at the same point. -/
theorem LineUnderway.unique
    {m : ℕ} {X' Y' : ℤ} (h : LineUnderway dx dy X Y m) (h' : LineUnderway dx dy X' Y' m) :
  X = X' ∧ Y = Y'
  := by
  rcases le_or_gt dy dx with hle | hlt
  · obtain rfl : X = X' := by
      have hX := h.x_left hle
      have hX' := h'.x_left hle
      omega
    exact ⟨rfl, h.near.eq_of_flat h'.near hle⟩
  · obtain rfl : Y = Y' := by
      have hY := h.y_left (Int.le_of_lt hlt)
      have hY' := h'.y_left (Int.le_of_lt hlt)
      omega
    exact ⟨h.near.eq_of_steep h'.near hlt, rfl⟩

/-- A line with a point at which the error overflows is not drawn. -/
theorem run_eq_none_of_bad
    (hs : LineShape dx sx dy sy) {m : ℕ} (hat : LineUnderway dx dy X Y (m + 1))
    (hbad : ¬ FitsInt (2 * (dx - dy - offset dx dy X Y))
      ∨ 2 * (dx - dy - offset dx dy X Y) ≥ -dy ∧ ¬ FitsInt (dx - dy - offset dx dy X Y + -dy))
    (plot : ℤ → ℤ → σ → σ) (fuel : ℕ) (canvas : σ) :
  While.run (lineStep int32 plot (x0 + sx * dx) (y0 + sy * dy) dx sx (-dy) sy) fuel
      (lineAt x0 y0 dx sx dy sy 0 0 canvas) = none
  := by
  have hle : m + 1 ≤ (max dx dy).toNat := by
    have hX := hat.x_left
    have hY := hat.y_left
    have hX₀ := hat.x_nonneg
    have hY₀ := hat.y_nonneg
    omega
  apply While.run_eq_none (I := fun s => ∃ X Y k canvas, LineUnderway dx dy X Y (m + k + 1)
    ∧ s = lineAt x0 y0 dx sx dy sy X Y canvas)
  · rintro _ ⟨X', Y', k, canvas, hat', rfl⟩
    have hend := hat'.ne_end hs x0 y0
    cases k with
    | zero =>
        obtain ⟨rfl, rfl⟩ := hat.unique hat'
        exact .inl (lineStep_eq_none canvas hend hbad)
    | succ k =>
        cases hstep : lineStep int32 plot (x0 + sx * dx) (y0 + sy * dy) dx sx (-dy) sy
            (lineAt x0 y0 dx sx dy sy X' Y' canvas) with
        | none => exact .inl rfl
        | some r =>
            have hr := lineStep_mono hstep
            rw [lineStep_next (lineRoundExact_some ..) canvas hend] at hr
            cases hr
            exact .inr ⟨_, rfl, _, _, k, _, (hat'.next hs).1, rfl⟩
  · refine ⟨0, 0, (max dx dy).toNat - (m + 1), canvas, ?_, rfl⟩
    have hstart := hs.start
    rwa [show m + ((max dx dy).toNat - (m + 1)) + 1 = (max dx dy).toNat by omega]

/-- Every small multiple of the greatest common divisor is the offset of a point at which the loop
makes a round. -/
theorem exists_underway
    (hs : LineShape dx sx dy sy) (hdvd : (Int.gcd dx dy : ℤ) ∣ c)
    (hflat : dy ≤ dx → -dx ≤ 2 * c ∧ 2 * c < dx) (hsteep : dx < dy → -dy < 2 * c ∧ 2 * c ≤ dy) :
  ∃ X Y m, LineUnderway dx dy X Y (m + 1) ∧ offset dx dy X Y = c
  := by
  have hdx := hs.dx_nonneg
  have hdy := hs.dy_nonneg
  rcases le_or_gt dy dx with hle | hlt
  · obtain ⟨X, Y, hX, hnear, hoff⟩ := exists_near_of_flat hle hdvd (hflat hle).1 (hflat hle).2
    have hY := hnear.le_of_flat hle hdy ⟨hX.1, Int.le_of_lt hX.2⟩
    refine ⟨X, Y, (dx - X - 1).toNat, ⟨hnear, hX.1, hY.1, ?_, ?_⟩, hoff⟩
    · omega
    · -- on a diagonal line both coordinates have moved as often
      intro hge
      obtain rfl : dx = dy := by omega
      have hdiag : Near dx dx X X := by
        constructor <;>
        · intro _
          rw [offset, Int.sub_self]
          omega
      obtain rfl := hnear.eq_of_flat hdiag hle
      omega
  · obtain ⟨X, Y, hY, hnear, hoff⟩ := exists_near_of_steep hlt hdvd (hsteep hlt).1 (hsteep hlt).2
    have hX := hnear.le_of_steep hlt hdx ⟨hY.1, Int.le_of_lt hY.2⟩
    refine ⟨X, Y, (dy - Y - 1).toNat, ⟨hnear, hX.1, hY.1, ?_, ?_⟩, hoff⟩ <;> omega

/-- A multiple of the greatest common divisor is not the offset of a point at which the error
overflows, if the line is drawn. -/
theorem fits_of_run
    (hs : LineShape dx sx dy sy) {fuel : ℕ} {canvas r : σ}
    (hrun : While.run (lineStep int32 plot (x0 + sx * dx) (y0 + sy * dy) dx sx (-dy) sy) fuel
      (lineAt x0 y0 dx sx dy sy 0 0 canvas) = some r)
    (hdvd : (Int.gcd dx dy : ℤ) ∣ c)
    (hflat : dy ≤ dx → -dx ≤ 2 * c ∧ 2 * c < dx) (hsteep : dx < dy → -dy < 2 * c ∧ 2 * c ≤ dy) :
  FitsInt (2 * (dx - dy - c)) ∧ (2 * (dx - dy - c) ≥ -dy → FitsInt (dx - dy - c + -dy))
  := by
  obtain ⟨X, Y, m, hat, rfl⟩ := exists_underway hs hdvd hflat hsteep
  by_contra hbad
  rw [run_eq_none_of_bad hs hat] at hrun
  · cases hrun
  · rwa [not_and_or, Classical.not_imp] at hbad

/-- In a line that is drawn nothing overflows. -/
theorem lineFits_of_run
    (hs : LineShape dx sx dy sy) (hdx : dx ≤ intMax) (hdy : dy ≤ intMax) {fuel : ℕ} {canvas r : σ}
    (hrun : While.run (lineStep int32 plot (x0 + sx * dx) (y0 + sy * dy) dx sx (-dy) sy) fuel
      (lineAt x0 y0 dx sx dy sy 0 0 canvas) = some r) :
  LineFits dx dy
  := by
  have hdx₀ := hs.dx_nonneg
  have hdy₀ := hs.dy_nonneg
  have hg := gcd_pos hs.pos
  have hdvd : ∀ n, (Int.gcd dx dy : ℤ) ∣ extremeOffset dx dy n := dvd_multipleUpTo _
  have hupper : ∀ n, extremeOffset dx dy n ≤ n := multipleUpTo_le hg
  refine ⟨hdx, hdy, ?_, ?_⟩
  · intro hle
    have hpos : 0 < dx := by
      have hpos := hs.pos
      omega
    constructor
    · have hhalf := hupper (dx / 2)
      have hzero := extremeOffset_nonneg (n := dx / 2) hs.pos (by omega)
      obtain ⟨⟨-, htwice⟩, -⟩ := fits_of_run hs hrun (Int.dvd_neg.mpr (hdvd (dx / 2)))
        (by omega) (by omega)
      omega
    · have hhalf := hupper ((dx - 1) / 2)
      have hzero := extremeOffset_nonneg (n := (dx - 1) / 2) hs.pos (by omega)
      obtain ⟨-, hfirst⟩ := fits_of_run hs hrun (hdvd ((dx - 1) / 2)) (by omega) (by omega)
      obtain ⟨hfirst, -⟩ := hfirst (by omega)
      omega
  · intro hlt
    have hhalf := hupper (dy / 2)
    have hzero := extremeOffset_nonneg (n := dy / 2) hs.pos (by omega)
    constructor
    · obtain ⟨⟨htwice, -⟩, -⟩ := fits_of_run hs hrun (hdvd (dy / 2)) (by omega) (by omega)
      omega
    · intro hpos
      have hstep : (Int.gcd dx dy : ℤ) ≤ dx := Int.le_of_dvd hpos (Int.gcd_dvd_left dx dy)
      have hnext := lt_multipleUpTo_add hg (dy / 2)
      have hdvd' : (Int.gcd dx dy : ℤ) ∣ extremeOffset dx dy (dy / 2) - dy + dx :=
        Int.dvd_add (Int.dvd_sub (hdvd _) (Int.gcd_dvd_right dx dy)) (Int.gcd_dvd_left dx dy)
      rw [← extremeOffset] at hnext
      obtain ⟨-, hfirst⟩ := fits_of_run hs hrun hdvd' (by omega) (by omega)
      obtain ⟨hfirst, -⟩ := hfirst (by omega)
      omega

theorem lineStartExact_of_drawLine
    {fuel : ℕ} {canvas r : σ} (h : drawLine int32 plot fuel canvas x0 y0 x1 y1 = some r) :
  LineStartExact int32 x0 y0 x1 y1
  := by
  obtain ⟨dx, hdx, h⟩ := Option.bind_eq_some_iff.mp h
  obtain ⟨x, hx, hdx⟩ := Option.bind_eq_some_iff.mp hdx
  obtain ⟨dy, hdy, h⟩ := Option.bind_eq_some_iff.mp h
  obtain ⟨a, ha, hdy⟩ := Option.bind_eq_some_iff.mp hdy
  obtain ⟨y, hy, ha⟩ := Option.bind_eq_some_iff.mp ha
  obtain ⟨err, herr, -⟩ := Option.bind_eq_some_iff.mp h
  obtain ⟨hx, rfl⟩ := eq_of_int32 hx
  obtain ⟨hdx, rfl⟩ := eq_of_int32 hdx
  obtain ⟨hy, rfl⟩ := eq_of_int32 hy
  obtain ⟨ha, rfl⟩ := eq_of_int32 ha
  obtain ⟨hdy, rfl⟩ := eq_of_int32 hdy
  obtain ⟨herr, rfl⟩ := eq_of_int32 herr
  constructor <;> rwa [exact_int32_iff]

theorem lineFits_zero :
  LineFits 0 0
  := by
  constructor <;> decide

/-- In a line that is drawn nothing overflows. -/
theorem lineFits_of_drawLine
    {fuel : ℕ} {canvas r : σ} (h : drawLine int32 plot fuel canvas x0 y0 x1 y1 = some r) :
  LineFits |x1 - x0| |y1 - y0|
  := by
  have hstart := lineStartExact_of_drawLine h
  obtain ⟨-, hdx_le⟩ := exact_int32_iff.mp hstart.x_abs
  obtain ⟨-, hdy_le⟩ := exact_int32_iff.mp hstart.y_abs
  rw [drawLine_eq_run hstart] at h
  clear hstart
  obtain ⟨dx, sx, dy, sy, ⟨hdx, hsx, hdy, hsy⟩, rfl, rfl, hline⟩ := line_cases x0 y0 x1 y1
  rw [hdx, hsx, hdy, hsy] at h
  rw [hdx] at hdx_le ⊢
  rw [hdy] at hdy_le ⊢
  rcases hline with hs | ⟨rfl, rfl⟩
  · apply lineFits_of_run hs hdx_le hdy_le h
  · apply lineFits_zero

end CTemplate

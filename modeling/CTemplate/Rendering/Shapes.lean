import CTemplate.Rendering.Overflow
import Mathlib.Data.Int.Range
import Mathlib.Order.Interval.Set.UnorderedInterval

/-!
# The shapes that are drawn

The points that `framebuffer_line`, `framebuffer_fill_rect` and `framebuffer_circle` set are said
here without their loops, as sets of points of the plane: `lineRegion`, `rectRegion` and
`circleRegion`.
-/

namespace CTemplate

open Raster

/-! ### Lines -/

/-- The points of a line: in each column of a flat line the one nearest to the line, in each row of
a steep one, and of two that are as near the one farther from the row or column of the start. -/
def lineRegion (x0 y0 x1 y1 : ℤ) : Set (ℤ × ℤ) :=
  { p | if |y1 - y0| ≤ |x1 - x0| then
      p.1 ∈ Set.uIcc x0 x1
        ∧ p.2 = y0 + lineSign y0 y1 * nearest (|p.1 - x0| * |y1 - y0|) |x1 - x0|
    else
      p.2 ∈ Set.uIcc y0 y1
        ∧ p.1 = x0 + lineSign x0 x1 * nearest (|p.2 - y0| * |x1 - x0|) |y1 - y0| }

variable {x0 y0 x1 y1 dx dy sx sy X Y : ℤ}

/-- The coordinate in which the line is longer. -/
def major (dx dy X Y : ℤ) : ℤ :=
  if dy ≤ dx then X else Y

/-- The points near a line at which the longer coordinate has moved less than `k` times. -/
def StretchPoint (x0 y0 dx sx dy sy k : ℤ) (p : ℤ × ℤ) : Prop :=
  ∃ X Y, Near dx dy X Y ∧ (0 ≤ major dx dy X Y ∧ major dx dy X Y < k)
    ∧ p = (x0 + sx * X, y0 + sy * Y)

/-- As many moves are made as are not to go. -/
theorem LineUnderway.major_eq
    {m : ℕ} (h : LineUnderway dx dy X Y m) :
  major dx dy X Y + m = max dx dy
  := by
  rw [major]
  split
  case isTrue hle => rw [max_eq_left hle, h.x_left hle]
  case isFalse hlt =>
    have hle : dx ≤ dy := by omega
    rw [max_eq_right hle, h.y_left hle]

/-- One point near a line comes with each number of moves. -/
theorem eq_of_major {X' Y' : ℤ} (h : Near dx dy X Y) (h' : Near dx dy X' Y')
    (heq : major dx dy X Y = major dx dy X' Y') :
  X = X' ∧ Y = Y'
  := by
  rw [major, major] at heq
  split at heq
  case isTrue hle =>
    subst heq
    exact ⟨rfl, h.eq_of_flat h' hle⟩
  case isFalse hlt =>
    subst heq
    exact ⟨h.eq_of_steep h' (not_le.mp hlt), rfl⟩

/-- With one move more there is one point more. -/
theorem stretchPoint_succ
    (h : Near dx dy X Y) (hmajor : 0 ≤ major dx dy X Y) (p : ℤ × ℤ) :
  StretchPoint x0 y0 dx sx dy sy (major dx dy X Y + 1) p
    ↔ StretchPoint x0 y0 dx sx dy sy (major dx dy X Y) p ∨ p = (x0 + sx * X, y0 + sy * Y)
  := by
  constructor
  · rintro ⟨X', Y', hnear, ⟨hlow, hhigh⟩, rfl⟩
    rcases Int.lt_or_eq_of_le (Int.lt_add_one_iff.mp hhigh) with hlt | heq
    · left
      exact ⟨X', Y', hnear, ⟨hlow, hlt⟩, rfl⟩
    · right
      obtain ⟨rfl, rfl⟩ := eq_of_major hnear h heq
      rfl
  · rintro (⟨X', Y', hnear, ⟨hlow, hhigh⟩, rfl⟩ | rfl)
    · exact ⟨X', Y', hnear, ⟨hlow, Int.lt_add_one_of_le (Int.le_of_lt hhigh)⟩, rfl⟩
    · exact ⟨X, Y, h, ⟨hmajor, Int.lt_succ _⟩, rfl⟩

theorem mem_visit (x y : ℤ) (points : List (ℤ × ℤ)) (p : ℤ × ℤ) :
  p ∈ visit x y points ↔ p ∈ points ∨ p = (x, y)
  := by
  rw [visit, List.mem_append, List.mem_singleton]

theorem LineUnderway.major_nonneg {m : ℕ} (h : LineUnderway dx dy X Y m) :
  0 ≤ major dx dy X Y
  := by
  rw [major]
  split
  · exact h.x_nonneg
  · exact h.y_nonneg

/-- The loop has listed the points of the line before the one at which it is. -/
def LineListed (x0 y0 dx sx dy sy : ℤ) (s : LineState (List (ℤ × ℤ))) : Prop :=
  ∃ X Y m, LineUnderway dx dy X Y m ∧ s = lineAt x0 y0 dx sx dy sy X Y s.canvas
    ∧ ∀ p, p ∈ s.canvas ↔ StretchPoint x0 y0 dx sx dy sy (major dx dy X Y) p

theorem lineListed_start (hs : LineShape dx sx dy sy) :
  LineListed x0 y0 dx sx dy sy (lineAt x0 y0 dx sx dy sy 0 0 [])
  := by
  refine ⟨0, 0, _, hs.start, rfl, ?_⟩
  intro p
  have hmajor : major dx dy 0 0 = 0 := ite_self 0
  rw [hmajor]
  apply iff_of_false List.not_mem_nil
  rintro ⟨X, Y, -, ⟨hlow, hhigh⟩, -⟩
  omega

/-- A round lists the point at which the loop is. -/
theorem LineListed.next
    {s s' : LineState (List (ℤ × ℤ))} (h : LineListed x0 y0 dx sx dy sy s)
    (hs : LineShape dx sx dy sy)
    (hstep : lineStep some visit (x0 + sx * dx) (y0 + sy * dy) dx sx (-dy) sy s = some (.inl s')) :
  LineListed x0 y0 dx sx dy sy s'
  := by
  obtain ⟨X, Y, m, hat, hs', hpoints⟩ := h
  rw [hs'] at hstep
  cases m with
  | zero =>
      obtain ⟨rfl, rfl⟩ := hat.eq_end hs
      rw [lineStep_end] at hstep
      cases hstep
  | succ m =>
      rw [lineStep_next (lineRoundExact_some ..) _ (hat.ne_end hs x0 y0)] at hstep
      cases hstep
      obtain ⟨hnext, -⟩ := hat.next hs
      have hmajor : major dx dy (nextX dx dy X Y) (nextY dx dy X Y) = major dx dy X Y + 1 := by
        have heq := hat.major_eq
        have heq' := hnext.major_eq
        omega
      refine ⟨_, _, m, hnext, rfl, ?_⟩
      intro p
      rw [hmajor, stretchPoint_succ hat.near hat.major_nonneg, ← hpoints p]
      apply mem_visit

/-- The last round lists the end of the line. -/
theorem LineListed.leave
    {s : LineState (List (ℤ × ℤ))} {points : List (ℤ × ℤ)} (h : LineListed x0 y0 dx sx dy sy s)
    (hs : LineShape dx sx dy sy)
    (hstep : lineStep some visit (x0 + sx * dx) (y0 + sy * dy) dx sx (-dy) sy s
      = some (.inr points)) (p : ℤ × ℤ) :
  p ∈ points ↔ StretchPoint x0 y0 dx sx dy sy (max dx dy + 1) p
  := by
  obtain ⟨X, Y, m, hat, hs', hpoints⟩ := h
  rw [hs'] at hstep
  cases m with
  | zero =>
      obtain ⟨rfl, rfl⟩ := hat.eq_end hs
      rw [lineStep_end] at hstep
      cases hstep
      rw [← hat.major_eq, Nat.cast_zero, Int.add_zero, stretchPoint_succ hat.near hat.major_nonneg,
        ← hpoints p]
      apply mem_visit
  | succ m =>
      rw [lineStep_next (lineRoundExact_some ..) _ (hat.ne_end hs x0 y0)] at hstep
      cases hstep

/-- The distance from the start after `n` moves. -/
theorem abs_moves {a s n : ℤ} (hs : s = 1 ∨ s = -1) (hn : 0 ≤ n) :
  |a + s * n - a| = n
  := by
  rw [add_sub_cancel_left]
  rcases hs with rfl | rfl
  · rw [Int.one_mul, abs_of_nonneg hn]
  · rw [Int.neg_one_mul, abs_neg, abs_of_nonneg hn]

/-- A coordinate lies between the start and the end when it is a number of moves from the start. -/
theorem mem_uIcc_iff_moves {a b s d : ℤ} (hs : s = 1 ∨ s = -1) (hd : 0 ≤ d) :
  b ∈ Set.uIcc a (a + s * d) ↔ ∃ n, (0 ≤ n ∧ n ≤ d) ∧ b = a + s * n
  := by
  rw [Set.mem_uIcc]
  constructor
  · intro h
    use s * (b - a)
    rcases hs with rfl | rfl <;> omega
  · rintro ⟨n, hn, rfl⟩
    rcases hs with rfl | rfl <;> omega

/-- The points near a flat line, column by column. -/
theorem stretchPoint_iff_of_flat
    (hs : LineShape dx sx dy sy) (hle : dy ≤ dx) (p : ℤ × ℤ) :
  StretchPoint x0 y0 dx sx dy sy (max dx dy + 1) p
    ↔ p.1 ∈ Set.uIcc x0 (x0 + sx * dx)
      ∧ p.2 = y0 + sy * nearest (|p.1 - x0| * dy) dx
  := by
  have hpos : 0 < dx := by
    have hpos := hs.pos
    omega
  rw [mem_uIcc_iff_moves hs.sx_cases hs.dx_nonneg, max_eq_left hle]
  constructor
  · rintro ⟨X, Y, hnear, hX, rfl⟩
    rw [major, if_pos hle, Int.lt_add_one_iff] at hX
    refine ⟨⟨X, hX, rfl⟩, ?_⟩
    dsimp only
    rw [abs_moves hs.sx_cases hX.1, (near_iff_of_flat hle hpos).mp hnear]
  · rintro ⟨⟨X, hX, hx⟩, hy⟩
    rw [hx, abs_moves hs.sx_cases hX.1] at hy
    refine ⟨X, _, (near_iff_of_flat hle hpos).mpr rfl, ?_, Prod.ext hx hy⟩
    rwa [major, if_pos hle, Int.lt_add_one_iff]

/-- The points near a steep line, row by row. -/
theorem stretchPoint_iff_of_steep
    (hs : LineShape dx sx dy sy) (hlt : dx < dy) (p : ℤ × ℤ) :
  StretchPoint x0 y0 dx sx dy sy (max dx dy + 1) p
    ↔ p.2 ∈ Set.uIcc y0 (y0 + sy * dy)
      ∧ p.1 = x0 + sx * nearest (|p.2 - y0| * dx) dy
  := by
  have hpos : 0 < dy := by
    have hdx := hs.dx_nonneg
    omega
  rw [mem_uIcc_iff_moves hs.sy_cases hs.dy_nonneg, max_eq_right (Int.le_of_lt hlt)]
  constructor
  · rintro ⟨X, Y, hnear, hY, rfl⟩
    rw [major, if_neg (not_le.mpr hlt), Int.lt_add_one_iff] at hY
    refine ⟨⟨Y, hY, rfl⟩, ?_⟩
    dsimp only
    rw [abs_moves hs.sy_cases hY.1, (near_iff_of_steep hlt hpos).mp hnear]
  · rintro ⟨⟨Y, hY, hy⟩, hx⟩
    rw [hy, abs_moves hs.sy_cases hY.1] at hx
    refine ⟨_, Y, (near_iff_of_steep hlt hpos).mpr rfl, ?_, Prod.ext hx hy⟩
    rwa [major, if_neg (not_le.mpr hlt), Int.lt_add_one_iff]

/-- `framebuffer_line` visits the points of the line. -/
theorem mem_lineVisits_iff
    {fuel : ℕ} {points : List (ℤ × ℤ)} (h : lineVisits some fuel x0 y0 x1 y1 = some points)
    (p : ℤ × ℤ) :
  p ∈ points ↔ p ∈ lineRegion x0 y0 x1 y1
  := by
  rw [lineVisits, drawLine_eq_run (lineStartExact_some ..)] at h
  rw [lineRegion, Set.mem_ofPred_eq]
  obtain ⟨dx, sx, dy, sy, ⟨hdx, hsx, hdy, hsy⟩, hx1, hy1, hline⟩ := line_cases x0 y0 x1 y1
  rw [hdx, hdy, hsx, hsy] at h ⊢
  rw [hx1, hy1] at h ⊢
  rcases hline with hs | ⟨rfl, rfl⟩
  · have hmem : ∀ p, p ∈ points ↔ StretchPoint x0 y0 dx sx dy sy (max dx dy + 1) p := by
      apply While.run_invariant (I := LineListed x0 y0 dx sx dy sy) _ _ (lineListed_start hs) h
      · exact fun s s' hlisted hstep => hlisted.next hs hstep
      · exact fun s points hlisted hstep => hlisted.leave hs hstep
    rw [hmem p]
    split
    case isTrue hle => apply stretchPoint_iff_of_flat hs hle
    case isFalse hlt => apply stretchPoint_iff_of_steep hs (not_le.mp hlt)
  · -- the line is a single point
    cases fuel with
    | zero => cases h
    | succ fuel =>
        rw [While.run_of_inr (lineStep_end some []), visit, List.nil_append, Option.some_inj] at h
        rw [← h, List.mem_singleton, if_pos (Int.le_refl 0), Int.mul_zero, Int.add_zero,
          Int.mul_zero, Int.add_zero, Set.uIcc_self, Set.mem_singleton_iff, Int.mul_zero,
          nearest_zero, Int.mul_zero, Int.add_zero, Prod.ext_iff]

/-! ### Rectangles -/

/-- The points of a rectangle, which has none when its width or its height is not positive. -/
def rectRegion (x y w h : ℤ) : Set (ℤ × ℤ) :=
  { p | (x ≤ p.1 ∧ p.1 < x + w) ∧ y ≤ p.2 ∧ p.2 < y + h }

/-- The points of a rectangle, row by row. -/
def rectPoints (x y w h : ℤ) : List (ℤ × ℤ) :=
  (Int.range y (y + h)).flatMap fun row => (Int.range x (x + w)).map fun col => (col, row)

theorem mem_rectPoints_iff {x y w h : ℤ} (p : ℤ × ℤ) :
  p ∈ rectPoints x y w h ↔ p ∈ rectRegion x y w h
  := by
  obtain ⟨col, row⟩ := p
  simp only [rectPoints, List.mem_flatMap, List.mem_map, Int.mem_range_iff, Prod.mk.injEq]
  constructor
  · rintro ⟨row, hrow, col, hcol, rfl, rfl⟩
    exact ⟨hcol, hrow⟩
  · rintro ⟨hcol, hrow⟩
    exact ⟨row, hrow, col, hcol, rfl, rfl⟩

variable {σ : Type} {plot : ℤ → ℤ → σ → σ}

theorem range_of_ge {i b : ℤ} (h : b ≤ i) :
  Int.range i b = []
  := by
  rw [Int.range, Int.toNat_of_nonpos (by omega)]
  rfl

theorem range_of_lt {i b : ℤ} (h : i < b) :
  Int.range i b = i :: Int.range (i + 1) b
  := by
  rw [Int.range, Int.range, show (b - i).toNat = (b - (i + 1)).toNat + 1 by omega,
    List.range_succ_eq_map, List.map_cons, List.map_map, Nat.cast_zero, Int.add_zero]
  congr 1
  apply List.map_congr_left
  intro n _
  dsimp only [Function.comp_apply]
  omega

/-- A loop whose rounds draw points draws the points of all rounds. -/
theorem run_forStep_eq_drawn
    {a n i : ℤ} {body : ℤ → σ → Option σ} {points : ℤ → List (ℤ × ℤ)}
    (hbody : ∀ j canvas, body j canvas = some (drawn plot canvas (points j))) {fuel : ℕ}
    (hfuel : (a + n - i).toNat < fuel) (canvas : σ) :
  While.run (forStep some a n body) fuel (i, canvas)
    = some (drawn plot canvas ((Int.range i (a + n)).flatMap points))
  := by
  induction fuel generalizing i canvas with
  | zero => exact absurd hfuel (Nat.not_lt_zero _)
  | succ fuel ih =>
      rcases lt_or_ge i (a + n) with hlt | hge
      · have hstep : forStep some a n body (i, canvas)
            = some (.inl (i + 1, drawn plot canvas (points i))) := by
          rw [forStep, Option.bind_some, if_pos hlt, hbody]
          rfl
        rw [While.run_of_inl hstep, ih (by omega), range_of_lt hlt, List.flatMap_cons, drawn, drawn,
          drawn, List.foldl_append]
      · have hstep : forStep some a n body (i, canvas) = some (.inr canvas) := by
          rw [forStep, Option.bind_some, if_neg (not_lt.mpr hge)]
        rw [While.run_of_inr hstep, range_of_ge hge]
        rfl

/-- `framebuffer_fill_rect` draws the points of the rectangle. -/
theorem drawRect_eq_drawn
    (plot : ℤ → ℤ → σ → σ) (canvas : σ) (x y w h : ℤ) {fuel : ℕ} (hw : w.toNat < fuel)
    (hh : h.toNat < fuel) :
  drawRect some plot fuel canvas x y w h = some (drawn plot canvas (rectPoints x y w h))
  := by
  apply run_forStep_eq_drawn _ (by rwa [add_sub_cancel_left])
  intro row canvas
  have hrow : ∀ col (canvas : σ),
      some (plot col row canvas) = some (drawn plot canvas [(col, row)]) := fun _ _ => rfl
  rw [run_forStep_eq_drawn hrow, ← List.map_eq_flatMap]
  rwa [add_sub_cancel_left]

/-! ### Circles -/

/-- The points of a circle: with the larger one `x` and the smaller one `y` of the distances from
its centre along the axes, those with `x ^ 2 - x + y ^ 2 ≤ r ^ 2 < x ^ 2 + x + y ^ 2`. -/
def circleRegion (cx cy r : ℤ) : Set (ℤ × ℤ) :=
  { p | (r = 0 ∧ p = (cx, cy))
      ∨ 0 < r ∧ Closest r (max |p.1 - cx| |p.2 - cy|) (min |p.1 - cx| |p.2 - cy|) }

variable {cx cy r x y : ℤ}

/-- The reflections of a point of an octant are the points whose distances from the centre are its
coordinates. -/
theorem mem_reflections_iff (hy : 0 ≤ Y) (hle : Y ≤ X) (p : ℤ × ℤ) :
  p ∈ reflections cx cy (X, Y) ↔ max |p.1 - cx| |p.2 - cy| = X ∧ min |p.1 - cx| |p.2 - cy| = Y
  := by
  obtain ⟨a, b⟩ := p
  have habs : ∀ {u c n : ℤ}, 0 ≤ n → (|u - c| = n ↔ u = c + n ∨ u = c - n) := by
    intro u c n hn
    rw [abs_eq hn]
    omega
  have hsort : ∀ {u v : ℤ}, max u v = X ∧ min u v = Y ↔ u = X ∧ v = Y ∨ u = Y ∧ v = X := by
    omega
  simp only [hsort, habs hy, habs (le_trans hy hle), reflections, List.mem_cons, List.not_mem_nil,
    Prod.mk.injEq, or_false]
  constructor
  · rintro (⟨rfl, rfl⟩ | ⟨rfl, rfl⟩ | ⟨rfl, rfl⟩ | ⟨rfl, rfl⟩ | ⟨rfl, rfl⟩ | ⟨rfl, rfl⟩ |
      ⟨rfl, rfl⟩ | ⟨rfl, rfl⟩) <;> simp
  · rintro (⟨rfl | rfl, rfl | rfl⟩ | ⟨rfl | rfl, rfl | rfl⟩) <;> simp

/-- The points whose distances from the centre are those of a point of the circle in a row below
`y`. -/
def RowsPoint (cx cy r y : ℤ) (p : ℤ × ℤ) : Prop :=
  ∃ X Y, Closest r X Y ∧ (0 ≤ Y ∧ Y ≤ X) ∧ Y < y ∧ p ∈ reflections cx cy (X, Y)

/-- With one row more there are the reflections of one point more. -/
theorem rowsPoint_succ (h : Closest r x y) (hy : 0 ≤ y) (hle : y ≤ x) (p : ℤ × ℤ) :
  RowsPoint cx cy r (y + 1) p ↔ RowsPoint cx cy r y p ∨ p ∈ reflections cx cy (x, y)
  := by
  constructor
  · rintro ⟨X, Y, hclosest, hY, hlt, hp⟩
    rcases Int.lt_or_eq_of_le (Int.lt_add_one_iff.mp hlt) with hlt | rfl
    · left
      exact ⟨X, Y, hclosest, hY, hlt, hp⟩
    · right
      rwa [h.eq_of_row hclosest (le_trans hy hle) (le_trans hy hY.2)]
  · rintro (⟨X, Y, hclosest, hY, hlt, hp⟩ | hp)
    · exact ⟨X, Y, hclosest, hY, Int.lt_add_one_of_le (Int.le_of_lt hlt), hp⟩
    · exact ⟨x, y, h, ⟨hy, hle⟩, Int.lt_succ y, hp⟩

/-- The loop has listed the reflections of the points of the circle below the row at which it
is. -/
def CircleListed (cx cy r : ℤ) (s : CircleState (List (ℤ × ℤ))) : Prop :=
  ∃ x y, (y ≤ x → Closest r x y) ∧ r ^ 2 < x ^ 2 + x + y ^ 2 ∧ (-1 ≤ x ∧ 0 ≤ y)
    ∧ s = circleAt r x y s.canvas ∧ ∀ p, p ∈ s.canvas ↔ RowsPoint cx cy r y p

theorem circleListed_start (hr : 0 < r) :
  CircleListed cx cy r (circleAt r r 0 [])
  := by
  have hlt : r ^ 2 < r ^ 2 + r + 0 ^ 2 := by linarith
  have hle : r ^ 2 - r + 0 ^ 2 ≤ r ^ 2 := by linarith
  refine ⟨r, 0, fun _ => ⟨hle, hlt⟩, hlt, by omega, rfl, ?_⟩
  intro p
  apply iff_of_false List.not_mem_nil
  rintro ⟨X, Y, -, ⟨hY, -⟩, hlt, -⟩
  omega

theorem mem_drawn_visit (points points' : List (ℤ × ℤ)) (p : ℤ × ℤ) :
  p ∈ drawn visit points points' ↔ p ∈ points ∨ p ∈ points'
  := by
  rw [drawn_visit, List.mem_append]

/-- A round above the diagonal lists the reflections of the point at which the loop is. -/
theorem CircleListed.next
    {s s' : CircleState (List (ℤ × ℤ))} (h : CircleListed cx cy r s)
    (hstep : circleStep some visit cx cy s = some (.inl s')) :
  CircleListed cx cy r s'
  := by
  obtain ⟨x, y, hclosest, houter, ⟨hx, hy⟩, hs, hpoints⟩ := h
  rw [hs] at hstep
  rcases lt_or_ge x y with hlt | hle
  · rw [circleStep_end some _ hlt] at hstep
    cases hstep
  · rw [circleStep_next (circleRoundExact_some ..) _ hle] at hstep
    cases hstep
    have hcases := nextColumn_cases r x y
    have houter' : r ^ 2 < nextColumn r x y ^ 2 + nextColumn r x y + (y + 1) ^ 2 :=
      outer_next houter hy rfl
    refine ⟨_, _, ?_, houter', by omega, rfl, ?_⟩
    · intro hle'
      have hnext := OnCircle.next ⟨(hclosest hle).inner, Int.le_of_lt houter⟩ hy rfl hle'
      exact ⟨hnext.inner, houter'⟩
    · intro p
      rw [rowsPoint_succ (hclosest hle) hy hle, ← hpoints p]
      apply mem_drawn_visit

/-- Past the diagonal the reflections of all points are listed. -/
theorem CircleListed.leave
    {s : CircleState (List (ℤ × ℤ))} {points : List (ℤ × ℤ)} (h : CircleListed cx cy r s)
    (hr : 0 < r) (hstep : circleStep some visit cx cy s = some (.inr points)) (p : ℤ × ℤ) :
  p ∈ points ↔ p ∈ circleRegion cx cy r
  := by
  obtain ⟨x, y, hclosest, houter, ⟨hx, hy⟩, hs, hpoints⟩ := h
  rw [hs] at hstep
  rcases lt_or_ge x y with hlt | hle
  · rw [circleStep_end some _ hlt] at hstep
    cases hstep
    rw [hpoints p]
    constructor
    · rintro ⟨X, Y, hXY, ⟨hY, hle⟩, -, hp⟩
      obtain ⟨hmax, hmin⟩ := (mem_reflections_iff hY hle p).mp hp
      right
      rw [hmax, hmin]
      exact ⟨hr, hXY⟩
    · rintro (⟨rfl, -⟩ | ⟨-, hXY⟩)
      · omega
      · have hY : 0 ≤ min |p.1 - cx| |p.2 - cy| := le_min (abs_nonneg _) (abs_nonneg _)
        refine ⟨_, _, hXY, ⟨hY, min_le_max⟩, ?_, ?_⟩
        · by_contra hge
          exact not_closest_of_beyond houter hx hlt (not_lt.mp hge) min_le_max hXY
        · rw [mem_reflections_iff hY min_le_max]
          exact ⟨rfl, rfl⟩
  · rw [circleStep_next (circleRoundExact_some ..) _ hle] at hstep
    cases hstep

/-- The circle of radius zero is its centre. -/
theorem mem_circleVisits_zero
    {fuel : ℕ} {points : List (ℤ × ℤ)} (h : circleVisits some fuel cx cy 0 = some points)
    (p : ℤ × ℤ) :
  p ∈ points ↔ p = (cx, cy)
  := by
  have hstart : circleVisits some fuel cx cy 0
      = While.run (circleStep some visit cx cy) fuel (circleAt 0 0 0 []) := rfl
  have hcolumn : nextColumn 0 0 0 = -1 := by decide
  rw [hstart] at h
  cases fuel with
  | zero => cases h
  | succ fuel =>
      rw [While.run_of_inl (circleStep_next (circleRoundExact_some ..) [] (Int.le_refl 0)),
        hcolumn] at h
      cases fuel with
      | zero => cases h
      | succ fuel =>
          rw [While.run_of_inr (circleStep_end some _ (by decide)), Option.some_inj] at h
          rw [← h, mem_drawn_visit, or_iff_right List.not_mem_nil]
          simp only [reflections, Int.add_zero, Int.sub_zero, List.mem_cons, List.not_mem_nil,
            or_false, or_self]

/-- `framebuffer_circle` visits the points of the circle. -/
theorem mem_circleVisits_iff
    {fuel : ℕ} {points : List (ℤ × ℤ)} (h : circleVisits some fuel cx cy r = some points)
    (p : ℤ × ℤ) :
  p ∈ points ↔ p ∈ circleRegion cx cy r
  := by
  have hstart : circleVisits some fuel cx cy r
      = While.run (circleStep some visit cx cy) fuel (circleAt r r 0 []) := by
    rw [circleAt, decision_zero]
    rfl
  rcases lt_trichotomy r 0 with hr | rfl | hr
  · -- the loop is left at once
    rw [hstart] at h
    cases fuel with
    | zero => cases h
    | succ fuel =>
        rw [While.run_of_inr (circleStep_end some [] hr), Option.some_inj] at h
        rw [← h]
        apply iff_of_false List.not_mem_nil
        rintro (⟨rfl, -⟩ | ⟨hpos, -⟩) <;> omega
  · rw [mem_circleVisits_zero h p, circleRegion]
    constructor
    · exact fun hp => .inl ⟨rfl, hp⟩
    · rintro (⟨-, hp⟩ | ⟨hpos, -⟩)
      · exact hp
      · omega
  · have hmem : ∀ p, p ∈ points ↔ p ∈ circleRegion cx cy r := by
      rw [hstart] at h
      apply While.run_invariant (I := CircleListed cx cy r) _ _ (circleListed_start hr) h
      · exact fun s s' hlisted hstep => hlisted.next hstep
      · exact fun s points hlisted hstep => hlisted.leave hr hstep
    apply hmem p

end CTemplate

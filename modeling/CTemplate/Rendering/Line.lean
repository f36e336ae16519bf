import CTemplate.Library.Raster
import CTemplate.Library.While
import CTemplate.Rendering.Framebuffer
import Mathlib.Data.List.Chain

/-!
# Lines

The loop of `framebuffer_line`, with its one error term for both coordinates.  Without bounds on
integers, it visits one point in every column of a flat line and one in every row of a steep one,
each within half a pixel of the line.
-/

namespace CTemplate

open Raster

/-- What the loop of `framebuffer_line` changes. -/
structure LineState (σ : Type) where
  x0 : ℤ
  y0 : ℤ
  err : ℤ
  canvas : σ

/-- Add `d` to the error and `s` to a coordinate, if `move` holds. -/
def lineMove (int : ℤ → Option ℤ) (move : Bool) (err d x s : ℤ) : Option (ℤ × ℤ) :=
  if move then (int (err + d)).bind fun err => (int (x + s)).map fun x => (err, x)
  else some (err, x)

/-- One round of the loop of `framebuffer_line`. -/
def lineStep {σ : Type} (int : ℤ → Option ℤ) (plot : ℤ → ℤ → σ → σ) (x1 y1 dx sx dy sy : ℤ)
    (s : LineState σ) : Option (LineState σ ⊕ σ) :=
  let canvas := plot s.x0 s.y0 s.canvas
  if s.x0 = x1 ∧ s.y0 = y1 then some (.inr canvas)
  else
    (int (2 * s.err)).bind fun e2 =>
      (lineMove int (e2 ≥ dy) s.err dy s.x0 sx).bind fun (err, x0) =>
        (lineMove int (e2 ≤ dx) err dx s.y0 sy).map fun (err, y0) =>
          .inl { x0, y0, err, canvas }

/-- The direction of a line from one coordinate to another. -/
def lineSign (a b : ℤ) : ℤ :=
  if a < b then 1 else -1

/-- The body of `framebuffer_line`, for any kind of picture. -/
def drawLine {σ : Type} (int : ℤ → Option ℤ) (plot : ℤ → ℤ → σ → σ) (fuel : ℕ) (canvas : σ)
    (x0 y0 x1 y1 : ℤ) : Option σ :=
  ((int (x1 - x0)).bind (absInt int)).bind fun dx =>
    (((int (y1 - y0)).bind (absInt int)).bind fun a => int (-a)).bind fun dy =>
      (int (dx + dy)).bind fun err =>
        While.run (lineStep int plot x1 y1 dx (lineSign x0 x1) dy (lineSign y0 y1)) fuel
          { x0, y0, err, canvas }

/-- `framebuffer_line`, with a loop of at most `fuel` rounds. -/
def framebufferLine (int : ℤ → Option ℤ) (fuel : ℕ) (fb : Framebuffer) (x0 y0 x1 y1 : ℤ)
    (color : UInt32) : Option Framebuffer :=
  drawLine int (fun x y fb => framebufferSetPixel fb x y color) fuel fb x0 y0 x1 y1

/-- The points that `framebuffer_line` visits. -/
def lineVisits (int : ℤ → Option ℤ) (fuel : ℕ) (x0 y0 x1 y1 : ℤ) : Option (List (ℤ × ℤ)) :=
  drawLine int visit fuel [] x0 y0 x1 y1

/-! ### One round -/

variable {σ : Type} {x y x0 y0 x1 y1 dx dy sx sy X Y : ℤ} {plot : ℤ → ℤ → σ → σ}

/-- The loop when it has moved `X` times along x and `Y` times along y. -/
def lineAt (x0 y0 dx sx dy sy X Y : ℤ) (canvas : σ) : LineState σ where
  x0 := x0 + sx * X
  y0 := y0 + sy * Y
  err := dx - dy - offset dx dy X Y
  canvas := canvas

/-- The number of moves along x after a round. -/
def nextX (dx dy X Y : ℤ) : ℤ :=
  if 2 * (dx - dy - offset dx dy X Y) ≥ -dy then X + 1 else X

/-- The number of moves along y after a round. -/
def nextY (dx dy X Y : ℤ) : ℤ :=
  if 2 * (dx - dy - offset dx dy X Y) ≤ dx then Y + 1 else Y

theorem column_nextX (a s dx dy X Y : ℤ) :
  a + s * nextX dx dy X Y
    = if 2 * (dx - dy - offset dx dy X Y) ≥ -dy then a + s * X + s else a + s * X
  := by
  rw [nextX]
  split <;> ring

theorem row_nextY (a s dx dy X Y : ℤ) :
  a + s * nextY dx dy X Y
    = if 2 * (dx - dy - offset dx dy X Y) ≤ dx then a + s * Y + s else a + s * Y
  := by
  rw [nextY]
  split <;> ring

/-- The error after the move along x. -/
theorem err_nextX (dx dy X Y : ℤ) :
  dx - dy - offset dx dy (nextX dx dy X Y) Y
    = if 2 * (dx - dy - offset dx dy X Y) ≥ -dy then dx - dy - offset dx dy X Y + -dy
      else dx - dy - offset dx dy X Y
  := by
  rw [nextX]
  split
  · rw [offset_succ_left]
    ring
  · rfl

/-- The error after the move along y. -/
theorem err_nextY (dx dy X Y X' : ℤ) :
  dx - dy - offset dx dy X' (nextY dx dy X Y)
    = if 2 * (dx - dy - offset dx dy X Y) ≤ dx then dx - dy - offset dx dy X' Y + dx
      else dx - dy - offset dx dy X' Y
  := by
  rw [nextY]
  split
  · rw [offset_succ_right]
    ring
  · rfl

/-- What is computed in a round of the loop gives its exact result. -/
structure LineRoundExact (int : ℤ → Option ℤ) (x0 y0 dx sx dy sy X Y : ℤ) : Prop where
  twice : Exact int (2 * (dx - dy - offset dx dy X Y))
  first : Exact int (dx - dy - offset dx dy (nextX dx dy X Y) Y)
  second : Exact int (dx - dy - offset dx dy (nextX dx dy X Y) (nextY dx dy X Y))
  column : Exact int (x0 + sx * nextX dx dy X Y)
  row : Exact int (y0 + sy * nextY dx dy X Y)

theorem lineRoundExact_some (x0 y0 dx sx dy sy X Y : ℤ) :
  LineRoundExact some x0 y0 dx sx dy sy X Y
  := by
  constructor <;> apply exact_some

theorem lineMove_eq
    {int : ℤ → Option ℤ} {move : Bool} {err d x s err' x' : ℤ} (herr : Exact int err')
    (hx : Exact int x') (herr' : err' = if move then err + d else err)
    (hx' : x' = if move then x + s else x) :
  lineMove int move err d x s = some (err', x')
  := by
  rw [lineMove]
  split
  case isTrue hmove =>
    rw [if_pos hmove] at herr' hx'
    rw [← herr', ← hx', herr, Option.bind_some, hx]
    rfl
  case isFalse hmove =>
    rw [if_neg hmove] at herr' hx'
    rw [herr', hx']

/-- A round away from the end of the line moves along the coordinates that the error asks for. -/
theorem lineStep_next
    {int : ℤ → Option ℤ} (h : LineRoundExact int x0 y0 dx sx dy sy X Y) (canvas : σ)
    (hend : ¬ (x0 + sx * X = x1 ∧ y0 + sy * Y = y1)) :
  lineStep int plot x1 y1 dx sx (-dy) sy (lineAt x0 y0 dx sx dy sy X Y canvas)
    = some (.inl (lineAt x0 y0 dx sx dy sy (nextX dx dy X Y) (nextY dx dy X Y)
        (plot (x0 + sx * X) (y0 + sy * Y) canvas)))
  := by
  have hend' : ¬ (LineState.x0 (lineAt x0 y0 dx sx dy sy X Y canvas) = x1
      ∧ LineState.y0 (lineAt x0 y0 dx sx dy sy X Y canvas) = y1) := hend
  rw [lineStep, if_neg hend']
  dsimp only [lineAt]
  rw [h.twice, Option.bind_some, lineMove_eq h.first h.column, Option.bind_some,
    lineMove_eq h.second h.row, Option.map_some]
  · simp only [decide_eq_true_eq, err_nextY]
  · simp only [decide_eq_true_eq, row_nextY]
  · simp only [decide_eq_true_eq, err_nextX]
  · simp only [decide_eq_true_eq, column_nextX]

/-- At the end of the line the loop is left. -/
theorem lineStep_end (int : ℤ → Option ℤ) (canvas : σ) :
  lineStep int plot (x0 + sx * dx) (y0 + sy * dy) dx sx (-dy) sy
      (lineAt x0 y0 dx sx dy sy dx dy canvas)
    = some (.inr (plot (x0 + sx * dx) (y0 + sy * dy) canvas))
  := if_pos ⟨rfl, rfl⟩

/-! ### All rounds -/

/-- Two successive points of a line are neighbours, and the coordinate in which the line is longer
moves. -/
structure LineMoves (dx dy : ℤ) (p q : ℤ × ℤ) : Prop where
  x_le : |q.1 - p.1| ≤ 1
  y_le : |q.2 - p.2| ≤ 1
  x_moves : dy ≤ dx → q.1 ≠ p.1
  y_moves : dx ≤ dy → q.2 ≠ p.2

/-- The point is at most half a pixel away from the line of the extents `dx` and `dy` from
`(x0, y0)`. -/
def WithinHalf (x0 y0 dx dy : ℤ) (p : ℤ × ℤ) : Prop :=
  2 * |(dx * |p.2 - y0| - dy * |p.1 - x0|)| ≤ max dx dy

/-- The points from one on a line to its end. -/
structure LinePoints (x0 y0 dx sx dy sy X Y : ℤ) (m : ℕ) (points : List (ℤ × ℤ)) : Prop where
  length_eq : points.length = m + 1
  head_eq : points.head? = some (x0 + sx * X, y0 + sy * Y)
  last_eq : points.getLast? = some (x0 + sx * dx, y0 + sy * dy)
  moves : points.IsChain (LineMoves dx dy)
  near : ∀ p ∈ points, WithinHalf x0 y0 dx dy p

/-- The extents of a line of more than one point, and its directions. -/
structure LineShape (dx sx dy sy : ℤ) : Prop where
  dx_nonneg : 0 ≤ dx
  dy_nonneg : 0 ≤ dy
  pos : 0 < dx ∨ 0 < dy
  sx_cases : sx = 1 ∨ sx = -1
  sy_cases : sy = 1 ∨ sy = -1

/-- The loop is at a point near the line with `m` moves to go. -/
structure LineUnderway (dx dy X Y : ℤ) (m : ℕ) : Prop where
  near : Near dx dy X Y
  x_nonneg : 0 ≤ X
  y_nonneg : 0 ≤ Y
  x_left : dy ≤ dx → X + m = dx
  y_left : dx ≤ dy → Y + m = dy

theorem withinHalf_of_near
    (h : Near dx dy X Y) (hs : LineShape dx sx dy sy) (hX : 0 ≤ X) (hY : 0 ≤ Y) :
  WithinHalf x0 y0 dx dy (x0 + sx * X, y0 + sy * Y)
  := by
  have habs : ∀ a s n : ℤ, s = 1 ∨ s = -1 → 0 ≤ n → |a + s * n - a| = n := by
    intro a s n hs hn
    rw [add_sub_cancel_left]
    rcases hs with rfl | rfl
    · rw [Int.one_mul, abs_of_nonneg hn]
    · rw [Int.neg_one_mul, abs_neg, abs_of_nonneg hn]
  have hoff : dx * Y - dy * X = -offset dx dy X Y := by
    rw [offset]
    ring
  rw [WithinHalf, habs x0 sx X hs.sx_cases hX, habs y0 sy Y hs.sy_cases hY, hoff, abs_neg]
  apply h.abs_le

theorem LineShape.start (hs : LineShape dx sx dy sy) :
  LineUnderway dx dy 0 0 (max dx dy).toNat
  where
  near := near_zero hs.dx_nonneg hs.pos
  x_nonneg := Int.le_refl 0
  y_nonneg := Int.le_refl 0
  x_left := by
    have hdx := hs.dx_nonneg
    omega
  y_left := by
    have hdy := hs.dy_nonneg
    omega

/-- With no moves to go, the loop is at the end of the line. -/
theorem LineUnderway.eq_end (h : LineUnderway dx dy X Y 0) (hs : LineShape dx sx dy sy) :
  X = dx ∧ Y = dy
  := by
  have hend := near_end hs.dx_nonneg hs.pos
  rcases le_or_gt dy dx with hle | hlt
  · obtain rfl : X = dx := by simpa using h.x_left hle
    exact ⟨rfl, h.near.eq_of_flat hend hle⟩
  · obtain rfl : Y = dy := by simpa using h.y_left (Int.le_of_lt hlt)
    exact ⟨h.near.eq_of_steep hend hlt, rfl⟩

/-- With moves to go, the loop is not at the end of the line. -/
theorem LineUnderway.ne_end
    {m : ℕ} (h : LineUnderway dx dy X Y (m + 1)) (hs : LineShape dx sx dy sy) (x0 y0 : ℤ) :
  ¬ (x0 + sx * X = x0 + sx * dx ∧ y0 + sy * Y = y0 + sy * dy)
  := by
  rintro ⟨hx, hy⟩
  have hX := h.x_left
  have hY := h.y_left
  rcases hs.sx_cases with rfl | rfl <;> rcases hs.sy_cases with rfl | rfl <;> omega

theorem nextX_cases (dx dy X Y : ℤ) :
  nextX dx dy X Y = X ∨ nextX dx dy X Y = X + 1
  := by
  rw [nextX]
  split
  · exact .inr rfl
  · exact .inl rfl

theorem nextY_cases (dx dy X Y : ℤ) :
  nextY dx dy X Y = Y ∨ nextY dx dy X Y = Y + 1
  := by
  rw [nextY]
  split
  · exact .inr rfl
  · exact .inl rfl

/-- A round makes one of the moves to go. -/
theorem LineUnderway.next
    {m : ℕ} (h : LineUnderway dx dy X Y (m + 1)) (hs : LineShape dx sx dy sy) :
  LineUnderway dx dy (nextX dx dy X Y) (nextY dx dy X Y) m
    ∧ (dy ≤ dx → nextX dx dy X Y = X + 1) ∧ (dx ≤ dy → nextY dx dy X Y = Y + 1)
  := by
  obtain ⟨hnear, hnextX, hnextY⟩ : Near dx dy (nextX dx dy X Y) (nextY dx dy X Y)
      ∧ (dy ≤ dx → nextX dx dy X Y = X + 1) ∧ (dx ≤ dy → nextY dx dy X Y = Y + 1) :=
    h.near.next hs.dx_nonneg hs.dy_nonneg rfl rfl rfl
  have hcasesX := nextX_cases dx dy X Y
  have hcasesY := nextY_cases dx dy X Y
  have hX := h.x_left
  have hY := h.y_left
  have hX₀ := h.x_nonneg
  have hY₀ := h.y_nonneg
  refine ⟨⟨hnear, ?_, ?_, ?_, ?_⟩, hnextX, hnextY⟩
  · omega
  · omega
  · intro hle
    rw [hnextX hle]
    omega
  · intro hle
    rw [hnextY hle]
    omega

/-- The points before and after a round are neighbours. -/
theorem LineUnderway.lineMoves
    {m : ℕ} (h : LineUnderway dx dy X Y (m + 1)) (hs : LineShape dx sx dy sy) (x0 y0 : ℤ) :
  LineMoves dx dy (x0 + sx * X, y0 + sy * Y)
    (x0 + sx * nextX dx dy X Y, y0 + sy * nextY dx dy X Y)
  := by
  obtain ⟨-, hnextX, hnextY⟩ := h.next hs
  have hcasesX := nextX_cases dx dy X Y
  have hcasesY := nextY_cases dx dy X Y
  constructor <;> dsimp only
  · rw [abs_le]
    rcases hs.sx_cases with rfl | rfl <;> omega
  · rw [abs_le]
    rcases hs.sy_cases with rfl | rfl <;> omega
  · intro hle
    rw [hnextX hle]
    rcases hs.sx_cases with rfl | rfl <;> omega
  · intro hle
    rw [hnextY hle]
    rcases hs.sy_cases with rfl | rfl <;> omega

/-- From a point near the line, the loop draws the points of the line up to its end. -/
theorem exists_lineRun
    (hs : LineShape dx sx dy sy) {m : ℕ} (h : LineUnderway dx dy X Y m) (x0 y0 : ℤ) :
  ∃ points, LinePoints x0 y0 dx sx dy sy X Y m points
    ∧ ∀ {σ : Type} (plot : ℤ → ℤ → σ → σ) (canvas : σ) {fuel : ℕ}, m < fuel →
      While.run (lineStep some plot (x0 + sx * dx) (y0 + sy * dy) dx sx (-dy) sy) fuel
          (lineAt x0 y0 dx sx dy sy X Y canvas)
        = some (drawn plot canvas points)
  := by
  have hhere : WithinHalf x0 y0 dx dy (x0 + sx * X, y0 + sy * Y) :=
    withinHalf_of_near h.near hs h.x_nonneg h.y_nonneg
  induction m generalizing X Y with
  | zero =>
      obtain ⟨rfl, rfl⟩ := h.eq_end hs
      refine ⟨[(x0 + sx * X, y0 + sy * Y)], ⟨rfl, rfl, rfl, List.isChain_singleton _, ?_⟩, ?_⟩
      · intro p hp
        rw [List.mem_singleton.mp hp]
        exact hhere
      · intro σ plot canvas fuel hfuel
        obtain ⟨fuel, rfl⟩ := Nat.exists_eq_succ_of_ne_zero (Nat.ne_of_gt hfuel)
        apply While.run_of_inr (lineStep_end some canvas)
  | succ m ih =>
      obtain ⟨hnext, -⟩ := h.next hs
      obtain ⟨points, hpoints, hrun⟩ :=
        ih hnext (withinHalf_of_near hnext.near hs hnext.x_nonneg hnext.y_nonneg)
      refine ⟨(x0 + sx * X, y0 + sy * Y) :: points, ⟨?_, rfl, ?_, ?_, ?_⟩, ?_⟩
      · rw [List.length_cons, hpoints.length_eq]
      · rw [List.getLast?_cons, hpoints.last_eq, Option.getD_some]
      · rw [List.isChain_cons]
        use ?_, hpoints.moves
        intro q hq
        rw [hpoints.head_eq, Option.mem_some_iff] at hq
        subst hq
        apply h.lineMoves hs
      · intro p hp
        rcases List.mem_cons.mp hp with rfl | hp
        · exact hhere
        · apply hpoints.near p hp
      · intro σ plot canvas fuel hfuel
        obtain ⟨fuel, rfl⟩ := Nat.exists_eq_succ_of_ne_zero (Nat.ne_of_gt (Nat.zero_lt_of_lt hfuel))
        rw [While.run_of_inl (lineStep_next (lineRoundExact_some ..) canvas (h.ne_end hs x0 y0)),
          hrun plot _ (Nat.lt_of_succ_lt_succ hfuel)]
        rfl

/-! ### Lines between two points -/

theorem lineSign_cases (a b : ℤ) :
  lineSign a b = 1 ∨ lineSign a b = -1
  := by
  rw [lineSign]
  split
  · exact .inl rfl
  · exact .inr rfl

/-- A line goes by its extent in its direction. -/
theorem add_lineSign_mul (a b : ℤ) :
  a + lineSign a b * |b - a| = b
  := by
  rw [lineSign]
  split
  case isTrue hlt =>
    rw [abs_of_pos (by omega)]
    omega
  case isFalse hge =>
    rw [abs_of_nonpos (by omega)]
    omega

/-- A line has a shape or is a single point. -/
theorem line_cases (x0 y0 x1 y1 : ℤ) :
  ∃ dx sx dy sy, (|x1 - x0| = dx ∧ lineSign x0 x1 = sx ∧ |y1 - y0| = dy ∧ lineSign y0 y1 = sy)
    ∧ x1 = x0 + sx * dx ∧ y1 = y0 + sy * dy
    ∧ (LineShape dx sx dy sy ∨ dx = 0 ∧ dy = 0)
  := by
  refine ⟨_, _, _, _, ⟨rfl, rfl, rfl, rfl⟩, (add_lineSign_mul x0 x1).symm,
    (add_lineSign_mul y0 y1).symm, ?_⟩
  have hdx : 0 ≤ |x1 - x0| := abs_nonneg _
  have hdy : 0 ≤ |y1 - y0| := abs_nonneg _
  by_cases hpos : 0 < |x1 - x0| ∨ 0 < |y1 - y0|
  · left
    exact ⟨hdx, hdy, hpos, lineSign_cases x0 x1, lineSign_cases y0 y1⟩
  · right
    omega

/-- What is computed before the loop gives its exact result. -/
structure LineStartExact (int : ℤ → Option ℤ) (x0 y0 x1 y1 : ℤ) : Prop where
  x_sub : Exact int (x1 - x0)
  x_abs : Exact int |x1 - x0|
  y_sub : Exact int (y1 - y0)
  y_abs : Exact int |y1 - y0|
  y_neg : Exact int (-|y1 - y0|)
  err : Exact int (|x1 - x0| + -|y1 - y0|)

/-- The loop starts with no moves made. -/
theorem drawLine_eq_run
    {int : ℤ → Option ℤ} (h : LineStartExact int x0 y0 x1 y1) (plot : ℤ → ℤ → σ → σ) (fuel : ℕ)
    (canvas : σ) :
  drawLine int plot fuel canvas x0 y0 x1 y1
    = While.run (lineStep int plot x1 y1 |x1 - x0| (lineSign x0 x1) (-|y1 - y0|) (lineSign y0 y1))
        fuel (lineAt x0 y0 |x1 - x0| (lineSign x0 x1) |y1 - y0| (lineSign y0 y1) 0 0 canvas)
  := by
  rw [drawLine, h.x_sub, Option.bind_some, absInt, h.x_abs, Option.bind_some, h.y_sub,
    Option.bind_some, absInt, h.y_abs, Option.bind_some, h.y_neg, Option.bind_some, h.err,
    Option.bind_some, lineAt, offset_zero, Int.mul_zero, Int.mul_zero, Int.add_zero, Int.add_zero,
    Int.sub_zero]
  rfl

theorem lineStartExact_some (x0 y0 x1 y1 : ℤ) :
  LineStartExact some x0 y0 x1 y1
  := by
  constructor <;> apply exact_some

/-- The points of the line between two points, which `framebuffer_line` draws in their order. -/
theorem exists_drawLine (x0 y0 x1 y1 : ℤ) :
  ∃ points,
    LinePoints x0 y0 |x1 - x0| (lineSign x0 x1) |y1 - y0| (lineSign y0 y1) 0 0
        (max |x1 - x0| |y1 - y0|).toNat points
      ∧ ∀ {σ : Type} (plot : ℤ → ℤ → σ → σ) (canvas : σ) {fuel : ℕ}, points.length ≤ fuel →
        drawLine some plot fuel canvas x0 y0 x1 y1
          = some (drawn plot canvas points)
  := by
  simp only [drawLine_eq_run (lineStartExact_some ..)]
  obtain ⟨dx, sx, dy, sy, ⟨hdx, hsx, hdy, hsy⟩, rfl, rfl, hline⟩ := line_cases x0 y0 x1 y1
  simp only [hdx, hsx, hdy, hsy]
  rcases hline with hs | ⟨rfl, rfl⟩
  · obtain ⟨points, hpoints, hrun⟩ := exists_lineRun hs hs.start x0 y0
    refine ⟨points, hpoints, ?_⟩
    intro σ plot canvas fuel hfuel
    apply hrun
    rw [hpoints.length_eq] at hfuel
    apply hfuel
  · -- the line is a single point
    refine ⟨[(x0 + sx * 0, y0 + sy * 0)], ⟨rfl, rfl, rfl, List.isChain_singleton _, ?_⟩, ?_⟩
    · intro p hp
      rw [WithinHalf, Int.zero_mul, Int.zero_mul]
      decide
    · intro σ plot canvas fuel hfuel
      obtain ⟨fuel, rfl⟩ := Nat.exists_eq_succ_of_ne_zero (Nat.ne_of_gt hfuel)
      apply While.run_of_inr (lineStep_end some canvas)

/-- Without bounds on integers, `framebuffer_line` ends, after as many moves as the line is long in
its major coordinate: it visits its start first and its end last, each move goes to a neighbour,
moves the major coordinate and stays within half a pixel of the line, and the points visited are
the pixels set. -/
theorem framebufferLine_points (x0 y0 x1 y1 : ℤ) :
  ∃ points,
    (∀ fuel, points.length ≤ fuel → lineVisits some fuel x0 y0 x1 y1 = some points)
      ∧ (points.length : ℤ) = max |x1 - x0| |y1 - y0| + 1
      ∧ points.head? = some (x0, y0) ∧ points.getLast? = some (x1, y1)
      ∧ points.IsChain (LineMoves |x1 - x0| |y1 - y0|)
      ∧ (∀ p ∈ points, WithinHalf x0 y0 |x1 - x0| |y1 - y0| p)
      ∧ ∀ (fb : Framebuffer) (color : UInt32) (fuel : ℕ), points.length ≤ fuel →
        ∃ fb', framebufferLine some fuel fb x0 y0 x1 y1 color = some fb'
          ∧ fb.Painted color points fb'
  := by
  obtain ⟨points, hpoints, hdraw⟩ := exists_drawLine x0 y0 x1 y1
  have hmax : 0 ≤ max |x1 - x0| |y1 - y0| := le_max_of_le_left (abs_nonneg _)
  refine ⟨points, ?_, ?_, ?_, ?_, hpoints.moves, hpoints.near, ?_⟩
  · intro fuel hfuel
    rw [lineVisits, hdraw visit [] hfuel, drawn_visit, List.nil_append]
  · rw [hpoints.length_eq, Nat.cast_add, Int.toNat_of_nonneg hmax, Nat.cast_one]
  · rw [hpoints.head_eq, Int.mul_zero, Int.mul_zero, Int.add_zero, Int.add_zero]
  · rw [hpoints.last_eq, add_lineSign_mul, add_lineSign_mul]
  · intro fb color fuel hfuel
    refine ⟨_, hdraw _ fb hfuel, ?_⟩
    apply painted_drawn

example : lineVisits some 6 0 0 (-5) 2
    = some [(0, 0), (-1, 0), (-2, 1), (-3, 1), (-4, 2), (-5, 2)] := by
  decide

end CTemplate

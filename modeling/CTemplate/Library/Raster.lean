import Mathlib.Algebra.Order.Round
import Mathlib.Data.Int.GCD
import Mathlib.Data.Int.Sqrt
import Mathlib.Data.Rat.Floor
import Mathlib.Tactic.Linarith
import Mathlib.Tactic.LinearCombination
import Mathlib.Tactic.Ring

/-!
# Points of the grid near a line and near a circle

The line from the origin to `(dx, dy)`, where `dx` and `dy` are not negative, passes within half a
unit of a point `(X, Y)` when twice the `offset` of the point is at most the larger one of `dx` and
`dy`.  `Near dx dy X Y` says so and decides for one side when the line is exactly half a unit away,
so that there is one such point in every column of a flat line, and one in every row of a steep
line.

* Going from such a point to the next one costs two comparisons, `Near.next`.
* The offsets of the points near a line are all multiples of the greatest common divisor of `dx`
  and `dy` that are small enough, `exists_near_of_flat` and `exists_near_of_steep`.
* The point in a column of a flat line is the one whose row is nearest to the line, and the point in
  a row of a steep line the one whose column is, `near_iff_of_flat` and `near_iff_of_steep`.

`OnCircle r x y` says that `r ^ 2` lies between `x ^ 2 - x + y ^ 2` and `x ^ 2 + x + y ^ 2`, which
are, less a quarter, the squares of the distances of the origin from the points half a unit to the
left and to the right of `(x, y)`.  From the point in one row to the one in the next row costs one
comparison, `OnCircle.next`.  `Closest r x y` excludes the right end, so that there is one such
point in every row, `Closest.eq_of_row`; at the left end, `r ^ 2 = x ^ 2 - x + y ^ 2`, the point to
the left of it is nearer to the circle of radius `r`.
-/

namespace Raster

/-! ### Lines -/

section Line

variable {dx dy X Y X' Y' c : ℤ}

/-- How far a point is off the line, with a sign, as a multiple of what the line rises by. -/
def offset (dx dy X Y : ℤ) : ℤ :=
  X * dy - Y * dx

theorem offset_zero (dx dy : ℤ) :
  offset dx dy 0 0 = 0
  := by
  rw [offset, Int.zero_mul, Int.zero_mul, Int.sub_zero]

theorem offset_end (dx dy : ℤ) :
  offset dx dy dx dy = 0
  := by
  rw [offset, Int.mul_comm, Int.sub_self]

theorem offset_succ_left (dx dy X Y : ℤ) :
  offset dx dy (X + 1) Y = offset dx dy X Y + dy
  := by
  rw [offset, offset]
  ring

theorem offset_succ_right (dx dy X Y : ℤ) :
  offset dx dy X (Y + 1) = offset dx dy X Y - dx
  := by
  rw [offset, offset]
  ring

theorem gcd_dvd_offset (dx dy X Y : ℤ) :
  (Int.gcd dx dy : ℤ) ∣ offset dx dy X Y
  := by
  apply Int.dvd_sub
  · apply Int.dvd_mul_of_dvd_right (Int.gcd_dvd_right dx dy)
  · apply Int.dvd_mul_of_dvd_right (Int.gcd_dvd_left dx dy)

/-- The line passes within half a unit of the point, above or below it when it is flat, and to its
left or right when it is steep. -/
structure Near (dx dy X Y : ℤ) : Prop where
  flat : dy ≤ dx → -dx ≤ 2 * offset dx dy X Y ∧ 2 * offset dx dy X Y < dx
  steep : dx < dy → -dy < 2 * offset dx dy X Y ∧ 2 * offset dx dy X Y ≤ dy

theorem near_zero (hdx : 0 ≤ dx) (hpos : 0 < dx ∨ 0 < dy) :
  Near dx dy 0 0
  := by
  constructor <;>
  · intro _
    rw [offset_zero]
    omega

theorem near_end (hdx : 0 ≤ dx) (hpos : 0 < dx ∨ 0 < dy) :
  Near dx dy dx dy
  := by
  constructor <;>
  · intro _
    rw [offset_end]
    omega

theorem Near.abs_le (h : Near dx dy X Y) :
  2 * |offset dx dy X Y| ≤ max dx dy
  := by
  rcases le_or_gt dy dx with hle | hlt
  · obtain ⟨hlow, hhigh⟩ := h.flat hle
    rw [max_eq_left hle]
    have habs := abs_cases (offset dx dy X Y)
    omega
  · obtain ⟨hlow, hhigh⟩ := h.steep hlt
    rw [max_eq_right (Int.le_of_lt hlt)]
    have habs := abs_cases (offset dx dy X Y)
    omega

/-- From a point near the line to the next one: a move along x when the line is to the right of the
point half-way, and a move along y when it is above that point. -/
theorem Near.next
    (h : Near dx dy X Y) (hdx : 0 ≤ dx) (hdy : 0 ≤ dy) {err : ℤ}
    (herr : err = dx - dy - offset dx dy X Y)
    (hX' : X' = if 2 * err ≥ -dy then X + 1 else X)
    (hY' : Y' = if 2 * err ≤ dx then Y + 1 else Y) :
  Near dx dy X' Y' ∧ (dy ≤ dx → X' = X + 1) ∧ (dx ≤ dy → Y' = Y + 1)
  := by
  have hleft : offset dx dy X' Y = offset dx dy X Y + if 2 * err ≥ -dy then dy else 0 := by
    rw [hX']
    split
    · apply offset_succ_left
    · rw [Int.add_zero]
  have hright : offset dx dy X' Y' = offset dx dy X' Y - if 2 * err ≤ dx then dx else 0 := by
    rw [hY']
    split
    · apply offset_succ_right
    · rw [Int.sub_zero]
  obtain ⟨hflat, hsteep⟩ := h
  refine ⟨⟨?_, ?_⟩, ?_, ?_⟩
  · intro hle
    have hbounds := hflat hle
    rw [hright, hleft]
    split <;> split <;> omega
  · intro hlt
    have hbounds := hsteep hlt
    rw [hright, hleft]
    split <;> split <;> omega
  · intro hle
    have hbounds := hflat hle
    rw [hX', if_pos (by omega)]
  · intro hle
    have hbounds : -dy ≤ 2 * offset dx dy X Y := by
      rcases Int.lt_or_eq_of_le hle with hlt | heq
      · exact Int.le_of_lt (hsteep hlt).1
      · have hbounds := hflat (Int.le_of_eq heq.symm)
        omega
    rw [hY', if_pos (by omega)]

/-- A difference whose multiple is small is zero. -/
theorem eq_of_mul_sub_lt {d : ℤ} (hlow : -d < d * (X - X')) (hhigh : d * (X - X') < d) :
  X = X'
  := by
  have hpos : 0 < d := by omega
  have hlt : X - X' < 1 := by
    apply lt_of_mul_lt_mul_left _ (Int.le_of_lt hpos)
    rwa [Int.mul_one]
  have hgt : -1 < X - X' := by
    apply lt_of_mul_lt_mul_left _ (Int.le_of_lt hpos)
    rwa [Int.mul_neg, Int.mul_one]
  omega

/-- There is one point in every column of a flat line. -/
theorem Near.eq_of_flat (h : Near dx dy X Y) (h' : Near dx dy X Y') (hle : dy ≤ dx) :
  Y = Y'
  := by
  obtain ⟨hlow, hhigh⟩ := h.flat hle
  obtain ⟨hlow', hhigh'⟩ := h'.flat hle
  have hsub : dx * (Y - Y') = offset dx dy X Y' - offset dx dy X Y := by
    rw [offset, offset]
    ring
  apply eq_of_mul_sub_lt (d := dx) <;> omega

/-- There is one point in every row of a steep line. -/
theorem Near.eq_of_steep (h : Near dx dy X Y) (h' : Near dx dy X' Y) (hlt : dx < dy) :
  X = X'
  := by
  obtain ⟨hlow, hhigh⟩ := h.steep hlt
  obtain ⟨hlow', hhigh'⟩ := h'.steep hlt
  have hsub : dy * (X - X') = offset dx dy X Y - offset dx dy X' Y := by
    rw [offset, offset]
    ring
  apply eq_of_mul_sub_lt (d := dy) <;> omega

/-- The points of a flat line lie between its ends. -/
theorem Near.le_of_flat
    (h : Near dx dy X Y) (hle : dy ≤ dx) (hdy : 0 ≤ dy) (hX : 0 ≤ X ∧ X ≤ dx) :
  0 ≤ Y ∧ Y ≤ dy
  := by
  obtain ⟨hlow, hhigh⟩ := h.flat hle
  have hoff : dx * Y = X * dy - offset dx dy X Y := by
    rw [offset]
    ring
  have hX₀ : 0 ≤ X * dy := Int.mul_nonneg hX.1 hdy
  have hX₁ : X * dy ≤ dx * dy := Int.mul_le_mul_of_nonneg_right hX.2 hdy
  have hpos : 0 < dx := by omega
  constructor
  · have hgt : -1 < Y := by
      apply lt_of_mul_lt_mul_left _ (Int.le_of_lt hpos)
      omega
    omega
  · have hlt : Y < dy + 1 := by
      apply lt_of_mul_lt_mul_left _ (Int.le_of_lt hpos)
      rw [Int.mul_add]
      omega
    omega

/-- The points of a steep line lie between its ends. -/
theorem Near.le_of_steep
    (h : Near dx dy X Y) (hlt : dx < dy) (hdx : 0 ≤ dx) (hY : 0 ≤ Y ∧ Y ≤ dy) :
  0 ≤ X ∧ X ≤ dx
  := by
  obtain ⟨hlow, hhigh⟩ := h.steep hlt
  have hoff : dy * X = Y * dx + offset dx dy X Y := by
    rw [offset]
    ring
  have hY₀ : 0 ≤ Y * dx := Int.mul_nonneg hY.1 hdx
  have hY₁ : Y * dx ≤ dy * dx := Int.mul_le_mul_of_nonneg_right hY.2 hdx
  have hpos : 0 < dy := by omega
  constructor
  · have hgt : -1 < X := by
      apply lt_of_mul_lt_mul_left _ (Int.le_of_lt hpos)
      omega
    omega
  · have hlt : X < dx + 1 := by
      apply lt_of_mul_lt_mul_left _ (Int.le_of_lt hpos)
      rw [Int.mul_add]
      omega
    omega

/-- Every small multiple of the greatest common divisor is the offset of a point near a flat line,
in one of the columns before the last. -/
theorem exists_near_of_flat
    (hle : dy ≤ dx) (hc : (Int.gcd dx dy : ℤ) ∣ c) (hlow : -dx ≤ 2 * c) (hhigh : 2 * c < dx) :
  ∃ X Y, (0 ≤ X ∧ X < dx) ∧ Near dx dy X Y ∧ offset dx dy X Y = c
  := by
  obtain ⟨t, rfl⟩ := hc
  have hpos : 0 < dx := by omega
  have hbezout := Int.gcd_eq_gcd_ab dx dy
  have hdiv := Int.mul_ediv_add_emod (t * Int.gcdB dx dy) dx
  have hoff : offset dx dy (t * Int.gcdB dx dy % dx)
      (-(t * Int.gcdA dx dy) - dy * (t * Int.gcdB dx dy / dx)) = Int.gcd dx dy * t := by
    rw [offset]
    linear_combination dy * hdiv - t * hbezout
  refine ⟨_, _, ⟨Int.emod_nonneg _ (by omega), Int.emod_lt_of_pos _ hpos⟩, ⟨?_, ?_⟩, hoff⟩
  · intro _
    rw [hoff]
    exact ⟨hlow, hhigh⟩
  · intro hlt
    omega

/-- Every small multiple of the greatest common divisor is the offset of a point near a steep line,
in one of the rows before the last. -/
theorem exists_near_of_steep
    (hlt : dx < dy) (hc : (Int.gcd dx dy : ℤ) ∣ c) (hlow : -dy < 2 * c) (hhigh : 2 * c ≤ dy) :
  ∃ X Y, (0 ≤ Y ∧ Y < dy) ∧ Near dx dy X Y ∧ offset dx dy X Y = c
  := by
  obtain ⟨t, rfl⟩ := hc
  have hpos : 0 < dy := by omega
  have hbezout := Int.gcd_eq_gcd_ab dx dy
  have hdiv := Int.mul_ediv_add_emod (-(t * Int.gcdA dx dy)) dy
  have hoff : offset dx dy (t * Int.gcdB dx dy - dx * (-(t * Int.gcdA dx dy) / dy))
      (-(t * Int.gcdA dx dy) % dy) = Int.gcd dx dy * t := by
    rw [offset]
    linear_combination -dx * hdiv - t * hbezout
  refine ⟨_, _, ⟨Int.emod_nonneg _ (by omega), Int.emod_lt_of_pos _ hpos⟩, ⟨?_, ?_⟩, hoff⟩
  · intro hle
    omega
  · intro _
    rw [hoff]
    exact ⟨hlow, hhigh⟩

/-- The integer nearest to `n / d`, and the larger one of two that are as near. -/
def nearest (n d : ℤ) : ℤ :=
  round (n / d : ℚ)

theorem nearest_zero (d : ℤ) :
  nearest 0 d = 0
  := by
  rw [nearest, Int.cast_zero, zero_div, round_zero]

/-- The point in a column of a flat line is in the row nearest to the line. -/
theorem near_iff_of_flat (hle : dy ≤ dx) (hpos : 0 < dx) :
  Near dx dy X Y ↔ nearest (X * dy) dx = Y
  := by
  have hpos' : (0 : ℚ) < dx := Int.cast_pos.mpr hpos
  have hlow : -dx ≤ 2 * offset dx dy X Y ↔ ((Y : ℚ) - 1 / 2) * dx ≤ X * dy := by
    rw [offset, ← Int.cast_le (R := ℚ)]
    push_cast
    constructor <;> intro h <;> linarith
  have hhigh : 2 * offset dx dy X Y < dx ↔ (X : ℚ) * dy < (Y + 1 / 2) * dx := by
    rw [offset, ← Int.cast_lt (R := ℚ)]
    push_cast
    constructor <;> intro h <;> linarith
  rw [nearest, round_eq_iff, Set.mem_Ico, Int.cast_mul, le_div_iff₀ hpos', div_lt_iff₀ hpos',
    ← hlow, ← hhigh]
  constructor
  · intro h
    apply h.flat hle
  · intro h
    exact ⟨fun _ => h, fun hlt => absurd hle (not_le_of_gt hlt)⟩

/-- The point in a row of a steep line is in the column nearest to the line. -/
theorem near_iff_of_steep (hlt : dx < dy) (hpos : 0 < dy) :
  Near dx dy X Y ↔ nearest (Y * dx) dy = X
  := by
  have hpos' : (0 : ℚ) < dy := Int.cast_pos.mpr hpos
  have hlow : -dy < 2 * offset dx dy X Y ↔ (Y : ℚ) * dx < (X + 1 / 2) * dy := by
    rw [offset, ← Int.cast_lt (R := ℚ)]
    push_cast
    constructor <;> intro h <;> linarith
  have hhigh : 2 * offset dx dy X Y ≤ dy ↔ ((X : ℚ) - 1 / 2) * dy ≤ Y * dx := by
    rw [offset, ← Int.cast_le (R := ℚ)]
    push_cast
    constructor <;> intro h <;> linarith
  rw [nearest, round_eq_iff, Set.mem_Ico, Int.cast_mul, le_div_iff₀ hpos', div_lt_iff₀ hpos',
    ← hlow, ← hhigh, and_comm]
  constructor
  · intro h
    apply h.steep hlt
  · intro h
    exact ⟨fun hle => absurd hle (not_le_of_gt hlt), fun _ => h⟩

/-- The largest multiple of `g` that is at most `n`. -/
def multipleUpTo (g : ℕ) (n : ℤ) : ℤ :=
  n / g * g

theorem dvd_multipleUpTo (g : ℕ) (n : ℤ) :
  (g : ℤ) ∣ multipleUpTo g n
  := Int.dvd_mul_left (n / g) g

theorem multipleUpTo_le {g : ℕ} (hg : 0 < g) (n : ℤ) :
  multipleUpTo g n ≤ n
  := Int.ediv_mul_le n (by omega)

theorem lt_multipleUpTo_add {g : ℕ} (hg : 0 < g) (n : ℤ) :
  n < multipleUpTo g n + g
  := by
  have hlt := Int.lt_ediv_add_one_mul_self n (show (0 : ℤ) < g by omega)
  rw [multipleUpTo]
  linarith

theorem le_multipleUpTo {g : ℕ} (hg : 0 < g) {n : ℤ} (hdvd : (g : ℤ) ∣ c) (hle : c ≤ n) :
  c ≤ multipleUpTo g n
  := by
  obtain ⟨t, rfl⟩ := hdvd
  rw [multipleUpTo, Int.mul_comm]
  apply Int.mul_le_mul_of_nonneg_right _ (by omega)
  rw [Int.le_ediv_iff_mul_le (by omega), Int.mul_comm]
  exact hle

end Line

/-! ### Circles -/

section Circle

variable {r x y x' : ℤ}

/-- The square of the radius lies between the squares of the distances of the points half a unit
to the left and to the right of `(x, y)`, each less a quarter. -/
structure OnCircle (r x y : ℤ) : Prop where
  inner : x ^ 2 - x + y ^ 2 ≤ r ^ 2
  outer : r ^ 2 ≤ x ^ 2 + x + y ^ 2

/-- By how much the square of the distance of the point half a unit to the left of `(x, y + 1)`,
less a quarter, exceeds the square of the radius. -/
def decision (r x y : ℤ) : ℤ :=
  x ^ 2 - x + (y + 1) ^ 2 - r ^ 2

theorem onCircle_zero (hr : 0 ≤ r) :
  OnCircle r r 0
  := by
  constructor
  · linarith
  · linarith

theorem decision_zero (r : ℤ) :
  decision r r 0 = 1 - r
  := by
  rw [decision]
  ring

/-- Of a circle through a column of points, the decision depends on the row alone. -/
theorem decision_self (r y : ℤ) :
  decision r r y = (y + 1) ^ 2 - r
  := by
  rw [decision]
  ring

theorem decision_up (r x y : ℤ) :
  decision r x (y + 1) = decision r x y + (2 * (y + 1) + 1)
  := by
  rw [decision, decision]
  ring

theorem decision_diagonal (r x y : ℤ) :
  decision r (x - 1) (y + 1) = decision r x y + (2 * (y + 1 - (x - 1)) + 1)
  := by
  rw [decision, decision]
  ring

/-- From a point on the circle to the one in the next row: one to the left if the decision is
positive.  Past the diagonal this need not be such a point. -/
theorem OnCircle.next
    (h : OnCircle r x y) (hy : 0 ≤ y) (hx' : x' = if decision r x y ≤ 0 then x else x - 1)
    (hle : y + 1 ≤ x') :
  OnCircle r x' (y + 1)
  := by
  obtain ⟨hinner, houter⟩ := h
  split at hx'
  case isTrue hd =>
    rw [decision] at hd
    subst hx'
    constructor <;> linarith
  case isFalse hd =>
    rw [decision] at hd
    subst hx'
    constructor <;> linarith

/-- On a circle the decision is bounded by the coordinates. -/
theorem OnCircle.decision_le (h : OnCircle r x y) :
  decision r x y ≤ 2 * y + 1
  := by
  rw [decision]
  linarith [h.inner]

theorem sqrt_sq_le (hr : 0 ≤ r) :
  Int.sqrt r ^ 2 ≤ r
  := by
  obtain ⟨n, rfl⟩ := Int.eq_ofNat_of_zero_le hr
  rw [Int.sqrt_natCast]
  exact_mod_cast Nat.sqrt_le' n

theorem lt_sqrt_add_one_sq (hr : 0 ≤ r) :
  r < (Int.sqrt r + 1) ^ 2
  := by
  obtain ⟨n, rfl⟩ := Int.eq_ofNat_of_zero_le hr
  rw [Int.sqrt_natCast]
  exact_mod_cast Nat.lt_succ_sqrt' n

/-- A number is past the square root when the square of the next one exceeds the radius. -/
theorem sqrt_le_of_lt_sq (hr : 0 ≤ r) (hy : 0 ≤ y) (h : r < (y + 1) ^ 2) :
  Int.sqrt r ≤ y
  := by
  have hsq := sqrt_sq_le hr
  by_contra hlt
  have hle : (y + 1) ^ 2 ≤ Int.sqrt r ^ 2 := by
    apply pow_le_pow_left₀ (by omega) (by omega)
  omega

/-- The circle leaves its first column at the square root of the radius. -/
theorem decision_self_le_iff (hr : 0 ≤ r) (hy : 0 ≤ y) :
  decision r r y ≤ 0 ↔ y < Int.sqrt r
  := by
  rw [decision_self]
  constructor
  · intro hle
    have hlt := lt_sqrt_add_one_sq hr
    by_contra hge
    have hmono : (Int.sqrt r + 1) ^ 2 ≤ (y + 1) ^ 2 := by
      have hroot := Int.sqrt_nonneg r
      apply pow_le_pow_left₀ (by omega) (by omega)
    omega
  · intro hlt
    have hge : ¬ r < (y + 1) ^ 2 := by
      intro h
      have hroot := sqrt_le_of_lt_sq hr hy h
      omega
    omega

/-- A point of the circle from which it goes to the left is in the row of the square root of the
radius, or above it. -/
theorem OnCircle.sqrt_le
    (h : OnCircle r x y) (hx : 0 ≤ x ∧ x ≤ r) (hy : 0 ≤ y) (hd : 0 < decision r x y) :
  Int.sqrt r ≤ y
  := by
  apply sqrt_le_of_lt_sq (le_trans hx.1 hx.2) hy
  rcases Int.lt_or_eq_of_le hx.2 with hlt | rfl
  · have houter := h.outer
    have hmono : x * (x + 1) ≤ (r - 1) * r := by
      apply mul_le_mul (by omega) (by omega) (by omega) (by omega)
    nlinarith
  · rw [decision_self] at hd
    omega

/-- The bounds of `OnCircle` without the right end. -/
structure Closest (r x y : ℤ) : Prop where
  inner : x ^ 2 - x + y ^ 2 ≤ r ^ 2
  outer : r ^ 2 < x ^ 2 + x + y ^ 2

/-- There is one point in every row. -/
theorem Closest.eq_of_row
    (h : Closest r x y) (h' : Closest r x' y) (hx : 0 ≤ x) (hx' : 0 ≤ x') :
  x = x'
  := by
  have hinner := h.inner
  have houter := h.outer
  have hinner' := h'.inner
  have houter' := h'.outer
  rcases lt_trichotomy x x' with hlt | heq | hgt
  · nlinarith
  · exact heq
  · nlinarith

/-- The outer bound of a point holds for the next one as well. -/
theorem outer_next
    (h : r ^ 2 < x ^ 2 + x + y ^ 2) (hy : 0 ≤ y)
    (hx' : x' = if decision r x y ≤ 0 then x else x - 1) :
  r ^ 2 < x' ^ 2 + x' + (y + 1) ^ 2
  := by
  split at hx'
  case isTrue =>
    rw [hx']
    linarith
  case isFalse hd =>
    rw [decision] at hd
    rw [hx']
    linarith

/-- Beyond the diagonal, no point in a row above is on the circle. -/
theorem not_closest_of_beyond
    {y' : ℤ} (h : r ^ 2 < x ^ 2 + x + y ^ 2) (hx : -1 ≤ x) (hlt : x < y) (hle : y ≤ y')
    (hle' : y' ≤ x') :
  ¬ Closest r x' y'
  := by
  intro h'
  have hinner := h'.inner
  have hcol : x * (x + 1) ≤ (x' - 1) * x' := by
    rcases (show x = -1 ∨ 0 ≤ x by omega) with rfl | hx
    · linarith [Int.le_self_sq x']
    · apply mul_le_mul (by omega) (by omega) (by omega) (by omega)
  have hrow : y ^ 2 ≤ y' ^ 2 := pow_le_pow_left₀ (by omega) hle 2
  linarith

end Circle

end Raster

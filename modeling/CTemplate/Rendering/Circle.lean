import CTemplate.Library.Raster
import CTemplate.Library.While
import CTemplate.Rendering.Framebuffer
import Mathlib.Data.List.Chain

/-!
# Circles

The loop of `framebuffer_circle`, which draws the eight reflections of each point of an octant.
Without bounds on integers, the octant has one point `(x, y)` in each of its rows, for which
`x ^ 2 - x + y ^ 2 ≤ r ^ 2 ≤ x ^ 2 + x + y ^ 2`.
-/

namespace CTemplate

open Raster

/-- What the loop of `framebuffer_circle` changes. -/
structure CircleState (σ : Type) where
  x : ℤ
  y : ℤ
  d : ℤ
  canvas : σ

/-- `framebuffer_set_pixel` at the values of two computations. -/
def plotAt {σ : Type} (int : ℤ → Option ℤ) (plot : ℤ → ℤ → σ → σ) (x y : ℤ) (canvas : σ) :
    Option σ :=
  (int x).bind fun x => (int y).map fun y => plot x y canvas

/-- The reflections of a point, in the order in which `framebuffer_circle` draws them. -/
def reflections (cx cy : ℤ) (p : ℤ × ℤ) : List (ℤ × ℤ) :=
  [(cx + p.1, cy + p.2), (cx - p.1, cy + p.2), (cx + p.1, cy - p.2), (cx - p.1, cy - p.2),
    (cx + p.2, cy + p.1), (cx - p.2, cy + p.1), (cx + p.2, cy - p.1), (cx - p.2, cy - p.1)]

/-- One round of the loop of `framebuffer_circle`. -/
def circleStep {σ : Type} (int : ℤ → Option ℤ) (plot : ℤ → ℤ → σ → σ) (cx cy : ℤ)
    (s : CircleState σ) : Option (CircleState σ ⊕ σ) :=
  if s.x ≥ s.y then
    ((reflections cx cy (s.x, s.y)).foldlM (fun canvas p => plotAt int plot p.1 p.2 canvas)
        s.canvas).bind fun canvas =>
      (int (s.y + 1)).bind fun y =>
        if s.d ≤ 0 then
          (int (2 * y)).bind fun a => (int (a + 1)).bind fun a => (int (s.d + a)).map fun d =>
            .inl { s with y, d, canvas }
        else
          (int (s.x - 1)).bind fun x => (int (y - x)).bind fun a => (int (2 * a)).bind fun a =>
            (int (a + 1)).bind fun a => (int (s.d + a)).map fun d => .inl { x, y, d, canvas }
  else some (.inr s.canvas)

/-- The body of `framebuffer_circle`, for any kind of picture. -/
def drawCircle {σ : Type} (int : ℤ → Option ℤ) (plot : ℤ → ℤ → σ → σ) (fuel : ℕ) (canvas : σ)
    (cx cy r : ℤ) : Option σ :=
  (int (1 - r)).bind fun d =>
    While.run (circleStep int plot cx cy) fuel { x := r, y := 0, d, canvas }

/-- `framebuffer_circle`, with a loop of at most `fuel` rounds. -/
def framebufferCircle (int : ℤ → Option ℤ) (fuel : ℕ) (fb : Framebuffer) (cx cy r : ℤ)
    (color : UInt32) : Option Framebuffer :=
  drawCircle int (fun x y fb => framebufferSetPixel fb x y color) fuel fb cx cy r

/-- The points that `framebuffer_circle` visits. -/
def circleVisits (int : ℤ → Option ℤ) (fuel : ℕ) (cx cy r : ℤ) : Option (List (ℤ × ℤ)) :=
  drawCircle int visit fuel [] cx cy r

/-! ### One round -/

variable {σ : Type} {cx cy r x y : ℤ} {plot : ℤ → ℤ → σ → σ}

/-- The loop at a point of the octant. -/
def circleAt (r x y : ℤ) (canvas : σ) : CircleState σ where
  x := x
  y := y
  d := decision r x y
  canvas := canvas

/-- The column of the next point of the octant. -/
def nextColumn (r x y : ℤ) : ℤ :=
  if decision r x y ≤ 0 then x else x - 1

theorem foldlM_plotAt
    {int : ℤ → Option ℤ} (points : List (ℤ × ℤ)) (canvas : σ)
    (h : ∀ p ∈ points, Exact int p.1 ∧ Exact int p.2) :
  points.foldlM (fun canvas p => plotAt int plot p.1 p.2 canvas) canvas
    = some (drawn plot canvas points)
  := by
  induction points generalizing canvas with
  | nil => rfl
  | cons p points ih =>
      obtain ⟨⟨hx, hy⟩, hpoints⟩ := List.forall_mem_cons.mp h
      rw [List.foldlM_cons, plotAt, hx, Option.bind_some, hy]
      apply ih _ hpoints

/-- What is computed in a round of the loop gives its exact result. -/
structure CircleRoundExact (int : ℤ → Option ℤ) (cx cy r x y : ℤ) : Prop where
  points : ∀ p ∈ reflections cx cy (x, y), Exact int p.1 ∧ Exact int p.2
  row : Exact int (y + 1)
  up : decision r x y ≤ 0 → Exact int (2 * (y + 1)) ∧ Exact int (2 * (y + 1) + 1)
  left : 0 < decision r x y → (Exact int (x - 1) ∧ Exact int (y + 1 - (x - 1)))
    ∧ Exact int (2 * (y + 1 - (x - 1))) ∧ Exact int (2 * (y + 1 - (x - 1)) + 1)
  next : Exact int (decision r (nextColumn r x y) (y + 1))

theorem circleRoundExact_some (cx cy r x y : ℤ) :
  CircleRoundExact some cx cy r x y
  where
  points := fun _ _ => ⟨exact_some _, exact_some _⟩
  row := exact_some _
  up := fun _ => ⟨exact_some _, exact_some _⟩
  left := fun _ => ⟨⟨exact_some _, exact_some _⟩, exact_some _, exact_some _⟩
  next := exact_some _

/-- A round above the diagonal goes to the next row. -/
theorem circleStep_next
    {int : ℤ → Option ℤ} (h : CircleRoundExact int cx cy r x y) (canvas : σ) (hle : y ≤ x) :
  circleStep int plot cx cy (circleAt r x y canvas)
    = some (.inl (circleAt r (nextColumn r x y) (y + 1)
        (drawn plot canvas (reflections cx cy (x, y)))))
  := by
  have hle' : CircleState.x (circleAt r x y canvas) ≥ CircleState.y (circleAt r x y canvas) := hle
  have hnext := h.next
  rw [circleStep, if_pos hle']
  dsimp only [circleAt]
  rw [foldlM_plotAt _ _ h.points, Option.bind_some, h.row, Option.bind_some]
  by_cases hd : decision r x y ≤ 0
  · obtain ⟨hdouble, hsucc⟩ := h.up hd
    rw [nextColumn, if_pos hd, decision_up] at hnext ⊢
    apply (if_pos hd).trans
    rw [hdouble, Option.bind_some, hsucc, Option.bind_some, hnext]
    rfl
  · obtain ⟨⟨hcol, hsub⟩, hdouble, hsucc⟩ := h.left (not_le.mp hd)
    rw [nextColumn, if_neg hd, decision_diagonal] at hnext ⊢
    apply (if_neg hd).trans
    rw [hcol, Option.bind_some, hsub, Option.bind_some, hdouble, Option.bind_some, hsucc,
      Option.bind_some, hnext]
    rfl

/-- Past the diagonal the loop is left. -/
theorem circleStep_end (int : ℤ → Option ℤ) (canvas : σ) (hlt : x < y) :
  circleStep int plot cx cy (circleAt r x y canvas) = some (.inr canvas)
  := if_neg (not_le_of_gt hlt)

theorem nextColumn_cases (r x y : ℤ) :
  nextColumn r x y = x ∨ nextColumn r x y = x - 1
  := by
  rw [nextColumn]
  split
  · exact .inl rfl
  · exact .inr rfl

/-! ### All rounds -/

/-- From one point of an octant to the next: one row up, and to the same column or the one to its
left. -/
def OctantMoves (p q : ℤ × ℤ) : Prop :=
  q.2 = p.2 + 1 ∧ (q.1 = p.1 ∨ q.1 = p.1 - 1)

/-- The points of an octant, from the one in row `y` to the diagonal. -/
structure Octant (r x y : ℤ) (octant : List (ℤ × ℤ)) : Prop where
  head_eq : ∀ p ∈ octant.head?, p = (x, y)
  moves : octant.IsChain OctantMoves
  onCircle : ∀ p ∈ octant, p.2 ≤ p.1 ∧ OnCircle r p.1 p.2

/-- From a point of the octant, the loop draws the reflections of the points up to the diagonal. -/
theorem exists_circleRun
    (cx cy : ℤ) (h : y ≤ x → OnCircle r x y) (hy : 0 ≤ y) {m : ℕ} (hm : (x + 1 - y).toNat ≤ m) :
  ∃ octant, Octant r x y octant ∧ (y ≤ x → octant ≠ [])
    ∧ ∀ {σ : Type} (plot : ℤ → ℤ → σ → σ) (canvas : σ) {fuel : ℕ}, octant.length < fuel →
      While.run (circleStep some plot cx cy) fuel (circleAt r x y canvas)
        = some (drawn plot canvas (octant.flatMap (reflections cx cy)))
  := by
  induction m generalizing x y with
  | zero =>
      refine ⟨[], ⟨?_, List.isChain_nil, ?_⟩, ?_, ?_⟩
      · intro p hp
        cases hp
      · intro p hp
        cases hp
      · intro hle
        omega
      · intro σ plot canvas fuel hfuel
        obtain ⟨fuel, rfl⟩ := Nat.exists_eq_succ_of_ne_zero (Nat.ne_of_gt hfuel)
        apply While.run_of_inr (circleStep_end some canvas (by omega))
  | succ m ih =>
      rcases lt_or_ge x y with hlt | hle
      · apply ih h hy (by omega)
      · have hcases := nextColumn_cases r x y
        have hnext : y + 1 ≤ nextColumn r x y → OnCircle r (nextColumn r x y) (y + 1) :=
          (h hle).next hy rfl
        obtain ⟨octant, hoctant, -, hrun⟩ := ih hnext (by omega) (by omega)
        refine ⟨(x, y) :: octant, ⟨?_, ?_, ?_⟩, fun _ => List.cons_ne_nil _ _, ?_⟩
        · intro p hp
          cases hp
          rfl
        · rw [List.isChain_cons]
          use ?_, hoctant.moves
          intro q hq
          rw [hoctant.head_eq q hq]
          exact ⟨rfl, hcases⟩
        · intro p hp
          rcases List.mem_cons.mp hp with rfl | hp
          · exact ⟨hle, h hle⟩
          · apply hoctant.onCircle p hp
        · intro σ plot canvas fuel hfuel
          rw [List.length_cons] at hfuel
          obtain ⟨fuel, rfl⟩ :=
            Nat.exists_eq_succ_of_ne_zero (Nat.ne_of_gt (Nat.zero_lt_of_lt hfuel))
          rw [While.run_of_inl (circleStep_next (circleRoundExact_some ..) canvas hle),
            hrun plot _ (Nat.lt_of_succ_lt_succ hfuel), List.flatMap_cons, drawn, drawn, drawn,
            List.foldl_append]

/-- The octant that `framebuffer_circle` follows, which is empty for a negative radius. -/
theorem exists_drawCircle (cx cy r : ℤ) :
  ∃ octant, Octant r r 0 octant ∧ (0 ≤ r → octant ≠ [])
    ∧ ∀ {σ : Type} (plot : ℤ → ℤ → σ → σ) (canvas : σ) {fuel : ℕ}, octant.length < fuel →
      drawCircle some plot fuel canvas cx cy r
        = some (drawn plot canvas (octant.flatMap (reflections cx cy)))
  := by
  obtain ⟨octant, hoctant, hne, hrun⟩ := exists_circleRun (r := r) cx cy onCircle_zero
    (Int.le_refl 0) (Nat.le_refl (r + 1 - 0).toNat)
  refine ⟨octant, hoctant, hne, ?_⟩
  intro σ plot canvas fuel hfuel
  rw [← hrun plot canvas hfuel, circleAt, decision_zero]
  rfl

/-- Without bounds on integers, `framebuffer_circle` ends for every radius: the octant that it
follows has one point in each row from the first on, each in the column of the one before or one
to its left, `r ^ 2` lies between `x ^ 2 - x + y ^ 2` and `x ^ 2 + x + y ^ 2`, and the reflections
of these points are the pixels set. -/
theorem framebufferCircle_points (cx cy : ℤ) {r : ℤ} (hr : 0 ≤ r) :
  ∃ octant : List (ℤ × ℤ),
    (∀ fuel, octant.length < fuel → circleVisits some fuel cx cy r
        = some (octant.flatMap (reflections cx cy)))
      ∧ octant.head? = some (r, 0) ∧ octant.IsChain OctantMoves
      ∧ (∀ p ∈ octant, p.2 ≤ p.1 ∧ p.1 ^ 2 - p.1 + p.2 ^ 2 ≤ r ^ 2
          ∧ r ^ 2 ≤ p.1 ^ 2 + p.1 + p.2 ^ 2)
      ∧ ∀ (fb : Framebuffer) (color : UInt32) (fuel : ℕ), octant.length < fuel →
        ∃ fb', framebufferCircle some fuel fb cx cy r color = some fb'
          ∧ fb.Painted color (octant.flatMap (reflections cx cy)) fb'
  := by
  obtain ⟨octant, hoctant, hne, hdraw⟩ := exists_drawCircle cx cy r
  refine ⟨octant, ?_, ?_, hoctant.moves, ?_, ?_⟩
  · intro fuel hfuel
    rw [circleVisits, hdraw visit [] hfuel, drawn_visit, List.nil_append]
  · obtain ⟨p, octant, rfl⟩ := List.exists_cons_of_ne_nil (hne hr)
    rw [List.head?_cons, hoctant.head_eq p rfl]
  · intro p hp
    obtain ⟨hle, hinner, houter⟩ := hoctant.onCircle p hp
    exact ⟨hle, hinner, houter⟩
  · intro fb color fuel hfuel
    refine ⟨_, hdraw _ fb hfuel, ?_⟩
    apply painted_drawn

/-- The octant of the circle of radius 4. -/
theorem framebufferCircle_points_four :
  circleVisits some 5 10 10 4
      = some ([(4, 0), (4, 1), (4, 2), (3, 3)].flatMap (reflections 10 10))
    ∧ ∃ octant : List (ℤ × ℤ), octant.head? = some (4, 0) ∧ octant.IsChain OctantMoves
      ∧ ∀ p ∈ octant, p.2 ≤ p.1 ∧ p.1 ^ 2 - p.1 + p.2 ^ 2 ≤ 4 ^ 2
        ∧ 4 ^ 2 ≤ p.1 ^ 2 + p.1 + p.2 ^ 2
  := by
  use by decide
  obtain ⟨octant, -, hhead, hmoves, hcircle, -⟩ := framebufferCircle_points 10 10 (r := 4)
    (by decide)
  exact ⟨octant, hhead, hmoves, hcircle⟩

end CTemplate

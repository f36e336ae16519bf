import CTemplate.Core.Error
import CTemplate.Core.Int
import Mathlib.Tactic.Linarith

/-!
# The framebuffer

The picture of `rendering/software_renderer.c`, whose pixels are in one array, row by row.  What is
drawn outside the picture is ignored.

The loops that draw are written for any kind of picture: `plot x y` is what happens to the picture
when they set the pixel at `(x, y)`.  With `framebuffer_set_pixel` for `plot` they draw into a
framebuffer, and with `visit` they list the points that they set.
-/

namespace CTemplate

/-- `Framebuffer`.  The pixels are `none` for a null pointer, and otherwise there are as many as
the width and the height say. -/
structure Framebuffer where
  pixels : Option (List UInt32)
  width : ℤ
  height : ℤ
  sized : ∀ ps ∈ pixels, (0 < width ∧ width ≤ intMax) ∧ (0 < height ∧ height ≤ intMax)
    ∧ ps.length = height.toNat * width.toNat
  deriving DecidableEq

/-- `framebuffer_create` -/
def framebufferCreate (calloc : Calloc) (width height : CInt) : Except ErrorCode Framebuffer :=
  if hpos : width.1 ≤ 0 ∨ height.1 ≤ 0 then .error .invalidArg
  else
    let w := width.1.toNat
    let h := height.1.toNat
    if h > sizeMax / w then .error .overflow
    else if w * h > sizeMax / 4 then .error .overflow
    else if calloc.grants (w * h) 4 then
      .ok
        { pixels := some (List.replicate (w * h) 0)
          width := width.1
          height := height.1
          sized := by
            rintro ps hps
            cases hps
            obtain ⟨hw, hh⟩ := not_or.mp hpos
            refine ⟨⟨Int.not_le.mp hw, width.2.2⟩, ⟨Int.not_le.mp hh, height.2.2⟩, ?_⟩
            rw [List.length_replicate, Nat.mul_comm] }
    else .error .nomem

/-- The framebuffer after its pixel with index `i` was set. -/
def Framebuffer.store (fb : Framebuffer) (i : ℕ) (color : UInt32) : Framebuffer where
  pixels := fb.pixels.map (·.set i color)
  width := fb.width
  height := fb.height
  sized := by
    rintro ps hps
    obtain ⟨ps, hps', rfl⟩ := Option.map_eq_some_iff.mp hps
    rw [List.length_set]
    apply fb.sized ps hps'

/-- The index of a pixel, which is computed with values of type `size_t`. -/
def Framebuffer.index (fb : Framebuffer) (x y : ℤ) : ℕ :=
  toSize (toSize (y.toNat * fb.width.toNat) + x.toNat)

/-- `framebuffer_set_pixel` -/
def framebufferSetPixel (fb : Framebuffer) (x y : ℤ) (color : UInt32) : Framebuffer :=
  if fb.pixels = none then fb
  else if x < 0 ∨ x ≥ fb.width ∨ y < 0 ∨ y ≥ fb.height then fb
  else fb.store (fb.index x y) color

/-- Set the pixel at `(x, y)`, in a list of all the points that were set. -/
def visit (x y : ℤ) (points : List (ℤ × ℤ)) : List (ℤ × ℤ) :=
  points ++ [(x, y)]

/-- The picture after the pixels at the points of a list were set, one after another. -/
def drawn {σ : Type} (plot : ℤ → ℤ → σ → σ) (canvas : σ) (points : List (ℤ × ℤ)) : σ :=
  points.foldl (fun canvas p => plot p.1 p.2 canvas) canvas

/-! ### Pixels -/

/-- The point `(x, y)` lies inside the framebuffer. -/
def Framebuffer.Inside (fb : Framebuffer) (x y : ℤ) : Prop :=
  (0 ≤ x ∧ x < fb.width) ∧ 0 ≤ y ∧ y < fb.height

instance (fb : Framebuffer) (x y : ℤ) : Decidable (fb.Inside x y) :=
  inferInstanceAs (Decidable (_ ∧ _))

/-- The pixel at `(x, y)`, or `none` when there is none. -/
def Framebuffer.pixel (fb : Framebuffer) (x y : ℤ) : Option UInt32 :=
  if fb.Inside x y then fb.pixels.bind (·[y.toNat * fb.width.toNat + x.toNat]?) else none

variable {fb : Framebuffer} {ps : List UInt32} {x y x' y' : ℤ} {color : UInt32}

/-- A point inside the framebuffer has its own place in the array. -/
theorem Framebuffer.index_lt (hps : fb.pixels = some ps) (h : fb.Inside x y) :
  y.toNat * fb.width.toNat + x.toNat < ps.length
  := by
  obtain ⟨-, -, hlength⟩ := fb.sized ps hps
  obtain ⟨⟨hx, hw⟩, hy, hh⟩ := h
  rw [hlength]
  calc y.toNat * fb.width.toNat + x.toNat
      < y.toNat * fb.width.toNat + fb.width.toNat := by omega
    _ = (y.toNat + 1) * fb.width.toNat := (Nat.succ_mul _ _).symm
    _ ≤ fb.height.toNat * fb.width.toNat := Nat.mul_le_mul_right _ (by omega)

/-- The computation of the index of a pixel does not wrap around. -/
theorem Framebuffer.index_eq (hps : fb.pixels = some ps) (h : fb.Inside x y) :
  fb.index x y = y.toNat * fb.width.toNat + x.toNat
  := by
  obtain ⟨⟨-, hwidth⟩, ⟨-, hheight⟩, hlength⟩ := fb.sized ps hps
  have hlt := Framebuffer.index_lt hps h
  have hle : ps.length ≤ intMax * intMax := by
    rw [hlength]
    apply Nat.mul_le_mul
    · omega
    · omega
  have hmax : intMax * intMax ≤ sizeMax := by
    decide
  have hrow : y.toNat * fb.width.toNat ≤ sizeMax := by omega
  rw [Framebuffer.index, toSize_of_le hrow, toSize_of_le (by omega)]

theorem Framebuffer.index_inj
    (h : fb.Inside x y) (h' : fb.Inside x' y')
    (heq : y.toNat * fb.width.toNat + x.toNat = y'.toNat * fb.width.toNat + x'.toNat) :
  x = x' ∧ y = y'
  := by
  obtain ⟨⟨hx, hw⟩, hy, -⟩ := h
  obtain ⟨⟨hx', hw'⟩, hy', -⟩ := h'
  have hpos : 0 < fb.width.toNat := by omega
  have hcol : x.toNat = x'.toNat := by
    rw [← Nat.mod_eq_of_lt (show x.toNat < fb.width.toNat by omega), ← Nat.mul_add_mod', heq,
      Nat.mul_add_mod', Nat.mod_eq_of_lt (by omega)]
  rw [hcol, Nat.add_right_cancel_iff] at heq
  have hrow := Nat.eq_of_mul_eq_mul_right hpos heq
  omega

/-- The size of a picture is of type `size_t`, so `framebuffer_create` fails only for want of memory
or for a picture without pixels, and gives a picture all of whose pixels are zero. -/
theorem framebufferCreate_cases (calloc : Calloc) (width height : CInt) :
  (framebufferCreate calloc width height = .error .invalidArg ∧ (width.1 ≤ 0 ∨ height.1 ≤ 0))
    ∨ (framebufferCreate calloc width height = .error .nomem
      ∧ calloc.grants (width.1.toNat * height.1.toNat) 4 = false)
    ∨ ∃ fb, framebufferCreate calloc width height = .ok fb ∧ fb.width = width.1
      ∧ fb.height = height.1
      ∧ ∀ x y, fb.pixel x y = if fb.Inside x y then some 0 else none
  := by
  rw [framebufferCreate]
  split
  case isTrue hpos => exact .inl ⟨rfl, hpos⟩
  case isFalse hpos =>
  right
  have hw := width.2.2
  have hh := height.2.2
  rw [not_or, Int.not_le, Int.not_le] at hpos
  have hle : width.1.toNat * height.1.toNat ≤ intMax * intMax := by
    apply Nat.mul_le_mul
    · omega
    · omega
  have hmax : intMax * intMax ≤ sizeMax / 4 := by
    decide
  have hfirst : ¬ height.1.toNat > sizeMax / width.1.toNat := by
    rw [Nat.not_lt, Nat.le_div_iff_mul_le (by omega), Nat.mul_comm]
    omega
  dsimp only
  rw [if_neg hfirst, if_neg (Nat.not_lt.mpr (Nat.le_trans hle hmax))]
  split
  case isTrue hgrants =>
    right
    refine ⟨_, rfl, rfl, rfl, ?_⟩
    intro x y
    rw [Framebuffer.pixel]
    split
    case isTrue hin =>
      have hlt := Framebuffer.index_lt rfl hin
      rw [List.length_replicate] at hlt
      rw [Option.bind_some, List.getElem?_replicate_of_lt hlt]
    case isFalse hout => rfl
  case isFalse hgrants =>
    left
    use rfl
    rwa [Bool.not_eq_true] at hgrants

/-- What is in `fb'` after the points were drawn into `fb` in one color. -/
structure Framebuffer.Painted
    (fb : Framebuffer) (color : UInt32) (points : List (ℤ × ℤ)) (fb' : Framebuffer) : Prop where
  width_eq : fb'.width = fb.width
  height_eq : fb'.height = fb.height
  null_iff : fb'.pixels = none ↔ fb.pixels = none
  visited : fb.pixels ≠ none → ∀ p ∈ points, fb.Inside p.1 p.2 → fb'.pixel p.1 p.2 = some color
  other : ∀ x y, (x, y) ∉ points → fb'.pixel x y = fb.pixel x y

theorem Framebuffer.Painted.refl (fb : Framebuffer) (color : UInt32) :
  fb.Painted color [] fb
  where
  width_eq := rfl
  height_eq := rfl
  null_iff := Iff.rfl
  visited := fun _ _ hp => absurd hp List.not_mem_nil
  other := fun _ _ _ => rfl

/-- Writing the pixel of a point inside the framebuffer paints this point. -/
theorem Framebuffer.painted_store
    (hps : fb.pixels = some ps) (hin : fb.Inside x y) (color : UInt32) :
  fb.Painted color [(x, y)] (fb.store (fb.index x y) color)
  where
  width_eq := rfl
  height_eq := rfl
  null_iff := Option.map_eq_none_iff
  visited := by
    intro _ p hp _
    rw [List.mem_singleton] at hp
    subst hp
    have hin' : (fb.store (fb.index x y) color).Inside x y := hin
    rw [pixel, if_pos hin', store]
    dsimp only
    rw [hps, Option.map_some, Option.bind_some, index_eq hps hin,
      List.getElem?_set_self (index_lt hps hin)]
  other := by
    intro x' y' hne
    rw [List.mem_singleton, Prod.mk.injEq] at hne
    rw [pixel, pixel]
    apply ite_congr rfl _ (fun _ => rfl)
    intro hin'
    rw [store]
    dsimp only
    rw [hps, Option.map_some, Option.bind_some, Option.bind_some, index_eq hps hin,
      List.getElem?_set_ne]
    intro heq
    obtain ⟨rfl, rfl⟩ := index_inj hin hin' heq
    exact hne ⟨rfl, rfl⟩

/-- Setting the pixel at a point paints this point and nothing else. -/
theorem painted_framebufferSetPixel (fb : Framebuffer) (x y : ℤ) (color : UInt32) :
  fb.Painted color [(x, y)] (framebufferSetPixel fb x y color)
  := by
  rw [framebufferSetPixel]
  split
  case isTrue hnull =>
    exact { Framebuffer.Painted.refl fb color with
      visited := fun hps => absurd hnull hps
      other := fun _ _ _ => rfl }
  case isFalse hnull =>
  obtain ⟨ps, hps⟩ := Option.ne_none_iff_exists'.mp hnull
  split
  case isTrue hout =>
    exact { Framebuffer.Painted.refl fb color with
      visited := by
        intro _ p hp hin
        rw [List.mem_singleton] at hp
        subst hp
        obtain ⟨⟨hx, hw⟩, hy, hh⟩ := hin
        dsimp only at hx hw hy hh
        omega
      other := fun _ _ _ => rfl }
  case isFalse hout =>
    apply Framebuffer.painted_store hps
    rw [Framebuffer.Inside]
    omega

/-- Painting points and then more points paints all of them. -/
theorem Framebuffer.Painted.append
    {fb fb' fb'' : Framebuffer} {points points' : List (ℤ × ℤ)}
    (h : fb.Painted color points fb') (h' : fb'.Painted color points' fb'') :
  fb.Painted color (points ++ points') fb''
  where
  width_eq := h'.width_eq.trans h.width_eq
  height_eq := h'.height_eq.trans h.height_eq
  null_iff := h'.null_iff.trans h.null_iff
  visited := by
    intro hps p hp hin
    have hin' : fb'.Inside p.1 p.2 := by
      rw [Framebuffer.Inside, h.width_eq, h.height_eq]
      exact hin
    by_cases hmem : p ∈ points'
    · apply h'.visited (mt h.null_iff.mp hps) p hmem hin'
    · rw [h'.other p.1 p.2 hmem]
      apply h.visited hps p ((List.mem_append.mp hp).resolve_right hmem) hin
  other := by
    intro x y hne
    rw [List.mem_append, not_or] at hne
    rw [h'.other x y hne.2, h.other x y hne.1]

/-- Setting the pixels at the points of a list paints these points. -/
theorem painted_drawn (fb : Framebuffer) (color : UInt32) (points : List (ℤ × ℤ)) :
  fb.Painted color points (drawn (fun x y fb => framebufferSetPixel fb x y color) fb points)
  := by
  induction points generalizing fb with
  | nil => apply Framebuffer.Painted.refl
  | cons p points ih => apply (painted_framebufferSetPixel fb p.1 p.2 color).append (ih _)

/-- Listing the points of a list gives this list. -/
theorem drawn_visit (points points' : List (ℤ × ℤ)) :
  drawn visit points points' = points ++ points'
  := by
  induction points' generalizing points with
  | nil => rw [drawn, List.foldl_nil, List.append_nil]
  | cons p points' ih =>
      rw [drawn, List.foldl_cons, ← drawn, ih, visit, List.append_assoc, List.singleton_append]

end CTemplate

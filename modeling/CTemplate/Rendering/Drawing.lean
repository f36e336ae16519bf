import CTemplate.Library.Layers
import CTemplate.Rendering.Shapes

/-!
# Drawings

A drawing is a list of calls of the drawing functions on one framebuffer.  It has a meaning exactly
when none of its calls overflows, and then every pixel has the color of the last call whose shape
covers it, `drawing_paints`: the framebuffer shows the shapes as layers, one over another.
-/

namespace CTemplate

open Layers

/-! ### Clearing -/

/-- The loop of `framebuffer_clear`. -/
def clearLoop (color : UInt32) (n : ℕ) (ps : List UInt32) : List UInt32 :=
  (List.range n).foldl (fun ps i => ps.set i color) ps

theorem length_clearLoop (color : UInt32) (n : ℕ) (ps : List UInt32) :
  (clearLoop color n ps).length = ps.length
  := by
  rw [clearLoop]
  induction n with
  | zero => rfl
  | succ n ih => rw [List.range_succ, List.foldl_append, List.foldl_cons, List.foldl_nil,
      List.length_set, ih]

/-- `framebuffer_clear` -/
def framebufferClear (fb : Framebuffer) (color : UInt32) : Framebuffer where
  pixels := fb.pixels.map (clearLoop color (toSize (fb.width.toNat * fb.height.toNat)))
  width := fb.width
  height := fb.height
  sized := by
    rintro ps hps
    obtain ⟨ps, hps', rfl⟩ := Option.map_eq_some_iff.mp hps
    rw [length_clearLoop]
    apply fb.sized ps hps'

/-- `framebuffer_rgb` -/
def framebufferRgb (r g b : UInt8) : UInt32 :=
  (0xFF000000 : UInt32) ||| (r.toUInt32 <<< 16) ||| (g.toUInt32 <<< 8) ||| b.toUInt32

/-- The loop sets the pixels that it has come to. -/
theorem getElem?_clearLoop (color : UInt32) {n i : ℕ} {ps : List UInt32} (hi : i < n)
    (hlt : i < ps.length) :
  (clearLoop color n ps)[i]? = some color
  := by
  induction n with
  | zero => cases hi
  | succ n ih =>
      have hsucc : clearLoop color (n + 1) ps = (clearLoop color n ps).set n color := by
        rw [clearLoop, List.range_succ, List.foldl_append]
        rfl
      rw [hsucc]
      rcases Nat.lt_or_eq_of_le (Nat.le_of_lt_succ hi) with hlt' | rfl
      · rw [List.getElem?_set_ne (Nat.ne_of_gt hlt'), ih hlt']
      · apply List.getElem?_set_self
        rwa [length_clearLoop]

variable {fb fb' : Framebuffer}

/-- The number of pixels is of type `size_t`. -/
theorem Framebuffer.length_le {ps : List UInt32} (hps : fb.pixels = some ps) :
  ps.length ≤ sizeMax
  := by
  obtain ⟨⟨-, hwidth⟩, ⟨-, hheight⟩, hlength⟩ := fb.sized ps hps
  have hmax : intMax * intMax ≤ sizeMax := by
    decide
  rw [hlength]
  apply Nat.le_trans (Nat.mul_le_mul _ _) hmax
  · omega
  · omega

/-- `framebuffer_clear` sets every pixel. -/
theorem pixel_framebufferClear
    (hps : fb.pixels ≠ none) (color : UInt32) {x y : ℤ} (hin : fb.Inside x y) :
  (framebufferClear fb color).pixel x y = some color
  := by
  obtain ⟨ps, hps⟩ := Option.ne_none_iff_exists'.mp hps
  have hlt := Framebuffer.index_lt hps hin
  have hn : toSize (fb.width.toNat * fb.height.toNat) = ps.length := by
    rw [Nat.mul_comm, ← (fb.sized ps hps).2.2, toSize_of_le (Framebuffer.length_le hps)]
  have hin' : (framebufferClear fb color).Inside x y := hin
  rw [Framebuffer.pixel, if_pos hin', framebufferClear]
  dsimp only
  rw [hps, Option.map_some, Option.bind_some, hn]
  apply getElem?_clearLoop color hlt hlt

/-! ### Calls -/

/-- A call of one of the drawing functions. -/
inductive DrawCall where
  | clear (color : UInt32)
  | setPixel (x y : CInt) (color : UInt32)
  | line (x0 y0 x1 y1 : CInt) (color : UInt32)
  | fillRect (x y w h : CInt) (color : UInt32)
  | circle (cx cy r : CInt) (color : UInt32)

namespace DrawCall

/-- What the call does to a framebuffer, with loops of at most `fuel` rounds. -/
def run (fuel : ℕ) (fb : Framebuffer) : DrawCall → Option Framebuffer
  | clear color => some (framebufferClear fb color)
  | setPixel x y color => some (framebufferSetPixel fb x.1 y.1 color)
  | line x0 y0 x1 y1 color => framebufferLine int32 fuel fb x0.1 y0.1 x1.1 y1.1 color
  | fillRect x y w h color => framebufferFillRect int32 fuel fb x.1 y.1 w.1 h.1 color
  | circle cx cy r color => framebufferCircle int32 fuel fb cx.1 cy.1 r.1 color

/-- Nothing overflows in the call. -/
def Fits : DrawCall → Prop
  | clear _ => True
  | setPixel _ _ _ => True
  | line x0 y0 x1 y1 _ => LineFits |x1.1 - x0.1| |y1.1 - y0.1|
  | fillRect x y w h _ => RectFits x.1 y.1 w.1 h.1
  | circle cx cy r _ => CircleFits cx.1 cy.1 r.1

/-- The points that the call covers. -/
def region : DrawCall → Set (ℤ × ℤ)
  | clear _ => Set.univ
  | setPixel x y _ => {(x.1, y.1)}
  | line x0 y0 x1 y1 _ => lineRegion x0.1 y0.1 x1.1 y1.1
  | fillRect x y w h _ => rectRegion x.1 y.1 w.1 h.1
  | circle cx cy r _ => circleRegion cx.1 cy.1 r.1

/-- The color of the call. -/
def color : DrawCall → UInt32
  | clear color => color
  | setPixel _ _ color => color
  | line _ _ _ _ color => color
  | fillRect _ _ _ _ color => color
  | circle _ _ _ color => color

/-- The call as a layer over the picture. -/
def layer (call : DrawCall) : Layer (ℤ × ℤ) UInt32 where
  region := call.region
  value := call.color

theorem over_of_mem {call : DrawCall} {picture : ℤ × ℤ → UInt32} {p : ℤ × ℤ}
    (hp : p ∈ call.region) :
  call.layer.over picture p = call.color
  := Layer.over_of_mem hp

theorem over_of_notMem {call : DrawCall} {picture : ℤ × ℤ → UInt32} {p : ℤ × ℤ}
    (hp : p ∉ call.region) :
  call.layer.over picture p = picture p
  := Layer.over_of_notMem hp

end DrawCall

/-- The calls of a drawing, one after another. -/
def drawAll (fuel : ℕ) (fb : Framebuffer) (calls : List DrawCall) : Option Framebuffer :=
  calls.foldlM (fun fb call => call.run fuel fb) fb

/-! ### One call -/

/-- A drawing function sets the pixels at the points of `region`, on any kind of picture. -/
structure Draws (draw : ∀ σ : Type, (ℤ → ℤ → σ → σ) → ℕ → σ → Option σ) (region : Set (ℤ × ℤ)) :
    Prop where
  exists_points : ∃ (points : List (ℤ × ℤ)) (n : ℕ), (∀ p, p ∈ points ↔ p ∈ region)
    ∧ ∀ (σ : Type) (plot : ℤ → ℤ → σ → σ) (fuel : ℕ) (canvas : σ), n ≤ fuel →
      draw σ plot fuel canvas = some (drawn plot canvas points)
  mono : ∀ (σ : Type) (plot : ℤ → ℤ → σ → σ) (fuel fuel' : ℕ) (canvas r : σ),
    draw σ plot fuel canvas = some r → fuel ≤ fuel' → draw σ plot fuel' canvas = some r

theorem draws_line {x0 y0 x1 y1 : CInt} (h : LineFits |x1.1 - x0.1| |y1.1 - y0.1|) :
  Draws (fun _ plot fuel canvas => drawLine int32 plot fuel canvas x0.1 y0.1 x1.1 y1.1)
    (lineRegion x0.1 y0.1 x1.1 y1.1)
  where
  exists_points := by
    obtain ⟨points, -, hdraw⟩ := exists_drawLine x0.1 y0.1 x1.1 y1.1
    have hvisits : lineVisits some points.length x0.1 y0.1 x1.1 y1.1 = some points := by
      rw [lineVisits, hdraw visit [] (Nat.le_refl _), drawn_visit, List.nil_append]
    refine ⟨points, points.length, mem_lineVisits_iff hvisits, ?_⟩
    intro σ plot fuel canvas hfuel
    rw [drawLine_int32 h x0.2 y0.2 x1.2 y1.2, hdraw plot canvas hfuel]
  mono := by
    intro σ plot fuel fuel' canvas r hdraw hle
    rw [drawLine_eq_run h.start] at hdraw ⊢
    apply While.run_of_le hdraw hle

theorem draws_rect {x y w h : CInt} (hfits : RectFits x.1 y.1 w.1 h.1) :
  Draws (fun _ plot fuel canvas => drawRect int32 plot fuel canvas x.1 y.1 w.1 h.1)
    (rectRegion x.1 y.1 w.1 h.1)
  where
  exists_points := by
    refine ⟨rectPoints x.1 y.1 w.1 h.1, max w.1.toNat h.1.toNat + 1, mem_rectPoints_iff, ?_⟩
    intro σ plot fuel canvas hfuel
    rw [drawRect_int32 plot fuel canvas x.2 y.2 hfits, drawRect_eq_drawn]
    · omega
    · omega
  mono := by
    intro σ plot fuel fuel' canvas r hdraw hle
    apply While.run_of_le _ hle
    apply While.run_mono _ hdraw
    rintro ⟨row, canvas⟩ next hstep
    rw [forStep] at hstep ⊢
    obtain ⟨bottom, hbottom, hstep⟩ := Option.bind_eq_some_iff.mp hstep
    rw [hbottom, Option.bind_some]
    dsimp only at hstep ⊢
    split at hstep
    case isTrue hlt =>
      obtain ⟨canvas', hrow, hstep⟩ := Option.bind_eq_some_iff.mp hstep
      rw [if_pos hlt, While.run_of_le hrow hle, Option.bind_some, hstep]
    case isFalse hge => rw [if_neg hge, hstep]

theorem draws_circle {cx cy r : CInt} (h : CircleFits cx.1 cy.1 r.1) :
  Draws (fun _ plot fuel canvas => drawCircle int32 plot fuel canvas cx.1 cy.1 r.1)
    (circleRegion cx.1 cy.1 r.1)
  where
  exists_points := by
    obtain ⟨octant, -, -, hdraw⟩ := exists_drawCircle cx.1 cy.1 r.1
    have hvisits : circleVisits some (octant.length + 1) cx.1 cy.1 r.1
        = some (octant.flatMap (reflections cx.1 cy.1)) := by
      rw [circleVisits, hdraw visit [] (Nat.lt_succ_self _), drawn_visit, List.nil_append]
    refine ⟨_, octant.length + 1, mem_circleVisits_iff hvisits, ?_⟩
    intro σ plot fuel canvas hfuel
    rw [drawCircle_int32 h r.2, hdraw plot canvas hfuel]
  mono := by
    intro σ plot fuel fuel' canvas r' hdraw hle
    rw [drawCircle, int32_of_fits (h.start r.2), Option.bind_some] at hdraw ⊢
    apply While.run_of_le hdraw hle

/-- The framebuffer shows the picture at its pixels. -/
def Framebuffer.Shows (fb : Framebuffer) (picture : ℤ × ℤ → UInt32) : Prop :=
  ∀ x y, fb.Inside x y → fb.pixel x y = some (picture (x, y))

/-- What a call leaves: a framebuffer of the same size, with the layer over its picture. -/
structure DrawCall.Done (call : DrawCall) (fb fb' : Framebuffer) : Prop where
  width_eq : fb'.width = fb.width
  height_eq : fb'.height = fb.height
  pixels_ne : fb'.pixels ≠ none
  shows : ∀ picture, fb.Shows picture → fb'.Shows (call.layer.over picture)

/-- Painting the points of the region of a call is what the call is to do. -/
theorem DrawCall.done_of_painted
    {call : DrawCall} {points : List (ℤ × ℤ)} (hps : fb.pixels ≠ none)
    (hmem : ∀ p, p ∈ points ↔ p ∈ call.region) (h : fb.Painted call.color points fb') :
  call.Done fb fb'
  where
  width_eq := h.width_eq
  height_eq := h.height_eq
  pixels_ne := mt h.null_iff.mp hps
  shows := by
    intro picture hshows x y hin
    rw [Framebuffer.Inside, h.width_eq, h.height_eq] at hin
    by_cases hp : (x, y) ∈ call.region
    · rw [over_of_mem hp]
      apply h.visited hps (x, y) ((hmem _).mpr hp) hin
    · rw [over_of_notMem hp, h.other x y (mt (hmem _).mp hp)]
      apply hshows x y hin

variable {call : DrawCall} {draw : ∀ σ : Type, (ℤ → ℤ → σ → σ) → ℕ → σ → Option σ}

/-- A function that draws the region of a call does what the call is to do. -/
theorem Draws.done
    (h : Draws draw call.region) {fuel : ℕ} (hps : fb.pixels ≠ none)
    (hrun : draw _ (fun x y fb => framebufferSetPixel fb x y call.color) fuel fb = some fb') :
  call.Done fb fb'
  := by
  obtain ⟨points, n, hmem, hdraw⟩ := h.exists_points
  have hmost := h.mono _ _ _ (max n fuel) _ _ hrun (le_max_right n fuel)
  rw [hdraw _ _ _ _ (le_max_left n fuel), Option.some_inj] at hmost
  rw [← hmost]
  apply DrawCall.done_of_painted hps hmem (painted_drawn _ _ _)

/-- Such a function ends on every framebuffer, given enough rounds. -/
theorem Draws.exists_run {region : Set (ℤ × ℤ)} (h : Draws draw region) (color : UInt32) :
  ∃ n, ∀ fuel fb, n ≤ fuel →
    ∃ fb', draw _ (fun x y fb => framebufferSetPixel fb x y color) fuel fb = some fb'
  := by
  obtain ⟨points, n, -, hdraw⟩ := h.exists_points
  use n
  intro fuel fb hfuel
  exact ⟨_, hdraw _ _ fuel fb hfuel⟩

namespace DrawCall

/-- Nothing overflows in a call that has a result. -/
theorem fits_of_run {fuel : ℕ} (hrun : call.run fuel fb = some fb') :
  call.Fits
  := by
  cases call with
  | clear color => trivial
  | setPixel x y color => trivial
  | line x0 y0 x1 y1 color => apply lineFits_of_drawLine hrun
  | fillRect x y w h color =>
      by_contra hbad
      cases (drawRect_of_not_fits _ fuel fb hbad).symm.trans hrun
  | circle cx cy r color => apply circleFits_of_drawCircle hrun

/-- A call that has a result did what it is to do. -/
theorem done_of_run {fuel : ℕ} (hps : fb.pixels ≠ none) (hrun : call.run fuel fb = some fb') :
  call.Done fb fb'
  := by
  have hfits := fits_of_run hrun
  cases call with
  | clear color =>
      cases hrun
      refine ⟨rfl, rfl, mt Option.map_eq_none_iff.mp hps, ?_⟩
      intro picture _ x y hin
      rw [pixel_framebufferClear hps color hin]
      rw [over_of_mem (Set.mem_univ (x, y))]
      rfl
  | setPixel x y color =>
      cases hrun
      have hpainted := painted_framebufferSetPixel fb x.1 y.1 color
      exact done_of_painted hps (fun _ => List.mem_singleton) hpainted
  | line x0 y0 x1 y1 color => apply (draws_line hfits).done hps hrun
  | fillRect x y w h color => apply (draws_rect hfits).done hps hrun
  | circle cx cy r color => apply (draws_circle hfits).done hps hrun

/-- A call in which nothing overflows has a result. -/
theorem exists_run (hfits : call.Fits) :
  ∃ n, ∀ fuel fb, n ≤ fuel → ∃ fb', call.run fuel fb = some fb'
  := by
  cases call with
  | clear color => exact ⟨0, fun _ _ _ => ⟨_, rfl⟩⟩
  | setPixel x y color => exact ⟨0, fun _ _ _ => ⟨_, rfl⟩⟩
  | line x0 y0 x1 y1 color => apply (draws_line hfits).exists_run color
  | fillRect x y w h color => apply (draws_rect hfits).exists_run color
  | circle cx cy r color => apply (draws_circle hfits).exists_run color

end DrawCall

/-! ### All calls -/

variable {calls : List DrawCall}

/-- Nothing overflows in the calls of a drawing that has a result. -/
theorem fits_of_drawAll {fuel : ℕ} (hrun : drawAll fuel fb calls = some fb') :
  ∀ call ∈ calls, call.Fits
  := by
  induction calls generalizing fb with
  | nil => exact fun _ hcall => absurd hcall List.not_mem_nil
  | cons call calls ih =>
      rw [drawAll, List.foldlM_cons] at hrun
      obtain ⟨fb₁, hcall, hcalls⟩ := Option.bind_eq_some_iff.mp hrun
      rw [List.forall_mem_cons]
      exact ⟨DrawCall.fits_of_run hcall, ih hcalls⟩

/-- A drawing in whose calls nothing overflows has a result. -/
theorem exists_drawAll (hfits : ∀ call ∈ calls, call.Fits) :
  ∃ n, ∀ fuel fb, n ≤ fuel → ∃ fb', drawAll fuel fb calls = some fb'
  := by
  induction calls with
  | nil => exact ⟨0, fun _ fb _ => ⟨fb, rfl⟩⟩
  | cons call calls ih =>
      obtain ⟨hcall, hcalls⟩ := List.forall_mem_cons.mp hfits
      obtain ⟨n, hn⟩ := DrawCall.exists_run hcall
      obtain ⟨m, hm⟩ := ih hcalls
      use max n m
      intro fuel fb hfuel
      obtain ⟨fb₁, hrun⟩ := hn fuel fb (le_trans (le_max_left n m) hfuel)
      obtain ⟨fb₂, hrun'⟩ := hm fuel fb₁ (le_trans (le_max_right n m) hfuel)
      use fb₂
      rw [drawAll, List.foldlM_cons, hrun]
      exact hrun'

/-- The framebuffer shows the shapes of a drawing as layers over its picture. -/
theorem shows_of_drawAll
    {fuel : ℕ} (hps : fb.pixels ≠ none) (hrun : drawAll fuel fb calls = some fb')
    {picture : ℤ × ℤ → UInt32} (hshows : fb.Shows picture) :
  (fb'.width = fb.width ∧ fb'.height = fb.height)
    ∧ fb'.Shows (paint (calls.map DrawCall.layer) picture)
  := by
  induction calls generalizing fb picture with
  | nil =>
      cases hrun
      exact ⟨⟨rfl, rfl⟩, hshows⟩
  | cons call calls ih =>
      rw [drawAll, List.foldlM_cons] at hrun
      obtain ⟨fb₁, hcall, hcalls⟩ := Option.bind_eq_some_iff.mp hrun
      have hdone := DrawCall.done_of_run hps hcall
      obtain ⟨⟨hwidth, hheight⟩, hpaint⟩ := ih hdone.pixels_ne hcalls (hdone.shows picture hshows)
      exact ⟨⟨hwidth.trans hdone.width_eq, hheight.trans hdone.height_eq⟩, hpaint⟩

/-- The picture in a framebuffer. -/
def Framebuffer.picture (fb : Framebuffer) (p : ℤ × ℤ) : UInt32 :=
  (fb.pixel p.1 p.2).getD 0

theorem Framebuffer.shows_picture (hps : fb.pixels ≠ none) :
  fb.Shows fb.picture
  := by
  intro x y hin
  obtain ⟨ps, hps⟩ := Option.ne_none_iff_exists'.mp hps
  have hpixel : fb.pixel x y = ps[y.toNat * fb.width.toNat + x.toNat]? := by
    rw [pixel, if_pos hin, hps]
    rfl
  rw [picture, hpixel, List.getElem?_eq_getElem (Framebuffer.index_lt hps hin)]
  rfl

/-- A drawing has a result exactly when nothing overflows in its calls, and then each pixel has the
color of the last call that covers it, or is what it was. -/
theorem drawing_paints (fb : Framebuffer) (hps : fb.pixels ≠ none) (calls : List DrawCall) :
  ((∃ fuel fb', drawAll fuel fb calls = some fb') ↔ ∀ call ∈ calls, call.Fits)
    ∧ ∀ fuel fb', drawAll fuel fb calls = some fb' →
      (fb'.width = fb.width ∧ fb'.height = fb.height)
        ∧ ∀ x y, fb.Inside x y →
          ((∀ call ∈ calls, (x, y) ∉ call.region) ∧ fb'.pixel x y = fb.pixel x y)
            ∨ ∃ under call above, calls = under ++ call :: above ∧ (x, y) ∈ call.region
              ∧ (∀ call' ∈ above, (x, y) ∉ call'.region) ∧ fb'.pixel x y = some call.color
  := by
  refine ⟨⟨?_, ?_⟩, ?_⟩
  · rintro ⟨fuel, fb', hrun⟩
    apply fits_of_drawAll hrun
  · intro hfits
    obtain ⟨n, hn⟩ := exists_drawAll hfits
    exact ⟨n, hn n fb (Nat.le_refl n)⟩
  · intro fuel fb' hrun
    have hpicture := Framebuffer.shows_picture hps
    obtain ⟨hsize, hshows⟩ := shows_of_drawAll hps hrun hpicture
    use hsize
    intro x y hin
    have hin' : fb'.Inside x y := by
      rwa [Framebuffer.Inside, hsize.1, hsize.2]
    rw [hshows x y hin', hpicture x y hin]
    rcases paint_cases (calls.map DrawCall.layer) fb.picture (x, y) with
      ⟨hnone, hpaint⟩ | ⟨under, layer, above, hlayers, hlayer, habove, hpaint⟩
    · left
      use fun call hcall => hnone call.layer (List.mem_map_of_mem hcall)
      rw [hpaint]
    · right
      obtain ⟨under, rest, rfl, rfl, hrest⟩ := List.map_eq_append_iff.mp hlayers
      obtain ⟨call, above, rfl, rfl, rfl⟩ := List.map_eq_cons_iff.mp hrest
      refine ⟨under, call, above, rfl, hlayer, ?_, congrArg some hpaint⟩
      exact fun call' hcall' => habove call'.layer (List.mem_map_of_mem hcall')

/-! ### The drawing of the demo -/

/-- A constant of type `int`. -/
def constant (n : ℕ) (h : n ≤ intMax := by decide) : CInt :=
  ⟨n, by constructor <;> omega⟩

/-- The drawing of `rendering_demo`: three rectangles, a triangle, a circle and two lines across a
picture of 320 by 240 pixels. -/
def renderingDemo : List DrawCall :=
  [.clear (framebufferRgb 20 20 30),
    .fillRect (constant 10) (constant 10) (constant 80) (constant 60) (framebufferRgb 200 50 50),
    .fillRect (constant 50) (constant 40) (constant 80) (constant 60) (framebufferRgb 50 200 50),
    .fillRect (constant 90) (constant 70) (constant 80) (constant 60) (framebufferRgb 50 50 200),
    .line (constant 200) (constant 20) (constant 280) (constant 180) (framebufferRgb 255 255 255),
    .line (constant 280) (constant 180) (constant 120) (constant 180) (framebufferRgb 255 255 255),
    .line (constant 120) (constant 180) (constant 200) (constant 20) (framebufferRgb 255 255 255),
    .circle (constant 250) (constant 100) (constant 40) (framebufferRgb 255 200 0),
    .line (constant 160) (constant 0) (constant 160) (constant 239) (framebufferRgb 100 100 100),
    .line (constant 0) (constant 120) (constant 319) (constant 120) (framebufferRgb 100 100 100)]

theorem small_of_le {z : ℤ} (h : 0 ≤ z ∧ z ≤ 319) :
  Small z
  := by
  constructor <;> omega

theorem fits_renderingDemo :
  ∀ call ∈ renderingDemo, call.Fits
  := by
  simp only [renderingDemo, List.forall_mem_cons]
  refine ⟨trivial, ?_, ?_, ?_, ?_, ?_, ?_, ?_, ?_, ?_, fun _ h => absurd h List.not_mem_nil⟩
  · apply rectFits_of_small <;> apply small_of_le <;> decide
  · apply rectFits_of_small <;> apply small_of_le <;> decide
  · apply rectFits_of_small <;> apply small_of_le <;> decide
  · apply lineFits_of_small <;> apply small_of_le <;> decide
  · apply lineFits_of_small <;> apply small_of_le <;> decide
  · apply lineFits_of_small <;> apply small_of_le <;> decide
  · apply circleFits_of_small <;> apply small_of_le <;> decide
  · apply lineFits_of_small <;> apply small_of_le <;> decide
  · apply lineFits_of_small <;> apply small_of_le <;> decide

/-- The pixel in the middle of the picture of the demo has the color of the lines across it. -/
theorem drawing_paints_demo :
  ∃ fb fuel fb', framebufferCreate (.upTo 307200 (by decide)) (constant 320) (constant 240) = .ok fb
    ∧ drawAll fuel fb renderingDemo = some fb'
    ∧ fb'.pixel 160 120 = some (framebufferRgb 100 100 100)
  := by
  obtain ⟨fb, hcreate⟩ : ∃ fb, framebufferCreate (.upTo 307200 (by decide)) (constant 320)
      (constant 240) = .ok fb := ⟨_, rfl⟩
  have hfb : fb.pixels ≠ none ∧ fb.width = 320 ∧ fb.height = 240 := by
    cases hcreate
    exact ⟨Option.some_ne_none _, rfl, rfl⟩
  obtain ⟨hiff, hpaints⟩ := drawing_paints fb hfb.1 renderingDemo
  obtain ⟨fuel, fb', hrun⟩ := hiff.mpr fits_renderingDemo
  refine ⟨fb, fuel, fb', hcreate, hrun, ?_⟩
  have hin : fb.Inside 160 120 := by
    rw [Framebuffer.Inside, hfb.2.1, hfb.2.2]
    decide
  obtain ⟨last, hlast, hmem, hcolor⟩ : ∃ last, renderingDemo.getLast? = some last
      ∧ (160, 120) ∈ last.region ∧ last.color = framebufferRgb 100 100 100 := by
    refine ⟨_, rfl, ?_, rfl⟩
    have hflat : (160, 120) ∈ lineRegion 0 120 319 120 := by
      rw [lineRegion, Set.mem_ofPred_eq, if_pos (by decide)]
      refine ⟨Set.mem_uIcc.mpr (.inl (by decide)), ?_⟩
      rw [sub_self, abs_zero, Int.mul_zero, Raster.nearest_zero, Int.mul_zero, Int.add_zero]
    exact hflat
  obtain ⟨-, hpixels⟩ := hpaints fuel fb' hrun
  rcases hpixels 160 120 hin with ⟨hnone, -⟩ | ⟨under, call, above, hcalls, -, habove, hpixel⟩
  · exact absurd hmem (hnone last (List.mem_of_getLast? hlast))
  · rw [hcalls] at hlast
    rcases List.eq_nil_or_concat' above with rfl | ⟨rest, top, rfl⟩
    · rw [List.getLast?_concat, Option.some_inj] at hlast
      rw [hpixel, hlast, hcolor]
    · -- a call above would be the last one
      rw [← List.cons_append, ← List.append_assoc, List.getLast?_concat, Option.some_inj] at hlast
      subst hlast
      exact absurd hmem (habove top (List.mem_append_right _ (List.mem_singleton_self top)))

end CTemplate

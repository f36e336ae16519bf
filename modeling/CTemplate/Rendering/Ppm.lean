import CTemplate.Library.Netpbm
import CTemplate.Rendering.Drawing

/-!
# Pictures in files

`framebuffer_write_ppm` writes the picture of a framebuffer to a file.  It checks what `fopen`,
`fwrite` and `fclose` return, but not what `fprintf` does with the header.  A file with all of its
header is a pixmap, and whoever reads it finds the picture.
-/

namespace CTemplate

/-- Red, green and blue of a color, as `framebuffer_write_ppm` takes them apart. -/
def channels (p : UInt32) : Netpbm.Rgb :=
  ((p >>> 16).toUInt8, (p >>> 8).toUInt8, p.toUInt8)

/-- What the functions called by `framebuffer_write_ppm` do: whether `fopen` and `fclose` succeed,
how many bytes of the header `fprintf` writes, and how many of the bytes of each pixel `fwrite`
does. -/
structure PpmOutcome where
  fopen : Bool
  fprintf : ℕ
  fwrite : ℕ → ℕ
  fclose : Bool

/-- What `fprintf` prints for a value of type `int` and the format `%d`. -/
def printInt (z : ℤ) : List Byte :=
  if z < 0 then 45 :: Netpbm.decimal (-z).toNat else Netpbm.decimal z.toNat

/-- The header of the file. -/
def ppmHeader (width height : ℤ) : List Byte :=
  [80, 54, 10] ++ (printInt width ++ 32 :: (printInt height ++ [10, 50, 53, 53, 10]))

/-- The loop of `framebuffer_write_ppm` from pixel `i` on: the bytes written, and whether each call
of `fwrite` returned 3. -/
def writePixels (fwrite : ℕ → ℕ) : ℕ → List UInt32 → List Byte × Bool
  | _, [] => ([], true)
  | i, p :: ps =>
      let (r, g, b) := channels p
      let written := [r, g, b].take (fwrite i)
      if written.length ≠ 3 then (written, false)
      else
        let (rest, all) := writePixels fwrite (i + 1) ps
        (written ++ rest, all)

/-- `framebuffer_write_ppm`: what it returns, and the bytes written to the file. -/
def framebufferWritePpm (fb : Framebuffer) (o : PpmOutcome) :
    Except ErrorCode Unit × List Byte :=
  match fb.pixels with
  | none => (.error .invalidArg, [])
  | some ps =>
      if ¬ o.fopen then (.error .io, [])
      else
        let head := (ppmHeader fb.width fb.height).take o.fprintf
        let n := toSize (fb.width.toNat * fb.height.toNat)
        let (body, all) := writePixels o.fwrite 0 (ps.take n)
        if ¬ all then (.error .io, head ++ body)
        else if ¬ o.fclose then (.error .io, head ++ body)
        else (.ok (), head ++ body)

/-! ### Colors -/

/-- `framebuffer_rgb` puts the channels where they are found. -/
theorem channels_framebufferRgb (r g b : UInt8) :
  channels (framebufferRgb r g b) = (r, g, b)
  := by
  have hopaque : ∀ k, k < 24 → (4278190080#32).getLsbD k = false := by
    decide
  rw [channels, Prod.mk.injEq, Prod.mk.injEq]
  refine ⟨?_, ?_, ?_⟩
  · apply UInt8.eq_of_toBitVec_eq
    ext i hi
    have hg : g.toBitVec.getLsbD (16 + i - 8) = false := BitVec.getLsbD_of_ge _ _ (by omega)
    have hb : b.toBitVec.getLsbD (16 + i) = false := BitVec.getLsbD_of_ge _ _ (by omega)
    have h := hopaque (16 + i) (by omega)
    simp [framebufferRgb, h, hg, hb]
    grind
  · apply UInt8.eq_of_toBitVec_eq
    ext i hi
    have h := hopaque (8 + i) (by omega)
    simp [framebufferRgb, h]
    grind
  · apply UInt8.eq_of_toBitVec_eq
    ext i hi
    simp [framebufferRgb]

/-! ### Writing -/

/-- The bytes of a pixel. -/
def pixelBytes (p : UInt32) : List Byte :=
  Netpbm.body [channels p]

theorem body_map_cons (p : UInt32) (ps : List UInt32) :
  Netpbm.body ((p :: ps).map channels) = pixelBytes p ++ Netpbm.body (ps.map channels)
  := by
  rw [pixelBytes, List.map_cons, Netpbm.body, Netpbm.body, Netpbm.body, List.flatMap_cons,
    List.flatMap_singleton]

/-- A call of `fwrite` that falls short ends the loop. -/
theorem writePixels_short {fwrite : ℕ → ℕ} {i : ℕ} (p : UInt32) (ps : List UInt32)
    (h : fwrite i < 3) :
  writePixels fwrite i (p :: ps) = ((pixelBytes p).take (fwrite i), false)
  := by
  have hlength : ((pixelBytes p).take (fwrite i)).length ≠ 3 := by
    rw [List.length_take]
    omega
  exact if_pos hlength

/-- Otherwise the loop goes on to the next pixel. -/
theorem writePixels_whole {fwrite : ℕ → ℕ} {i : ℕ} (p : UInt32) (ps : List UInt32)
    (h : 3 ≤ fwrite i) :
  writePixels fwrite i (p :: ps)
    = (pixelBytes p ++ (writePixels fwrite (i + 1) ps).1, (writePixels fwrite (i + 1) ps).2)
  := by
  have htake : (pixelBytes p).take (fwrite i) = pixelBytes p := List.take_of_length_le h
  have hlength : ¬ ((pixelBytes p).take (fwrite i)).length ≠ 3 := by
    rw [htake]
    exact not_not.mpr rfl
  apply (if_neg hlength).trans
  rw [← htake]
  rfl

/-- All pixels are written when no call of `fwrite` falls short. -/
theorem writePixels_iff (fwrite : ℕ → ℕ) (i : ℕ) (ps : List UInt32) :
  (writePixels fwrite i ps).2 = true ↔ ∀ k, k < ps.length → 3 ≤ fwrite (i + k)
  := by
  induction ps generalizing i with
  | nil => exact iff_of_true rfl fun _ hk => absurd hk (Nat.not_lt_zero _)
  | cons p ps ih =>
      rw [List.length_cons]
      rcases Nat.lt_or_ge (fwrite i) 3 with hlt | hge
      · rw [writePixels_short p ps hlt]
        apply iff_of_false Bool.false_ne_true
        intro h
        exact absurd (h 0 (Nat.succ_pos _)) (Nat.not_le_of_lt hlt)
      · rw [writePixels_whole p ps hge, ih]
        constructor
        · intro h k hk
          cases k with
          | zero => exact hge
          | succ k =>
              rw [← Nat.add_assoc, Nat.add_right_comm]
              apply h k (Nat.lt_of_succ_lt_succ hk)
        · intro h k hk
          rw [Nat.add_right_comm]
          apply h (k + 1) (Nat.succ_lt_succ hk)

/-- What is written is a front of the bytes of the pixels, and all of them if no call of `fwrite`
falls short. -/
theorem writePixels_front (fwrite : ℕ → ℕ) (i : ℕ) (ps : List UInt32) :
  (writePixels fwrite i ps).1 <+: Netpbm.body (ps.map channels)
    ∧ ((writePixels fwrite i ps).2 = true →
      (writePixels fwrite i ps).1 = Netpbm.body (ps.map channels))
  := by
  induction ps generalizing i with
  | nil => exact ⟨List.prefix_rfl, fun _ => rfl⟩
  | cons p ps ih =>
      rw [body_map_cons]
      rcases Nat.lt_or_ge (fwrite i) 3 with hlt | hge
      · rw [writePixels_short p ps hlt]
        use (List.take_prefix _ _).trans (List.prefix_append _ _)
        exact fun h => absurd h Bool.false_ne_true
      · rw [writePixels_whole p ps hge]
        obtain ⟨hfront, hall⟩ := ih (i + 1)
        use (List.prefix_append_right_inj _).mpr hfront
        intro h
        rw [hall h]

/-- The header is that of a pixmap. -/
theorem ppmHeader_eq {width height : ℤ} (hw : 0 ≤ width) (hh : 0 ≤ height) :
  ppmHeader width height = Netpbm.header width.toNat height.toNat 255
  := by
  have hprint : ∀ z : ℤ, 0 ≤ z → printInt z = Netpbm.decimal z.toNat := fun _ hz =>
    if_neg (not_lt.mpr hz)
  have hdepth : Netpbm.decimal 255 = [50, 53, 53] := by
    decide
  rw [ppmHeader, Netpbm.header, hprint width hw, hprint height hh, hdepth]
  rfl

variable {fb : Framebuffer} {ps : List UInt32} {o : PpmOutcome}

/-- The file of the picture in a framebuffer. -/
def ppmFile (fb : Framebuffer) (ps : List UInt32) : List Byte :=
  ppmHeader fb.width fb.height ++ Netpbm.body (ps.map channels)

/-- The picture in a framebuffer as a pixmap. -/
def Framebuffer.pixmap (fb : Framebuffer) (ps : List UInt32) (hps : fb.pixels = some ps) :
    Netpbm.Pixmap where
  width := fb.width.toNat
  height := fb.height.toNat
  depth := 255
  pixels := ps.map channels
  depth_lt := by decide
  length_eq := by
    rw [List.length_map]
    apply (fb.sized ps hps).2.2

theorem encode_pixmap (hps : fb.pixels = some ps) :
  Netpbm.encode (fb.pixmap ps hps) = ppmFile fb ps
  := by
  obtain ⟨⟨hw, -⟩, ⟨hh, -⟩, -⟩ := fb.sized ps hps
  rw [ppmFile, ppmHeader_eq (Int.le_of_lt hw) (Int.le_of_lt hh)]
  rfl

/-- The loop takes all pixels: their number is of type `size_t`. -/
theorem take_pixels (hps : fb.pixels = some ps) :
  ps.take (toSize (fb.width.toNat * fb.height.toNat)) = ps
  := by
  rw [Nat.mul_comm, ← (fb.sized ps hps).2.2, toSize_of_le (Framebuffer.length_le hps),
    List.take_length]

/-- A call on a framebuffer with pixels. -/
theorem framebufferWritePpm_eq (hps : fb.pixels = some ps) (hopen : o.fopen = true) :
  framebufferWritePpm fb o
    = (if (writePixels o.fwrite 0 ps).2 = true ∧ o.fclose = true then .ok () else .error .io,
      (ppmHeader fb.width fb.height).take o.fprintf ++ (writePixels o.fwrite 0 ps).1)
  := by
  rw [framebufferWritePpm, hps]
  dsimp only
  rw [if_neg (not_not.mpr hopen), take_pixels hps]
  cases (writePixels o.fwrite 0 ps).2 with
  | false => rfl
  | true => cases o.fclose <;> rfl

/-- `framebuffer_write_ppm` succeeds exactly when the file can be opened, every pixel is written and
the file is closed.  What it writes after a whole header is a front of a pixmap with the size of the
picture and the channels of its pixels, and all of it if it succeeds; the channels are those that
`framebuffer_rgb` was given. -/
theorem ppm_reads_back (fb : Framebuffer) (hps : fb.pixels ≠ none) (o : PpmOutcome) :
  ((framebufferWritePpm fb o).1 = .ok () ∨ (framebufferWritePpm fb o).1 = .error .io)
    ∧ ((framebufferWritePpm fb o).1 = .ok ()
      ↔ o.fopen = true ∧ (∀ k, k < fb.height.toNat * fb.width.toNat → 3 ≤ o.fwrite k)
        ∧ o.fclose = true)
    ∧ ((ppmHeader fb.width fb.height).length ≤ o.fprintf →
      ∃ file, (framebufferWritePpm fb o).2 <+: file
        ∧ ((framebufferWritePpm fb o).1 = .ok () → (framebufferWritePpm fb o).2 = file)
        ∧ ∃ pixmap, (∀ rest, Netpbm.decode (file ++ rest) = some (pixmap, rest))
          ∧ pixmap.width = fb.width.toNat ∧ pixmap.height = fb.height.toNat
          ∧ pixmap.depth = 255
          ∧ ∀ x y, fb.Inside x y → ∃ color, fb.pixel x y = some color
            ∧ pixmap.pixels[y.toNat * pixmap.width + x.toNat]? = some (channels color)
            ∧ ∀ r g b, color = framebufferRgb r g b → channels color = (r, g, b))
  := by
  obtain ⟨ps, hps⟩ := Option.ne_none_iff_exists'.mp hps
  have hpixmap : ∀ x y, fb.Inside x y → ∃ color, fb.pixel x y = some color
      ∧ (ps.map channels)[y.toNat * fb.width.toNat + x.toNat]? = some (channels color)
      ∧ ∀ r g b, color = framebufferRgb r g b → channels color = (r, g, b) := by
    intro x y hin
    have hlt := Framebuffer.index_lt hps hin
    refine ⟨ps[y.toNat * fb.width.toNat + x.toNat], ?_, ?_, ?_⟩
    · rw [Framebuffer.pixel, if_pos hin, hps, Option.bind_some, List.getElem?_eq_getElem hlt]
    · rw [List.getElem?_map, List.getElem?_eq_getElem hlt, Option.map_some]
    · intro r g b hcolor
      rw [hcolor, channels_framebufferRgb]
  have hdecode : ∀ rest,
      Netpbm.decode (ppmFile fb ps ++ rest) = some (fb.pixmap ps hps, rest) := by
    intro rest
    rw [← encode_pixmap hps, Netpbm.decode_encode]
  cases hopen : o.fopen with
  | false =>
      have hcall : framebufferWritePpm fb o = (.error .io, []) := by
        rw [framebufferWritePpm, hps]
        dsimp only
        rw [if_pos (by rw [hopen]; exact Bool.false_ne_true)]
      rw [hcall]
      refine ⟨.inr rfl, iff_of_false (fun heq => by cases heq) ?_, fun _ => ?_⟩
      · exact fun h => absurd h.1 Bool.false_ne_true
      · refine ⟨_, List.nil_prefix, fun heq => ?_, _, hdecode, rfl, rfl, rfl, hpixmap⟩
        cases heq
  | true =>
      have hcall := framebufferWritePpm_eq hps hopen
      have hall := writePixels_iff o.fwrite 0 ps
      obtain ⟨hfront, hwhole⟩ := writePixels_front o.fwrite 0 ps
      simp only [Nat.zero_add, (fb.sized ps hps).2.2] at hall
      rw [hcall]
      dsimp only
      refine ⟨?_, ?_, ?_⟩
      · split
        · exact .inl rfl
        · exact .inr rfl
      · rw [← hall, and_iff_right rfl]
        split
        case isTrue h => exact iff_of_true rfl h
        case isFalse h => exact iff_of_false (fun heq => by cases heq) h
      · intro hheader
        rw [List.take_of_length_le hheader]
        refine ⟨_, (List.prefix_append_right_inj _).mpr hfront, ?_, _, hdecode, rfl, rfl, rfl,
          hpixmap⟩
        intro hok
        split at hok
        case isTrue h => rw [hwhole h.1]
        case isFalse h => cases hok

/-- A red pixel, and one of another color to its right. -/
def twoPixels : Framebuffer where
  pixels := some [framebufferRgb 255 0 0, framebufferRgb 1 2 3]
  width := 2
  height := 1
  sized := by
    rintro ps ⟨⟩
    decide

/-- The file of a picture of two colors, after a header of eleven bytes. -/
theorem ppm_reads_back_two :
  ∃ pixmap, Netpbm.decode (framebufferWritePpm twoPixels ⟨true, 11, fun _ => 3, true⟩).2
      = some (pixmap, [])
    ∧ pixmap.width = 2 ∧ pixmap.height = 1 ∧ pixmap.pixels[0]? = some (255, 0, 0)
    ∧ pixmap.pixels[1]? = some (1, 2, 3)
  := by
  obtain ⟨-, hok, hfile⟩ := ppm_reads_back twoPixels (Option.some_ne_none _)
    ⟨true, 11, fun _ => 3, true⟩
  obtain ⟨file, -, hwhole, pixmap, hdecode, hwidth, hheight, -, hpixels⟩ := hfile (by decide)
  have hfile := hwhole (hok.mpr ⟨rfl, fun _ _ => Nat.le_refl 3, rfl⟩)
  refine ⟨pixmap, ?_, hwidth, hheight, ?_, ?_⟩
  · rw [hfile, ← hdecode [], List.append_nil]
  · obtain ⟨color, hcolor, hpixel, hchannels⟩ := hpixels 0 0 (by decide)
    rw [hchannels 255 0 0 (Option.some.inj hcolor).symm, hwidth] at hpixel
    exact hpixel
  · obtain ⟨color, hcolor, hpixel, hchannels⟩ := hpixels 1 0 (by decide)
    rw [hchannels 1 2 3 (Option.some.inj hcolor).symm, hwidth] at hpixel
    exact hpixel

end CTemplate

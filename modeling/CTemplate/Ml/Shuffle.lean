import CTemplate.Library.Shuffle
import CTemplate.Library.Slots
import CTemplate.Math.Matx
import CTemplate.Math.Rng

/-!
# Shuffling a dataset

`dataset_shuffle` exchanges the rows of a matrix, from the last one on, each with a row that is
drawn with `rng_range_u32`, and the rows of a second matrix in the same way.  The bound of a draw
is the number of rows up to the one that is exchanged, as a `uint32_t`.

A function gives `none` when a product of sizes wraps around, memory outside the data is accessed
or memory is copied to where it overlaps.
-/

namespace CTemplate

open Equiv

variable {F ρ : Type}

/-! ### The shuffle -/

/-- `memcpy` within one block. -/
def memcpyWithin (data : List F) (dst src n : ℕ) : Option (List F) :=
  if dst + n ≤ src ∨ src + n ≤ dst then Buffer.copy data dst src n else none

/-- The exchange of rows `i` and `j` in `dataset_shuffle`. -/
def swapRows (m : MatX F) (i j : ℕ) (tmp : List F) : Option (List F × MatX F) :=
  (mulSize m.cols floatSize).bind fun _ =>
  (mulSize i m.cols).bind fun rowI =>
  (mulSize j m.cols).bind fun rowJ =>
  (Buffer.read m.data rowI m.cols).bind fun row =>
  (Buffer.write tmp 0 row).bind fun tmp =>
  (memcpyWithin m.data rowI rowJ m.cols).bind fun data =>
  (Buffer.read tmp 0 m.cols).bind fun row =>
  (Buffer.write data rowJ row).map fun data => (tmp, { m with data })

/-- The generator, the buffer for a row and the two matrices, of which the second may be a null
pointer. -/
structure Shuffling (ρ F : Type) where
  rng : ρ
  tmp : List F
  x : MatX F
  y : Option (MatX F)

/-- A round of the loop of `dataset_shuffle`, where `range` is `rng_range_u32`. -/
def shuffleStep (range : ρ → UInt32 → Option (ρ × UInt32)) (i : ℕ) (s : Shuffling ρ F) :
    Option (Shuffling ρ F) :=
  (range s.rng (UInt32.ofNat (i + 1))).bind fun (rng, j) =>
    if j.toNat = i then some { s with rng }
    else
      (swapRows s.x i j.toNat s.tmp).bind fun (tmp, x) =>
        match s.y with
        | none => some { rng, tmp, x, y := none }
        | some y => (swapRows y i j.toNat tmp).map fun (tmp, y) => { rng, tmp, x, y := some y }

/-- The loop of `dataset_shuffle` from row `i` on. -/
def shuffleLoop (range : ρ → UInt32 → Option (ρ × UInt32)) :
    ℕ → Shuffling ρ F → Option (Shuffling ρ F)
  | 0, s => some s
  | i + 1, s => (shuffleStep range (i + 1) s).bind (shuffleLoop range i)

/-- `max_cols` in `dataset_shuffle` -/
def maxCols (x : MatX F) (y : Option (MatX F)) : ℕ :=
  match y with
  | none => x.cols
  | some y => if y.cols > x.cols then y.cols else x.cols

/-- `dataset_shuffle` on two different matrices, given what its call of `malloc` does: the
generator and the matrices after the call, and the code returned. -/
def datasetShuffle (range : ρ → UInt32 → Option (ρ × UInt32)) (rng : ρ) (x : MatX F)
    (y : Option (MatX F)) (malloc : Option (ℕ → F)) :
    Option (ρ × MatX F × Option (MatX F) × ErrorCode) :=
  if x.data = [] then some (rng, x, y, .invalidArg)
  else if (y.any fun y => y.data.isEmpty || y.rows != x.rows) then some (rng, x, y, .invalidArg)
  else
    (mulSize (maxCols x y) floatSize).bind fun _ =>
      match malloc with
      | none => some (rng, x, y, .nomem)
      | some junk =>
          (subSize x.rows 1).bind fun last =>
            (shuffleLoop range last { rng, tmp := (List.range (maxCols x y)).map junk, x, y }).map
              fun s => (s.rng, s.x, s.y, .ok)

/-! ### Draws -/

/-- The number is one that `rng_range_u32` may return for the bound. -/
def Drawn (bound v : UInt32) : Prop :=
  v < bound ∨ (bound = 0 ∧ v = 0)

instance (bound v : UInt32) : Decidable (Drawn bound v) :=
  inferInstanceAs (Decidable (_ ∨ _))

/-- Calls of `rng_range_u32` that return the numbers of a list. -/
def drawNext (draws : List UInt32) (bound : UInt32) : Option (List UInt32 × UInt32) :=
  match draws with
  | [] => none
  | v :: draws => if Drawn bound v then some (draws, v) else none

/-- The number may be drawn for row `i`. -/
def RowDrawn (i : ℕ) (v : UInt32) : Prop :=
  Drawn (UInt32.ofNat (i + 1)) v

/-- The numbers may be drawn for the rows of a matrix with `n` rows. -/
def ValidDraws (n : ℕ) (draws : List UInt32) : Prop :=
  draws.length + 1 = n ∧ Shuffle.Draws RowDrawn draws

/-- What `rng_range_u32` returns may be drawn. -/
theorem drawn_of_rngRangeU32
    {rounds : ℕ} {r r' : Rng} {bound v : UInt32}
    (h : rngRangeU32 rounds r bound = some (r', v)) :
  Drawn bound v
  := by
  rw [rngRangeU32] at h
  split at h
  case isTrue hzero =>
    cases h
    exact .inr ⟨hzero, rfl⟩
  case isFalse hne =>
    have hpos : 0 < bound := by
      rw [UInt32.pos_iff_ne_zero]
      exact hne
    exact .inl (rangeLoop_lt hpos h)

theorem toNat_rowBound (i : ℕ) :
  (UInt32.ofNat (i + 1)).toNat = (i + 1) % 2 ^ 32
  := UInt32.toNat_ofNat

variable {i : ℕ} {v : UInt32}

/-- The numbers drawn for a row are below the bound, or zero. -/
theorem rowDrawn_iff :
  RowDrawn i v ↔ v.toNat < (i + 1) % 2 ^ 32 ∨ ((i + 1) % 2 ^ 32 = 0 ∧ v.toNat = 0)
  := by
  rw [RowDrawn, Drawn, UInt32.lt_iff_toNat_lt, ← UInt32.toNat_inj, ← UInt32.toNat_inj,
    toNat_rowBound, UInt32.toNat_zero]

/-- A row is not exchanged with a later one. -/
theorem RowDrawn.le (h : RowDrawn i v) :
  v.toNat ≤ i
  := by
  rw [rowDrawn_iff] at h
  omega

/-- As long as the bound fits, the row may be exchanged with itself and with every row
before. -/
theorem exists_rowDrawn (hi : i + 1 < 2 ^ 32) {k : ℕ} (hk : k ≤ i) :
  ∃ v, RowDrawn i v ∧ v.toNat = k
  := by
  have hv : (UInt32.ofNat k).toNat = k := UInt32.toNat_ofNat_of_lt' (show k < 2 ^ 32 by omega)
  refine ⟨UInt32.ofNat k, ?_, hv⟩
  rw [rowDrawn_iff, hv]
  omega

/-- When the bound does not fit, the row is not left in its place. -/
theorem RowDrawn.ne (hi : 2 ^ 32 ≤ i + 1) (h : RowDrawn i v) :
  v.toNat ≠ i
  := by
  rw [rowDrawn_iff] at h
  omega

/-! ### Rows -/

/-- Row `r` of the matrix. -/
def MatX.row (m : MatX F) (r : ℕ) : List F :=
  Slots.read m.cols m.data r

/-- The rows of `m'` are those of `m` in the order given by a permutation. -/
structure Permuted (σ : Perm ℕ) (m m' : MatX F) : Prop where
  rows_eq : m'.rows = m.rows
  cols_eq : m'.cols = m.cols
  length_eq : m'.data.length = m.data.length
  row_eq : ∀ r, m'.row r = m.row (σ r)

variable {σ τ : Perm ℕ} {m m' m'' : MatX F} {n : ℕ}

theorem Permuted.refl (m : MatX F) : Permuted 1 m m :=
  ⟨rfl, rfl, rfl, fun _ => rfl⟩

theorem Permuted.trans (h : Permuted σ m m') (h' : Permuted τ m' m'') :
  Permuted (σ * τ) m m''
  where
  rows_eq := h'.rows_eq.trans h.rows_eq
  cols_eq := h'.cols_eq.trans h.cols_eq
  length_eq := h'.length_eq.trans h.length_eq
  row_eq r := (h'.row_eq r).trans (h.row_eq (τ r))

/-- A matrix with `n` rows, of which the buffer has room for one. -/
structure MatX.Fits (m : MatX F) (n : ℕ) (tmp : List F) : Prop where
  made : m.Made
  rows_eq : m.rows = n
  cols_le : m.cols ≤ tmp.length

theorem MatX.Fits.permuted
    {tmp tmp' : List F} (h : m.Fits n tmp) (htmp : tmp'.length = tmp.length)
    (hm : Permuted σ m m') :
  m'.Fits n tmp'
  where
  made := by
    rw [MatX.Made, hm.rows_eq, hm.cols_eq, hm.length_eq]
    exact h.made
  rows_eq := hm.rows_eq.trans h.rows_eq
  cols_le := by
    rw [hm.cols_eq, htmp]
    exact h.cols_le

/-- A row is copied over another row. -/
theorem memcpyWithin_rows
    {data : List F} {w j : ℕ} (hdata : data.length = n * w) (hi : i < n) (hj : j < n)
    (hij : j ≠ i) :
  memcpyWithin data (i * w) (j * w) w = some (Slots.write w data i (Slots.read w data j))
  := by
  have hend := Slots.slot_end_le (w := w) hj
  have hapart : i * w + w ≤ j * w ∨ j * w + w ≤ i * w := by
    rcases Nat.lt_or_gt_of_ne hij with hlt | hgt
    · exact .inr (Slots.slot_end_le hlt)
    · exact .inl (Slots.slot_end_le hgt)
  rw [memcpyWithin, if_pos hapart, Buffer.copy, if_pos (by omega)]
  apply Slots.buffer_write hdata hi (Slots.length_read hdata hj)

/-- What was written at the start of the buffer is read from there. -/
theorem exists_buffer_row {tmp row : List F} (hroom : row.length ≤ tmp.length) :
  ∃ tmp', Buffer.write tmp 0 row = some tmp' ∧ tmp'.length = tmp.length
    ∧ Buffer.read tmp' 0 row.length = some row
  := by
  obtain ⟨tmp', hwrite, hwrote⟩ := Buffer.exists_write tmp 0 row (by omega)
  refine ⟨tmp', hwrite, hwrote.length_eq, ?_⟩
  have htake := hwrote.take_eq
  rw [Nat.zero_add, List.take_zero, List.nil_append] at htake
  rw [Buffer.read, hwrote.length_eq, if_pos (by omega), List.drop_zero, htake]

/-- Two different rows are exchanged. -/
theorem MatX.Fits.swapRows
    {tmp : List F} {j : ℕ} (h : m.Fits n tmp) (hi : i < n) (hj : j < n) (hij : j ≠ i) :
  ∃ tmp' m', CTemplate.swapRows m i j tmp = some (tmp', m') ∧ tmp'.length = tmp.length
    ∧ Permuted (swap i j) m m'
  := by
  have hdata := h.made.length_data
  have hsize := h.made.size_le
  have hle := Nat.le_trans (Nat.le_mul_of_pos_right _ (by decide)) hsize
  rw [h.rows_eq] at hdata hle
  have hrowI := Slots.length_read hdata hi
  have hrowJ := Slots.length_read hdata hj
  have hroom := h.cols_le
  rw [← hrowI] at hroom
  have hendI := Slots.slot_end_le (w := m.cols) hi
  have hendJ := Slots.slot_end_le (w := m.cols) hj
  obtain ⟨tmp', hwrite, htmp, hread⟩ := exists_buffer_row hroom
  rw [hrowI] at hread
  have hfirst := (Slots.length_write hdata hi hrowJ).trans hdata
  refine ⟨tmp', { m with data := Slots.exchange m.cols m.data i j }, ?_, htmp, ?_⟩
  · simp only [CTemplate.swapRows, mulSize_of_le h.made.cols_le,
      mulSize_of_le (show i * m.cols ≤ sizeMax by omega),
      mulSize_of_le (show j * m.cols ≤ sizeMax by omega), Option.bind_some,
      Slots.buffer_read hdata hi, hwrite, memcpyWithin_rows hdata hi hj hij, hread,
      Slots.buffer_write hfirst hj hrowI, Option.map_some, Slots.exchange]
  · exact {
      rows_eq := rfl
      cols_eq := rfl
      length_eq := Slots.length_exchange hdata hi hj
      row_eq := Slots.read_exchange hdata hi hj }

/-! ### The loop -/

variable {s s' s'' : Shuffling ρ F}

/-- The buffer has room for a row of each matrix, both of which have `n` rows. -/
structure Shuffling.Fits (s : Shuffling ρ F) (n : ℕ) : Prop where
  x : s.x.Fits n s.tmp
  y : ∀ y, s.y = some y → y.Fits n s.tmp

/-- The rows of both matrices are permuted in the same way. -/
structure Shuffling.Permuted (σ : Perm ℕ) (s s' : Shuffling ρ F) : Prop where
  tmp : s'.tmp.length = s.tmp.length
  x : CTemplate.Permuted σ s.x s'.x
  y : Option.Rel (CTemplate.Permuted σ) s.y s'.y

theorem Permuted.of_option
    {y y' : Option (MatX F)} (h : Option.Rel (Permuted σ) y y') (hy' : y' = some m') :
  ∃ m, y = some m ∧ Permuted σ m m'
  := by
  cases h with
  | none => cases hy'
  | some h =>
      obtain rfl := Option.some.inj hy'
      exact ⟨_, rfl, h⟩

theorem Permuted.trans_option
    {y y' y'' : Option (MatX F)} (h : Option.Rel (Permuted σ) y y')
    (h' : Option.Rel (Permuted τ) y' y'') :
  Option.Rel (Permuted (σ * τ)) y y''
  := by
  cases h' with
  | none =>
      cases h
      exact .none
  | some h' =>
      cases h with
      | some h => exact .some (h.trans h')

theorem Shuffling.Permuted.refl (s : Shuffling ρ F) (rng : ρ) :
  Shuffling.Permuted 1 s { s with rng }
  where
  tmp := rfl
  x := CTemplate.Permuted.refl s.x
  y := by
    cases s.y with
    | none => exact .none
    | some y => exact .some (CTemplate.Permuted.refl y)

theorem Shuffling.Permuted.trans
    (h : Shuffling.Permuted σ s s') (h' : Shuffling.Permuted τ s' s'') :
  Shuffling.Permuted (σ * τ) s s''
  where
  tmp := h'.tmp.trans h.tmp
  x := h.x.trans h'.x
  y := CTemplate.Permuted.trans_option h.y h'.y

theorem Shuffling.Permuted.fits (h : s.Fits n) (hs : Shuffling.Permuted σ s s') :
  s'.Fits n
  where
  x := h.x.permuted hs.tmp hs.x
  y := by
    intro y' hy'
    obtain ⟨y, hy, hpermuted⟩ := CTemplate.Permuted.of_option hs.y hy'
    apply (h.y y hy).permuted hs.tmp hpermuted

/-- A round exchanges the row with the one that is drawn. -/
theorem Shuffling.Fits.step
    (h : s.Fits n) (hi : i < n) {range : ρ → UInt32 → Option (ρ × UInt32)} {rng : ρ}
    (hrange : range s.rng (UInt32.ofNat (i + 1)) = some (rng, v)) (hv : RowDrawn i v) :
  ∃ s', shuffleStep range i s = some s' ∧ s'.rng = rng
    ∧ Shuffling.Permuted (swap i v.toNat) s s'
  := by
  have hle := hv.le
  simp only [shuffleStep, hrange, Option.bind_some]
  split
  case isTrue heq =>
    rw [heq, swap_self]
    exact ⟨_, rfl, rfl, Shuffling.Permuted.refl s rng⟩
  case isFalse hne =>
    obtain ⟨tmp, x, hx, htmp, hpermuted⟩ := h.x.swapRows hi (by omega) hne
    rw [hx, Option.bind_some]
    cases hy : s.y with
    | none => exact ⟨_, rfl, rfl, htmp, hpermuted, by rw [hy]; exact .none⟩
    | some y =>
        have hfits : y.Fits n tmp := (h.y y hy).permuted htmp (CTemplate.Permuted.refl y)
        obtain ⟨tmp', y', hy', htmp', hpermuted'⟩ := hfits.swapRows hi (by omega) hne
        simp only [hy', Option.map_some]
        exact ⟨_, rfl, rfl, htmp'.trans htmp, hpermuted, by rw [hy]; exact .some hpermuted'⟩

/-- The loop permutes the rows as the draws say. -/
theorem Shuffling.Fits.loop
    {s : Shuffling (List UInt32) F} (h : s.Fits n) (hlength : s.rng.length < n)
    (hdraws : Shuffle.Draws RowDrawn s.rng) :
  ∃ s', shuffleLoop drawNext s.rng.length s = some s' ∧ s'.rng = []
    ∧ Shuffling.Permuted (Shuffle.perm UInt32.toNat s.rng) s s'
  := by
  induction hrng : s.rng generalizing s with
  | nil => exact ⟨s, rfl, hrng, Shuffling.Permuted.refl s s.rng⟩
  | cons v draws ih =>
      rw [hrng, List.length_cons] at hlength
      rw [hrng] at hdraws
      obtain ⟨hv, hdraws⟩ := hdraws
      have hnext : drawNext s.rng (UInt32.ofNat (draws.length + 1 + 1)) = some (draws, v) := by
        rw [hrng]
        exact if_pos hv
      obtain ⟨s₁, hstep, hrng₁, hpermuted⟩ := h.step hlength hnext hv
      rw [← hrng₁] at hdraws
      obtain ⟨s', hloop, hrng', hpermuted'⟩ :=
        ih (hpermuted.fits h) (by rw [hrng₁]; omega) hdraws hrng₁
      refine ⟨s', ?_, hrng', hpermuted.trans hpermuted'⟩
      rw [List.length_cons, shuffleLoop, hstep]
      exact hloop

/-- A round with a generator is a round with the number that it draws. -/
theorem exists_draw_of_step
    {range : ρ → UInt32 → Option (ρ × UInt32)}
    (hrange : ∀ r r' bound v, range r bound = some (r', v) → Drawn bound v)
    (h : shuffleStep range i s = some s') :
  ∃ v, RowDrawn i v ∧ ∀ draws : List UInt32,
    shuffleStep drawNext i { s with rng := v :: draws } = some { s' with rng := draws }
  := by
  obtain ⟨⟨rng, v⟩, hv, hrest⟩ := Option.bind_eq_some_iff.mp h
  have hdrawn : RowDrawn i v := hrange _ _ _ _ hv
  refine ⟨v, hdrawn, ?_⟩
  intro draws
  have hnext : drawNext (v :: draws) (UInt32.ofNat (i + 1)) = some (draws, v) := if_pos hdrawn
  simp only [shuffleStep, hnext, Option.bind_some]
  simp only at hrest
  split at hrest
  case isTrue heq =>
    obtain rfl := Option.some.inj hrest
    rw [if_pos heq]
  case isFalse hne =>
    obtain ⟨⟨tmp, x⟩, hx, hrest⟩ := Option.bind_eq_some_iff.mp hrest
    rw [if_neg hne, hx, Option.bind_some]
    simp only at hrest ⊢
    cases hy : s.y with
    | none =>
        rw [hy] at hrest
        obtain rfl := Option.some.inj hrest
        rfl
    | some y =>
        rw [hy] at hrest
        obtain ⟨⟨tmp', y'⟩, hy', rfl⟩ := Option.map_eq_some_iff.mp hrest
        simp only [hy', Option.map_some]

/-- A run of the loop is a run with the numbers that the generator draws. -/
theorem exists_draws_of_loop
    {range : ρ → UInt32 → Option (ρ × UInt32)}
    (hrange : ∀ r r' bound v, range r bound = some (r', v) → Drawn bound v)
    (h : shuffleLoop range i s = some s') :
  ∃ draws, draws.length = i ∧ Shuffle.Draws RowDrawn draws
    ∧ shuffleLoop drawNext i { s with rng := draws } = some { s' with rng := [] }
  := by
  induction i generalizing s with
  | zero =>
      obtain rfl := Option.some.inj h
      exact ⟨[], rfl, trivial, rfl⟩
  | succ i ih =>
      obtain ⟨s₁, hstep, hloop⟩ := Option.bind_eq_some_iff.mp h
      obtain ⟨v, hv, hdraw⟩ := exists_draw_of_step hrange hstep
      obtain ⟨draws, rfl, hdraws, hrun⟩ := ih hloop
      refine ⟨v :: draws, rfl, ⟨hv, hdraws⟩, ?_⟩
      rw [shuffleLoop, hdraw, Option.bind_some, hrun]

/-! ### Calls -/

variable {x : MatX F} {y : Option (MatX F)}

/-- The rows of both matrices have at most `max_cols` elements. -/
theorem cols_le_maxCols :
  x.cols ≤ maxCols x y ∧ ∀ y', y = some y' → y'.cols ≤ maxCols x y
  := by
  cases y with
  | none => exact ⟨Nat.le_refl x.cols, by simp⟩
  | some y =>
      rw [maxCols]
      constructor
      · split <;> omega
      · rintro y' ⟨rfl⟩
        split <;> omega

theorem maxCols_le
    (hx : x.Made) (hy : ∀ y', y = some y' → y'.Made ∧ y'.rows = x.rows) :
  maxCols x y * floatSize ≤ sizeMax
  := by
  cases y with
  | none => exact hx.cols_le
  | some y =>
      rw [maxCols]
      split
      · exact (hy y rfl).1.cols_le
      · exact hx.cols_le

/-- The call of `dataset_shuffle` is its loop, when it is granted memory. -/
theorem datasetShuffle_eq
    (hx : x.Made) (hy : ∀ y', y = some y' → y'.Made ∧ y'.rows = x.rows)
    (range : ρ → UInt32 → Option (ρ × UInt32)) (rng : ρ) (junk : ℕ → F) :
  datasetShuffle range rng x y (some junk)
    = (shuffleLoop range (x.rows - 1)
      { rng, tmp := (List.range (maxCols x y)).map junk, x, y }).map fun s =>
        (s.rng, s.x, s.y, .ok)
  := by
  have hvalid : ¬ (y.any fun y => y.data.isEmpty || y.rows != x.rows) = true := by
    cases y with
    | none => simp
    | some y => simp [(hy y rfl).1.data_ne_nil, (hy y rfl).2]
  rw [datasetShuffle, if_neg hx.data_ne_nil, if_neg hvalid, mulSize_of_le (maxCols_le hx hy),
    Option.bind_some, subSize_of_le hx.rows_pos, Option.bind_some]

theorem fits_of_made
    (hx : x.Made) (hy : ∀ y', y = some y' → y'.Made ∧ y'.rows = x.rows) (rng : ρ) (junk : ℕ → F) :
  Shuffling.Fits { rng, tmp := (List.range (maxCols x y)).map junk, x, y } x.rows
  := by
  have hlength : ((List.range (maxCols x y)).map junk).length = maxCols x y := by
    rw [List.length_map, List.length_range]
  obtain ⟨hxcols, hycols⟩ := cols_le_maxCols (x := x) (y := y)
  constructor
  · exact ⟨hx, rfl, by rwa [hlength]⟩
  · intro y' hy'
    obtain ⟨hmade, hrows⟩ := hy y' hy'
    refine ⟨hmade, hrows, ?_⟩
    rw [hlength]
    apply hycols y' hy'

/-- Draws that are valid permute the rows of both matrices. -/
theorem datasetShuffle_permuted
    (hx : x.Made) (hy : ∀ y', y = some y' → y'.Made ∧ y'.rows = x.rows) (junk : ℕ → F)
    {draws : List UInt32} (h : ValidDraws x.rows draws) :
  ∃ x' y', datasetShuffle drawNext draws x y (some junk) = some ([], x', y', .ok)
    ∧ Permuted (Shuffle.perm UInt32.toNat draws) x x'
    ∧ Option.Rel (Permuted (Shuffle.perm UInt32.toNat draws)) y y'
  := by
  obtain ⟨hlength, hdraws⟩ := h
  have hlast : x.rows - 1 = draws.length := by omega
  have hlt : draws.length < x.rows := by omega
  obtain ⟨s, hloop, hrng, hpermuted⟩ := (fits_of_made hx hy draws junk).loop hlt hdraws
  refine ⟨s.x, s.y, ?_, hpermuted.x, hpermuted.y⟩
  rw [datasetShuffle_eq hx hy, hlast, hloop, Option.map_some, hrng]

/-- A call with the generator is a call with valid draws. -/
theorem exists_validDraws
    (hx : x.Made) (hy : ∀ y', y = some y' → y'.Made ∧ y'.rows = x.rows) (junk : ℕ → F)
    {rounds : ℕ} {rng rng' : Rng} {x' : MatX F} {y' : Option (MatX F)}
    (h : datasetShuffle (rngRangeU32 rounds) rng x y (some junk) = some (rng', x', y', .ok)) :
  ∃ draws, ValidDraws x.rows draws
    ∧ datasetShuffle drawNext draws x y (some junk) = some ([], x', y', .ok)
  := by
  have hpos := hx.rows_pos
  rw [datasetShuffle_eq hx hy] at h
  obtain ⟨s, hloop, hs⟩ := Option.map_eq_some_iff.mp h
  obtain ⟨draws, hlength, hdraws, hrun⟩ :=
    exists_draws_of_loop (fun _ _ _ _ => drawn_of_rngRangeU32) hloop
  refine ⟨draws, ⟨by omega, hdraws⟩, ?_⟩
  rw [datasetShuffle_eq hx hy, hrun, Option.map_some]
  cases hs
  rfl

/-! ### Permutations of the rows -/

/-- When there are `2 ^ 32` rows or more, no valid draws leave the last row in its place. -/
theorem perm_last_ne {draws : List UInt32} (hn : 2 ^ 32 ≤ n) (h : ValidDraws n draws) :
  Shuffle.perm UInt32.toNat draws (n - 1) ≠ n - 1
  := by
  obtain ⟨hlength, hdraws⟩ := h
  have hle : ∀ i v, RowDrawn i v → v.toNat ≤ i := fun _ _ => RowDrawn.le
  apply Shuffle.perm_apply_ne hle ?_ (by omega) (by omega) hdraws
  intro v hv
  apply hv.ne (by omega)

/-- Every permutation of the rows is made by exactly one sequence of valid draws if and only if
the bound of every draw fits. -/
theorem existsUnique_validDraws_iff (hpos : 0 < n) :
  (∀ σ : Perm (Fin n), ∃! draws, ValidDraws n draws
      ∧ ∀ r : Fin n, Shuffle.perm UInt32.toNat draws r = σ r)
    ↔ n < 2 ^ 32
  := by
  constructor
  · intro hall
    by_contra hmany
    obtain ⟨draws, ⟨hdraws, hperm⟩, -⟩ := hall 1
    apply perm_last_ne (Nat.le_of_not_lt hmany) hdraws
    apply hperm ⟨n - 1, by omega⟩
  · intro hfew σ
    obtain ⟨m, rfl⟩ := Nat.exists_eq_add_one.mpr hpos
    simp only [ValidDraws, Nat.add_right_cancel_iff]
    apply Shuffle.existsUnique_draws_fin (fun _ _ h => UInt32.toNat_inj.mp h)
      (fun _ _ => RowDrawn.le)
    intro i k hi
    apply exists_rowDrawn (by omega)

/-- Take matrices with the same number of rows.  Any numbers that `rng_range_u32` may return make
`dataset_shuffle` permute the rows of both in the same way, and a call with the generator does
what it does for such numbers.  Every permutation of the rows is made by exactly one sequence of
such numbers if and only if there are less than `2 ^ 32` rows. -/
theorem dataset_shuffle_iff
    (hx : x.Made) (hy : ∀ y', y = some y' → y'.Made ∧ y'.rows = x.rows) (junk : ℕ → F) :
  (∀ draws, ValidDraws x.rows draws →
      ∃ x' y', datasetShuffle drawNext draws x y (some junk) = some ([], x', y', .ok)
        ∧ Permuted (Shuffle.perm UInt32.toNat draws) x x'
        ∧ Option.Rel (Permuted (Shuffle.perm UInt32.toNat draws)) y y')
    ∧ (∀ rounds rng rng' x' y',
      datasetShuffle (rngRangeU32 rounds) rng x y (some junk) = some (rng', x', y', .ok) →
      ∃ draws, ValidDraws x.rows draws
        ∧ datasetShuffle drawNext draws x y (some junk) = some ([], x', y', .ok))
    ∧ ((∀ σ : Perm (Fin x.rows), ∃! draws, ValidDraws x.rows draws
        ∧ ∀ r : Fin x.rows, Shuffle.perm UInt32.toNat draws r = σ r)
      ↔ x.rows < 2 ^ 32)
  := by
  refine ⟨fun draws => datasetShuffle_permuted hx hy junk, ?_, ?_⟩
  · intro rounds rng rng' x' y' h
    apply exists_validDraws hx hy junk h
  · apply existsUnique_validDraws_iff hx.rows_pos

/-- The draws 0 and 1 exchange the first and the last of three rows. -/
theorem dataset_shuffle_three :
  ∃ x', datasetShuffle drawNext [0, 1] (⟨[10, 20, 30], 3, 1⟩ : MatX ℕ) none (some fun _ => 0)
      = some ([], x', none, .ok)
    ∧ x'.row 0 = [30] ∧ x'.row 1 = [20] ∧ x'.row 2 = [10]
  := by
  have hx : (⟨[10, 20, 30], 3, 1⟩ : MatX ℕ).Made := by
    rw [MatX.Made]
    decide
  have hdraws : ValidDraws 3 [0, 1] := by
    refine ⟨rfl, ?_, ?_, trivial⟩
    · exact .inl (by decide)
    · exact .inl (by decide)
  obtain ⟨x', y', hshuffle, hx', hy'⟩ :=
    (dataset_shuffle_iff (y := none) hx (by rintro y' ⟨⟩) fun _ => 0).1 [0, 1] hdraws
  cases hy'
  refine ⟨x', hshuffle, ?_, ?_, ?_⟩
  · rw [hx'.row_eq]
    rfl
  · rw [hx'.row_eq]
    rfl
  · rw [hx'.row_eq]
    rfl

/-- A matrix may have `2 ^ 32` rows, and no draws leave all of them in their places. -/
theorem dataset_shuffle_many :
  checkedCount 4294967296 1 = .ok 4294967296
    ∧ ¬ ∃ draws, ValidDraws 4294967296 draws
      ∧ ∀ r : Fin 4294967296, Shuffle.perm UInt32.toNat draws r = (1 : Perm (Fin 4294967296)) r
  := by
  constructor
  · decide
  · rintro ⟨draws, hdraws, hperm⟩
    apply perm_last_ne (by decide) hdraws
    apply hperm ⟨4294967295, by decide⟩

end CTemplate

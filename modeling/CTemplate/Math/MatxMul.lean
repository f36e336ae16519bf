import CTemplate.Library.Buffer
import CTemplate.Library.Loop
import CTemplate.Math.Matx
import Mathlib.Algebra.Ring.Int.Defs

/-!
# Matrix products

The two matrix products of `math/matx.c`: `matx_mul`, and `matx_mul_blocked`, which tiles the
three loops.  The addition and the multiplication of elements are any binary operations.  Both
functions add up the same products in the same order.

A function gives `none` when the computation of an index or of the bound of a loop wraps around,
or when an index is outside the data.
-/

namespace CTemplate

open Loop

variable {F : Type}

/-! ### The products -/

/-- `check_mul`, where `aliased` says whether `out` shares its data with `a` or `b`. -/
def checkMul (a b out : MatX F) (aliased : Bool) : ErrorCode :=
  if a.data = [] ∨ b.data = [] ∨ out.data = [] then .invalidArg
  else if a.cols ≠ b.rows then .invalidArg
  else if out.rows ≠ a.rows ∨ out.cols ≠ b.cols then .invalidArg
  else if aliased then .invalidArg
  else .ok

/-- `memset(out->data, 0, out->rows * out->cols * sizeof(float))` -/
def clearData [Zero F] (out : MatX F) : Option (List F) :=
  (mulSize out.rows out.cols).bind fun count =>
    (mulSize count floatSize).bind fun _ => Buffer.write out.data 0 (List.replicate count 0)

/-- `out->data[i * out->cols + j] += aik * b->data[k * b->cols + j]` -/
def addProduct [Add F] [Mul F] (b : MatX F) (cols i k j : ℕ) (aik : F) (data : List F) :
    Option (List F) :=
  (b.entry k j).bind fun bkj =>
    (entryIndex cols i j).bind fun n => update (· + ·) data n (aik * bkj)

/-- The loops over the rows `i` of `a`, its columns `k` and the columns `j` of `b`, each from
one index to another. -/
def mulLoops [Add F] [Mul F] (a b : MatX F) (cols i₀ i₁ k₀ k₁ j₀ j₁ : ℕ) :
    List F → Option (List F) :=
  forRange i₀ i₁ fun i =>
    forRange k₀ k₁ fun k data =>
      (a.entry i k).bind fun aik => forRange j₀ j₁ (fun j => addProduct b cols i k j aik) data

/-- `matx_mul`: the matrix `out` after the call, and the code returned. -/
def matxMul [Zero F] [Add F] [Mul F] (a b out : MatX F) (aliased : Bool) :
    Option (MatX F × ErrorCode) :=
  let err := checkMul a b out aliased
  if err ≠ .ok then some (out, err)
  else
    (clearData out).bind fun data =>
      (mulLoops a b out.cols 0 a.rows 0 a.cols 0 b.cols data).map fun data =>
        ({ out with data }, .ok)

/-- `MATX_DEFAULT_BLOCK` -/
def matxDefaultBlock : ℕ := 32

/-- A loop over the tiles of the indices below `n` from `lo` on, for at most `rounds` rounds.  A
tile ends where the next one starts or at `n`. -/
def forTiles {σ : Type} (block n : ℕ) (body : ℕ → ℕ → σ → Option σ) : ℕ → ℕ → σ → Option σ
  | 0, lo, s => if lo < n then none else some s
  | rounds + 1, lo, s =>
      if lo < n then
        (addSize lo block).bind fun next =>
          (body lo (if next < n then next else n) s).bind (forTiles block n body rounds next)
      else some s

/-- `matx_mul_blocked` -/
def matxMulBlocked [Zero F] [Add F] [Mul F] (a b out : MatX F) (block : ℕ) (aliased : Bool) :
    Option (MatX F × ErrorCode) :=
  let err := checkMul a b out aliased
  if err ≠ .ok then some (out, err)
  else
    let block := if block = 0 then matxDefaultBlock else block
    (clearData out).bind fun data =>
      (forTiles block a.rows (fun i₀ i₁ =>
        forTiles block a.cols (fun k₀ k₁ =>
          forTiles block b.cols (mulLoops a b out.cols i₀ i₁ k₀ k₁) b.cols 0)
        a.cols 0) a.rows 0 data).map fun data =>
          ({ out with data }, .ok)

/-- The sum of the products of row `i` of `a` and column `j` of `b`, added up from zero in the
order of the index. -/
def MatX.dot [Zero F] [Add F] [Mul F] (a b : MatX F) (i j : ℕ) : F :=
  (List.range a.cols).foldl (fun sum q => sum + a.at i q * b.at q j) 0

/-! ### Shapes -/

/-- Matrices that can be multiplied, and one for the product. -/
structure Conformable (a b out : MatX F) : Prop where
  made_a : a.Made
  made_b : b.Made
  made_out : out.Made
  inner : a.cols = b.rows
  rows_eq : out.rows = a.rows
  cols_eq : out.cols = b.cols

variable {a b out : MatX F}

theorem MatX.Made.clearData_eq [Zero F] (h : out.Made) :
  clearData out = some (List.replicate (out.rows * out.cols) 0)
  := by
  have hsize := h.size_le
  have hlength := h.length_data
  have hle := Nat.le_trans (Nat.le_mul_of_pos_right _ (by decide)) hsize
  rw [clearData, mulSize_of_le hle, Option.bind_some, mulSize_of_le hsize, Option.bind_some,
    Buffer.write, List.length_replicate, Nat.zero_add, if_pos (by omega), List.take_zero,
    List.nil_append, ← hlength, List.drop_length, List.append_nil, hlength]

theorem Conformable.checkMul_eq (h : Conformable a b out) :
  checkMul a b out false = .ok
  := by
  rw [checkMul, if_neg, if_neg (not_not.mpr h.inner), if_neg, if_neg (by decide)]
  · rw [not_or, not_not, not_not]
    exact ⟨h.rows_eq, h.cols_eq⟩
  · simp only [h.made_a.data_ne_nil, h.made_b.data_ne_nil, h.made_out.data_ne_nil, or_self,
      not_false_eq_true]

theorem Conformable.clearData_eq [Zero F] (h : Conformable a b out) :
  clearData out = some (List.replicate (a.rows * b.cols) 0)
  := by
  rw [h.made_out.clearData_eq, h.rows_eq, h.cols_eq]

/-! ### Loops as updates -/

/-- A loop over tiles runs its body for every tile. -/
theorem forTiles_eq
    {σ : Type} {block n rounds lo : ℕ} {body : ℕ → ℕ → σ → Option σ} (hblock : 0 < block)
    (hle : block ≤ sizeMax) (hn : 2 * n ≤ sizeMax) (hlo : lo = 0 ∨ block ≤ lo)
    (hrounds : n ≤ lo + rounds) (s : σ) :
  forTiles block n body rounds lo s
    = (tilesFrom block n rounds lo).foldlM (fun s t => body t.1 t.2 s) s
  := by
  induction rounds generalizing lo s with
  | zero =>
      rw [forTiles, if_neg (by omega)]
      rfl
  | succ rounds ih =>
      rw [forTiles, tilesFrom]
      split
      case isFalse => rfl
      case isTrue hlt =>
        have hmin : (if lo + block < n then lo + block else n) = min (lo + block) n := by
          split <;> omega
        rw [addSize_of_le (by omega), Option.bind_some, List.foldlM_cons, hmin]
        cases body lo (min (lo + block) n) s with
        | none => rfl
        | some s' => apply ih (.inr (by omega)) (by omega)

/-- A loop of updates over tiles makes the updates of all tiles. -/
theorem forTiles_run
    {α β : Type} {op : α → β → α} {block n : ℕ} {body : ℕ → ℕ → List α → Option (List α)}
    {us : ℕ × ℕ → List (ℕ × β)} (hblock : 0 < block) (hle : block ≤ sizeMax)
    (hn : n * floatSize ≤ sizeMax)
    (hbody : ∀ lo hi data, hi ≤ n → body lo hi data = run op data (us (lo, hi)))
    (data : List α) :
  forTiles block n body n 0 data = run op data ((tiles block n).flatMap us)
  := by
  have htwo : 2 * n ≤ sizeMax := by
    apply Nat.le_trans _ hn
    rw [floatSize]
    omega
  rw [forTiles_eq hblock hle htwo (.inl rfl) (by omega), ← foldlM_run]
  apply foldlM_congr
  intro t ht data
  apply hbody _ _ _ (tilesFrom_le ht)

/-- The values for an element from updates in a row. -/
theorem contributions_row
    {cols i i' j j₀ j₁ : ℕ} (hj : j < cols) (hj₁ : j₁ ≤ cols) (f : ℕ → F) :
  contributions ((List.range' j₀ (j₁ - j₀)).flatMap fun j' => [(i' * cols + j', f j')])
      (i * cols + j)
    = if i' = i then if j₀ ≤ j ∧ j < j₁ then [f j] else [] else []
  := by
  rw [contributions_flatMap]
  by_cases hi : i' = i
  · obtain rfl := hi
    rw [if_pos rfl, ← range'_flatMap_ite]
    apply List.flatMap_congr
    intro j' hj'
    rw [List.mem_range'_1] at hj'
    rw [contributions_singleton]
    by_cases hjj : j' = j
    · rw [if_pos (by rw [hjj]), if_pos hjj, hjj]
    · rw [if_neg (by omega), if_neg hjj]
  · rw [if_neg hi, List.flatMap_eq_nil_iff]
    intro j' hj'
    rw [List.mem_range'_1] at hj'
    rw [contributions_singleton, if_neg]
    rw [entry_inj (by omega) hj]
    exact fun h => hi h.1

section Updates

variable [Zero F] [Mul F]

/-- The updates made by the loops, in their order. -/
def mulUpdates (a b : MatX F) (cols i₀ i₁ k₀ k₁ j₀ j₁ : ℕ) : List (ℕ × F) :=
  (List.range' i₀ (i₁ - i₀)).flatMap fun i =>
    (List.range' k₀ (k₁ - k₀)).flatMap fun k =>
      (List.range' j₀ (j₁ - j₀)).flatMap fun j => [(i * cols + j, a.at i k * b.at k j)]

/-- The updates made by the loops over all tiles, in their order. -/
def tiledUpdates (a b : MatX F) (block : ℕ) : List (ℕ × F) :=
  (tiles block a.rows).flatMap fun i =>
    (tiles block a.cols).flatMap fun k =>
      (tiles block b.cols).flatMap fun j => mulUpdates a b b.cols i.1 i.2 k.1 k.2 j.1 j.2

variable {i₀ i₁ k₀ k₁ j₀ j₁ : ℕ}

theorem mulLoops_eq
    [Add F] (h : Conformable a b out) (hi : i₁ ≤ a.rows) (hk : k₁ ≤ a.cols) (hj : j₁ ≤ b.cols)
    (data : List F) :
  mulLoops a b out.cols i₀ i₁ k₀ k₁ j₀ j₁ data
    = run (· + ·) data (mulUpdates a b b.cols i₀ i₁ k₀ k₁ j₀ j₁)
  := by
  rw [mulUpdates, ← forRange_run, mulLoops]
  apply forRange_congr
  intro i _ hi' data
  rw [← forRange_run]
  apply forRange_congr
  intro k _ hk' data
  rw [h.made_a.entry_eq (by omega) (by omega), Option.bind_some, ← forRange_run]
  apply forRange_congr
  intro j _ hj' data
  have hinner := h.inner
  have hrows := h.rows_eq
  have hcols := h.cols_eq
  rw [addProduct, h.made_b.entry_eq (by omega) (by omega), Option.bind_some,
    h.made_out.entryIndex_eq (by omega) (by omega), Option.bind_some, update_eq_run, h.cols_eq]

theorem tiledLoops_eq
    [Add F] {block : ℕ} (h : Conformable a b out) (hblock : 0 < block) (hle : block ≤ sizeMax)
    (data : List F) :
  forTiles block a.rows (fun i₀ i₁ =>
      forTiles block a.cols (fun k₀ k₁ =>
        forTiles block b.cols (mulLoops a b out.cols i₀ i₁ k₀ k₁) b.cols 0)
      a.cols 0) a.rows 0 data
    = run (· + ·) data (tiledUpdates a b block)
  := by
  apply forTiles_run hblock hle h.made_a.rows_le
  intro i₀ i₁ data hi
  apply forTiles_run hblock hle h.made_a.cols_le
  intro k₀ k₁ data hk
  apply forTiles_run hblock hle h.made_b.cols_le
  intro j₀ j₁ data hj
  apply mulLoops_eq h hi hk hj

/-! ### What is added to an element -/

/-- The products that the loops add to the element in column `j` of row `i`. -/
theorem contributions_mulUpdates {i j : ℕ} (hj : j < b.cols) (hj₁ : j₁ ≤ b.cols) :
  contributions (mulUpdates a b b.cols i₀ i₁ k₀ k₁ j₀ j₁) (i * b.cols + j)
    = if i₀ ≤ i ∧ i < i₁ then
        if j₀ ≤ j ∧ j < j₁ then
          (List.range' k₀ (k₁ - k₀)).flatMap fun q => [a.at i q * b.at q j]
        else []
      else []
  := by
  have hrow : ∀ i', contributions ((List.range' k₀ (k₁ - k₀)).flatMap fun q =>
        (List.range' j₀ (j₁ - j₀)).flatMap fun j' => [(i' * b.cols + j', a.at i' q * b.at q j')])
        (i * b.cols + j)
      = if i' = i then
          if j₀ ≤ j ∧ j < j₁ then
            (List.range' k₀ (k₁ - k₀)).flatMap fun q => [a.at i' q * b.at q j]
          else []
        else [] := by
    intro i'
    rw [contributions_flatMap]
    simp only [contributions_row hj hj₁, flatMap_ite]
  rw [mulUpdates, contributions_flatMap, ← range'_flatMap_ite]
  apply List.flatMap_congr
  intro i' _
  rw [hrow]
  by_cases hi : i' = i
  · rw [hi]
  · rw [if_neg hi, if_neg hi]

/-- The products that the tiled loops add to the element in column `j` of row `i`. -/
theorem contributions_tiledUpdates
    {block i j : ℕ} (hblock : 0 < block) (hi : i < a.rows) (hj : j < b.cols) :
  contributions (tiledUpdates a b block) (i * b.cols + j)
    = (List.range' 0 a.cols).flatMap fun q => [a.at i q * b.at q j]
  := by
  have hcols : ∀ ti tk : ℕ × ℕ,
      contributions ((tiles block b.cols).flatMap fun tj =>
        mulUpdates a b b.cols ti.1 ti.2 tk.1 tk.2 tj.1 tj.2) (i * b.cols + j)
      = if ti.1 ≤ i ∧ i < ti.2 then
          (List.range' tk.1 (tk.2 - tk.1)).flatMap fun q => [a.at i q * b.at q j]
        else [] := by
    intro ti tk
    have htile : ∀ tj ∈ tiles block b.cols,
        contributions (mulUpdates a b b.cols ti.1 ti.2 tk.1 tk.2 tj.1 tj.2) (i * b.cols + j)
        = if ti.1 ≤ i ∧ i < ti.2 then
            if tj.1 ≤ j ∧ j < tj.2 then
              (List.range' tk.1 (tk.2 - tk.1)).flatMap fun q => [a.at i q * b.at q j]
            else []
          else [] := fun tj htj => contributions_mulUpdates hj (tilesFrom_le htj)
    rw [contributions_flatMap, List.flatMap_congr htile, flatMap_ite, tiles_flatMap_ite hblock,
      if_pos hj]
  have hinner : ∀ ti : ℕ × ℕ,
      contributions ((tiles block a.cols).flatMap fun tk => (tiles block b.cols).flatMap fun tj =>
        mulUpdates a b b.cols ti.1 ti.2 tk.1 tk.2 tj.1 tj.2) (i * b.cols + j)
      = if ti.1 ≤ i ∧ i < ti.2 then
          (List.range' 0 a.cols).flatMap fun q => [a.at i q * b.at q j]
        else [] := by
    intro ti
    rw [contributions_flatMap]
    simp only [hcols, flatMap_ite]
    rw [← List.flatMap_assoc, tiles_flatMap hblock]
  rw [tiledUpdates, contributions_flatMap]
  simp only [hinner]
  rw [tiles_flatMap_ite hblock, if_pos hi]

/-! ### What the products are -/

/-- Updates within the matrix, by which the products of row `i` of `a` and column `j` of `b` are
added to the element in column `j` of row `i`. -/
structure Multiplies (a b : MatX F) (us : List (ℕ × F)) : Prop where
  lt : ∀ u ∈ us, u.1 < a.rows * b.cols
  contributions_eq : ∀ {i j}, i < a.rows → j < b.cols →
    contributions us (i * b.cols + j)
      = (List.range' 0 a.cols).flatMap fun q => [a.at i q * b.at q j]

theorem mulUpdates_lt
    (hi : i₁ ≤ a.rows) (hj : j₁ ≤ b.cols) {u : ℕ × F}
    (hu : u ∈ mulUpdates a b b.cols i₀ i₁ k₀ k₁ j₀ j₁) :
  u.1 < a.rows * b.cols
  := by
  simp only [mulUpdates, List.mem_flatMap, List.mem_range'_1, List.mem_singleton] at hu
  obtain ⟨i, hi', k, -, j, hj', rfl⟩ := hu
  apply entry_lt <;> omega

theorem multiplies_mulUpdates :
  Multiplies a b (mulUpdates a b b.cols 0 a.rows 0 a.cols 0 b.cols)
  := by
  constructor
  · intro u
    apply mulUpdates_lt (Nat.le_refl _) (Nat.le_refl _)
  · intro i j hi hj
    rw [contributions_mulUpdates hj (Nat.le_refl _), if_pos ⟨Nat.zero_le _, hi⟩,
      if_pos ⟨Nat.zero_le _, hj⟩, Nat.sub_zero]

theorem multiplies_tiledUpdates {block : ℕ} (hblock : 0 < block) :
  Multiplies a b (tiledUpdates a b block)
  := by
  constructor
  · intro u hu
    simp only [tiledUpdates, List.mem_flatMap] at hu
    obtain ⟨ti, hti, tk, -, tj, htj, hu⟩ := hu
    apply mulUpdates_lt (tilesFrom_le hti) (tilesFrom_le htj) hu
  · intro i j
    apply contributions_tiledUpdates hblock

end Updates

section Products

variable [Zero F] [Add F] [Mul F]

/-- The elements of the product. -/
structure Product (a b out : MatX F) : Prop where
  made : out.Made
  rows_eq : out.rows = a.rows
  cols_eq : out.cols = b.cols
  at_eq : ∀ {i j}, i < a.rows → j < b.cols → out.at i j = a.dot b i j

/-- Updates that multiply, starting from zeros, make the product. -/
theorem Conformable.product
    (h : Conformable a b out) {us : List (ℕ × F)} (hus : Multiplies a b us) :
  ∃ data, run (· + ·) (List.replicate (a.rows * b.cols) 0) us = some data
    ∧ Product a b { out with data }
  := by
  have hlt : ∀ u ∈ us, u.1 < (List.replicate (a.rows * b.cols) (0 : F)).length := by
    rw [List.length_replicate]
    exact hus.lt
  obtain ⟨data, hrun, hlength, hget⟩ := exists_run (· + ·) hlt
  rw [List.length_replicate] at hlength
  refine ⟨data, hrun, ?_⟩
  constructor
  · rw [MatX.Made, hlength, ← h.rows_eq, ← h.cols_eq, ← h.made_out.length_data]
    exact h.made_out
  · exact h.rows_eq
  · exact h.cols_eq
  · intro i j hi hj
    rw [MatX.at, MatX.dot]
    dsimp only
    rw [h.cols_eq, hget, hus.contributions_eq hi hj, List.getElem?_replicate,
      if_pos (entry_lt hi hj), Option.map_some, Option.getD_some, ← List.map_eq_flatMap,
      List.foldl_map, List.range_eq_range']

/-- `matx_mul` makes the product. -/
theorem Conformable.matxMul (h : Conformable a b out) :
  ∃ out', matxMul a b out false = some (out', .ok) ∧ Product a b out'
  := by
  obtain ⟨data, hrun, hproduct⟩ := h.product multiplies_mulUpdates
  simp only [CTemplate.matxMul, h.checkMul_eq, ne_eq, not_true_eq_false, if_false]
  rw [h.clearData_eq, Option.bind_some,
    mulLoops_eq h (Nat.le_refl _) (Nat.le_refl _) (Nat.le_refl _), hrun]
  exact ⟨_, rfl, hproduct⟩

theorem MatX.Shaped.mul
    {n k m : ℕ} (ha : a.Shaped n k) (hb : b.Shaped k m) (hout : out.Shaped n m) :
  ∃ out', CTemplate.matxMul a b out false = some (out', .ok) ∧ out'.Shaped n m
    ∧ ∀ i j, i < n → j < m → out'.at i j = a.dot b i j
  := by
  have h : Conformable a b out := {
    made_a := ha.made
    made_b := hb.made
    made_out := hout.made
    inner := ha.cols_eq.trans hb.rows_eq.symm
    rows_eq := hout.rows_eq.trans ha.rows_eq.symm
    cols_eq := hout.cols_eq.trans hb.cols_eq.symm }
  obtain ⟨out', hmul, hproduct⟩ := h.matxMul
  refine ⟨out', hmul, ⟨hproduct.made, ?_, ?_⟩, ?_⟩
  · rw [hproduct.rows_eq, ha.rows_eq]
  · rw [hproduct.cols_eq, hb.cols_eq]
  · intro i j hi hj
    apply hproduct.at_eq (by rwa [ha.rows_eq]) (by rwa [hb.cols_eq])

/-- `matx_mul_blocked` makes the product. -/
theorem Conformable.matxMulBlocked
    (h : Conformable a b out) {block : ℕ} (hblock : block ≤ sizeMax) :
  ∃ out', matxMulBlocked a b out block false = some (out', .ok) ∧ Product a b out'
  := by
  have hpos : 0 < if block = 0 then matxDefaultBlock else block := by
    split
    · decide
    · omega
  have hle : (if block = 0 then matxDefaultBlock else block) ≤ sizeMax := by
    split
    · decide
    · exact hblock
  obtain ⟨data, hrun, hproduct⟩ := h.product (multiplies_tiledUpdates hpos)
  simp only [CTemplate.matxMulBlocked, h.checkMul_eq, ne_eq, not_true_eq_false, if_false]
  rw [h.clearData_eq, Option.bind_some, tiledLoops_eq h hpos hle, hrun]
  exact ⟨_, rfl, hproduct⟩

/-- There is one product. -/
theorem Product.unique {out' : MatX F} (h : Product a b out) (h' : Product a b out') :
  out = out'
  := by
  apply h.made.ext h'.made (h.rows_eq.trans h'.rows_eq.symm) (h.cols_eq.trans h'.cols_eq.symm)
  intro r c hr hc
  rw [h.rows_eq] at hr
  rw [h.cols_eq] at hc
  rw [h.at_eq hr hc, h'.at_eq hr hc]

/-- For matrices of shapes that fit, with separate storage, and every size of the tiles,
`matx_mul_blocked` and `matx_mul` leave the same matrix in `out`.  Its elements are the products
of the rows of `a` and the columns of `b`, added up in the order of the index, and no index or
bound of a loop wraps around. -/
theorem matx_mul_blocked_eq
    (ha : a.Made) (hb : b.Made) (hout : out.Made) (hinner : a.cols = b.rows)
    (hrows : out.rows = a.rows) (hcols : out.cols = b.cols) {block : ℕ}
    (hblock : block ≤ sizeMax) :
  ∃ out', matxMulBlocked a b out block false = some (out', .ok)
    ∧ matxMul a b out false = some (out', .ok)
    ∧ out'.rows = a.rows ∧ out'.cols = b.cols ∧ out'.data.length = a.rows * b.cols
    ∧ ∀ i j, i < a.rows → j < b.cols →
        matxGet out' i j
          = some ((List.range a.cols).foldl (fun sum q => sum + a.at i q * b.at q j) 0)
  := by
  have h : Conformable a b out := ⟨ha, hb, hout, hinner, hrows, hcols⟩
  obtain ⟨out', hmul, hproduct⟩ := h.matxMul
  obtain ⟨out'', hblocked, hproduct'⟩ := h.matxMulBlocked hblock
  obtain rfl := hproduct.unique hproduct'
  refine ⟨out', hblocked, hmul, hproduct.rows_eq, hproduct.cols_eq, ?_, ?_⟩
  · rw [hproduct.made.length_data, hproduct.rows_eq, hproduct.cols_eq]
  · intro i j hi hj
    have hget := hproduct.made.getElem?_eq (hproduct.rows_eq.symm ▸ hi) (hproduct.cols_eq.symm ▸ hj)
    rw [matxGet, hget, hproduct.at_eq hi hj, MatX.dot]

end Products

/-- A product of matrices of 2 by 3 and 3 by 2 elements, in tiles of 2 by 2 by 2. -/
theorem matx_mul_blocked_eq_two :
  ∃ out', matxMulBlocked (F := ℤ) ⟨[1, 2, 3, 4, 5, 6], 2, 3⟩ ⟨[1, 0, 0, 1, 1, 1], 3, 2⟩
      ⟨[9, 9, 9, 9], 2, 2⟩ 2 false = some (out', .ok)
    ∧ matxMul (F := ℤ) ⟨[1, 2, 3, 4, 5, 6], 2, 3⟩ ⟨[1, 0, 0, 1, 1, 1], 3, 2⟩
      ⟨[9, 9, 9, 9], 2, 2⟩ false = some (out', .ok)
    ∧ out'.rows = 2 ∧ out'.cols = 2 ∧ matxGet out' 1 0 = some 10
  := by
  obtain ⟨out', hblocked, hmul, hrows, hcols, -, hget⟩ := matx_mul_blocked_eq
    (a := (⟨[1, 2, 3, 4, 5, 6], 2, 3⟩ : MatX ℤ)) (b := ⟨[1, 0, 0, 1, 1, 1], 3, 2⟩)
    rfl rfl (show (⟨[9, 9, 9, 9], 2, 2⟩ : MatX ℤ).Made from rfl) rfl rfl rfl
    (show 2 ≤ sizeMax by decide)
  refine ⟨out', hblocked, hmul, hrows, hcols, ?_⟩
  rw [hget 1 0 (by decide) (by decide)]
  rfl

end CTemplate

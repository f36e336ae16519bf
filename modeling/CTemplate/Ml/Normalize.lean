import CTemplate.Math.MatxOps
import CTemplate.Math.Stats
import Mathlib.Algebra.Order.Field.Basic
import Mathlib.Analysis.Real.Sqrt
import Mathlib.Tactic.NormNum

/-!
# Standard scores

`dataset_normalize_zscore` of `ml/dataset.c`, in exact arithmetic: `float` and `double` are an
ordered field, conversions between the two change nothing, and `sqrt` is any function on it.

Each column is centred, and divided by the root of its variance unless that is tiny.  The mean and
the variance that the loop over a column computes are those of the column, so that the column adds
up to zero after the call.
-/

namespace CTemplate

open Loop

variable {F : Type} [Field F]

/-- The first loop over column `c` in `dataset_normalize_zscore`: `mean` and `m2` after it. -/
def columnMoments (x : MatX F) (c : ℕ) : Option (F × F) :=
  forRange 0 x.rows (fun r (mean, m2) => (x.entry r c).map fun v =>
    let delta := v - mean
    let mean := mean + delta / (r + 1 : ℕ)
    (mean, m2 + delta * (v - mean))) ((0, 0) : F × F)

variable [LinearOrder F]

/-- The loop body of `dataset_normalize_zscore` for column `c`. -/
def normalizeColumn (sqrt : F → F) (c : ℕ) (x : MatX F) : Option (MatX F) :=
  (columnMoments x c).bind fun (mean, m2) =>
    let var := m2 / (x.rows - 1 : ℕ)
    let std := sqrt var
    forRange 0 x.rows (fun r x => (x.entry r c).bind fun v =>
      let centered := v - mean
      matxSet x r c (if 1e-12 < std then centered / std else centered)) x

/-- `dataset_normalize_zscore`: the matrix after the call and the code returned, where a null
pointer `data` is the empty list. -/
def datasetNormalizeZscore (sqrt : F → F) (x : MatX F) : Option (MatX F × ErrorCode) :=
  if x.data = [] ∨ x.rows < 2 then some (x, .invalidArg)
  else (forRange 0 x.cols (normalizeColumn sqrt) x).map fun x => (x, .ok)

/-! ### Columns -/

/-- What becomes of an element `v` of a column `xs`. -/
def score (sqrt : F → F) (xs : List F) (v : F) : F :=
  let std := sqrt (Welford.sampleVariance xs)
  if 1e-12 < std then (v - Welford.mean xs) / std else v - Welford.mean xs

/-- The elements of column `c`. -/
def MatX.column {F : Type} [Zero F] (x : MatX F) (c : ℕ) : List F :=
  (List.range x.rows).map fun r => x.at r c

theorem MatX.Shaped.length_column
    {F : Type} [Zero F] {x : MatX F} {n m : ℕ} (h : x.Shaped n m) (c : ℕ) :
  (x.column c).length = n
  := by
  rw [MatX.column, List.length_map, List.length_range, h.rows_eq]

/-- A column that holds a function of the elements of another one. -/
theorem column_eq_map
    {F : Type} [Zero F] {x x' : MatX F} {n m c : ℕ} {f : ℕ → ℕ → F} (hx : x.Shaped n m)
    (hx' : x'.Holds n m f) (hc : c < m) {g : F → F} (hf : ∀ r, r < n → f r c = g (x.at r c)) :
  x'.column c = (x.column c).map g
  := by
  rw [MatX.column, MatX.column, hx'.shaped.rows_eq, hx.rows_eq, List.map_map]
  apply List.map_congr_left
  intro r hr
  rw [List.mem_range] at hr
  rw [hx'.at_eq hr hc, hf r hr, Function.comp_apply]

variable {sqrt : F → F}

theorem score_of_lt {xs : List F} (hstd : 1e-12 < sqrt (Welford.sampleVariance xs)) :
  score sqrt xs = fun v => (v - Welford.mean xs) / sqrt (Welford.sampleVariance xs)
  := by
  funext v
  apply if_pos hstd

theorem score_of_not_lt {xs : List F} (hstd : ¬ 1e-12 < sqrt (Welford.sampleVariance xs)) :
  score sqrt xs = fun v => (v - Welford.mean xs) / 1
  := by
  funext v
  rw [div_one]
  apply if_neg hstd

variable [IsStrictOrderedRing F] {x : MatX F} {n m c : ℕ} {f : ℕ → ℕ → F}

/-- The recurrence computes the mean and the squared deviations of the column. -/
theorem columnMoments_eq (h : x.Shaped n m) (hc : c < m) :
  columnMoments x c = some (Welford.mean (x.column c), Welford.squares (x.column c))
  := by
  have hrows : x.rows = (x.column c).length := by
    rw [h.length_column, h.rows_eq]
  rw [columnMoments, hrows, forRange_welford]
  intro r hr mean m2
  have helement : (x.column c)[r] = x.at r c := by
    simp [MatX.column]
  rw [h.length_column] at hr
  simp only [h.entry_eq hr hc, Option.map_some, helement]
  rfl

/-- The second loop over a column sets each element to its score. -/
theorem MatX.Holds.exists_normalizeColumn (h : x.Holds n m f) (hn : 2 ≤ n) (hc : c < m) :
  ∃ x', normalizeColumn sqrt c x = some x'
    ∧ x'.Holds n m fun i j => if j = c then score sqrt (x.column c) (f i j) else f i j
  := by
  have hlast : ((n - 1 : ℕ) : F) = (x.column c).length - 1 := by
    rw [h.shaped.length_column, Nat.cast_pred (by omega)]
  have hround : ∀ r x₁, 0 ≤ r → r < n →
      MatX.Holds x₁ n m (fun i j =>
        if j = c ∧ i < r then score sqrt (x.column c) (f i j) else f i j) →
      ∃ x₂, ((x₁.entry r c).bind fun v =>
          matxSet x₁ r c (score sqrt (x.column c) v)) = some x₂
        ∧ MatX.Holds x₂ n m fun i j =>
          if j = c ∧ i < r + 1 then score sqrt (x.column c) (f i j) else f i j := by
    intro r x₁ _ hr h₁
    obtain ⟨x₂, hset, h₂⟩ := h₁.exists_matxSet hr hc (score sqrt (x.column c) (f r c))
    refine ⟨x₂, ?_, h₂.congr ?_⟩
    · rw [h₁.shaped.entry_eq hr hc, Option.bind_some, h₁.at_eq hr hc, if_neg (by omega), hset]
    · intro i j hi hj
      by_cases hij : i = r ∧ j = c
      · rw [if_pos hij, if_pos (by omega), hij.1, hij.2]
      · rw [if_neg hij]
        congr 1
        apply propext
        omega
  obtain ⟨x', hloop, h'⟩ := exists_forRange (Nat.zero_le n) hround (h.congr (by simp))
  refine ⟨x', ?_, h'.congr ?_⟩
  · rw [normalizeColumn, columnMoments_eq h.shaped hc, Option.bind_some, h.shaped.rows_eq, ← hloop]
    simp only [score, Welford.sampleVariance, hlast]
    rfl
  · intro i j hi _
    congr 1
    apply propext
    omega

/-- The matrix after the call holds the scores of all elements. -/
theorem exists_datasetNormalizeZscore (h : x.Shaped n m) (hn : 2 ≤ n) :
  ∃ x', datasetNormalizeZscore sqrt x = some (x', .ok) ∧ x'.Shaped n m
    ∧ ∀ c < m, x'.column c = (x.column c).map (score sqrt (x.column c))
  := by
  have hgo : ¬ (x.data = [] ∨ x.rows < 2) := by
    rw [h.rows_eq, not_or]
    exact ⟨h.data_ne_nil, by omega⟩
  have hround : ∀ c x₁, 0 ≤ c → c < m →
      MatX.Holds x₁ n m (fun i j =>
        if j < c then score sqrt (x.column j) (x.at i j) else x.at i j) →
      ∃ x₂, normalizeColumn sqrt c x₁ = some x₂
        ∧ MatX.Holds x₂ n m fun i j =>
          if j < c + 1 then score sqrt (x.column j) (x.at i j) else x.at i j := by
    intro c x₁ _ hc h₁
    -- the columns from `c` on are still those of `x`
    have hcolumn : x₁.column c = x.column c := by
      rw [column_eq_map (g := id) h h₁ hc fun r _ => if_neg (Nat.lt_irrefl c), List.map_id]
    obtain ⟨x₂, hnormalize, h₂⟩ : ∃ x₂, normalizeColumn sqrt c x₁ = some x₂ ∧ _ :=
      h₁.exists_normalizeColumn hn hc
    refine ⟨x₂, hnormalize, h₂.congr ?_⟩
    intro i j _ _
    rw [hcolumn]
    rcases Nat.lt_trichotomy j c with hlt | rfl | hgt
    · rw [if_neg (by omega), if_pos hlt, if_pos (by omega)]
    · rw [if_pos rfl, if_neg (by omega), if_pos (by omega)]
    · rw [if_neg (by omega), if_neg (by omega), if_neg (by omega)]
  obtain ⟨x', hloop, h'⟩ := exists_forRange (Nat.zero_le m) hround ⟨h, by simp⟩
  refine ⟨x', ?_, h'.shaped, ?_⟩
  · rw [datasetNormalizeZscore, if_neg hgo, h.cols_eq, hloop, Option.map_some]
  · intro c hc
    apply column_eq_map h h' hc
    intro r _
    rw [if_pos hc]

/-- The scores of a column add up to zero. -/
theorem sum_score (xs : List F) :
  (xs.map (score sqrt xs)).sum = 0
  := by
  by_cases hstd : 1e-12 < sqrt (Welford.sampleVariance xs)
  · rw [score_of_lt hstd, Welford.sum_scaled]
  · rw [score_of_not_lt hstd, Welford.sum_scaled]

/-- Where the root of the variance is one and is not tiny, the scores have the variance one. -/
theorem sampleVariance_score
    {xs : List F} (hstd : 1e-12 < sqrt (Welford.sampleVariance xs))
    (hroot : sqrt (Welford.sampleVariance xs) * sqrt (Welford.sampleVariance xs)
      = Welford.sampleVariance xs) :
  Welford.sampleVariance (xs.map (score sqrt xs)) = 1
  := by
  have hpos : 0 < sqrt (Welford.sampleVariance xs) := by
    apply lt_trans _ hstd
    norm_num
  rw [score_of_lt hstd]
  apply Welford.sampleVariance_scaled hpos.ne' hroot

/-- What `dataset_normalize_zscore` makes of a matrix. -/
structure Normalized (sqrt : F → F) (x x' : MatX F) : Prop where
  rows_eq : x'.rows = x.rows
  cols_eq : x'.cols = x.cols
  scores : ∀ c < x.cols, x'.column c = (x.column c).map (score sqrt (x.column c))
  sum_eq : ∀ c < x.cols, (x'.column c).sum = 0
  variance_eq : ∀ c < x.cols, ∀ s, s = sqrt (Welford.sampleVariance (x.column c)) →
    s * s = Welford.sampleVariance (x.column c) → 1e-12 < s →
    Welford.sampleVariance (x'.column c) = 1

/-- The recurrences of `stats_variance` and of `dataset_normalize_zscore` agree with the
definitions in two passes, for two values or more.  After a call of the second, every column adds
up to zero, and it has the sample variance one where it was divided by the root of its
variance. -/
theorem welford_agrees (sqrt : F → F) :
  (∀ (xs : List F) (out : F), 2 ≤ xs.length →
    statsVariance (some xs) xs.length (some out) = some (.ok, some (Welford.sampleVariance xs)))
    ∧ ∀ x : MatX F, x.Made → 2 ≤ x.rows →
      (∀ c < x.cols, ∃ mean m2, columnMoments x c = some (mean, m2)
        ∧ mean = Welford.mean (x.column c)
        ∧ m2 / (x.rows - 1 : ℕ) = Welford.sampleVariance (x.column c))
        ∧ ∃ x', datasetNormalizeZscore sqrt x = some (x', .ok) ∧ Normalized sqrt x x'
  := by
  constructor
  · intro xs out hn
    apply statsVariance_eq hn
  · intro x hx hn
    have h : x.Shaped x.rows x.cols := ⟨hx, rfl, rfl⟩
    constructor
    · intro c hc
      refine ⟨_, _, columnMoments_eq h hc, rfl, ?_⟩
      rw [Welford.sampleVariance, h.length_column, Nat.cast_pred (by omega)]
    · obtain ⟨x', hcall, h', hscores⟩ : ∃ x', datasetNormalizeZscore sqrt x = some (x', .ok)
          ∧ _ := exists_datasetNormalizeZscore h hn
      refine ⟨x', hcall, h'.rows_eq, h'.cols_eq, hscores, ?_, ?_⟩
      · intro c hc
        rw [hscores c hc, sum_score]
      · rintro c hc s rfl hroot hstd
        rw [hscores c hc]
        apply sampleVariance_score hstd hroot

/-- The numbers `0`, `2` and `4`, whose sample variance is `4`. -/
theorem welford_agrees_three :
  statsVariance (some [0, 2, 4]) 3 (some (0 : ℝ)) = some (.ok, some 4)
    ∧ ∃ x', datasetNormalizeZscore Real.sqrt (⟨[0, 2, 4], 3, 1⟩ : MatX ℝ) = some (x', .ok)
      ∧ (x'.column 0).sum = 0 ∧ Welford.sampleVariance (x'.column 0) = 1
  := by
  have hvariance : Welford.sampleVariance ([0, 2, 4] : List ℝ) = 4 := by
    norm_num [Welford.sampleVariance, Welford.squares, Welford.mean]
  have hroot : Real.sqrt 4 = 2 := by
    rw [Real.sqrt_eq_iff_mul_self_eq] <;> norm_num
  have hx : (⟨[0, 2, 4], 3, 1⟩ : MatX ℝ).Made := by
    rw [MatX.Made]
    decide
  have hcolumn : (⟨[0, 2, 4], 3, 1⟩ : MatX ℝ).column 0 = [0, 2, 4] := by
    rfl
  obtain ⟨hstats, hnormalize⟩ := welford_agrees Real.sqrt
  obtain ⟨-, x', hcall, h'⟩ := hnormalize ⟨[0, 2, 4], 3, 1⟩ hx (by decide)
  refine ⟨?_, x', hcall, h'.sum_eq 0 (by decide), ?_⟩
  · have hthree := hstats [0, 2, 4] 0 (by simp)
    rw [hvariance] at hthree
    exact hthree
  · apply h'.variance_eq 0 (by decide) 2
    · rw [hcolumn, hvariance, hroot]
    · rw [hcolumn, hvariance]
      norm_num
    · norm_num

end CTemplate

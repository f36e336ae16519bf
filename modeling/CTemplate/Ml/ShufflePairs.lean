import CTemplate.Ml.Shuffle

/-!
# Shuffled rows and their labels

A shuffle of the features `x` and the labels `y` keeps the rows of both together: the pairs of a
row of `x` and the row of `y` with the same index are those from before, in another order.  A call
that fails changes neither of the two.
-/

namespace CTemplate

variable {F ρ : Type} {x y : MatX F}

/-- The rows of `x`, each with the row of `y` that has the same index. -/
def rowPairs (x y : MatX F) : List (List F × List F) :=
  (List.range x.rows).map fun r => (x.row r, y.row r)

/-- The same permutation of the rows of both matrices permutes the pairs. -/
theorem Permuted.rowPairs_perm
    {σ : Equiv.Perm ℕ} {x' y' : MatX F} (hpos : 0 < x.rows)
    (hσ : Shuffle.FixesAbove (x.rows - 1) σ) (hx : Permuted σ x x') (hy : Permuted σ y y') :
  (rowPairs x' y').Perm (rowPairs x y)
  := by
  have hpairs := hσ.map_range_perm fun r => (x.row r, y.row r)
  rw [Nat.sub_add_cancel hpos] at hpairs
  simp only [rowPairs, hx.rows_eq, hx.row_eq, hy.row_eq]
  exact hpairs

/-- Valid draws move no row that is not there. -/
theorem ValidDraws.fixesAbove {n : ℕ} {draws : List UInt32} (h : ValidDraws n draws) :
  Shuffle.FixesAbove (n - 1) (Shuffle.perm UInt32.toNat draws)
  := by
  obtain ⟨hlength, hdraws⟩ := h
  have hle : ∀ i v, RowDrawn i v → v.toNat ≤ i := fun _ _ => RowDrawn.le
  have hfixes := Shuffle.fixesAbove_perm hle hdraws
  rwa [show n - 1 = draws.length by omega]

/-- The two matrices have the shapes they had, and the pairs of their rows are those from before,
in another order. -/
structure PairsKept (x y x' y' : MatX F) : Prop where
  x_rows : x'.rows = x.rows
  x_cols : x'.cols = x.cols
  y_rows : y'.rows = y.rows
  y_cols : y'.cols = y.cols
  pairs : (rowPairs x' y').Perm (rowPairs x y)

theorem labels_made (hy : y.Made) (hrows : y.rows = x.rows) :
  ∀ y', some y = some y' → y'.Made ∧ y'.rows = x.rows
  := by
  rintro _ ⟨rfl⟩
  use hy

/-- Valid draws make `dataset_shuffle` keep the pairs. -/
theorem datasetShuffle_pairsKept
    (hx : x.Made) (hy : y.Made) (hrows : y.rows = x.rows) (junk : ℕ → F)
    {draws : List UInt32} (h : ValidDraws x.rows draws) :
  ∃ x' y', datasetShuffle drawNext draws x (some y) (some junk) = some ([], x', some y', .ok)
    ∧ PairsKept x y x' y'
  := by
  have hlabels := labels_made hy hrows
  obtain ⟨x', y', hshuffle, hx', hy'⟩ := datasetShuffle_permuted hx hlabels junk h
  cases hy' with
  | @some _ y' hy' =>
      refine ⟨x', y', hshuffle, hx'.rows_eq, hx'.cols_eq, hy'.rows_eq, hy'.cols_eq, ?_⟩
      apply Permuted.rowPairs_perm hx.rows_pos h.fixesAbove hx' hy'

/-- A call fails and changes no matrix, or it was granted memory and succeeds. -/
theorem datasetShuffle_cases
    {range : ρ → UInt32 → Option (ρ × UInt32)} {rng rng' : ρ} {x' : MatX F}
    {y y' : Option (MatX F)} {malloc : Option (ℕ → F)} {code : ErrorCode}
    (h : datasetShuffle range rng x y malloc = some (rng', x', y', code)) :
  (code ≠ .ok ∧ x' = x ∧ y' = y) ∨ (code = .ok ∧ ∃ junk, malloc = some junk)
  := by
  rw [datasetShuffle.eq_def] at h
  split at h
  · cases h
    exact .inl ⟨by decide, rfl, rfl⟩
  split at h
  · cases h
    exact .inl ⟨by decide, rfl, rfl⟩
  obtain ⟨-, -, h⟩ := Option.bind_eq_some_iff.mp h
  cases malloc with
  | none =>
      cases h
      exact .inl ⟨by decide, rfl, rfl⟩
  | some junk =>
      obtain ⟨last, -, h⟩ := Option.bind_eq_some_iff.mp h
      obtain ⟨s, -, h⟩ := Option.map_eq_some_iff.mp h
      cases h
      exact .inr ⟨rfl, junk, rfl⟩

/-- Take features and labels with the same number of rows.  Whatever the state of the generator,
a call of `dataset_shuffle` that succeeds keeps the pairs of rows up to their order, and one that
fails changes nothing.  A call that is granted memory succeeds for all numbers that may be
drawn. -/
theorem datasetShuffle_rowPairs
    (hx : x.Made) (hy : y.Made) (hrows : y.rows = x.rows) (malloc : Option (ℕ → F)) :
  (∀ rounds rng rng' x' y' code,
    datasetShuffle (rngRangeU32 rounds) rng x (some y) malloc = some (rng', x', y', code) →
      (code = .ok → ∃ labels, y' = some labels ∧ PairsKept x y x' labels)
        ∧ (code ≠ .ok → x' = x ∧ y' = some y))
    ∧ ∀ junk draws, malloc = some junk → ValidDraws x.rows draws →
      ∃ x' y', datasetShuffle drawNext draws x (some y) malloc = some ([], x', some y', .ok)
        ∧ PairsKept x y x' y'
  := by
  have hlabels := labels_made hy hrows
  constructor
  · intro rounds rng rng' x' y' code h
    obtain ⟨hcode, hx', hy'⟩ | ⟨rfl, junk, rfl⟩ := datasetShuffle_cases h
    · exact ⟨fun hok => absurd hok hcode, fun _ => ⟨hx', hy'⟩⟩
    · obtain ⟨draws, hdraws, hrun⟩ := exists_validDraws hx hlabels junk h
      obtain ⟨x'', y'', hrun', hkept⟩ := datasetShuffle_pairsKept hx hy hrows junk hdraws
      rw [hrun] at hrun'
      cases hrun'
      exact ⟨fun _ => ⟨y'', rfl, hkept⟩, fun hne => absurd rfl hne⟩
  · rintro junk draws rfl hdraws
    apply datasetShuffle_pairsKept hx hy hrows junk hdraws

/-- The draws 0 and 1 exchange the first and the last of three rows, and their labels with
them. -/
theorem datasetShuffle_rowPairs_three :
  ∃ x' y', datasetShuffle drawNext [0, 1] (⟨[10, 11, 20, 21, 30, 31], 3, 2⟩ : MatX ℕ)
        (some ⟨[1, 2, 3], 3, 1⟩) (some fun _ => 0) = some ([], x', some y', .ok)
    ∧ (rowPairs x' y').Perm [([10, 11], [1]), ([20, 21], [2]), ([30, 31], [3])]
  := by
  have hx : (⟨[10, 11, 20, 21, 30, 31], 3, 2⟩ : MatX ℕ).Made := by
    rw [MatX.Made]
    decide
  have hy : (⟨[1, 2, 3], 3, 1⟩ : MatX ℕ).Made := by
    rw [MatX.Made]
    decide
  have hdraws : ValidDraws 3 [0, 1] := by
    refine ⟨rfl, ?_, ?_, trivial⟩
    · exact .inl (by decide)
    · exact .inl (by decide)
  obtain ⟨x', y', hshuffle, hkept⟩ :=
    (datasetShuffle_rowPairs hx hy rfl (some fun _ => 0)).2 (fun _ => 0) [0, 1] rfl hdraws
  refine ⟨x', y', hshuffle, ?_⟩
  exact hkept.pairs

end CTemplate

import CTemplate.Hpc.Parallel.System
import Mathlib.Algebra.Order.Ring.Nat

/-!
# The arrays of the parallel loops

`parallel_for` checks that the sizes of its arrays do not wrap around, and runs the whole range
itself when they do.  `parallel_reduce` does not check them: from some number of threads on, its
arrays have fewer bytes than its loops write.
-/

namespace CTemplate

variable {n numThreads : ℕ} {alloc : RangeAllocation}

/-- What is promised of the arrays, when both calls of `malloc` succeed and an element of `args` has
`argSize` bytes: as many bytes are requested as the elements have, and the elements for all
threads lie inside the blocks. -/
def RangeAllocation.Fits (argSize : ℕ) (alloc : RangeAllocation) : Prop :=
  ∀ (mallocs : Malloc × Malloc) (threads args : List Byte),
    mallocs.1.block alloc.threadsBytes = some threads →
    mallocs.2.block alloc.argsBytes = some args →
    alloc.numThreads * pthreadSize ≤ alloc.threadsBytes
      ∧ alloc.numThreads * argSize ≤ alloc.argsBytes
      ∧ ∀ i < alloc.numThreads,
        (i + 1) * pthreadSize ≤ threads.length ∧ (i + 1) * argSize ≤ args.length

/-- A size is at least the number it was computed from exactly when it did not wrap around. -/
theorem le_toSize_iff {a : ℕ} :
  a ≤ toSize a ↔ a ≤ sizeMax
  := by
  constructor
  · intro h
    apply h.trans
    apply Nat.le_of_lt_succ
    apply Nat.mod_lt _ (Nat.succ_pos _)
  · intro h
    rw [toSize_of_le h]

theorem clampThreads_eq (n numThreads : ℕ) :
  clampThreads n numThreads = min n numThreads
  := by
  rw [clampThreads]
  split <;> omega

/-- The arrays fit exactly when their sizes did not wrap around. -/
theorem RangeAllocation.fits_iff (m argSize : ℕ) :
  RangeAllocation.Fits argSize ⟨m, toSize (m * pthreadSize), toSize (m * argSize)⟩
    ↔ m * pthreadSize ≤ sizeMax ∧ m * argSize ≤ sizeMax
  := by
  constructor
  · intro h
    -- an allocator that refuses nothing
    have hblock : ∀ a, (Malloc.upTo sizeMax).block (toSize a)
        = some (List.replicate (toSize a) 0) := by
      intro a
      apply if_pos
      apply Nat.le_of_lt_succ
      apply Nat.mod_lt _ (Nat.succ_pos _)
    obtain ⟨hthreads, hargs, -⟩ := h (.upTo sizeMax, .upTo sizeMax) _ _ (hblock _) (hblock _)
    exact ⟨le_toSize_iff.mp hthreads, le_toSize_iff.mp hargs⟩
  · rintro ⟨hthreadsLe, hargsLe⟩ mallocs threads args hthreads hargs
    refine ⟨le_toSize_iff.mpr hthreadsLe, le_toSize_iff.mpr hargsLe, ?_⟩
    intro i hi
    rw [mallocs.1.length_block hthreads, mallocs.2.length_block hargs,
      toSize_of_le hthreadsLe, toSize_of_le hargsLe]
    exact ⟨Nat.mul_le_mul_right _ hi, Nat.mul_le_mul_right _ hi⟩

/-- The arrays of `parallel_for` always fit. -/
theorem parallelForAllocation_fits (h : parallelForAllocation n numThreads = some alloc) :
  alloc.Fits chunkArgSize
  := by
  simp only [parallelForAllocation] at h
  split at h
  · cases h
  · split at h
    · cases h
    · rename_i hguard
      cases h
      rw [RangeAllocation.fits_iff, ← Nat.le_div_iff_mul_le (by decide),
        ← Nat.le_div_iff_mul_le (by decide)]
      omega

/-- The arrays of `parallel_reduce` fit exactly when it makes none or the sizes of their elements
do not wrap around. -/
theorem parallelReduceAllocation_fits_iff (n numThreads : ℕ) :
  (∀ alloc, parallelReduceAllocation n numThreads = some alloc → alloc.Fits reduceArgSize)
    ↔ n = 0 ∨ numThreads ≤ 1 ∨ min n numThreads ≤ sizeMax / reduceArgSize
  := by
  by_cases hn : n = 0
  · simp [parallelReduceAllocation, hn]
  · by_cases ht : numThreads ≤ 1
    · simp [parallelReduceAllocation, hn, ht]
    · have halloc : parallelReduceAllocation n numThreads
          = some ⟨min n numThreads, toSize (min n numThreads * pthreadSize),
            toSize (min n numThreads * reduceArgSize)⟩ := by
        rw [parallelReduceAllocation, if_neg hn, if_neg ht, clampThreads_eq]
      have hsmaller : min n numThreads * pthreadSize ≤ min n numThreads * reduceArgSize :=
        Nat.mul_le_mul_left _ (by decide)
      rw [halloc]
      simp only [Option.some.injEq, forall_eq', RangeAllocation.fits_iff, hn, ht, false_or]
      rw [Nat.le_div_iff_mul_le (by decide)]
      exact ⟨fun h => h.2, fun h => ⟨hsmaller.trans h, h⟩⟩

/-- Both functions request as many bytes as their threads need, whenever the number of threads is
not more than the `ReduceArg`s that `size_t` can count the bytes of. -/
theorem parallelAllocation_fits_iff (n numThreads : ℕ) :
  ((∀ alloc, parallelForAllocation n numThreads = some alloc → alloc.Fits chunkArgSize)
      ∧ ∀ alloc, parallelReduceAllocation n numThreads = some alloc → alloc.Fits reduceArgSize)
    ↔ n = 0 ∨ numThreads ≤ 1 ∨ min n numThreads ≤ sizeMax / reduceArgSize
  := by
  rw [← parallelReduceAllocation_fits_iff]
  constructor
  · rintro ⟨-, h⟩
    exact h
  · intro h
    exact ⟨fun alloc => parallelForAllocation_fits, h⟩

/-- For `2 ^ 61` threads, `parallel_reduce` requests no byte at all. -/
theorem parallelReduceAllocation_wraps :
  ¬((∀ alloc, parallelForAllocation (2 ^ 61) (2 ^ 61) = some alloc → alloc.Fits chunkArgSize)
    ∧ ∀ alloc, parallelReduceAllocation (2 ^ 61) (2 ^ 61) = some alloc →
      alloc.Fits reduceArgSize)
  := by
  rintro ⟨-, h⟩
  have halloc : parallelReduceAllocation (2 ^ 61) (2 ^ 61) = some ⟨2 ^ 61, 0, 0⟩ := by
    decide
  have hfits := h _ halloc (.upTo 0, .upTo 0) [] [] rfl rfl
  exact absurd hfits.1 (by decide)

end CTemplate

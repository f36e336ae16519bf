import CTemplate.Library.Sampling
import CTemplate.Math.Rng

/-!
# Numbers in a range are uniform

The loop of `rng_range_u32` rejects the numbers below `(0 - bound) % bound`.  What is left is a
multiple of `bound`, so that every result is made of equally many numbers, and equally many
sequences of numbers lead to it.
-/

namespace CTemplate

open Sampling

variable {bound r r' : UInt32}

/-! ### The numbers that are not rejected -/

/-- The numbers below `threshold` are rejected. -/
def rangeThreshold (bound : UInt32) : UInt32 :=
  (0 - bound) % bound

/-- The threshold is what is left of all numbers when they are divided by `bound`. -/
theorem toNat_rangeThreshold (hbound : 0 < bound) :
  (rangeThreshold bound).toNat = 2 ^ 32 % bound.toNat
  := by
  have hlt := bound.toNat_lt
  have hpos : 0 < bound.toNat := hbound
  have hneg : (0 - bound).toNat = 2 ^ 32 - bound.toNat := by
    rw [UInt32.toNat_sub, UInt32.toNat_zero, Nat.add_zero, Nat.mod_eq_of_lt (by omega)]
  rw [rangeThreshold, UInt32.toNat_mod, hneg, ← Nat.mod_eq_sub_mod (Nat.le_of_lt hlt)]

/-- Every result is made of equally many numbers that are not rejected. -/
theorem ncard_accepted (hbound : 0 < bound) (hr : r < bound) :
  Set.ncard {v | rangeThreshold bound ≤ v ∧ v % bound = r} = 2 ^ 32 / bound.toNat
  := by
  have hinjective : Function.Injective UInt32.toNat := fun _ _ h => UInt32.toNat_inj.mp h
  have himage : UInt32.toNat '' {v | rangeThreshold bound ≤ v ∧ v % bound = r}
      = ({v ∈ Finset.Ico (2 ^ 32 % bound.toNat)
        (2 ^ 32 % bound.toNat + bound.toNat * (2 ^ 32 / bound.toNat)) |
          v % bound.toNat = r.toNat} : Finset ℕ) := by
    ext n
    simp only [Nat.mod_add_div, Finset.coe_filter, Finset.mem_Ico, Set.mem_image, Set.mem_ofPred_eq,
      UInt32.le_iff_toNat_le, ← UInt32.toNat_inj, UInt32.toNat_mod, toNat_rangeThreshold hbound]
    constructor
    · rintro ⟨v, ⟨hle, hmod⟩, rfl⟩
      exact ⟨⟨hle, v.toNat_lt⟩, hmod⟩
    · rintro ⟨⟨hle, hlt⟩, hmod⟩
      have hn := UInt32.toNat_ofNat_of_lt' hlt
      refine ⟨UInt32.ofNat n, ?_, hn⟩
      rw [hn]
      exact ⟨hle, hmod⟩
  rw [← Set.ncard_image_of_injective _ hinjective, himage, Set.ncard_coe_finset, card_residue]
  exact hr

/-! ### Sequences of numbers -/

/-- What `rng_range_u32` returns when `rng_next_u32` returns the numbers `draws`, or `none` when
all of them are rejected. -/
def rangeOf (bound : UInt32) (draws : List UInt32) : Option UInt32 :=
  Sampling.firstAccepted (fun v => v ≥ rangeThreshold bound) (fun v => v % bound) draws

/-- The numbers that the next `n` calls of `rng_next_u32` return. -/
def nextDraws : ℕ → Rng → List UInt32
  | 0, _ => []
  | n + 1, r => (rngNextU32 r).2 :: nextDraws n (rngNextU32 r).1

/-- The loop returns what the numbers lead to. -/
theorem rangeLoop_eq (bound : UInt32) (rounds : ℕ) (r : Rng) :
  (rangeLoop bound (rangeThreshold bound) rounds r).map (·.2)
    = rangeOf bound (nextDraws rounds r)
  := by
  induction rounds generalizing r with
  | zero => rfl
  | succ rounds ih =>
      rw [rangeLoop, nextDraws, rangeOf, Sampling.firstAccepted_cons]
      by_cases hv : (rngNextU32 r).2 ≥ rangeThreshold bound
      · simp [hv]
      · simp only [hv, if_false, decide_false, ih]
        rfl

theorem rngRangeU32_eq_rangeLoop (hbound : 0 < bound) (rounds : ℕ) (g : Rng) :
  rngRangeU32 rounds g bound = rangeLoop bound (rangeThreshold bound) rounds g
  := by
  have hne : bound ≠ 0 := by
    rintro rfl
    exact absurd hbound (by decide)
  rw [rngRangeU32, if_neg hne, rangeThreshold]

/-- Of the numbers that `rng_next_u32` may return, at least one is not rejected, and equally many
of these lead to each result below `bound`.  So equally many sequences of numbers do, and what
`rng_range_u32` returns is what the numbers that it draws lead to, and below `bound`. -/
theorem rng_range_uniform (hbound : 0 < bound) :
  (∃ v, rangeThreshold bound ≤ v)
    ∧ (∀ r, r < bound →
      Set.ncard {v | rangeThreshold bound ≤ v ∧ v % bound = r} = 2 ^ 32 / bound.toNat)
    ∧ (∀ n r r', r < bound → r' < bound →
      Set.ncard {draws | draws.length = n ∧ rangeOf bound draws = some r}
        = Set.ncard {draws | draws.length = n ∧ rangeOf bound draws = some r'})
    ∧ (∀ rounds g, (rngRangeU32 rounds g bound).map (·.2)
      = rangeOf bound (nextDraws rounds g))
    ∧ ∀ rounds g g' v, rngRangeU32 rounds g bound = some (g', v) →
      rangeOf bound (nextDraws rounds g) = some v ∧ v < bound
  := by
  have hcall : ∀ rounds g, (rngRangeU32 rounds g bound).map (·.2)
      = rangeOf bound (nextDraws rounds g) := by
    intro rounds g
    rw [rngRangeU32_eq_rangeLoop hbound]
    exact rangeLoop_eq bound rounds g
  refine ⟨⟨0xFFFFFFFF, ?_⟩, fun r => ncard_accepted hbound, ?_, hcall, ?_⟩
  · rw [UInt32.le_iff_toNat_le]
    apply Nat.le_of_lt_succ (UInt32.toNat_lt _)
  · intro n r r' hr hr'
    apply ncard_drawsFor
    simp only [decide_eq_true_eq, ge_iff_le, ncard_accepted hbound hr, ncard_accepted hbound hr']
  · intro rounds g g' v h
    constructor
    · rw [← hcall, h, Option.map_some]
    · rw [rngRangeU32_eq_rangeLoop hbound] at h
      exact rangeLoop_lt hbound h

/-- The bound 3, for which one number is rejected; the first number that is drawn after
`rng_seed(&r, 42, 54)` is a multiple of it. -/
theorem rng_range_uniform_three :
  0 < (3 : UInt32)
    ∧ Set.ncard {v | rangeThreshold 3 ≤ v ∧ v % 3 = 0} = 1431655765
    ∧ (rngRangeU32 1 (rngSeed 42 54) 3).map (·.2) = some 0
  := by
  have hbound : 0 < (3 : UInt32) := by decide
  obtain ⟨-, hcount, -, hcall, -⟩ := rng_range_uniform hbound
  refine ⟨hbound, ?_, ?_⟩
  · rw [hcount 0 hbound]
    rfl
  · rw [hcall]
    decide

end CTemplate

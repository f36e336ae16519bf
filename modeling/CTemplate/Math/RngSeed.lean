import CTemplate.Math.Rng
import Mathlib.Data.UInt

/-!
# Seeds and streams

`rng_seed` shifts the stream selector to the left by one, so that its top bit is lost: two
selectors that differ in this bit alone give the same generator.  All other seeds and selectors
give different ones.
-/

namespace CTemplate

variable {seed seed' seq seq' : UInt64}

/-- The multiplier of the generator can be undone. -/
theorem multiplier_cancel {x y : UInt64}
    (h : x * 6364136223846793005 = y * 6364136223846793005) :
  x = y
  := by
  have hinverse : (6364136223846793005 : UInt64) * 13877824140714322085 = 1 := by decide
  apply (IsUnit.of_mul_eq_one _ hinverse).mul_left_injective h

/-- Generators are the same when their fields are. -/
theorem Rng.eq_of_fields {r r' : Rng} (hstate : r.state = r'.state) (hinc : r.inc = r'.inc) :
  r = r'
  := by
  cases r
  cases r'
  obtain rfl : _ = _ := hstate
  obtain rfl : _ = _ := hinc
  rfl

theorem rngSeed_state (seed seq : UInt64) :
  (rngSeed seed seq).state
    = ((rngSeed seed seq).inc + seed) * 6364136223846793005 + (rngSeed seed seq).inc
  := by
  rw [rngSeed_inc, rngSeed, rngNextU32_state, Rng.setState_state, Rng.setState_inc,
    rngNextU32_inc, rngNextU32_state, UInt64.zero_mul, UInt64.zero_add]

/-- The increments are the same for selectors that agree below the top bit. -/
theorem rngSeed_inc_eq_iff :
  (rngSeed seed seq).inc = (rngSeed seed' seq').inc ↔ seq.toNat % 2 ^ 63 = seq'.toNat % 2 ^ 63
  := by
  have hone : (1 : BitVec 64).toNat = 1 := rfl
  have htwo : (2 : BitVec 64).toNat = 2 := rfl
  rw [← UInt64.toBitVec_inj, toBitVec_inc, toBitVec_inc, ← BitVec.toNat_inj]
  simp only [BitVec.toNat_add, BitVec.toNat_mul, UInt64.toNat_toBitVec, hone, htwo]
  omega

/-- The generators are the same when the seeds are and the selectors agree below the top bit. -/
theorem rngSeed_eq_iff :
  rngSeed seed seq = rngSeed seed' seq'
    ↔ seed = seed' ∧ seq.toNat % 2 ^ 63 = seq'.toNat % 2 ^ 63
  := by
  constructor
  · intro h
    have hinc : (rngSeed seed seq).inc = (rngSeed seed' seq').inc := congrArg Rng.inc h
    have hstate : (rngSeed seed seq).state = (rngSeed seed' seq').state := congrArg Rng.state h
    rw [rngSeed_state, rngSeed_state, ← hinc, UInt64.add_left_inj] at hstate
    have hseed := multiplier_cancel hstate
    rw [UInt64.add_right_inj] at hseed
    use hseed, rngSeed_inc_eq_iff.mp hinc
  · rintro ⟨rfl, h⟩
    have hinc : (rngSeed seed seq).inc = (rngSeed seed seq').inc := rngSeed_inc_eq_iff.mpr h
    apply Rng.eq_of_fields
    · rw [rngSeed_state, rngSeed_state, hinc]
    · exact hinc

/-- Two seeds with their selectors are kept apart exactly when they are equal, or not only the top
bits of the selectors are different. -/
theorem rng_seed_apart_iff (seed seq seed' seq' : UInt64) :
  ((seed, seq) ≠ (seed', seq') → rngSeed seed seq ≠ rngSeed seed' seq')
    ↔ (seed = seed' → seq ≠ seq' → seq.toNat % 2 ^ 63 ≠ seq'.toNat % 2 ^ 63)
  := by
  rw [ne_eq (rngSeed seed seq), rngSeed_eq_iff, ne_eq (seed, seq), Prod.mk.injEq]
  tauto

/-- The selectors 0 and `2 ^ 63` give the same generator. -/
theorem rng_seed_not_apart :
  ((0 : UInt64), (0 : UInt64)) ≠ (0, 9223372036854775808)
    ∧ rngSeed 0 0 = rngSeed 0 9223372036854775808
  := by
  constructor
  · decide
  · rfl

end CTemplate

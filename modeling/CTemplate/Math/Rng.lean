import CTemplate.Library.Generator
import Mathlib.Data.FinEnum

/-!
# Random numbers

The generator of `math/rng.c`.  From any seed, the next `2 ^ 64` calls of `rng_next_u32` pass
through every state once and return every number `2 ^ 32` times, so that `rng_range_u32` finds a
number that it does not reject.
-/

namespace CTemplate

open Function Generator

/-! ### The generator -/

/-- `Rng` -/
structure Rng where
  state : UInt64
  inc : UInt64

/-- `r->state = state` -/
def Rng.setState (r : Rng) (state : UInt64) : Rng :=
  { r with state }

@[simp]
theorem Rng.setState_state (r : Rng) (state : UInt64) : (r.setState state).state = state :=
  rfl

@[simp]
theorem Rng.setState_inc (r : Rng) (state : UInt64) : (r.setState state).inc = r.inc :=
  rfl

/-- What `rng_next_u32` returns for the state `old`. -/
def rngOutput (old : UInt64) : UInt32 :=
  let xorshifted := (((old >>> 18) ^^^ old) >>> 27).toUInt32
  let rot := (old >>> 59).toUInt32
  (xorshifted >>> rot) ||| (xorshifted <<< ((32 - rot) &&& 31))

/-- `rng_next_u32` -/
def rngNextU32 (r : Rng) : Rng × UInt32 :=
  (r.setState (r.state * 6364136223846793005 + r.inc), rngOutput r.state)

/-- `rng_seed` -/
def rngSeed (seed seq : UInt64) : Rng :=
  let r : Rng := { state := 0, inc := (seq <<< 1) ||| 1 }
  let r := (rngNextU32 r).1
  let r := r.setState (r.state + seed)
  (rngNextU32 r).1

/-- The loop of `rng_range_u32`, for at most `rounds` rounds. -/
def rangeLoop (bound threshold : UInt32) : ℕ → Rng → Option (Rng × UInt32)
  | 0, _ => none
  | rounds + 1, r =>
      let (r, v) := rngNextU32 r
      if v ≥ threshold then some (r, v % bound) else rangeLoop bound threshold rounds r

/-- `rng_range_u32`, or `none` when that many rounds of the loop are not enough. -/
def rngRangeU32 (rounds : ℕ) (r : Rng) (bound : UInt32) : Option (Rng × UInt32) :=
  if bound = 0 then some (r, 0)
  else rangeLoop bound ((0 - bound) % bound) rounds r

/-- The generator after `n` calls of `rng_next_u32`. -/
def rngAfter (n : ℕ) (r : Rng) : Rng :=
  (fun r => (rngNextU32 r).1)^[n] r

/-! ### States -/

theorem rngNextU32_inc (r : Rng) :
  (rngNextU32 r).1.inc = r.inc
  := r.setState_inc _

theorem rngNextU32_state (r : Rng) :
  (rngNextU32 r).1.state = r.state * 6364136223846793005 + r.inc
  := r.setState_state _

theorem rngAfter_zero (r : Rng) :
  rngAfter 0 r = r
  := by
  rw [rngAfter, iterate_zero_apply]

theorem rngAfter_succ (n : ℕ) (r : Rng) :
  rngAfter (n + 1) r = rngAfter n (rngNextU32 r).1
  := by
  rw [rngAfter, rngAfter, iterate_succ_apply]

theorem rngAfter_inc (n : ℕ) (r : Rng) :
  (rngAfter n r).inc = r.inc
  := by
  induction n generalizing r with
  | zero => rw [rngAfter_zero]
  | succ n ih => rw [rngAfter_succ, ih, rngNextU32_inc]

/-- The states are those of an affine generator. -/
theorem rngAfter_state (n : ℕ) (r : Rng) :
  (rngAfter n r).state.toBitVec
    = (affine (6364136223846793005 : UInt64).toBitVec r.inc.toBitVec)^[n] r.state.toBitVec
  := by
  induction n generalizing r with
  | zero => rw [rngAfter_zero, iterate_zero_apply]
  | succ n ih =>
      rw [rngAfter_succ, ih, iterate_succ_apply, rngNextU32_inc, rngNextU32_state,
        UInt64.toBitVec_add, UInt64.toBitVec_mul, affine, mul_comm r.state.toBitVec]

theorem rngSeed_inc (seed seq : UInt64) :
  (rngSeed seed seq).inc = (seq <<< 1) ||| 1
  := by
  rw [rngSeed, rngNextU32_inc, Rng.setState_inc, rngNextU32_inc]

theorem toBitVec_inc (seed seq : UInt64) :
  (rngSeed seed seq).inc.toBitVec = 1 + 2 * seq.toBitVec
  := by
  have hshift : (seq <<< 1).toBitVec = seq.toBitVec <<< 1 := rfl
  have hdouble : seq.toBitVec <<< 1 = seq.toBitVec * 2 := by
    rw [BitVec.shiftLeft_eq_mul_twoPow]
    rfl
  have hdisjoint : (seq.toBitVec <<< 1) &&& 1#64 = 0#64 := by
    apply BitVec.eq_of_getLsbD_eq
    intro i hi
    rw [BitVec.getLsbD_and, BitVec.getLsbD_shiftLeft, BitVec.getLsbD_one]
    cases i <;> simp
  rw [rngSeed_inc, UInt64.toBitVec_or, hshift, add_comm, mul_comm, ← hdouble]
  exact (BitVec.add_eq_or_of_and_eq_zero _ _ hdisjoint).symm

theorem card_bitVec (n : ℕ) :
  Nat.card (BitVec n) = 2 ^ n
  := by
  rw [Nat.card_congr BitVec.equivFin.toEquiv, Nat.card_fin]

/-- The states come back after `2 ^ 64` calls and not before. -/
theorem minimalPeriod_state (seed seq : UInt64) (x : BitVec 64) :
  minimalPeriod (affine (6364136223846793005 : UInt64).toBitVec (rngSeed seed seq).inc.toBitVec) x
    = Nat.card (BitVec 64)
  := by
  have hzero : (2 : BitVec 64) ^ (63 + 1) = 0 := by decide +kernel
  have hne : (2 : BitVec 64) ^ 63 ≠ 0 := by decide +kernel
  have hmultiplier : (6364136223846793005 : UInt64).toBitVec
      = 1 + 4 * 1591034055961698251#64 := by
    decide +kernel
  rw [hmultiplier, toBitVec_inc, card_bitVec]
  apply minimalPeriod_affine hzero hne _ _ _

/-! ### Outputs -/

/-- The rotation at the end of `rng_next_u32`. -/
theorem toBitVec_rotate {rot : UInt32} (x : UInt32) (h : rot.toNat < 32) :
  ((x >>> rot) ||| (x <<< ((32 - rot) &&& 31))).toBitVec = x.toBitVec.rotateRight rot.toNat
  := by
  have hright : (x >>> rot).toBitVec = x.toBitVec >>> (rot.toNat % 32) := rfl
  have hleft : (x <<< ((32 - rot) &&& 31)).toBitVec
      = x.toBitVec <<< (((32 - rot) &&& 31).toNat % 32) := rfl
  have hle : rot ≤ 32 := by
    rw [UInt32.le_iff_toNat_le]
    apply Nat.le_of_lt h
  have hand : ((32 - rot) &&& 31).toNat = (32 - rot.toNat) % 32 := by
    rw [UInt32.toNat_and, UInt32.toNat_sub_of_le _ _ hle]
    apply Nat.and_two_pow_sub_one_eq_mod _ 5
  rw [UInt32.toBitVec_or, hright, hleft, hand, BitVec.rotateRight_def, Nat.mod_mod]
  rcases Nat.eq_zero_or_pos rot.toNat with h0 | hpos
  · rw [h0]
    simp
  · rw [Nat.mod_eq_of_lt h, Nat.mod_eq_of_lt (by omega)]

theorem toBitVec_rngOutput (old : UInt64) :
  (rngOutput old).toBitVec
    = ((((old.toBitVec >>> 18) ^^^ old.toBitVec) >>> 27).setWidth 32).rotateRight
      (old.toBitVec >>> 59).toNat
  := by
  have hxorshifted : (((old >>> 18) ^^^ old) >>> 27).toUInt32.toBitVec
      = (((old.toBitVec >>> 18) ^^^ old.toBitVec) >>> 27).setWidth 32 := rfl
  have hlt : (old.toBitVec >>> 59).toNat < 32 := by
    rw [BitVec.toNat_ushiftRight, Nat.shiftRight_eq_div_pow]
    have hold := old.toBitVec.isLt
    omega
  have hrot : (old >>> 59).toUInt32.toNat = (old.toBitVec >>> 59).toNat := by
    have hmod : (old >>> 59).toUInt32.toNat = (old.toBitVec >>> 59).toNat % 2 ^ 32 := rfl
    rw [hmod, Nat.mod_eq_of_lt (by omega)]
  rw [rngOutput, toBitVec_rotate _ (by rwa [hrot]), hxorshifted, hrot]

/-- The bits that choose the rotation, and the bits that no output shows. -/
def rngKey (old : UInt64) : BitVec 5 × BitVec 27 :=
  (old.toBitVec.extractLsb' 59 5, old.toBitVec.setWidth 27)

theorem bijective_ofBitVec : Bijective UInt64.ofBitVec :=
  ⟨fun _ _ h => congrArg UInt64.toBitVec h, fun old => ⟨old.toBitVec, rfl⟩⟩

theorem card_uint64 : Nat.card UInt64 = 2 ^ 64 := by
  rw [← Nat.card_eq_of_bijective _ bijective_ofBitVec, card_bitVec]

theorem card_uint32 : Nat.card UInt32 = 2 ^ 32 := by
  rw [← card_bitVec 32]
  apply Nat.card_congr ⟨UInt32.toBitVec, .ofBitVec, fun _ => rfl, fun _ => rfl⟩

/-- The key and the output give back the state. -/
theorem injective_output : Injective fun old => (rngKey old, rngOutput old) := by
  intro old old' h
  simp only [Prod.mk.injEq, rngKey] at h
  obtain ⟨⟨htop, hlow⟩, hout⟩ := h
  rw [← UInt32.toBitVec_inj, toBitVec_rngOutput, toBitVec_rngOutput] at hout
  have habove : ∀ i, 59 ≤ i → old.toBitVec.getLsbD i = old'.toBitVec.getLsbD i := by
    intro i hi
    by_cases hlt : i < 64
    · have hget := congrArg (fun z : BitVec 5 => z.getLsbD (i - 59)) htop
      simp only [BitVec.getLsbD_extractLsb', Nat.add_sub_of_le hi] at hget
      rwa [decide_eq_true (by omega), Bool.true_and, Bool.true_and] at hget
    · rw [BitVec.getLsbD_of_ge _ _ (by omega), BitVec.getLsbD_of_ge _ _ (by omega)]
  have hrot : old.toBitVec >>> 59 = old'.toBitVec >>> 59 := by
    apply BitVec.eq_of_getLsbD_eq
    intro i _
    rw [BitVec.getLsbD_ushiftRight, BitVec.getLsbD_ushiftRight, habove _ (Nat.le_add_right _ _)]
  rw [hrot] at hout
  have hshown := rotateRight_injective _ hout
  have hwindow : ∀ i, 27 ≤ i → i < 59 →
      ((old.toBitVec >>> 18) ^^^ old.toBitVec).getLsbD i
        = ((old'.toBitVec >>> 18) ^^^ old'.toBitVec).getLsbD i := by
    intro i hi hlt
    have hget := congrArg (fun z : BitVec 32 => z.getLsbD (i - 27)) hshown
    simp only [BitVec.getLsbD_setWidth] at hget
    rwa [decide_eq_true (by omega), Bool.true_and, Bool.true_and, BitVec.getLsbD_ushiftRight,
      BitVec.getLsbD_ushiftRight, Nat.add_sub_of_le hi] at hget
  apply UInt64.toBitVec_inj.mp
  apply BitVec.eq_of_getLsbD_eq
  intro i _
  by_cases hi : 27 ≤ i
  · apply getLsbD_eq_of_xorshift (by decide) habove hwindow hi
  · have hget := congrArg (fun z : BitVec 27 => z.getLsbD i) hlow
    simp only [BitVec.getLsbD_setWidth] at hget
    rwa [decide_eq_true (by omega), Bool.true_and, Bool.true_and] at hget

theorem bijective_output : Bijective fun old => (rngKey old, rngOutput old) := by
  apply injective_output.bijective_of_nat_card_le
  rw [Nat.card_prod, Nat.card_prod, card_bitVec, card_bitVec, card_uint32, card_uint64]
  decide

theorem ncard_output (v : UInt32) :
  Set.ncard {x | rngOutput (.ofBitVec x) = v} = 2 ^ 32
  := by
  have hcard := ncard_fiber (bijective_output.comp bijective_ofBitVec) v
  rw [Nat.card_prod, card_bitVec, card_bitVec] at hcard
  exact hcard

/-! ### Calls of `rng_next_u32` -/

section Calls

variable (seed seq : UInt64) (n : ℕ)

/-- From the generator after some calls, every state comes up once. -/
theorem existsUnique_state (state : UInt64) :
  ∃! i, i < 2 ^ 64 ∧ (rngAfter i (rngAfter n (rngSeed seed seq))).state = state
  := by
  have hone := existsUnique_iterate (minimalPeriod_state seed seq
    (rngAfter n (rngSeed seed seq)).state.toBitVec) state.toBitVec
  rw [card_bitVec] at hone
  simpa only [← UInt64.toBitVec_inj, rngAfter_state, rngAfter_inc] using hone

theorem rngNextU32_snd (r : Rng) :
  (rngNextU32 r).2 = rngOutput r.state
  := rfl

/-- From the generator after some calls, every number comes up `2 ^ 32` times. -/
theorem ncard_calls (v : UInt32) :
  Set.ncard {i | i < 2 ^ 64 ∧ (rngNextU32 (rngAfter i (rngAfter n (rngSeed seed seq)))).2 = v}
    = 2 ^ 32
  := by
  have hstate : ∀ i, (rngAfter i (rngAfter n (rngSeed seed seq))).state
      = .ofBitVec ((affine (6364136223846793005 : UInt64).toBitVec
        (rngSeed seed seq).inc.toBitVec)^[i] (rngAfter n (rngSeed seed seq)).state.toBitVec) := by
    intro i
    rw [← UInt64.toBitVec_inj, rngAfter_state, rngAfter_inc]
  have hcount := ncard_iterate (minimalPeriod_state seed seq
    (rngAfter n (rngSeed seed seq)).state.toBitVec) (fun x => rngOutput (.ofBitVec x)) v
  rw [card_bitVec, ncard_output] at hcount
  simpa only [rngNextU32_snd, hstate] using hcount

end Calls

/-! ### Numbers in a range -/

/-- The loop ends when one of the numbers that follow is not rejected. -/
theorem exists_rangeLoop
    {bound threshold : UInt32} {i : ℕ} {r : Rng} (h : threshold ≤ (rngNextU32 (rngAfter i r)).2) :
  ∃ rounds r' v, rangeLoop bound threshold rounds r = some (r', v % bound)
  := by
  induction i generalizing r with
  | zero =>
      rw [rngAfter_zero] at h
      exact ⟨1, _, _, if_pos h⟩
  | succ i ih =>
      rw [rngAfter_succ] at h
      obtain ⟨rounds, r', v, hrest⟩ := ih h
      by_cases hv : (rngNextU32 r).2 ≥ threshold
      · exact ⟨1, _, _, if_pos hv⟩
      · exact ⟨rounds + 1, r', v, (if_neg hv).trans hrest⟩

/-- What the loop returns is below the bound. -/
theorem rangeLoop_lt
    {bound threshold v : UInt32} {rounds : ℕ} {r r' : Rng} (hbound : 0 < bound)
    (h : rangeLoop bound threshold rounds r = some (r', v)) :
  v < bound
  := by
  induction rounds generalizing r with
  | zero => cases h
  | succ rounds ih =>
      simp only [rangeLoop] at h
      split at h
      · cases h
        apply UInt32.mod_lt _ hbound
      · apply ih h

/-- A generator from `rng_seed`, also after some calls, passes in the next `2 ^ 64` calls through
every state once and returns every number `2 ^ 32` times, and `rng_range_u32` returns. -/
theorem rng_full_period (seed seq : UInt64) (n : ℕ) :
  (∀ state, ∃! i, i < 2 ^ 64 ∧ (rngAfter i (rngAfter n (rngSeed seed seq))).state = state)
    ∧ (∀ v, Set.ncard
      {i | i < 2 ^ 64 ∧ (rngNextU32 (rngAfter i (rngAfter n (rngSeed seed seq)))).2 = v} = 2 ^ 32)
    ∧ ∀ bound, 0 < bound → ∃ rounds r' v,
      rngRangeU32 rounds (rngAfter n (rngSeed seed seq)) bound = some (r', v) ∧ v < bound
  := by
  refine ⟨existsUnique_state seed seq n, ncard_calls seed seq n, ?_⟩
  intro bound hbound
  -- the largest number is never rejected
  obtain ⟨i, -, hi⟩ : Set.Nonempty {i | i < 2 ^ 64
      ∧ (rngNextU32 (rngAfter i (rngAfter n (rngSeed seed seq)))).2 = 0xFFFFFFFF} := by
    apply Set.nonempty_of_ncard_ne_zero
    rw [ncard_calls]
    decide
  have hmax : (0 - bound) % bound
      ≤ (rngNextU32 (rngAfter i (rngAfter n (rngSeed seed seq)))).2 := by
    rw [hi, UInt32.le_iff_toNat_le]
    apply Nat.le_of_lt_succ (UInt32.toNat_lt _)
  obtain ⟨rounds, r', v, hloop⟩ := exists_rangeLoop hmax
  use rounds, r', v % bound
  constructor
  · rw [rngRangeU32, if_neg, hloop]
    rintro rfl
    exact absurd hbound (by decide)
  · apply UInt32.mod_lt v hbound

end CTemplate

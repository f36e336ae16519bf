import CTemplate.Containers.Hash
import CTemplate.Library.ShiftRegister

/-!
# CRC-32

`hash_crc32` is the CRC-32 of IEEE 802.3, which is defined by a division of polynomials over the
field with two elements.  It tells apart strings of one length that differ only within 32
consecutive bits.
-/

namespace CTemplate

open Polynomial ShiftRegister

/-! ### The definition by polynomials -/

/-- The bits of a string, those of each byte from the lowest to the highest. -/
def bits (m : List Byte) : List Bool :=
  m.flatMap fun b => lowBits b.toBitVec

/-- The polynomial of IEEE 802.3. -/
noncomputable def crcPolynomial : (ZMod 2)[X] :=
  X ^ 32 + X ^ 26 + X ^ 23 + X ^ 22 + X ^ 16 + X ^ 12 + X ^ 11 + X ^ 10 + X ^ 8 + X ^ 7 + X ^ 5
    + X ^ 4 + X ^ 2 + X + 1

/-- The polynomial that is divided: that of the string, times `X ^ 32`, with all ones added to the
first 32 places. -/
noncomputable def crcDividend (m : List Byte) : (ZMod 2)[X] :=
  message (bits m) * X ^ 32 + X ^ (8 * m.length) * ∑ k ∈ Finset.range 32, X ^ k

/-- The CRC-32 of IEEE 802.3. -/
noncomputable def ieeeCrc32 (m : List Byte) : UInt32 :=
  ~~~(UInt32.ofBitVec (reflect 32 (crcDividend m %ₘ crcPolynomial)))

/-! ### The register -/

/-- The bits that `hash_crc32` flips when a one falls out. -/
def crcTaps : BitVec 32 := 0xEDB88320#32

theorem crcPolynomial_eq : crcPolynomial = modulus crcTaps := by
  have hbits : (Finset.range 32).filter (fun k => crcTaps.getMsbD k = true)
      = {26, 23, 22, 16, 12, 11, 10, 8, 7, 5, 4, 2, 1, 0} := by
    decide
  have htaps : reflected crcTaps = ∑ k ∈ (Finset.range 32).filter
      (fun k => crcTaps.getMsbD k = true), X ^ k := by
    rw [reflected, Finset.sum_filter]
    apply Finset.sum_congr rfl
    intro k _
    cases crcTaps.getMsbD k <;> simp [bit]
  rw [modulus, htaps, hbits, crcPolynomial]
  simp [add_assoc]

theorem length_bits (m : List Byte) :
  (bits m).length = 8 * m.length
  := by
  induction m with
  | nil => rfl
  | cons b m ih =>
      rw [bits, List.flatMap_cons, List.length_append, length_lowBits, List.length_cons,
        ← bits, ih]
      omega

theorem bits_injective : Function.Injective bits := by
  intro m m' h
  have hlength := congrArg List.length h
  rw [length_bits, length_bits] at hlength
  induction m generalizing m' with
  | nil => exact (List.length_eq_zero_iff.mp (by simpa using hlength.symm)).symm
  | cons b m ih =>
      cases m' with
      | nil => cases hlength
      | cons b' m' =>
          obtain ⟨hhead, htail⟩ := List.append_inj h (by simp)
          rw [UInt8.toBitVec_inj.mp (lowBits_injective hhead),
            ih htail (by simpa [Nat.mul_add] using hlength)]

theorem toBitVec_crcRound (crc : UInt32) :
  (crcRound crc).toBitVec = clock crcTaps crc.toBitVec
  := by
  have hlow : (crc &&& 1).toBitVec = BitVec.setWidth 32 (.ofBool (crc.toBitVec.getLsbD 0)) :=
    BitVec.and_one_eq_setWidth_ofBool_getLsbD
  have hshift : (crc >>> 1).toBitVec = crc.toBitVec >>> 1 := rfl
  rw [crcRound, clock, UInt32.toBitVec_xor, UInt32.toBitVec_and, UInt32.toBitVec_sub, hlow, hshift]
  cases crc.toBitVec.getLsbD 0
  · simp
  · rw [if_pos rfl]
    rfl

theorem toBitVec_crcByte (crc : UInt32) (b : Byte) :
  (crcByte crc b).toBitVec
    = (clock crcTaps)^[(lowBits b.toBitVec).length] (crc.toBitVec ^^^ b.toBitVec.setWidth 32)
  := by
  rw [length_lowBits]
  exact (Function.Semiconj.iterate_right toBitVec_crcRound 8) _

theorem reflected_ones :
  reflected (0xFFFFFFFF : UInt32).toBitVec = ∑ k ∈ Finset.range 32, X ^ k
  := by
  have hones : (0xFFFFFFFF : UInt32).toBitVec = BitVec.allOnes 32 := rfl
  rw [hones, reflected]
  apply Finset.sum_congr rfl
  intro k hk
  rw [BitVec.getMsbD_allOnes, decide_eq_true (Finset.mem_range.mp hk), bit, if_pos rfl, map_one,
    one_mul]

/-- The register is the dividend, modulo the polynomial. -/
theorem mk_register (m : List Byte) :
  AdjoinRoot.mk (modulus crcTaps) (reflected (m.foldl crcByte 0xFFFFFFFF).toBitVec)
    = AdjoinRoot.mk (modulus crcTaps) (crcDividend m)
  := by
  have hword : ∀ b : Byte, X ^ (lowBits b.toBitVec).length * reflected (b.toBitVec.setWidth 32)
      = X ^ 32 * message (lowBits b.toBitVec) := by
    intro b
    rw [length_lowBits]
    apply reflected_setWidth (by decide)
  have hfold : (m.foldl crcByte 0xFFFFFFFF).toBitVec = m.foldl
      (fun r b => (clock crcTaps)^[(lowBits b.toBitVec).length] (r ^^^ b.toBitVec.setWidth 32))
      (0xFFFFFFFF : UInt32).toBitVec :=
    (List.foldl_hom UInt32.toBitVec fun crc b => (toBitVec_crcByte crc b).symm).symm
  rw [hfold, mk_foldl_clock hword, ← bits, length_bits, reflected_ones, crcDividend]

/-- `hash_crc32` is the CRC-32 of IEEE 802.3. -/
theorem hash_crc32_ieee (m : List Byte) :
  hashCrc32 (some m) = ieeeCrc32 m
  := by
  have hregister := eq_reflect_modByMonic (mk_register m)
  rw [← crcPolynomial_eq] at hregister
  rw [hashCrc32, ieeeCrc32, ← hregister]

example : hashCrc32 (some [0x31, 0x32, 0x33, 0x34, 0x35, 0x36, 0x37, 0x38, 0x39]) = 0xCBF43926 := by
  decide +kernel

/-! ### Burst errors -/

variable {m m' : List Byte}

theorem length_bits_eq (hlength : m.length = m'.length) :
  (bits m).length = (bits m').length
  := by
  rw [length_bits, length_bits, hlength]

/-- Where the bits do not differ, the polynomials do not either. -/
theorem coeff_message_sub
    {start k : ℕ} (hlength : m.length = m'.length)
    (hwindow : ∀ i, (bits m)[i]? ≠ (bits m')[i]? → start ≤ i ∧ i < start + 32)
    (hk : (message (bits m) - message (bits m')).coeff k ≠ 0) :
  (bits m).length - (start + 32) ≤ k ∧ k < (bits m).length - (start + 32) + 32
  := by
  have hbits := length_bits_eq hlength
  rw [coeff_sub, coeff_message, coeff_message] at hk
  by_cases hlt : k < (bits m).length
  · have hne : (bits m)[(bits m).length - 1 - k]? ≠ (bits m')[(bits m).length - 1 - k]? := by
      intro heq
      apply hk
      rw [List.getD_eq_getElem?_getD, List.getD_eq_getElem?_getD, List.getElem?_reverse hlt,
        List.getElem?_reverse (hbits ▸ hlt), heq, hbits, sub_self]
    have hin := hwindow _ hne
    omega
  · rw [List.getD_eq_default _ _ (by simpa using hlt),
      List.getD_eq_default _ _ (by simpa [← hbits] using hlt), sub_self] at hk
    exact absurd rfl hk

/-- Strings with the same CRC-32 whose polynomials differ by a multiple of the polynomial. -/
theorem dvd_of_hash_crc32_eq
    (hlength : m.length = m'.length) (h : hashCrc32 (some m) = hashCrc32 (some m')) :
  crcPolynomial ∣ (message (bits m) - message (bits m')) * X ^ 32
  := by
  have hregister : m.foldl crcByte 0xFFFFFFFF = m'.foldl crcByte 0xFFFFFFFF := by
    rw [hashCrc32, hashCrc32] at h
    rw [← UInt32.not_not (a := m.foldl crcByte 0xFFFFFFFF), h, UInt32.not_not]
  have hmk := (mk_register m).symm.trans (hregister ▸ mk_register m')
  have hdvd := AdjoinRoot.mk_eq_mk.mp hmk
  rw [← crcPolynomial_eq, crcDividend, crcDividend, hlength, add_sub_add_right_eq_sub,
    ← sub_mul] at hdvd
  exact hdvd

/-- Strings of one length that differ only within 32 consecutive bits do not have the same
CRC-32. -/
theorem hash_crc32_burst
    (start : ℕ) (hlength : m.length = m'.length) (hne : m ≠ m')
    (hwindow : ∀ i, (bits m)[i]? ≠ (bits m')[i]? → start ≤ i ∧ i < start + 32) :
  hashCrc32 (some m) ≠ hashCrc32 (some m')
  := by
  intro h
  apply hne
  apply bits_injective
  apply message_injective (length_bits_eq hlength)
  have hunit : crcPolynomial.coeff 0 = 1 := by
    simp [crcPolynomial, coeff_X_zero]
  have hdegree : crcPolynomial.degree = (32 : ℕ) := by
    rw [crcPolynomial_eq]
    apply degree_modulus
  have hproduct : (message (bits m) - message (bits m')) * X ^ 32 = 0 := by
    apply eq_zero_of_dvd_of_window (e := (bits m).length - (start + 32) + 32) hdegree hunit _
      (dvd_of_hash_crc32_eq hlength h)
    intro k hk
    rw [coeff_mul_X_pow'] at hk
    split at hk
    case isTrue hle =>
      have hin := coeff_message_sub hlength hwindow hk
      omega
    case isFalse => exact absurd rfl hk
  apply sub_eq_zero.mp
  apply (mul_eq_zero.mp hproduct).resolve_right
  apply pow_ne_zero 32 X_ne_zero

/-- Two strings that differ in their second byte. -/
theorem hash_crc32_burst_byte :
  hashCrc32 (some [0x61, 0x62, 0x63]) ≠ hashCrc32 (some [0x61, 0x9D, 0x63])
  := by
  have hbits : ∀ i < 24, (bits [0x61, 0x62, 0x63])[i]? ≠ (bits [0x61, 0x9D, 0x63])[i]? →
      8 ≤ i ∧ i < 8 + 32 := by
    decide
  apply hash_crc32_burst 8 (by rfl) (by decide)
  intro i hi
  by_cases hlt : i < 24
  · apply hbits i hlt hi
  · have hlength : (bits [0x61, 0x62, 0x63]).length ≤ i := Nat.le_of_not_lt hlt
    rw [List.getElem?_eq_none hlength, List.getElem?_eq_none (Nat.le_of_not_lt hlt)] at hi
    exact absurd rfl hi

end CTemplate

import Mathlib.Algebra.Field.ZMod
import Mathlib.Data.List.GetD
import Mathlib.RingTheory.AdjoinRoot
import Mathlib.RingTheory.Coprime.Lemmas

/-!
# Shift registers and polynomials

Bits are the coefficients of polynomials over the field with two elements.  The first bit of a
list is the highest coefficient of `message`.  For a register it is the other way around: the
highest bit is the lowest coefficient of `reflected`.

`clock taps r` shifts a register to the right, and flips the bits of `taps` when the bit that
falls out is set.  That multiplies the polynomial with `X`, modulo `modulus taps`.  A register
that takes in a list of bits thus computes a remainder, `mk_foldl_clock` and
`eq_reflect_modByMonic`.
-/

universe u

namespace ShiftRegister

open Polynomial

/-! ### Bits -/

/-- A bit as an element of the field with two elements. -/
def bit (b : Bool) : ZMod 2 :=
  if b then 1 else 0

theorem bit_false : bit false = 0 :=
  rfl

theorem bit_xor (b b' : Bool) :
  bit (b ^^ b') = bit b + bit b'
  := by
  cases b <;> cases b' <;> decide

theorem bit_and (b b' : Bool) :
  bit (b && b') = bit b * bit b'
  := by
  cases b <;> cases b' <;> decide

theorem bit_injective : Function.Injective bit := by
  decide

theorem bit_add_self (b : Bool) :
  bit b + bit b = 0
  := by
  cases b <;> decide

/-- The polynomial of a list of bits. -/
noncomputable def message : List Bool → (ZMod 2)[X]
  | [] => 0
  | b :: bs => C (bit b) * X ^ bs.length + message bs

theorem message_append (as bs : List Bool) :
  message (as ++ bs) = X ^ bs.length * message as + message bs
  := by
  induction as with
  | nil => rw [List.nil_append, message, mul_zero, zero_add]
  | cons a as ih =>
      rw [List.cons_append, message, message, ih, List.length_append, pow_add]
      ring

theorem coeff_message (bs : List Bool) (k : ℕ) :
  (message bs).coeff k = bit (bs.reverse.getD k false)
  := by
  induction bs with
  | nil => rfl
  | cons b bs ih =>
      rw [message, coeff_add, coeff_C_mul, coeff_X_pow, ih, List.reverse_cons]
      rcases lt_trichotomy k bs.length with hlt | rfl | hgt
      · rw [if_neg (by omega), mul_zero, zero_add, List.getD_append _ _ _ _ (by simpa)]
      · rw [if_pos rfl, mul_one, List.getD_eq_default _ _ (by simp), bit_false, add_zero,
          List.getD_append_right _ _ _ _ (by simp)]
        simp
      · rw [if_neg (by omega), mul_zero, zero_add,
          List.getD_eq_default _ _ (by simpa using by omega),
          List.getD_eq_default _ _ (by simpa using by omega)]

/-- Lists of bits of one length are given by their polynomials. -/
theorem message_injective
    {as bs : List Bool} (hlength : as.length = bs.length) (h : message as = message bs) :
  as = bs
  := by
  apply List.reverse_injective
  apply List.ext_getElem (by simpa)
  intro k hk hk'
  have hcoeff := congrArg (fun p => p.coeff k) h
  simp only [coeff_message] at hcoeff
  rw [List.getD_eq_getElem _ _ hk, List.getD_eq_getElem _ _ hk'] at hcoeff
  apply bit_injective hcoeff

/-! ### Registers -/

variable {w : ℕ}

/-- The polynomial of a register. -/
noncomputable def reflected (r : BitVec w) : (ZMod 2)[X] :=
  ∑ k ∈ Finset.range w, C (bit (r.getMsbD k)) * X ^ k

theorem coeff_reflected (r : BitVec w) (k : ℕ) :
  (reflected r).coeff k = bit (r.getMsbD k)
  := by
  simp only [reflected, finsetSum_coeff, coeff_C_mul_X_pow, Finset.sum_ite_eq, Finset.mem_range]
  split
  case isTrue => rfl
  case isFalse hk => rw [BitVec.getMsbD_of_ge r k (Nat.le_of_not_lt hk), bit_false]

theorem reflected_xor (r r' : BitVec w) :
  reflected (r ^^^ r') = reflected r + reflected r'
  := by
  ext k
  simp only [coeff_add, coeff_reflected, BitVec.getMsbD_xor, bit_xor]

theorem degree_reflected_lt (r : BitVec w) :
  (reflected r).degree < w
  := by
  rw [degree_lt_iff_coeff_zero]
  intro k hk
  rw [coeff_reflected, BitVec.getMsbD_of_ge r k hk, bit_false]

/-- The register of `w` bits whose polynomial agrees with the given one below `X ^ w`. -/
noncomputable def reflect (w : ℕ) (p : (ZMod 2)[X]) : BitVec w :=
  (BitVec.ofBoolListBE ((List.range w).map fun k => p.coeff k == 1)).cast (by simp)

theorem reflect_reflected (r : BitVec w) :
  reflect w (reflected r) = r
  := by
  apply BitVec.eq_of_getMsbD_eq
  intro k hk
  rw [reflect, BitVec.getMsbD_cast, BitVec.getMsbD_ofBoolListBE,
    List.getD_eq_getElem _ _ (by simpa), List.getElem_map, List.getElem_range, coeff_reflected]
  cases r.getMsbD k <;> rfl

/-- The bits of a register, the lowest one first. -/
def lowBits (r : BitVec w) : List Bool :=
  (List.range w).map fun i => r.getLsbD i

@[simp]
theorem length_lowBits (r : BitVec w) :
  (lowBits r).length = w
  := by
  rw [lowBits, List.length_map, List.length_range]

theorem lowBits_injective : Function.Injective (lowBits : BitVec w → List Bool) := by
  intro r r' h
  apply BitVec.eq_of_getLsbD_eq
  intro i hi
  have hget := congrArg (fun bs : List Bool => bs[i]?) h
  simpa [lowBits, hi] using hget

theorem getD_reverse_lowBits (r : BitVec w) (k : ℕ) :
  (lowBits r).reverse.getD k false = r.getMsbD k
  := by
  by_cases hk : k < w
  · rw [List.getD_eq_getElem _ _ (by simpa), List.getElem_reverse]
    simp only [lowBits, List.getElem_map, List.getElem_range, List.length_map, List.length_range]
    rw [BitVec.getMsbD, decide_eq_true hk, Bool.true_and]
  · rw [List.getD_eq_default _ _ (by simpa using hk),
      BitVec.getMsbD_of_ge r k (Nat.le_of_not_lt hk)]

/-- The bits of a shorter register at the low end of a register. -/
theorem reflected_setWidth {n : ℕ} (hn : n ≤ w) (r : BitVec n) :
  X ^ n * reflected (r.setWidth w) = X ^ w * message (lowBits r)
  := by
  ext k
  rw [coeff_X_pow_mul', coeff_X_pow_mul', coeff_reflected, coeff_message, getD_reverse_lowBits,
    BitVec.getMsbD_setWidth]
  by_cases hk : w ≤ k
  · rw [if_pos hk, if_pos (by omega), decide_eq_true (by omega), Bool.true_and]
    congr 2
    omega
  · rw [if_neg hk]
    split
    case isTrue => rw [decide_eq_false (by omega), Bool.false_and, bit_false]
    case isFalse => rfl

/-! ### Clocking a register -/

/-- The register after a bit was shifted out to the right. -/
def clock (taps r : BitVec w) : BitVec w :=
  if r.getLsbD 0 then (r >>> 1) ^^^ taps else r >>> 1

/-- What a register with these taps computes remainders of. -/
noncomputable def modulus (taps : BitVec w) : (ZMod 2)[X] :=
  X ^ w + reflected taps

theorem modulus_monic (taps : BitVec w) : (modulus taps).Monic :=
  monic_X_pow_add (degree_reflected_lt taps)

theorem degree_modulus (taps : BitVec w) :
  (modulus taps).degree = w
  := by
  rw [modulus, degree_add_eq_left_of_degree_lt] <;> rw [degree_X_pow]
  apply degree_reflected_lt

variable {taps : BitVec w}

theorem getMsbD_clock (r : BitVec w) (k : ℕ) :
  (clock taps r).getMsbD k
    = ((r >>> 1).getMsbD k ^^ (r.getLsbD 0 && taps.getMsbD k))
  := by
  rw [clock]
  cases r.getLsbD 0
  · rw [if_neg (by decide), Bool.false_and, Bool.xor_false]
  · rw [if_pos rfl, BitVec.getMsbD_xor, Bool.true_and]

/-- Shifting to the right multiplies with `X` and drops the highest coefficient. -/
theorem reflected_shift (r : BitVec w) :
  reflected (r >>> 1) = X * reflected r + C (bit (r.getLsbD 0)) * X ^ w
  := by
  ext k
  rw [coeff_reflected, coeff_add, coeff_C_mul_X_pow, BitVec.getMsbD_ushiftRight]
  cases k with
  | zero =>
      rw [coeff_X_mul_zero, zero_add]
      split
      case isTrue hw =>
        subst hw
        simp
      case isFalse => simp [bit_false]
  | succ k =>
      rw [coeff_X_mul, coeff_reflected, Nat.add_sub_cancel]
      rcases lt_trichotomy (k + 1) w with hlt | rfl | hgt
      · rw [if_neg (by omega), add_zero]
        simp [hlt]
      · -- the bit that falls out
        have hlast : r.getMsbD k = r.getLsbD 0 := by
          rw [BitVec.getMsbD]
          simp
        rw [if_pos rfl, hlast, bit_add_self]
        simp [bit_false]
      · rw [if_neg (by omega), add_zero, BitVec.getMsbD_of_ge r k (by omega)]
        simp

theorem reflected_clock (r : BitVec w) :
  reflected (clock taps r) = X * reflected r + C (bit (r.getLsbD 0)) * modulus taps
  := by
  have hclock : reflected (clock taps r)
      = reflected (r >>> 1) + C (bit (r.getLsbD 0)) * reflected taps := by
    ext k
    rw [coeff_add, coeff_C_mul, coeff_reflected, coeff_reflected, coeff_reflected, getMsbD_clock,
      bit_xor, bit_and]
  rw [hclock, reflected_shift, modulus]
  ring

/-! ### Remainders -/

/-- Clocking a register `n` times multiplies with `X ^ n`. -/
theorem mk_iterate_clock (n : ℕ) (r : BitVec w) :
  AdjoinRoot.mk (modulus taps) (reflected ((clock taps)^[n] r))
    = AdjoinRoot.mk (modulus taps) (X ^ n * reflected r)
  := by
  induction n generalizing r with
  | zero => rw [pow_zero, one_mul, Function.iterate_zero_apply]
  | succ n ih =>
      rw [Function.iterate_succ_apply, ih, reflected_clock]
      simp only [map_mul, map_add, AdjoinRoot.mk_self, mul_zero, add_zero, pow_succ, mul_assoc]

variable {β : Type u} {word : β → BitVec w} {bits : β → List Bool}

/-- A register takes in the bits of a block at its low end, and is clocked for each of them. -/
theorem mk_foldl_clock
    (hword : ∀ b, X ^ (bits b).length * reflected (word b) = X ^ w * message (bits b))
    (blocks : List β) (r : BitVec w) :
  AdjoinRoot.mk (modulus taps)
      (reflected (blocks.foldl (fun r b => (clock taps)^[(bits b).length] (r ^^^ word b)) r))
    = AdjoinRoot.mk (modulus taps)
      (message (blocks.flatMap bits) * X ^ w + X ^ (blocks.flatMap bits).length * reflected r)
  := by
  induction blocks generalizing r with
  | nil =>
      rw [List.foldl_nil, List.flatMap_nil, message, zero_mul, zero_add, List.length_nil, pow_zero,
        one_mul]
  | cons b blocks ih =>
      rw [List.foldl_cons, ih, List.flatMap_cons, message_append, List.length_append, pow_add,
        map_add, map_mul _ (X ^ _) (reflected _), mk_iterate_clock, reflected_xor, ← map_mul,
        ← map_add, mul_add, hword b]
      apply congrArg (AdjoinRoot.mk (modulus taps))
      ring

/-- A register that is equal to a polynomial modulo the modulus holds its remainder. -/
theorem eq_reflect_modByMonic
    {r : BitVec w} {p : (ZMod 2)[X]}
    (h : AdjoinRoot.mk (modulus taps) (reflected r) = AdjoinRoot.mk (modulus taps) p) :
  r = reflect w (p %ₘ modulus taps)
  := by
  have hmonic := modulus_monic taps
  have hself : reflected r %ₘ modulus taps = reflected r := by
    rw [modByMonic_eq_self_iff hmonic, degree_modulus]
    apply degree_reflected_lt
  have hmod := modByMonic_eq_of_dvd_sub hmonic (AdjoinRoot.mk_eq_mk.mp h)
  rw [← hmod, hself, reflect_reflected]

/-! ### Burst errors -/

section Burst

variable {R : Type u} [CommRing R] [IsDomain R] {P p : R[X]}

/-- No multiple of a polynomial has all its coefficients in a window that is not longer than the
polynomial, apart from zero. -/
theorem eq_zero_of_dvd_of_window
    {n e : ℕ} (hdegree : P.degree = n) (hunit : P.coeff 0 = 1)
    (hwindow : ∀ k, p.coeff k ≠ 0 → e ≤ k ∧ k < e + n) (hdvd : P ∣ p) :
  p = 0
  := by
  have hcoprime : IsCoprime P (X ^ e) := by
    apply IsCoprime.pow_right
    use 1, -P.divX
    have hsplit := divX_mul_X_add P
    rw [hunit, map_one] at hsplit
    linear_combination -hsplit
  obtain ⟨q, rfl⟩ : X ^ e ∣ p := by
    rw [X_pow_dvd_iff]
    intro k hk
    by_contra hne
    have hle := (hwindow k hne).1
    omega
  have hq : q.degree < P.degree := by
    rw [hdegree, degree_lt_iff_coeff_zero]
    intro k hk
    by_contra hne
    rw [← coeff_X_pow_mul q e k] at hne
    have hlt := (hwindow _ hne).2
    omega
  rw [eq_zero_of_dvd_of_degree_lt (hcoprime.dvd_of_dvd_mul_left hdvd) hq, mul_zero]

end Burst

end ShiftRegister

import Mathlib.Algebra.Order.Field.Power
import Mathlib.Algebra.Order.Field.Rat
import Mathlib.Data.Nat.Size
import Mathlib.Data.Rat.Floor

/-!
# Binary floating-point numbers

A format has the numbers `m * 2 ^ e` whose significand `m` has at most `precision` bits and whose
exponent `e` is between two bounds.  A datum of the format is one of its numbers, an infinity, or
not a number; the two zeros are not told apart.  Comparisons with a datum that is not a number are
false.

`roundNat p n` is the number with `p` bits nearest to the natural number `n`, and of two such
numbers the one with the even significand.  No number of the format is at least `n` but less than
`roundNat p n`, `Format.Represents.lt_of_lt_roundNat`, so that a number that compares less than the
converted `n` is less than `n`, `Datum.exists_of_not_lt_of_not_le`.
-/

namespace BinaryFloat

/-- Significands have at most `precision` bits; exponents are from `-lowest` to `highest`. -/
structure Format where
  precision : ℕ
  precision_pos : 0 < precision
  lowest : ℕ
  highest : ℕ

/-- The numbers of a format. -/
def Format.Represents (fmt : Format) (x : ℚ) : Prop :=
  ∃ m e : ℤ, |m| < 2 ^ fmt.precision ∧ -fmt.lowest ≤ e ∧ e ≤ fmt.highest ∧ x = m * 2 ^ e

variable {fmt : Format}

theorem Format.represents_natCast {n : ℕ} (hn : n < 2 ^ fmt.precision) :
  fmt.Represents n
  := by
  refine ⟨n, 0, ?_, by omega, by omega, by simp⟩
  rw [Nat.abs_cast]
  exact_mod_cast hn

/-! ### Rounding -/

/-- The number with `p` bits nearest to `n`, and the even one of two. -/
def roundNat (p n : ℕ) : ℕ :=
  let ulp := 2 ^ (n.size - p)
  let q := n / ulp
  let r := n % ulp
  if 2 * r < ulp ∨ 2 * r = ulp ∧ q % 2 = 0 then q * ulp else (q + 1) * ulp

theorem roundNat_of_lt {p n : ℕ} (h : n < 2 ^ p) :
  roundNat p n = n
  := by
  rw [roundNat, Nat.sub_eq_zero_of_le (Nat.size_le.mpr h)]
  simp [Nat.mod_one]

/-- Rounding drops the last bits of `n` such that `p` are left, and adds one to these only when it
drops a bit that is set. -/
theorem exists_roundNat {p n : ℕ} (hp : 0 < p) (hn : 2 ^ p ≤ n) :
  ∃ q k, q < 2 ^ p ∧ 2 ^ p ≤ 2 * q
    ∧ (roundNat p n = q * 2 ^ k ∧ q * 2 ^ k ≤ n
      ∨ roundNat p n = (q + 1) * 2 ^ k ∧ q * 2 ^ k < n)
  := by
  have hulp : 0 < 2 ^ (n.size - p) := Nat.two_pow_pos _
  have hsize : p < n.size := Nat.lt_size.mpr hn
  refine ⟨n / 2 ^ (n.size - p), n.size - p, ?_, ?_, ?_⟩
  · rw [Nat.div_lt_iff_lt_mul hulp, ← Nat.pow_add, Nat.add_sub_cancel' hsize.le]
    apply Nat.lt_size_self
  · -- the first bit of `n` is among those that are left
    have hfirst : 2 ^ (p - 1) ≤ n / 2 ^ (n.size - p) := by
      rw [Nat.le_div_iff_mul_le hulp, ← Nat.pow_add]
      apply Nat.lt_size.mp (by omega)
    rw [← mul_pow_sub_one hp.ne']
    apply Nat.mul_le_mul_left 2 hfirst
  · have hdiv := Nat.div_add_mod' n (2 ^ (n.size - p))
    rw [roundNat]
    split
    · exact .inl ⟨rfl, by omega⟩
    case isFalse hup =>
      refine .inr ⟨rfl, ?_⟩
      by_contra! hexact
      have hmod : n % 2 ^ (n.size - p) = 0 := by
        omega
      simp [hmod] at hup

/-- Numbers of the format that are larger than a significand of full length are multiples of its
unit `2 ^ k`. -/
theorem Format.Represents.le_of_lt_succ
    {x : ℚ} (hx : fmt.Represents x) {q k : ℕ} (hq : 2 ^ fmt.precision ≤ 2 * q)
    (hlt : x < (q + 1 : ℕ) * 2 ^ k) :
  x ≤ q * 2 ^ k
  := by
  obtain ⟨m, e, hm, -, -, rfl⟩ := hx
  by_contra! hgt
  have hexponent : (k : ℤ) ≤ e := by
    by_contra! hek
    have hbits : (m : ℚ) < 2 ^ fmt.precision := by
      exact_mod_cast (abs_lt.mp hm).2
    have hle : (m : ℚ) * 2 ^ e ≤ q * 2 ^ k :=
      calc (m : ℚ) * 2 ^ e
        _ ≤ 2 ^ fmt.precision * 2 ^ e := by gcongr
        _ ≤ 2 ^ fmt.precision * 2 ^ ((k : ℤ) - 1) := by
            gcongr
            · norm_num
            · omega
        _ ≤ (2 * q : ℕ) * 2 ^ ((k : ℤ) - 1) := by
            gcongr
            exact_mod_cast hq
        _ = q * 2 ^ k := by
            rw [zpow_sub_one₀ two_ne_zero, zpow_natCast]
            push_cast
            ring
    exact absurd hgt (not_lt.mpr hle)
  obtain ⟨j, rfl⟩ := Int.le.dest hexponent
  have hunits : (m : ℚ) * 2 ^ ((k : ℤ) + j) = (m * 2 ^ j : ℤ) * 2 ^ k := by
    rw [zpow_add₀ two_ne_zero, zpow_natCast, zpow_natCast]
    push_cast
    ring
  have hpos : (0 : ℚ) < 2 ^ k := by
    positivity
  rw [hunits, mul_lt_mul_iff_left₀ hpos] at hlt hgt
  norm_cast at hlt hgt
  omega

/-- No number of the format is at least `n` but less than `n` rounded. -/
theorem Format.Represents.lt_of_lt_roundNat
    {x : ℚ} (hx : fmt.Represents x) {n : ℕ} (hlt : x < roundNat fmt.precision n) :
  x < n
  := by
  rcases Nat.lt_or_ge n (2 ^ fmt.precision) with hn | hn
  · rwa [roundNat_of_lt hn] at hlt
  obtain ⟨q, k, -, hfull, ⟨hdown, hle⟩ | ⟨hup, hlt'⟩⟩ := exists_roundNat fmt.precision_pos hn
  · rw [hdown] at hlt
    apply hlt.trans_le
    exact_mod_cast hle
  · rw [hup, Nat.cast_mul, Nat.cast_pow] at hlt
    apply (hx.le_of_lt_succ hfull hlt).trans_lt
    exact_mod_cast hlt'

theorem Format.represents_mul_two_pow
    {a k : ℕ} (ha : a < 2 ^ fmt.precision) (hfull : 2 ^ fmt.precision ≤ 2 * a)
    (h : a * 2 ^ k < 2 ^ (fmt.precision + fmt.highest)) :
  fmt.Represents (a * 2 ^ k : ℕ)
  := by
  refine ⟨a, k, ?_, by omega, ?_, by push_cast; rw [zpow_natCast]⟩
  · rw [Nat.abs_cast]
    exact_mod_cast ha
  · by_contra! hk
    have hhigh : 2 ^ (fmt.precision + fmt.highest) ≤ a * 2 ^ k :=
      calc 2 ^ (fmt.precision + fmt.highest)
        _ = 2 ^ fmt.precision * 2 ^ fmt.highest := Nat.pow_add ..
        _ ≤ 2 * a * 2 ^ fmt.highest := Nat.mul_le_mul_right _ hfull
        _ = a * 2 ^ (fmt.highest + 1) := by ring
        _ ≤ a * 2 ^ k := Nat.mul_le_mul_left a (Nat.pow_le_pow_right (by decide) (by omega))
    omega

/-- A rounded number that is not too large is one of the format. -/
theorem Format.represents_roundNat
    {n : ℕ} (h : roundNat fmt.precision n < 2 ^ (fmt.precision + fmt.highest)) :
  fmt.Represents (roundNat fmt.precision n)
  := by
  rcases Nat.lt_or_ge n (2 ^ fmt.precision) with hn | hn
  · rw [roundNat_of_lt hn]
    apply fmt.represents_natCast hn
  obtain ⟨q, k, hq, hfull, hround⟩ := exists_roundNat fmt.precision_pos hn
  rcases hround with ⟨hdown, -⟩ | ⟨hup, -⟩
  · rw [hdown] at h ⊢
    apply represents_mul_two_pow hq hfull h
  rw [hup] at h ⊢
  rcases Nat.eq_or_lt_of_le hq with hcarry | hlt
  · -- the significand has become too long, but is a power of two
    have hhalf : 2 ^ (fmt.precision - 1) * 2 ^ (k + 1) = (q + 1) * 2 ^ k := by
      rw [← Nat.succ_eq_add_one q, hcarry, Nat.pow_succ', ← Nat.mul_assoc,
        pow_sub_one_mul fmt.precision_pos.ne']
    rw [← hhalf] at h ⊢
    apply represents_mul_two_pow _ _ h
    · apply Nat.pow_lt_pow_right (by decide) (Nat.sub_one_lt fmt.precision_pos.ne')
    · rw [mul_pow_sub_one fmt.precision_pos.ne']
  · apply represents_mul_two_pow hlt (by omega) h

theorem Format.Represents.lt_two_pow {x : ℚ} (hx : fmt.Represents x) :
  x < 2 ^ (fmt.precision + fmt.highest)
  := by
  obtain ⟨m, e, hm, -, he, rfl⟩ := hx
  have hbits : (m : ℚ) < 2 ^ fmt.precision := by
    exact_mod_cast (abs_lt.mp hm).2
  calc (m : ℚ) * 2 ^ e
    _ < 2 ^ fmt.precision * 2 ^ e := by gcongr
    _ ≤ 2 ^ fmt.precision * 2 ^ (fmt.highest : ℤ) := by
        gcongr
        norm_num
    _ = 2 ^ (fmt.precision + fmt.highest) := by rw [zpow_natCast, pow_add]

/-! ### Data -/

/-- Not a number, an infinity, or a number. -/
inductive Datum (fmt : Format) where
  | nan
  | negInfinity
  | infinity
  | finite (x : ℚ) (h : fmt.Represents x)

namespace Datum

variable {a b : Datum fmt}

instance : Zero (Datum fmt) where
  zero := finite (0 : ℕ) (fmt.represents_natCast (Nat.two_pow_pos _))

instance : One (Datum fmt) where
  one := finite (1 : ℕ) (fmt.represents_natCast (Nat.one_lt_two_pow fmt.precision_pos.ne'))

/-- `a < b` -/
def lt : Datum fmt → Datum fmt → Bool
  | finite x _, finite y _ => x < y
  | negInfinity, finite _ _ => true
  | negInfinity, infinity => true
  | finite _ _, infinity => true
  | _, _ => false

/-- `a ≤ b` -/
def le : Datum fmt → Datum fmt → Bool
  | finite x _, finite y _ => x ≤ y
  | nan, _ => false
  | _, nan => false
  | negInfinity, _ => true
  | _, infinity => true
  | _, _ => false

/-- A natural number converted to the format. -/
def ofNat (fmt : Format) (n : ℕ) : Datum fmt :=
  if h : roundNat fmt.precision n < 2 ^ (fmt.precision + fmt.highest) then
    finite (roundNat fmt.precision n) (fmt.represents_roundNat h)
  else infinity

/-- A datum converted to an unsigned integer below `range`, by dropping its fraction: `none` where
the result is not such an integer. -/
def truncate (range : ℕ) : Datum fmt → Option ℕ
  | finite x _ => if -1 < x ∧ x < range then some ⌊x⌋₊ else none
  | _ => none

theorem zero_eq : (0 : Datum fmt) = finite (0 : ℕ) (fmt.represents_natCast (Nat.two_pow_pos _)) :=
  rfl

theorem not_le_nan : a.le nan = false := by
  cases a <;> rfl

theorem not_nan_lt : nan.lt a = false :=
  rfl

/-- Unless a datum is not a number, it is less than zero, at least the converted `n`, or a number
from zero up to `n`. -/
theorem exists_of_not_lt_of_not_le
    {n : ℕ} (hnan : a ≠ nan) (hlt : a.lt 0 = false) (hle : (ofNat fmt n).le a = false) :
  ∃ x h, a = finite x h ∧ 0 ≤ x ∧ x < n
  := by
  rw [zero_eq] at hlt
  rw [ofNat] at hle
  cases a with
  | nan => exact absurd rfl hnan
  | negInfinity => cases hlt
  | infinity => split at hle <;> cases hle
  | finite x h =>
      refine ⟨x, h, rfl, ?_, ?_⟩
      · have hzero : ¬ x < (0 : ℕ) := of_decide_eq_false hlt
        exact_mod_cast not_lt.mp hzero
      · apply h.lt_of_lt_roundNat
        split at hle
        case isTrue =>
          have hround : ¬ (roundNat fmt.precision n : ℚ) ≤ x := of_decide_eq_false hle
          exact not_le.mp hround
        case isFalse hlarge =>
          apply h.lt_two_pow.trans_le
          exact_mod_cast not_lt.mp hlarge

end Datum

end BinaryFloat

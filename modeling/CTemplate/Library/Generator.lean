import Mathlib.Algebra.Ring.GeomSum
import Mathlib.Data.BitVec
import Mathlib.Data.Set.Card
import Mathlib.Dynamics.PeriodicPts.Lemmas
import Mathlib.Tactic.Ring

/-!
# Generators of numbers

A generator has a state, which it replaces by `a * x + c`, and makes a number of every state.

* When twice a power of two is zero, `a` is one more than a multiple of four and `c` is odd, the
  states come back to the first one after that many steps and not before, `minimalPeriod_affine`.
  When there are no more states than that, every state comes up once, `existsUnique_iterate`.
* When the number together with a part of the state gives back the state, every number is made of
  as many states as there are such parts, `ncard_fiber`.
* The bits of a word in a window are given by those above it and by the word added to itself
  shifted to the right, `getLsbD_eq_of_xorshift`.
-/

universe u v w

namespace Generator

open Finset Function

/-! ### Affine steps -/

section Affine

variable {R : Type u} [CommRing R]

/-- One step of the state. -/
def affine (a c x : R) : R :=
  a * x + c

theorem iterate_affine (a c x : R) (n : ℕ) :
  (affine a c)^[n] x = x + (∑ i ∈ range n, a ^ i) * ((a - 1) * x + c)
  := by
  induction n with
  | zero => rw [iterate_zero_apply, range_zero, sum_empty, zero_mul, add_zero]
  | succ n ih =>
      rw [iterate_succ_apply', ih, affine, geom_sum_succ]
      ring

theorem exists_pow_eq (t : R) (n : ℕ) :
  ∃ u, (1 + 4 * t) ^ n = 1 + 4 * u
  := by
  induction n with
  | zero => exact ⟨0, by ring⟩
  | succ n ih =>
      obtain ⟨u, hu⟩ := ih
      use t + u + 4 * t * u
      rw [pow_succ, hu]
      ring

/-- The sum of the first `2 ^ k` powers is an odd multiple of `2 ^ k`. -/
theorem exists_geom_sum_eq (t : R) (k : ℕ) :
  ∃ u, ∑ i ∈ range (2 ^ k), (1 + 4 * t) ^ i = 2 ^ k * (1 + 2 * u)
  := by
  induction k with
  | zero => exact ⟨0, by simp⟩
  | succ k ih =>
      obtain ⟨u, hu⟩ := ih
      obtain ⟨v, hv⟩ := exists_pow_eq t (2 ^ k)
      use u + v + 2 * u * v
      rw [pow_succ, mul_two, sum_range_add]
      simp only [pow_add, ← mul_sum, hu, hv]
      ring

theorem iterate_two_pow (t s x : R) (k : ℕ) :
  ∃ u, (affine (1 + 4 * t) (1 + 2 * s))^[2 ^ k] x = x + 2 ^ k + 2 ^ (k + 1) * u
  := by
  obtain ⟨u, hu⟩ := exists_geom_sum_eq t k
  use (1 + 2 * u) * (2 * t * x + s) + u
  rw [iterate_affine, hu]
  ring

/-- The states come back to the first one after `2 ^ (n + 1)` steps and not before. -/
theorem minimalPeriod_affine
    {n : ℕ} (hzero : (2 : R) ^ (n + 1) = 0) (hne : (2 : R) ^ n ≠ 0) (t s x : R) :
  minimalPeriod (affine (1 + 4 * t) (1 + 2 * s)) x = 2 ^ (n + 1)
  := by
  have htwo : Fact (Nat.Prime 2) := ⟨Nat.prime_two⟩
  apply minimalPeriod_eq_prime_pow
  · intro h
    obtain ⟨u, hu⟩ := iterate_two_pow t s x n
    rw [hzero, zero_mul, add_zero] at hu
    apply hne
    apply add_left_cancel (a := x)
    rw [← hu, add_zero]
    exact h
  · obtain ⟨u, hu⟩ := iterate_two_pow t s x (n + 1)
    rw [pow_succ 2 (n + 1), hzero, zero_mul, zero_mul, add_zero, add_zero] at hu
    exact hu

end Affine

/-! ### Counting -/

variable {α : Type u} {β : Type v} {κ : Type w}

/-- Steps that come back after as many steps as there are states pass through every state
once. -/
theorem existsUnique_iterate
    [Finite α] {f : α → α} {x : α} (h : minimalPeriod f x = Nat.card α) (y : α) :
  ∃! i, i < Nat.card α ∧ f^[i] x = y
  := by
  have hinj : Injective fun i : Fin (Nat.card α) => f^[i] x := by
    intro i j hij
    apply Fin.ext
    apply iterate_injOn_Iio_minimalPeriod _ _ hij <;> rw [h] <;> exact Fin.isLt _
  obtain ⟨i, hi⟩ := (hinj.bijective_of_nat_card_le (by rw [Nat.card_fin])).surjective y
  use i, ⟨i.isLt, hi⟩
  rintro j ⟨hj, hjy⟩
  apply congrArg Fin.val (@hinj ⟨j, hj⟩ i (hjy.trans hi.symm))

/-- Every output is made as often as there are keys. -/
theorem ncard_fiber
    {key : α → κ} {out : α → β} (h : Bijective fun x => (key x, out x)) (b : β) :
  Set.ncard {x | out x = b} = Nat.card κ
  := by
  have hkey : Bijective fun x : {x | out x = b} => key x := by
    constructor
    · rintro ⟨x, rfl⟩ ⟨y, hy⟩ hxy
      apply Subtype.ext
      apply h.injective
      apply Prod.ext hxy hy.symm
    · intro k
      obtain ⟨x, hx⟩ := h.surjective (k, b)
      exact ⟨⟨x, congrArg Prod.snd hx⟩, congrArg Prod.fst hx⟩
  apply Nat.card_eq_of_bijective _ hkey

/-- Outputs come up in a full period as often as they are made of states. -/
theorem ncard_iterate
    [Finite α] {f : α → α} {x : α} (h : minimalPeriod f x = Nat.card α) (out : α → β) (b : β) :
  Set.ncard {i | i < Nat.card α ∧ out (f^[i] x) = b} = Set.ncard {y | out y = b}
  := by
  have himage : (fun i => f^[i] x) '' {i | i < Nat.card α ∧ out (f^[i] x) = b}
      = {y | out y = b} := by
    ext y
    constructor
    · rintro ⟨i, hi, rfl⟩
      exact hi.2
    · intro hy
      obtain ⟨i, ⟨hi, rfl⟩, -⟩ := existsUnique_iterate h y
      exact ⟨i, ⟨hi, hy⟩, rfl⟩
  rw [← himage, Set.InjOn.ncard_image]
  intro i hi j hj hij
  apply iterate_injOn_Iio_minimalPeriod _ _ hij <;> rw [h]
  · exact hi.1
  · exact hj.1

/-! ### Words -/

variable {n : ℕ}

/-- The bits of a window are given by the bits above it and the bits of the word added to itself
shifted to the right. -/
theorem getLsbD_eq_of_xorshift
    {x y : BitVec n} {k lo hi : ℕ} (hk : 0 < k)
    (habove : ∀ i, hi ≤ i → x.getLsbD i = y.getLsbD i)
    (hwindow : ∀ i, lo ≤ i → i < hi →
      ((x >>> k) ^^^ x).getLsbD i = ((y >>> k) ^^^ y).getLsbD i)
    {i : ℕ} (hi' : lo ≤ i) :
  x.getLsbD i = y.getLsbD i
  := by
  by_cases hlt : i < hi
  case neg => exact habove i (Nat.le_of_not_lt hlt)
  case pos =>
  -- the bit `k` places above is known already
  have hnext : x.getLsbD (k + i) = y.getLsbD (k + i) :=
    getLsbD_eq_of_xorshift hk habove hwindow (Nat.le_trans hi' (Nat.le_add_left i k))
  have hsum := hwindow i hi' hlt
  rw [BitVec.getLsbD_xor, BitVec.getLsbD_xor, BitVec.getLsbD_ushiftRight,
    BitVec.getLsbD_ushiftRight, hnext] at hsum
  apply Bool.xor_right_inj.mp hsum
termination_by hi - i

theorem rotateRight_injective (k : ℕ) : Injective fun x : BitVec n => x.rotateRight k := by
  intro x y h
  apply BitVec.eq_of_getLsbD_eq
  intro i hi
  have hget := fun j => congrArg (fun z : BitVec n => z.getLsbD j) h
  simp only [BitVec.getLsbD_rotateRight] at hget
  have hlt := Nat.mod_lt k (Nat.zero_lt_of_lt hi)
  by_cases hle : k % n ≤ i
  · have hbit := hget (i - k % n)
    rw [decide_eq_true (by omega), cond_true, cond_true, Nat.add_sub_of_le hle] at hbit
    exact hbit
  · have hbit := hget (i + (n - k % n))
    rw [decide_eq_false (by omega), cond_false, cond_false, decide_eq_true (by omega),
      Bool.true_and, Bool.true_and, Nat.add_sub_cancel] at hbit
    exact hbit

end Generator

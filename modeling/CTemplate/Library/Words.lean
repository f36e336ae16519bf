import CTemplate.Library.Buffer
import Mathlib.Algebra.Ring.Nat

/-!
# Words in a buffer of bytes

A word of `w` bytes stores a number below `256 ^ w`, its lowest byte first.  `load buf k w` is
the word at index `k` of a buffer and `store buf k w n` the buffer after a word was put there;
both give `none` when the word does not lie in the buffer.  A word that was stored is loaded
again, and storing it does not change words that do not overlap it.
-/

namespace Words

open Buffer

variable {buf buf' : List UInt8} {j k n w : ℕ}

/-- The lowest `w` bytes of a number, the lowest one first. -/
def bytes : ℕ → ℕ → List UInt8
  | 0, _ => []
  | w + 1, n => UInt8.ofNat n :: bytes w (n / 256)

/-- The number whose bytes these are. -/
def value : List UInt8 → ℕ
  | [] => 0
  | b :: bs => b.toNat + 256 * value bs

@[simp]
theorem length_bytes (w n : ℕ) :
  (bytes w n).length = w
  := by
  induction w generalizing n with
  | zero => rfl
  | succ w ih => rw [bytes, List.length_cons, ih]

/-- A number below `256 ^ w` fits in `w` bytes. -/
theorem value_bytes (h : n < 256 ^ w) :
  value (bytes w n) = n
  := by
  induction w generalizing n with
  | zero =>
      rw [Nat.pow_zero, Nat.lt_one_iff] at h
      exact h.symm
  | succ w ih =>
      have hdiv : n / 256 < 256 ^ w := by
        apply Nat.div_lt_of_lt_mul
        rwa [Nat.mul_comm, ← Nat.pow_succ]
      rw [bytes, value, ih hdiv, UInt8.toNat_ofNat']
      apply Nat.mod_add_div

/-- The word of `w` bytes at index `k`. -/
def load (buf : List UInt8) (k w : ℕ) : Option ℕ :=
  if k + w ≤ buf.length then some (value ((buf.drop k).take w)) else none

/-- The buffer after a word of `w` bytes was put at index `k`. -/
def store (buf : List UInt8) (k w n : ℕ) : Option (List UInt8) :=
  write buf k (bytes w n)

theorem exists_load (h : k + w ≤ buf.length) :
  ∃ n, load buf k w = some n
  := by
  rw [load, if_pos h]
  exact ⟨_, rfl⟩

/-- Writing does not change a word that does not overlap what is written. -/
theorem load_wrote_of_disjoint
    {xs : List UInt8} (h : Wrote buf k xs buf') (hk : k ≤ buf.length)
    (hdisjoint : j + w ≤ k ∨ k + xs.length ≤ j) :
  load buf' j w = load buf j w
  := by
  rw [load, load, h.length_eq]
  congr 2
  rcases hdisjoint with hlt | hgt
  · -- the word lies before index `k`
    have htake : buf'.take k = buf.take k := by
      have heq := congrArg (List.take k) h.take_eq
      rw [List.take_take, Nat.min_eq_left (Nat.le_add_right _ _), List.take_left'] at heq
      · exact heq
      · rw [List.length_take, Nat.min_eq_left hk]
    rw [List.take_drop, List.take_drop, ← Nat.min_eq_left hlt, ← List.take_take, htake,
      List.take_take]
  · rw [h.drop_eq hgt]

/-- A word that fits in the buffer can be stored, and is then loaded. -/
theorem exists_store (h : k + w ≤ buf.length) (hn : n < 256 ^ w) :
  ∃ buf', store buf k w n = some buf' ∧ buf'.length = buf.length ∧ load buf' k w = some n
    ∧ ∀ {j w'}, j + w' ≤ k ∨ k + w ≤ j → load buf' j w' = load buf j w'
  := by
  obtain ⟨buf', hwrite, hwrote⟩ := exists_write buf k (bytes w n) (by rwa [length_bytes])
  use buf', hwrite, hwrote.length_eq
  constructor
  · have htake := hwrote.take_eq
    rw [length_bytes] at htake
    rw [load, hwrote.length_eq, if_pos h, List.take_drop, htake, List.drop_left', value_bytes hn]
    rw [List.length_take]
    omega
  · intro j w' hdisjoint
    apply load_wrote_of_disjoint hwrote (by omega)
    rwa [length_bytes]

end Words

import Mathlib.Algebra.BigOperators.Group.Finset.Piecewise
import Mathlib.Algebra.Order.BigOperators.Group.Finset

/-!
# Interleaved sequences

Several writers put elements into one list, and `key` tells which writer an element is from.  The
share of a writer is what it put there, in order.  A sum over the list is the sum over the writers
of the sums over their shares, and a prefix of the list has prefixes of the shares.
-/

universe u v

namespace Shares

variable {A : Type u} {key : A → ℕ} {l l' : List A} {n : ℕ}

/-- The elements with the key `p`. -/
def share (key : A → ℕ) (p : ℕ) (l : List A) : List A :=
  l.filter fun a => key a = p

@[simp]
theorem share_append (p : ℕ) :
  share key p (l ++ l') = share key p l ++ share key p l'
  := List.filter_append ..

theorem share_singleton_self (a : A) :
  share key (key a) [a] = [a]
  := by simp [share]

theorem share_singleton_of_ne {a : A} {p : ℕ} (h : key a ≠ p) :
  share key p [a] = []
  := by simp [share, h]

/-- A prefix of the list has prefixes of the shares. -/
theorem share_prefix (h : l <+: l') (p : ℕ) :
  share key p l <+: share key p l'
  := h.filter _

/-- A sum over the list is the sum over the shares of all keys. -/
theorem sum_map_eq {M : Type v} [AddCommMonoid M] (f : A → M) (h : ∀ a ∈ l, key a < n) :
  (l.map f).sum = ∑ p ∈ Finset.range n, ((share key p l).map f).sum
  := by
  induction l with
  | nil => simp [share]
  | cons a l ih =>
      have hcons : ∀ p, ((share key p (a :: l)).map f).sum
          = (if key a = p then f a else 0) + ((share key p l).map f).sum := by
        intro p
        by_cases hp : key a = p <;> simp [share, hp]
      have ha := h a List.mem_cons_self
      rw [List.map_cons, List.sum_cons, ih fun b hb => h b (List.mem_cons_of_mem a hb)]
      simp only [hcons, Finset.sum_add_distrib, Finset.sum_ite_eq, Finset.mem_range, ha, if_true]

/-- The list is as long as the shares of all keys together. -/
theorem length_eq (h : ∀ a ∈ l, key a < n) :
  l.length = ∑ p ∈ Finset.range n, (share key p l).length
  := by
  have hsum := sum_map_eq (fun _ => 1) h
  simpa using hsum

/-- When every share has `k` elements the list has `n * k`. -/
theorem length_eq_mul
    (h : ∀ a ∈ l, key a < n) {k : ℕ} (heq : ∀ p < n, (share key p l).length = k) :
  l.length = n * k
  := by
  rw [length_eq h, Finset.sum_congr rfl fun p hp => heq p (Finset.mem_range.mp hp)]
  simp

/-- When no share has more than `k` elements, and the list has `n * k`, every share has `k`. -/
theorem length_share_eq
    (h : ∀ a ∈ l, key a < n) {k : ℕ} (hle : ∀ p < n, (share key p l).length ≤ k)
    (hlength : n * k ≤ l.length) {p : ℕ} (hp : p < n) :
  (share key p l).length = k
  := by
  have hsum : ∑ p ∈ Finset.range n, (share key p l).length ≤ ∑ p ∈ Finset.range n, k :=
    Finset.sum_le_sum fun p hp => hle p (Finset.mem_range.mp hp)
  have hconst : ∑ p ∈ Finset.range n, k = n * k := by simp
  have heq : ∑ p ∈ Finset.range n, (share key p l).length = ∑ p ∈ Finset.range n, k := by
    apply Nat.le_antisymm hsum
    rw [hconst, ← length_eq h]
    exact hlength
  rw [Finset.sum_eq_sum_iff_of_le fun p hp => hle p (Finset.mem_range.mp hp)] at heq
  exact heq p (Finset.mem_range.mpr hp)

/-- A prefix of a numbered sequence is a numbered sequence. -/
theorem eq_map_range'_of_prefix {f : ℕ → A} {k : ℕ} (h : l <+: (List.range' k n).map f) :
  l.length ≤ n ∧ l = (List.range' k l.length).map f
  := by
  have hlength := h.length_le
  rw [List.length_map, List.length_range'] at hlength
  use hlength
  have htake := List.prefix_iff_eq_take.mp h
  rwa [← List.map_take, List.take_range'_of_length_ge hlength] at htake

end Shares

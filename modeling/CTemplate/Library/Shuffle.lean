import Mathlib.Algebra.Group.End
import Mathlib.Data.Fin.Basic
import Mathlib.Data.List.Nodup

/-!
# Shuffles by exchanges

A shuffle of the numbers up to `m` exchanges `m` with the number drawn first, then `m - 1` with
the number drawn next, and so on down to `1`.  `perm val draws` is the permutation that the
draws make, where `val` is the number drawn.

The first draw decides where `m` goes, `perm_cons_apply`, and later draws do not move it.  So, when
every number up to `i` can be drawn in exactly one way at the exchange of `i`, every permutation
of the numbers up to `m` is made by exactly one sequence of draws, `existsUnique_draws`; and when
`m` itself cannot be drawn first, no sequence leaves it in its place.  A permutation that a shuffle
makes lists the numbers up to `m` in another order, `FixesAbove.map_range_perm`.
-/

namespace Shuffle

open Equiv

universe u

variable {δ : Type u} {val : δ → ℕ} {ok : ℕ → δ → Prop} {draws : List δ} {σ : Perm ℕ} {m : ℕ}

/-- The permutation that the draws make.  The first of them is for the largest number. -/
def perm (val : δ → ℕ) : List δ → Perm ℕ
  | [] => 1
  | d :: ds => swap (ds.length + 1) (val d) * perm val ds

/-- Each draw is one that `ok` allows at the number that is exchanged. -/
def Draws (ok : ℕ → δ → Prop) : List δ → Prop
  | [] => True
  | d :: ds => ok (ds.length + 1) d ∧ Draws ok ds

/-- The permutation does not move any number above `m`. -/
def FixesAbove (m : ℕ) (σ : Perm ℕ) : Prop :=
  ∀ k, m < k → σ k = k

/-! ### Numbers that are not moved -/

/-- A permutation that moves no number above `m` leads to no number above `m` from below. -/
theorem FixesAbove.apply_le (h : FixesAbove m σ) {k : ℕ} (hk : k ≤ m) :
  σ k ≤ m
  := by
  by_contra hgt
  have hfixed := h (σ k) (by omega)
  have hself := σ.injective hfixed
  omega

/-- Draws that are not above the number that is exchanged move no number above the first. -/
theorem fixesAbove_perm (hok : ∀ i d, ok i d → val d ≤ i) (h : Draws ok draws) :
  FixesAbove draws.length (perm val draws)
  := by
  induction draws with
  | nil => exact fun _ _ => rfl
  | cons d ds ih =>
      obtain ⟨hd, hds⟩ := h
      have hle := hok _ d hd
      intro k hk
      rw [List.length_cons] at hk
      rw [perm, Perm.mul_apply, ih hds k (by omega), swap_apply_of_ne_of_ne (by omega) (by omega)]

/-- The first draw decides where the largest number goes. -/
theorem perm_cons_apply (hok : ∀ i d, ok i d → val d ≤ i) (d : δ) (h : Draws ok draws) :
  perm val (d :: draws) (draws.length + 1) = val d
  := by
  rw [perm, Perm.mul_apply, fixesAbove_perm hok h _ (Nat.lt_succ_self _), swap_apply_left]

/-! ### Permutations and draws -/

/-- A permutation of the numbers up to `m + 1` is an exchange and a permutation of the numbers up
to `m`. -/
theorem FixesAbove.swap_mul (h : FixesAbove (m + 1) σ) :
  FixesAbove m (swap (m + 1) (σ (m + 1)) * σ)
  := by
  intro k hk
  rw [Perm.mul_apply]
  rcases Nat.eq_or_lt_of_le hk with rfl | hk
  · apply swap_apply_right
  · have hle := h.apply_le (Nat.le_refl (m + 1))
    rw [h k hk, swap_apply_of_ne_of_ne (by omega) (by omega)]

theorem FixesAbove.eq_one (h : FixesAbove 0 σ) :
  σ = 1
  := by
  ext k
  cases k with
  | zero => apply Nat.le_zero.mp (h.apply_le (Nat.le_refl 0))
  | succ k => apply h _ (Nat.succ_pos k)

/-- When every number up to `i` can be drawn in exactly one way at the exchange of `i`, every
permutation of the numbers up to `m` is made by exactly one sequence of draws. -/
theorem existsUnique_draws
    (hval : Function.Injective val) (hok : ∀ i d, ok i d → val d ≤ i)
    (hall : ∀ i k, i ≤ m → k ≤ i → ∃ d, ok i d ∧ val d = k) (hσ : FixesAbove m σ) :
  ∃! draws, draws.length = m ∧ Draws ok draws ∧ perm val draws = σ
  := by
  induction m generalizing σ with
  | zero =>
      refine ⟨[], ⟨rfl, trivial, hσ.eq_one.symm⟩, ?_⟩
      rintro draws ⟨hlength, -⟩
      apply List.eq_nil_of_length_eq_zero hlength
  | succ m ih =>
      obtain ⟨ds, ⟨hlength, hdraws, hperm⟩, hunique⟩ :=
        ih (fun i k hi => hall i k (by omega)) hσ.swap_mul
      obtain ⟨d, hd, hnumber⟩ := hall (m + 1) _ (Nat.le_refl _) (hσ.apply_le (Nat.le_refl _))
      refine ⟨d :: ds, ⟨?_, ?_, ?_⟩, ?_⟩
      · rw [List.length_cons, hlength]
      · rw [Draws, hlength]
        exact ⟨hd, hdraws⟩
      · rw [perm, hlength, hperm, hnumber, swap_mul_self_mul]
      · rintro (_ | ⟨d', ds'⟩) ⟨hlength', hdraws', hperm'⟩
        · cases hlength'
        · obtain ⟨hd', hds'⟩ := hdraws'
          obtain rfl : ds'.length = m := Nat.succ.inj hlength'
          -- the first draw is given by the permutation, and so are the others
          have hfirst := perm_cons_apply hok d' hds'
          rw [hperm'] at hfirst
          obtain rfl := hval (hnumber.trans hfirst)
          congr 1
          apply hunique
          refine ⟨rfl, hds', ?_⟩
          rw [hfirst, ← hperm', perm, swap_mul_self_mul]

/-- The draws make a permutation of the numbers below `m + 1`. -/
theorem perm_eq_extend_iff
    (hok : ∀ i d, ok i d → val d ≤ i) (hlength : draws.length = m) (h : Draws ok draws)
    (σ : Perm (Fin (m + 1))) :
  (∀ r : Fin (m + 1), perm val draws r = σ r)
    ↔ perm val draws = σ.extendDomain Fin.equivSubtype
  := by
  have hfixes := fixesAbove_perm hok h
  rw [hlength] at hfixes
  constructor
  · intro heq
    ext k
    by_cases hk : k < m + 1
    · rw [Perm.extendDomain_apply_subtype (b := k) _ _ hk]
      apply heq ⟨k, hk⟩
    · rw [Perm.extendDomain_apply_not_subtype (b := k) _ _ hk]
      apply hfixes k (by omega)
  · intro heq r
    have hr := Perm.extendDomain_apply_subtype (b := r.val) σ Fin.equivSubtype r.isLt
    rw [heq, hr]
    rfl

theorem fixesAbove_extend (σ : Perm (Fin (m + 1))) :
  FixesAbove m (σ.extendDomain Fin.equivSubtype)
  := by
  intro k hk
  apply Perm.extendDomain_apply_not_subtype
  omega

/-- When every number up to `i` can be drawn in exactly one way at the exchange of `i`, every
permutation of the numbers below `m + 1` is made by exactly one sequence of draws. -/
theorem existsUnique_draws_fin
    (hval : Function.Injective val) (hok : ∀ i d, ok i d → val d ≤ i)
    (hall : ∀ i k, i ≤ m → k ≤ i → ∃ d, ok i d ∧ val d = k) (σ : Perm (Fin (m + 1))) :
  ∃! draws, (draws.length = m ∧ Draws ok draws) ∧ ∀ r : Fin (m + 1), perm val draws r = σ r
  := by
  obtain ⟨draws, ⟨hlength, hdraws, hperm⟩, hunique⟩ :=
    existsUnique_draws hval hok hall (fixesAbove_extend σ)
  refine ⟨draws, ⟨⟨hlength, hdraws⟩, ?_⟩, ?_⟩
  · rw [perm_eq_extend_iff hok hlength hdraws]
    exact hperm
  · rintro draws' ⟨⟨hlength', hdraws'⟩, hperm'⟩
    rw [perm_eq_extend_iff hok hlength' hdraws'] at hperm'
    apply hunique draws' ⟨hlength', hdraws', hperm'⟩

/-- When the largest number cannot be drawn first, every sequence of draws moves it. -/
theorem perm_apply_ne
    (hok : ∀ i d, ok i d → val d ≤ i) (hnot : ∀ d, ok m d → val d ≠ m) (hm : 0 < m)
    (hlength : draws.length = m) (h : Draws ok draws) :
  perm val draws m ≠ m
  := by
  cases draws with
  | nil =>
      rw [List.length_nil] at hlength
      omega
  | cons d ds =>
      obtain ⟨hd, hds⟩ := h
      have hfirst := perm_cons_apply hok d hds
      rw [List.length_cons] at hlength
      rw [hlength] at hfirst hd
      rw [hfirst]
      apply hnot d hd

/-! ### Lists -/

/-- The inverse of a permutation does not move the numbers that the permutation does not move. -/
theorem FixesAbove.inv (h : FixesAbove m σ) :
  FixesAbove m σ⁻¹
  := by
  intro k hk
  rw [Perm.inv_eq_iff_eq, h k hk]

/-- A permutation that moves no number above `m` lists the numbers up to `m` in another order. -/
theorem FixesAbove.map_range_perm {α : Type*} (h : FixesAbove m σ) (f : ℕ → α) :
  ((List.range (m + 1)).map fun k => f (σ k)).Perm ((List.range (m + 1)).map f)
  := by
  have hnumbers : ((List.range (m + 1)).map σ).Perm (List.range (m + 1)) := by
    rw [List.perm_ext_iff_of_nodup (List.nodup_range.map σ.injective) List.nodup_range]
    intro k
    rw [List.mem_map, List.mem_range]
    constructor
    · rintro ⟨j, hj, rfl⟩
      rw [List.mem_range] at hj
      have hle := h.apply_le (Nat.le_of_lt_succ hj)
      omega
    · intro hk
      have hle := h.inv.apply_le (Nat.le_of_lt_succ hk)
      use σ⁻¹ k
      rw [List.mem_range, ← Perm.mul_apply, mul_inv_cancel, Perm.one_apply]
      exact ⟨by omega, rfl⟩
  have hvalues := hnumbers.map f
  rwa [List.map_map] at hvalues

end Shuffle

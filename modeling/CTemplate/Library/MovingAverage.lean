import Mathlib.Algebra.Order.Field.Basic
import Mathlib.Data.List.Induction
import Mathlib.Tactic.FieldSimp
import Mathlib.Tactic.GCongr
import Mathlib.Tactic.Linarith
import Mathlib.Tactic.Positivity
import Mathlib.Tactic.Ring

/-!
# Moving averages

`decay β xs` weighs the numbers `xs`, each of them `β` times as much as the one after it.  The
weights have the sum `1 - β ^ xs.length`, by which `average β xs` divides: it lies between the
smallest and the largest of the numbers, `le_average` and `average_le`.  The square of an average
is bounded by an average of the squares that forgets more slowly, `sq_average_le`.
-/

namespace MovingAverage

universe u

variable {F : Type u} [Field F]

/-- The sum of the numbers with weights that decay by the factor `β`. -/
def decay (β : F) (xs : List F) : F :=
  xs.foldl (fun m x => β * m + (1 - β) * x) 0

/-- The sum of the weights of `n` numbers. -/
def weight (β : F) (n : ℕ) : F :=
  1 - β ^ n

/-- The average with weights that decay by the factor `β`. -/
def average (β : F) (xs : List F) : F :=
  decay β xs / weight β xs.length

theorem decay_concat (β : F) (xs : List F) (x : F) :
  decay β (xs ++ [x]) = β * decay β xs + (1 - β) * x
  := by
  rw [decay, List.foldl_append]
  rfl

theorem weight_succ (β : F) (n : ℕ) :
  weight β (n + 1) = β * weight β n + (1 - β)
  := by
  rw [weight, weight, pow_succ]
  ring

variable [LinearOrder F] [IsStrictOrderedRing F] {β γ a b : F} {xs : List F}

theorem weight_nonneg (h0 : 0 ≤ β) (h1 : β < 1) (n : ℕ) :
  0 ≤ weight β n
  := sub_nonneg.mpr (pow_le_one₀ h0 h1.le)

theorem weight_pos (h0 : 0 ≤ β) (h1 : β < 1) (hne : xs ≠ []) :
  0 < weight β xs.length
  := sub_pos.mpr (pow_lt_one₀ h0 h1 (List.length_pos_iff.mpr hne).ne')

/-! ### Bounds -/

theorem mul_weight_le (h0 : 0 ≤ β) (h1 : β < 1) (h : ∀ x ∈ xs, a ≤ x) :
  a * weight β xs.length ≤ decay β xs
  := by
  induction xs using List.reverseRecOn with
  | nil => simp [weight, decay]
  | append_singleton xs x ih =>
      have hxs := ih fun y hy => h y (List.mem_append_left _ hy)
      have hx : a ≤ x := h x (by simp)
      rw [decay_concat, List.length_append, List.length_singleton, weight_succ]
      have hfirst := mul_le_mul_of_nonneg_left hxs h0
      have hlast := mul_le_mul_of_nonneg_left hx (sub_nonneg.mpr h1.le)
      linarith

theorem decay_le_mul_weight (h0 : 0 ≤ β) (h1 : β < 1) (h : ∀ x ∈ xs, x ≤ b) :
  decay β xs ≤ b * weight β xs.length
  := by
  induction xs using List.reverseRecOn with
  | nil => simp [weight, decay]
  | append_singleton xs x ih =>
      have hxs := ih fun y hy => h y (List.mem_append_left _ hy)
      have hx : x ≤ b := h x (by simp)
      rw [decay_concat, List.length_append, List.length_singleton, weight_succ]
      have hfirst := mul_le_mul_of_nonneg_left hxs h0
      have hlast := mul_le_mul_of_nonneg_left hx (sub_nonneg.mpr h1.le)
      linarith

theorem le_average (h0 : 0 ≤ β) (h1 : β < 1) (hne : xs ≠ []) (h : ∀ x ∈ xs, a ≤ x) :
  a ≤ average β xs
  := (le_div_iff₀ (weight_pos h0 h1 hne)).mpr (mul_weight_le h0 h1 h)

theorem average_le (h0 : 0 ≤ β) (h1 : β < 1) (hne : xs ≠ []) (h : ∀ x ∈ xs, x ≤ b) :
  average β xs ≤ b
  := (div_le_iff₀ (weight_pos h0 h1 hne)).mpr (decay_le_mul_weight h0 h1 h)

theorem decay_nonneg (h0 : 0 ≤ β) (h1 : β < 1) (h : ∀ x ∈ xs, 0 ≤ x) :
  0 ≤ decay β xs
  := by
  have hle := mul_weight_le h0 h1 h
  rwa [zero_mul] at hle

/-! ### Averages of squares -/

/-- The inequality of Cauchy and Schwarz for one more number. -/
theorem sq_step {c m s g : F} (hc : 0 ≤ c) (hs : 0 ≤ s) (h : m ^ 2 ≤ c * s) (h0 : 0 ≤ β)
    (h1 : β < 1) :
  (β * m + (1 - β) * g) ^ 2 ≤ (β * c + (1 - β)) * (β * s + (1 - β) * g ^ 2)
  := by
  have hcross : 0 ≤ c * g ^ 2 + s - 2 * m * g := by
    rcases hc.eq_or_lt with rfl | hpos
    · rw [zero_mul] at h
      have hm : m = 0 := by
        have hm2 := le_antisymm h (sq_nonneg m)
        simpa using hm2
      rw [hm]
      linarith
    · have hscaled : 0 ≤ c * (c * g ^ 2 + s - 2 * m * g) := by
        have hsq := sq_nonneg (c * g - m)
        linarith
      exact nonneg_of_mul_nonneg_right hscaled hpos
  have hfirst := mul_nonneg (mul_nonneg h0 h0) (sub_nonneg.mpr h)
  have hlast := mul_nonneg (mul_nonneg h0 (sub_nonneg.mpr h1.le)) hcross
  linarith

theorem sq_decay_le (h0 : 0 ≤ β) (h1 : β < 1) (xs : List F) :
  decay β xs ^ 2 ≤ weight β xs.length * decay β (xs.map (· ^ 2))
  := by
  induction xs using List.reverseRecOn with
  | nil => simp [decay, weight]
  | append_singleton xs x ih =>
      have hsquares : ∀ y ∈ xs.map (· ^ 2), 0 ≤ y := by
        intro y hy
        obtain ⟨x, -, rfl⟩ := List.mem_map.mp hy
        exact sq_nonneg x
      rw [List.map_append, List.map_singleton, decay_concat, decay_concat, List.length_append,
        List.length_singleton, weight_succ]
      exact sq_step (weight_nonneg h0 h1 _) (decay_nonneg h0 h1 hsquares) ih h0 h1

/-- Of numbers that are not negative, one average is bounded by another one that forgets more
slowly. -/
theorem decay_le_decay (h0 : 0 ≤ β) (hle : β ≤ γ) (h1 : γ < 1) (h : ∀ x ∈ xs, 0 ≤ x) :
  (1 - γ) * decay β xs ≤ (1 - β) * decay γ xs
  := by
  induction xs using List.reverseRecOn with
  | nil => simp [decay]
  | append_singleton xs x ih =>
      have hxs : ∀ y ∈ xs, 0 ≤ y := fun y hy => h y (List.mem_append_left _ hy)
      have hsum := decay_nonneg (h0.trans hle) h1 hxs
      have hprev := mul_le_mul_of_nonneg_left (ih hxs) h0
      have hgrow := mul_le_mul_of_nonneg_right hle
        (mul_nonneg (sub_nonneg.mpr (hle.trans h1.le)) hsum)
      rw [decay_concat, decay_concat]
      linarith

/-- The square of an average is bounded by an average of the squares that forgets more slowly. -/
theorem sq_average_le (h0 : 0 ≤ β) (hle : β ≤ γ) (h1 : γ < 1) (hne : xs ≠ []) :
  (1 - γ) * average β xs ^ 2 ≤ (1 - β) * average γ (xs.map (· ^ 2))
  := by
  have hβ := hle.trans_lt h1
  have hsquares : ∀ y ∈ xs.map (· ^ 2), 0 ≤ y := by
    intro y hy
    obtain ⟨x, -, rfl⟩ := List.mem_map.mp hy
    exact sq_nonneg x
  have hpos := weight_pos h0 hβ hne
  have hpos' := weight_pos (h0.trans hle) h1 hne
  have hweight : weight γ xs.length ≤ weight β xs.length :=
    sub_le_sub_left (pow_le_pow_left₀ h0 hle _) 1
  have hsq : average β xs ^ 2 ≤ decay β (xs.map (· ^ 2)) / weight β xs.length := by
    rw [average, div_pow, div_le_div_iff₀ (pow_pos hpos 2) hpos, sq (weight β xs.length),
      ← mul_assoc]
    apply mul_le_mul_of_nonneg_right _ hpos.le
    rw [mul_comm]
    exact sq_decay_le h0 hβ xs
  have haverage : average γ (xs.map (· ^ 2))
      = decay γ (xs.map (· ^ 2)) / weight γ xs.length := by
    rw [average, List.length_map]
  rw [haverage]
  calc
    (1 - γ) * average β xs ^ 2
      ≤ (1 - γ) * (decay β (xs.map (· ^ 2)) / weight β xs.length) :=
        mul_le_mul_of_nonneg_left hsq (sub_nonneg.mpr h1.le)
    _ = (1 - γ) * decay β (xs.map (· ^ 2)) / weight β xs.length := (mul_div_assoc _ _ _).symm
    _ ≤ (1 - β) * decay γ (xs.map (· ^ 2)) / weight β xs.length :=
        div_le_div_of_nonneg_right (decay_le_decay h0 hle h1 hsquares) hpos.le
    _ ≤ (1 - β) * decay γ (xs.map (· ^ 2)) / weight γ xs.length := by
        apply div_le_div_of_nonneg_left _ hpos' hweight
        exact mul_nonneg (sub_nonneg.mpr hβ.le) (decay_nonneg (h0.trans hle) h1 hsquares)
    _ = (1 - β) * (decay γ (xs.map (· ^ 2)) / weight γ xs.length) := mul_div_assoc _ _ _

end MovingAverage

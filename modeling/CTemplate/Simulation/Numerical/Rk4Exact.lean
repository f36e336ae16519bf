import CTemplate.Library.Quadrature
import CTemplate.Library.Slots
import CTemplate.Simulation.Numerical.Rk4
import Mathlib.Data.Matrix.Mul

/-!
# Where a step of the Runge-Kutta method is exact

The stages `k1` to `k4` of `numerical_rk4_step` are parts of one block, which the stages write one
after the other and read back, `rk4Scratch`.  Whatever the block holds before, they do not disturb
each other, `rk4Scratch_eq`.

For a linear equation `y' = A * y` a step is the Taylor polynomial of degree four of the
exponential of `dt * A`.  Where the right-hand side is a polynomial in the time of degree at most
three, a step adds its integral.
-/

namespace CTemplate

open Matrix Polynomial

variable {F : Type} [Field F] {κ : Type} {n : ℕ}

/-! ### The block of the stages -/

/-- A call of an `OdeFunc` writes its `n` results to the block at `p`. -/
def storeStage (block : List F) (p : ℕ) (k : Fin n → F) : Option (List F) :=
  Buffer.write block p (List.ofFn k)

/-- The `n` values of the block at `p`. -/
def loadStage (n : ℕ) (block : List F) (p : ℕ) : Option (Fin n → F) :=
  (Buffer.read block p n).map fun row i => row.getD i.val 0

/-- The part of `numerical_rk4_step` that follows the allocations, where `block` is the block at
`k1`, or `none` when it accesses memory outside the block. -/
def rk4Scratch (f : OdeFunc F n κ) (t : F) (y : Fin n → F) (dt : F) (ctx : κ) (block : List F) :
    Option ((Fin n → F) × κ) :=
  let k1 := 0
  let k2 := k1 + n
  let k3 := k2 + n
  let k4 := k3 + n
  let (out, ctx) := f t y ctx
  (storeStage block k1 out).bind fun block =>
  (loadStage n block k1).bind fun k =>
  let tmp := fun i => y i + 0.5 * dt * k i
  let (out, ctx) := f (t + 0.5 * dt) tmp ctx
  (storeStage block k2 out).bind fun block =>
  (loadStage n block k2).bind fun k =>
  let tmp := fun i => y i + 0.5 * dt * k i
  let (out, ctx) := f (t + 0.5 * dt) tmp ctx
  (storeStage block k3 out).bind fun block =>
  (loadStage n block k3).bind fun k =>
  let tmp := fun i => y i + dt * k i
  let (out, ctx) := f (t + dt) tmp ctx
  (storeStage block k4 out).bind fun block =>
  (loadStage n block k1).bind fun k1 =>
  (loadStage n block k2).bind fun k2 =>
  (loadStage n block k3).bind fun k3 =>
  (loadStage n block k4).map fun k4 =>
    (fun i => y i + dt / 6.0 * (k1 i + 2.0 * k2 i + 2.0 * k3 i + k4 i), ctx)

/-- A stage that is stored is the one that is loaded, and the others stay. -/
theorem exists_storeStage
    {block : List F} (hblock : block.length = 4 * n) {j : ℕ} (hj : j < 4) (k : Fin n → F) :
  ∃ block', storeStage block (j * n) k = some block' ∧ block'.length = 4 * n
    ∧ loadStage n block' (j * n) = some k
    ∧ ∀ i < 4, i ≠ j → loadStage n block' (i * n) = loadStage n block (i * n)
  := by
  have hk : (List.ofFn k).length = n := List.length_ofFn
  have hlength := Slots.length_write hblock hj hk
  refine ⟨_, Slots.buffer_write hblock hj hk, hlength.trans hblock, ?_, ?_⟩
  · rw [loadStage, Slots.buffer_read (hlength.trans hblock) hj, Slots.read_write_self hblock hj hk]
    simp
  · intro i hi hij
    rw [loadStage, loadStage, Slots.buffer_read (hlength.trans hblock) hi,
      Slots.buffer_read hblock hi, Slots.read_write_of_ne hblock hj hk hij]

/-- The stages in one block are those of `rk4Advance`. -/
theorem rk4Scratch_eq
    (f : OdeFunc F n κ) (t : F) (y : Fin n → F) (dt : F) (ctx : κ) {block : List F}
    (hblock : block.length = 4 * n) :
  rk4Scratch f t y dt ctx block = some (rk4Advance f t y dt ctx)
  := by
  have hp1 : 0 = 0 * n := (Nat.zero_mul n).symm
  have hp2 : 0 * n + n = 1 * n := (Nat.succ_mul 0 n).symm
  have hp3 : 1 * n + n = 2 * n := (Nat.succ_mul 1 n).symm
  have hp4 : 2 * n + n = 3 * n := (Nat.succ_mul 2 n).symm
  simp only [rk4Scratch, rk4Advance]
  rw [hp1, hp2, hp3, hp4]
  rcases f t y ctx with ⟨k1, ctx⟩
  obtain ⟨block1, hstore1, hblock1, hload1, -⟩ := exists_storeStage hblock (by decide : 0 < 4) k1
  simp only [hstore1, hload1, Option.bind_some]
  rcases f (t + 0.5 * dt) (fun i => y i + 0.5 * dt * k1 i) ctx with ⟨k2, ctx⟩
  obtain ⟨block2, hstore2, hblock2, hload2, hkept2⟩ :=
    exists_storeStage hblock1 (by decide : 1 < 4) k2
  simp only [hstore2, hload2, Option.bind_some]
  rcases f (t + 0.5 * dt) (fun i => y i + 0.5 * dt * k2 i) ctx with ⟨k3, ctx⟩
  obtain ⟨block3, hstore3, hblock3, hload3, hkept3⟩ :=
    exists_storeStage hblock2 (by decide : 2 < 4) k3
  simp only [hstore3, hload3, Option.bind_some]
  rcases f (t + dt) (fun i => y i + dt * k3 i) ctx with ⟨k4, ctx⟩
  obtain ⟨block4, hstore4, -, hload4, hkept4⟩ := exists_storeStage hblock3 (by decide : 3 < 4) k4
  -- the stages before are still there
  have hlast1 : loadStage n block4 (0 * n) = some k1 := by
    rw [hkept4 0 (by decide) (by decide), hkept3 0 (by decide) (by decide),
      hkept2 0 (by decide) (by decide), hload1]
  have hlast2 : loadStage n block4 (1 * n) = some k2 := by
    rw [hkept4 1 (by decide) (by decide), hkept3 1 (by decide) (by decide), hload2]
  have hlast3 : loadStage n block4 (2 * n) = some k3 := by
    rw [hkept4 2 (by decide) (by decide), hload3]
  simp only [hstore4, Option.bind_some, hlast1, hlast2, hlast3, hload4, Option.map_some]

/-- A call of `numerical_rk4_step` that is granted both blocks advances the state. -/
theorem numericalRk4Step_granted
    {n : ℤ} (hn : 0 < n) {mallocs : Malloc × Malloc}
    (hfirst : mallocs.1.block (4 * n.toNat * doubleSize) ≠ none)
    (hsecond : mallocs.2.block (n.toNat * doubleSize) ≠ none) (f : OdeFunc F n.toNat κ) (t : F)
    (y : Fin n.toNat → F) (dt : F) (ctx : κ) :
  numericalRk4Step mallocs (some f) t ⟨some y, ctx⟩ dt
    = (.ok, ⟨some (rk4Advance f t y dt ctx).1, (rk4Advance f t y dt ctx).2⟩)
  := by
  simp only [numericalRk4Step, if_neg (not_le.mpr hn), if_neg hfirst, if_neg hsecond]

/-! ### Exact steps -/

/-- The equation `y' = A * y`. -/
def linearOde (A : Matrix (Fin n) (Fin n) F) : OdeFunc F n κ :=
  fun _ y ctx => (A *ᵥ y, ctx)

/-- The equation whose right-hand side is a polynomial in the time, one for each component. -/
noncomputable def timeOde (p : Fin n → F[X]) : OdeFunc F n κ :=
  fun t _ ctx => (fun i => (p i).eval t, ctx)

/-- A vector that a stage starts from. -/
theorem stage_eq (y k : Fin n → F) (s : F) : (fun i => y i + s * k i) = y + s • k :=
  rfl

variable [CharZero F]

/-- The constants of the method. -/
theorem rk4_constants : (0.5 : F) = 1 / 2 ∧ (2.0 : F) = 2 ∧ (6.0 : F) = 6 := by
  norm_num

/-- A step for a linear equation. -/
theorem rk4Advance_linearOde
    (A : Matrix (Fin n) (Fin n) F) (t : F) (y : Fin n → F) (dt : F) (ctx : κ) :
  rk4Advance (linearOde A) t y dt ctx
    = ((1 + dt • A + (1 / 2 : F) • (dt • A) ^ 2 + (1 / 6 : F) • (dt • A) ^ 3
      + (1 / 24 : F) • (dt • A) ^ 4) *ᵥ y, ctx)
  := by
  obtain ⟨hhalf, htwo, hsix⟩ := rk4_constants (F := F)
  simp only [rk4Advance, linearOde, stage_eq, mulVec_add, mulVec_smul, hhalf, htwo, hsix]
  have hpow : ∀ k, (dt • A) ^ (k + 1) *ᵥ y = dt • A *ᵥ ((dt • A) ^ k *ᵥ y) := by
    intro k
    rw [pow_succ', ← mulVec_mulVec, smul_mulVec]
  congr 1
  ext i
  simp only [add_mulVec, smul_mulVec, hpow, pow_zero, one_mulVec, mulVec_smul, Pi.add_apply,
    Pi.smul_apply, smul_eq_mul]
  ring

/-- A step for a right-hand side that is a polynomial in the time is Simpson's rule. -/
theorem rk4Advance_timeOde
    {p : Fin n → F[X]} (hp : ∀ i, (p i).natDegree ≤ 3) (t : F) (y : Fin n → F) (dt : F) (ctx : κ) :
  rk4Advance (timeOde p) t y dt ctx
    = (fun i => y i + Quadrature.integral (p i) t (t + dt), ctx)
  := by
  obtain ⟨hhalf, htwo, hsix⟩ := rk4_constants (F := F)
  simp only [rk4Advance, timeOde, hhalf, htwo, hsix]
  congr 1
  ext i
  have hpanel := Quadrature.simpson_panel (hp i) t (1 / 2 * dt)
  have hend : t + 2 * (1 / 2 * dt) = t + dt := by
    ring
  rw [hend] at hpanel
  rw [← hpanel]
  ring

/-- Let the allocations of a call of `numerical_rk4_step` succeed, whatever the block of the stages
holds then.  For a linear equation the call multiplies `y` by the Taylor polynomial of degree four
of the exponential.  For a right-hand side that is a polynomial in the time of degree at most
three, it adds the integral over the step. -/
theorem numericalRk4Step_exact
    {n : ℤ} (hn : 0 < n) {mallocs : Malloc × Malloc}
    (hfirst : mallocs.1.block (4 * n.toNat * doubleSize) ≠ none)
    (hsecond : mallocs.2.block (n.toNat * doubleSize) ≠ none) (t : F) (y : Fin n.toNat → F)
    (dt : F) (ctx : κ) :
  (∀ A, numericalRk4Step mallocs (some (linearOde A)) t ⟨some y, ctx⟩ dt
      = (.ok, ⟨some ((1 + dt • A + (1 / 2 : F) • (dt • A) ^ 2 + (1 / 6 : F) • (dt • A) ^ 3
        + (1 / 24 : F) • (dt • A) ^ 4) *ᵥ y), ctx⟩))
    ∧ (∀ p, (∀ i, (p i).natDegree ≤ 3) →
      numericalRk4Step mallocs (some (timeOde p)) t ⟨some y, ctx⟩ dt
        = (.ok, ⟨some fun i => y i + Quadrature.integral (p i) t (t + dt), ctx⟩))
    ∧ ∀ (f : OdeFunc F n.toNat κ) block, block.length = 4 * n.toNat →
      ∃ y' ctx', rk4Scratch f t y dt ctx block = some (y', ctx')
        ∧ numericalRk4Step mallocs (some f) t ⟨some y, ctx⟩ dt = (.ok, ⟨some y', ctx'⟩)
  := by
  refine ⟨?_, ?_, ?_⟩
  · intro A
    rw [numericalRk4Step_granted hn hfirst hsecond, rk4Advance_linearOde]
  · intro p hp
    rw [numericalRk4Step_granted hn hfirst hsecond, rk4Advance_timeOde hp]
  · intro f block hblock
    use (rk4Advance f t y dt ctx).1, (rk4Advance f t y dt ctx).2
    rw [rk4Scratch_eq f t y dt ctx hblock, numericalRk4Step_granted hn hfirst hsecond]
    exact ⟨rfl, rfl⟩

/-- A step of the size `1` for `y' = y`. -/
theorem numericalRk4Step_growth :
  numericalRk4Step (.upTo 64, .upTo 64) (some (linearOde 1)) 0
      (⟨some fun _ => 1, ()⟩ : OdeState ℚ (1 : ℤ).toNat Unit) 1
    = (.ok, ⟨some fun _ => 65 / 24, ()⟩)
  := by
  rw [(numericalRk4Step_exact (by decide) (by decide) (by decide) 0 (fun _ => 1) 1 ()).1]
  have hvector : (1 + (1 : ℚ) • (1 : Matrix (Fin (1 : ℤ).toNat) (Fin (1 : ℤ).toNat) ℚ)
        + (1 / 2 : ℚ) • ((1 : ℚ) • 1) ^ 2 + (1 / 6 : ℚ) • ((1 : ℚ) • 1) ^ 3
        + (1 / 24 : ℚ) • ((1 : ℚ) • 1) ^ 4) *ᵥ (fun _ => 1)
      = fun _ => 65 / 24 := by
    ext i
    simp only [one_smul, one_pow, add_mulVec, smul_mulVec, one_mulVec, Pi.add_apply, Pi.smul_apply,
      smul_eq_mul]
    norm_num
  rw [hvector]

end CTemplate

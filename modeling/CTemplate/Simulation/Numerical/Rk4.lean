import CTemplate.Core.Error
import CTemplate.Core.Memory
import Mathlib.Algebra.BigOperators.Group.List.Basic
import Mathlib.Algebra.Order.Floor.Ring
import Mathlib.Data.Rat.Floor
import Mathlib.Tactic.Linarith
import Mathlib.Tactic.NormNum
import Mathlib.Tactic.Ring

/-!
# Integration of ordinary differential equations

`numerical_rk4_step` and `numerical_rk4_integrate` of `simulation/numerical.c`, in exact
arithmetic: a `double` is an element of an ordered field.

The loop of `numerical_rk4_integrate` stops as soon as at most half a step is left, so that it
ends at the time `t1` exactly when the rest of `t1 - t0` after the full steps is zero or more than
half a step, `numericalRk4Integrate_reaches_iff`.
-/

namespace CTemplate

variable {F : Type} [Field F] {κ : Type}

/-- `OdeFunc`, for a system of dimension `n`: what the call writes to `dydt`, and what `ctx`
points to afterwards. -/
abbrev OdeFunc (F : Type) (n : ℕ) (κ : Type) : Type :=
  F → (Fin n → F) → κ → (Fin n → F) × κ

/-- The size of a `double`. -/
def doubleSize : ℕ := 8

/-- The part of `numerical_rk4_step` that follows the allocations. -/
def rk4Advance {n : ℕ} (f : OdeFunc F n κ) (t : F) (y : Fin n → F) (dt : F) (ctx : κ) :
    (Fin n → F) × κ :=
  let (k1, ctx) := f t y ctx
  let tmp := fun i => y i + 0.5 * dt * k1 i
  let (k2, ctx) := f (t + 0.5 * dt) tmp ctx
  let tmp := fun i => y i + 0.5 * dt * k2 i
  let (k3, ctx) := f (t + 0.5 * dt) tmp ctx
  let tmp := fun i => y i + dt * k3 i
  let (k4, ctx) := f (t + dt) tmp ctx
  (fun i => y i + dt / 6.0 * (k1 i + 2.0 * k2 i + 2.0 * k3 i + k4 i), ctx)

/-- What the pointers `y` and `ctx` point to, where `y` may be a null pointer. -/
structure OdeState (F : Type) (n : ℕ) (κ : Type) where
  y : Option (Fin n → F)
  ctx : κ

/-- `numerical_rk4_step`: the code returned and the state after the call, where `mallocs` are its
two allocations. -/
def numericalRk4Step (mallocs : Malloc × Malloc) {n : ℤ} (f : Option (OdeFunc F n.toNat κ)) (t : F)
    (s : OdeState F n.toNat κ) (dt : F) : ErrorCode × OdeState F n.toNat κ :=
  match f, s.y with
  | some f, some y =>
      if n ≤ 0 then (.invalidArg, s)
      else if mallocs.1.block (4 * n.toNat * doubleSize) = none then (.nomem, s)
      else if mallocs.2.block (n.toNat * doubleSize) = none then (.nomem, s)
      else
        let (y, ctx) := rk4Advance f t y dt s.ctx
        (.ok, { y := some y, ctx })
  | _, _ => (.invalidArg, s)

/-- A run of `numerical_rk4_integrate`: the code returned, the state it leaves, the time `t` and
the sizes of the steps that succeeded. -/
structure OdeRun (F : Type) (n : ℕ) (κ : Type) where
  err : ErrorCode
  state : OdeState F n κ
  t : F
  steps : List F

variable [LinearOrder F]

/-- The loop of `numerical_rk4_integrate`, or `none` when it makes more than `fuel` turns.  The
allocations of a step are those for the number of steps before it. -/
def rk4Loop (mallocs : ℕ → Malloc × Malloc) {n : ℤ} (f : Option (OdeFunc F n.toNat κ)) (t1 dt : F) :
    ℕ → OdeRun F n.toNat κ → Option (OdeRun F n.toNat κ)
  | 0, _ => none
  | fuel + 1, r =>
      if r.t < t1 - dt * 0.5 then
        let step := if t1 < r.t + dt then t1 - r.t else dt
        match numericalRk4Step (mallocs r.steps.length) f r.t r.state step with
        | (.ok, state) =>
            rk4Loop mallocs f t1 dt fuel
              { r with state, t := r.t + step, steps := r.steps ++ [step] }
        | (err, state) => some { r with err, state }
      else some { r with err := .ok }

/-- `numerical_rk4_integrate`, or `none` when its loop makes more than `fuel` turns. -/
def numericalRk4Integrate (fuel : ℕ) (mallocs : ℕ → Malloc × Malloc) {n : ℤ}
    (f : Option (OdeFunc F n.toNat κ)) (t0 t1 : F) (s : OdeState F n.toNat κ) (dt : F) :
    Option (OdeRun F n.toNat κ) :=
  if f.isNone ∨ s.y.isNone ∨ n ≤ 0 ∨ dt ≤ 0 then
    some { err := .invalidArg, state := s, t := t0, steps := [] }
  else rk4Loop mallocs f t1 dt fuel { err := .ok, state := s, t := t0, steps := [] }

/-! ### The steps of a run -/

/-- The state and the time that steps of the given sizes lead to. -/
def rk4Path {F : Type} [Field F] {n : ℕ} (f : OdeFunc F n κ) :
    List F → F → (Fin n → F) → κ → F × (Fin n → F) × κ
  | [], t, y, ctx => (t, y, ctx)
  | step :: steps, t, y, ctx =>
      let (y, ctx') := rk4Advance f t y step ctx
      rk4Path f steps (t + step) y ctx'

theorem rk4Path_time
    {F : Type} [Field F] {n : ℕ} (f : OdeFunc F n κ) (steps : List F) (t : F) (y : Fin n → F)
    (ctx : κ) :
  (rk4Path f steps t y ctx).1 = t + steps.sum
  := by
  induction steps generalizing t y ctx with
  | nil => exact (add_zero t).symm
  | cons step steps ih =>
    rw [rk4Path, ih, List.sum_cons, add_assoc]

/-- The sizes of the steps from the time `t` when `full` steps of the size `dt` fit in: these, and
one more when more than half a step is left. -/
def gridSteps (t1 dt : F) : ℕ → F → List F
  | 0, t => if t < t1 - dt * 0.5 then [t1 - t] else []
  | full + 1, t => dt :: gridSteps t1 dt full (t + dt)

section Grid

variable [IsStrictOrderedRing F] {t t1 dt : F} {full : ℕ}

/-- The steps are positive and not longer than `dt`. -/
theorem gridSteps_bounds
    (hdt : 0 < dt) (hnext : t1 < t + (full + 1) * dt) :
  ∀ step ∈ gridSteps t1 dt full t, 0 < step ∧ step ≤ dt
  := by
  induction full generalizing t with
  | zero =>
    intro step hstep
    rw [gridSteps] at hstep
    split at hstep
    case isTrue hguard =>
      rw [List.mem_singleton] at hstep
      rw [Nat.cast_zero] at hnext
      constructor <;> linarith
    case isFalse => cases hstep
  | succ full ih =>
    intro step hstep
    rw [gridSteps, List.mem_cons] at hstep
    rcases hstep with rfl | hstep
    · exact ⟨hdt, le_rfl⟩
    · apply ih _ step hstep
      push_cast at hnext
      linarith

/-- The steps cover the time to `t1` when nothing or more than half a step is left after the full
ones. -/
theorem sum_gridSteps_iff (t t1 dt : F) (full : ℕ) :
  (gridSteps t1 dt full t).sum = t1 - t
    ↔ t1 - (t + full * dt) = 0 ∨ dt / 2 < t1 - (t + full * dt)
  := by
  induction full generalizing t with
  | zero =>
    have hhalf : t < t1 - dt * 0.5 ↔ dt / 2 < t1 - t := by
      constructor <;> intro h <;> linarith
    rw [gridSteps, Nat.cast_zero, zero_mul, add_zero, ← hhalf]
    split
    case isTrue hguard =>
      rw [List.sum_singleton]
      apply iff_of_true rfl (.inr hguard)
    case isFalse hguard =>
      rw [List.sum_nil, eq_comm]
      exact (or_iff_left hguard).symm
  | succ full ih =>
    have hsum : dt + (gridSteps t1 dt full (t + dt)).sum = t1 - t
        ↔ (gridSteps t1 dt full (t + dt)).sum = t1 - (t + dt) := by
      constructor <;> intro h <;> linarith
    have hleft : t1 - (t + (full + 1 : ℕ) * dt) = t1 - (t + dt + full * dt) := by
      push_cast
      ring
    rw [gridSteps, List.sum_cons, hsum, ih, hleft]

end Grid

/-! ### Runs whose steps succeed -/

section Runs

variable [IsStrictOrderedRing F] {n : ℤ} {mallocs : ℕ → Malloc × Malloc}
  {f : OdeFunc F n.toNat κ} {t0 t1 dt : F}

/-- A step that succeeds advances the state. -/
theorem numericalRk4Step_of_ok
    {F : Type} [Field F] {n : ℤ} {f : OdeFunc F n.toNat κ} {mallocs : Malloc × Malloc} {t : F}
    {y : Fin n.toNat → F} {ctx : κ} {step : F}
    (h : (numericalRk4Step mallocs (some f) t ⟨some y, ctx⟩ step).1 = .ok) :
  0 < n ∧ numericalRk4Step mallocs (some f) t ⟨some y, ctx⟩ step
    = (.ok, ⟨some (rk4Advance f t y step ctx).1, (rk4Advance f t y step ctx).2⟩)
  := by
  simp only [numericalRk4Step] at h ⊢
  split at h
  · cases h
  next hn =>
  split at h
  · cases h
  next hfirst =>
  split at h
  · cases h
  next hsecond =>
  rw [if_neg hn, if_neg hfirst, if_neg hsecond]
  exact ⟨not_le.mp hn, rfl⟩

/-- All calls of `numerical_rk4_step` with these pointers and allocations succeed. -/
def Rk4StepsSucceed (mallocs : ℕ → Malloc × Malloc) (f : OdeFunc F n.toNat κ) : Prop :=
  ∀ k t y ctx step, (numericalRk4Step (mallocs k) (some f) t ⟨some y, ctx⟩ step).1 = .ok

/-- The loop makes the steps of `gridSteps` and returns `ERR_OK`. -/
theorem rk4Loop_eq
    (hsteps : Rk4StepsSucceed mallocs f) (hdt : 0 < dt) {full fuel : ℕ} (hfuel : full + 2 ≤ fuel)
    {t : F} (hfull : t + full * dt ≤ t1) (hnext : t1 < t + (full + 1) * dt)
    (y : Fin n.toNat → F) (ctx : κ) (done : List F) :
  rk4Loop mallocs (some f) t1 dt fuel ⟨.ok, ⟨some y, ctx⟩, t, done⟩
    = some ⟨.ok,
        ⟨some (rk4Path f (gridSteps t1 dt full t) t y ctx).2.1,
          (rk4Path f (gridSteps t1 dt full t) t y ctx).2.2⟩,
        (rk4Path f (gridSteps t1 dt full t) t y ctx).1, done ++ gridSteps t1 dt full t⟩
  := by
  induction full generalizing fuel t y ctx done with
  | zero =>
    obtain ⟨fuel, rfl⟩ := Nat.exists_eq_add_of_le' hfuel
    rw [Nat.cast_zero] at hfull hnext
    rw [gridSteps, rk4Loop]
    dsimp only
    split
    case isTrue hguard =>
      obtain ⟨-, hstep⟩ := numericalRk4Step_of_ok (hsteps done.length t y ctx (t1 - t))
      have hstop : ¬t + (t1 - t) < t1 - dt * 0.5 := by
        linarith
      rw [if_pos (by linarith), hstep]
      dsimp only
      rw [rk4Loop, if_neg hstop]
      rfl
    case isFalse hguard =>
      rw [rk4Path, List.append_nil]
  | succ full ih =>
    obtain ⟨fuel, rfl⟩ := Nat.exists_eq_add_of_le' hfuel
    push_cast at hfull hnext
    have hpos : 0 ≤ (full : F) * dt := by
      positivity
    obtain ⟨-, hstep⟩ := numericalRk4Step_of_ok (hsteps done.length t y ctx dt)
    rw [show fuel + (full + 1 + 2) = fuel + full + 2 + 1 by omega, rk4Loop, if_pos (by linarith)]
    dsimp only
    rw [if_neg (by linarith), hstep]
    dsimp only
    rw [ih (by omega) (by linarith) (by linarith), gridSteps, rk4Path, List.append_assoc]
    rfl

/-- What a run is to do: it returns `ERR_OK`, its steps are positive, not longer than `dt` and
add up to `t1 - t0`, and they lead to the state it leaves, which is that at the time `t1`. -/
structure ReachesEnd (f : OdeFunc F n.toNat κ) (t0 t1 : F) (y : Fin n.toNat → F) (ctx : κ) (dt : F)
    (run : OdeRun F n.toNat κ) : Prop where
  ok : run.err = .ok
  bounds : ∀ step ∈ run.steps, 0 < step ∧ step ≤ dt
  sum : run.steps.sum = t1 - t0
  state : ∃ y', run.state.y = some y'
    ∧ rk4Path f run.steps t0 y ctx = (t1, y', run.state.ctx)

/-- When all steps succeed, the integration makes finitely many steps, returns `ERR_OK`, and its
steps are positive and not longer than `dt`.  They reach the time `t1` exactly when the rest of
`(t1 - t0) / dt` is zero or more than `1 / 2`. -/
theorem numericalRk4Integrate_reaches_iff
    [FloorRing F] (hsteps : Rk4StepsSucceed mallocs f) (ht : t0 ≤ t1) (hdt : 0 < dt)
    (y : Fin n.toNat → F) (ctx : κ) :
  ∃ fuel run,
    (∀ fuel' ≥ fuel,
      numericalRk4Integrate fuel' mallocs (some f) t0 t1 ⟨some y, ctx⟩ dt = some run)
    ∧ run.err = .ok
    ∧ (∀ step ∈ run.steps, 0 < step ∧ step ≤ dt)
    ∧ (ReachesEnd f t0 t1 y ctx dt run
        ↔ Int.fract ((t1 - t0) / dt) = 0 ∨ 1 / 2 < Int.fract ((t1 - t0) / dt))
  := by
  obtain ⟨hn, -⟩ := numericalRk4Step_of_ok (hsteps 0 t0 y ctx dt)
  have hq : 0 ≤ (t1 - t0) / dt := div_nonneg (sub_nonneg.mpr ht) hdt.le
  have hfull : t0 + (⌊(t1 - t0) / dt⌋₊ : F) * dt ≤ t1 := by
    have hle := (le_div_iff₀ hdt).mp (Nat.floor_le hq)
    linarith
  have hnext : t1 < t0 + ((⌊(t1 - t0) / dt⌋₊ : F) + 1) * dt := by
    have hlt := (div_lt_iff₀ hdt).mp (Nat.lt_floor_add_one ((t1 - t0) / dt))
    linarith
  have hrest : t1 - (t0 + (⌊(t1 - t0) / dt⌋₊ : F) * dt) = Int.fract ((t1 - t0) / dt) * dt := by
    rw [Int.fract, natCast_floor_eq_intCast_floor hq, sub_mul, div_mul_cancel₀ _ hdt.ne']
    ring
  let steps := gridSteps t1 dt ⌊(t1 - t0) / dt⌋₊ t0
  let path := rk4Path f steps t0 y ctx
  have hrun : ∀ fuel ≥ ⌊(t1 - t0) / dt⌋₊ + 2,
      numericalRk4Integrate fuel mallocs (some f) t0 t1 ⟨some y, ctx⟩ dt
        = some ⟨.ok, ⟨some path.2.1, path.2.2⟩, path.1, steps⟩ := by
    intro fuel hfuel
    rw [numericalRk4Integrate, if_neg (by simp [hn, hdt]), rk4Loop_eq hsteps hdt hfuel hfull hnext]
    rfl
  have hbounds : ∀ step ∈ steps, 0 < step ∧ step ≤ dt := gridSteps_bounds hdt hnext
  have hsum : steps.sum = t1 - t0
      ↔ Int.fract ((t1 - t0) / dt) = 0 ∨ 1 / 2 < Int.fract ((t1 - t0) / dt) := by
    have hhalf : dt / 2 = 1 / 2 * dt := by
      ring
    rw [sum_gridSteps_iff, hrest, mul_eq_zero, or_iff_left hdt.ne', hhalf,
      mul_lt_mul_iff_left₀ hdt]
  refine ⟨_, _, hrun, rfl, hbounds, ?_⟩
  rw [← hsum]
  constructor
  · intro h
    exact h.sum
  · intro h
    have hpath : path.1 = t1 := by
      rw [rk4Path_time, h, add_sub_cancel]
    use rfl, hbounds, h, path.2.1, rfl
    exact Prod.ext hpath rfl

/-- The equation `y' = y`, of dimension one. -/
def growth : OdeFunc ℚ (1 : ℤ).toNat Unit :=
  fun _ y ctx => (y, ctx)

theorem growth_stepsSucceed :
  Rk4StepsSucceed (fun _ => (.upTo 64, .upTo 64)) growth
  := by
  intro k t y ctx step
  simp [numericalRk4Step, Malloc.upTo, doubleSize]

/-- From `0` to `2` with steps of the size `1`, the time `2` is reached. -/
theorem growth_reaches :
  ∃ run, (∃ fuel, numericalRk4Integrate fuel (fun _ => (.upTo 64, .upTo 64)) (some growth) 0 2
      ⟨some fun _ => 1, ()⟩ 1 = some run)
    ∧ ReachesEnd growth 0 2 (fun _ => 1) () 1 run
  := by
  obtain ⟨fuel, run, hrun, -, -, hiff⟩ := numericalRk4Integrate_reaches_iff growth_stepsSucceed
    (show (0 : ℚ) ≤ 2 by norm_num) (show (0 : ℚ) < 1 by norm_num) (fun _ => 1) ()
  have hfract : Int.fract ((2 - 0) / 1 : ℚ) = 0 := by
    norm_num
  exact ⟨run, ⟨fuel, hrun fuel le_rfl⟩, hiff.mpr (.inl hfract)⟩

/-- From `0` to `1/4` with steps of the size `1`, no step is made: `ERR_OK` is returned with the
state at the time `0`. -/
theorem growth_stops_early :
  Rk4StepsSucceed (fun _ => (.upTo 64, .upTo 64)) growth ∧ (0 : ℚ) ≤ 1 / 4 ∧ (0 : ℚ) < 1
    ∧ ∃ run, (∃ fuel, numericalRk4Integrate fuel (fun _ => (.upTo 64, .upTo 64)) (some growth) 0
        (1 / 4) ⟨some fun _ => 1, ()⟩ 1 = some run)
      ∧ run.err = .ok ∧ run.steps = [] ∧ run.t = 0
      ∧ ¬ReachesEnd growth 0 (1 / 4) (fun _ => 1) () 1 run
  := by
  refine ⟨growth_stepsSucceed, by norm_num, by norm_num,
    ⟨.ok, ⟨some fun _ => 1, ()⟩, 0, []⟩, ⟨1, ?_⟩, rfl, rfl, rfl, ?_⟩
  · norm_num [numericalRk4Integrate, rk4Loop]
  · intro h
    have hsum := h.sum
    norm_num at hsum

end Runs

end CTemplate

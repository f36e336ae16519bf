import Mathlib.Data.Nat.Notation

/-!
# Loops that run until they are left

A turn of a loop is a partial function `step`: it goes on with another state, leaves the loop with
a result, or has no meaning.  `run step fuel s` runs the loop from the state `s` for at most `fuel`
turns.

* A loop whose invariant says how many turns may be left ends, `exists_run`.
* What a loop leaves its invariant with is its result, `run_invariant`.
* A loop with an invariant under which no turn leaves it has no result, however many turns it
  may take, `run_eq_none`.
* A loop whose turns mean the same where they mean anything has the same result, `run_mono`, and
  so has a loop whose turns are the same under an invariant, `run_congr`.
-/

namespace While

universe u v

variable {σ : Type u} {ρ : Type v} {step step' : σ → Option (σ ⊕ ρ)} {s s' : σ} {r : ρ}

/-- Run a loop from the state `s` for at most `fuel` turns. -/
def run (step : σ → Option (σ ⊕ ρ)) : ℕ → σ → Option ρ
  | 0, _ => none
  | fuel + 1, s =>
      (step s).bind fun
        | .inl s => run step fuel s
        | .inr r => some r

theorem run_of_inl (h : step s = some (.inl s')) (fuel : ℕ) :
  run step (fuel + 1) s = run step fuel s'
  := by
  rw [run, h, Option.bind_some]

theorem run_of_inr (h : step s = some (.inr r)) (fuel : ℕ) :
  run step (fuel + 1) s = some r
  := by
  rw [run, h, Option.bind_some]

theorem run_of_none (h : step s = none) (fuel : ℕ) :
  run step fuel s = none
  := by
  cases fuel with
  | zero => rfl
  | succ fuel => rw [run, h, Option.bind_none]

/-- A loop ends when its invariant gives a number of turns, which every turn lowers. -/
theorem exists_run
    {I : ℕ → σ → Prop} {Q : ρ → Prop}
    (hstep : ∀ m s, I m s → (∃ r, step s = some (.inr r) ∧ Q r)
      ∨ ∃ s', step s = some (.inl s') ∧ ∃ m' < m, I m' s')
    {m fuel : ℕ} (hI : I m s) (hfuel : m < fuel) :
  ∃ r, run step fuel s = some r ∧ Q r
  := by
  induction fuel generalizing m s with
  | zero => exact absurd hfuel (Nat.not_lt_zero m)
  | succ fuel ih =>
      rcases hstep m s hI with ⟨r, hr, hQ⟩ | ⟨s', hs', m', hm', hI'⟩
      · exact ⟨r, run_of_inr hr fuel, hQ⟩
      · rw [run_of_inl hs']
        apply ih hI'
        apply Nat.lt_of_lt_of_le hm' (Nat.le_of_lt_succ hfuel)

/-- More turns do not change the result. -/
theorem run_of_le
    {fuel fuel' : ℕ} (hrun : run step fuel s = some r) (hle : fuel ≤ fuel') :
  run step fuel' s = some r
  := by
  induction fuel generalizing s fuel' with
  | zero => cases hrun
  | succ fuel ih =>
      obtain ⟨fuel', rfl⟩ := Nat.exists_eq_succ_of_ne_zero
        (Nat.ne_of_gt (Nat.lt_of_lt_of_le (Nat.succ_pos fuel) hle))
      rw [run] at hrun ⊢
      cases hs : step s with
      | none =>
          rw [hs] at hrun
          cases hrun
      | some x =>
          rw [hs, Option.bind_some] at hrun
          rw [Option.bind_some]
          cases x with
          | inl s' => apply ih hrun (Nat.le_of_succ_le_succ hle)
          | inr r' => exact hrun

/-- What holds when an invariant is left holds of the result. -/
theorem run_invariant
    {I : σ → Prop} {Q : ρ → Prop} (hkeep : ∀ s s', I s → step s = some (.inl s') → I s')
    (hleave : ∀ s r, I s → step s = some (.inr r) → Q r) (hI : I s) {fuel : ℕ}
    (hrun : run step fuel s = some r) :
  Q r
  := by
  induction fuel generalizing s with
  | zero => cases hrun
  | succ fuel ih =>
      cases hs : step s with
      | none =>
          rw [run_of_none hs] at hrun
          cases hrun
      | some x =>
          cases x with
          | inl s' =>
              rw [run_of_inl hs] at hrun
              apply ih (hkeep s s' hI hs) hrun
          | inr r' =>
              rw [run_of_inr hs] at hrun
              cases hrun
              apply hleave s r hI hs

/-- A loop has no result when no turn leaves it. -/
theorem run_eq_none
    {I : σ → Prop} (hstep : ∀ s, I s → step s = none ∨ ∃ s', step s = some (.inl s') ∧ I s')
    (hI : I s) (fuel : ℕ) :
  run step fuel s = none
  := by
  induction fuel generalizing s with
  | zero => rfl
  | succ fuel ih =>
      rcases hstep s hI with hnone | ⟨s', hs', hI'⟩
      · apply run_of_none hnone
      · rw [run_of_inl hs']
        apply ih hI'

/-- A result stays when turns that have no meaning are given one. -/
theorem run_mono
    (h : ∀ s x, step s = some x → step' s = some x) {fuel : ℕ} (hrun : run step fuel s = some r) :
  run step' fuel s = some r
  := by
  induction fuel generalizing s with
  | zero => cases hrun
  | succ fuel ih =>
      cases hs : step s with
      | none =>
          rw [run_of_none hs] at hrun
          cases hrun
      | some x =>
          cases x with
          | inl s' =>
              rw [run_of_inl hs] at hrun
              rw [run_of_inl (h s _ hs)]
              apply ih hrun
          | inr r' =>
              rw [run_of_inr hs] at hrun
              rw [run_of_inr (h s _ hs), hrun]

/-- Loops whose turns are the same in all states that they come to have the same result. -/
theorem run_congr
    {I : σ → Prop}
    (hstep : ∀ s, I s → step s = step' s ∧ ∀ s', step' s = some (.inl s') → I s') (hI : I s)
    (fuel : ℕ) :
  run step fuel s = run step' fuel s
  := by
  induction fuel generalizing s with
  | zero => rfl
  | succ fuel ih =>
      obtain ⟨heq, hkeep⟩ := hstep s hI
      rw [run, run, heq]
      cases hs : step' s with
      | none => rfl
      | some x =>
          cases x with
          | inl s' => apply ih (hkeep s' hs)
          | inr r => rfl

end While

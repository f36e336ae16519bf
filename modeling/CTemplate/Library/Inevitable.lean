import CTemplate.Library.StateMachine

/-!
# States that runs come to

`Inevitable` says that a final state comes after finitely many steps, however they are chosen.
It follows from an invariant under which every step lowers a rank and a state that is not final
has a step, `Reaches.inevitable_of_invariant`, and it fails in a state that is stuck,
`not_inevitable_of_stuck`.
-/

universe u v

namespace StateMachine

variable {σ : Type u} {ε : Type v} {M : StateMachine σ ε} {final : σ → Prop} {s : σ}

/-- When a property that steps keep makes every step lower a rank, and gives a step from every
state that is not final, a final state is inevitable. -/
theorem inevitable_of_invariant
    {I : σ → Prop} (rank : σ → ℕ) (keep : ∀ s e s', I s → M.step s e s' → I s')
    (lower : ∀ s e s', I s → M.step s e s' → rank s' < rank s)
    (progress : ∀ s, I s → ¬final s → ∃ e s', M.step s e s') (h : I s) :
  M.Inevitable final s
  := by
  induction hr : rank s using Nat.strongRecOn generalizing s with
  | _ r ih =>
    subst hr
    by_cases hfinal : final s
    · exact .now hfinal
    · apply Inevitable.later (progress s h hfinal)
      intro e s' hstep
      apply ih _ (lower s e s' h hstep) (keep s e s' h hstep) rfl

/-- No final state comes after a state that is stuck and not final. -/
theorem not_inevitable_of_stuck (hfinal : ¬final s) (hstuck : ∀ e s', ¬M.step s e s') :
  ¬M.Inevitable final s
  := by
  rintro (hnow | ⟨⟨e, s', hstep⟩, -⟩)
  · exact hfinal hnow
  · exact hstuck e s' hstep

end StateMachine

import Mathlib.Data.List.Basic

/-!
# State machines

A `StateMachine σ ε` has states `σ` and steps, each of which emits at most one event
of type `ε`.  `M.Steps s log s'` holds when finitely many steps lead from `s` to `s'`
and emit the events `log`, and `M.Reaches log s` when they start at an initial state.

* A property of logs and states that holds initially and is kept by every step holds
  of every reachable state, `Reaches.invariant`.
* The state in which an event of a log was emitted is itself reachable,
  `Reaches.split`.
* A forward simulation carries the logs of one machine to the logs of another,
  `Simulation.reaches`; when each step is followed by one step, `Refinement.reaches`.
* A final state is inevitable when every step lowers a rank and no other state is stuck,
  `Reaches.inevitable`.
* A machine whose step is a function of a choice, `ofStep`, can be run on a list of
  choices, and what the run gives is reachable, `reaches_of_run`.
* Calls on an object, each of which changes it and returns something, give the same results
  on a machine that represents the object, `run_of_rel`.
* The same calls on two objects give the same results as long as none of them reveals what is
  different about the objects, `callAll_eq_iff`.
-/

universe u v u' v' w

/-- A machine with states `σ` whose steps emit at most one event of type `ε` each. -/
structure StateMachine (σ : Type u) (ε : Type v) where
  /-- The initial states. -/
  init : σ → Prop
  /-- `step s e s'`: a step leads from `s` to `s'` and emits the events of `e`. -/
  step : σ → Option ε → σ → Prop

namespace StateMachine

variable {σ : Type u} {ε : Type v} {τ : Type u'} {δ : Type v'}

/-- `M.Steps s log s'`: finitely many steps of `M` lead from `s` to `s'` and emit
`log`. -/
inductive Steps (M : StateMachine σ ε) (s : σ) : List ε → σ → Prop where
  | refl : Steps M s [] s
  | snoc {log : List ε} {s' s'' : σ} {e : Option ε} (before : Steps M s log s')
      (last : M.step s' e s'') : Steps M s (log ++ e.toList) s''

/-- `M.Reaches log s`: steps of `M` from an initial state lead to `s` and emit `log`. -/
def Reaches (M : StateMachine σ ε) (log : List ε) (s : σ) : Prop :=
  ∃ s₀, M.init s₀ ∧ M.Steps s₀ log s

variable {M : StateMachine σ ε}

/-! ### Invariants -/

/-- A property of the log and the state that holds at the start and is kept by every
step holds after any number of steps. -/
theorem Steps.invariant
    {s s' : σ} {log : List ε} (h : M.Steps s log s') {I : List ε → σ → Prop}
    (start : I [] s)
    (keep : ∀ log t e t', M.Steps s log t → I log t → M.step t e t' →
      I (log ++ e.toList) t') :
  I log s'
  := by
  induction h with
  | refl => exact start
  | snoc before last ih => apply keep _ _ _ _ before ih last

/-- A property of the log and the state that holds of every initial state and is kept by
every step from a reachable state holds of every reachable state. -/
theorem Reaches.invariant
    {s : σ} {log : List ε} (h : M.Reaches log s) {I : List ε → σ → Prop}
    (start : ∀ s₀, M.init s₀ → I [] s₀)
    (keep : ∀ log t e t', M.Reaches log t → I log t → M.step t e t' →
      I (log ++ e.toList) t') :
  I log s
  := by
  obtain ⟨s₀, h₀, hs⟩ := h
  apply hs.invariant (start s₀ h₀)
  intro log t e t' ht hI hstep
  apply keep log t e t' ⟨s₀, h₀, ht⟩ hI hstep

/-! ### Composing and splitting runs -/

theorem Reaches.init {s : σ} (h : M.init s) : M.Reaches [] s :=
  ⟨s, h, .refl⟩

/-- A step from a reachable state leads to a reachable state. -/
theorem Reaches.snoc
    {s s' : σ} {log : List ε} {e : Option ε} (h : M.Reaches log s) (last : M.step s e s') :
  M.Reaches (log ++ e.toList) s'
  := by
  obtain ⟨s₀, h₀, hs⟩ := h
  use s₀, h₀
  apply hs.snoc last

theorem Steps.single {s s' : σ} {e : Option ε} (h : M.step s e s') :
  M.Steps s e.toList s'
  := Steps.snoc .refl h

theorem Steps.trans
    {s s' s'' : σ} {log log' : List ε} (h : M.Steps s log s') (h' : M.Steps s' log' s'') :
  M.Steps s (log ++ log') s''
  := by
  induction h' with
  | refl => rwa [List.append_nil]
  | snoc _ last ih =>
      rw [← List.append_assoc]
      apply ih.snoc last

theorem Reaches.trans
    {s s' : σ} {log log' : List ε} (h : M.Reaches log s) (h' : M.Steps s log' s') :
  M.Reaches (log ++ log') s'
  := by
  obtain ⟨s₀, h₀, hs⟩ := h
  use s₀, h₀
  apply hs.trans h'

/-- Steps that emit `pre ++ e :: post` pass through a step that emits `e`, before which
they emit `pre` and after which they emit `post`. -/
theorem Steps.split
    {s s' : σ} {log : List ε} (h : M.Steps s log s') {pre post : List ε} {e : ε}
    (hlog : log = pre ++ e :: post) :
  ∃ t t', M.Steps s pre t ∧ M.step t (some e) t' ∧ M.Steps t' post s'
  := by
  induction h generalizing post with
  | refl => simp at hlog
  | @snoc log t₁ t₂ e' before last ih =>
      cases e' with
      | none =>
          rw [Option.toList_none, List.append_nil] at hlog
          obtain ⟨t, t', hpre, hstep, hpost⟩ := ih hlog
          use t, t', hpre, hstep
          simpa using hpost.snoc last
      | some e' =>
          rcases List.eq_nil_or_concat post with rfl | ⟨post', e'', rfl⟩
          · -- `e` is the event of the last step
            obtain ⟨rfl, he⟩ := List.append_inj' hlog rfl
            obtain rfl : e' = e := by simpa using he
            use t₁, t₂, before, last, .refl
          · rw [List.concat_eq_append, ← List.cons_append, ← List.append_assoc] at hlog
            obtain ⟨rfl, he⟩ := List.append_inj' hlog rfl
            obtain rfl : e' = e'' := by simpa using he
            obtain ⟨t, t', hpre, hstep, hpost⟩ := ih rfl
            use t, t', hpre, hstep
            rw [List.concat_eq_append]
            apply hpost.snoc last

/-- The state in which an event of a log was emitted is reachable by the events before
it. -/
theorem Reaches.split
    {s : σ} {pre post : List ε} {e : ε} (h : M.Reaches (pre ++ e :: post) s) :
  ∃ t t', M.Reaches pre t ∧ M.step t (some e) t' ∧ M.Steps t' post s
  := by
  obtain ⟨s₀, h₀, hs⟩ := h
  obtain ⟨t, t', hpre, hstep, hpost⟩ := hs.split rfl
  use t, t', ⟨s₀, h₀, hpre⟩, hstep, hpost

/-- A state reached by a log was reached from a state at any point of the log. -/
theorem Reaches.of_append
    {s : σ} {log log' : List ε} (h : M.Reaches (log ++ log') s) :
  ∃ t, M.Reaches log t ∧ M.Steps t log' s
  := by
  cases log' with
  | nil =>
      rw [List.append_nil] at h
      use s, h, .refl
  | cons e post =>
      obtain ⟨t, t', ht, hstep, hpost⟩ := h.split
      use t, ht
      apply (Steps.single hstep).trans hpost

/-! ### Simulations -/

/-- A forward simulation of `C` by `A`: related states stay related when `C` takes a
step and `A` takes steps emitting what `observe` shows of the event of that step. -/
structure Simulation (C : StateMachine σ ε) (A : StateMachine τ δ) where
  /-- What an event of `C` shows in terms of `A`. -/
  observe : ε → Option δ
  /-- The relation between the states of `C` and of `A`. -/
  rel : σ → τ → Prop
  start : ∀ s, C.init s → ∃ t, A.init t ∧ rel s t
  follow : ∀ s e s' t, rel s t → C.step s e s' →
    ∃ t', A.Steps t (e.bind observe).toList t' ∧ rel s' t'

theorem filterMap_toList {α : Type u} {β : Type v} (f : α → Option β) (e : Option α) :
  e.toList.filterMap f = (e.bind f).toList
  := by
  cases e with
  | none => rfl
  | some a => cases h : f a <;> simp [h]

/-- A state of `C` reached with some log is related to a state of `A` reached with what
`observe` shows of that log. -/
theorem Simulation.reaches
    {C : StateMachine σ ε} {A : StateMachine τ δ} (S : Simulation C A) {log : List ε} {s : σ}
    (h : C.Reaches log s) :
  ∃ t, A.Reaches (log.filterMap S.observe) t ∧ S.rel s t
  := by
  apply h.invariant (I := fun log s => ∃ t, A.Reaches (log.filterMap S.observe) t ∧ S.rel s t)
  · intro s₀ h₀
    obtain ⟨t, ht, hrel⟩ := S.start s₀ h₀
    use t, .init ht, hrel
  · rintro log s e s' - ⟨t, ht, hrel⟩ hstep
    obtain ⟨t', hsteps, hrel'⟩ := S.follow s e s' t hrel hstep
    use t'
    rw [List.filterMap_append, filterMap_toList]
    use ht.trans hsteps, hrel'

/-- A refinement of `A` by `C`: related states stay related when `C` takes a step and `A` takes
one, whose event is the event of the step of `C` under another name. -/
structure Refinement (C : StateMachine σ ε) (A : StateMachine τ δ) where
  /-- What an event of `A` is in terms of `C`. -/
  label : δ → ε
  /-- The relation between the states of `C` and of `A`. -/
  rel : σ → τ → Prop
  start : ∀ s, C.init s → ∃ t, A.init t ∧ rel s t
  follow : ∀ s e s' t, rel s t → C.step s e s' →
    ∃ e' t', A.step t e' t' ∧ e = e'.map label ∧ rel s' t'

/-- A log of `C` is a log of `A` under other names, and the states that are reached are related. -/
theorem Refinement.reaches
    {C : StateMachine σ ε} {A : StateMachine τ δ} (R : Refinement C A) {log : List ε} {s : σ}
    (h : C.Reaches log s) :
  ∃ log' t, A.Reaches log' t ∧ log = log'.map R.label ∧ R.rel s t
  := by
  apply h.invariant
    (I := fun log s => ∃ log' t, A.Reaches log' t ∧ log = log'.map R.label ∧ R.rel s t)
  · intro s₀ h₀
    obtain ⟨t, ht, hrel⟩ := R.start s₀ h₀
    use [], t, .init ht, rfl
  · rintro log s e s' - ⟨log', t, ht, rfl, hrel⟩ hstep
    obtain ⟨e', t', hstep', rfl, hrel'⟩ := R.follow s e s' t hrel hstep
    use log' ++ e'.toList, t', ht.snoc hstep'
    constructor
    · cases e' <;> simp
    · exact hrel'

/-! ### Ends of runs -/

/-- However the steps from `s` are chosen, a state with the property `final` comes after finitely
many of them. -/
inductive Inevitable (M : StateMachine σ ε) (final : σ → Prop) : σ → Prop where
  | now {s : σ} (h : final s) : Inevitable M final s
  | later {s : σ} (some_step : ∃ e s', M.step s e s')
      (every_step : ∀ e s', M.step s e s' → Inevitable M final s') : Inevitable M final s

/-- When every step lowers a rank, and there is a step from every reachable state that is not
final, a final state is inevitable. -/
theorem Reaches.inevitable
    {s : σ} {log : List ε} (h : M.Reaches log s) (rank : σ → ℕ) {final : σ → Prop}
    (lower : ∀ s e s', M.step s e s' → rank s' < rank s)
    (progress : ∀ log s, M.Reaches log s → ¬final s → ∃ e s', M.step s e s') :
  M.Inevitable final s
  := by
  induction hr : rank s using Nat.strongRecOn generalizing s log with
  | _ r ih =>
    subst hr
    by_cases hfinal : final s
    · exact .now hfinal
    · apply Inevitable.later (progress log s h hfinal)
      intro e s' hstep
      apply ih _ (lower s e s' hstep) (h.snoc hstep) rfl

/-! ### Machines that can be run -/

variable {α : Type w}

/-- The machine whose steps are the choices that `step` accepts. -/
def ofStep (init : σ → Prop) (step : σ → α → Option (σ × Option ε)) : StateMachine σ ε where
  init := init
  step s e s' := ∃ a, step s a = some (s', e)

/-- Run a list of choices, collecting the events; `none` when one is not accepted. -/
def run (step : σ → α → Option (σ × Option ε)) : σ → List α → Option (σ × List ε)
  | s, [] => some (s, [])
  | s, a :: as =>
      match step s a with
      | none => none
      | some (s', e) =>
          match run step s' as with
          | none => none
          | some (s'', log) => some (s'', e.toList ++ log)

/-- A run is a step for the first choice and a run of the others. -/
theorem run_cons_iff
    {step : σ → α → Option (σ × Option ε)} {s s' : σ} {a : α} {as : List α} {log : List ε} :
  run step s (a :: as) = some (s', log)
    ↔ ∃ s₁ e log₁, step s a = some (s₁, e) ∧ run step s₁ as = some (s', log₁)
      ∧ log = e.toList ++ log₁
  := by
  constructor
  · intro h
    simp only [run] at h
    split at h
    · cases h
    · rename_i s₁ e hstep
      split at h
      · cases h
      · rename_i s₂ log₁ hrun
        cases h
        exact ⟨s₁, e, log₁, hstep, hrun, rfl⟩
  · rintro ⟨s₁, e, log₁, hstep, hrun, rfl⟩
    simp only [run, hstep, hrun]

/-- A run of one more choice. -/
theorem run_snoc
    {step : σ → α → Option (σ × Option ε)} {s s' s'' : σ} {as : List α} {log : List ε} {a : α}
    {e : Option ε} (h : run step s as = some (s', log)) (last : step s' a = some (s'', e)) :
  run step s (as ++ [a]) = some (s'', log ++ e.toList)
  := by
  induction as generalizing s log with
  | nil =>
      cases h
      simp only [List.nil_append, run, last, List.append_nil]
  | cons b as ih =>
      obtain ⟨s₁, e₁, log₁, hstep, hrun, rfl⟩ := run_cons_iff.mp h
      rw [List.cons_append, run_cons_iff]
      exact ⟨s₁, e₁, _, hstep, ih hrun, List.append_assoc _ _ _⟩

/-- What a run gives is reached by steps of the machine. -/
theorem steps_of_run
    {init : σ → Prop} {step : σ → α → Option (σ × Option ε)} {s s' : σ} {as : List α}
    {log : List ε} (h : run step s as = some (s', log)) :
  (ofStep init step).Steps s log s'
  := by
  induction as generalizing s log with
  | nil =>
      cases h
      exact .refl
  | cons a as ih =>
      obtain ⟨s₁, e, log₁, hstep, hrun, rfl⟩ := run_cons_iff.mp h
      have hfirst : (ofStep init step).step s e s₁ := ⟨a, hstep⟩
      apply (Steps.single hfirst).trans (ih hrun)

/-- What a run from an initial state gives is reachable. -/
theorem reaches_of_run
    {init : σ → Prop} {step : σ → α → Option (σ × Option ε)} {s s' : σ} {as : List α}
    {log : List ε} (h₀ : init s) (h : run step s as = some (s', log)) :
  (ofStep init step).Reaches log s'
  := ⟨s, h₀, steps_of_run h⟩

/-! ### Objects -/

/-- The state of an object after some calls, and what they return, when `call t a` is the
state after the call `a` and what that returns. -/
def callAll (call : τ → α → τ × ε) : τ → List α → τ × List ε
  | t, [] => (t, [])
  | t, a :: as =>
      ((callAll call (call t a).1 as).1, (call t a).2 :: (callAll call (call t a).1 as).2)

/-- When every call takes related states to related states and returns the same on both, a
run returns what the calls return on the object. -/
theorem run_of_rel
    {step : σ → α → Option (σ × Option ε)} {call : τ → α → τ × ε} {rel : σ → τ → Prop}
    (h : ∀ {s t}, rel s t → ∀ a,
      ∃ s', step s a = some (s', some (call t a).2) ∧ rel s' (call t a).1)
    {s : σ} {t : τ} (hst : rel s t) (as : List α) :
  ∃ s', run step s as = some (s', (callAll call t as).2) ∧ rel s' (callAll call t as).1
  := by
  induction as generalizing s t with
  | nil => exact ⟨s, rfl, hst⟩
  | cons a as ih =>
      obtain ⟨s₁, hstep, h₁⟩ := h hst a
      obtain ⟨s₂, hrun, h₂⟩ := ih h₁
      use s₂
      rw [run_cons_iff]
      exact ⟨⟨s₁, _, _, hstep, hrun, rfl⟩, h₂⟩

theorem callAll_map {β : Type w} (call : τ → α → τ × ε) (f : β → α) (t : τ) (as : List β) :
  callAll call t (as.map f) = callAll (fun t a => call t (f a)) t as
  := by
  induction as generalizing t with
  | nil => rfl
  | cons a as ih => simp only [List.map_cons, callAll, ih]

/-- When the calls that do not reveal a difference return the same on both objects and keep them
related, and the others do not return the same, calls return the same on both as long as none
reveals a difference. -/
theorem callAll_eq_iff
    {τ' : Type u} {call : τ → α → τ × ε} {call' : τ' → α → τ' × ε} {R : τ → τ' → Prop}
    {reveals : τ → τ' → α → Prop}
    (same : ∀ t t' a, R t t' → ¬ reveals t t' a →
      (call t a).2 = (call' t' a).2 ∧ R (call t a).1 (call' t' a).1)
    (differ : ∀ t t' a, R t t' → reveals t t' a → (call t a).2 ≠ (call' t' a).2)
    {t : τ} {t' : τ'} (h : R t t') (as : List α) :
  (callAll call t as).2 = (callAll call' t' as).2
    ↔ ∀ pre a post, as = pre ++ a :: post →
      ¬ reveals (callAll call t pre).1 (callAll call' t' pre).1 a
  := by
  induction as generalizing t t' with
  | nil =>
      constructor
      · intro _ pre a post has
        simp at has
      · intro
        rfl
  | cons a as ih =>
      rw [callAll, callAll]
      by_cases hreveals : reveals t t' a
      · constructor
        · intro heq
          cases differ t t' a h hreveals (List.cons.inj heq).1
        · intro hnever
          cases hnever [] a as rfl hreveals
      · obtain ⟨hresult, hR⟩ := same t t' a h hreveals
        rw [List.cons.injEq, eq_true hresult, true_and, ih hR]
        constructor
        · rintro hnever (_ | ⟨b, pre⟩) c post has
          · obtain ⟨rfl, -⟩ := List.cons.inj has
            exact hreveals
          · obtain ⟨rfl, htail⟩ := List.cons.inj has
            apply hnever pre c post htail
        · intro hnever pre c post has
          apply hnever (a :: pre) c post
          rw [has, List.cons_append]

end StateMachine

import CTemplate.Library.StateMachine
import Mathlib.Data.List.Perm.Basic
import Mathlib.Data.List.Nodup
import Mathlib.Data.List.Range
import Mathlib.Logic.Function.Basic

/-!
# Forking and joining

`ForkJoin.machine n` has a main thread and `n` tasks.  The main thread goes through the tasks and
either creates a thread for a task or runs it itself; then it goes through them again and joins the
threads it created.  The threads take their steps in between in any order.

When the main thread has returned, every task was begun once and finished once, and every thread
that was created was joined once, `returned_of_reaches`.  Each of these is about the events of one
kind and the states that a task is in after one of them, `perm_of_change`.
-/

namespace ForkJoin

/-- The state of a task. -/
inductive Task where
  /-- The main thread has not come to it. -/
  | fresh
  /-- It has a thread, which has not begun. -/
  | ready
  /-- Its thread runs it. -/
  | running
  /-- Its thread has returned. -/
  | returned
  /-- Its thread was joined. -/
  | joined
  /-- The main thread runs it. -/
  | inline
  /-- The main thread has run it. -/
  | done
  deriving DecidableEq

/-- Where the main thread is. -/
inductive Main where
  /-- It comes to the task `i` for the first time. -/
  | fork (i : ℕ)
  /-- It runs the task `i` itself. -/
  | inline (i : ℕ)
  /-- It comes to the task `i` for the second time. -/
  | join (i : ℕ)
  | returned
  deriving DecidableEq

/-- The main thread and the tasks. -/
structure State where
  main : Main
  tasks : ℕ → Task

/-- What is done to a task. -/
inductive Event where
  | create (i : ℕ)
  | begin (i : ℕ)
  | finish (i : ℕ)
  | join (i : ℕ)
  deriving DecidableEq

/-- The steps with `n` tasks. -/
inductive Step (n : ℕ) : State → Option Event → State → Prop where
  | create {i : ℕ} {τ : ℕ → Task} (hi : i < n) :
      Step n ⟨.fork i, τ⟩ (some (.create i)) ⟨.fork (i + 1), Function.update τ i .ready⟩
  | inline {i : ℕ} {τ : ℕ → Task} (hi : i < n) :
      Step n ⟨.fork i, τ⟩ (some (.begin i)) ⟨.inline i, Function.update τ i .inline⟩
  | inlineDone {i : ℕ} {τ : ℕ → Task} :
      Step n ⟨.inline i, τ⟩ (some (.finish i)) ⟨.fork (i + 1), Function.update τ i .done⟩
  | forked {τ : ℕ → Task} : Step n ⟨.fork n, τ⟩ none ⟨.join 0, τ⟩
  | join {i : ℕ} {τ : ℕ → Task} (hi : i < n) (h : τ i = .returned) :
      Step n ⟨.join i, τ⟩ (some (.join i)) ⟨.join (i + 1), Function.update τ i .joined⟩
  | skip {i : ℕ} {τ : ℕ → Task} (hi : i < n) (h : τ i = .done) :
      Step n ⟨.join i, τ⟩ none ⟨.join (i + 1), τ⟩
  | return {τ : ℕ → Task} : Step n ⟨.join n, τ⟩ none ⟨.returned, τ⟩
  | begin {i : ℕ} {main : Main} {τ : ℕ → Task} (h : τ i = .ready) :
      Step n ⟨main, τ⟩ (some (.begin i)) ⟨main, Function.update τ i .running⟩
  | finish {i : ℕ} {main : Main} {τ : ℕ → Task} (h : τ i = .running) :
      Step n ⟨main, τ⟩ (some (.finish i)) ⟨main, Function.update τ i .returned⟩

/-- The machine with `n` tasks. -/
def machine (n : ℕ) : StateMachine State Event where
  init s := s = ⟨.fork 0, fun _ => .fresh⟩
  step := Step n

/-! ### The states of the tasks -/

/-- The states that a task is in after the main thread came to it once. -/
def Task.Forked (t : Task) : Prop :=
  t = .ready ∨ t = .running ∨ t = .returned ∨ t = .done

/-- The states that a task is in after the main thread came to it twice. -/
def Task.Joined (t : Task) : Prop :=
  t = .joined ∨ t = .done

/-- What the position of the main thread says of the state `t` of the task `j`. -/
def Main.Allows (n j : ℕ) (t : Task) : Main → Prop
  | .fork i => i ≤ n ∧ (j < i → t.Forked) ∧ (i ≤ j → t = .fresh)
  | .inline i => i < n ∧ (j < i → t.Forked) ∧ (j = i → t = .inline) ∧ (i < j → t = .fresh)
  | .join i => i ≤ n ∧ (j < i → t.Joined) ∧ (i ≤ j → j < n → t.Forked) ∧ (n ≤ j → t = .fresh)
  | .returned => (j < n → t.Joined) ∧ (n ≤ j → t = .fresh)

/-- The tasks are in states that the position of the main thread allows. -/
def Inv (n : ℕ) (s : State) : Prop :=
  ∀ j, s.main.Allows n j (s.tasks j)

variable {n : ℕ} {s s' : State} {e : Option Event} {log : List Event}

theorem inv_init (n : ℕ) :
  Inv n ⟨.fork 0, fun _ => .fresh⟩
  := by
  intro j
  refine ⟨Nat.zero_le n, ?_, fun _ => rfl⟩
  intro hj
  exact absurd hj (Nat.not_lt_zero j)

/-- A step that changes the task `i` keeps the invariant when the other tasks are still allowed
what they were. -/
theorem inv_update
    {i : ℕ} {main : Main} {τ : ℕ → Task} {t : Task} (hi : main.Allows n i t)
    (hother : ∀ j ≠ i, main.Allows n j (τ j)) :
  Inv n ⟨main, Function.update τ i t⟩
  := by
  intro j
  simp only
  by_cases hj : j = i
  · subst hj
    rwa [Function.update_self]
  · rw [Function.update_of_ne hj]
    apply hother j hj

/-- A thread that takes a step leaves its task forked. -/
theorem Main.Allows.forked
    {main : Main} {j : ℕ} {t t' : Task} (h : main.Allows n j t) (ht : t = .ready ∨ t = .running)
    (ht' : t'.Forked) :
  main.Allows n j t'
  := by
  have hnot : t ≠ .fresh ∧ t ≠ .inline ∧ ¬t.Joined := by
    rcases ht with rfl | rfl <;> simp [Task.Joined]
  cases main with
  | fork i =>
    obtain ⟨hi, -, hfresh⟩ := h
    exact ⟨hi, fun _ => ht', fun hj => absurd (hfresh hj) hnot.1⟩
  | inline i =>
    obtain ⟨hi, -, hinline, hfresh⟩ := h
    exact ⟨hi, fun _ => ht', fun hj => absurd (hinline hj) hnot.2.1,
      fun hj => absurd (hfresh hj) hnot.1⟩
  | join i =>
    obtain ⟨hi, hjoined, -, hfresh⟩ := h
    exact ⟨hi, fun hj => absurd (hjoined hj) hnot.2.2, fun _ _ => ht',
      fun hj => absurd (hfresh hj) hnot.1⟩
  | returned =>
    obtain ⟨hjoined, hfresh⟩ := h
    exact ⟨fun hj => absurd (hjoined hj) hnot.2.2, fun hj => absurd (hfresh hj) hnot.1⟩

/-- Every step keeps the tasks in states that are allowed. -/
theorem Inv.step (h : Inv n s) (hstep : Step n s e s') :
  Inv n s'
  := by
  cases hstep with
  | @create i τ hi =>
    apply inv_update
    · exact ⟨hi, fun _ => .inl rfl, fun hle => absurd hle (by omega)⟩
    · intro j hj
      obtain ⟨-, hforked, hfresh⟩ := h j
      exact ⟨hi, fun hlt => hforked (by omega), fun hle => hfresh (by omega)⟩
  | @inline i τ hi =>
    apply inv_update
    · exact ⟨hi, fun hlt => absurd hlt (lt_irrefl i), fun _ => rfl,
        fun hlt => absurd hlt (lt_irrefl i)⟩
    · intro j hj
      obtain ⟨-, hforked, hfresh⟩ := h j
      exact ⟨hi, hforked, fun heq => absurd heq hj, fun hlt => hfresh hlt.le⟩
  | @inlineDone i τ =>
    obtain ⟨hi, -⟩ := h i
    apply inv_update
    · exact ⟨hi, fun _ => .inr (.inr (.inr rfl)), fun hle => absurd hle (by omega)⟩
    · intro j hj
      obtain ⟨-, hforked, -, hfresh⟩ := h j
      exact ⟨hi, fun hlt => hforked (by omega), fun hle => hfresh (by omega)⟩
  | forked =>
    intro j
    obtain ⟨-, hforked, hfresh⟩ := h j
    exact ⟨Nat.zero_le n, fun hlt => absurd hlt (Nat.not_lt_zero j), fun _ => hforked, hfresh⟩
  | @join i τ hi hreturned =>
    apply inv_update
    · exact ⟨hi, fun _ => .inl rfl, fun hle => absurd hle (by omega),
        fun hle => absurd hle (by omega)⟩
    · intro j hj
      obtain ⟨-, hjoined, hforked, hfresh⟩ := h j
      exact ⟨hi, fun hlt => hjoined (by omega), fun hle => hforked (by omega), hfresh⟩
  | @skip i τ hi hdone =>
    intro j
    obtain ⟨-, hjoined, hforked, hfresh⟩ := h j
    refine ⟨hi, ?_, fun hle => hforked (by omega), hfresh⟩
    intro hlt
    rcases Nat.lt_succ_iff_lt_or_eq.mp hlt with hlt | rfl
    · apply hjoined hlt
    · exact .inr hdone
  | «return» =>
    intro j
    obtain ⟨-, hjoined, -, hfresh⟩ := h j
    exact ⟨hjoined, hfresh⟩
  | @begin i main τ hready =>
    apply inv_update
    · apply (h i).forked (.inl hready) (.inr (.inl rfl))
    · intro j _
      apply h j
  | @finish i main τ hrunning =>
    apply inv_update
    · apply (h i).forked (.inr hrunning) (.inr (.inr (.inl rfl)))
    · intro j _
      apply h j

theorem inv_of_reaches (h : (machine n).Reaches log s) :
  Inv n s
  := by
  apply h.invariant (I := fun _ s => Inv n s)
  · rintro _ rfl
    apply inv_init
  · intro log t e t' _ ih hstep
    apply ih.step hstep

/-! ### Changes of a task -/

/-- How the state of a task changes. -/
inductive Change (i : ℕ) : Task → Event → Task → Prop where
  | create : Change i .fresh (.create i) .ready
  | inline : Change i .fresh (.begin i) .inline
  | inlineDone : Change i .inline (.finish i) .done
  | begin : Change i .ready (.begin i) .running
  | finish : Change i .running (.finish i) .returned
  | join : Change i .returned (.join i) .joined

/-- A step leaves the tasks as they are and emits no event, or changes one of the tasks and emits
the event of the change. -/
theorem Inv.step_change (h : Inv n s) (hstep : Step n s e s') :
  (e = none ∧ s'.tasks = s.tasks)
    ∨ ∃ i ev t t', i < n ∧ e = some ev ∧ s.tasks i = t ∧ Change i t ev t'
      ∧ s'.tasks = Function.update s.tasks i t'
  := by
  -- a task that is not fresh is one of the `n` tasks
  have hlt : ∀ i, s.tasks i ≠ .fresh → i < n := by
    intro i hne
    by_contra hge
    have hi := h i
    cases hmain : s.main <;> rw [hmain] at hi <;> simp only [Main.Allows] at hi
    · apply hne (hi.2.2 (by omega))
    · apply hne (hi.2.2.2 (by omega))
    · apply hne (hi.2.2.2 (by omega))
    · apply hne (hi.2 (by omega))
  cases hstep with
  | @create i τ hi =>
    have hfresh : τ i = .fresh := (h i).2.2 le_rfl
    exact .inr ⟨i, _, _, _, hi, rfl, hfresh, .create, rfl⟩
  | @inline i τ hi =>
    have hfresh : τ i = .fresh := (h i).2.2 le_rfl
    exact .inr ⟨i, _, _, _, hi, rfl, hfresh, .inline, rfl⟩
  | @inlineDone i τ =>
    have hinline : τ i = .inline := (h i).2.2.1 rfl
    exact .inr ⟨i, _, _, _, (h i).1, rfl, hinline, .inlineDone, rfl⟩
  | forked => exact .inl ⟨rfl, rfl⟩
  | @join i τ hi hreturned => exact .inr ⟨i, _, _, _, hi, rfl, hreturned, .join, rfl⟩
  | skip => exact .inl ⟨rfl, rfl⟩
  | «return» => exact .inl ⟨rfl, rfl⟩
  | @begin i main τ hready =>
    exact .inr ⟨i, _, _, _, hlt i (by simp [hready]), rfl, hready, .begin, rfl⟩
  | @finish i main τ hrunning =>
    exact .inr ⟨i, _, _, _, hlt i (by simp [hrunning]), rfl, hrunning, .finish, rfl⟩

/-! ### Events and states -/

/-- One more index that satisfies a predicate is one more in the list of those below `n` that do. -/
theorem perm_filter_range {p p' : ℕ → Bool} {i : ℕ} (hi : i < n) (hp : p i = false)
    (hp' : ∀ j, p' j = (decide (j = i) || p j)) :
  ((List.range n).filter p').Perm ((List.range n).filter p ++ [i])
  := by
  have hnodup : ∀ q : ℕ → Bool, ((List.range n).filter q).Nodup :=
    fun q => List.Nodup.filter q List.nodup_range
  have hnew : i ∉ (List.range n).filter p := by
    simp [hp]
  rw [← List.concat_eq_append, List.perm_ext_iff_of_nodup (hnodup p') ((hnodup p).concat hnew)]
  intro j
  simp only [List.concat_eq_append, List.mem_append, List.mem_filter, List.mem_range,
    List.mem_singleton, hp', Bool.or_eq_true, decide_eq_true_iff]
  constructor
  · rintro ⟨hj, rfl | hpj⟩
    · exact .inr rfl
    · exact .inl ⟨hj, hpj⟩
  · rintro (⟨hj, hpj⟩ | rfl)
    · exact ⟨hj, .inr hpj⟩
    · exact ⟨hi, .inl rfl⟩

/-- The events of one kind are for the tasks in the states after them: when every change either
emits such an event and leads to one of the states, or does neither and stays among them or outside
them, the events of a log are for the tasks in these states, once for each. -/
theorem perm_of_change
    (kind : Event → Option ℕ) (after : Task → Bool) (hfresh : after .fresh = false)
    (hchange : ∀ i t ev t', Change i t ev t' →
      (kind ev = some i ∧ after t = false ∧ after t' = true)
        ∨ (kind ev = none ∧ after t' = after t))
    (h : (machine n).Reaches log s) :
  (log.filterMap kind).Perm ((List.range n).filter fun j => after (s.tasks j))
  := by
  apply h.invariant
    (I := fun log s => (log.filterMap kind).Perm ((List.range n).filter fun j => after (s.tasks j)))
  · rintro _ rfl
    simp [hfresh]
  · intro log t e t' ht ih hstep
    rw [List.filterMap_append]
    rcases (inv_of_reaches ht).step_change hstep with
      ⟨rfl, htasks⟩ | ⟨i, ev, a, b, hi, rfl, ha, hab, htasks⟩
    · rw [htasks]
      simpa using ih
    · rcases hchange i a ev b hab with ⟨hkind, hbefore, hafter⟩ | ⟨hkind, hsame⟩
      · have hone : (some ev).toList.filterMap kind = [i] := by
          simp [hkind]
        rw [hone]
        apply (ih.append_right [i]).trans
        apply (perm_filter_range hi (by rw [ha, hbefore]) _).symm
        intro j
        rw [htasks]
        by_cases hj : j = i
        · subst hj
          simp [hafter]
        · simp [hj]
      · have hnone : (some ev).toList.filterMap kind = [] := by
          simp [hkind]
        rw [hnone, List.append_nil]
        apply ih.trans
        apply List.Perm.of_eq
        apply List.filter_congr
        intro j _
        rw [htasks]
        by_cases hj : j = i
        · subst hj
          rw [Function.update_self, ha, hsame]
        · rw [Function.update_of_ne hj]

/-- The tasks for which a thread was created, in order. -/
def created (log : List Event) : List ℕ :=
  log.filterMap fun
    | .create i => some i
    | _ => none

/-- The tasks begun, in order. -/
def begun (log : List Event) : List ℕ :=
  log.filterMap fun
    | .begin i => some i
    | _ => none

/-- The tasks finished, in order. -/
def finished (log : List Event) : List ℕ :=
  log.filterMap fun
    | .finish i => some i
    | _ => none

/-- The tasks whose threads were joined, in order. -/
def joined (log : List Event) : List ℕ :=
  log.filterMap fun
    | .join i => some i
    | _ => none

/-- The tasks that were begun. -/
theorem begun_perm (h : (machine n).Reaches log s) :
  (begun log).Perm
    ((List.range n).filter fun j => s.tasks j ≠ .fresh ∧ s.tasks j ≠ .ready)
  := by
  apply perm_of_change _ (fun t => decide (t ≠ .fresh ∧ t ≠ .ready)) rfl _ h
  intro i t ev t' hchange
  cases hchange <;> simp

/-- The tasks that were finished. -/
theorem finished_perm (h : (machine n).Reaches log s) :
  (finished log).Perm ((List.range n).filter fun j =>
    s.tasks j = .returned ∨ s.tasks j = .joined ∨ s.tasks j = .done)
  := by
  apply perm_of_change _ (fun t => decide (t = .returned ∨ t = .joined ∨ t = .done)) rfl _ h
  intro i t ev t' hchange
  cases hchange <;> simp

/-- The tasks for which a thread was created. -/
theorem created_perm (h : (machine n).Reaches log s) :
  (created log).Perm ((List.range n).filter fun j =>
    s.tasks j = .ready ∨ s.tasks j = .running ∨ s.tasks j = .returned ∨ s.tasks j = .joined)
  := by
  apply perm_of_change _
    (fun t => decide (t = .ready ∨ t = .running ∨ t = .returned ∨ t = .joined)) rfl _ h
  intro i t ev t' hchange
  cases hchange <;> simp

/-- The tasks whose threads were joined. -/
theorem joined_perm (h : (machine n).Reaches log s) :
  (joined log).Perm ((List.range n).filter fun j => s.tasks j = .joined)
  := by
  apply perm_of_change _ (fun t => decide (t = .joined)) rfl _ h
  intro i t ev t' hchange
  cases hchange <;> simp

/-- When the main thread has returned, every task was begun once and finished once, and the threads
that were joined are those that were created, each of them once. -/
theorem returned_of_reaches (h : (machine n).Reaches log s) (hmain : s.main = .returned) :
  (begun log).Perm (List.range n) ∧ (finished log).Perm (List.range n)
    ∧ (joined log).Perm (created log) ∧ (created log).Nodup
  := by
  have hjoined : ∀ j ∈ List.range n, s.tasks j = .joined ∨ s.tasks j = .done := by
    intro j hj
    have hj' := inv_of_reaches h j
    rw [hmain] at hj'
    apply hj'.1 (List.mem_range.mp hj)
  refine ⟨?_, ?_, ?_, ?_⟩
  · apply (begun_perm h).trans (List.Perm.of_eq _)
    rw [List.filter_eq_self]
    intro j hj
    rcases hjoined j hj with hj | hj <;> simp [hj]
  · apply (finished_perm h).trans (List.Perm.of_eq _)
    rw [List.filter_eq_self]
    intro j hj
    rcases hjoined j hj with hj | hj <;> simp [hj]
  · apply (joined_perm h).trans
    apply (List.Perm.of_eq _).trans (created_perm h).symm
    apply List.filter_congr
    intro j hj
    rcases hjoined j hj with hj | hj <;> simp [hj]
  · rw [(created_perm h).nodup_iff]
    apply List.Nodup.filter _ List.nodup_range

end ForkJoin

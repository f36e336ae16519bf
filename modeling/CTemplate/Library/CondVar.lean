import CTemplate.Library.ListSet

/-!
# Condition variables

The states of the threads that share a monitor form a list.  A condition variable tells
which of these states are asleep on it and which were woken and wait to re-enter the
monitor, and how a sleeping thread is woken.  A signal wakes at least one sleeping
thread, if there is one, and a broadcast wakes them all.

`cv.Accounted ts n` says that while a thread sleeps on `cv`, at least `n` threads were
woken and did not re-enter yet.  It is what makes one signal per unit of work enough:
a signal accounts for one more unit, a thread that runs on uses up at most one, and a
thread goes to sleep only when there is no work.
-/

universe u v

/-- A condition variable, for threads with states `S`. -/
structure CondVar (S : Type u) where
  /-- The thread waits and was not woken. -/
  asleep : S → Bool
  /-- The thread was woken, but is not back in the monitor. -/
  woken : S → Bool
  /-- The state of a sleeping thread after it was woken. -/
  wake : S → S
  not_woken : ∀ s, asleep s = true → woken s = false
  woken_wake : ∀ s, asleep s = true → woken (wake s) = true
  asleep_wake : ∀ s, asleep s = true → asleep (wake s) = false

namespace CondVar

open ListSet

variable {S : Type u} {cv : CondVar S} {ts ts' : List S} {chosen : List Bool} {n : ℕ}

/-- The threads after the chosen ones of the sleeping threads were woken. -/
def rouse (cv : CondVar S) : List Bool → List S → List S
  | _, [] => []
  | [], ts => ts
  | b :: chosen, s :: ts =>
      (if b && cv.asleep s then cv.wake s else s) :: rouse cv chosen ts

/-- How many sleeping threads are among the chosen ones. -/
def roused (cv : CondVar S) : List Bool → List S → ℕ
  | _, [] => 0
  | [], _ => 0
  | b :: chosen, s :: ts => (if b && cv.asleep s then 1 else 0) + roused cv chosen ts

/-- Wake the chosen ones of the sleeping threads; `none` when that is none of them
although a thread sleeps. -/
def signal (cv : CondVar S) (chosen : List Bool) (ts : List S) : Option (List S) :=
  if ts.countP cv.asleep = 0 ∨ 0 < cv.roused chosen ts then some (cv.rouse chosen ts)
  else none

/-- Wake all sleeping threads. -/
def broadcast (cv : CondVar S) (ts : List S) : List S :=
  ts.map fun s => if cv.asleep s then cv.wake s else s

/-- While a thread sleeps, at least `n` threads were woken and did not re-enter. -/
def Accounted (cv : CondVar S) (ts : List S) (n : ℕ) : Prop :=
  0 < ts.countP cv.asleep → n ≤ ts.countP cv.woken

/-! ### Counting threads -/

/-- Waking threads makes the count of the woken ones grow by those that slept. -/
theorem countP_woken_rouse :
  (cv.rouse chosen ts).countP cv.woken = ts.countP cv.woken + cv.roused chosen ts
  := by
  induction ts generalizing chosen with
  | nil => cases chosen <;> rfl
  | cons s ts ih =>
      cases chosen with
      | nil => rfl
      | cons b chosen =>
          simp only [rouse, roused, List.countP_cons, ih]
          by_cases hb : (b && cv.asleep s) = true
          · have hs : cv.asleep s = true := by simp_all
            rw [if_pos hb, if_pos hb, cv.woken_wake s hs, cv.not_woken s hs]
            simp only [if_true, Bool.false_eq_true, if_false]
            omega
          · rw [if_neg hb, if_neg hb]
            omega

/-- Waking threads makes the count of the sleeping ones shrink by the same number. -/
theorem countP_asleep_rouse (cv : CondVar S) (chosen : List Bool) (ts : List S) :
  (cv.rouse chosen ts).countP cv.asleep + cv.roused chosen ts = ts.countP cv.asleep
  := by
  induction ts generalizing chosen with
  | nil => cases chosen <;> rfl
  | cons s ts ih =>
      cases chosen with
      | nil => rfl
      | cons b chosen =>
          have h := ih chosen
          simp only [rouse, roused, List.countP_cons]
          by_cases hb : (b && cv.asleep s) = true
          · have hs : cv.asleep s = true := by simp_all
            rw [if_pos hb, if_pos hb, cv.asleep_wake s hs, hs]
            simp only [if_true, Bool.false_eq_true, if_false]
            omega
          · rw [if_neg hb, if_neg hb]
            omega

/-- Waking threads keeps the count of a property that waking one thread keeps. -/
theorem countP_rouse
    {p : S → Bool} (hp : ∀ s, cv.asleep s = true → p (cv.wake s) = p s) :
  (cv.rouse chosen ts).countP p = ts.countP p
  := by
  induction ts generalizing chosen with
  | nil => cases chosen <;> rfl
  | cons s ts ih =>
      cases chosen with
      | nil => rfl
      | cons b chosen =>
          simp only [rouse, List.countP_cons, ih]
          by_cases hb : (b && cv.asleep s) = true
          · rw [if_pos hb, hp s (by simp_all)]
          · rw [if_neg hb]

/-- Waking threads keeps what is collected from the threads when waking one thread
does. -/
theorem filterMap_rouse
    {A : Type v} {f : S → Option A} (hf : ∀ s, cv.asleep s = true → f (cv.wake s) = f s) :
  (cv.rouse chosen ts).filterMap f = ts.filterMap f
  := by
  induction ts generalizing chosen with
  | nil => cases chosen <;> rfl
  | cons s ts ih =>
      cases chosen with
      | nil => rfl
      | cons b chosen =>
          simp only [rouse, List.filterMap_cons, ih]
          by_cases hb : (b && cv.asleep s) = true
          · rw [if_pos hb, hf s (by simp_all)]
          · rw [if_neg hb]

/-- Waking threads keeps what is seen of a thread when waking it does. -/
theorem bind_getElem?_rouse
    {A : Type v} {f : S → Option A} (hf : ∀ s, cv.asleep s = true → f (cv.wake s) = f s) (i : ℕ) :
  (cv.rouse chosen ts)[i]?.bind f = ts[i]?.bind f
  := by
  induction ts generalizing chosen i with
  | nil => cases chosen <;> rfl
  | cons s ts ih =>
      cases chosen with
      | nil => rfl
      | cons b chosen =>
          cases i with
          | succ i => exact ih i
          | zero =>
              rw [rouse, List.getElem?_cons_zero, List.getElem?_cons_zero, Option.bind_some,
                Option.bind_some]
              by_cases hb : (b && cv.asleep s) = true
              · rw [if_pos hb, hf s (by simp_all)]
              · rw [if_neg hb]

/-- A state that waking a thread does not lead to was there before. -/
theorem mem_of_mem_rouse
    {s : S} (hs : ∀ s', cv.asleep s' = true → cv.wake s' ≠ s) (h : s ∈ cv.rouse chosen ts) :
  s ∈ ts
  := by
  induction ts generalizing chosen with
  | nil => cases chosen <;> exact h
  | cons t ts ih =>
      cases chosen with
      | nil => exact h
      | cons b chosen =>
          rw [rouse, List.mem_cons] at h
          rcases h with h | h
          · split at h
            · rename_i hb
              exact absurd h.symm (hs t (by simp_all))
            · rw [h]
              exact List.mem_cons_self
          · apply List.mem_cons_of_mem t (ih h)

@[simp]
theorem length_rouse :
  (cv.rouse chosen ts).length = ts.length
  := by
  have h : (cv.rouse chosen ts).countP (fun _ => true) = ts.countP fun _ => true :=
    countP_rouse fun _ _ => rfl
  simpa using h

/-- What a signal leaves is what waking the chosen threads leaves, and when a thread
slept, one was woken. -/
theorem signal_eq_some (h : cv.signal chosen ts = some ts') :
  ts' = cv.rouse chosen ts ∧ (ts.countP cv.asleep = 0 ∨ 0 < cv.roused chosen ts)
  := by
  unfold signal at h
  split at h
  · rename_i hc
    exact ⟨(Option.some.inj h).symm, hc⟩
  · cases h

/-- A thread after some threads were woken is the same as before, or was woken. -/
theorem exists_of_getElem?_rouse {i : ℕ} {s' : S} (h : (cv.rouse chosen ts)[i]? = some s') :
  ∃ s, ts[i]? = some s ∧ (s' = s ∨ cv.asleep s = true ∧ s' = cv.wake s)
  := by
  induction ts generalizing chosen i with
  | nil => cases chosen <;> cases h
  | cons s ts ih =>
      cases chosen with
      | nil => exact ⟨s', h, .inl rfl⟩
      | cons b chosen =>
          cases i with
          | succ i => exact ih h
          | zero =>
              obtain rfl := Option.some.inj h
              refine ⟨s, rfl, ?_⟩
              split
              · rename_i hb
                exact .inr ⟨(Bool.and_eq_true_iff.mp hb).2, rfl⟩
              · exact .inl rfl

/-- A thread after a signal is the same as before, or was woken. -/
theorem exists_of_getElem?_signal
    (hsig : cv.signal chosen ts = some ts') {i : ℕ} {s' : S} (h : ts'[i]? = some s') :
  ∃ s, ts[i]? = some s ∧ (s' = s ∨ cv.asleep s = true ∧ s' = cv.wake s)
  := by
  obtain ⟨rfl, -⟩ := signal_eq_some hsig
  exact exists_of_getElem?_rouse h

/-- A signal is always possible: all sleeping threads may be woken. -/
theorem exists_signal (cv : CondVar S) (ts : List S) :
  ∃ chosen ts', cv.signal chosen ts = some ts'
  := by
  have hall : cv.roused (List.replicate ts.length true) ts = ts.countP cv.asleep := by
    induction ts with
    | nil => rfl
    | cons s ts ih =>
        rw [List.length_cons, List.replicate_succ, roused, ih, List.countP_cons]
        simp only [Bool.true_and]
        omega
  use List.replicate ts.length true, cv.rouse (List.replicate ts.length true) ts
  rw [signal, if_pos]
  omega

/-! ### Broadcasts -/

/-- No thread sleeps after a broadcast. -/
theorem countP_asleep_broadcast :
  (cv.broadcast ts).countP cv.asleep = 0
  := by
  rw [broadcast, List.countP_map, List.countP_eq_zero]
  intro s _
  simp only [Function.comp_apply]
  split
  · rename_i hs
    simp [cv.asleep_wake s hs]
  · assumption

/-- A broadcast keeps the count of a property that waking one thread keeps. -/
theorem countP_broadcast
    {p : S → Bool} (hp : ∀ s, cv.asleep s = true → p (cv.wake s) = p s) :
  (cv.broadcast ts).countP p = ts.countP p
  := by
  rw [broadcast, List.countP_map]
  apply List.countP_congr
  intro s _
  simp only [Function.comp_apply]
  split
  · rename_i hs
    rw [hp s hs]
  · rfl

/-- A broadcast keeps what is collected from the threads when waking one thread does. -/
theorem filterMap_broadcast
    {A : Type v} {f : S → Option A} (hf : ∀ s, cv.asleep s = true → f (cv.wake s) = f s) :
  (cv.broadcast ts).filterMap f = ts.filterMap f
  := by
  rw [broadcast, List.filterMap_map]
  apply List.filterMap_congr
  intro s _
  simp only [Function.comp_apply]
  split
  · rename_i hs
    rw [hf s hs]
  · rfl

/-- A broadcast keeps what is seen of a thread when waking it does. -/
theorem bind_getElem?_broadcast
    {A : Type v} {f : S → Option A} (hf : ∀ s, cv.asleep s = true → f (cv.wake s) = f s) (i : ℕ) :
  (cv.broadcast ts)[i]?.bind f = ts[i]?.bind f
  := by
  rw [broadcast, List.getElem?_map]
  cases ts[i]? with
  | none => rfl
  | some s =>
      rw [Option.map_some, Option.bind_some, Option.bind_some]
      split
      · rename_i hs
        rw [hf s hs]
      · rfl

theorem mem_of_mem_broadcast
    {s : S} (hs : ∀ s', cv.asleep s' = true → cv.wake s' ≠ s) (h : s ∈ cv.broadcast ts) :
  s ∈ ts
  := by
  obtain ⟨t, ht, rfl⟩ := List.mem_map.mp h
  split at hs
  · rename_i ha
    exact absurd rfl (hs t ha)
  · rename_i ha
    rwa [if_neg ha]

@[simp]
theorem length_broadcast :
  (cv.broadcast ts).length = ts.length
  := List.length_map _

/-! ### Accounting for wakeups -/

theorem accounted_zero : cv.Accounted ts 0 := fun _ => Nat.zero_le _

/-- When no thread sleeps there is nothing to account for. -/
theorem accounted_of_none (h : ts.countP cv.asleep = 0) : cv.Accounted ts n := by
  intro hpos
  omega

/-- A signal accounts for one more unit of work. -/
theorem Accounted.signal (h : cv.Accounted ts n) (hsig : cv.signal chosen ts = some ts') :
  cv.Accounted ts' (n + 1)
  := by
  obtain ⟨rfl, hone⟩ := signal_eq_some hsig
  intro hpos
  have hasleep := cv.countP_asleep_rouse chosen ts
  have hn := h (by omega)
  rw [countP_woken_rouse]
  omega

/-- A thread that does not go to sleep uses up at most one unit. -/
theorem Accounted.leave
    {i : ℕ} {s s' : S} (h : cv.Accounted ts (n + 1)) (hs : ts[i]? = some s)
    (hs' : cv.asleep s' = false) :
  cv.Accounted (ts.set i s') n
  := by
  intro hpos
  have hasleep := countP_set_add cv.asleep hs s'
  have hwoken := countP_set_add cv.woken hs s'
  rw [hs'] at hasleep
  simp only [Bool.false_eq_true, if_false] at hasleep
  have hn := h (by omega)
  have hone : (if cv.woken s then 1 else 0) ≤ 1 := by
    split <;> omega
  omega

/-- A thread that was not woken and does not go to sleep uses up nothing. -/
theorem Accounted.keep
    {i : ℕ} {s s' : S} (h : cv.Accounted ts n) (hs : ts[i]? = some s)
    (hw : cv.woken s = false) (hs' : cv.asleep s' = false) :
  cv.Accounted (ts.set i s') n
  := by
  intro hpos
  have hasleep := countP_set_add cv.asleep hs s'
  have hwoken := countP_set_add cv.woken hs s'
  rw [hs'] at hasleep
  rw [hw] at hwoken
  simp only [Bool.false_eq_true, if_false] at hasleep hwoken
  have hn := h (by omega)
  omega

/-- A spurious wakeup adds to the woken threads. -/
theorem Accounted.spurious
    {i : ℕ} {s : S} (h : cv.Accounted ts n) (hs : ts[i]? = some s)
    (ha : cv.asleep s = true) :
  cv.Accounted (ts.set i (cv.wake s)) n
  := by
  intro _
  have hwoken := countP_set_add cv.woken hs (cv.wake s)
  rw [cv.not_woken s ha, cv.woken_wake s ha] at hwoken
  simp only [Bool.false_eq_true, if_false, if_true] at hwoken
  have hn := h (countP_pos_of_getElem? hs ha)
  omega

/-- While no thread sleeps, a thread that does not go to sleep changes nothing. -/
theorem countP_asleep_set
    {i : ℕ} {s s' : S} (h : ts.countP cv.asleep = 0) (hs : ts[i]? = some s)
    (hs' : cv.asleep s' = false) :
  (ts.set i s').countP cv.asleep = 0
  := by
  have hasleep := countP_set_add cv.asleep hs s'
  rw [hs'] at hasleep
  simp only [Bool.false_eq_true, if_false] at hasleep
  omega

/-- A signal puts no thread to sleep. -/
theorem countP_asleep_signal
    (h : ts.countP cv.asleep = 0) (hsig : cv.signal chosen ts = some ts') :
  ts'.countP cv.asleep = 0
  := by
  obtain ⟨rfl, -⟩ := signal_eq_some hsig
  have hasleep := cv.countP_asleep_rouse chosen ts
  omega

/-! ### Two condition variables of one monitor -/

/-- Waking a thread that sleeps on `cv'` changes neither who sleeps on `cv` nor who was
woken from it. -/
structure Independent (cv cv' : CondVar S) : Prop where
  asleep : ∀ s, cv'.asleep s = true → cv.asleep (cv'.wake s) = cv.asleep s
  woken : ∀ s, cv'.asleep s = true → cv.woken (cv'.wake s) = cv.woken s

variable {cv' : CondVar S}

theorem Independent.countP_signal
    (h : Independent cv cv') (hsig : cv'.signal chosen ts = some ts') :
  ts'.countP cv.asleep = ts.countP cv.asleep ∧ ts'.countP cv.woken = ts.countP cv.woken
  := by
  obtain ⟨rfl, -⟩ := signal_eq_some hsig
  exact ⟨countP_rouse h.asleep, countP_rouse h.woken⟩

/-- A signal of one condition variable changes nothing for the other. -/
theorem Accounted.signal_other
    (h : cv.Accounted ts n) (hind : Independent cv cv')
    (hsig : cv'.signal chosen ts = some ts') :
  cv.Accounted ts' n
  := by
  obtain ⟨hasleep, hwoken⟩ := hind.countP_signal hsig
  rw [Accounted, hasleep, hwoken]
  exact h

/-- After broadcasts of both condition variables no thread sleeps on the first one. -/
theorem Independent.countP_broadcast_broadcast (h : Independent cv cv') :
  (cv'.broadcast (cv.broadcast ts)).countP cv.asleep = 0
  := by
  rw [countP_broadcast h.asleep, countP_asleep_broadcast]

end CondVar

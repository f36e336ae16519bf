import CTemplate.Hpc.Parallel.System
import CTemplate.Library.Chunks
import CTemplate.Library.ForkJoin
import CTemplate.Library.ListSet

/-!
# The parallel loops as forking and joining

Every state of the loops is the state `systemOf` of the machine of `ForkJoin`: the arrays are
given by the states of the tasks, and the variables of the main thread by its position.  A step of
the loops is a step of that machine, `rangeRefinement`.  Every step lowers a rank, and no state in
which the main thread has not returned is stuck, so that a call returns, `rangeMachine_returns`.
-/

namespace CTemplate

variable {R : Type} {job : RangeJob R} {τ : ℕ → ForkJoin.Task} {i : ℕ}

/-! ### Tables -/

/-- The list of `f i t` for the `m` first tasks `i` and their states `t`. -/
def taskTable {α : Type} (m : ℕ) (f : ℕ → ForkJoin.Task → α) (τ : ℕ → ForkJoin.Task) : List α :=
  (List.range m).map fun i => f i (τ i)

section Tables

variable {α : Type} {m : ℕ} {f : ℕ → ForkJoin.Task → α}

@[simp]
theorem length_taskTable (m : ℕ) (f : ℕ → ForkJoin.Task → α) (τ : ℕ → ForkJoin.Task) :
  (taskTable m f τ).length = m
  := by
  rw [taskTable, List.length_map, List.length_range]

@[simp]
theorem getElem_taskTable (hi : i < (taskTable m f τ).length) :
  (taskTable m f τ)[i] = f i (τ i)
  := by
  simp only [taskTable, List.getElem_map, List.getElem_range]

theorem getElem?_taskTable_of_le (hi : m ≤ i) :
  (taskTable m f τ)[i]? = none
  := by
  apply List.getElem?_eq_none
  rwa [length_taskTable]

/-- Changing the state of a task replaces one element. -/
theorem taskTable_update
    (m : ℕ) (f : ℕ → ForkJoin.Task → α) (τ : ℕ → ForkJoin.Task) (i : ℕ) (t : ForkJoin.Task) :
  taskTable m f (Function.update τ i t) = (taskTable m f τ).set i (f i t)
  := by
  apply List.ext_getElem
  · simp
  · intro j hj _
    rw [List.getElem_set]
    simp only [getElem_taskTable]
    split
    next hij =>
      subst hij
      rw [Function.update_self]
    next hij => rw [Function.update_of_ne (Ne.symm hij)]

/-- Changing the state of a task to one that looks the same changes nothing. -/
theorem taskTable_update_of_eq {t : ForkJoin.Task} (h : f i t = f i (τ i)) :
  taskTable m f (Function.update τ i t) = taskTable m f τ
  := by
  apply List.map_congr_left
  intro j _
  by_cases hj : j = i
  · subst hj
    rw [Function.update_self, h]
  · rw [Function.update_of_ne hj]

end Tables

/-! ### The states of the loops -/

/-- The bounds on the numbers of a job: there is a thread, no more threads than numbers, and the
numbers are of type `size_t`. -/
structure RangeJob.Wf (job : RangeJob R) : Prop where
  pos : 0 < job.numThreads
  le : job.numThreads ≤ job.n
  n_le : job.n ≤ sizeMax

/-- The lower bound of the range `i`. -/
def RangeJob.bound (job : RangeJob R) (i : ℕ) : ℕ :=
  Chunks.bound job.n job.numThreads i

/-- The result of `map` for the range `i`. -/
def RangeJob.part (job : RangeJob R) (i : ℕ) : R :=
  job.map (job.bound i) (job.bound (i + 1))

/-- The results of the ranges before `i`, combined from the first to the last. -/
def RangeJob.combined (job : RangeJob R) : ℕ → R
  | 0 => job.zero
  | i + 1 => if i = 0 then job.part i else job.reduce (job.combined i) (job.part i)

/-- The element of `args` for the task `i`. -/
def RangeJob.argOf (job : RangeJob R) (i : ℕ) : ForkJoin.Task → Option (RangeArg R)
  | .fresh => none
  | .ready | .running | .inline => some ⟨job.bound i, job.bound (i + 1), true, job.zero⟩
  | .returned | .joined => some ⟨job.bound i, job.bound (i + 1), true, job.part i⟩
  | .done => some ⟨job.bound i, job.bound (i + 1), false, job.part i⟩

/-- The thread of a task. -/
def threadOf : ForkJoin.Task → RangeThread
  | .fresh | .inline | .done => .absent
  | .ready => .ready
  | .running => .running
  | .returned => .returned
  | .joined => .joined

/-- The variables of the main thread. -/
def RangeJob.mainOf (job : RangeJob R) : ForkJoin.Main → RangeMain R
  | .fork i => .fork i (job.bound i)
  | .inline i => .inline i (job.bound (i + 1))
  | .join i => .join i (job.combined i)
  | .returned => .returned (job.combined job.numThreads)

/-- The state of the loops. -/
def RangeJob.systemOf (job : RangeJob R) (t : ForkJoin.State) : RangeSystem R where
  args := taskTable job.numThreads job.argOf t.tasks
  threads := taskTable job.numThreads (fun _ => threadOf) t.tasks
  main := job.mainOf t.main

/-- What is done to the range of a task. -/
def RangeJob.eventOf (job : RangeJob R) : ForkJoin.Event → RangeEvent
  | .create i => .create i
  | .begin i => .begin (job.bound i) (job.bound (i + 1))
  | .finish i => .finish (job.bound i) (job.bound (i + 1))
  | .join i => .join i

/-- The upper bound that the first loop computes for the range `i` does not wrap around. -/
theorem RangeJob.Wf.toSize_bound (hw : job.Wf) (hi : i < job.numThreads) :
  toSize (toSize (job.bound i + job.n / job.numThreads)
    + if i < job.n % job.numThreads then 1 else 0) = job.bound (i + 1)
  := by
  have hsucc := Chunks.bound_succ job.n job.numThreads i
  have hle : job.bound (i + 1) ≤ sizeMax :=
    (Chunks.bound_le hw.pos hi).trans hw.n_le
  rw [← RangeJob.bound, ← RangeJob.bound] at hsucc
  rw [hsucc] at hle ⊢
  rw [toSize_of_le (Nat.le_of_add_right_le hle), toSize_of_le hle]

/-! ### Steps of the main thread -/

/-- The first loop writes the argument of a task that the main thread has not come to, and either
creates its thread or calls the function. -/
theorem RangeJob.Wf.forkStep_systemOf
    (hw : job.Wf) (hi : i < job.numThreads) (hfresh : τ i = .fresh) (created : Bool) :
  forkStep job (job.systemOf ⟨.fork i, τ⟩) i (job.bound i) created
    = some (if created then
        (job.systemOf ⟨.fork (i + 1), Function.update τ i .ready⟩, some (job.eventOf (.create i)))
      else (job.systemOf ⟨.inline i, Function.update τ i .inline⟩,
        some (job.eventOf (.begin i))))
  := by
  have hsame : taskTable job.numThreads (fun _ => threadOf) (Function.update τ i .inline)
      = taskTable job.numThreads (fun _ => threadOf) τ := by
    apply taskTable_update_of_eq
    rw [hfresh]
    rfl
  cases created
  · simp [forkStep, systemOf, mainOf, eventOf, hi, hw.toSize_bound hi, hsame, taskTable_update,
      argOf]
  · simp [forkStep, systemOf, mainOf, eventOf, hi, hw.toSize_bound hi, taskTable_update, argOf,
      threadOf]

/-- The first loop ends after the last range. -/
theorem RangeJob.forkStep_systemOf_end (τ : ℕ → ForkJoin.Task) (off : ℕ) (created : Bool) :
  forkStep job (job.systemOf ⟨.fork job.numThreads, τ⟩) job.numThreads off created
    = some (job.systemOf ⟨.join 0, τ⟩, none)
  := by
  simp [forkStep, systemOf, mainOf, combined]

/-- After the call of the function, the argument has its result and no function. -/
theorem RangeJob.inlineStep_systemOf (hi : i < job.numThreads) (hinline : τ i = .inline) :
  inlineStep job (job.systemOf ⟨.inline i, τ⟩) i (job.bound (i + 1))
    = some (job.systemOf ⟨.fork (i + 1), Function.update τ i .done⟩,
        some (job.eventOf (.finish i)))
  := by
  have hsame : taskTable job.numThreads (fun _ => threadOf) (Function.update τ i .done)
      = taskTable job.numThreads (fun _ => threadOf) τ := by
    apply taskTable_update_of_eq
    rw [hinline]
    rfl
  simp [inlineStep, systemOf, hi, hinline, argOf, mainOf, eventOf, hsame, taskTable_update,
    reduceWorker, part]

/-- The second loop joins a thread that has returned and adds its result. -/
theorem RangeJob.joinStep_systemOf_returned (hi : i < job.numThreads) (ht : τ i = .returned) :
  joinStep job (job.systemOf ⟨.join i, τ⟩) i (job.combined i)
    = some (job.systemOf ⟨.join (i + 1), Function.update τ i .joined⟩,
        some (job.eventOf (.join i)))
  := by
  have hsame : taskTable job.numThreads job.argOf (Function.update τ i .joined)
      = taskTable job.numThreads job.argOf τ := by
    apply taskTable_update_of_eq
    rw [ht]
    rfl
  simp [joinStep, systemOf, hi, ht, argOf, threadOf, mainOf, eventOf, hsame, taskTable_update,
    combined]

/-- The second loop adds the result of a range that the main thread ran. -/
theorem RangeJob.joinStep_systemOf_done (hi : i < job.numThreads) (ht : τ i = .done) :
  joinStep job (job.systemOf ⟨.join i, τ⟩) i (job.combined i)
    = some (job.systemOf ⟨.join (i + 1), τ⟩, none)
  := by
  simp [joinStep, systemOf, hi, ht, argOf, mainOf, combined]

/-- The second loop waits for a thread that has not returned. -/
theorem RangeJob.joinStep_systemOf_waits
    (hi : i < job.numThreads) (ht : τ i = .ready ∨ τ i = .running) :
  joinStep job (job.systemOf ⟨.join i, τ⟩) i (job.combined i) = none
  := by
  rcases ht with ht | ht <;> simp [joinStep, systemOf, hi, ht, argOf, threadOf]

/-- The second loop ends after the last range. -/
theorem RangeJob.joinStep_systemOf_end (τ : ℕ → ForkJoin.Task) :
  joinStep job (job.systemOf ⟨.join job.numThreads, τ⟩) job.numThreads
      (job.combined job.numThreads)
    = some (job.systemOf ⟨.returned, τ⟩, none)
  := by
  simp [joinStep, systemOf, mainOf]

/-! ### Steps of the other threads -/

/-- A thread that has not begun calls the function. -/
theorem RangeJob.threadStep_systemOf_ready
    (hi : i < job.numThreads) (main : ForkJoin.Main) (ht : τ i = .ready) :
  threadStep job (job.systemOf ⟨main, τ⟩) i
    = some (job.systemOf ⟨main, Function.update τ i .running⟩, some (job.eventOf (.begin i)))
  := by
  have hsame : taskTable job.numThreads job.argOf (Function.update τ i .running)
      = taskTable job.numThreads job.argOf τ := by
    apply taskTable_update_of_eq
    rw [ht]
    rfl
  simp [threadStep, systemOf, hi, ht, threadOf, argOf, eventOf, hsame,
    taskTable_update]

/-- A thread whose call has returned has stored the result. -/
theorem RangeJob.threadStep_systemOf_running
    (hi : i < job.numThreads) (main : ForkJoin.Main) (ht : τ i = .running) :
  threadStep job (job.systemOf ⟨main, τ⟩) i
    = some (job.systemOf ⟨main, Function.update τ i .returned⟩,
        some (job.eventOf (.finish i)))
  := by
  simp [threadStep, systemOf, hi, ht, threadOf, argOf, eventOf,
    taskTable_update, reduceWorker, part]

/-- There is no other step of a thread. -/
theorem RangeJob.threadStep_systemOf_eq_none
    {main : ForkJoin.Main} (h : i < job.numThreads → τ i ≠ .ready ∧ τ i ≠ .running) :
  threadStep job (job.systemOf ⟨main, τ⟩) i = none
  := by
  by_cases hi : i < job.numThreads
  · obtain ⟨hready, hrunning⟩ := h hi
    cases ht : τ i <;> simp_all [threadStep, systemOf, threadOf]
  · simp [threadStep, systemOf, getElem?_taskTable_of_le (Nat.le_of_not_lt hi)]

/-! ### The refinement -/

variable {t : ForkJoin.State} {s s' : RangeSystem R} {a : RangeAct} {e : Option RangeEvent}

/-- A step of the loops is a step of forking and joining. -/
theorem RangeJob.Wf.exists_step
    (hw : job.Wf) (hinv : ForkJoin.Inv job.numThreads t)
    (h : rangeStep job (job.systemOf t) a = some (s', e)) :
  ∃ e' t', ForkJoin.Step job.numThreads t e' t' ∧ e = e'.map job.eventOf ∧ s' = job.systemOf t'
  := by
  obtain ⟨main, τ⟩ := t
  cases a with
  | main created =>
    cases main with
    | fork i =>
      obtain ⟨hi, -, hfresh⟩ := hinv i
      change forkStep job (job.systemOf ⟨.fork i, τ⟩) i (job.bound i) created = _ at h
      rcases hi.lt_or_eq with hi | rfl
      · rw [hw.forkStep_systemOf hi (hfresh le_rfl)] at h
        cases created <;> cases h
        · exact ⟨some (.begin i), _, .inline hi, rfl, rfl⟩
        · exact ⟨some (.create i), _, .create hi, rfl, rfl⟩
      · rw [forkStep_systemOf_end] at h
        cases h
        exact ⟨none, _, .forked, rfl, rfl⟩
    | inline i =>
      obtain ⟨hi, -, hinline, -⟩ := hinv i
      change inlineStep job (job.systemOf ⟨.inline i, τ⟩) i (job.bound (i + 1)) = _ at h
      rw [inlineStep_systemOf hi (hinline rfl)] at h
      cases h
      exact ⟨some (.finish i), _, .inlineDone, rfl, rfl⟩
    | join i =>
      obtain ⟨hi, -, hforked, -⟩ := hinv i
      change joinStep job (job.systemOf ⟨.join i, τ⟩) i (job.combined i) = _ at h
      rcases hi.lt_or_eq with hi | rfl
      · rcases hforked le_rfl hi with ht | ht | ht | ht
        · rw [joinStep_systemOf_waits hi (.inl ht)] at h
          cases h
        · rw [joinStep_systemOf_waits hi (.inr ht)] at h
          cases h
        · rw [joinStep_systemOf_returned hi ht] at h
          cases h
          exact ⟨some (.join i), _, .join hi ht, rfl, rfl⟩
        · rw [joinStep_systemOf_done hi ht] at h
          cases h
          exact ⟨none, _, .skip hi ht, rfl, rfl⟩
      · rw [joinStep_systemOf_end] at h
        cases h
        exact ⟨none, _, .return, rfl, rfl⟩
    | returned => cases h
  | thread i =>
    change threadStep job (job.systemOf ⟨main, τ⟩) i = _ at h
    by_cases hstep : i < job.numThreads ∧ (τ i = .ready ∨ τ i = .running)
    · obtain ⟨hi, ht | ht⟩ := hstep
      · rw [threadStep_systemOf_ready hi main ht] at h
        cases h
        exact ⟨some (.begin i), _, .begin ht, rfl, rfl⟩
      · rw [threadStep_systemOf_running hi main ht] at h
        cases h
        exact ⟨some (.finish i), _, .finish ht, rfl, rfl⟩
    · rw [threadStep_systemOf_eq_none (by tauto)] at h
      cases h

/-- The loops refine forking and joining. -/
def rangeRefinement (hw : job.Wf) :
    StateMachine.Refinement (rangeMachine job (job.systemOf ⟨.fork 0, fun _ => .fresh⟩))
      (ForkJoin.machine job.numThreads) where
  label := job.eventOf
  rel s t := s = job.systemOf t ∧ ForkJoin.Inv job.numThreads t
  start := by
    rintro s rfl
    exact ⟨_, rfl, rfl, ForkJoin.inv_init job.numThreads⟩
  follow := by
    rintro _ e s' t ⟨rfl, hinv⟩ ⟨a, h⟩
    obtain ⟨e', t', hstep, he, hs'⟩ := hw.exists_step hinv h
    exact ⟨e', t', hstep, he, hs', hinv.step hstep⟩

/-! ### The end of a call -/

/-- A number that every step of the main thread lowers, by more than the thread that it may create
has steps. -/
def RangeMain.rank (m : ℕ) : RangeMain R → ℕ
  | .whole => 2
  | .wholeRunning => 1
  | .fork i _ => (m - i) * 4 + m + 2
  | .inline i _ => (m - i - 1) * 4 + m + 3
  | .join i _ => m - i + 1
  | .returned _ => 0

/-- The number of steps that a thread has left. -/
def RangeThread.steps : RangeThread → ℕ
  | .ready => 2
  | .running => 1
  | .absent | .returned | .joined => 0

/-- The rank of the main thread and the numbers of steps that the other threads have left. -/
def RangeSystem.rank (m : ℕ) (s : RangeSystem R) : ℕ :=
  s.main.rank m + (s.threads.map RangeThread.steps).sum

theorem forkStep_rank
    {off : ℕ} {created : Bool} (hmain : s.main = .fork i off)
    (h : forkStep job s i off created = some (s', e)) :
  s'.rank job.numThreads < s.rank job.numThreads
  := by
  rw [forkStep] at h
  by_cases hi : i < job.numThreads
  · rw [if_pos hi] at h
    by_cases hlen : i < s.args.length ∧ i < s.threads.length
    · rw [if_pos hlen] at h
      have hx := List.getElem?_eq_getElem hlen.2
      have hset := ListSet.sum_map_set_add RangeThread.steps hx .ready
      cases created <;> cases h
      · simp only [RangeSystem.rank, hmain, RangeMain.rank]
        omega
      · simp only [RangeThread.steps] at hset
        simp only [RangeSystem.rank, hmain, RangeMain.rank]
        omega
    · rw [if_neg hlen] at h
      cases h
  · rw [if_neg hi] at h
    cases h
    simp only [RangeSystem.rank, hmain, RangeMain.rank]
    omega

theorem inlineStep_rank
    {off : ℕ} (hmain : s.main = .inline i off) (h : inlineStep job s i off = some (s', e)) :
  s'.rank job.numThreads < s.rank job.numThreads
  := by
  rw [inlineStep] at h
  split at h
  · cases h
    simp only [RangeSystem.rank, hmain, RangeMain.rank]
    omega
  · cases h

theorem joinStep_rank
    {result : R} (hmain : s.main = .join i result)
    (h : joinStep job s i result = some (s', e)) :
  s'.rank job.numThreads < s.rank job.numThreads
  := by
  simp only [joinStep] at h
  split at h
  next hi =>
    split at h
    next arg harg =>
      by_cases hfn : arg.fn
      · rw [if_pos hfn] at h
        split at h
        next hreturned =>
          have hset := ListSet.sum_map_set_add RangeThread.steps hreturned .joined
          cases h
          simp only [RangeThread.steps] at hset
          simp only [RangeSystem.rank, hmain, RangeMain.rank]
          omega
        next => cases h
      · rw [if_neg hfn] at h
        cases h
        simp only [RangeSystem.rank, hmain, RangeMain.rank]
        omega
    next => cases h
  next hi =>
    cases h
    simp only [RangeSystem.rank, hmain, RangeMain.rank]
    omega

theorem threadStep_rank (h : threadStep job s i = some (s', e)) :
  s'.rank job.numThreads < s.rank job.numThreads
  := by
  simp only [threadStep] at h
  split at h
  next hready _ =>
    have hset := ListSet.sum_map_set_add RangeThread.steps hready .running
    cases h
    simp only [RangeThread.steps] at hset
    simp only [RangeSystem.rank]
    omega
  next hrunning _ =>
    have hset := ListSet.sum_map_set_add RangeThread.steps hrunning .returned
    cases h
    simp only [RangeThread.steps] at hset
    simp only [RangeSystem.rank]
    omega
  next => cases h

/-- Every step lowers the rank. -/
theorem rangeStep_rank (h : rangeStep job s a = some (s', e)) :
  s'.rank job.numThreads < s.rank job.numThreads
  := by
  cases a with
  | main created =>
    rw [rangeStep] at h
    split at h
    next hmain =>
      cases h
      simp [RangeSystem.rank, hmain, RangeMain.rank]
    next hmain =>
      cases h
      simp [RangeSystem.rank, hmain, RangeMain.rank]
    next hmain => apply forkStep_rank hmain h
    next hmain => apply inlineStep_rank hmain h
    next hmain => apply joinStep_rank hmain h
    next => cases h
  | thread i => apply threadStep_rank h

/-- While the main thread has not returned, there is a next step. -/
theorem RangeJob.Wf.exists_rangeStep
    (hw : job.Wf) (hinv : ForkJoin.Inv job.numThreads t) (hmain : t.main ≠ .returned) :
  ∃ a out, rangeStep job (job.systemOf t) a = some out
  := by
  obtain ⟨main, τ⟩ := t
  cases main with
  | fork i =>
    obtain ⟨hi, -, hfresh⟩ := hinv i
    rcases hi.lt_or_eq with hi | rfl
    · exact ⟨.main true, _, hw.forkStep_systemOf hi (hfresh le_rfl) true⟩
    · exact ⟨.main true, _, forkStep_systemOf_end τ _ true⟩
  | inline i =>
    obtain ⟨hi, -, hinline, -⟩ := hinv i
    exact ⟨.main true, _, inlineStep_systemOf hi (hinline rfl)⟩
  | join i =>
    obtain ⟨hi, -, hforked, -⟩ := hinv i
    rcases hi.lt_or_eq with hi | rfl
    · -- while the thread that it joins has not returned, that thread has a step
      rcases hforked le_rfl hi with ht | ht | ht | ht
      · exact ⟨.thread i, _, threadStep_systemOf_ready hi _ ht⟩
      · exact ⟨.thread i, _, threadStep_systemOf_running hi _ ht⟩
      · exact ⟨.main true, _, joinStep_systemOf_returned hi ht⟩
      · exact ⟨.main true, _, joinStep_systemOf_done hi ht⟩
    · exact ⟨.main true, _, joinStep_systemOf_end τ⟩
  | returned => exact absurd rfl hmain

/-- However the threads take their steps, the main thread returns what the results of the ranges
are combined to. -/
theorem RangeJob.Wf.returns (hw : job.Wf) :
  (rangeMachine job (job.systemOf ⟨.fork 0, fun _ => .fresh⟩)).Inevitable
    (fun s => s.main = .returned (job.combined job.numThreads))
    (job.systemOf ⟨.fork 0, fun _ => .fresh⟩)
  := by
  apply (StateMachine.Reaches.init rfl).inevitable (RangeSystem.rank job.numThreads)
  · rintro s e s' ⟨a, h⟩
    apply rangeStep_rank h
  · intro log s hs hnot
    obtain ⟨log', t, -, -, rfl, hinv⟩ := (rangeRefinement hw).reaches hs
    have hmain : t.main ≠ .returned := by
      intro hmain
      apply hnot
      rw [systemOf, hmain, mainOf]
    obtain ⟨a, ⟨s', e⟩, h⟩ := hw.exists_rangeStep hinv hmain
    exact ⟨e, s', a, h⟩

end CTemplate

import CTemplate.Hpc.Parallel.Refinement
import CTemplate.Hpc.Parallel.Allocation

/-!
# Runs of the parallel loops

A call of `parallel_for` with at least one number and one thread returns, and when it does, the
ranges for which it called the function are those of a partition of the numbers, all calls have
ended, and the threads that it joined are those that it created, `parallelFor_partition`.  A call of
`parallel_reduce` returns what `map` gives for all the numbers, `parallelReduce_eq_map`.  Both hold
for every outcome of `malloc` and `pthread_create` and every order of steps.
-/

namespace CTemplate

/-- The ranges for which a call of the function began, in order. -/
def rangesBegun (log : List RangeEvent) : List (ℕ × ℕ) :=
  log.filterMap fun
    | .begin start stop => some (start, stop)
    | _ => none

/-- The ranges for which a call of the function ended, in order. -/
def rangesFinished (log : List RangeEvent) : List (ℕ × ℕ) :=
  log.filterMap fun
    | .finish start stop => some (start, stop)
    | _ => none

/-- The threads that were created, in order. -/
def threadsCreated (log : List RangeEvent) : List ℕ :=
  log.filterMap fun
    | .create i => some i
    | _ => none

/-- The threads that were joined, in order. -/
def threadsJoined (log : List RangeEvent) : List ℕ :=
  log.filterMap fun
    | .join i => some i
    | _ => none

/-- What is promised of the calls and threads when the main thread has returned: the ranges are not
empty, no two calls have a number in common, every number below `n` is in the range of a call
and no other number is, the sizes of two ranges differ by at most one, the calls that began
have ended, and the threads that were joined are those that were created, each of them once. -/
structure RangesRun (n : ℕ) (log : List RangeEvent) : Prop where
  nonempty : ∀ r ∈ rangesBegun log, r.1 < r.2
  disjoint : (rangesBegun log).Pairwise fun r r' => r.2 ≤ r'.1 ∨ r'.2 ≤ r.1
  covers : ∀ x, (∃ r ∈ rangesBegun log, r.1 ≤ x ∧ x < r.2) ↔ x < n
  balanced : ∀ r ∈ rangesBegun log, ∀ r' ∈ rangesBegun log, r.2 - r.1 ≤ r'.2 - r'.1 + 1
  finished : (rangesFinished log).Perm (rangesBegun log)
  joined : (threadsJoined log).Perm (threadsCreated log)
  created_once : (threadsCreated log).Nodup

variable {R : Type} {job : RangeJob R} {s : RangeSystem R} {log : List RangeEvent} {r : R}

/-! ### The loops -/

/-- The range `i`. -/
def RangeJob.range (job : RangeJob R) (i : ℕ) : ℕ × ℕ :=
  (job.bound i, job.bound (i + 1))

theorem rangesBegun_map (log : List ForkJoin.Event) :
  rangesBegun (log.map job.eventOf) = (ForkJoin.begun log).map job.range
  := by
  rw [rangesBegun, ForkJoin.begun, List.filterMap_map, List.map_filterMap]
  apply List.filterMap_congr
  rintro (_ | _ | _ | _) _ <;> rfl

theorem rangesFinished_map (log : List ForkJoin.Event) :
  rangesFinished (log.map job.eventOf) = (ForkJoin.finished log).map job.range
  := by
  rw [rangesFinished, ForkJoin.finished, List.filterMap_map, List.map_filterMap]
  apply List.filterMap_congr
  rintro (_ | _ | _ | _) _ <;> rfl

theorem threadsCreated_map (log : List ForkJoin.Event) :
  threadsCreated (log.map job.eventOf) = ForkJoin.created log
  := by
  rw [threadsCreated, ForkJoin.created, List.filterMap_map]
  apply List.filterMap_congr
  rintro (_ | _ | _ | _) _ <;> rfl

theorem threadsJoined_map (log : List ForkJoin.Event) :
  threadsJoined (log.map job.eventOf) = ForkJoin.joined log
  := by
  rw [threadsJoined, ForkJoin.joined, List.filterMap_map]
  apply List.filterMap_congr
  rintro (_ | _ | _ | _) _ <;> rfl

/-- Calls for all the ranges of a job are for a partition of its numbers. -/
theorem RangeJob.Wf.rangesRun
    (hw : job.Wf) (hbegun : (rangesBegun log).Perm ((List.range job.numThreads).map job.range))
    (hfinished : (rangesFinished log).Perm (rangesBegun log))
    (hjoined : (threadsJoined log).Perm (threadsCreated log))
    (hcreated : (threadsCreated log).Nodup) :
  RangesRun job.n log
  := by
  have hmem : ∀ r, r ∈ rangesBegun log ↔ ∃ i < job.numThreads, job.range i = r := by
    intro r
    rw [hbegun.mem_iff]
    simp
  constructor
  · intro r hr
    obtain ⟨i, -, rfl⟩ := (hmem r).mp hr
    apply Chunks.bound_lt_bound_succ hw.pos hw.le
  · rw [hbegun.pairwise_iff fun h => h.symm, List.pairwise_map]
    apply List.nodup_range.imp
    intro i j hij
    apply Chunks.disjoint hij
  · intro x
    constructor
    · rintro ⟨r, hr, -, hx⟩
      obtain ⟨i, hi, rfl⟩ := (hmem r).mp hr
      apply hx.trans_le
      apply Chunks.bound_le hw.pos hi
    · intro hx
      obtain ⟨i, hi, hx⟩ := Chunks.exists_chunk hw.pos hx
      exact ⟨job.range i, (hmem _).mpr ⟨i, hi, rfl⟩, hx⟩
  · intro r hr r' hr'
    obtain ⟨i, -, rfl⟩ := (hmem r).mp hr
    obtain ⟨j, -, rfl⟩ := (hmem r').mp hr'
    apply Chunks.length_le
  · exact hfinished
  · exact hjoined
  · exact hcreated

/-- When the main thread has returned from the loops, the calls were for a partition of the
numbers, and it returned what the results are combined to. -/
theorem RangeJob.Wf.rangesRun_of_returned
    (hw : job.Wf)
    (h : (rangeMachine job (job.systemOf ⟨.fork 0, fun _ => .fresh⟩)).Reaches log s)
    (hmain : s.main = .returned r) :
  RangesRun job.n log ∧ r = job.combined job.numThreads
  := by
  obtain ⟨log', t, ht, rfl, rfl, -⟩ := (rangeRefinement hw).reaches h
  have hlabel : (rangeRefinement hw).label = job.eventOf := rfl
  rw [hlabel]
  obtain ⟨main, τ⟩ := t
  cases main with
  | returned =>
    obtain ⟨hbegun, hfinished, hjoined, hcreated⟩ := ForkJoin.returned_of_reaches ht rfl
    constructor
    · apply hw.rangesRun
      · rw [rangesBegun_map]
        apply hbegun.map
      · rw [rangesFinished_map, rangesBegun_map]
        apply (hfinished.trans hbegun.symm).map
      · rwa [threadsJoined_map, threadsCreated_map]
      · rwa [threadsCreated_map]
    · cases hmain
      rfl
  | _ => cases hmain

/-! ### The whole range -/

/-- Without arrays, the main thread calls the function for the whole range and returns. -/
theorem whole_reaches (h : (rangeMachine job (.alone .whole)).Reaches log s) :
  (s = .alone .whole ∧ log = [])
    ∨ (s = .alone .wholeRunning ∧ log = [.begin 0 job.n])
    ∨ s = .alone (.returned (job.map 0 job.n)) ∧ log = [.begin 0 job.n, .finish 0 job.n]
  := by
  apply h.invariant (I := fun log s => (s = .alone .whole ∧ log = [])
    ∨ (s = .alone .wholeRunning ∧ log = [.begin 0 job.n])
    ∨ s = .alone (.returned (job.map 0 job.n)) ∧ log = [.begin 0 job.n, .finish 0 job.n])
  · rintro s rfl
    exact .inl ⟨rfl, rfl⟩
  · rintro log s e s' - (⟨rfl, rfl⟩ | ⟨rfl, rfl⟩ | ⟨rfl, rfl⟩) ⟨created | i, hstep⟩ <;> cases hstep
    · exact .inr (.inl ⟨rfl, rfl⟩)
    · exact .inr (.inr ⟨rfl, rfl⟩)

theorem whole_returns (job : RangeJob R) :
  (rangeMachine job (.alone .whole)).Inevitable
    (fun s => s.main = .returned (job.map 0 job.n)) (.alone .whole)
  := by
  apply (StateMachine.Reaches.init rfl).inevitable (RangeSystem.rank job.numThreads)
  · rintro s e s' ⟨a, h⟩
    apply rangeStep_rank h
  · intro log s hs hnot
    rcases whole_reaches hs with ⟨rfl, -⟩ | ⟨rfl, -⟩ | ⟨rfl, -⟩
    · exact ⟨_, _, .main true, rfl⟩
    · exact ⟨_, _, .main true, rfl⟩
    · exact absurd rfl hnot

theorem rangesRun_whole {n : ℕ} (hn : 1 ≤ n) :
  RangesRun n [.begin 0 n, .finish 0 n]
  := by
  constructor <;> simp [rangesBegun, rangesFinished, threadsCreated, threadsJoined]
  omega

/-! ### The start of a call -/

variable {n numThreads : ℕ}

/-- When the sizes of the arrays do not wrap around, the loops start with arrays of an element for
each thread, or the main thread runs the whole range. -/
theorem rangeStart_eq
    (job : RangeJob R) (mallocs : Malloc × Malloc) {argSize : ℕ} (hpos : 0 < argSize)
    (hthreads : job.numThreads * pthreadSize ≤ sizeMax)
    (hargs : job.numThreads * argSize ≤ sizeMax)
    (hs : s = rangeStart mallocs argSize ⟨job.numThreads, toSize (job.numThreads * pthreadSize),
      toSize (job.numThreads * argSize)⟩) :
  s = .alone .whole ∨ s = job.systemOf ⟨.fork 0, fun _ => .fresh⟩
  := by
  rw [toSize_of_le hthreads, toSize_of_le hargs] at hs
  simp only [rangeStart] at hs
  split at hs
  next threads args hthreadsBlock hargsBlock =>
    right
    have hzero : job.bound 0 = 0 := Chunks.bound_zero _ _
    rw [mallocs.1.length_block hthreadsBlock, mallocs.2.length_block hargsBlock,
      Nat.mul_div_cancel _ hpos, Nat.mul_div_cancel _ (by decide)] at hs
    simp [hs, RangeJob.systemOf, RangeJob.mainOf, RangeJob.argOf, threadOf, taskTable, hzero,
      List.map_const']
  next => exact .inl hs

/-- The bounds hold of a job when its number of threads was clamped. -/
theorem RangeJob.wf_of_clamp
    (hthreads : job.numThreads = clampThreads job.n numThreads) (hn : 1 ≤ job.n)
    (hmax : job.n ≤ sizeMax) (ht : 1 ≤ numThreads) :
  job.Wf
  := by
  rw [clampThreads_eq] at hthreads
  constructor
  · rw [hthreads]
    omega
  · rw [hthreads]
    apply Nat.min_le_left
  · exact hmax

theorem parallelFor_eq (mallocs : Malloc × Malloc) (hn : 1 ≤ n) (ht : 1 ≤ numThreads) :
  parallelFor mallocs n numThreads = .alone .whole
    ∨ parallelFor mallocs n numThreads
      = (parallelForJob n numThreads).systemOf ⟨.fork 0, fun _ => .fresh⟩
  := by
  have hargs : ¬(n = 0 ∨ numThreads = 0) := by
    omega
  simp only [parallelFor, parallelForAllocation, if_neg hargs]
  by_cases hguard : clampThreads n numThreads > sizeMax / pthreadSize
      ∨ clampThreads n numThreads > sizeMax / chunkArgSize
  · rw [if_pos hguard]
    exact .inl rfl
  · rw [if_neg hguard]
    rw [not_or, Nat.not_lt, Nat.not_lt] at hguard
    have hthreads : clampThreads n numThreads * pthreadSize ≤ sizeMax :=
      (Nat.le_div_iff_mul_le (by decide)).mp hguard.1
    have hchunks : clampThreads n numThreads * chunkArgSize ≤ sizeMax :=
      (Nat.le_div_iff_mul_le (by decide)).mp hguard.2
    apply rangeStart_eq (parallelForJob n numThreads) mallocs (by decide) hthreads hchunks rfl

section Reduce

variable {map : ℕ → ℕ → R} {reduce : R → R → R} {zero : R}

theorem parallelReduce_eq
    (mallocs : Malloc × Malloc) (map : ℕ → ℕ → R) (reduce : R → R → R) (zero : R) (hn : 1 ≤ n)
    (hsizes : min n numThreads * reduceArgSize ≤ sizeMax) :
  parallelReduce mallocs n numThreads zero = .alone .whole
    ∨ 1 < numThreads ∧ parallelReduce mallocs n numThreads zero
      = (parallelReduceJob n numThreads map reduce zero).systemOf ⟨.fork 0, fun _ => .fresh⟩
  := by
  have hn' : n ≠ 0 := by
    omega
  simp only [parallelReduce, parallelReduceAllocation, if_neg hn']
  by_cases ht : numThreads ≤ 1
  · rw [if_pos ht]
    exact .inl rfl
  · rw [if_neg ht]
    rw [← clampThreads_eq] at hsizes
    have hthreads : clampThreads n numThreads * pthreadSize ≤ sizeMax :=
      (Nat.mul_le_mul_left _ (by decide)).trans hsizes
    have hstart := rangeStart_eq (parallelReduceJob n numThreads map reduce zero) mallocs
      (by decide) hthreads hsizes rfl
    rcases hstart with h | h
    · exact .inl h
    · exact .inr ⟨Nat.lt_of_not_le ht, h⟩

/-- When `map` of a range is `reduce` of `map` of its two parts, the results of the ranges before
`i` are combined to `map` of all of their numbers. -/
theorem RangeJob.Wf.combined_eq
    (hw : job.Wf)
    (hsplit : ∀ i j k, i < j → j < k → job.map i k = job.reduce (job.map i j) (job.map j k))
    (i : ℕ) :
  job.combined (i + 1) = job.map 0 (job.bound (i + 1))
  := by
  have hzero : job.bound 0 = 0 := Chunks.bound_zero _ _
  induction i with
  | zero => rw [combined, if_pos rfl, part, hzero]
  | succ i ih =>
    have hlt : ∀ j, job.bound j < job.bound (j + 1) :=
      fun j => Chunks.bound_lt_bound_succ hw.pos hw.le j
    rw [combined, if_neg (Nat.succ_ne_zero i), ih, part]
    symm
    apply hsplit _ _ _ _ (hlt (i + 1))
    apply (Nat.zero_le _).trans_lt (hlt i)

/-- The results of all the ranges are combined to `map` of all the numbers. -/
theorem RangeJob.Wf.combined_numThreads
    (hw : job.Wf)
    (hsplit : ∀ i j k, i < j → j < k → job.map i k = job.reduce (job.map i j) (job.map j k)) :
  job.combined job.numThreads = job.map 0 job.n
  := by
  obtain ⟨m, hm⟩ := Nat.exists_eq_succ_of_ne_zero hw.pos.ne'
  have hend : job.bound job.numThreads = job.n := Chunks.bound_self hw.pos
  rw [hm] at hend ⊢
  rw [hw.combined_eq hsplit, hend]

end Reduce

/-! ### The two functions -/

/-- For at least one number and one thread, `parallel_for` returns, and it has then called the
function for the ranges of a partition of the numbers, the calls have ended, and exactly the threads
that were created were joined. -/
theorem parallelFor_partition
    (mallocs : Malloc × Malloc) (hn : 1 ≤ n) (hmax : n ≤ sizeMax) (ht : 1 ≤ numThreads) :
  (parallelForMachine mallocs n numThreads).Inevitable (fun s => s.main = .returned ())
      (parallelFor mallocs n numThreads)
    ∧ ∀ log s, (parallelForMachine mallocs n numThreads).Reaches log s →
      s.main = .returned () → RangesRun n log
  := by
  have hw : (parallelForJob n numThreads).Wf := RangeJob.wf_of_clamp rfl hn hmax ht
  rw [parallelForMachine]
  rcases parallelFor_eq mallocs hn ht with h | h
  · rw [h]
    constructor
    · apply whole_returns (parallelForJob n numThreads)
    · intro log s hs hmain
      rcases whole_reaches hs with ⟨rfl, -⟩ | ⟨rfl, -⟩ | ⟨-, rfl⟩
      · cases hmain
      · cases hmain
      · apply rangesRun_whole hn
  · rw [h]
    constructor
    · exact hw.returns
    · intro log s hs hmain
      exact (hw.rangesRun_of_returned hs hmain).1

/-- A run in which the second thread is not created, and the first one ends last. -/
theorem parallelFor_partition_five :
  ∃ s, (parallelForMachine (.upTo 64, .upTo 64) 5 2).Reaches
      [.create 0, .begin 3 5, .begin 0 3, .finish 3 5, .finish 0 3, .join 0] s
    ∧ RangesRun 5 [.create 0, .begin 3 5, .begin 0 3, .finish 3 5, .finish 0 3, .join 0]
  := by
  let acts : List RangeAct :=
    [.main true, .main false, .thread 0, .main true, .main true, .thread 0, .main true, .main true,
      .main true]
  have hrun : ∃ s, StateMachine.run (rangeStep (parallelForJob 5 2))
      (parallelFor (.upTo 64, .upTo 64) 5 2) acts
        = some (s, [.create 0, .begin 3 5, .begin 0 3, .finish 3 5, .finish 0 3, .join 0])
      ∧ s.main = .returned () := ⟨_, rfl, rfl⟩
  obtain ⟨s, hrun, hmain⟩ := hrun
  have hs : (parallelForMachine (.upTo 64, .upTo 64) 5 2).Reaches _ s :=
    StateMachine.reaches_of_run rfl hrun
  have hpartition := (parallelFor_partition (.upTo 64, .upTo 64) (by decide) (by decide)
    (by decide)).2 _ s hs hmain
  exact ⟨s, hs, hpartition⟩

/-- When `map` of a range is `reduce` of `map` of its two parts, `parallel_reduce` returns, and it
returns `map` of all the numbers. -/
theorem parallelReduce_eq_map
    (mallocs : Malloc × Malloc) {map : ℕ → ℕ → R} {reduce : R → R → R} (zero : R) (hn : 1 ≤ n)
    (hmax : n ≤ sizeMax) (hsizes : min n numThreads * reduceArgSize ≤ sizeMax)
    (hsplit : ∀ i j k, i < j → j < k → map i k = reduce (map i j) (map j k)) :
  (parallelReduceMachine mallocs n numThreads map reduce zero).Inevitable
      (fun s => s.main = .returned (map 0 n)) (parallelReduce mallocs n numThreads zero)
    ∧ ∀ log s r, (parallelReduceMachine mallocs n numThreads map reduce zero).Reaches log s →
      s.main = .returned r → r = map 0 n
  := by
  rw [parallelReduceMachine]
  rcases parallelReduce_eq mallocs map reduce zero hn hsizes with h | ⟨ht, h⟩
  · rw [h]
    constructor
    · apply whole_returns (parallelReduceJob n numThreads map reduce zero)
    · intro log s r hs hmain
      rcases whole_reaches hs with ⟨rfl, -⟩ | ⟨rfl, -⟩ | ⟨rfl, -⟩ <;> cases hmain
      rfl
  · have hw : (parallelReduceJob n numThreads map reduce zero).Wf :=
      RangeJob.wf_of_clamp rfl hn hmax ht.le
    have hcombined := hw.combined_numThreads hsplit
    rw [h]
    constructor
    · have hreturns := hw.returns
      rw [hcombined] at hreturns
      exact hreturns
    · intro log s r hs hmain
      rw [(hw.rangesRun_of_returned hs hmain).2, hcombined]
      rfl

/-- Two threads and a function that is not commutative. -/
theorem parallelReduce_eq_map_five :
  (parallelReduceMachine (.upTo 80, .upTo 80) 5 2 (fun i k => List.range' i (k - i))
      (· ++ ·) []).Inevitable (fun s => s.main = .returned [0, 1, 2, 3, 4])
    (parallelReduce (.upTo 80, .upTo 80) 5 2 [])
  := by
  have hsplit : ∀ i j k, i < j → j < k →
      List.range' i (k - i) = List.range' i (j - i) ++ List.range' j (k - j) := by
    intro i j k hij hjk
    have hlen : k - i = (j - i) + (k - j) := by
      omega
    have hnext : j = i + 1 * (j - i) := by
      omega
    rw [hlen, ← List.range'_append, ← hnext]
  exact (parallelReduce_eq_map (.upTo 80, .upTo 80) [] (by decide) (by decide) (by decide)
    hsplit).1

end CTemplate

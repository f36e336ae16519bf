import CTemplate.Core.Error
import CTemplate.Core.Memory
import CTemplate.Library.CondVar
import CTemplate.Library.Linked
import CTemplate.Library.StateMachine

/-!
# The thread pool and its threads

`ThreadPool` is the pool of `hpc/thread_pool.c`.  Its queue is a linked list of `Task`
nodes in a heap.  The workers run the loop of `worker`, any number of threads and the
running tasks themselves call `thread_pool_submit`, and one thread calls
`thread_pool_destroy`.  `poolMachine n` interleaves their steps: between taking the mutex
and giving it back a thread is not interrupted, and a node is written by its submitter
before the submitter takes the mutex, when no other thread can reach it.

Each call of `thread_pool_submit` has a number, and `ticket` remembers for a node which
call allocated it, so that the same function submitted twice is two jobs.  The code never
reads these numbers.
-/

namespace CTemplate

/-! ### The pool -/

/-- The address of a `Task` node. -/
abbrev Addr : Type := ℕ

/-- The fields of `Task`: the function, its argument and the next node of the queue. -/
structure Task where
  func : Ptr
  arg : Ptr
  next : Option Addr
  deriving DecidableEq

/-- The allocated `Task` nodes. -/
abbrev Heap : Type := Addr → Option Task

/-- The heap after the assignment `a->next = next`. -/
def Heap.setNext (heap : Heap) (a : Addr) (next : Option Addr) : Heap :=
  Function.update heap a ((heap a).map fun task => { task with next })

/-- The fields of `ThreadPool` that hold data: the number of threads, the first and the
last node of the queue, and whether the pool is shutting down. -/
structure ThreadPool where
  numThreads : ℕ
  queueHead : Option Addr
  queueTail : Option Addr
  shutdown : Bool
  deriving DecidableEq

/-- `thread_pool_create`, given whether its calls of `calloc` and `malloc` and of
`pthread_create` for each thread succeed.  A `pthread_t` has 8 bytes. -/
def threadPoolCreate (calloc malloc : Bool) (created : ℕ → Bool) (numThreads : ℕ) :
    Except ErrorCode ThreadPool :=
  if numThreads = 0 then .error .invalidArg
  else if numThreads > sizeMax / 8 then .error .overflow
  else if !calloc || !malloc then .error .nomem
  else if (List.range numThreads).all created then
    .ok { numThreads, queueHead := none, queueTail := none, shutdown := false }
  else .error .io

/-- `thread_pool_submit`, given the address of the node that `malloc` returned. -/
def threadPoolSubmit (p : ThreadPool) (heap : Heap) (func arg : Ptr) (block : Option Addr) :
    ThreadPool × Heap × ErrorCode :=
  if func = nullPtr then (p, heap, .invalidArg)
  else
    match block with
    | none => (p, heap, .nomem)
    | some t =>
        -- the new node is freed again when the pool is shutting down
        if p.shutdown then (p, heap, .unsupported)
        else
          let heap : Heap := Function.update heap t (some { func, arg, next := none })
          match p.queueTail with
          | some tail => ({ p with queueTail := some t }, heap.setNext tail (some t), .ok)
          | none => ({ p with queueHead := some t, queueTail := some t }, heap, .ok)

/-- What a worker does with the mutex, from the test of its wait loop on. -/
inductive WorkerChoice where
  | wait
  | exit
  | take (t : Addr) (p : ThreadPool)
  deriving DecidableEq

/-- The part of `worker` between taking the mutex and giving it back. -/
def workerSection (p : ThreadPool) (heap : Heap) : WorkerChoice :=
  match p.queueHead with
  | none => if p.shutdown then .exit else .wait
  | some t =>
      let next := (heap t).bind Task.next
      .take t { p with queueHead := next, queueTail := if next = none then none else p.queueTail }

/-! ### The threads -/

/-- The state of a worker thread. -/
inductive Worker where
  /-- About to take the mutex at the top of its loop. -/
  | ready
  /-- Asleep on the condition variable. -/
  | asleep
  /-- Woken and waiting for the mutex. -/
  | woken
  /-- Running the task at `t`, without the mutex. -/
  | running (t : Addr)
  /-- Returned from its thread function. -/
  | exited
  deriving DecidableEq

/-- The condition variable of the pool. -/
def poolCond : CondVar Worker where
  asleep
    | .asleep => true
    | _ => false
  woken
    | .woken => true
    | _ => false
  wake
    | .asleep => .woken
    | t => t
  not_woken := by rintro (_ | _ | _ | _ | _) <;> simp
  woken_wake := by rintro (_ | _ | _ | _ | _) <;> simp
  asleep_wake := by rintro (_ | _ | _ | _ | _) <;> simp

/-- The point at which the caller of `thread_pool_destroy` is. -/
inductive Destroyer where
  | notCalled
  /-- Joining the worker with this index next. -/
  | joining (i : ℕ)
  /-- All workers are joined; in the loop over the remaining nodes. -/
  | draining
  | returned
  deriving DecidableEq

/-- A task that was passed to the call of `thread_pool_submit` with the number `id`. -/
structure Job where
  id : ℕ
  func : Ptr
  arg : Ptr
  deriving DecidableEq

/-- The pool, its nodes, the threads, and the numbering of the submit calls. -/
structure PoolSystem where
  pool : ThreadPool
  heap : Heap
  workers : List Worker
  destroyer : Destroyer
  calls : ℕ
  ticket : Addr → ℕ

/-- The job whose node is at the address `t`. -/
def PoolSystem.job (s : PoolSystem) (t : Addr) : Job where
  id := s.ticket t
  func := ((s.heap t).map Task.func).getD nullPtr
  arg := ((s.heap t).map Task.arg).getD nullPtr

/-- What happened in a step. -/
inductive PoolEvent where
  /-- A call of `thread_pool_submit` returned `code`. -/
  | submit (job : Job) (code : ErrorCode)
  /-- A worker took the job from the queue. -/
  | dequeue (job : Job)
  /-- A worker ran the job to its end. -/
  | execute (job : Job)
  /-- A worker returned. -/
  | exit
  /-- `thread_pool_destroy` set `shutdown`. -/
  | shutdown
  /-- `thread_pool_destroy` freed the job without running it. -/
  | discard (job : Job)
  /-- `thread_pool_destroy` returned. -/
  | destroyed
  deriving DecidableEq

/-- What happens next. -/
inductive PoolAct where
  /-- A thread outside the pool, or the task that worker `i` runs, calls
  `thread_pool_submit`; `chosen` says which sleeping workers the signal wakes. -/
  | submit (caller : Option ℕ) (func arg : Ptr) (block : Option Addr) (chosen : List Bool)
  /-- Worker `i` takes the mutex. -/
  | enter (i : ℕ)
  /-- Worker `i` wakes up spuriously. -/
  | spurious (i : ℕ)
  /-- The task that worker `i` runs returns. -/
  | finish (i : ℕ)
  /-- `thread_pool_destroy` is called and sets `shutdown`. -/
  | destroy
  /-- `thread_pool_destroy` joins the next worker, or leaves the loop over the workers. -/
  | join
  /-- `thread_pool_destroy` tests the loop over the remaining nodes. -/
  | drain

/-- A thread outside the pool may submit as long as the pool exists, a worker may while it
runs a task. -/
def PoolSystem.mayCall (s : PoolSystem) : Option ℕ → Bool
  | none => s.destroyer != .returned
  | some i =>
      match s.workers[i]? with
      | some (.running _) => true
      | _ => false

/-- One step of the threads. -/
def poolStep (s : PoolSystem) : PoolAct → Option (PoolSystem × Option PoolEvent)
  | .submit caller func arg block chosen =>
      -- `malloc` does not return the address of a node that is allocated
      if s.mayCall caller && block.all fun t => (s.heap t).isNone then
        match threadPoolSubmit s.pool s.heap func arg block with
        | (pool, heap, .ok) =>
            match poolCond.signal chosen s.workers with
            | none => none
            | some workers =>
                some ({ s with
                  pool, heap, workers, calls := s.calls + 1
                  ticket := block.elim s.ticket fun t => Function.update s.ticket t s.calls },
                  some (.submit ⟨s.calls, func, arg⟩ .ok))
        | (_, _, code) =>
            some ({ s with calls := s.calls + 1 }, some (.submit ⟨s.calls, func, arg⟩ code))
      else none
  | .enter i =>
      if s.workers[i]? = some .ready ∨ s.workers[i]? = some .woken then
        match workerSection s.pool s.heap with
        | .wait => some ({ s with workers := s.workers.set i .asleep }, none)
        | .exit => some ({ s with workers := s.workers.set i .exited }, some .exit)
        | .take t pool =>
            some ({ s with pool, workers := s.workers.set i (.running t) },
              some (.dequeue (s.job t)))
      else none
  | .spurious i =>
      if s.workers[i]? = some .asleep then
        some ({ s with workers := s.workers.set i .woken }, none)
      else none
  | .finish i =>
      match s.workers[i]? with
      | some (.running t) =>
          some ({ s with
            heap := Function.update s.heap t none, workers := s.workers.set i .ready },
            some (.execute (s.job t)))
      | _ => none
  | .destroy =>
      if s.destroyer = .notCalled then
        some ({ s with
          pool := { s.pool with shutdown := true }
          workers := poolCond.broadcast s.workers
          destroyer := .joining 0 }, some .shutdown)
      else none
  | .join =>
      match s.destroyer with
      | .joining i =>
          if i < s.pool.numThreads then
            if s.workers[i]? = some .exited then
              some ({ s with destroyer := .joining (i + 1) }, none)
            else none
          else some ({ s with destroyer := .draining }, none)
      | _ => none
  | .drain =>
      if s.destroyer = .draining then
        match s.pool.queueHead with
        | some t =>
            some ({ s with
              pool := { s.pool with queueHead := (s.heap t).bind Task.next }
              heap := Function.update s.heap t none }, some (.discard (s.job t)))
        | none => some ({ s with destroyer := .returned }, some .destroyed)
      else none

/-- The pool `pool` with its workers about to start, before any call. -/
def PoolSystem.start (pool : ThreadPool) : PoolSystem where
  pool := pool
  heap := fun _ => none
  workers := List.replicate pool.numThreads .ready
  destroyer := .notCalled
  calls := 0
  ticket := fun _ => 0

/-- The threads on a pool from `thread_pool_create`. -/
def poolMachine (pool : ThreadPool) : StateMachine PoolSystem PoolEvent :=
  .ofStep (fun s => s = .start pool) poolStep

/-! ### What a step can do -/

/-- The pool and the heap after the node `t` was appended to the queue. -/
def PoolSystem.appended (s : PoolSystem) (t : Addr) (func arg : Ptr) : ThreadPool × Heap :=
  let heap : Heap := Function.update s.heap t (some { func, arg, next := none })
  match s.pool.queueTail with
  | some tail => ({ s.pool with queueTail := some t }, heap.setNext tail (some t))
  | none => ({ s.pool with queueHead := some t, queueTail := some t }, heap)

/-- The pool after its first node, which points to `next`, was taken. -/
def ThreadPool.taken (p : ThreadPool) (next : Option Addr) : ThreadPool :=
  { p with queueHead := next, queueTail := if next = none then none else p.queueTail }

/-- The worker is about to take the mutex. -/
def Worker.Enters (worker : Worker) : Prop :=
  worker = .ready ∨ worker = .woken

/-- The steps of the threads, one constructor for each way through the code. -/
inductive PoolStep (s : PoolSystem) : Option PoolEvent → PoolSystem → Prop where
  | submitOk {t : Addr} {func arg : Ptr} {chosen : List Bool} {workers : List Worker}
      (fresh : s.heap t = none) (isOpen : s.pool.shutdown = false)
      (signal : poolCond.signal chosen s.workers = some workers) :
      PoolStep s (some (.submit ⟨s.calls, func, arg⟩ .ok))
        { s with
          pool := (s.appended t func arg).1, heap := (s.appended t func arg).2, workers
          calls := s.calls + 1, ticket := Function.update s.ticket t s.calls }
  | submitFailed {func arg : Ptr} {code : ErrorCode} (failed : code ≠ .ok)
      (refused : code = .unsupported → s.pool.shutdown = true) :
      PoolStep s (some (.submit ⟨s.calls, func, arg⟩ code)) { s with calls := s.calls + 1 }
  | wait {i : ℕ} {worker : Worker} (hw : s.workers[i]? = some worker) (enters : worker.Enters)
      (empty : s.pool.queueHead = none) (isOpen : s.pool.shutdown = false) :
      PoolStep s none { s with workers := s.workers.set i .asleep }
  | exit {i : ℕ} {worker : Worker} (hw : s.workers[i]? = some worker) (enters : worker.Enters)
      (empty : s.pool.queueHead = none) (down : s.pool.shutdown = true) :
      PoolStep s (some .exit) { s with workers := s.workers.set i .exited }
  | take {i : ℕ} {worker : Worker} {t : Addr} (hw : s.workers[i]? = some worker)
      (enters : worker.Enters) (first : s.pool.queueHead = some t) :
      PoolStep s (some (.dequeue (s.job t)))
        { s with
          pool := s.pool.taken ((s.heap t).bind Task.next)
          workers := s.workers.set i (.running t) }
  | spurious {i : ℕ} (hw : s.workers[i]? = some .asleep) :
      PoolStep s none { s with workers := s.workers.set i .woken }
  | finish {i : ℕ} {t : Addr} (hw : s.workers[i]? = some (.running t)) :
      PoolStep s (some (.execute (s.job t)))
        { s with heap := Function.update s.heap t none, workers := s.workers.set i .ready }
  | destroy (first : s.destroyer = .notCalled) :
      PoolStep s (some .shutdown)
        { s with
          pool := { s.pool with shutdown := true }
          workers := poolCond.broadcast s.workers
          destroyer := .joining 0 }
  | join {i : ℕ} (joining : s.destroyer = .joining i) (hw : s.workers[i]? = some .exited) :
      PoolStep s none { s with destroyer := .joining (i + 1) }
  | joined {i : ℕ} (joining : s.destroyer = .joining i) (last : s.pool.numThreads ≤ i) :
      PoolStep s none { s with destroyer := .draining }
  | discard {t : Addr} (draining : s.destroyer = .draining)
      (first : s.pool.queueHead = some t) :
      PoolStep s (some (.discard (s.job t)))
        { s with
          pool := { s.pool with queueHead := (s.heap t).bind Task.next }
          heap := Function.update s.heap t none }
  | destroyed (draining : s.destroyer = .draining) (empty : s.pool.queueHead = none) :
      PoolStep s (some .destroyed) { s with destroyer := .returned }

variable {s s' : PoolSystem} {e : Option PoolEvent}

/-- The ways through `thread_pool_submit`. -/
theorem threadPoolSubmit_cases (s : PoolSystem) (func arg : Ptr) (block : Option Addr) :
  (∃ t, block = some t ∧ s.pool.shutdown = false
      ∧ threadPoolSubmit s.pool s.heap func arg block
        = ((s.appended t func arg).1, (s.appended t func arg).2, .ok))
    ∨ ∃ code, code ≠ .ok ∧ (code = .unsupported → s.pool.shutdown = true)
      ∧ threadPoolSubmit s.pool s.heap func arg block = (s.pool, s.heap, code)
  := by
  unfold threadPoolSubmit
  by_cases hfunc : func = nullPtr
  · right
    use .invalidArg
    simp [hfunc]
  · rw [if_neg hfunc]
    cases block with
    | none =>
        right
        use .nomem
        simp
    | some t =>
        by_cases hdown : s.pool.shutdown = true
        · right
          use .unsupported
          simp [hdown]
        · left
          use t, rfl, by simpa using hdown
          simp only [if_neg hdown, PoolSystem.appended]
          cases s.pool.queueTail <;> rfl

theorem PoolStep.of_submit
    {caller : Option ℕ} {func arg : Ptr} {block : Option Addr} {chosen : List Bool}
    (h : poolStep s (.submit caller func arg block chosen) = some (s', e)) :
  PoolStep s e s'
  := by
  simp only [poolStep] at h
  split at h
  · rename_i hcall
    rcases threadPoolSubmit_cases s func arg block with
      ⟨t, rfl, hopen, hsubmit⟩ | ⟨code, hcode, hrefused, hsubmit⟩
    · rw [hsubmit] at h
      simp only at h
      split at h
      · cases h
      · rename_i workers hsignal
        cases h
        apply PoolStep.submitOk _ hopen hsignal
        simpa using (Bool.and_eq_true_iff.mp hcall).2
    · rw [hsubmit] at h
      cases code
      case ok => exact absurd rfl hcode
      all_goals
        cases h
        exact .submitFailed hcode hrefused
  · cases h

theorem PoolStep.of_enter {i : ℕ} (h : poolStep s (.enter i) = some (s', e)) :
  PoolStep s e s'
  := by
  simp only [poolStep] at h
  split at h
  · rename_i henter
    obtain ⟨worker, hw, henters⟩ : ∃ worker, s.workers[i]? = some worker ∧ worker.Enters := by
      rcases henter with hw | hw
      · exact ⟨_, hw, Or.inl rfl⟩
      · exact ⟨_, hw, Or.inr rfl⟩
    cases hhead : s.pool.queueHead with
    | none =>
        cases hdown : s.pool.shutdown with
        | true =>
            simp only [workerSection, hhead, hdown, if_true] at h
            cases h
            exact .exit hw henters hhead hdown
        | false =>
            simp only [workerSection, hhead, hdown, Bool.false_eq_true, if_false] at h
            cases h
            exact .wait hw henters hhead hdown
    | some t =>
        simp only [workerSection, hhead] at h
        cases h
        exact .take hw henters hhead
  · cases h

theorem PoolStep.of_join (h : poolStep s .join = some (s', e)) :
  PoolStep s e s'
  := by
  simp only [poolStep] at h
  split at h
  · rename_i i hjoining
    split at h
    · split at h
      · rename_i hw
        cases h
        exact .join hjoining hw
      · cases h
    · rename_i hlast
      cases h
      exact .joined hjoining (Nat.le_of_not_lt hlast)
  · cases h

theorem PoolStep.of_drain (h : poolStep s .drain = some (s', e)) :
  PoolStep s e s'
  := by
  simp only [poolStep] at h
  split at h
  · rename_i hdraining
    split at h
    · rename_i t hfirst
      cases h
      exact .discard hdraining hfirst
    · rename_i hempty
      cases h
      exact .destroyed hdraining hempty
  · cases h

/-- Every step that `poolStep` accepts is one of the steps of `PoolStep`. -/
theorem poolStep_cases {a : PoolAct} (h : poolStep s a = some (s', e)) :
  PoolStep s e s'
  := by
  cases a with
  | submit caller func arg block chosen => exact .of_submit h
  | enter i => exact .of_enter h
  | spurious i =>
      simp only [poolStep] at h
      split at h
      · rename_i hw
        cases h
        exact .spurious hw
      · cases h
  | finish i =>
      simp only [poolStep] at h
      split at h
      · rename_i t hw
        cases h
        exact .finish hw
      · cases h
  | destroy =>
      simp only [poolStep] at h
      split at h
      · rename_i hfirst
        cases h
        exact .destroy hfirst
      · cases h
  | join => exact .of_join h
  | drain => exact .of_drain h

end CTemplate

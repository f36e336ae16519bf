import CTemplate.Core.Memory
import CTemplate.Library.StateMachine

/-!
# Parallel loops

`parallel_for` and `parallel_reduce` of `hpc/parallel.c`.  Both cut the numbers below `n` into
ranges, create a thread for each range or run the range themselves when that fails, and join the
threads.  They differ in their checks and in that `parallel_reduce` combines the results of the
ranges; the loops are the same, `rangeStep`, for a type of results that is the unit type for
`parallel_for`.

A state has the arrays `args` and `threads`, whose elements hold nothing before they are written.
An element of `threads` stands for the thread whose handle it holds.  The steps of the main thread
and of the threads that were created come in any order.  There is no step that reads or writes
outside the arrays, reads an element that was not written, or joins a thread that was not created or
was joined before.
-/

namespace CTemplate

/-- `sizeof(pthread_t)` -/
def pthreadSize : ℕ := 8

/-- `sizeof(ChunkArg)` -/
def chunkArgSize : ℕ := 32

/-- `sizeof(ReduceArg)` -/
def reduceArgSize : ℕ := 40

/-- `ChunkArg` and, with a result, `ReduceArg`: the fields `start` and `end`, whether the pointer
`body` or `map` is not null, and the field `result`. -/
structure RangeArg (R : Type) where
  start : ℕ
  stop : ℕ
  fn : Bool
  result : R
  deriving DecidableEq

/-- What the loops work with: the number `n`, the number of threads after it was bounded by `n`, the
functions `map` and `reduce`, and `0.0`. -/
structure RangeJob (R : Type) where
  n : ℕ
  numThreads : ℕ
  map : ℕ → ℕ → R
  reduce : R → R → R
  zero : R

/-- A thread. -/
inductive RangeThread where
  /-- It was not created. -/
  | absent
  /-- It has not yet called the function. -/
  | ready
  /-- It is in the call of the function. -/
  | running
  | returned
  | joined
  deriving DecidableEq

/-- Where the main thread is. -/
inductive RangeMain (R : Type) where
  /-- It calls the function for the whole range next. -/
  | whole
  /-- It is in that call. -/
  | wholeRunning
  /-- It is in the first loop. -/
  | fork (i off : ℕ)
  /-- It is in the call of the function for the range `i`, in the first loop. -/
  | inline (i off : ℕ)
  /-- It is in the second loop. -/
  | join (i : ℕ) (result : R)
  | returned (result : R)
  deriving DecidableEq

/-- The arrays and the main thread. -/
structure RangeSystem (R : Type) where
  args : List (Option (RangeArg R))
  threads : List RangeThread
  main : RangeMain R
  deriving DecidableEq

/-- What happens: a call of the function begins or ends, or a thread is created or joined. -/
inductive RangeEvent where
  | begin (start stop : ℕ)
  | finish (start stop : ℕ)
  | create (i : ℕ)
  | join (i : ℕ)
  deriving DecidableEq

/-- What comes next: the main thread takes a step, in which `pthread_create` succeeds or not, or the
thread `i` does. -/
inductive RangeAct where
  | main (created : Bool)
  | thread (i : ℕ)
  deriving DecidableEq

variable {R : Type}

/-! ### The loops -/

/-- `reduce_worker` -/
def reduceWorker (map : ℕ → ℕ → R) (r : RangeArg R) : RangeArg R :=
  { r with result := map r.start r.stop }

/-- `chunk_worker`, whose function returns nothing. -/
def chunkWorker (c : RangeArg Unit) : RangeArg Unit :=
  reduceWorker (fun _ _ => ()) c

/-- A turn of the first loop, up to the call of the function when `pthread_create` fails. -/
def forkStep (job : RangeJob R) (s : RangeSystem R) (i off : ℕ) (created : Bool) :
    Option (RangeSystem R × Option RangeEvent) :=
  if i < job.numThreads then
    if i < s.args.length ∧ i < s.threads.length then
      let extra := if i < job.n % job.numThreads then 1 else 0
      let stop := toSize (toSize (off + job.n / job.numThreads) + extra)
      let args := s.args.set i (some ⟨off, stop, true, job.zero⟩)
      if created then
        some ({ args, threads := s.threads.set i .ready, main := .fork (i + 1) stop },
          some (.create i))
      else some ({ s with args, main := .inline i stop }, some (.begin off stop))
    else none
  else some ({ s with main := .join 0 job.zero }, none)

/-- The end of a turn of the first loop in which `pthread_create` failed. -/
def inlineStep (job : RangeJob R) (s : RangeSystem R) (i off : ℕ) :
    Option (RangeSystem R × Option RangeEvent) :=
  match s.args[i]? with
  | some (some arg) =>
      some ({ s with
        args := s.args.set i (some { reduceWorker job.map arg with fn := false })
        main := .fork (i + 1) off }, some (.finish arg.start arg.stop))
  | _ => none

/-- A turn of the second loop.  There is no step while the thread that it joins has not returned. -/
def joinStep (job : RangeJob R) (s : RangeSystem R) (i : ℕ) (result : R) :
    Option (RangeSystem R × Option RangeEvent) :=
  if i < job.numThreads then
    match s.args[i]? with
    | some (some arg) =>
        let result := if i = 0 then arg.result else job.reduce result arg.result
        if arg.fn then
          if s.threads[i]? = some .returned then
            some ({ s with
              threads := s.threads.set i .joined
              main := .join (i + 1) result }, some (.join i))
          else none
        else some ({ s with main := .join (i + 1) result }, none)
    | _ => none
  else some ({ s with main := .returned result }, none)

/-- A step of the thread `i`, which runs the worker on `args[i]`. -/
def threadStep (job : RangeJob R) (s : RangeSystem R) (i : ℕ) :
    Option (RangeSystem R × Option RangeEvent) :=
  match s.threads[i]?, s.args[i]? with
  | some .ready, some (some arg) =>
      some ({ s with threads := s.threads.set i .running }, some (.begin arg.start arg.stop))
  | some .running, some (some arg) =>
      some ({ s with
        args := s.args.set i (some (reduceWorker job.map arg))
        threads := s.threads.set i .returned }, some (.finish arg.start arg.stop))
  | _, _ => none

/-- A step of one of the threads. -/
def rangeStep (job : RangeJob R) (s : RangeSystem R) :
    RangeAct → Option (RangeSystem R × Option RangeEvent)
  | .main created =>
      match s.main with
      | .whole => some ({ s with main := .wholeRunning }, some (.begin 0 job.n))
      | .wholeRunning =>
          some ({ s with main := .returned (job.map 0 job.n) }, some (.finish 0 job.n))
      | .fork i off => forkStep job s i off created
      | .inline i off => inlineStep job s i off
      | .join i result => joinStep job s i result
      | .returned _ => none
  | .thread i => threadStep job s i

/-- The threads of a call that starts in the state `s₀`. -/
def rangeMachine (job : RangeJob R) (s₀ : RangeSystem R) :
    StateMachine (RangeSystem R) RangeEvent :=
  .ofStep (fun s => s = s₀) (rangeStep job)

/-! ### The two functions -/

/-- `if (num_threads > n) num_threads = n` -/
def clampThreads (n numThreads : ℕ) : ℕ :=
  if numThreads > n then n else numThreads

/-- The calls of `malloc` that a function makes for `threads` and `args`: the number of threads and
the numbers of bytes. -/
structure RangeAllocation where
  numThreads : ℕ
  threadsBytes : ℕ
  argsBytes : ℕ
  deriving DecidableEq

/-- The state without arrays. -/
def RangeSystem.alone (main : RangeMain R) : RangeSystem R where
  args := []
  threads := []
  main := main

/-- The state after the calls of `malloc`, for elements of `args` of `argSize` bytes. -/
def rangeStart (mallocs : Malloc × Malloc) (argSize : ℕ) (alloc : RangeAllocation) :
    RangeSystem R :=
  match mallocs.1.block alloc.threadsBytes, mallocs.2.block alloc.argsBytes with
  | some threads, some args =>
      { args := List.replicate (args.length / argSize) none
        threads := List.replicate (threads.length / pthreadSize) .absent
        main := .fork 0 0 }
  | _, _ => .alone .whole

/-- The part of `parallel_for` before its calls of `malloc`, which it may not make. -/
def parallelForAllocation (n numThreads : ℕ) : Option RangeAllocation :=
  if n = 0 ∨ numThreads = 0 then none
  else
    let numThreads := clampThreads n numThreads
    if numThreads > sizeMax / pthreadSize ∨ numThreads > sizeMax / chunkArgSize then none
    else some ⟨numThreads, toSize (numThreads * pthreadSize), toSize (numThreads * chunkArgSize)⟩

/-- `parallel_for`, up to its loops. -/
def parallelFor (mallocs : Malloc × Malloc) (n numThreads : ℕ) : RangeSystem Unit :=
  match parallelForAllocation n numThreads with
  | none => .alone (if n = 0 ∨ numThreads = 0 then .returned () else .whole)
  | some alloc => rangeStart mallocs chunkArgSize alloc

/-- What the loops of `parallel_for` work with. -/
def parallelForJob (n numThreads : ℕ) : RangeJob Unit where
  n := n
  numThreads := clampThreads n numThreads
  map _ _ := ()
  reduce _ _ := ()
  zero := ()

/-- The threads of `parallel_for` run `chunk_worker`. -/
theorem reduceWorker_parallelForJob (n numThreads : ℕ) :
  reduceWorker (parallelForJob n numThreads).map = chunkWorker
  := rfl

/-- The threads of a call of `parallel_for`. -/
def parallelForMachine (mallocs : Malloc × Malloc) (n numThreads : ℕ) :
    StateMachine (RangeSystem Unit) RangeEvent :=
  rangeMachine (parallelForJob n numThreads) (parallelFor mallocs n numThreads)

/-- The part of `parallel_reduce` before its calls of `malloc`, which it may not make. -/
def parallelReduceAllocation (n numThreads : ℕ) : Option RangeAllocation :=
  if n = 0 then none
  else if numThreads ≤ 1 then none
  else
    let numThreads := clampThreads n numThreads
    some ⟨numThreads, toSize (numThreads * pthreadSize), toSize (numThreads * reduceArgSize)⟩

/-- `parallel_reduce`, up to its loops. -/
def parallelReduce (mallocs : Malloc × Malloc) (n numThreads : ℕ) (zero : R) : RangeSystem R :=
  match parallelReduceAllocation n numThreads with
  | none => .alone (if n = 0 then .returned zero else .whole)
  | some alloc => rangeStart mallocs reduceArgSize alloc

/-- What the loops of `parallel_reduce` work with. -/
def parallelReduceJob (n numThreads : ℕ) (map : ℕ → ℕ → R) (reduce : R → R → R) (zero : R) :
    RangeJob R where
  n := n
  numThreads := clampThreads n numThreads
  map := map
  reduce := reduce
  zero := zero

/-- The threads of a call of `parallel_reduce`. -/
def parallelReduceMachine (mallocs : Malloc × Malloc) (n numThreads : ℕ) (map : ℕ → ℕ → R)
    (reduce : R → R → R) (zero : R) : StateMachine (RangeSystem R) RangeEvent :=
  rangeMachine (parallelReduceJob n numThreads map reduce zero)
    (parallelReduce mallocs n numThreads zero)

end CTemplate

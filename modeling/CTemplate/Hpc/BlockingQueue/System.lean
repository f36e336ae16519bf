import CTemplate.Core.Error
import CTemplate.Core.Memory
import CTemplate.Library.CondVar
import CTemplate.Library.Slots
import CTemplate.Library.StateMachine

/-!
# The blocking queue and its threads

`BlockingQueue` is the bounded queue of `hpc/blocking_queue.c`.  Any number of threads
call `bq_push`, `bq_pop` and `bq_close` on it.  Between taking the mutex and giving it
back, by returning or by waiting on a condition variable, a thread is not interrupted, so
this is one step of `bqMachine q n`: `bqPush` and `bqPop` run from the test of the wait
loop to the end of the call, or wait.

A waiting thread sleeps until a signal, a broadcast or a spurious wakeup wakes it.  It is
then woken but not back in the mutex until a later step lets it test its loop again, and
any other thread may take the mutex first.
-/

namespace CTemplate

/-! ### The queue -/

/-- The fields of `BlockingQueue`: the slots, the width of a slot, the number of slots,
the slot of the oldest element, the number of elements, and whether `bq_close` was
called. -/
structure BlockingQueue where
  data : List Byte
  elemSize : ℕ
  cap : ℕ
  head : ℕ
  len : ℕ
  closed : Bool
  deriving DecidableEq

/-- `bq_init`, given the outcome of its call of `malloc`. -/
def bqInit (malloc : Malloc) (elemSize capacity : ℕ) : Except ErrorCode BlockingQueue :=
  if elemSize = 0 ∨ capacity = 0 then .error .invalidArg
  else if capacity > sizeMax / elemSize then .error .overflow
  else
    match malloc.block (toSize (capacity * elemSize)) with
    | none => .error .nomem
    | some data => .ok { data, elemSize, cap := capacity, head := 0, len := 0, closed := false }

/-- The queue after an element was copied behind the last one. -/
def BlockingQueue.pushed (q : BlockingQueue) (elem : List Byte) : BlockingQueue :=
  let tail := toSize (q.head + q.len) % q.cap
  { q with data := Slots.write q.elemSize q.data tail elem, len := toSize (q.len + 1) }

/-- The queue after the oldest element was copied out. -/
def BlockingQueue.popped (q : BlockingQueue) : BlockingQueue :=
  { q with head := toSize (q.head + 1) % q.cap, len := q.len - 1 }

/-- `bq_push` from the test of its wait loop on: `none` when the thread waits on
`not_full`, otherwise the queue and the code with which the call returns. -/
def bqPush (q : BlockingQueue) (elem : List Byte) : Option (BlockingQueue × ErrorCode) :=
  if q.len = q.cap ∧ q.closed = false then none
  else if q.closed = true then some (q, .unsupported)
  else some (q.pushed elem, .ok)

/-- `bq_pop` from the test of its wait loop on: `none` when the thread waits on
`not_empty`, otherwise the queue and the element or the error code with which the call
returns. -/
def bqPop (q : BlockingQueue) : Option (BlockingQueue × Except ErrorCode (List Byte)) :=
  if q.len = 0 ∧ q.closed = false then none
  else if q.len = 0 then some (q, .error .notFound)
  else some (q.popped, .ok (Slots.read q.elemSize q.data q.head))

/-- The assignment of `bq_close`. -/
def bqClose (q : BlockingQueue) : BlockingQueue :=
  { q with closed := true }

/-! ### The threads -/

/-- The state of a thread that passes elements of `w` bytes. -/
inductive BqThread (w : ℕ) where
  /-- Outside the calls. -/
  | idle
  /-- In `bq_push`, asleep on `not_full`. -/
  | asleepPush (elem : Elem w)
  /-- In `bq_push`, woken and waiting for the mutex. -/
  | wokenPush (elem : Elem w)
  /-- In `bq_pop`, asleep on `not_empty`. -/
  | asleepPop
  /-- In `bq_pop`, woken and waiting for the mutex. -/
  | wokenPop
  deriving DecidableEq

variable {w : ℕ}

/-- The condition variable `not_full`. -/
def notFull : CondVar (BqThread w) where
  asleep
    | .asleepPush _ => true
    | _ => false
  woken
    | .wokenPush _ => true
    | _ => false
  wake
    | .asleepPush elem => .wokenPush elem
    | t => t
  not_woken := by rintro (_ | _ | _ | _ | _) <;> simp
  woken_wake := by rintro (_ | _ | _ | _ | _) <;> simp
  asleep_wake := by rintro (_ | _ | _ | _ | _) <;> simp

/-- The condition variable `not_empty`. -/
def notEmpty : CondVar (BqThread w) where
  asleep
    | .asleepPop => true
    | _ => false
  woken
    | .wokenPop => true
    | _ => false
  wake
    | .asleepPop => .wokenPop
    | t => t
  not_woken := by rintro (_ | _ | _ | _ | _) <;> simp
  woken_wake := by rintro (_ | _ | _ | _ | _) <;> simp
  asleep_wake := by rintro (_ | _ | _ | _ | _) <;> simp

/-- The queue and the threads that use it. -/
structure BqSystem (w : ℕ) where
  q : BlockingQueue
  threads : List (BqThread w)
  deriving DecidableEq

/-- A call that ended its critical section: a push of an element with its code, a pop
with its element or error code, or a close. -/
inductive BqEvent where
  | push (elem : List Byte) (code : ErrorCode)
  | pop (result : Except ErrorCode (List Byte))
  | close

/-- What happens next.  `chosen` says which sleeping threads a signal wakes. -/
inductive BqAct (w : ℕ) where
  /-- Thread `i` calls `bq_push` and gets the mutex. -/
  | push (i : ℕ) (elem : Elem w) (chosen : List Bool)
  /-- Thread `i` calls `bq_pop` and gets the mutex. -/
  | pop (i : ℕ) (chosen : List Bool)
  /-- Thread `i` calls `bq_close`. -/
  | close (i : ℕ)
  /-- Thread `i`, which was woken, gets the mutex back. -/
  | resume (i : ℕ) (chosen : List Bool)
  /-- Thread `i` wakes up spuriously. -/
  | spurious (i : ℕ)

/-- Thread `i` runs `bq_push` from the test of the wait loop on. -/
def BqSystem.enterPush (s : BqSystem w) (i : ℕ) (elem : Elem w) (chosen : List Bool) :
    Option (BqSystem w × Option BqEvent) :=
  match bqPush s.q elem.val with
  | none => some ({ s with threads := s.threads.set i (.asleepPush elem) }, none)
  | some (q, .ok) =>
      match notEmpty.signal chosen (s.threads.set i .idle) with
      | none => none
      | some threads => some (⟨q, threads⟩, some (.push elem.val .ok))
  | some (q, code) => some (⟨q, s.threads.set i .idle⟩, some (.push elem.val code))

/-- Thread `i` runs `bq_pop` from the test of the wait loop on. -/
def BqSystem.enterPop (s : BqSystem w) (i : ℕ) (chosen : List Bool) :
    Option (BqSystem w × Option BqEvent) :=
  match bqPop s.q with
  | none => some ({ s with threads := s.threads.set i .asleepPop }, none)
  | some (q, .ok out) =>
      match notFull.signal chosen (s.threads.set i .idle) with
      | none => none
      | some threads => some (⟨q, threads⟩, some (.pop (.ok out)))
  | some (q, .error code) => some (⟨q, s.threads.set i .idle⟩, some (.pop (.error code)))

/-- One step of the threads. -/
def bqStep (s : BqSystem w) : BqAct w → Option (BqSystem w × Option BqEvent)
  | .push i elem chosen =>
      if s.threads[i]? = some .idle then s.enterPush i elem chosen else none
  | .pop i chosen =>
      if s.threads[i]? = some .idle then s.enterPop i chosen else none
  | .close i =>
      if s.threads[i]? = some .idle then
        some (⟨bqClose s.q, notFull.broadcast (notEmpty.broadcast s.threads)⟩, some .close)
      else none
  | .resume i chosen =>
      match s.threads[i]? with
      | some (.wokenPush elem) => s.enterPush i elem chosen
      | some .wokenPop => s.enterPop i chosen
      | _ => none
  | .spurious i =>
      match s.threads[i]? with
      | some (.asleepPush elem) =>
          some ({ s with threads := s.threads.set i (.wokenPush elem) }, none)
      | some .asleepPop => some ({ s with threads := s.threads.set i .wokenPop }, none)
      | _ => none

/-- `n` threads on the queue `q`, all outside the calls at first. -/
def bqMachine (w : ℕ) (q : BlockingQueue) (n : ℕ) : StateMachine (BqSystem w) BqEvent :=
  .ofStep (fun s => s = ⟨q, List.replicate n .idle⟩) bqStep

/-! ### What a step can do -/

/-- The thread is about to enter the mutex in a call of `bq_push`. -/
def BqThread.EntersPush (t : BqThread w) (elem : Elem w) : Prop :=
  t = .idle ∨ t = .wokenPush elem

/-- The thread is about to enter the mutex in a call of `bq_pop`. -/
def BqThread.EntersPop (t : BqThread w) : Prop :=
  t = .idle ∨ t = .wokenPop

/-- The steps of the threads, one constructor for each way through the code. -/
inductive BqStep (s : BqSystem w) : Option BqEvent → BqSystem w → Prop where
  | pushWait {i : ℕ} {t : BqThread w} {elem : Elem w} (ht : s.threads[i]? = some t)
      (enters : t.EntersPush elem) (full : s.q.len = s.q.cap) (isOpen : s.q.closed = false) :
      BqStep s none { s with threads := s.threads.set i (.asleepPush elem) }
  | pushOk {i : ℕ} {t : BqThread w} {elem : Elem w} {chosen : List Bool}
      {threads : List (BqThread w)} (ht : s.threads[i]? = some t)
      (enters : t.EntersPush elem) (room : s.q.len ≠ s.q.cap) (isOpen : s.q.closed = false)
      (signal : notEmpty.signal chosen (s.threads.set i .idle) = some threads) :
      BqStep s (some (.push elem.val .ok)) ⟨s.q.pushed elem.val, threads⟩
  | pushRefused {i : ℕ} {t : BqThread w} {elem : Elem w} (ht : s.threads[i]? = some t)
      (enters : t.EntersPush elem) (closed : s.q.closed = true) :
      BqStep s (some (.push elem.val .unsupported)) ⟨s.q, s.threads.set i .idle⟩
  | popWait {i : ℕ} {t : BqThread w} (ht : s.threads[i]? = some t)
      (enters : t.EntersPop) (empty : s.q.len = 0) (isOpen : s.q.closed = false) :
      BqStep s none { s with threads := s.threads.set i .asleepPop }
  | popOk {i : ℕ} {t : BqThread w} {chosen : List Bool} {threads : List (BqThread w)}
      (ht : s.threads[i]? = some t) (enters : t.EntersPop) (filled : s.q.len ≠ 0)
      (signal : notFull.signal chosen (s.threads.set i .idle) = some threads) :
      BqStep s (some (.pop (.ok (Slots.read s.q.elemSize s.q.data s.q.head))))
        ⟨s.q.popped, threads⟩
  | popDrained {i : ℕ} {t : BqThread w} (ht : s.threads[i]? = some t)
      (enters : t.EntersPop) (empty : s.q.len = 0) (closed : s.q.closed = true) :
      BqStep s (some (.pop (.error .notFound))) ⟨s.q, s.threads.set i .idle⟩
  | close :
      BqStep s (some .close)
        ⟨bqClose s.q, notFull.broadcast (notEmpty.broadcast s.threads)⟩
  | wakePush {i : ℕ} {elem : Elem w} (ht : s.threads[i]? = some (.asleepPush elem)) :
      BqStep s none { s with threads := s.threads.set i (.wokenPush elem) }
  | wakePop {i : ℕ} (ht : s.threads[i]? = some .asleepPop) :
      BqStep s none { s with threads := s.threads.set i .wokenPop }

variable {s s' : BqSystem w} {e : Option BqEvent}

theorem BqSystem.enterPush_cases
    {i : ℕ} {t : BqThread w} {elem : Elem w} {chosen : List Bool}
    (ht : s.threads[i]? = some t) (enters : t.EntersPush elem)
    (h : s.enterPush i elem chosen = some (s', e)) :
  BqStep s e s'
  := by
  unfold enterPush bqPush at h
  by_cases hfull : s.q.len = s.q.cap ∧ s.q.closed = false
  · rw [if_pos hfull] at h
    cases h
    exact .pushWait ht enters hfull.1 hfull.2
  · rw [if_neg hfull] at h
    cases hclosed : s.q.closed with
    | true =>
        rw [hclosed, if_pos rfl] at h
        cases h
        exact .pushRefused ht enters hclosed
    | false =>
        rw [hclosed] at h
        simp only [Bool.false_eq_true, if_false] at h
        split at h
        · cases h
        · rename_i threads hsignal
          cases h
          apply BqStep.pushOk ht enters _ hclosed hsignal
          intro hlen
          apply hfull ⟨hlen, hclosed⟩

theorem BqSystem.enterPop_cases
    {i : ℕ} {t : BqThread w} {chosen : List Bool} (ht : s.threads[i]? = some t)
    (enters : t.EntersPop) (h : s.enterPop i chosen = some (s', e)) :
  BqStep s e s'
  := by
  unfold enterPop bqPop at h
  by_cases hwait : s.q.len = 0 ∧ s.q.closed = false
  · rw [if_pos hwait] at h
    cases h
    exact .popWait ht enters hwait.1 hwait.2
  · rw [if_neg hwait] at h
    by_cases hempty : s.q.len = 0
    · rw [if_pos hempty] at h
      cases h
      apply BqStep.popDrained ht enters hempty
      cases hclosed : s.q.closed with
      | true => rfl
      | false => exact absurd ⟨hempty, hclosed⟩ hwait
    · rw [if_neg hempty] at h
      simp only at h
      split at h
      · cases h
      · rename_i threads hsignal
        cases h
        exact .popOk ht enters hempty hsignal

/-- Every step that `bqStep` accepts is one of the steps of `BqStep`. -/
theorem bqStep_cases {a : BqAct w} (h : bqStep s a = some (s', e)) :
  BqStep s e s'
  := by
  cases a with
  | push i elem chosen =>
      simp only [bqStep] at h
      split at h
      · rename_i ht
        apply BqSystem.enterPush_cases ht (Or.inl rfl) h
      · cases h
  | pop i chosen =>
      simp only [bqStep] at h
      split at h
      · rename_i ht
        apply BqSystem.enterPop_cases ht (Or.inl rfl) h
      · cases h
  | close i =>
      simp only [bqStep] at h
      split at h
      · cases h
        exact .close
      · cases h
  | resume i chosen =>
      simp only [bqStep] at h
      split at h
      · rename_i elem ht
        apply BqSystem.enterPush_cases ht (Or.inr rfl) h
      · rename_i ht
        apply BqSystem.enterPop_cases ht (Or.inr rfl) h
      · cases h
  | spurious i =>
      simp only [bqStep] at h
      split at h
      · rename_i elem ht
        cases h
        exact .wakePush ht
      · rename_i ht
        cases h
        exact .wakePop ht
      · cases h

end CTemplate

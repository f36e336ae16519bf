import CTemplate.Hpc.ThreadPool.Delivery

/-!
# Wakeups of the thread pool

A submit signals the condition variable of the pool once, and a busy worker may take the
task that a sleeping one was signalled for.  That loses no wakeup: while a worker sleeps
there are at least as many woken workers as waiting tasks, and no worker sleeps once the
pool is shutting down.  So the pool is never stuck with all its workers asleep.
-/

namespace CTemplate

variable {s s' : PoolSystem} {e : Option PoolEvent} {t : WorkQueue.State Job}

/-- The woken workers account for the waiting jobs, and no worker sleeps while the pool is
shutting down. -/
structure PoolAccounted (s : PoolSystem) (t : WorkQueue.State Job) : Prop where
  waiting : poolCond.Accounted s.workers t.waiting.length
  down : s.pool.shutdown = true → s.workers.countP poolCond.asleep = 0

/-- While the pool is shutting down a worker that does not go to sleep changes nothing. -/
theorem PoolAccounted.set_down
    (h : PoolAccounted s t) (hdown : s.pool.shutdown = true) {i : ℕ} {worker worker' : Worker}
    (hw : s.workers[i]? = some worker) (hawake : poolCond.asleep worker' = false) :
  (s.workers.set i worker').countP poolCond.asleep = 0
  := CondVar.countP_asleep_set (h.down hdown) hw hawake

/-- An empty list represents no waiting jobs. -/
theorem PoolQueue.waiting_eq_nil (h : PoolQueue s t) (hempty : s.pool.queueHead = none) :
  t.waiting = []
  := by
  obtain ⟨nodes, hshape, rfl⟩ := h
  have hhead := hshape.chain.head?_eq
  rw [hempty] at hhead
  rw [List.head?_eq_none_iff.mp hhead.symm]
  rfl

/-- Every step keeps the accounting. -/
theorem PoolAccounted.step
    (h : PoolAccounted s t) (hrel : PoolRel s t) (hstep : PoolStep s e s') :
  ∃ t', PoolAccounted s' t' ∧ PoolRel s' t'
  := by
  have hcontrol' := hrel.control.step hstep
  cases hstep with
  | @submitOk a func arg chosen workers fresh isOpen signal =>
      obtain ⟨t', haccept, hqueue'⟩ := hrel.queue.submitOk fresh func arg isOpen signal rfl
      refine ⟨t', ⟨?_, ?_⟩, hcontrol', hqueue'⟩
      · rw [haccept.length_accept]
        apply h.waiting.signal signal
      · intro hdown
        change (s.appended a func arg).1.shutdown = true at hdown
        rw [(s.appended_fields a func arg).2, isOpen] at hdown
        cases hdown
  | submitFailed =>
      exact ⟨t, ⟨h.waiting, h.down⟩, hcontrol', hrel.queue.of_destroyer _ _⟩
  | wait hw enters empty isOpen =>
      refine ⟨t, ⟨?_, ?_⟩, hcontrol', hrel.queue.quiet hw enters.node? rfl⟩
      · rw [hrel.queue.waiting_eq_nil empty]
        exact CondVar.accounted_zero
      · intro hdown
        rw [show s.pool.shutdown = true from hdown] at isOpen
        cases isOpen
  | exit hw enters empty down =>
      have hnone := h.set_down down hw (show poolCond.asleep .exited = false from rfl)
      exact ⟨t, ⟨CondVar.accounted_of_none hnone, fun _ => hnone⟩, hcontrol',
        hrel.queue.quiet hw enters.node? rfl⟩
  | take hw enters first =>
      obtain ⟨t', hstart, hqueue'⟩ := hrel.queue.take hw enters first
      refine ⟨t', ⟨?_, fun hdown => h.set_down hdown hw rfl⟩, hcontrol', hqueue'⟩
      have hwaiting := h.waiting
      rw [hstart.length_start] at hwaiting
      apply hwaiting.leave hw rfl
  | spurious hw =>
      exact ⟨t, ⟨h.waiting.spurious hw rfl, fun hdown => h.set_down hdown hw rfl⟩, hcontrol',
        hrel.queue.quiet hw rfl rfl⟩
  | finish hw =>
      obtain ⟨t', hfinish, hqueue'⟩ := hrel.queue.finish hw
      refine ⟨t', ⟨?_, fun hdown => h.set_down hdown hw rfl⟩, hcontrol', hqueue'⟩
      rw [hfinish.waiting_finish]
      apply h.waiting.keep hw rfl rfl
  | destroy =>
      obtain ⟨t', -, hqueue'⟩ := hrel.queue.destroy
      have hnone : (poolCond.broadcast s.workers).countP poolCond.asleep = 0 :=
        CondVar.countP_asleep_broadcast
      exact ⟨t', ⟨CondVar.accounted_of_none hnone, fun _ => hnone⟩, hcontrol', hqueue'⟩
  | join => exact ⟨t, ⟨h.waiting, h.down⟩, hcontrol', hrel.queue.of_destroyer _ s.calls⟩
  | joined => exact ⟨t, ⟨h.waiting, h.down⟩, hcontrol', hrel.queue.of_destroyer _ s.calls⟩
  | discard draining first =>
      exact absurd (.discard draining first) hrel.control.not_discard
  | destroyed =>
      exact ⟨t, ⟨h.waiting, h.down⟩, hcontrol', hrel.queue.of_destroyer _ s.calls⟩

/-- The accounting holds in every state the threads can reach. -/
theorem PoolAccounted.of_reaches
    {calloc malloc : Bool} {created : ℕ → Bool} {numThreads : ℕ} {pool : ThreadPool}
    (hpool : threadPoolCreate calloc malloc created numThreads = .ok pool)
    {log : List PoolEvent} (hs : (poolMachine pool).Reaches log s) :
  ∃ t, PoolAccounted s t ∧ PoolRel s t
  := by
  apply hs.invariant (I := fun _ s => ∃ t, PoolAccounted s t ∧ PoolRel s t)
  · rintro _ rfl
    obtain ⟨hpos, heq⟩ := threadPoolCreate_eq_ok hpool
    rw [heq]
    have hnone : (PoolSystem.start ⟨pool.numThreads, none, none, false⟩).workers.countP
        poolCond.asleep = 0 := by
      simp [PoolSystem.start, List.countP_replicate, poolCond]
    exact ⟨⟨[], 0, false⟩, ⟨CondVar.accounted_zero, fun _ => hnone⟩, .start hpos rfl,
      .start pool.numThreads⟩
  · rintro log s e s' - ⟨t, h, hrel⟩ ⟨a, hstep⟩
    apply h.step hrel (poolStep_cases hstep)

/-- In every state that the workers of a pool from `thread_pool_create`, the submitters
and `thread_pool_destroy` can reach: the queue is a linked list, `queue_tail` is its last
node, and both ends are `NULL` together; while a worker sleeps, the woken workers number
at least the queued tasks; no worker sleeps while the pool is shutting down; and the
workers do not all sleep while a task is queued or the pool is shutting down. -/
theorem pool_loses_no_wakeup
    (calloc malloc : Bool) (created : ℕ → Bool) (numThreads : ℕ) (pool : ThreadPool)
    (hpool : threadPoolCreate calloc malloc created numThreads = .ok pool)
    (log : List PoolEvent) (s : PoolSystem) (hs : (poolMachine pool).Reaches log s) :
  (∃ nodes, Linked.Chain Task.next s.heap s.pool.queueHead nodes
      ∧ s.pool.queueTail = nodes.getLast?
      ∧ (.asleep ∈ s.workers → nodes.length ≤ s.workers.countP poolCond.woken))
    ∧ (s.pool.queueHead = none ↔ s.pool.queueTail = none)
    ∧ (s.pool.shutdown = true → .asleep ∉ s.workers)
    ∧ ¬ ((s.pool.queueHead ≠ none ∨ s.pool.shutdown = true)
        ∧ ∀ worker ∈ s.workers, worker = .asleep)
  := by
  obtain ⟨t, h, hrel⟩ := PoolAccounted.of_reaches hpool hs
  obtain ⟨nodes, hshape, rfl⟩ := hrel.queue
  have hwaiting : .asleep ∈ s.workers → nodes.length ≤ s.workers.countP poolCond.woken := by
    intro hmem
    have hle := h.waiting (List.countP_pos_iff.mpr ⟨_, hmem, rfl⟩)
    rwa [List.length_map] at hle
  have hdown : s.pool.shutdown = true → .asleep ∉ s.workers := by
    intro hdown hmem
    apply List.countP_eq_zero.mp (h.down hdown) _ hmem rfl
  refine ⟨⟨nodes, hshape.chain, hshape.tail_eq, hwaiting⟩, ?_, hdown, ?_⟩
  · rw [hshape.chain.head?_eq, hshape.tail_eq, List.head?_eq_none_iff,
      List.getLast?_eq_none_iff]
  · rintro ⟨hwork, hall⟩
    -- the pool has a worker, and it sleeps
    have hmem : .asleep ∈ s.workers := by
      have hpos := hrel.control.pos
      rw [← hrel.control.length_workers] at hpos
      obtain ⟨worker, hmem⟩ := List.exists_mem_of_length_pos hpos
      rwa [← hall worker hmem]
    rcases hwork with hqueued | hshutdown
    · have hnone : s.workers.countP poolCond.woken = 0 := by
        rw [List.countP_eq_zero]
        intro worker hworker
        rw [hall worker hworker]
        exact Bool.false_ne_true
      have hle := hwaiting hmem
      rw [hnone, Nat.le_zero, List.length_eq_zero_iff] at hle
      apply hqueued
      rw [hshape.chain.head?_eq, hle, List.head?_nil]
    · apply hdown hshutdown hmem

/-- Both workers of a pool wait and a task is submitted, which wakes one of them. -/
theorem pool_loses_no_wakeup_run :
  ∃ s, (poolMachine ⟨2, none, none, false⟩).Reaches [.submit ⟨0, 5, 6⟩ .ok] s
    ∧ s.workers = [.asleep, .woken]
    ∧ ¬ ((s.pool.queueHead ≠ none ∨ s.pool.shutdown = true)
        ∧ ∀ worker ∈ s.workers, worker = .asleep)
  := by
  have hrun : StateMachine.run poolStep (.start ⟨2, none, none, false⟩)
      [.enter 0, .enter 1, .submit none 5 6 (some 0) [false, true]]
    = some (_, [.submit ⟨0, 5, 6⟩ .ok]) := rfl
  have hs : (poolMachine _).Reaches _ _ := StateMachine.reaches_of_run rfl hrun
  have h := pool_loses_no_wakeup true true (fun _ => true) 2 _ rfl _ _ hs
  exact ⟨_, hs, rfl, h.2.2.2⟩

end CTemplate

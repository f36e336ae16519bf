import CTemplate.Hpc.ThreadPool.System

/-!
# The queue and the shutdown of the thread pool

`PoolControl s` says how far `thread_pool_destroy` and the workers are: a worker returns
only when the pool is shutting down and the queue is empty, and the destroyer is past the
workers only when all of them returned.  So it finds no node left in the queue.

`PoolShape s nodes` says that the queue is the linked list `nodes`, with `queue_tail` the
last of them, and that the nodes of running tasks are allocated and not in the queue.
-/

namespace CTemplate

variable {s s' : PoolSystem} {e : Option PoolEvent}

/-! ### Shutting down -/

/-- How far the workers and the destroyer are. -/
structure PoolControl (s : PoolSystem) : Prop where
  pos : 0 < s.pool.numThreads
  length_workers : s.workers.length = s.pool.numThreads
  isOpen : s.destroyer = .notCalled ↔ s.pool.shutdown = false
  exited : .exited ∈ s.workers → s.pool.shutdown = true ∧ s.pool.queueHead = none
  joined : ∀ i, s.destroyer = .joining i → ∀ j < i, s.workers[j]? = some .exited
  drained : s.destroyer = .draining ∨ s.destroyer = .returned →
    s.pool.queueHead = none ∧ ∀ worker ∈ s.workers, worker = .exited

theorem PoolControl.start {pool : ThreadPool} (hpos : 0 < pool.numThreads)
    (hopen : pool.shutdown = false) :
  PoolControl (.start pool)
  where
  pos := hpos
  length_workers := by simp [PoolSystem.start]
  isOpen := by simp [PoolSystem.start, hopen]
  exited := by simp [PoolSystem.start]
  joined := by simp [PoolSystem.start]
  drained := by simp [PoolSystem.start]

/-- While the pool is open no worker has returned. -/
theorem PoolControl.not_exited (h : PoolControl s) (hopen : s.pool.shutdown = false) :
  .exited ∉ s.workers
  := by
  intro hmem
  rw [(h.exited hmem).1] at hopen
  cases hopen

/-- While the pool is open `thread_pool_destroy` was not called. -/
theorem PoolControl.notCalled (h : PoolControl s) (hopen : s.pool.shutdown = false) :
  s.destroyer = .notCalled
  := h.isOpen.mpr hopen

/-- A worker that did not return stands between the destroyer and the end of its joins. -/
theorem PoolControl.set_joined
    (h : PoolControl s) {i : ℕ} {worker : Worker} (hw : s.workers[i]? = some worker)
    (hne : worker ≠ .exited) (worker' : Worker) :
  (∀ k, s.destroyer = .joining k → ∀ j < k, (s.workers.set i worker')[j]? = some .exited)
    ∧ ¬ (s.destroyer = .draining ∨ s.destroyer = .returned)
  := by
  constructor
  · intro k hk j hj
    have hexited := h.joined k hk j hj
    rw [List.getElem?_set_ne _, hexited]
    rintro rfl
    rw [hw] at hexited
    apply hne (Option.some.inj hexited)
  · intro hdone
    apply hne ((h.drained hdone).2 worker (List.mem_of_getElem? hw))

/-- Replacing the state of a worker that did not return by one that did not either. -/
theorem PoolControl.set
    (h : PoolControl s) {i : ℕ} {worker worker' : Worker}
    (hw : s.workers[i]? = some worker) (hne : worker ≠ .exited) (hne' : worker' ≠ .exited) :
  PoolControl { s with workers := s.workers.set i worker' }
  := by
  obtain ⟨hjoined, hnot⟩ := h.set_joined hw hne worker'
  exact
    { h with
      length_workers := by
        rw [List.length_set]
        exact h.length_workers
      exited := by
        intro hmem
        rcases List.mem_or_eq_of_mem_set hmem with hmem | heq
        · apply h.exited hmem
        · exact absurd heq.symm hne'
      joined := hjoined
      drained := fun hdone => absurd hdone hnot }

theorem Worker.Enters.ne_exited {worker : Worker} (h : worker.Enters) :
  worker ≠ .exited
  := by
  rcases h with rfl | rfl <;> simp

theorem poolCond_wake_ne_exited (worker : Worker) (h : poolCond.asleep worker = true) :
  poolCond.wake worker ≠ .exited
  := by
  cases worker <;> simp_all [poolCond]

/-- Appending to the queue leaves the number of threads and `shutdown` as they are. -/
theorem PoolSystem.appended_fields (s : PoolSystem) (t : Addr) (func arg : Ptr) :
  (s.appended t func arg).1.numThreads = s.pool.numThreads
    ∧ (s.appended t func arg).1.shutdown = s.pool.shutdown
  := by
  unfold appended
  cases s.pool.queueTail <;> exact ⟨rfl, rfl⟩

/-- A successful submit changes neither the workers that returned nor the destroyer. -/
theorem PoolControl.submitOk
    (h : PoolControl s) {t : Addr} (func arg : Ptr) {chosen : List Bool} {workers : List Worker}
    (isOpen : s.pool.shutdown = false)
    (signal : poolCond.signal chosen s.workers = some workers) :
  PoolControl { s with
    pool := (s.appended t func arg).1, heap := (s.appended t func arg).2, workers
    calls := s.calls + 1, ticket := Function.update s.ticket t s.calls }
  := by
  obtain ⟨hthreads, hdown⟩ := s.appended_fields t func arg
  have hnot := h.notCalled isOpen
  obtain ⟨rfl, -⟩ := CondVar.signal_eq_some signal
  have hexited : .exited ∉ poolCond.rouse chosen s.workers := fun hmem =>
    h.not_exited isOpen (CondVar.mem_of_mem_rouse poolCond_wake_ne_exited hmem)
  exact
    { pos := by
        rw [hthreads]
        exact h.pos
      length_workers := by
        rw [hthreads, CondVar.length_rouse]
        exact h.length_workers
      isOpen := by
        rw [hdown]
        exact h.isOpen
      exited := fun hmem => absurd hmem hexited
      joined := by simp [hnot]
      drained := by simp [hnot] }

/-- Taking a node from the queue, which is then not empty, so that no worker has returned. -/
theorem PoolControl.take
    (h : PoolControl s) {i : ℕ} {worker : Worker} {t : Addr}
    (hw : s.workers[i]? = some worker) (enters : worker.Enters)
    (first : s.pool.queueHead = some t) (next : Option Addr) :
  PoolControl { s with pool := s.pool.taken next, workers := s.workers.set i (.running t) }
  := by
  have hset := h.set hw enters.ne_exited (show Worker.running t ≠ .exited by simp)
  have hqueue : s.pool.queueHead ≠ none := by simp [first]
  exact
    { hset with
      exited := fun hmem => absurd (hset.exited hmem).2 hqueue
      drained := fun hdone => absurd (hset.drained hdone).1 hqueue }

/-- The destroyer goes on. -/
theorem PoolControl.setDestroyer
    (h : PoolControl s) {destroyer : Destroyer} (hcalled : s.destroyer ≠ .notCalled)
    (hcalled' : destroyer ≠ .notCalled)
    (hjoined : ∀ i, destroyer = .joining i → ∀ j < i, s.workers[j]? = some .exited)
    (hdrained : destroyer = .draining ∨ destroyer = .returned →
      s.pool.queueHead = none ∧ ∀ worker ∈ s.workers, worker = .exited) :
  PoolControl { s with destroyer }
  := by
  have hdown : s.pool.shutdown ≠ false := h.isOpen.not.mp hcalled
  exact
    { h with
      isOpen := by simp [hcalled', hdown]
      joined := hjoined
      drained := hdrained }

/-- When the destroyer has joined every worker, all of them returned and the queue is
empty. -/
theorem PoolControl.all_exited
    (h : PoolControl s) {i : ℕ} (joining : s.destroyer = .joining i)
    (last : s.pool.numThreads ≤ i) :
  s.pool.queueHead = none ∧ ∀ worker ∈ s.workers, worker = .exited
  := by
  have hfirst : .exited ∈ s.workers := by
    apply List.mem_of_getElem?
    apply h.joined i joining 0 (Nat.lt_of_lt_of_le h.pos last)
  use (h.exited hfirst).2
  intro worker hmem
  obtain ⟨j, hj⟩ := List.getElem?_of_mem hmem
  have hlt : j < s.workers.length := (List.getElem?_eq_some_iff.mp hj).1
  rw [h.length_workers] at hlt
  rw [h.joined i joining j (Nat.lt_of_lt_of_le hlt last)] at hj
  exact (Option.some.inj hj).symm

/-- Every step keeps track of how far the workers and the destroyer are. -/
theorem PoolControl.step (h : PoolControl s) (hstep : PoolStep s e s') :
  PoolControl s'
  := by
  cases hstep with
  | submitOk fresh isOpen signal => apply h.submitOk _ _ isOpen signal
  | submitFailed => exact { h with }
  | wait hw enters => apply h.set hw enters.ne_exited (by simp)
  | exit hw enters empty down =>
      obtain ⟨hjoined, hnot⟩ := h.set_joined hw enters.ne_exited .exited
      exact
        { h with
          length_workers := by
            rw [List.length_set]
            exact h.length_workers
          exited := fun _ => ⟨down, empty⟩
          joined := hjoined
          drained := fun hdone => absurd hdone hnot }
  | take hw enters first => apply h.take hw enters first
  | spurious hw => apply h.set hw (by simp) (by simp)
  | finish hw => exact { h.set hw (by simp) (show Worker.ready ≠ .exited by simp) with }
  | destroy first =>
      exact
        { h with
          length_workers := by
            rw [CondVar.length_broadcast]
            exact h.length_workers
          isOpen := by simp
          exited := fun hmem => absurd
            (CondVar.mem_of_mem_broadcast poolCond_wake_ne_exited hmem)
            (h.not_exited (h.isOpen.mp first))
          joined := by
            rintro _ ⟨⟩ j hj
            exact absurd hj (Nat.not_lt_zero j)
          drained := by simp }
  | join joining hw =>
      apply h.setDestroyer (by simp [joining]) (by simp)
      · rintro _ ⟨⟩ j hj
        rcases Nat.lt_succ_iff_lt_or_eq.mp hj with hlt | rfl
        · apply h.joined _ joining j hlt
        · exact hw
      · simp
  | joined joining last =>
      apply h.setDestroyer (by simp [joining]) (by simp)
      · simp
      · intro _
        apply h.all_exited joining last
  | discard draining first =>
      rw [(h.drained (Or.inl draining)).1] at first
      cases first
  | destroyed draining =>
      apply h.setDestroyer (by simp [draining]) (by simp)
      · simp
      · intro _
        apply h.drained (Or.inl draining)

/-- The loop over the remaining nodes finds none. -/
theorem PoolControl.not_discard (h : PoolControl s) {job : Job} :
  ¬ PoolStep s (some (.discard job)) s'
  := by
  rintro (_ | _ | _ | _ | _ | _ | _ | _ | _ | _ | ⟨draining, first⟩ | _)
  rw [(h.drained (Or.inl draining)).1] at first
  cases first

/-! ### The linked list -/

/-- The node of the task that a worker runs. -/
def Worker.node? : Worker → Option Addr
  | .running t => some t
  | _ => none

/-- The nodes of the tasks that the workers run. -/
def PoolSystem.runningNodes (s : PoolSystem) : List Addr :=
  s.workers.filterMap Worker.node?

/-- The queue is the linked list `nodes`, and the nodes of running tasks are others. -/
structure PoolShape (s : PoolSystem) (nodes : List Addr) : Prop where
  chain : Linked.Chain Task.next s.heap s.pool.queueHead nodes
  tail_eq : s.pool.queueTail = nodes.getLast?
  nodup : (nodes ++ s.runningNodes).Nodup
  live : ∀ t ∈ s.runningNodes, ∃ task, s.heap t = some task

theorem poolCond_wake_node? (worker : Worker) (h : poolCond.asleep worker = true) :
  (poolCond.wake worker).node? = worker.node?
  := by
  cases worker <;> simp_all [poolCond, Worker.node?]

theorem Worker.Enters.node? {worker : Worker} (h : worker.Enters) :
  worker.node? = none
  := by
  rcases h with rfl | rfl <;> rfl

variable {nodes : List Addr}

/-- Every node of the queue and of a running task is allocated. -/
theorem PoolShape.allocated (h : PoolShape s nodes) {t : Addr}
    (ht : t ∈ nodes ++ s.runningNodes) :
  ∃ task, s.heap t = some task
  := by
  rcases List.mem_append.mp ht with ht | ht
  · apply h.chain.live ht
  · apply h.live t ht

/-- The shape depends on the workers only through the nodes of running tasks. -/
theorem PoolShape.of_perm
    (h : PoolShape s nodes) {workers : List Worker}
    (hperm : (workers.filterMap Worker.node?).Perm s.runningNodes) :
  PoolShape { s with workers } nodes
  where
  chain := h.chain
  tail_eq := h.tail_eq
  nodup := (List.Perm.append_left nodes hperm).nodup_iff.mpr h.nodup
  live := fun t ht => h.live t (hperm.mem_iff.mp ht)

/-- A worker that runs no task changes its state without starting one. -/
theorem runningNodes_set
    {i : ℕ} {worker worker' : Worker} (hw : s.workers[i]? = some worker)
    (hnone : worker.node? = none) (hnone' : worker'.node? = none) :
  ((s.workers.set i worker').filterMap Worker.node?).Perm s.runningNodes
  := by
  have hperm := ListSet.filterMap_set_perm Worker.node? hw worker'
  rwa [hnone, hnone'] at hperm

/-- A worker that runs no task starts the one at `t`. -/
theorem runningNodes_take
    {i : ℕ} {worker : Worker} {t : Addr} (hw : s.workers[i]? = some worker)
    (hnone : worker.node? = none) :
  ((s.workers.set i (.running t)).filterMap Worker.node?).Perm (t :: s.runningNodes)
  := by
  have hperm := ListSet.filterMap_set_perm Worker.node? hw (.running t)
  rwa [hnone] at hperm

/-- A worker ends the task at `t`. -/
theorem runningNodes_finish {i : ℕ} {t : Addr} (hw : s.workers[i]? = some (.running t)) :
  (t :: (s.workers.set i .ready).filterMap Worker.node?).Perm s.runningNodes
  := by
  apply ListSet.filterMap_set_perm Worker.node? hw .ready

/-- A submit puts the new node at the end of the queue and changes what the other nodes
hold only in their links. -/
theorem PoolShape.appended
    (h : PoolShape s nodes) {t : Addr} (fresh : s.heap t = none) (func arg : Ptr) :
  Linked.Chain Task.next (s.appended t func arg).2 (s.appended t func arg).1.queueHead
      (nodes ++ [t])
    ∧ (s.appended t func arg).1.queueTail = some t
    ∧ (s.appended t func arg).2 t = some ⟨func, arg, none⟩
    ∧ ∀ a, a ≠ t → ∀ task, s.heap a = some task →
        ∃ next, (s.appended t func arg).2 a = some { task with next }
  := by
  have ht : ∀ a, ∀ task, s.heap a = some task → a ≠ t := by
    rintro a task ha rfl
    rw [fresh] at ha
    cases ha
  rcases List.eq_nil_or_concat nodes with rfl | ⟨pre, b, rfl⟩
  · have htail : s.pool.queueTail = none := h.tail_eq
    simp only [PoolSystem.appended, htail]
    refine ⟨?_, trivial, Function.update_self .., ?_⟩
    · apply Linked.chain_singleton (Function.update_self ..) rfl
    · intro a hne task ha
      use task.next
      rw [Function.update_of_ne hne, ha]
  · rw [List.concat_eq_append] at h ⊢
    have htail : s.pool.queueTail = some b := by
      rw [h.tail_eq, List.getLast?_concat]
    obtain ⟨vb, hb⟩ := h.chain.live (a := b) (by simp)
    have hbt := ht b vb hb
    have hpre : ∀ a ∈ pre, a ≠ b ∧ a ≠ t := by
      intro a ha
      obtain ⟨va, hva⟩ := h.chain.live (a := a) (by simp [ha])
      refine ⟨?_, ht a va hva⟩
      rintro rfl
      have hnodup := h.chain.nodup
      rw [List.nodup_append] at hnodup
      apply hnodup.2.2 a ha a (by simp) rfl
    simp only [PoolSystem.appended, htail, Heap.setNext, Function.update_of_ne hbt, hb,
      Option.map_some]
    refine ⟨?_, trivial, ?_, ?_⟩
    · have hnew : Function.update (Function.update s.heap t (some ⟨func, arg, none⟩)) b
          (some { vb with next := some t }) t = some ⟨func, arg, none⟩ := by
        rw [Function.update_of_ne hbt.symm, Function.update_self]
      apply h.chain.snoc _ (Function.update_self ..) rfl hnew rfl
      intro a ha
      obtain ⟨hab, hat⟩ := hpre a ha
      rw [Function.update_of_ne hab, Function.update_of_ne hat]
    · rw [Function.update_of_ne hbt.symm, Function.update_self]
    · intro a hne task ha
      by_cases hab : a = b
      · subst hab
        obtain rfl := Option.some.inj (hb.symm.trans ha)
        use some t
        rw [Function.update_self]
      · use task.next
        rw [Function.update_of_ne hab, Function.update_of_ne hne, ha]

/-- The nodes of a job hold what was submitted as long as they are allocated. -/
theorem PoolSystem.job_eq {a : Addr} {task : Task} (ha : s.heap a = some task) :
  s.job a = ⟨s.ticket a, task.func, task.arg⟩
  := by
  rw [job, ha]
  rfl

/-- A successful submit puts its node, with its job, at the end of the queue. -/
theorem PoolShape.submitOk
    (h : PoolShape s nodes) {t : Addr} (fresh : s.heap t = none) (func arg : Ptr)
    {chosen : List Bool} {workers : List Worker}
    (signal : poolCond.signal chosen s.workers = some workers)
    (hs' : s' = { s with
      pool := (s.appended t func arg).1, heap := (s.appended t func arg).2, workers
      calls := s.calls + 1, ticket := Function.update s.ticket t s.calls }) :
  PoolShape s' (nodes ++ [t]) ∧ s'.runningNodes = s.runningNodes
    ∧ s'.job t = ⟨s.calls, func, arg⟩ ∧ ∀ a ∈ nodes ++ s.runningNodes, s'.job a = s.job a
  := by
  obtain ⟨hchain, htail, hnew, hold⟩ := h.appended fresh func arg
  obtain ⟨rfl, -⟩ := CondVar.signal_eq_some signal
  have hne : ∀ a ∈ nodes ++ s.runningNodes, a ≠ t := by
    rintro a ha rfl
    obtain ⟨task, htask⟩ := h.allocated ha
    rw [fresh] at htask
    cases htask
  have hrunning : s'.runningNodes = s.runningNodes := by
    rw [hs']
    apply CondVar.filterMap_rouse poolCond_wake_node?
  refine ⟨?_, hrunning, ?_, ?_⟩
  · exact
      { chain := by
          rw [hs']
          exact hchain
        tail_eq := by
          rw [hs', List.getLast?_concat]
          exact htail
        nodup := by
          rw [hrunning, List.append_assoc, List.singleton_append, List.nodup_middle,
            List.nodup_cons]
          exact ⟨fun ht => hne t ht rfl, h.nodup⟩
        live := by
          rw [hrunning]
          intro a ha
          obtain ⟨task, htask⟩ := h.live a ha
          obtain ⟨next, hnext⟩ := hold a (hne a (List.mem_append_right nodes ha)) task htask
          use { task with next }
          rw [hs']
          apply hnext }
  · subst hs'
    rw [PoolSystem.job_eq hnew]
    simp only [Function.update_self]
  · intro a ha
    obtain ⟨task, htask⟩ := h.allocated ha
    obtain ⟨next, hnext⟩ := hold a (hne a ha) task htask
    subst hs'
    rw [PoolSystem.job_eq hnext, PoolSystem.job_eq htask]
    simp only [Function.update_of_ne (hne a ha)]

/-- A worker takes the first node of the queue. -/
theorem PoolShape.take
    (h : PoolShape s nodes) {i : ℕ} {worker : Worker} {t : Addr}
    (hw : s.workers[i]? = some worker) (enters : worker.Enters)
    (first : s.pool.queueHead = some t) :
  ∃ nodes', nodes = t :: nodes' ∧ PoolShape
    { s with
      pool := s.pool.taken ((s.heap t).bind Task.next)
      workers := s.workers.set i (.running t) } nodes'
  := by
  cases nodes with
  | nil =>
      rw [h.chain.head?_eq] at first
      cases first
  | cons a nodes' =>
      obtain ⟨ha, task, htask, hrest⟩ := h.chain
      obtain rfl : t = a := Option.some.inj (first.symm.trans ha)
      have hperm := runningNodes_take (s := s) (t := t) hw enters.node?
      have hnext : (s.heap t).bind Task.next = task.next := by rw [htask, Option.bind_some]
      refine ⟨nodes', rfl, ?_⟩
      exact
        { chain := by
            rw [hnext]
            exact hrest
          tail_eq := by
            simp only [ThreadPool.taken, hnext, hrest.head?_eq, h.tail_eq]
            cases nodes' with
            | nil => rfl
            | cons b nodes' => simp
          nodup := by
            refine (List.Perm.append_left nodes' hperm).nodup_iff.mpr ?_
            rw [List.nodup_middle]
            exact h.nodup
          live := by
            intro b hb
            rcases List.mem_cons.mp (hperm.mem_iff.mp hb) with rfl | hb
            · exact ⟨task, htask⟩
            · apply h.live b hb }

/-- A worker frees the node of the task it has run. -/
theorem PoolShape.finish
    (h : PoolShape s nodes) {i : ℕ} {t : Addr} (hw : s.workers[i]? = some (.running t)) :
  PoolShape
      { s with heap := Function.update s.heap t none, workers := s.workers.set i .ready } nodes
    ∧ ∀ a ∈ nodes ++ (s.workers.set i .ready).filterMap Worker.node?,
        Function.update s.heap t none a = s.heap a
  := by
  have hperm := runningNodes_finish hw
  have hnodup := (List.Perm.append_left nodes hperm).nodup_iff.mpr h.nodup
  rw [List.nodup_middle, List.nodup_cons] at hnodup
  obtain ⟨hnot, hnodup⟩ := hnodup
  have heq : ∀ a ∈ nodes ++ (s.workers.set i .ready).filterMap Worker.node?,
      Function.update s.heap t none a = s.heap a := by
    intro a ha
    apply Function.update_of_ne
    rintro rfl
    apply hnot ha
  refine ⟨?_, heq⟩
  exact
    { chain := h.chain.congr fun a ha => heq a (List.mem_append_left _ ha)
      tail_eq := h.tail_eq
      nodup := hnodup
      live := by
        intro a ha
        obtain ⟨task, htask⟩ := h.live a (hperm.mem_iff.mp (List.mem_cons_of_mem t ha))
        use task
        rw [← htask]
        apply heq a (List.mem_append_right nodes ha) }

/-- Shutting down leaves the queue as it is. -/
theorem PoolShape.destroy (h : PoolShape s nodes) :
  PoolShape
    { s with
      pool := { s.pool with shutdown := true }
      workers := poolCond.broadcast s.workers
      destroyer := .joining 0 } nodes
  := by
  have hrunning : (poolCond.broadcast s.workers).filterMap Worker.node? = s.runningNodes :=
    CondVar.filterMap_broadcast poolCond_wake_node?
  exact
    { chain := h.chain
      tail_eq := h.tail_eq
      nodup := by
        simp only [PoolSystem.runningNodes, hrunning]
        exact h.nodup
      live := by
        simp only [PoolSystem.runningNodes, hrunning]
        apply h.live }

end CTemplate

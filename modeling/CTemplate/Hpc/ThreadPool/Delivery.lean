import CTemplate.Hpc.ThreadPool.Queue
import CTemplate.Library.WorkQueue

/-!
# The tasks of the thread pool

A pool represents a queue of work: the jobs whose nodes are in the list wait, those whose
nodes the workers hold run.  The queue of work simulates the threads, so the workers take
the jobs in the order of their submits, and since all workers returned and the list is
empty when `thread_pool_destroy` returns, every submitted job was run by then, once.
-/

namespace CTemplate

variable {s s' : PoolSystem} {e : Option PoolEvent} {t : WorkQueue.State Job}

/-- The jobs of the list wait and the jobs of the workers run. -/
def PoolQueue (s : PoolSystem) (t : WorkQueue.State Job) : Prop :=
  ∃ nodes, PoolShape s nodes
    ∧ t = ⟨nodes.map s.job, (s.runningNodes.map s.job : List Job), s.pool.shutdown⟩

/-- The call or the step of a worker as an event of the queue of work. -/
def PoolEvent.observe : PoolEvent → Option (WorkQueue.Event Job)
  | .submit job .ok => some (.accept job)
  | .submit _ .unsupported => some .refuse
  | .submit _ _ => none
  | .dequeue job => some (.start job)
  | .execute job => some (.finish job)
  | .exit => none
  | .shutdown => some .close
  | .discard _ => none
  | .destroyed => none

/-- Steps of workers that run no task before and after do not show. -/
theorem PoolQueue.quiet
    (h : PoolQueue s t) {i : ℕ} {worker worker' : Worker} (hw : s.workers[i]? = some worker)
    (hnone : worker.node? = none) (hnone' : worker'.node? = none) :
  PoolQueue { s with workers := s.workers.set i worker' } t
  := by
  obtain ⟨nodes, hshape, rfl⟩ := h
  have hperm := runningNodes_set hw hnone hnone'
  refine ⟨nodes, hshape.of_perm hperm, ?_⟩
  rw [← Multiset.coe_eq_coe.mpr (hperm.map s.job)]
  rfl

/-- What the pool represents does not depend on the destroyer and the number of calls. -/
theorem PoolQueue.of_destroyer (h : PoolQueue s t) (destroyer : Destroyer) (calls : ℕ) :
  PoolQueue { s with destroyer, calls } t
  := by
  obtain ⟨nodes, hshape, rfl⟩ := h
  exact ⟨nodes, { hshape with }, rfl⟩

theorem PoolQueue.submitOk
    (h : PoolQueue s t) {a : Addr} (fresh : s.heap a = none) (func arg : Ptr)
    (isOpen : s.pool.shutdown = false) {chosen : List Bool} {workers : List Worker}
    (signal : poolCond.signal chosen s.workers = some workers)
    (hs' : s' = { s with
      pool := (s.appended a func arg).1, heap := (s.appended a func arg).2, workers
      calls := s.calls + 1, ticket := Function.update s.ticket a s.calls }) :
  ∃ t', WorkQueue.Step t (.accept ⟨s.calls, func, arg⟩) t' ∧ PoolQueue s' t'
  := by
  obtain ⟨nodes, hshape, rfl⟩ := h
  obtain ⟨hshape', hrunning, hnew, hold⟩ := hshape.submitOk fresh func arg signal hs'
  have hnodes : nodes.map s'.job = nodes.map s.job :=
    List.map_congr_left fun b hb => hold b (List.mem_append_left _ hb)
  have hjobs : s.runningNodes.map s'.job = s.runningNodes.map s.job :=
    List.map_congr_left fun b hb => hold b (List.mem_append_right _ hb)
  have hopen : s'.pool.shutdown = false := by
    rw [hs']
    exact (s.appended_fields a func arg).2.trans isOpen
  rw [isOpen]
  refine ⟨_, .accept _, nodes ++ [a], hshape', ?_⟩
  rw [List.map_append, List.map_singleton, hnodes, hnew, hrunning, hjobs, hopen]

theorem PoolQueue.take
    (h : PoolQueue s t) {i : ℕ} {worker : Worker} {a : Addr}
    (hw : s.workers[i]? = some worker) (enters : worker.Enters)
    (first : s.pool.queueHead = some a) :
  ∃ t', WorkQueue.Step t (.start (s.job a)) t' ∧ PoolQueue
    { s with
      pool := s.pool.taken ((s.heap a).bind Task.next)
      workers := s.workers.set i (.running a) } t'
  := by
  obtain ⟨nodes, hshape, rfl⟩ := h
  obtain ⟨nodes, rfl, hshape'⟩ := hshape.take hw enters first
  have hperm := (runningNodes_take (t := a) hw enters.node?).map s.job
  refine ⟨_, .start, nodes, hshape', ?_⟩
  rw [Multiset.cons_coe, ← List.map_cons, ← Multiset.coe_eq_coe.mpr hperm]
  rfl

theorem PoolQueue.finish
    (h : PoolQueue s t) {i : ℕ} {a : Addr} (hw : s.workers[i]? = some (.running a)) :
  ∃ t', WorkQueue.Step t (.finish (s.job a)) t' ∧ PoolQueue
    { s with heap := Function.update s.heap a none, workers := s.workers.set i .ready } t'
  := by
  obtain ⟨nodes, hshape, rfl⟩ := h
  obtain ⟨hshape', heq⟩ := hshape.finish hw
  have hperm := (runningNodes_finish hw).map s.job
  rw [← Multiset.coe_eq_coe.mpr hperm, List.map_cons, ← Multiset.cons_coe]
  refine ⟨_, .finish, nodes, hshape', ?_⟩
  -- the freed node is none of those whose jobs are left
  have hjob : ∀ b ∈ nodes ++ (s.workers.set i .ready).filterMap Worker.node?,
      PoolSystem.job { s with
        heap := Function.update s.heap a none, workers := s.workers.set i .ready } b
      = s.job b := by
    intro b hb
    simp only [PoolSystem.job, heq b hb]
  rw [← List.map_congr_left fun b hb => hjob b (List.mem_append_left _ hb),
    ← List.map_congr_left fun b hb => hjob b (List.mem_append_right _ hb)]
  rfl

theorem PoolQueue.destroy (h : PoolQueue s t) :
  ∃ t', WorkQueue.Step t .close t' ∧ PoolQueue
    { s with
      pool := { s.pool with shutdown := true }
      workers := poolCond.broadcast s.workers
      destroyer := .joining 0 } t'
  := by
  obtain ⟨nodes, hshape, rfl⟩ := h
  have hrunning : (poolCond.broadcast s.workers).filterMap Worker.node? = s.runningNodes :=
    CondVar.filterMap_broadcast poolCond_wake_node?
  refine ⟨_, .close, nodes, hshape.destroy, ?_⟩
  rw [← hrunning]
  rfl

/-- The threads are where they can be, and the pool represents a queue of work. -/
structure PoolRel (s : PoolSystem) (t : WorkQueue.State Job) : Prop where
  control : PoolControl s
  queue : PoolQueue s t

/-- Every step of the threads is followed by the queue of work. -/
theorem PoolQueue.follow (h : PoolQueue s t) (hcontrol : PoolControl s)
    (hstep : PoolStep s e s') :
  ∃ t', (WorkQueue.machine Job).Steps t (e.bind PoolEvent.observe).toList t'
    ∧ PoolQueue s' t'
  := by
  cases hstep with
  | @submitOk a func arg chosen workers fresh isOpen signal =>
      obtain ⟨t', hstep, h'⟩ := h.submitOk fresh func arg isOpen signal rfl
      exact ⟨t', WorkQueue.steps_of_step hstep, h'⟩
  | @submitFailed func arg code failed refused =>
      refine ⟨t, ?_, h.of_destroyer s.destroyer (s.calls + 1)⟩
      cases code with
      | ok => exact absurd rfl failed
      | unsupported =>
          obtain ⟨nodes, -, rfl⟩ := h
          rw [refused rfl]
          apply WorkQueue.steps_of_step .refuse
      | nomem => exact .refl
      | io => exact .refl
      | invalidArg => exact .refl
      | overflow => exact .refl
      | notFound => exact .refl
  | wait hw enters => exact ⟨t, .refl, h.quiet hw enters.node? rfl⟩
  | exit hw enters => exact ⟨t, .refl, h.quiet hw enters.node? rfl⟩
  | take hw enters first =>
      obtain ⟨t', hstep, h'⟩ := h.take hw enters first
      exact ⟨t', WorkQueue.steps_of_step hstep, h'⟩
  | spurious hw => exact ⟨t, .refl, h.quiet hw rfl rfl⟩
  | finish hw =>
      obtain ⟨t', hstep, h'⟩ := h.finish hw
      exact ⟨t', WorkQueue.steps_of_step hstep, h'⟩
  | destroy =>
      obtain ⟨t', hstep, h'⟩ := h.destroy
      exact ⟨t', WorkQueue.steps_of_step hstep, h'⟩
  | join => exact ⟨t, .refl, h.of_destroyer _ s.calls⟩
  | joined => exact ⟨t, .refl, h.of_destroyer _ s.calls⟩
  | discard draining first => exact absurd (.discard draining first) hcontrol.not_discard
  | destroyed => exact ⟨t, .refl, h.of_destroyer _ s.calls⟩

/-- What a successful `thread_pool_create` leaves: at least one thread and an empty open
queue. -/
theorem threadPoolCreate_eq_ok
    {calloc malloc : Bool} {created : ℕ → Bool} {numThreads : ℕ} {pool : ThreadPool}
    (h : threadPoolCreate calloc malloc created numThreads = .ok pool) :
  0 < pool.numThreads ∧ pool = ⟨pool.numThreads, none, none, false⟩
  := by
  unfold threadPoolCreate at h
  split at h
  · cases h
  · split at h
    · cases h
    · split at h
      · cases h
      · split at h
        · cases h
          exact ⟨by simp only; omega, rfl⟩
        · cases h

/-- A new pool represents the empty queue of work. -/
theorem PoolQueue.start (n : ℕ) :
  PoolQueue (.start ⟨n, none, none, false⟩) ⟨[], 0, false⟩
  := by
  have hrunning : (PoolSystem.start ⟨n, none, none, false⟩).runningNodes = [] := by
    simp [PoolSystem.runningNodes, PoolSystem.start, Worker.node?]
  refine ⟨[], ?_, ?_⟩
  · exact
      { chain := rfl
        tail_eq := rfl
        nodup := by
          rw [hrunning]
          exact List.nodup_nil
        live := by
          rw [hrunning]
          simp }
  · rw [hrunning]
    rfl

/-- The queue of work simulates the threads on a pool from `thread_pool_create`. -/
def poolSimulation
    {calloc malloc : Bool} {created : ℕ → Bool} {numThreads : ℕ} {pool : ThreadPool}
    (h : threadPoolCreate calloc malloc created numThreads = .ok pool) :
    StateMachine.Simulation (poolMachine pool) (WorkQueue.machine Job) where
  observe := PoolEvent.observe
  rel := PoolRel
  start := by
    rintro _ rfl
    obtain ⟨hpos, heq⟩ := threadPoolCreate_eq_ok h
    refine ⟨⟨[], 0, false⟩, rfl, ?_⟩
    rw [heq]
    exact ⟨.start hpos rfl, .start pool.numThreads⟩
  follow := by
    rintro s e s' t ⟨hcontrol, hqueue⟩ ⟨a, hstep⟩
    obtain ⟨t', hsteps, hqueue'⟩ := hqueue.follow hcontrol (poolStep_cases hstep)
    exact ⟨t', hsteps, hcontrol.step (poolStep_cases hstep), hqueue'⟩

/-! ### Logs -/

/-- The jobs whose submit returned `ERR_OK`, in the order of the critical sections. -/
def poolSubmitted (log : List PoolEvent) : List Job :=
  log.filterMap fun
    | .submit job .ok => some job
    | _ => none

/-- The jobs that workers took from the queue, in the order of the critical sections. -/
def poolDequeued (log : List PoolEvent) : List Job :=
  log.filterMap fun
    | .dequeue job => some job
    | _ => none

/-- The jobs that workers ran to their end. -/
def poolExecuted (log : List PoolEvent) : List Job :=
  log.filterMap fun
    | .execute job => some job
    | _ => none

/-- The calls of `thread_pool_submit` with what they returned. -/
def poolCalls (log : List PoolEvent) : List (Job × ErrorCode) :=
  log.filterMap fun
    | .submit job code => some (job, code)
    | _ => none

theorem accepted_poolObserve (log : List PoolEvent) :
  WorkQueue.accepted (log.filterMap PoolEvent.observe) = poolSubmitted log
  := by
  rw [WorkQueue.accepted, List.filterMap_filterMap]
  apply List.filterMap_congr
  rintro (⟨_, _ | _⟩ | _ | _ | _ | _ | _ | _) _ <;> rfl

theorem started_poolObserve (log : List PoolEvent) :
  WorkQueue.started (log.filterMap PoolEvent.observe) = poolDequeued log
  := by
  rw [WorkQueue.started, List.filterMap_filterMap]
  apply List.filterMap_congr
  rintro (⟨_, _ | _⟩ | _ | _ | _ | _ | _ | _) _ <;> rfl

theorem finished_poolObserve (log : List PoolEvent) :
  WorkQueue.finished (log.filterMap PoolEvent.observe) = poolExecuted log
  := by
  rw [WorkQueue.finished, List.filterMap_filterMap]
  apply List.filterMap_congr
  rintro (⟨_, _ | _⟩ | _ | _ | _ | _ | _ | _) _ <;> rfl

theorem mem_poolExecuted {log : List PoolEvent} {job : Job} :
  job ∈ poolExecuted log ↔ .execute job ∈ log
  := by
  rw [poolExecuted, List.mem_filterMap]
  constructor
  · rintro ⟨_ | _ | _ | _ | _ | _ | _, he, hjob⟩
    case execute =>
      cases hjob
      exact he
    all_goals cases hjob
  · intro he
    exact ⟨_, he, rfl⟩

theorem mem_poolSubmitted {log : List PoolEvent} {job : Job} :
  job ∈ poolSubmitted log ↔ .submit job .ok ∈ log
  := by
  rw [poolSubmitted, List.mem_filterMap]
  constructor
  · rintro ⟨⟨_, _ | _⟩ | _ | _ | _ | _ | _ | _, he, hjob⟩
    case submit.ok =>
      cases hjob
      exact he
    all_goals cases hjob
  · intro he
    exact ⟨_, he, rfl⟩

theorem mem_poolCalls {log : List PoolEvent} {job : Job} {code : ErrorCode}
    (h : .submit job code ∈ log) :
  (job, code) ∈ poolCalls log
  := List.mem_filterMap.mpr ⟨_, h, rfl⟩

/-- How often a job was run is how often the log shows it. -/
theorem count_poolExecuted (log : List PoolEvent) (job : Job) :
  (poolExecuted log).count job = log.count (.execute job)
  := by
  rw [poolExecuted, List.count, List.count, List.countP_filterMap]
  apply List.countP_congr
  rintro (_ | _ | _ | _ | _ | _ | _) _ <;> simp

theorem poolSubmitted_eq (log : List PoolEvent) :
  poolSubmitted log = ((poolCalls log).filter fun call => call.2 = .ok).map Prod.fst
  := by
  induction log with
  | nil => rfl
  | cons e log ih =>
      rcases e with ⟨_, _ | _⟩ | _ | _ | _ | _ | _ | _
      case submit.ok =>
        simp only [poolSubmitted, poolCalls] at ih ⊢
        simp [ih]
      all_goals
        simp only [poolSubmitted, poolCalls] at ih ⊢
        simp [ih]

/-- A submit has the number of the calls before it. -/
theorem PoolStep.calls (h : PoolStep s e s') :
  List.range s'.calls = List.range s.calls ++ (poolCalls e.toList).map fun call => call.1.id
  := by
  cases h with
  | submitOk => exact List.range_succ
  | submitFailed => exact List.range_succ
  | _ => exact (List.append_nil _).symm

/-- The submit calls are numbered in order. -/
theorem poolCalls_ids
    {pool : ThreadPool} {log : List PoolEvent} (hs : (poolMachine pool).Reaches log s) :
  ((poolCalls log).map fun call => call.1.id) = List.range s.calls
  := by
  apply hs.invariant
    (I := fun log s => ((poolCalls log).map fun call => call.1.id) = List.range s.calls)
  · rintro _ rfl
    rfl
  · rintro log s e s' - ih ⟨a, hstep⟩
    rw [(poolStep_cases hstep).calls, ← ih, ← List.map_append, poolCalls, poolCalls, poolCalls,
      List.filterMap_append]

/-- No two successful submits are of the same job. -/
theorem nodup_poolSubmitted
    {pool : ThreadPool} {log : List PoolEvent} (hs : (poolMachine pool).Reaches log s) :
  (poolSubmitted log).Nodup
  := by
  apply List.Nodup.of_map Job.id
  rw [poolSubmitted_eq, List.map_map]
  apply (List.Sublist.map _ List.filter_sublist).nodup
  change ((poolCalls log).map fun call => call.1.id).Nodup
  rw [poolCalls_ids hs]
  exact List.nodup_range

/-- Two calls of `thread_pool_submit` in a log are of different jobs. -/
theorem poolCalls_inj
    {pool : ThreadPool} {log : List PoolEvent} (hs : (poolMachine pool).Reaches log s)
    {job : Job} {code code' : ErrorCode} (h : .submit job code ∈ log)
    (h' : .submit job code' ∈ log) :
  code = code'
  := by
  have hnodup : ((poolCalls log).map fun call => call.1.id).Nodup := by
    rw [poolCalls_ids hs]
    exact List.nodup_range
  have heq := List.inj_on_of_nodup_map hnodup (mem_poolCalls h) (mem_poolCalls h') rfl
  apply congrArg Prod.snd heq

theorem PoolStep.returned (h : PoolStep s e s')
    (hs : s.destroyer = .returned ∨ e = some .destroyed) :
  s'.destroyer = .returned
  := by
  cases h <;> simp_all

/-- In a log in which `thread_pool_destroy` returned it has returned. -/
theorem returned_of_mem
    {pool : ThreadPool} {log : List PoolEvent} (hs : (poolMachine pool).Reaches log s)
    (h : .destroyed ∈ log) :
  s.destroyer = .returned
  := by
  revert h
  apply hs.invariant (I := fun log s => .destroyed ∈ log → s.destroyer = .returned)
  · rintro _ rfl h
    cases h
  · rintro log s e s' - ih ⟨a, hstep⟩ h
    apply (poolStep_cases hstep).returned
    rcases List.mem_append.mp h with h | h
    · exact Or.inl (ih h)
    · right
      rwa [Option.mem_toList] at h

/-- When all workers returned and the list is empty, nothing waits and nothing runs. -/
theorem PoolRel.idle (h : PoolRel s t) (hs : s.destroyer = .returned) :
  t.waiting = [] ∧ t.running = 0
  := by
  obtain ⟨hempty, hexited⟩ := h.control.drained (Or.inr hs)
  obtain ⟨nodes, hshape, rfl⟩ := h.queue
  have hrunning : s.runningNodes = [] := by
    apply List.filterMap_eq_nil_iff.mpr
    intro worker hmem
    rw [hexited worker hmem]
    rfl
  constructor
  · have hhead := hshape.chain.head?_eq
    rw [hempty] at hhead
    rw [List.head?_eq_none_iff.mp hhead.symm]
    rfl
  · rw [hrunning]
    rfl

/-- For every pool from `thread_pool_create` and any interleaving of its workers, of
submits by other threads and by running tasks, and of a call of `thread_pool_destroy`:
the workers take the jobs in the order of their successful submits; the loop over the
remaining nodes finds the queue empty; once `thread_pool_destroy` has returned, every job
whose submit returned `ERR_OK` was taken and was run exactly once; and no job whose submit
failed is ever run. -/
theorem pool_executes_each_once
    (calloc malloc : Bool) (created : ℕ → Bool) (numThreads : ℕ) (pool : ThreadPool)
    (hpool : threadPoolCreate calloc malloc created numThreads = .ok pool)
    (log : List PoolEvent) (s : PoolSystem) (hs : (poolMachine pool).Reaches log s) :
  poolDequeued log <+: poolSubmitted log
    ∧ (s.destroyer = .draining → s.pool.queueHead = none)
    ∧ (∀ job, .discard job ∉ log)
    ∧ (.destroyed ∈ log → poolDequeued log = poolSubmitted log
        ∧ ∀ job, .submit job .ok ∈ log → log.count (.execute job) = 1)
    ∧ ∀ job code, .submit job code ∈ log → code ≠ .ok → .execute job ∉ log
  := by
  obtain ⟨t, ht, hrel⟩ := (poolSimulation hpool).reaches hs
  change (WorkQueue.machine Job).Reaches (log.filterMap PoolEvent.observe) t at ht
  have hsubmitted := WorkQueue.accepted_eq ht
  rw [accepted_poolObserve, started_poolObserve] at hsubmitted
  refine ⟨⟨t.waiting, hsubmitted.symm⟩, ?_, ?_, ?_, ?_⟩
  · intro hdraining
    exact (hrel.control.drained (Or.inl hdraining)).1
  · intro job hmem
    obtain ⟨pre, post, rfl⟩ := List.append_of_mem hmem
    obtain ⟨u, u', hpre, ⟨a, hstep⟩, -⟩ := hs.split
    obtain ⟨_, -, hrel'⟩ := (poolSimulation hpool).reaches hpre
    apply hrel'.control.not_discard (poolStep_cases hstep)
  · intro hdestroyed
    obtain ⟨hwaiting, hrunning⟩ := hrel.idle (returned_of_mem hs hdestroyed)
    constructor
    · rw [hsubmitted, hwaiting, List.append_nil]
    · intro job hmem
      have hperm := WorkQueue.finished_perm ht hwaiting hrunning
      rw [finished_poolObserve, accepted_poolObserve] at hperm
      rw [← count_poolExecuted, hperm.count_eq]
      apply List.count_eq_one_of_mem (nodup_poolSubmitted hs) (mem_poolSubmitted.mpr hmem)
  · intro job code hmem hcode hexecute
    have hfinished := mem_poolExecuted.mpr hexecute
    rw [← finished_poolObserve] at hfinished
    have haccepted := WorkQueue.accepted_of_finished ht hfinished
    rw [accepted_poolObserve] at haccepted
    apply hcode (poolCalls_inj hs hmem (mem_poolSubmitted.mp haccepted))

/-- A task is submitted to a pool with one sleeping worker, and the pool is destroyed while
the worker runs the task. -/
theorem pool_executes_each_once_run :
  ∃ pool s, threadPoolCreate true true (fun _ => true) 1 = .ok pool
    ∧ (poolMachine pool).Reaches
      [.submit ⟨0, 5, 6⟩ .ok, .dequeue ⟨0, 5, 6⟩, .shutdown, .execute ⟨0, 5, 6⟩, .exit,
        .destroyed] s
    ∧ ([.submit ⟨0, 5, 6⟩ .ok, .dequeue ⟨0, 5, 6⟩, .shutdown, .execute ⟨0, 5, 6⟩, .exit,
      .destroyed] : List PoolEvent).count (.execute ⟨0, 5, 6⟩) = 1
  := by
  have hrun : StateMachine.run poolStep (.start ⟨1, none, none, false⟩)
      [.enter 0, .submit none 5 6 (some 0) [true], .enter 0, .destroy, .finish 0, .enter 0,
        .join, .join, .drain]
    = some (_, [.submit ⟨0, 5, 6⟩ .ok, .dequeue ⟨0, 5, 6⟩, .shutdown, .execute ⟨0, 5, 6⟩,
        .exit, .destroyed]) := rfl
  have hpool : threadPoolCreate true true (fun _ => true) 1 = .ok ⟨1, none, none, false⟩ := rfl
  have hs : (poolMachine _).Reaches _ _ := StateMachine.reaches_of_run rfl hrun
  obtain ⟨-, -, -, hdestroyed, -⟩ :=
    pool_executes_each_once true true (fun _ => true) 1 _ hpool _ _ hs
  exact ⟨_, _, hpool, hs, (hdestroyed (by simp)).2 _ (by simp)⟩

end CTemplate

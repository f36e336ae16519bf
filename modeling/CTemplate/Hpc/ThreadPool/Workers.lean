import CTemplate.Hpc.ThreadPool.Delivery

/-!
# The jobs of the workers

What the steps of the threads of a pool do to the jobs in the queue and to the job that each
worker runs: a submit appends a job to the queue, a worker that takes the mutex may take the first
one, a worker whose task returns runs none, and nothing else changes them.
-/

namespace CTemplate

variable {s s' : PoolSystem} {e : Option PoolEvent} {waiting : List Job}

/-- The job that worker `i` runs. -/
def PoolSystem.jobOf (s : PoolSystem) (i : ℕ) : Option Job :=
  (s.workers[i]?.bind Worker.node?).map s.job

/-- The threads are where they can be, and the jobs `waiting` are in the queue. -/
structure PoolWaits (s : PoolSystem) (waiting : List Job) : Prop where
  control : PoolControl s
  shape : ∃ nodes, PoolShape s nodes ∧ nodes.map s.job = waiting

/-- The events that show no change of the jobs. -/
def PoolEvent.Quiet (e : Option PoolEvent) : Prop :=
  e = none ∨ e = some .exit ∨ e = some .shutdown ∨ e = some .destroyed

/-! ### Jobs of workers -/

theorem mem_filterMap_node? {workers : List Worker} {i : ℕ} {t : Addr}
    (h : workers[i]?.bind Worker.node? = some t) :
  t ∈ workers.filterMap Worker.node?
  := by
  obtain ⟨worker, hw, hnode⟩ := Option.bind_eq_some_iff.mp h
  apply List.mem_filterMap.mpr ⟨worker, List.mem_of_getElem? hw, hnode⟩

/-- The jobs of the workers depend on the tasks that run. -/
theorem PoolSystem.jobOf_congr
    (hworkers : ∀ i : ℕ, s'.workers[i]?.bind Worker.node? = s.workers[i]?.bind Worker.node?)
    (hjob : ∀ t ∈ s.runningNodes, s'.job t = s.job t) :
  s'.jobOf = s.jobOf
  := by
  funext i
  rw [jobOf, jobOf, hworkers]
  apply Option.map_congr
  intro t ht
  apply hjob t (mem_filterMap_node? ht)

theorem bind_node?_set
    {workers : List Worker} {i : ℕ} {worker : Worker} (hw : workers[i]? = some worker)
    (worker' : Worker) (j : ℕ) :
  (workers.set i worker')[j]?.bind Worker.node?
    = if j = i then worker'.node? else workers[j]?.bind Worker.node?
  := by
  by_cases hj : j = i
  · subst hj
    have hlt := (List.getElem?_eq_some_iff.mp hw).1
    rw [List.getElem?_set_self hlt, if_pos rfl, Option.bind_some]
  · rw [List.getElem?_set_ne (Ne.symm hj), if_neg hj]

/-- Replacing the state of a worker that runs no task before and after. -/
theorem bind_node?_set_quiet
    {workers : List Worker} {i : ℕ} {worker worker' : Worker} (hw : workers[i]? = some worker)
    (hnone : worker.node? = none) (hnone' : worker'.node? = none) (j : ℕ) :
  (workers.set i worker')[j]?.bind Worker.node? = workers[j]?.bind Worker.node?
  := by
  rw [bind_node?_set hw]
  split
  case isFalse => rfl
  case isTrue heq =>
  subst heq
  rw [hw, Option.bind_some, hnone, hnone']

/-! ### What a step does to the jobs -/

theorem PoolWaits.start
    {calloc malloc : Bool} {created : ℕ → Bool} {numThreads : ℕ} {pool : ThreadPool}
    (h : threadPoolCreate calloc malloc created numThreads = .ok pool) :
  PoolWaits (.start pool) [] ∧ ∀ i, (PoolSystem.start pool).jobOf i = none
  := by
  obtain ⟨hpos, heq⟩ := threadPoolCreate_eq_ok h
  obtain ⟨nodes, hshape, hqueue⟩ := PoolQueue.start pool.numThreads
  rw [heq]
  refine ⟨⟨.start hpos rfl, nodes, hshape, ?_⟩, ?_⟩
  · exact (congrArg WorkQueue.State.waiting hqueue).symm
  · intro i
    rw [PoolSystem.jobOf, PoolSystem.start]
    simp only [List.getElem?_replicate]
    split <;> rfl

/-- A step that shows no change of the jobs changes none. -/
theorem PoolWaits.quiet
    (h : PoolWaits s waiting) (hstep : PoolStep s e s') (he : PoolEvent.Quiet e) :
  PoolWaits s' waiting ∧ s'.jobOf = s.jobOf ∧ s'.calls = s.calls
  := by
  have hcontrol := h.control.step hstep
  obtain ⟨nodes, hshape, rfl⟩ := h.shape
  cases hstep with
  | submitOk | submitFailed | take | finish | discard => simp [PoolEvent.Quiet] at he
  | wait hw enters | exit hw enters =>
      refine ⟨⟨hcontrol, nodes, hshape.of_perm (runningNodes_set hw enters.node? rfl), rfl⟩, ?_,
        rfl⟩
      apply PoolSystem.jobOf_congr
      · exact bind_node?_set_quiet hw enters.node? rfl
      · exact fun _ _ => rfl
  | spurious hw =>
      refine ⟨⟨hcontrol, nodes, hshape.of_perm (runningNodes_set hw rfl rfl), rfl⟩, ?_, rfl⟩
      apply PoolSystem.jobOf_congr
      · exact bind_node?_set_quiet hw rfl rfl
      · exact fun _ _ => rfl
  | destroy =>
      refine ⟨⟨hcontrol, nodes, hshape.destroy, rfl⟩, ?_, rfl⟩
      apply PoolSystem.jobOf_congr
      · exact CondVar.bind_getElem?_broadcast poolCond_wake_node?
      · exact fun _ _ => rfl
  | join | joined | destroyed => exact ⟨⟨hcontrol, nodes, { hshape with }, rfl⟩, rfl, rfl⟩

/-- A call of `thread_pool_submit` appends its job to the queue when it returns `ERR_OK`. -/
theorem PoolWaits.submit
    (h : PoolWaits s waiting) {func arg : Ptr} {code : ErrorCode}
    (hstep : PoolStep s (some (.submit ⟨s.calls, func, arg⟩ code)) s') :
  PoolWaits s' (if code = .ok then waiting ++ [⟨s.calls, func, arg⟩] else waiting)
    ∧ s'.jobOf = s.jobOf ∧ s'.calls = s.calls + 1
  := by
  have hcontrol := h.control.step hstep
  obtain ⟨nodes, hshape, rfl⟩ := h.shape
  cases hstep with
  | @submitOk a _ _ _ workers fresh isOpen signal =>
      obtain ⟨hshape', -, hnew, hold⟩ := hshape.submitOk fresh func arg signal rfl
      rw [if_pos rfl]
      refine ⟨⟨hcontrol, _, hshape', ?_⟩, ?_, rfl⟩
      · rw [List.map_append, List.map_singleton, hnew]
        congr 1
        apply List.map_congr_left
        intro b hb
        apply hold b (List.mem_append_left _ hb)
      · obtain ⟨rfl, -⟩ := CondVar.signal_eq_some signal
        apply PoolSystem.jobOf_congr (CondVar.bind_getElem?_rouse poolCond_wake_node?)
        intro t ht
        apply hold t (List.mem_append_right _ ht)
  | submitFailed failed =>
      rw [if_neg failed]
      exact ⟨⟨hcontrol, nodes, { hshape with }, rfl⟩, rfl, rfl⟩

/-- The event of a call of `thread_pool_submit`. -/
theorem poolStep_submit
    {caller : Option ℕ} {func arg : Ptr} {block : Option Addr} {chosen : List Bool}
    (h : poolStep s (.submit caller func arg block chosen) = some (s', e)) :
  ∃ code, e = some (.submit ⟨s.calls, func, arg⟩ code)
  := by
  simp only [poolStep] at h
  split at h
  case isFalse => cases h
  case isTrue =>
  split at h
  · split at h
    · cases h
    · cases h
      exact ⟨.ok, rfl⟩
  · cases h
    exact ⟨_, rfl⟩

/-- The workers leave the caller of `thread_pool_destroy` where it is. -/
theorem poolStep_destroyer
    {a : PoolAct} {i : ℕ} (ha : a = .enter i ∨ a = .finish i ∨ a = .spurious i)
    (h : poolStep s a = some (s', e)) :
  s'.destroyer = s.destroyer
  := by
  rcases ha with rfl | rfl | rfl <;> simp only [poolStep] at h
  · split at h
    case isFalse => cases h
    case isTrue => split at h <;> cases h <;> rfl
  · split at h <;> cases h
    rfl
  · split at h <;> cases h
    rfl

/-- A spurious wakeup and the parts of `thread_pool_destroy` change no job. -/
theorem PoolWaits.destroys
    (h : PoolWaits s waiting) {a : PoolAct}
    (ha : a = .destroy ∨ a = .join ∨ a = .drain ∨ ∃ i, a = .spurious i)
    (hstep : poolStep s a = some (s', e)) :
  PoolWaits s' waiting ∧ s'.jobOf = s.jobOf ∧ s'.calls = s.calls
  := by
  have hcases := poolStep_cases hstep
  apply h.quiet hcases
  rcases ha with rfl | rfl | rfl | ⟨i, rfl⟩ <;> simp only [poolStep] at hstep
  · split at hstep <;> cases hstep
    exact .inr (.inr (.inl rfl))
  · split at hstep
    case h_2 => cases hstep
    case h_1 =>
    split at hstep
    · split at hstep <;> cases hstep
      exact .inl rfl
    · cases hstep
      exact .inl rfl
  · split at hstep
    case isFalse => cases hstep
    case isTrue =>
    split at hstep
    · cases hstep
      exact absurd hcases h.control.not_discard
    · cases hstep
      exact .inr (.inr (.inr rfl))
  · split at hstep <;> cases hstep
    exact .inl rfl

/-- A worker that takes the mutex takes the first job of the queue, or changes no job. -/
theorem PoolWaits.enter
    (h : PoolWaits s waiting) {i : ℕ} (hstep : poolStep s (.enter i) = some (s', e)) :
  (PoolEvent.Quiet e ∧ PoolWaits s' waiting ∧ s'.jobOf = s.jobOf ∧ s'.calls = s.calls)
    ∨ ∃ job rest, e = some (.dequeue job) ∧ waiting = job :: rest ∧ PoolWaits s' rest
      ∧ s.jobOf i = none ∧ s'.jobOf = Function.update s.jobOf i (some job)
      ∧ s'.calls = s.calls
  := by
  have hcases := poolStep_cases hstep
  have hcontrol := h.control.step hcases
  simp only [poolStep] at hstep
  split at hstep
  case isFalse => cases hstep
  case isTrue henter =>
  obtain ⟨worker, hw, henters⟩ : ∃ worker, s.workers[i]? = some worker ∧ worker.Enters := by
    rcases henter with hw | hw
    · exact ⟨_, hw, Or.inl rfl⟩
    · exact ⟨_, hw, Or.inr rfl⟩
  split at hstep
  · cases hstep
    exact .inl ⟨.inl rfl, h.quiet hcases (.inl rfl)⟩
  · cases hstep
    exact .inl ⟨.inr (.inl rfl), h.quiet hcases (.inr (.inl rfl))⟩
  · right
    rename_i t pool hsection
    cases hstep
    have hfirst : s.pool.queueHead = some t
        ∧ pool = s.pool.taken ((s.heap t).bind Task.next) := by
      unfold workerSection at hsection
      split at hsection
      · split at hsection <;> cases hsection
      · cases hsection
        rename_i hhead
        exact ⟨hhead, rfl⟩
    obtain ⟨hhead, rfl⟩ := hfirst
    obtain ⟨nodes, hshape, rfl⟩ := h.shape
    obtain ⟨nodes, rfl, hshape'⟩ := hshape.take hw henters hhead
    refine ⟨s.job t, nodes.map s.job, rfl, rfl, ⟨hcontrol, nodes, hshape', rfl⟩, ?_, ?_, rfl⟩
    · rw [PoolSystem.jobOf, hw, Option.bind_some, henters.node?]
      rfl
    · funext j
      rw [PoolSystem.jobOf, bind_node?_set hw, Function.update_apply]
      split <;> rfl

/-- A worker whose task returns runs no job. -/
theorem PoolWaits.finish
    (h : PoolWaits s waiting) {i : ℕ} (hstep : poolStep s (.finish i) = some (s', e)) :
  ∃ job, e = some (.execute job) ∧ s.jobOf i = some job ∧ PoolWaits s' waiting
    ∧ s'.jobOf = Function.update s.jobOf i none ∧ s'.calls = s.calls
  := by
  have hcontrol := h.control.step (poolStep_cases hstep)
  simp only [poolStep] at hstep
  split at hstep
  case h_2 => cases hstep
  case h_1 t hw =>
  cases hstep
  obtain ⟨nodes, hshape, rfl⟩ := h.shape
  obtain ⟨hshape', hheap⟩ := hshape.finish hw
  -- the freed node is none of those that are left
  have hjob : ∀ b ∈ nodes ++ (s.workers.set i .ready).filterMap Worker.node?,
      PoolSystem.job { s with
        heap := Function.update s.heap t none, workers := s.workers.set i .ready } b
      = s.job b := by
    intro b hb
    simp only [PoolSystem.job, hheap b hb]
  refine ⟨s.job t, rfl, ?_, ⟨hcontrol, nodes, hshape', ?_⟩, ?_, rfl⟩
  · rw [PoolSystem.jobOf, hw]
    rfl
  · apply List.map_congr_left
    intro b hb
    apply hjob b (List.mem_append_left _ hb)
  · funext j
    rw [Function.update_apply, PoolSystem.jobOf]
    have hnode := bind_node?_set hw .ready j
    by_cases hj : j = i
    · rw [if_pos hj] at hnode ⊢
      rw [hnode]
      rfl
    · rw [if_neg hj, PoolSystem.jobOf]
      rw [if_neg hj] at hnode
      rw [hnode]
      apply Option.map_congr
      intro b hb
      apply hjob
      apply List.mem_append_right
      apply mem_filterMap_node? (i := j)
      rw [hnode, hb]

/-- When `thread_pool_destroy` has returned no job waits and none runs. -/
theorem PoolWaits.returned (h : PoolWaits s waiting) (hs : s.destroyer = .returned) :
  waiting = [] ∧ ∀ i, s.jobOf i = none
  := by
  obtain ⟨hempty, hexited⟩ := h.control.drained (.inr hs)
  obtain ⟨nodes, hshape, rfl⟩ := h.shape
  constructor
  · have hhead := hshape.chain.head?_eq
    rw [hempty] at hhead
    rw [List.head?_eq_none_iff.mp hhead.symm]
    rfl
  · intro i
    rw [PoolSystem.jobOf]
    cases hw : s.workers[i]? with
    | none => rfl
    | some worker =>
        rw [hexited worker (List.mem_of_getElem? hw)]
        rfl

end CTemplate

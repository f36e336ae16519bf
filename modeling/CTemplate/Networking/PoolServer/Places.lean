import CTemplate.Networking.PoolServer.Ledger

/-!
# The places of the connections

The holders of the sockets of the echo server are the main thread, between `tcp_accept` and
`thread_pool_submit`, the jobs in the queue of the pool, and the workers that run `handle_client`.
A connection is in one of these places, and the threads hand it from one to the next.
-/

namespace CTemplate

variable {s s' : PoolServer} {log : List PoolServerEvent} {waiting : List Job} {p q : Ptr} {n : ℕ}
  {phase phase' : HandlerPhase}

/-! ### Where the connections are -/

/-- The main thread has a connection that it has not handed on. -/
def PoolServer.Holding (s : PoolServer) (p : Ptr) : Prop :=
  s.phase = .submitting p ∨ s.phase = .rejecting p

/-- Connection `n` with the socket at `p` is with the main thread, in the queue of the pool, or with
a worker. -/
inductive Place (s : PoolServer) (waiting : List Job) : Ptr → ℕ → HandlerPhase → Prop where
  | main {p : Ptr} (h : s.Holding p) :
      Place s waiting p (s.accepted - 1) (.serving .receiving)
  | waiting {job : Job} (h : job ∈ waiting) : Place s waiting job.arg job.id (.serving .receiving)
  | running {i : ℕ} {job : Job} (h : s.pool.jobOf i = some job) :
      Place s waiting job.arg job.id (s.handlers i)

/-- The connection that the main thread has. -/
def PoolServer.pending (s : PoolServer) : List ℕ :=
  match s.phase with
  | .submitting _ | .rejecting _ => [s.accepted - 1]
  | _ => []

/-- The block that the main thread has for the next connection. -/
def PoolServer.spare (s : PoolServer) : Option Ptr :=
  match s.phase with
  | .accepting client => some client
  | _ => none

/-- How many connections are still to be submitted. -/
def PoolServer.submits (s : PoolServer) : ℕ :=
  match s.phase with
  | .submitting _ => 1
  | _ => 0

/-- The connections for which a worker started `handle_client`, in order. -/
def startedConns (log : List PoolServerEvent) : List ℕ :=
  log.filterMap fun
    | .start number => some number
    | _ => none

/-- The connections that the main thread could not submit. -/
def rejectedConns (log : List PoolServerEvent) : List ℕ :=
  log.filterMap fun
    | .reject number => some number
    | _ => none

/-- The connections were started in the order in which they were accepted, and the rest of them
waits. -/
structure PoolOrder (log : List PoolServerEvent) (s : PoolServer) (waiting : List Job) : Prop where
  order : startedConns log ++ waiting.map Job.id ++ s.pending ++ rejectedConns log
    = List.range s.accepted
  rejects : s.phase = .destroying ∨ s.phase = .returned ∨ rejectedConns log = []
  calls : s.pool.calls + s.submits = s.accepted
  running : ∀ i job, s.pool.jobOf i = some job → job.id ∈ startedConns log
  running_inj : ∀ i j job job', s.pool.jobOf i = some job → s.pool.jobOf j = some job' →
    job.id = job'.id → i = j

/-! ### Numbers -/

theorem PoolOrder.nodup (h : PoolOrder log s waiting) :
  (startedConns log ++ waiting.map Job.id ++ s.pending ++ rejectedConns log).Nodup
  := by
  rw [h.order]
  exact List.nodup_range

theorem PoolServer.mem_pending (h : s.Holding p) :
  s.pending = [s.accepted - 1]
  := by
  rcases h with h | h <;> rw [pending, h]

theorem Place.cases (h : Place s waiting p n phase) :
  (s.Holding p ∧ n = s.accepted - 1
      ∧ phase = .serving .receiving)
    ∨ (∃ job ∈ waiting, p = job.arg ∧ n = job.id ∧ phase = .serving .receiving)
    ∨ ∃ i job, s.pool.jobOf i = some job ∧ p = job.arg ∧ n = job.id ∧ phase = s.handlers i
  := by
  cases h with
  | main hphase => exact .inl ⟨hphase, rfl, rfl⟩
  | waiting hjob => exact .inr (.inl ⟨_, hjob, rfl, rfl, rfl⟩)
  | running hjob => exact .inr (.inr ⟨_, _, hjob, rfl, rfl, rfl⟩)

/-- Where the number of a connection in some place is found. -/
theorem Place.number (h : PoolOrder log s waiting) (hp : Place s waiting p n phase) :
  n ∈ startedConns log ++ waiting.map Job.id ++ s.pending
  := by
  rw [List.mem_append, List.mem_append]
  cases hp with
  | main hphase =>
      rw [PoolServer.mem_pending hphase]
      exact .inr List.mem_cons_self
  | waiting hjob => exact .inl (.inr (List.mem_map_of_mem hjob))
  | running hjob => exact .inl (.inl (h.running _ _ hjob))

theorem Place.lt (h : PoolOrder log s waiting) (hp : Place s waiting p n phase) :
  n < s.accepted
  := by
  rw [← List.mem_range, ← h.order]
  exact List.mem_append_left _ (hp.number h)

/-- The connection that the main thread has is neither in the queue nor with a worker. -/
theorem PoolOrder.not_pending
    (h : PoolOrder log s waiting) (hphase : s.Holding p) :
  s.accepted - 1 ∉ startedConns log ∧ s.accepted - 1 ∉ waiting.map Job.id
  := by
  obtain ⟨-, -, hpending⟩ := List.nodup_append.mp (List.nodup_append.mp h.nodup).1
  have hmem : s.accepted - 1 ∈ s.pending := by
    rw [PoolServer.mem_pending hphase]
    exact List.mem_cons_self
  constructor
  · intro hstarted
    exact hpending _ (List.mem_append_left _ hstarted) _ hmem rfl
  · intro hwaiting
    exact hpending _ (List.mem_append_right _ hwaiting) _ hmem rfl

/-- A job in the queue was not started. -/
theorem PoolOrder.not_started
    (h : PoolOrder log s waiting) (hn : n ∈ waiting.map Job.id) :
  n ∉ startedConns log
  := by
  obtain ⟨hnodup, -⟩ := List.nodup_append.mp (List.nodup_append.mp h.nodup).1
  intro hstarted
  exact (List.nodup_append.mp hnodup).2.2 n hstarted n hn rfl

theorem PoolOrder.nodup_waiting (h : PoolOrder log s waiting) :
  (waiting.map Job.id).Nodup
  := by
  obtain ⟨hnodup, -⟩ := List.nodup_append.mp (List.nodup_append.mp h.nodup).1
  exact (List.nodup_append.mp hnodup).2.1

/-- A connection is in one place. -/
theorem Place.unique
    (h : PoolOrder log s waiting) (hp : Place s waiting p n phase)
    (hq : Place s waiting q n phase') :
  p = q ∧ phase = phase'
  := by
  rcases hp.cases with ⟨hmain, rfl, rfl⟩ | ⟨job, hjob, rfl, rfl, rfl⟩
    | ⟨i, job, hjob, rfl, rfl, rfl⟩
  · obtain ⟨hstarted, hwaiting⟩ := h.not_pending hmain
    rcases hq.cases with ⟨hmain', -, rfl⟩ | ⟨job', hjob', -, heq, -⟩
      | ⟨j, job', hjob', -, heq, -⟩
    · refine ⟨?_, rfl⟩
      rcases hmain with hmain | hmain <;> rcases hmain' with hmain' | hmain' <;>
        rw [hmain] at hmain' <;> cases hmain'
      · rfl
      · rfl
    · rw [heq] at hwaiting
      exact absurd (List.mem_map_of_mem hjob') hwaiting
    · rw [heq] at hstarted
      exact absurd (h.running j job' hjob') hstarted
  · have hmem : job.id ∈ waiting.map Job.id := List.mem_map_of_mem hjob
    rcases hq.cases with ⟨hmain', heq, -⟩ | ⟨job', hjob', rfl, heq, rfl⟩
      | ⟨j, job', hjob', -, heq, -⟩
    · rw [heq] at hmem
      exact absurd hmem (h.not_pending hmain').2
    · rw [List.inj_on_of_nodup_map h.nodup_waiting hjob hjob' heq]
      exact ⟨rfl, rfl⟩
    · rw [heq] at hmem
      exact absurd (h.running j job' hjob') (h.not_started hmem)
  · have hmem := h.running i job hjob
    rcases hq.cases with ⟨hmain', heq, -⟩ | ⟨job', hjob', -, heq, -⟩
      | ⟨j, job', hjob', rfl, heq, rfl⟩
    · rw [heq] at hmem
      exact absurd hmem (h.not_pending hmain').1
    · rw [heq] at hmem
      exact absurd hmem (h.not_started (List.mem_map_of_mem hjob'))
    · obtain rfl := h.running_inj i j job job' hjob hjob' heq
      rw [hjob] at hjob'
      cases hjob'
      exact ⟨rfl, rfl⟩

/-! ### Places after a step -/

/-- A step that changes neither the jobs nor what the main thread has. -/
theorem Place.congr
    (hphase : ∀ p, s'.Holding p ↔ s.Holding p) (haccepted : s'.accepted = s.accepted)
    (hjobs : s'.pool.jobOf = s.pool.jobOf) (hhandlers : s'.handlers = s.handlers) :
  Place s' waiting p n phase ↔ Place s waiting p n phase
  := by
  constructor
  · rintro (hmain | hjob | hjob)
    · rw [haccepted]
      exact .main ((hphase p).mp hmain)
    · exact .waiting hjob
    · rw [hhandlers]
      rw [hjobs] at hjob
      exact .running hjob
  · rintro (hmain | hjob | hjob)
    · rw [← haccepted]
      exact .main ((hphase p).mpr hmain)
    · exact .waiting hjob
    · rw [← hhandlers]
      rw [← hjobs] at hjob
      exact .running hjob

/-- A connection in the place of a worker is in no other one. -/
theorem PoolOrder.ne_running
    (h : PoolOrder log s waiting) {i : ℕ} {job : Job} (hjob : s.pool.jobOf i = some job) :
  (∀ p, s.Holding p → s.accepted - 1 ≠ job.id) ∧ (∀ job' ∈ waiting, job'.id ≠ job.id)
    ∧ ∀ j job', s.pool.jobOf j = some job' → j ≠ i → job'.id ≠ job.id
  := by
  have hmem := h.running i job hjob
  refine ⟨?_, ?_, ?_⟩
  · intro p hmain heq
    rw [← heq] at hmem
    exact (h.not_pending hmain).1 hmem
  · intro job' hjob' heq
    rw [← heq] at hmem
    exact h.not_started (List.mem_map_of_mem hjob') hmem
  · intro j job' hjob' hne heq
    exact hne (h.running_inj j i job' job hjob' hjob heq)

/-- A worker goes on in its task. -/
theorem PoolOrder.replaced
    (h : PoolOrder log s waiting) {i : ℕ} {job : Job} (hjob : s.pool.jobOf i = some job)
    (hholding : ∀ p, s'.Holding p ↔ s.Holding p) (haccepted : s'.accepted = s.accepted)
    (hpool : s'.pool = s.pool)
    (hhandlers : s'.handlers = Function.update s.handlers i phase') :
  Place s' waiting p n phase ↔ Replaced (Place s waiting) job.arg job.id phase' p n phase
  := by
  obtain ⟨hmain, hwaiting, hrunning⟩ := h.ne_running hjob
  constructor
  · rintro (hmain' | hjob' | @⟨j, job', hjob'⟩)
    · rw [hholding] at hmain'
      rw [haccepted]
      exact .inl ⟨hmain p hmain', .main hmain'⟩
    · exact .inl ⟨hwaiting _ hjob', .waiting hjob'⟩
    · rw [hpool] at hjob'
      rw [hhandlers]
      by_cases hj : j = i
      · subst hj
        rw [hjob] at hjob'
        cases hjob'
        exact .inr ⟨rfl, rfl, Function.update_self ..⟩
      · rw [Function.update_of_ne hj]
        exact .inl ⟨hrunning j job' hjob' hj, .running hjob'⟩
  · rintro (⟨hne, hplace⟩ | ⟨rfl, rfl, rfl⟩)
    · rcases hplace with hmain' | hjob' | @⟨j, job', hjob'⟩
      · rw [← haccepted]
        exact .main (by rwa [hholding])
      · exact .waiting hjob'
      · have hj : j ≠ i := by
          rintro rfl
          rw [hjob] at hjob'
          cases hjob'
          exact hne rfl
        have heq : s'.handlers j = s.handlers j := by rw [hhandlers, Function.update_of_ne hj]
        rw [← heq]
        exact .running (by rwa [hpool])
    · have heq : s'.handlers i = phase := by rw [hhandlers, Function.update_self]
      rw [← heq]
      exact .running (by rwa [hpool])

/-- A task returns. -/
theorem PoolOrder.removed
    (h : PoolOrder log s waiting) {i : ℕ} {job : Job} (hjob : s.pool.jobOf i = some job)
    (hholding : ∀ p, s'.Holding p ↔ s.Holding p) (haccepted : s'.accepted = s.accepted)
    (hjobs : s'.pool.jobOf = Function.update s.pool.jobOf i none)
    (hhandlers : s'.handlers = s.handlers) :
  Place s' waiting p n phase ↔ n ≠ job.id ∧ Place s waiting p n phase
  := by
  obtain ⟨hmain, hwaiting, hrunning⟩ := h.ne_running hjob
  constructor
  · rintro (hmain' | hjob' | @⟨j, job', hjob'⟩)
    · rw [hholding] at hmain'
      rw [haccepted]
      exact ⟨hmain p hmain', .main hmain'⟩
    · exact ⟨hwaiting _ hjob', .waiting hjob'⟩
    · rw [hjobs] at hjob'
      rw [hhandlers]
      have hj : j ≠ i := by
        rintro rfl
        rw [Function.update_self] at hjob'
        cases hjob'
      rw [Function.update_of_ne hj] at hjob'
      exact ⟨hrunning j job' hjob' hj, .running hjob'⟩
  · rintro ⟨hne, hmain' | hjob' | @⟨j, job', hjob'⟩⟩
    · rw [← haccepted]
      exact .main (by rwa [hholding])
    · exact .waiting hjob'
    · have hj : j ≠ i := by
        rintro rfl
        rw [hjob] at hjob'
        cases hjob'
        exact hne rfl
      rw [← hhandlers]
      apply Place.running
      rw [hjobs, Function.update_of_ne hj, hjob']

/-- A worker takes the first job of the queue. -/
theorem Place.taken
    {i : ℕ} {job : Job} (hnone : s.pool.jobOf i = none)
    (hholding : ∀ p, s'.Holding p ↔ s.Holding p) (haccepted : s'.accepted = s.accepted)
    (hjobs : s'.pool.jobOf = Function.update s.pool.jobOf i (some job))
    (hhandlers : s'.handlers = Function.update s.handlers i (.serving .receiving)) :
  Place s' waiting p n phase ↔ Place s (job :: waiting) p n phase
  := by
  have hjob : s'.pool.jobOf i = some job := by rw [hjobs, Function.update_self]
  have hstart : s'.handlers i = .serving .receiving := by rw [hhandlers, Function.update_self]
  have hother : ∀ j, j ≠ i → s'.pool.jobOf j = s.pool.jobOf j ∧ s'.handlers j = s.handlers j := by
    intro j hj
    rw [hjobs, hhandlers, Function.update_of_ne hj, Function.update_of_ne hj]
    exact ⟨rfl, rfl⟩
  constructor
  · rintro (hmain | hjob' | @⟨j, job', hjob'⟩)
    · rw [haccepted]
      exact .main (by rwa [← hholding])
    · exact .waiting (List.mem_cons_of_mem _ hjob')
    · by_cases hj : j = i
      · subst hj
        rw [hjob] at hjob'
        cases hjob'
        rw [hstart]
        exact .waiting List.mem_cons_self
      · rw [(hother j hj).2]
        exact .running (by rwa [← (hother j hj).1])
  · rintro (hmain | hjob' | @⟨j, job', hjob'⟩)
    · rw [← haccepted]
      exact .main (by rwa [hholding])
    · rcases List.mem_cons.mp hjob' with rfl | hjob'
      · rw [← hstart]
        exact .running hjob
      · exact .waiting hjob'
    · have hj : j ≠ i := by
        rintro rfl
        rw [hnone] at hjob'
        cases hjob'
      rw [← (hother j hj).2]
      exact .running (by rwa [(hother j hj).1])

/-- The main thread hands its connection to the queue. -/
theorem Place.submitted
    {client : Ptr} {job : Job} (hphase : s.phase = .submitting client)
    (hphase' : s'.phase = .allocating) (harg : job.arg = client) (hid : job.id = s.accepted - 1)
    (hjobs : s'.pool.jobOf = s.pool.jobOf) (hhandlers : s'.handlers = s.handlers) :
  Place s' (waiting ++ [job]) p n phase ↔ Place s waiting p n phase
  := by
  constructor
  · rintro (hmain | hjob | hjob)
    · rw [PoolServer.Holding, hphase'] at hmain
      rcases hmain with hmain | hmain <;> cases hmain
    · rcases List.mem_append.mp hjob with hjob | hjob
      · exact .waiting hjob
      · obtain rfl := List.mem_singleton.mp hjob
        rw [harg, hid]
        exact .main (.inl hphase)
    · rw [hhandlers]
      rw [hjobs] at hjob
      exact .running hjob
  · intro hplace
    rcases hplace.cases with ⟨hmain, rfl, rfl⟩ | ⟨job', hjob, rfl, rfl, rfl⟩
      | ⟨i, job', hjob, rfl, rfl, rfl⟩
    · rw [PoolServer.Holding, hphase] at hmain
      rcases hmain with hmain | hmain <;> cases hmain
      rw [← harg, ← hid]
      exact .waiting (List.mem_append_right _ List.mem_cons_self)
    · exact .waiting (List.mem_append_left _ hjob)
    · rw [← hhandlers]
      exact .running (by rwa [hjobs])

end CTemplate

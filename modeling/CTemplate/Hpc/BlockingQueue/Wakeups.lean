import CTemplate.Hpc.BlockingQueue.System

/-!
# Wakeups of the blocking queue

A push signals `not_empty` once and a pop signals `not_full` once.  That loses no wakeup:
while a consumer sleeps there are at least as many woken consumers as elements, while a
producer sleeps there are at least as many woken producers as free slots, and no thread
sleeps once the queue was closed.
-/

namespace CTemplate

variable {w : ℕ} {q : BlockingQueue} {s s' : BqSystem w} {e : Option BqEvent}

theorem notFull_independent : CondVar.Independent (notFull (w := w)) notEmpty where
  asleep := by rintro (_ | _ | _ | _ | _) <;> simp [notEmpty, notFull]
  woken := by rintro (_ | _ | _ | _ | _) <;> simp [notEmpty, notFull]

theorem notEmpty_independent : CondVar.Independent (notEmpty (w := w)) notFull where
  asleep := by rintro (_ | _ | _ | _ | _) <;> simp [notEmpty, notFull]
  woken := by rintro (_ | _ | _ | _ | _) <;> simp [notEmpty, notFull]

/-- A thread that enters `bq_push` was not woken on `not_empty`. -/
theorem BqThread.EntersPush.not_woken
    {t : BqThread w} {elem : Elem w} (h : t.EntersPush elem) :
  notEmpty.woken t = false
  := by
  rcases h with rfl | rfl <;> rfl

/-- A thread that enters `bq_pop` was not woken on `not_full`. -/
theorem BqThread.EntersPop.not_woken {t : BqThread w} (h : t.EntersPop) :
  notFull.woken t = false
  := by
  rcases h with rfl | rfl <;> rfl

/-- The woken consumers account for the elements and the woken producers for the free
slots, and no thread sleeps on a closed queue. -/
structure BqAccounted (s : BqSystem w) : Prop where
  cap_le : s.q.cap ≤ sizeMax
  len_le : s.q.len ≤ s.q.cap
  consumers : notEmpty.Accounted s.threads s.q.len
  producers : notFull.Accounted s.threads (s.q.cap - s.q.len)
  closed : s.q.closed = true →
    s.threads.countP notEmpty.asleep = 0 ∧ s.threads.countP notFull.asleep = 0

/-- On a closed queue a thread that does not go to sleep changes nothing. -/
theorem BqAccounted.set_closed
    (h : BqAccounted s) (hclosed : s.q.closed = true) {i : ℕ} {t t' : BqThread w}
    (ht : s.threads[i]? = some t) (hempty : notEmpty.asleep t' = false)
    (hfull : notFull.asleep t' = false) :
  BqAccounted { s with threads := s.threads.set i t' }
  := by
  obtain ⟨hconsumers, hproducers⟩ := h.closed hclosed
  have hconsumers' := CondVar.countP_asleep_set hconsumers ht hempty
  have hproducers' := CondVar.countP_asleep_set hproducers ht hfull
  exact
    { h with
      consumers := CondVar.accounted_of_none hconsumers'
      producers := CondVar.accounted_of_none hproducers'
      closed := fun _ => ⟨hconsumers', hproducers'⟩ }

/-- A push that adds an element uses up at most one wakeup of a producer, and its signal
accounts for the new element. -/
theorem BqAccounted.pushOk
    (h : BqAccounted s) {i : ℕ} {t : BqThread w} {elem : Elem w} {chosen : List Bool}
    {threads : List (BqThread w)} (ht : s.threads[i]? = some t)
    (enters : t.EntersPush elem) (room : s.q.len ≠ s.q.cap) (isOpen : s.q.closed = false)
    (hsignal : notEmpty.signal chosen (s.threads.set i .idle) = some threads) :
  BqAccounted ⟨s.q.pushed elem.val, threads⟩
  := by
  have hcap := h.cap_le
  have hle := h.len_le
  have hlen : (s.q.pushed elem.val).len = s.q.len + 1 := by
    apply toSize_of_le
    omega
  have hfree : s.q.cap - s.q.len = s.q.cap - (s.q.len + 1) + 1 := by omega
  have hproducers := h.producers
  rw [hfree] at hproducers
  exact
    { cap_le := hcap
      len_le := by
        rw [hlen]
        change s.q.len + 1 ≤ s.q.cap
        omega
      consumers := by
        rw [hlen]
        apply CondVar.Accounted.signal _ hsignal
        apply h.consumers.keep ht enters.not_woken rfl
      producers := by
        rw [hlen]
        apply CondVar.Accounted.signal_other _ notFull_independent hsignal
        apply hproducers.leave ht rfl
      closed := by
        intro hclosed
        rw [show s.q.closed = true from hclosed] at isOpen
        cases isOpen }

/-- A pop that removes an element uses up at most one wakeup of a consumer, and its
signal accounts for the free slot. -/
theorem BqAccounted.popOk
    (h : BqAccounted s) {i : ℕ} {t : BqThread w} {chosen : List Bool}
    {threads : List (BqThread w)} (ht : s.threads[i]? = some t) (enters : t.EntersPop)
    (filled : s.q.len ≠ 0)
    (hsignal : notFull.signal chosen (s.threads.set i .idle) = some threads) :
  BqAccounted ⟨s.q.popped, threads⟩
  := by
  have hle := h.len_le
  have hlen : s.q.popped.len = s.q.len - 1 := rfl
  have hfree : s.q.cap - (s.q.len - 1) = s.q.cap - s.q.len + 1 := by omega
  have hconsumers := h.consumers
  rw [show s.q.len = s.q.len - 1 + 1 by omega] at hconsumers
  exact
    { cap_le := h.cap_le
      len_le := by
        rw [hlen]
        change s.q.len - 1 ≤ s.q.cap
        omega
      consumers := by
        rw [hlen]
        apply CondVar.Accounted.signal_other _ notEmpty_independent hsignal
        apply hconsumers.leave ht rfl
      producers := by
        change notFull.Accounted threads (s.q.cap - (s.q.len - 1))
        rw [hfree]
        apply CondVar.Accounted.signal _ hsignal
        apply h.producers.keep ht enters.not_woken rfl
      closed := by
        intro hclosed
        obtain ⟨hempty, hfull⟩ := h.closed hclosed
        constructor
        · rw [(notEmpty_independent.countP_signal hsignal).1]
          apply CondVar.countP_asleep_set hempty ht rfl
        · apply CondVar.countP_asleep_signal _ hsignal
          apply CondVar.countP_asleep_set hfull ht rfl }

/-- Every step of the threads keeps the accounting. -/
theorem BqAccounted.step (h : BqAccounted s) (hstep : BqStep s e s') :
  BqAccounted s'
  := by
  cases hstep with
  | pushWait ht enters full isOpen =>
      exact
        { h with
          consumers := h.consumers.keep ht enters.not_woken rfl
          producers := by
            rw [full, Nat.sub_self]
            apply CondVar.accounted_zero
          closed := by simp [isOpen] }
  | pushOk ht enters room isOpen signal => apply h.pushOk ht enters room isOpen signal
  | pushRefused ht _ closed => apply h.set_closed closed ht rfl rfl
  | popWait ht enters empty isOpen =>
      exact
        { h with
          consumers := by
            rw [empty]
            apply CondVar.accounted_zero
          producers := h.producers.keep ht enters.not_woken rfl
          closed := by simp [isOpen] }
  | popOk ht enters filled signal => apply h.popOk ht enters filled signal
  | popDrained ht _ _ closed => apply h.set_closed closed ht rfl rfl
  | close =>
      have hempty : (notFull.broadcast (notEmpty.broadcast s.threads)).countP
          notEmpty.asleep = 0 := notEmpty_independent.countP_broadcast_broadcast
      have hfull : (notFull.broadcast (notEmpty.broadcast s.threads)).countP
          notFull.asleep = 0 := CondVar.countP_asleep_broadcast
      exact
        { h with
          consumers := CondVar.accounted_of_none hempty
          producers := CondVar.accounted_of_none hfull
          closed := fun _ => ⟨hempty, hfull⟩ }
  | wakePush ht =>
      exact
        { h with
          consumers := h.consumers.keep ht rfl rfl
          producers := h.producers.spurious ht rfl
          closed := fun hclosed => (h.set_closed hclosed ht rfl rfl).closed hclosed }
  | wakePop ht =>
      exact
        { h with
          consumers := h.consumers.spurious ht rfl
          producers := h.producers.keep ht rfl rfl
          closed := fun hclosed => (h.set_closed hclosed ht rfl rfl).closed hclosed }

/-- The queue that a successful `bq_init` leaves is empty and open. -/
theorem bqInit_fields
    {malloc : Malloc} {elemSize capacity : ℕ}
    (h : bqInit malloc elemSize capacity = .ok q) :
  q.len = 0 ∧ q.closed = false ∧ q.cap ≤ sizeMax
  := by
  unfold bqInit at h
  split at h
  · cases h
  · rename_i hpos
    split at h
    · cases h
    · rename_i hmul
      split at h
      · cases h
      · cases h
        use rfl, rfl
        apply Nat.le_trans (Nat.le_of_not_gt hmul) (Nat.div_le_self _ _)

/-- The accounting holds in every state the threads can reach. -/
theorem BqAccounted.of_reaches
    {malloc : Malloc} {elemSize capacity : ℕ} (hq : bqInit malloc elemSize capacity = .ok q)
    {n : ℕ} {log : List BqEvent} (hs : (bqMachine w q n).Reaches log s) :
  BqAccounted s
  := by
  obtain ⟨hlen, hclosed, hcap⟩ := bqInit_fields hq
  apply hs.invariant (I := fun _ s => BqAccounted s)
  · rintro _ rfl
    have hempty : (List.replicate n (BqThread.idle (w := w))).countP notEmpty.asleep = 0 := by
      simp [List.countP_replicate, notEmpty]
    have hfull : (List.replicate n (BqThread.idle (w := w))).countP notFull.asleep = 0 := by
      simp [List.countP_replicate, notFull]
    exact
      { cap_le := hcap
        len_le := by simp [hlen]
        consumers := CondVar.accounted_of_none hempty
        producers := CondVar.accounted_of_none hfull
        closed := fun _ => ⟨hempty, hfull⟩ }
  · rintro log s e s' - hs ⟨a, hstep⟩
    apply hs.step (bqStep_cases hstep)

/-! ### Progress -/

/-- A woken consumer can take its step. -/
theorem exists_resume_wokenPop {i : ℕ} (ht : s.threads[i]? = some .wokenPop) :
  ∃ chosen s' e, bqStep s (.resume i chosen) = some (s', e)
  := by
  obtain ⟨chosen, threads, hsignal⟩ := notFull.exists_signal (s.threads.set i .idle)
  use chosen
  simp only [bqStep, ht, BqSystem.enterPop]
  split
  · exact ⟨_, _, rfl⟩
  · rw [hsignal]
    exact ⟨_, _, rfl⟩
  · exact ⟨_, _, rfl⟩

/-- A woken producer can take its step. -/
theorem exists_resume_wokenPush
    {i : ℕ} {elem : Elem w} (ht : s.threads[i]? = some (.wokenPush elem)) :
  ∃ chosen s' e, bqStep s (.resume i chosen) = some (s', e)
  := by
  obtain ⟨chosen, threads, hsignal⟩ := notEmpty.exists_signal (s.threads.set i .idle)
  use chosen
  simp only [bqStep, ht, BqSystem.enterPush]
  split
  · exact ⟨_, _, rfl⟩
  · rw [hsignal]
    exact ⟨_, _, rfl⟩
  · exact ⟨_, _, rfl⟩

/-- For any number of threads and any interleaving of their calls on a queue from
`bq_init`: while a consumer sleeps, the woken consumers number at least `len`; while a
producer sleeps, the woken producers number at least `cap - len`; no thread sleeps on a
closed queue.  So when a consumer sleeps although there is an element, a woken consumer
can take a step, and when a producer sleeps although there is a free slot, a woken
producer can. -/
theorem bq_loses_no_wakeup
    (malloc : Malloc) (w capacity : ℕ) (q : BlockingQueue)
    (hq : bqInit malloc w capacity = .ok q) (n : ℕ) (log : List BqEvent) (s : BqSystem w)
    (hs : (bqMachine w q n).Reaches log s) :
  (.asleepPop ∈ s.threads → s.q.len ≤ s.threads.countP notEmpty.woken)
    ∧ (∀ elem, .asleepPush elem ∈ s.threads →
        s.q.cap - s.q.len ≤ s.threads.countP notFull.woken)
    ∧ (s.q.closed = true →
        .asleepPop ∉ s.threads ∧ ∀ elem, .asleepPush elem ∉ s.threads)
    ∧ (.asleepPop ∈ s.threads → 0 < s.q.len → ∃ i chosen s' e,
        s.threads[i]? = some .wokenPop ∧ bqStep s (.resume i chosen) = some (s', e))
    ∧ (∀ elem, .asleepPush elem ∈ s.threads → s.q.len < s.q.cap → ∃ i elem' chosen s' e,
        s.threads[i]? = some (.wokenPush elem')
          ∧ bqStep s (.resume i chosen) = some (s', e))
  := by
  have h := BqAccounted.of_reaches hq hs
  have hconsumers : .asleepPop ∈ s.threads →
      s.q.len ≤ s.threads.countP notEmpty.woken := fun hmem =>
    h.consumers (List.countP_pos_iff.mpr ⟨_, hmem, rfl⟩)
  have hproducers : ∀ elem, .asleepPush elem ∈ s.threads →
      s.q.cap - s.q.len ≤ s.threads.countP notFull.woken := fun elem hmem =>
    h.producers (List.countP_pos_iff.mpr ⟨_, hmem, rfl⟩)
  refine ⟨hconsumers, hproducers, ?_, ?_, ?_⟩
  · intro hclosed
    obtain ⟨hempty, hfull⟩ := h.closed hclosed
    rw [List.countP_eq_zero] at hempty hfull
    constructor
    · intro hmem
      apply hempty _ hmem rfl
    · intro elem hmem
      apply hfull _ hmem rfl
  · intro hmem hlen
    obtain ⟨i, t, ht, hwoken⟩ := ListSet.exists_getElem?_of_countP_pos
      (Nat.lt_of_lt_of_le hlen (hconsumers hmem))
    obtain rfl : t = .wokenPop := by
      cases t <;> simp_all [notEmpty]
    obtain ⟨chosen, s', e, hstep⟩ := exists_resume_wokenPop ht
    exact ⟨i, chosen, s', e, ht, hstep⟩
  · intro elem hmem hlen
    have hfree : 0 < s.q.cap - s.q.len := by omega
    obtain ⟨i, t, ht, hwoken⟩ := ListSet.exists_getElem?_of_countP_pos
      (Nat.lt_of_lt_of_le hfree (hproducers elem hmem))
    obtain ⟨elem', rfl⟩ : ∃ elem', t = .wokenPush elem' := by
      cases t <;> simp_all [notFull]
    obtain ⟨chosen, s', e, hstep⟩ := exists_resume_wokenPush ht
    exact ⟨i, elem', chosen, s', e, ht, hstep⟩

/-- Two consumers wait and a producer pushes one element, which wakes one of them. -/
theorem bq_loses_no_wakeup_run :
  ∃ s, (bqMachine 1 ⟨[0], 1, 1, 0, 0, false⟩ 3).Reaches [.push [7] .ok] s
    ∧ s.threads = [.asleepPop, .wokenPop, .idle]
    ∧ s.q.len ≤ s.threads.countP notEmpty.woken
  := by
  have hrun : StateMachine.run bqStep ⟨⟨[0], 1, 1, 0, 0, false⟩, [.idle, .idle, .idle]⟩
      [.pop 0 [], .pop 1 [], .push 2 ⟨[7], rfl⟩ [false, true]]
    = some (⟨⟨[7], 1, 1, 0, 1, false⟩, [.asleepPop, .wokenPop, .idle]⟩, [.push [7] .ok]) := rfl
  have hs : (bqMachine 1 _ 3).Reaches _ _ := StateMachine.reaches_of_run rfl hrun
  have h := bq_loses_no_wakeup (.upTo 1) 1 1 _ rfl 3 _ _ hs
  exact ⟨_, hs, rfl, h.1 List.mem_cons_self⟩

end CTemplate

import CTemplate.Hpc.Pipeline.Delivery
import CTemplate.Library.Inevitable

/-!
# The pipeline ends

However the threads are scheduled, which ones the signals wake and when finitely many spurious
wakeups come, the threads of the pipeline never block each other: the main thread gets all items of
all producers and finishes, unless a thread could not be created.
-/

namespace CTemplate

variable {config : PipelineConfig} {q : BlockingQueue} {s s' : Pipeline} {e : Option BqEvent}
  {log : List BqEvent}

/-! ### The work that is left -/

/-- How many items a producer still pushes. -/
def PipelineConfig.left (config : PipelineConfig) : Option ℕ → ℕ
  | some i => config.itemsPerProducer + 1 - i
  | none => 0

/-- How many rounds of its loops the main thread still takes. -/
def MainPhase.left (config : PipelineConfig) : MainPhase → ℕ
  | .creating p =>
      1 + config.producers + config.producers * config.itemsPerProducer + (config.producers - p)
  | .consuming n =>
      1 + config.producers + (config.producers * config.itemsPerProducer - n)
  | .joining p => 1 + (config.producers - p)
  | .closing => 1
  | .finished | .failed => 0

/-- The thread does not sleep. -/
def BqThread.awake (t : BqThread workItemSize) : Bool :=
  !(notFull.asleep t || notEmpty.asleep t)

/-- The rounds of the loops that are left. -/
def Pipeline.work (config : PipelineConfig) (s : Pipeline) : ℕ :=
  s.main.left config + (s.loops.map config.left).sum

/-- A round of a loop may wake all threads, and a spurious wakeup wakes one. -/
def Pipeline.rank (config : PipelineConfig) (s : Pipeline) : ℕ :=
  (config.producers + 2) * s.work config
    + (2 * s.spurious + s.sys.threads.countP BqThread.awake)

theorem MainPhase.left_join (config : PipelineConfig) (p : ℕ) :
  (config.join p).left config ≤ 1 + (config.producers - p)
  := by
  rw [PipelineConfig.join]
  split
  · exact Nat.le_refl _
  · exact Nat.le_add_right _ _

theorem MainPhase.left_consume (config : PipelineConfig) (n : ℕ) :
  (config.consume n).left config
    ≤ 1 + config.producers + (config.producers * config.itemsPerProducer - n)
  := by
  rw [PipelineConfig.consume]
  split
  · exact Nat.le_refl _
  · have := left_join config 0
    omega

theorem MainPhase.left_create (config : PipelineConfig) (p : ℕ) :
  (config.create p).left config
    ≤ 1 + config.producers + config.producers * config.itemsPerProducer + (config.producers - p)
  := by
  rw [PipelineConfig.create]
  split
  · exact Nat.le_refl _
  · have := left_consume config 0
    omega

/-- A round of a loop lowers the rank, whatever it wakes. -/
theorem Pipeline.rank_lt_of_work
    (hwork : s'.work config < s.work config) (hspurious : s'.spurious = s.spurious)
    (hlength : s'.sys.threads.length = config.producers + 1) :
  s'.rank config < s.rank config
  := by
  have hawake := List.countP_le_length (p := BqThread.awake) (l := s'.sys.threads)
  have hmul := Nat.mul_le_mul_left (config.producers + 2) hwork
  rw [Nat.mul_succ] at hmul
  rw [rank, rank, hspurious]
  omega

/-- A thread that goes to sleep lowers the rank. -/
theorem Pipeline.rank_lt_of_sleep
    {i : ℕ} {t t' : BqThread workItemSize} (ht : s.sys.threads[i]? = some t)
    (hawake : t.awake = true) (hasleep : t'.awake = false) :
  Pipeline.rank config { s with sys := { s.sys with threads := s.sys.threads.set i t' } }
    < s.rank config
  := by
  have hcount := ListSet.countP_set_add BqThread.awake ht t'
  rw [hawake, hasleep] at hcount
  simp only [if_true, Bool.false_eq_true, if_false] at hcount
  simp only [rank, work]
  omega

/-- A spurious wakeup lowers the rank. -/
theorem Pipeline.rank_lt_of_spurious
    {i : ℕ} {t t' : BqThread workItemSize} (ht : s.sys.threads[i]? = some t)
    (hasleep : t.awake = false) (left : 0 < s.spurious) :
  Pipeline.rank config { s with
      sys := { s.sys with threads := s.sys.threads.set i t' }
      spurious := s.spurious - 1 }
    < s.rank config
  := by
  have hcount := ListSet.countP_set_add BqThread.awake ht t'
  rw [hasleep] at hcount
  have hone : (if t'.awake = true then 1 else 0) ≤ 1 := by
    split <;> omega
  simp only [Bool.false_eq_true, if_false] at hcount
  simp only [rank, work]
  omega

theorem BqThread.EntersPush.awake
    {t : BqThread workItemSize} {elem : Elem workItemSize} (h : t.EntersPush elem) :
  t.awake = true
  := by
  rcases h with rfl | rfl <;> rfl

theorem BqThread.EntersPop.awake {t : BqThread workItemSize} (h : t.EntersPop) :
  t.awake = true
  := by
  rcases h with rfl | rfl <;> rfl

/-- Every step lowers the rank. -/
theorem PipelineShape.rank_lt
    (h : PipelineShape config s) (hstep : PipelineStep config s e s') :
  s'.rank config < s.rank config
  := by
  have hlength := (h.step hstep).length_threads
  have hmain := h.main
  cases hstep with
  | @created p main =>
      rw [main] at hmain
      have hp : p < config.producers := hmain
      have hleft := MainPhase.left_create config (p + 1)
      refine Pipeline.rank_lt_of_work ?_ rfl hlength
      simp only [Pipeline.work, main, MainPhase.left] at hleft ⊢
      omega
  | notCreated main =>
      refine Pipeline.rank_lt_of_work ?_ rfl hlength
      simp only [Pipeline.work, main, MainPhase.left]
      omega
  | pushWait _ ht enters => exact Pipeline.rank_lt_of_sleep ht enters.awake rfl
  | @pushOk p i t chosen threads loop ht enters signal =>
      obtain ⟨hone, hle⟩ := h.loops p i loop
      have hsum := ListSet.sum_map_set_add config.left loop (config.producing (i + 1))
      have hleft : config.left (config.producing (i + 1)) < config.left (some i) := by
        rw [PipelineConfig.producing]
        split <;> simp only [PipelineConfig.left] <;> omega
      refine Pipeline.rank_lt_of_work ?_ rfl hlength
      simp only [Pipeline.work]
      omega
  | popWait _ ht enters => exact Pipeline.rank_lt_of_sleep ht enters.awake rfl
  | @popOk n t chosen out threads main =>
      rw [main] at hmain
      have hn : n < config.producers * config.itemsPerProducer := hmain
      have hleft := MainPhase.left_consume config (n + 1)
      refine Pipeline.rank_lt_of_work ?_ rfl hlength
      simp only [Pipeline.work, main, MainPhase.left] at hleft ⊢
      omega
  | wakePush ht left => exact Pipeline.rank_lt_of_spurious ht rfl left
  | wakePop ht left => exact Pipeline.rank_lt_of_spurious ht rfl left
  | @joined p main =>
      rw [main] at hmain
      have hp : p < config.producers := hmain
      have hleft := MainPhase.left_join config (p + 1)
      refine Pipeline.rank_lt_of_work ?_ rfl hlength
      simp only [Pipeline.work, main, MainPhase.left] at hleft ⊢
      omega
  | closed main =>
      refine Pipeline.rank_lt_of_work ?_ rfl hlength
      simp only [Pipeline.work, main, MainPhase.left]
      omega

/-! ### No state is stuck -/

theorem BqSystem.exists_enterPush
    {w : ℕ} (s : BqSystem w) (i : ℕ) (elem : Elem w) :
  ∃ chosen result, s.enterPush i elem chosen = some result
  := by
  obtain ⟨chosen, threads, hsignal⟩ := notEmpty.exists_signal (s.threads.set i .idle)
  use chosen
  rw [enterPush]
  split
  · exact ⟨_, rfl⟩
  · rw [hsignal]
    exact ⟨_, rfl⟩
  · exact ⟨_, rfl⟩

theorem BqSystem.exists_enterPop {w : ℕ} (s : BqSystem w) (i : ℕ) :
  ∃ chosen result, s.enterPop i chosen = some result
  := by
  obtain ⟨chosen, threads, hsignal⟩ := notFull.exists_signal (s.threads.set i .idle)
  use chosen
  rw [enterPop]
  split
  · exact ⟨_, rfl⟩
  · rw [hsignal]
    exact ⟨_, rfl⟩
  · exact ⟨_, rfl⟩

theorem Pipeline.exists_call
    (config : PipelineConfig) {a : BqAct workItemSize}
    {result : BqSystem workItemSize × Option BqEvent} (h : bqStep s.sys a = some result) (i : ℕ) :
  ∃ s' e, s.call config i a = some (s', e)
  := by
  rw [call, h]
  exact ⟨_, _, rfl⟩

/-- A producer that does not sleep can go on. -/
theorem PipelineShape.exists_push
    (h : PipelineShape config s) {p i : ℕ} (loop : s.loops[p]? = some (some i))
    {t : BqThread workItemSize} (ht : s.sys.threads[p]? = some t) (hawake : t.awake = true)
    (hcreated : s.main.created p = true) (halive : s.main.alive = true) :
  ∃ a s' e, pipelineStep config s a = some (s', e)
  := by
  obtain ⟨chosen, result, henter⟩ :=
    s.sys.exists_enterPush p (PipelineConfig.item p i).bytes
  have hok := h.threads p t ht
  cases t with
  | idle =>
      have hbq : bqStep s.sys (.push p (PipelineConfig.item p i).bytes chosen) = some result := by
        rw [bqStep, if_pos ht, henter]
      obtain ⟨s', e, hcall⟩ := Pipeline.exists_call config hbq p
      refine ⟨.push p chosen, s', e, ?_⟩
      simp only [pipelineStep, loop, if_pos hcreated]
      exact hcall
  | wokenPush elem =>
      obtain ⟨k, hloop, rfl⟩ := hok
      rw [loop] at hloop
      cases hloop
      have hbq : bqStep s.sys (.resume p chosen) = some result := by
        simp only [bqStep, ht, henter]
      obtain ⟨s', e, hcall⟩ := Pipeline.exists_call config hbq p
      exact ⟨.resume p chosen, s', e, by rw [pipelineStep, if_pos halive, hcall]⟩
  | wokenPop =>
      obtain ⟨rfl, -⟩ := hok
      obtain ⟨hlt, -⟩ := List.getElem?_eq_some_iff.mp loop
      rw [h.length_loops] at hlt
      exact absurd hlt (Nat.lt_irrefl _)
  | asleepPush | asleepPop => cases hawake

/-- A step that resumes a woken thread is a step of the pipeline. -/
theorem Pipeline.exists_resume
    (halive : s.main.alive = true) {i : ℕ} {chosen : List Bool} {sys : BqSystem workItemSize}
    (h : bqStep s.sys (.resume i chosen) = some (sys, e)) :
  ∃ a s' e, pipelineStep config s a = some (s', e)
  := by
  obtain ⟨s', e, hcall⟩ := Pipeline.exists_call config h i
  exact ⟨.resume i chosen, s', e, by rw [pipelineStep, if_pos halive, hcall]⟩

/-- The queue holds what was pushed and not popped. -/
theorem length_sentItems
    {malloc : Malloc} (hmalloc : malloc.RefusesHuge)
    (hq : bqInit malloc workItemSize config.queueCap = .ok q) {n : ℕ} {sys : BqSystem workItemSize}
    (hs : (bqMachine workItemSize q n).Reaches log sys) :
  (sentItems log).length = (receivedItems log).length + sys.q.len ∧ 0 < sys.q.cap
  := by
  obtain ⟨t, ht, hrel⟩ := (bqSimulation hmalloc hq n).reaches hs
  have haccepted := congrArg List.length (Fifo.accepted_eq ht)
  change (Fifo.accepted (log.filterMap BqEvent.observe)).length
    = (Fifo.delivered (log.filterMap BqEvent.observe) ++ t.items).length at haccepted
  rw [accepted_bqObserve, delivered_bqObserve, List.length_append, hrel.repr.length_items]
    at haccepted
  rw [sentItems, receivedItems, List.length_map, List.length_map]
  exact ⟨haccepted, Nat.zero_lt_of_lt hrel.repr.head_lt⟩

/-- A producer whose loop has not ended, while there are items that were not pushed. -/
theorem PipelineHistory.exists_loop
    (h : PipelineHistory config q log s) (hshape : PipelineShape config s)
    (hlength : (sentItems log).length < config.producers * config.itemsPerProducer) :
  ∃ p i : ℕ, s.loops[p]? = some (some i)
  := by
  by_contra hnone
  have hshare : ∀ p < config.producers,
      (Shares.share WorkItem.producer p (sentItems log)).length = config.itemsPerProducer := by
    intro p hp
    rw [← hshape.length_loops] at hp
    have hloop := List.getElem?_eq_getElem hp
    rw [h.sent p _ hloop, List.length_map, List.length_range']
    cases hi : s.loops[p] with
    | none => rfl
    | some i => exact absurd ⟨p, i, by rw [hloop, hi]⟩ hnone
  rw [Shares.length_eq_mul h.producers hshare] at hlength
  exact Nat.lt_irrefl _ hlength

/-- When all items were pushed the loops of the producers have ended. -/
theorem PipelineHistory.loop_ended
    (h : PipelineHistory config q log s) (hshape : PipelineShape config s)
    (hlength : config.producers * config.itemsPerProducer ≤ (sentItems log).length) {p : ℕ}
    (hp : p < config.producers) :
  s.loops[p]? = some none
  := by
  have hlt : ∀ p < config.producers, p < s.loops.length := fun p hp => by
    rwa [hshape.length_loops]
  have hle : ∀ p < config.producers,
      (Shares.share WorkItem.producer p (sentItems log)).length ≤ config.itemsPerProducer := by
    intro p hp
    have hp' := hlt p hp
    have hloop := List.getElem?_eq_getElem hp'
    rw [h.sent p _ hloop, List.length_map, List.length_range']
    cases hi : s.loops[p] with
    | none => exact Nat.le_refl _
    | some i =>
        have := hshape.loops p i (by rw [hloop, hi])
        rw [PipelineConfig.sent]
        omega
  have heq := Shares.length_share_eq h.producers hle hlength hp
  have hp' := hlt p hp
  have hloop := List.getElem?_eq_getElem hp'
  rw [h.sent p _ hloop, List.length_map, List.length_range'] at heq
  cases hi : s.loops[p] with
  | none => rw [hloop, hi]
  | some i =>
      have := hshape.loops p i (by rw [hloop, hi])
      rw [hi, PipelineConfig.sent] at heq
      omega

/-- The thread with a given number, once the threads were created. -/
theorem PipelineShape.exists_thread
    (h : PipelineShape config s) {i : ℕ} (hi : i ≤ config.producers) :
  ∃ t, s.sys.threads[i]? = some t
  := by
  have hlt : i < s.sys.threads.length := by
    rw [h.length_threads]
    omega
  exact ⟨_, List.getElem?_eq_getElem hlt⟩

/-- While the main thread consumes some thread can go on: when the main thread sleeps on an empty
queue, a producer does not sleep. -/
theorem PipelineHistory.exists_step_consuming
    {malloc : Malloc} (hmalloc : malloc.RefusesHuge)
    (hq : bqInit malloc workItemSize config.queueCap = .ok q)
    (h : PipelineHistory config q log s) (hshape : PipelineShape config s) {n : ℕ}
    (main : s.main = .consuming n) :
  ∃ a s' e, pipelineStep config s a = some (s', e)
  := by
  have halive : s.main.alive = true := by rw [main]; rfl
  have hcreated : ∀ p, s.main.created p = true := fun p => by rw [main]; rfl
  obtain ⟨hconsumers, hproducers⟩ : _ ∧ _ :=
    ⟨(bq_loses_no_wakeup malloc _ _ q hq _ log s.sys h.reaches).2.2.2.1,
      (bq_loses_no_wakeup malloc _ _ q hq _ log s.sys h.reaches).2.2.2.2⟩
  obtain ⟨t, ht⟩ := hshape.exists_thread (Nat.le_refl config.producers)
  have hok := hshape.threads _ t ht
  obtain ⟨chosen, result, henter⟩ := s.sys.exists_enterPop config.producers
  cases t with
  | idle =>
      have hbq : bqStep s.sys (.pop config.producers chosen) = some result := by
        rw [bqStep, if_pos ht, henter]
      obtain ⟨s', e, hcall⟩ := Pipeline.exists_call config hbq config.producers
      refine ⟨.pop chosen, s', e, ?_⟩
      simp only [pipelineStep, main]
      exact hcall
  | wokenPop =>
      have hbq : bqStep s.sys (.resume config.producers chosen) = some result := by
        simp only [bqStep, ht, henter]
      exact Pipeline.exists_resume halive hbq
  | asleepPop =>
      by_cases hlen : s.sys.q.len = 0
      · -- the items that are missing were not pushed yet
        obtain ⟨hlength, hcap⟩ := length_sentItems hmalloc hq h.reaches
        have hpopped := h.popped
        have hn := hshape.main
        rw [main] at hpopped hn
        obtain ⟨p, i, loop⟩ := h.exists_loop hshape (by
          rw [hlength, show (receivedItems log).length = n from hpopped, hlen, Nat.add_zero]
          exact hn)
        have hp : p ≤ config.producers := by
          obtain ⟨hlt, -⟩ := List.getElem?_eq_some_iff.mp loop
          rw [hshape.length_loops] at hlt
          exact Nat.le_of_lt hlt
        obtain ⟨u, hu⟩ := hshape.exists_thread hp
        cases hawake : u.awake with
        | true => exact hshape.exists_push loop hu hawake (hcreated p) halive
        | false =>
            cases u with
            | asleepPush elem =>
                obtain ⟨j, elem', chosen, s', e, -, hbq⟩ :=
                  hproducers elem (List.mem_of_getElem? hu) (by omega)
                exact Pipeline.exists_resume halive hbq
            | asleepPop =>
                obtain ⟨rfl, -⟩ := hshape.threads p _ hu
                obtain ⟨hlt, -⟩ := List.getElem?_eq_some_iff.mp loop
                rw [hshape.length_loops] at hlt
                exact absurd hlt (Nat.lt_irrefl _)
            | idle | wokenPush | wokenPop => cases hawake
      · obtain ⟨j, chosen, s', e, -, hbq⟩ :=
          hconsumers (List.mem_of_getElem? ht) (Nat.pos_of_ne_zero hlen)
        exact Pipeline.exists_resume halive hbq
  | asleepPush | wokenPush =>
      obtain ⟨k, hloop, -⟩ := hok
      obtain ⟨hlt, -⟩ := List.getElem?_eq_some_iff.mp hloop
      rw [hshape.length_loops] at hlt
      exact absurd hlt (Nat.lt_irrefl _)

/-- Before the end some thread can go on. -/
theorem PipelineHistory.exists_step
    {malloc : Malloc} (hmalloc : malloc.RefusesHuge)
    (hq : bqInit malloc workItemSize config.queueCap = .ok q)
    (h : PipelineHistory config q log s) (hshape : PipelineShape config s)
    (halive : s.main.alive = true) :
  ∃ a s' e, pipelineStep config s a = some (s', e)
  := by
  have hpopped := h.popped
  have hmain := hshape.main
  cases main : s.main with
  | creating p => exact ⟨.create true, _, _, by simp only [pipelineStep, main]; rfl⟩
  | consuming n => exact h.exists_step_consuming hmalloc hq hshape main
  | joining p =>
      rw [main] at hpopped hmain
      have hall : config.producers * config.itemsPerProducer ≤ (sentItems log).length := by
        rw [← show (receivedItems log).length = _ from hpopped]
        exact (receivedItems_front hmalloc hq h.reaches).length_le
      have hended := h.loop_ended hshape hall hmain
      exact ⟨.join, _, _, by simp only [pipelineStep, main, if_pos hended]; rfl⟩
  | closing =>
      obtain ⟨t, ht⟩ := hshape.exists_thread (Nat.le_refl config.producers)
      have hok := hshape.threads _ t ht
      have hidle : t = .idle := by
        cases t with
        | idle => rfl
        | asleepPop | wokenPop =>
            obtain ⟨-, n, hn⟩ := hok
            rw [main] at hn
            cases hn
        | asleepPush | wokenPush =>
            obtain ⟨k, hloop, -⟩ := hok
            obtain ⟨hlt, -⟩ := List.getElem?_eq_some_iff.mp hloop
            rw [hshape.length_loops] at hlt
            exact absurd hlt (Nat.lt_irrefl _)
      rw [hidle] at ht
      obtain ⟨s', e, hcall⟩ := Pipeline.exists_call config
        (s := { s with main := .finished }) (a := .close config.producers)
        (by rw [bqStep, if_pos ht]) config.producers
      refine ⟨.close, s', e, ?_⟩
      simp only [pipelineStep, main]
      exact hcall
  | finished | failed =>
      rw [main] at halive
      cases halive

/-! ### The end -/

/-- The main thread has returned: a thread could not be created, or all items of all producers were
popped and added up. -/
def Pipeline.Done (config : PipelineConfig) (s : Pipeline) : Prop :=
  s.main = .failed
    ∨ s.main = .finished
      ∧ s.perProducer = List.replicate config.producers config.itemsPerProducer
      ∧ 2 * s.total
        = config.producers * (config.itemsPerProducer * (config.itemsPerProducer + 1))

/-- A process that has finished is done. -/
theorem PipelineHistory.done
    {malloc : Malloc} (hmalloc : malloc.RefusesHuge)
    (hq : bqInit malloc workItemSize config.queueCap = .ok q)
    (h : PipelineHistory config q log s) (hshape : PipelineShape config s)
    (main : s.main = .finished) :
  s.Done config
  := by
  have hpopped := h.popped
  rw [main] at hpopped
  have hproducers : ∀ item ∈ receivedItems log, item.producer < config.producers := fun item hmem =>
    h.producers item ((receivedItems_front hmalloc hq h.reaches).subset hmem)
  have hle : ∀ p < config.producers,
      (Shares.share WorkItem.producer p (receivedItems log)).length ≤ config.itemsPerProducer := by
    intro p hp
    obtain ⟨n, hn, -, hshare⟩ := h.share_received hmalloc hq hshape hp
    rw [hshare, List.length_map, List.length_range']
    exact hn
  have hcounts : s.perProducer = List.replicate config.producers config.itemsPerProducer := by
    rw [h.perProducer, List.eq_replicate_iff, List.length_map, List.length_range]
    use rfl
    intro n hn
    obtain ⟨p, hp, rfl⟩ := List.mem_map.mp hn
    apply Shares.length_share_eq hproducers hle _ (List.mem_range.mp hp)
    exact Nat.le_of_eq (Eq.symm hpopped)
  refine .inr ⟨main, hcounts, ?_⟩
  rw [h.total_eq hmalloc hq hshape, hcounts, List.map_replicate, List.sum_replicate, nsmul_eq_mul]

/-- From every state that the pipeline can reach, for any number of producers, items and slots,
however the threads are scheduled and whenever finitely many spurious wakeups come: the process is
bound to end, and unless a thread could not be created it ends with every item of every producer
popped once and with the right total. -/
theorem pipeline_ends
    {malloc : Malloc} (hmalloc : malloc.RefusesHuge)
    (hq : bqInit malloc workItemSize config.queueCap = .ok q) (hfits : config.Fits)
    (hs : (pipelineMachine config q).Reaches log s) :
  (pipelineMachine config q).Inevitable (Pipeline.Done config) s
  := by
  apply StateMachine.inevitable_of_invariant (s := s)
    (I := fun s => ∃ log, PipelineShape config s ∧ PipelineHistory config q log s)
    (Pipeline.rank config)
  · rintro s e s' ⟨log, hshape, h⟩ ⟨a, hstep⟩
    have hcases := hshape.cases hstep
    exact ⟨_, hshape.step hcases, h.step hfits hshape hcases (h.reaches_step hstep)⟩
  · rintro s e s' ⟨log, hshape, -⟩ ⟨a, hstep⟩
    exact hshape.rank_lt (hshape.cases hstep)
  · rintro s ⟨log, hshape, h⟩ hdone
    have halive : s.main.alive = true := by
      cases main : s.main with
      | failed => exact absurd (.inl main) hdone
      | finished => exact absurd (h.done hmalloc hq hshape main) hdone
      | creating | consuming | joining | closing => rfl
    obtain ⟨a, s', e, hstep⟩ := h.exists_step hmalloc hq hshape halive
    exact ⟨e, s', a, hstep⟩
  · exact ⟨log, pipeline_of_reaches hq hfits hs⟩

/-- The program with its three producers, before its first step and with ten spurious wakeups to
come. -/
theorem pipeline_ends_demo :
  (pipelineMachine pipelineDemo ⟨List.replicate 256 0, 8, 32, 0, 0, false⟩).Inevitable
    (Pipeline.Done pipelineDemo)
    { sys := ⟨⟨List.replicate 256 0, 8, 32, 0, 0, false⟩, [.idle, .idle, .idle, .idle]⟩
      loops := [some 1, some 1, some 1]
      main := .creating 0
      total := 0
      perProducer := [0, 0, 0]
      spurious := 10 }
  := by
  apply pipeline_ends (Malloc.refusesHuge_upTo (show 256 ≤ ptrdiffMax by decide)) rfl
  · exact ⟨by decide, by decide, by decide⟩
  · exact .init ⟨rfl, rfl, rfl, rfl, rfl⟩

end CTemplate

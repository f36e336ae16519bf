import CTemplate.Hpc.Pipeline.System

/-!
# The steps of the pipeline

While the queue is open no call on it fails, and a thread that waits in `bq_push` has the item of
its loop.  So the steps of the pipeline are those of `PipelineStep`, one constructor for each way
through the code.
-/

namespace CTemplate

variable {config : PipelineConfig} {s s' : Pipeline} {e : Option BqEvent}

/-- What thread `i` can be doing. -/
def Pipeline.ThreadOk (config : PipelineConfig) (s : Pipeline) (i : ℕ) :
    BqThread workItemSize → Prop
  | .idle => True
  | .asleepPush elem | .wokenPush elem =>
      ∃ k, s.loops[i]? = some (some k) ∧ elem = (PipelineConfig.item i k).bytes
  | .asleepPop | .wokenPop => i = config.producers ∧ ∃ n, s.main = .consuming n

/-- The variables of the loops of the main thread are in range. -/
def MainPhase.Ok (config : PipelineConfig) : MainPhase → Prop
  | .creating p => p < config.producers
  | .consuming n => n < config.producers * config.itemsPerProducer
  | .joining p => p < config.producers
  | _ => True

/-- The threads are where their loops say, and the queue is open until the end. -/
structure PipelineShape (config : PipelineConfig) (s : Pipeline) : Prop where
  length_threads : s.sys.threads.length = config.producers + 1
  length_loops : s.loops.length = config.producers
  threads : ∀ i t, s.sys.threads[i]? = some t → s.ThreadOk config i t
  loops : ∀ p i : ℕ, s.loops[p]? = some (some i) → 1 ≤ i ∧ i ≤ config.itemsPerProducer
  main : s.main.Ok config
  isOpen : s.main ≠ .finished → s.sys.q.closed = false

/-- The steps of the threads. -/
inductive PipelineStep (config : PipelineConfig) (s : Pipeline) :
    Option BqEvent → Pipeline → Prop where
  | created {p : ℕ} (main : s.main = .creating p) :
      PipelineStep config s none { s with main := config.create (p + 1) }
  | notCreated {p : ℕ} (main : s.main = .creating p) :
      PipelineStep config s none { s with main := .failed }
  | pushWait {p i : ℕ} {t : BqThread workItemSize} (loop : s.loops[p]? = some (some i))
      (ht : s.sys.threads[p]? = some t) (enters : t.EntersPush (PipelineConfig.item p i).bytes) :
      PipelineStep config s none { s with sys := { s.sys with
        threads := s.sys.threads.set p (.asleepPush (PipelineConfig.item p i).bytes) } }
  | pushOk {p i : ℕ} {t : BqThread workItemSize} {chosen : List Bool}
      {threads : List (BqThread workItemSize)} (loop : s.loops[p]? = some (some i))
      (ht : s.sys.threads[p]? = some t) (enters : t.EntersPush (PipelineConfig.item p i).bytes)
      (signal : notEmpty.signal chosen (s.sys.threads.set p .idle) = some threads) :
      PipelineStep config s (some (.push (PipelineConfig.item p i).bytes.val .ok)) { s with
        sys := ⟨s.sys.q.pushed (PipelineConfig.item p i).bytes.val, threads⟩
        loops := s.loops.set p (config.producing (i + 1)) }
  | popWait {n : ℕ} {t : BqThread workItemSize} (main : s.main = .consuming n)
      (ht : s.sys.threads[config.producers]? = some t) (enters : t.EntersPop) :
      PipelineStep config s none { s with sys := { s.sys with
        threads := s.sys.threads.set config.producers .asleepPop } }
  | popOk {n : ℕ} {t : BqThread workItemSize} {chosen : List Bool} {out : List Byte}
      {threads : List (BqThread workItemSize)} (main : s.main = .consuming n)
      (ht : s.sys.threads[config.producers]? = some t) (enters : t.EntersPop)
      (signal : notFull.signal chosen (s.sys.threads.set config.producers .idle) = some threads) :
      PipelineStep config s (some (.pop (.ok out))) { s with
        sys := ⟨s.sys.q.popped, threads⟩
        main := config.consume (n + 1)
        total := s.total + (WorkItem.ofBytes out).value
        perProducer := s.perProducer.modify (WorkItem.ofBytes out).producerId.toNat (· + 1) }
  | wakePush {i : ℕ} {elem : Elem workItemSize}
      (ht : s.sys.threads[i]? = some (.asleepPush elem)) (left : 0 < s.spurious) :
      PipelineStep config s none { s with
        sys := { s.sys with threads := s.sys.threads.set i (.wokenPush elem) }
        spurious := s.spurious - 1 }
  | wakePop {i : ℕ} (ht : s.sys.threads[i]? = some .asleepPop) (left : 0 < s.spurious) :
      PipelineStep config s none { s with
        sys := { s.sys with threads := s.sys.threads.set i .wokenPop }
        spurious := s.spurious - 1 }
  | joined {p : ℕ} (main : s.main = .joining p) (done : s.loops[p]? = some none) :
      PipelineStep config s none { s with main := config.join (p + 1) }
  | closed (main : s.main = .closing) :
      PipelineStep config s (some .close) { s with
        sys := ⟨bqClose s.sys.q, notFull.broadcast (notEmpty.broadcast s.sys.threads)⟩
        main := .finished }

/-! ### Calls on the open queue -/

/-- `bq_push` on an open queue waits or succeeds. -/
theorem BqSystem.enterPush_open
    {w : ℕ} {s s' : BqSystem w} {i : ℕ} {elem : Elem w} {chosen : List Bool}
    (isOpen : s.q.closed = false) (h : s.enterPush i elem chosen = some (s', e)) :
  e = none ∧ s' = { s with threads := s.threads.set i (.asleepPush elem) }
    ∨ ∃ threads, notEmpty.signal chosen (s.threads.set i .idle) = some threads
      ∧ e = some (.push elem.val .ok) ∧ s' = ⟨s.q.pushed elem.val, threads⟩
  := by
  unfold enterPush bqPush at h
  rw [isOpen] at h
  by_cases hfull : s.q.len = s.q.cap
  · rw [if_pos ⟨hfull, rfl⟩] at h
    cases h
    exact .inl ⟨rfl, rfl⟩
  · rw [if_neg (fun hand => hfull hand.1), if_neg Bool.false_ne_true] at h
    dsimp only at h
    split at h
    · cases h
    · rename_i threads hsignal
      cases h
      exact .inr ⟨threads, hsignal, rfl, rfl⟩

/-- `bq_pop` on an open queue waits or succeeds. -/
theorem BqSystem.enterPop_open
    {w : ℕ} {s s' : BqSystem w} {i : ℕ} {chosen : List Bool} (isOpen : s.q.closed = false)
    (h : s.enterPop i chosen = some (s', e)) :
  e = none ∧ s' = { s with threads := s.threads.set i .asleepPop }
    ∨ ∃ threads out, notFull.signal chosen (s.threads.set i .idle) = some threads
      ∧ e = some (.pop (.ok out)) ∧ s' = ⟨s.q.popped, threads⟩
  := by
  unfold enterPop bqPop at h
  rw [isOpen] at h
  by_cases hempty : s.q.len = 0
  · rw [if_pos ⟨hempty, rfl⟩] at h
    cases h
    exact .inl ⟨rfl, rfl⟩
  · rw [if_neg (fun hand => hempty hand.1), if_neg hempty] at h
    dsimp only at h
    split at h
    · cases h
    · rename_i threads hsignal
      cases h
      exact .inr ⟨threads, _, hsignal, rfl, rfl⟩

theorem Pipeline.call_eq_some
    {i : ℕ} {a : BqAct workItemSize} (h : s.call config i a = some (s', e)) :
  ∃ sys, bqStep s.sys a = some (sys, e) ∧ s' = Pipeline.returned config { s with sys } i e
  := by
  obtain ⟨⟨sys, e'⟩, hstep, heq⟩ := Option.map_eq_some_iff.mp h
  cases heq
  exact ⟨sys, hstep, rfl⟩

/-- Producer `p` runs in `bq_push`. -/
theorem PipelineStep.of_push
    (isOpen : s.sys.q.closed = false) {p i : ℕ} {t : BqThread workItemSize}
    (loop : s.loops[p]? = some (some i)) (ht : s.sys.threads[p]? = some t)
    (enters : t.EntersPush (PipelineConfig.item p i).bytes) {chosen : List Bool}
    {sys : BqSystem workItemSize}
    (h : s.sys.enterPush p (PipelineConfig.item p i).bytes chosen = some (sys, e)) :
  PipelineStep config s e (Pipeline.returned config { s with sys } p e)
  := by
  rcases BqSystem.enterPush_open isOpen h with ⟨rfl, rfl⟩ | ⟨threads, hsignal, rfl, rfl⟩
  · exact .pushWait loop ht enters
  · have hloops : (s.loops.modify p fun loop =>
        loop.bind fun i => if ErrorCode.ok = .ok then config.producing (i + 1) else none)
        = s.loops.set p (config.producing (i + 1)) := by
      rw [List.modify_eq_set, loop]
      rfl
    rw [Pipeline.returned, hloops]
    exact .pushOk loop ht enters hsignal

/-- The main thread runs in `bq_pop`. -/
theorem PipelineStep.of_pop
    (isOpen : s.sys.q.closed = false) {n : ℕ} {t : BqThread workItemSize}
    (main : s.main = .consuming n) (ht : s.sys.threads[config.producers]? = some t)
    (enters : t.EntersPop) {chosen : List Bool} {sys : BqSystem workItemSize}
    (h : s.sys.enterPop config.producers chosen = some (sys, e)) :
  PipelineStep config s e (Pipeline.returned config { s with sys } config.producers e)
  := by
  rcases BqSystem.enterPop_open isOpen h with ⟨rfl, rfl⟩ | ⟨threads, out, hsignal, rfl, rfl⟩
  · exact .popWait main ht enters
  · rw [Pipeline.returned]
    dsimp only
    rw [main]
    exact .popOk main ht enters hsignal

/-- Every step of the pipeline is one of the steps of `PipelineStep`. -/
theorem PipelineShape.cases
    (h : PipelineShape config s) {a : PipelineAct}
    (hstep : pipelineStep config s a = some (s', e)) :
  PipelineStep config s e s'
  := by
  cases a with
  | create ok =>
      simp only [pipelineStep] at hstep
      split at hstep
      case h_1 p hmain =>
        cases ok <;> cases hstep
        · exact .notCreated hmain
        · exact .created hmain
      case h_2 => cases hstep
  | push p chosen =>
      obtain ⟨hcreated, hcall⟩ := Option.ite_none_right_eq_some.mp hstep
      split at hcall
      case h_2 => cases hcall
      case h_1 i hloop =>
      obtain ⟨sys, hbq, rfl⟩ := Pipeline.call_eq_some hcall
      obtain ⟨hidle, henter⟩ := Option.ite_none_right_eq_some.mp hbq
      apply PipelineStep.of_push _ hloop hidle (.inl rfl) henter
      apply h.isOpen
      rintro hmain
      rw [hmain] at hcreated
      cases hcreated
  | pop chosen =>
      simp only [pipelineStep] at hstep
      split at hstep
      case h_2 => cases hstep
      case h_1 n hmain =>
      obtain ⟨sys, hbq, rfl⟩ := Pipeline.call_eq_some hstep
      obtain ⟨hidle, henter⟩ := Option.ite_none_right_eq_some.mp hbq
      apply PipelineStep.of_pop _ hmain hidle (.inl rfl) henter
      apply h.isOpen
      rw [hmain]
      rintro ⟨⟩
  | resume i chosen =>
      obtain ⟨halive, hcall⟩ := Option.ite_none_right_eq_some.mp hstep
      have hopen : s.sys.q.closed = false := by
        apply h.isOpen
        intro hmain
        rw [hmain] at halive
        cases halive
      obtain ⟨sys, hbq, rfl⟩ := Pipeline.call_eq_some hcall
      simp only [bqStep] at hbq
      split at hbq
      case h_1 elem ht =>
        obtain ⟨k, hloop, rfl⟩ := h.threads i _ ht
        exact .of_push hopen hloop ht (.inr rfl) hbq
      case h_2 ht =>
        obtain ⟨rfl, n, hmain⟩ := h.threads i _ ht
        exact .of_pop hopen hmain ht (.inr rfl) hbq
      case h_3 => cases hbq
  | spurious i =>
      obtain ⟨⟨-, hleft⟩, hcall⟩ := Option.ite_none_right_eq_some.mp hstep
      obtain ⟨sys, hbq, rfl⟩ := Pipeline.call_eq_some hcall
      simp only [bqStep] at hbq
      split at hbq
      case h_1 elem ht =>
        cases hbq
        exact .wakePush ht hleft
      case h_2 ht =>
        cases hbq
        exact .wakePop ht hleft
      case h_3 => cases hbq
  | join =>
      simp only [pipelineStep] at hstep
      split at hstep
      case h_2 => cases hstep
      case h_1 p hmain =>
      obtain ⟨hdone, heq⟩ := Option.ite_none_right_eq_some.mp hstep
      cases heq
      exact .joined hmain hdone
  | close =>
      simp only [pipelineStep] at hstep
      split at hstep
      case h_2 => cases hstep
      case h_1 hmain =>
      obtain ⟨sys, hbq, rfl⟩ := Pipeline.call_eq_some hstep
      obtain ⟨-, heq⟩ := Option.ite_none_right_eq_some.mp hbq
      cases heq
      exact .closed hmain

/-! ### The shape is kept -/

theorem MainPhase.ok_join (p : ℕ) :
  (config.join p).Ok config
  := by
  rw [PipelineConfig.join]
  split
  · assumption
  · trivial

theorem MainPhase.ok_consume (n : ℕ) :
  (config.consume n).Ok config
  := by
  rw [PipelineConfig.consume]
  split
  · assumption
  · apply ok_join

theorem MainPhase.ok_create (p : ℕ) :
  (config.create p).Ok config
  := by
  rw [PipelineConfig.create]
  split
  · assumption
  · apply ok_consume

/-- Waking thread `i` keeps what it can be doing. -/
theorem Pipeline.ThreadOk.wake
    {i : ℕ} {t t' : BqThread workItemSize} (h : s.ThreadOk config i t)
    (ht' : t' = t ∨ notEmpty.asleep t = true ∧ t' = notEmpty.wake t
      ∨ notFull.asleep t = true ∧ t' = notFull.wake t) :
  s.ThreadOk config i t'
  := by
  rcases ht' with rfl | ⟨-, rfl⟩ | ⟨-, rfl⟩
  · exact h
  · cases t <;> exact h
  · cases t <;> exact h

/-- The other threads go on, and thread `i` is in the state `t`. -/
theorem PipelineShape.threads_set
    (h : PipelineShape config s) {i : ℕ} {t : BqThread workItemSize} {loops : List (Option ℕ)}
    {main : MainPhase} (hi : ∃ t, s.sys.threads[i]? = some t)
    (hloops : ∀ j, j ≠ i → loops[j]? = s.loops[j]?)
    (hmain : i = config.producers ∨ main = s.main)
    (ht : Pipeline.ThreadOk config { s with loops, main } i t) :
  ∀ j t', (s.sys.threads.set i t)[j]? = some t' →
    Pipeline.ThreadOk config { s with loops, main } j t'
  := by
  obtain ⟨u, hu⟩ := hi
  obtain ⟨hlt, -⟩ := List.getElem?_eq_some_iff.mp hu
  intro j t' hj
  by_cases heq : j = i
  · subst heq
    rw [List.getElem?_set_self hlt] at hj
    cases hj
    exact ht
  · rw [List.getElem?_set_ne (Ne.symm heq)] at hj
    have hok := h.threads j t' hj
    cases t' with
    | idle => trivial
    | asleepPush | wokenPush =>
        obtain ⟨k, hloop, helem⟩ := hok
        exact ⟨k, (hloops j heq).trans hloop, helem⟩
    | asleepPop | wokenPop =>
        obtain ⟨hj, n, hn⟩ := hok
        rcases hmain with rfl | hmain
        · exact absurd hj heq
        · exact ⟨hj, n, hmain.trans hn⟩

/-- A phase in which no thread waits in `bq_pop` gives way to any other. -/
theorem PipelineShape.threads_main
    (h : PipelineShape config s) (hmain : ∀ n, s.main ≠ .consuming n) (main : MainPhase) :
  ∀ i t, s.sys.threads[i]? = some t → Pipeline.ThreadOk config { s with main } i t
  := by
  intro i t ht
  have hok := h.threads i t ht
  cases t with
  | idle => trivial
  | asleepPush | wokenPush => exact hok
  | asleepPop | wokenPop =>
      obtain ⟨-, n, hn⟩ := hok
      exact absurd hn (hmain n)

/-- Every step keeps the shape. -/
theorem PipelineShape.step
    (h : PipelineShape config s) (hstep : PipelineStep config s e s') :
  PipelineShape config s'
  := by
  cases hstep with
  | @created p main =>
      exact
        { h with
          threads := h.threads_main (by simp [main]) _
          main := MainPhase.ok_create _
          isOpen := fun _ => h.isOpen (by simp [main]) }
  | notCreated main =>
      exact
        { h with
          threads := h.threads_main (by simp [main]) _
          main := trivial
          isOpen := fun _ => h.isOpen (by simp [main]) }
  | @pushWait p i t loop ht enters =>
      exact
        { h with
          length_threads := (List.length_set ..).trans h.length_threads
          threads := h.threads_set ⟨t, ht⟩ (fun _ _ => rfl) (.inr rfl) ⟨i, loop, rfl⟩ }
  | @pushOk p i t chosen threads loop ht enters signal =>
      obtain ⟨hrouse, -⟩ := CondVar.signal_eq_some signal
      exact
        { h with
          length_threads := by
            rw [hrouse, CondVar.length_rouse, List.length_set, h.length_threads]
          length_loops := (List.length_set ..).trans h.length_loops
          threads := by
            intro j t' hj
            obtain ⟨u, hu, hwake⟩ := CondVar.exists_of_getElem?_signal signal hj
            have hloops : ∀ j, j ≠ p →
                (s.loops.set p (config.producing (i + 1)))[j]? = s.loops[j]? :=
              fun j hne => List.getElem?_set_ne (Ne.symm hne)
            have hu' := h.threads_set ⟨t, ht⟩ hloops (.inr rfl) (t := .idle) trivial j u hu
            exact Pipeline.ThreadOk.wake hu' (hwake.imp_right .inl)
          loops := by
            intro j k hk
            by_cases hj : j = p
            · subst hj
              obtain ⟨hlt, -⟩ := List.getElem?_eq_some_iff.mp loop
              rw [List.getElem?_set_self hlt, Option.some.injEq, PipelineConfig.producing,
                Option.ite_none_right_eq_some] at hk
              obtain ⟨hle, hk⟩ := hk
              cases hk
              exact ⟨Nat.succ_pos i, hle⟩
            · rw [List.getElem?_set_ne (Ne.symm hj)] at hk
              exact h.loops j k hk }
  | @popWait n t main ht enters =>
      exact
        { h with
          length_threads := (List.length_set ..).trans h.length_threads
          threads := h.threads_set ⟨t, ht⟩ (fun _ _ => rfl) (.inr rfl) ⟨rfl, n, main⟩ }
  | @popOk n t chosen out threads main ht enters signal =>
      obtain ⟨hrouse, -⟩ := CondVar.signal_eq_some signal
      exact
        { h with
          length_threads := by
            rw [hrouse, CondVar.length_rouse, List.length_set, h.length_threads]
          threads := by
            intro j t' hj
            obtain ⟨u, hu, hwake⟩ := CondVar.exists_of_getElem?_signal signal hj
            have hu' : Pipeline.ThreadOk config { s with main := config.consume (n + 1) } j u :=
              h.threads_set ⟨t, ht⟩ (fun _ _ => rfl) (.inl rfl) (t := .idle) trivial j u hu
            exact Pipeline.ThreadOk.wake hu' (hwake.imp_right .inr)
          main := MainPhase.ok_consume _
          isOpen := fun _ => h.isOpen (by simp [main]) }
  | @wakePush i elem ht left =>
      exact
        { h with
          length_threads := (List.length_set ..).trans h.length_threads
          threads := h.threads_set ⟨_, ht⟩ (fun _ _ => rfl) (.inr rfl)
            (h.threads i (.asleepPush elem) ht) }
  | @wakePop i ht left =>
      exact
        { h with
          length_threads := (List.length_set ..).trans h.length_threads
          threads := h.threads_set ⟨_, ht⟩ (fun _ _ => rfl) (.inr rfl)
            (h.threads i .asleepPop ht) }
  | joined main done =>
      exact
        { h with
          threads := h.threads_main (by simp [main]) _
          main := MainPhase.ok_join _
          isOpen := fun _ => h.isOpen (by simp [main]) }
  | closed main =>
      exact
        { h with
          length_threads := by
            rw [CondVar.length_broadcast, CondVar.length_broadcast, h.length_threads]
          threads := by
            intro j t' hj
            rw [CondVar.broadcast, CondVar.broadcast, List.map_map, List.getElem?_map,
              Option.map_eq_some_iff] at hj
            obtain ⟨u, hu, rfl⟩ := hj
            have hu' := h.threads_main (by simp [main]) .finished j u hu
            cases u <;> exact hu'
          main := trivial
          isOpen := fun hne => absurd rfl hne }

theorem PipelineShape.start
    {q : BlockingQueue} (hq : q.closed = false) (h : PipelineStart config q s) :
  PipelineShape config s
  := by
  obtain ⟨hsys, hloops, hmain, -⟩ := h
  constructor
  · rw [hsys, List.length_replicate]
  · rw [hloops, List.length_replicate]
  · intro i t ht
    rw [hsys, List.getElem?_replicate, Option.ite_none_right_eq_some] at ht
    cases ht.2
    trivial
  · intro p i hi
    rw [hloops, List.getElem?_replicate, Option.ite_none_right_eq_some, Option.some.injEq,
      PipelineConfig.producing, Option.ite_none_right_eq_some] at hi
    obtain ⟨-, hle, hi⟩ := hi
    cases hi
    exact ⟨Nat.le_refl 1, hle⟩
  · rw [hmain]
    apply MainPhase.ok_create
  · intro _
    rw [hsys]
    exact hq

end CTemplate

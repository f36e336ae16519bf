import CTemplate.Hpc.BlockingQueue.Delivery
import CTemplate.Hpc.BlockingQueue.Wakeups
import CTemplate.Hpc.Pipeline.Steps
import CTemplate.Library.Shares
import Mathlib.Algebra.BigOperators.Ring.Finset
import Mathlib.Algebra.Order.BigOperators.Group.List
import Mathlib.Algebra.Order.Ring.Int
import Mathlib.Tactic.Positivity
import Mathlib.Tactic.Ring

/-!
# What the pipeline delivers

The items that the main thread pops are an interleaving of the sequences that the producers push:
of each producer it gets the items `1`, `2`, and so on in order, without a gap, and the counters and
the total are those of the items that were popped.
-/

namespace CTemplate

variable {config : PipelineConfig} {q : BlockingQueue} {s s' : Pipeline} {e : Option BqEvent}
  {log : List BqEvent}

/-! ### Work items -/

theorem ofIntBytes_intBytes {z : ℤ} (h : FitsInt z) :
  ofIntBytes (intBytes z) = z
  := by
  have hlt : (z % 4294967296).toNat < 256 ^ 4 := by
    rw [show 256 ^ 4 = 4294967296 from rfl]
    omega
  obtain ⟨hmin, hmax⟩ := h
  simp only [intMax] at hmin hmax
  rw [ofIntBytes, intBytes, Words.value_bytes hlt]
  split <;> omega

/-- An item is read from its bytes. -/
theorem WorkItem.ofBytes_bytes
    {item : WorkItem} (hid : FitsInt item.producerId) (hvalue : FitsInt item.value) :
  WorkItem.ofBytes item.bytes.val = item
  := by
  have hlength : (intBytes item.producerId).length = 4 := Words.length_bytes _ _
  rw [WorkItem.ofBytes, WorkItem.bytes, List.take_left' hlength, List.drop_left' hlength,
    ofIntBytes_intBytes hid, ofIntBytes_intBytes hvalue]

/-- The thread that an item is from. -/
def WorkItem.producer (item : WorkItem) : ℕ := item.producerId.toNat

/-- The items of the calls of `bq_push` that returned `ERR_OK`. -/
def sentItems (log : List BqEvent) : List WorkItem :=
  (bqPushed log).map WorkItem.ofBytes

/-- The items of the calls of `bq_pop` that returned `ERR_OK`. -/
def receivedItems (log : List BqEvent) : List WorkItem :=
  (bqPopped log).map WorkItem.ofBytes

theorem sentItems_push (log : List BqEvent) (elem : List Byte) :
  sentItems (log ++ [.push elem .ok]) = sentItems log ++ [WorkItem.ofBytes elem]
  := by simp [sentItems, bqPushed]

theorem receivedItems_push (log : List BqEvent) (elem : List Byte) (code : ErrorCode) :
  receivedItems (log ++ [.push elem code]) = receivedItems log
  := by simp [receivedItems, bqPopped]

theorem sentItems_pop (log : List BqEvent) (result : Except ErrorCode (List Byte)) :
  sentItems (log ++ [.pop result]) = sentItems log
  := by simp [sentItems, bqPushed]

theorem receivedItems_pop (log : List BqEvent) (out : List Byte) :
  receivedItems (log ++ [.pop (.ok out)]) = receivedItems log ++ [WorkItem.ofBytes out]
  := by simp [receivedItems, bqPopped]

theorem sentItems_close (log : List BqEvent) :
  sentItems (log ++ [.close]) = sentItems log
  := by simp [sentItems, bqPushed]

theorem receivedItems_close (log : List BqEvent) :
  receivedItems (log ++ [.close]) = receivedItems log
  := by simp [receivedItems, bqPopped]

/-! ### The configuration -/

/-- The numbers of the program are of type `int`, also `i` after the loop of a producer. -/
structure PipelineConfig.Fits (config : PipelineConfig) : Prop where
  producers : config.producers ≤ intMax
  items : config.itemsPerProducer + 1 ≤ intMax
  product : config.producers * config.itemsPerProducer ≤ intMax

/-- How many items a producer has pushed. -/
def PipelineConfig.sent (config : PipelineConfig) : Option ℕ → ℕ
  | some i => i - 1
  | none => config.itemsPerProducer

/-- How many items the main thread has popped. -/
def MainPhase.Popped (config : PipelineConfig) (n : ℕ) : MainPhase → Prop
  | .creating _ => n = 0
  | .consuming n' => n = n'
  | .failed => True
  | _ => n = config.producers * config.itemsPerProducer

theorem PipelineConfig.Fits.ofBytes_item
    (h : config.Fits) {p i : ℕ} (hp : p < config.producers) (hle : i ≤ config.itemsPerProducer) :
  WorkItem.ofBytes (PipelineConfig.item p i).bytes.val = PipelineConfig.item p i
  := by
  have hpmax := Nat.lt_of_lt_of_le hp h.producers
  have himax := Nat.lt_of_le_of_lt hle h.items
  apply WorkItem.ofBytes_bytes
  · simp only [PipelineConfig.item, FitsInt]
    omega
  · simp only [PipelineConfig.item, FitsInt]
    omega

/-- The next round of the loop of a producer. -/
theorem PipelineConfig.sent_producing {i : ℕ} (hle : i ≤ config.itemsPerProducer) :
  config.sent (config.producing (i + 1)) = i
  := by
  rw [producing]
  split
  · rfl
  · rw [sent]
    omega

theorem MainPhase.popped_join {p n : ℕ} (h : n = config.producers * config.itemsPerProducer) :
  (config.join p).Popped config n
  := by
  rw [PipelineConfig.join]
  split <;> exact h

theorem MainPhase.popped_consume {n : ℕ} (h : n ≤ config.producers * config.itemsPerProducer) :
  (config.consume n).Popped config n
  := by
  rw [PipelineConfig.consume]
  split
  · rfl
  · apply popped_join
    omega

theorem MainPhase.popped_create (p : ℕ) :
  (config.create p).Popped config 0
  := by
  rw [PipelineConfig.create]
  split
  · rfl
  · apply popped_consume (Nat.zero_le _)

/-! ### The history -/

/-- What was pushed and popped. -/
structure PipelineHistory (config : PipelineConfig) (q : BlockingQueue) (log : List BqEvent)
    (s : Pipeline) : Prop where
  reaches : (bqMachine workItemSize q (config.producers + 1)).Reaches log s.sys
  sent : ∀ p loop, s.loops[p]? = some loop →
    Shares.share WorkItem.producer p (sentItems log)
      = (List.range' 1 (config.sent loop)).map (PipelineConfig.item p)
  producers : ∀ item ∈ sentItems log, item.producer < config.producers
  popped : s.main.Popped config (receivedItems log).length
  total : s.total = ((receivedItems log).map WorkItem.value).sum
  perProducer : s.perProducer = (List.range config.producers).map fun p =>
    (Shares.share WorkItem.producer p (receivedItems log)).length

/-- The items that were popped are the first ones of those that were pushed. -/
theorem receivedItems_front
    {malloc : Malloc} (hmalloc : malloc.RefusesHuge)
    (hq : bqInit malloc workItemSize config.queueCap = .ok q) {n : ℕ} {sys : BqSystem workItemSize}
    (hs : (bqMachine workItemSize q n).Reaches log sys) :
  receivedItems log <+: sentItems log
  := by
  apply List.IsPrefix.map
  exact (bq_delivers_and_drains malloc hmalloc _ _ q hq n log sys hs).1

theorem Pipeline.sys_returned (i : ℕ) (e : Option BqEvent) :
  (s.returned config i e).sys = s.sys
  := by
  rcases e with _ | ⟨_⟩ | ⟨_ | _⟩ | _
  case some.pop.ok =>
    rw [returned]
    split <;> rfl
  all_goals rfl

theorem Pipeline.step_of_call
    {i : ℕ} {a : BqAct workItemSize} (h : s.call config i a = some (s', e)) :
  bqStep s.sys a = some (s'.sys, e)
  := by
  obtain ⟨sys, hstep, rfl⟩ := Pipeline.call_eq_some h
  rw [Pipeline.sys_returned]
  exact hstep

/-- A step of the pipeline is a step on the queue, or leaves the queue alone. -/
theorem pipelineStep_sys {a : PipelineAct} (h : pipelineStep config s a = some (s', e)) :
  s'.sys = s.sys ∧ e = none ∨ ∃ b, bqStep s.sys b = some (s'.sys, e)
  := by
  cases a with
  | create ok | join =>
      simp only [pipelineStep] at h
      split at h
      · first | cases h | (obtain ⟨-, h⟩ := Option.ite_none_right_eq_some.mp h; cases h)
        exact .inl ⟨rfl, rfl⟩
      · cases h
  | push p chosen =>
      obtain ⟨-, hcall⟩ := Option.ite_none_right_eq_some.mp h
      split at hcall
      · exact .inr ⟨_, Pipeline.step_of_call hcall⟩
      · cases hcall
  | pop chosen =>
      simp only [pipelineStep] at h
      split at h
      · exact .inr ⟨_, Pipeline.step_of_call h⟩
      · cases h
  | resume i chosen =>
      obtain ⟨-, hcall⟩ := Option.ite_none_right_eq_some.mp h
      exact .inr ⟨_, Pipeline.step_of_call hcall⟩
  | spurious i =>
      obtain ⟨-, hcall⟩ := Option.ite_none_right_eq_some.mp h
      exact .inr ⟨_, Pipeline.step_of_call (s := { s with spurious := s.spurious - 1 }) hcall⟩
  | close =>
      simp only [pipelineStep] at h
      split at h
      · exact .inr ⟨_, Pipeline.step_of_call (s := { s with main := .finished }) h⟩
      · cases h

/-- The calls of the threads on the queue are steps of the queue. -/
theorem PipelineHistory.reaches_step
    (h : PipelineHistory config q log s) {a : PipelineAct}
    (hstep : pipelineStep config s a = some (s', e)) :
  (bqMachine workItemSize q (config.producers + 1)).Reaches (log ++ e.toList) s'.sys
  := by
  rcases pipelineStep_sys hstep with ⟨hsys, rfl⟩ | ⟨b, hbq⟩
  · rw [hsys, Option.toList_none, List.append_nil]
    exact h.reaches
  · exact h.reaches.snoc ⟨b, hbq⟩

/-- A step that is no call on the queue, or a call that goes on. -/
theorem PipelineHistory.silent
    (h : PipelineHistory config q log s)
    (hreaches : (bqMachine workItemSize q (config.producers + 1)).Reaches log s'.sys)
    (hloops : s'.loops = s.loops) (htotal : s'.total = s.total)
    (hper : s'.perProducer = s.perProducer)
    (hpopped : s'.main.Popped config (receivedItems log).length) :
  PipelineHistory config q log s'
  where
  reaches := hreaches
  sent := hloops ▸ h.sent
  producers := h.producers
  popped := hpopped
  total := htotal.trans h.total
  perProducer := hper.trans h.perProducer

/-- The counters count one more item. -/
theorem modify_perProducer (n : ℕ) (l : List WorkItem) (item : WorkItem) :
  ((List.range n).map fun p => (Shares.share WorkItem.producer p l).length).modify item.producer
      (· + 1)
    = (List.range n).map fun p => (Shares.share WorkItem.producer p (l ++ [item])).length
  := by
  apply List.ext_getElem?
  intro p
  rw [List.getElem?_modify, List.getElem?_map, List.getElem?_map]
  by_cases hp : p < n
  · rw [List.getElem?_range hp]
    by_cases heq : item.producer = p
    · subst heq
      simp [Shares.share_singleton_self]
    · simp [heq, Shares.share_singleton_of_ne heq]
  · rw [List.getElem?_eq_none (by rw [List.length_range]; omega)]
    rfl

/-- Producer `p` has pushed the item of its loop. -/
theorem PipelineHistory.pushed
    (hfits : config.Fits) (h : PipelineHistory config q log s) (hshape : PipelineShape config s)
    {p i : ℕ} (loop : s.loops[p]? = some (some i)) {sys : BqSystem workItemSize}
    (hreaches : (bqMachine workItemSize q (config.producers + 1)).Reaches
      (log ++ [.push (PipelineConfig.item p i).bytes.val .ok]) sys) :
  PipelineHistory config q (log ++ [.push (PipelineConfig.item p i).bytes.val .ok])
    { s with sys, loops := s.loops.set p (config.producing (i + 1)) }
  := by
  obtain ⟨hone, hle⟩ := hshape.loops p i loop
  obtain ⟨hlt, -⟩ := List.getElem?_eq_some_iff.mp loop
  have hp : p < config.producers := by
    rw [← hshape.length_loops]
    exact hlt
  have hsent := sentItems_push log (PipelineConfig.item p i).bytes.val
  rw [hfits.ofBytes_item hp hle] at hsent
  constructor
  · exact hreaches
  · intro p' loop' hloop'
    rw [hsent, Shares.share_append]
    by_cases heq : p' = p
    · subst heq
      rw [List.getElem?_set_self hlt] at hloop'
      cases hloop'
      have hself : Shares.share WorkItem.producer p' [PipelineConfig.item p' i]
          = [PipelineConfig.item p' i] := Shares.share_singleton_self _
      obtain ⟨k, rfl⟩ := Nat.exists_eq_add_of_le' hone
      rw [PipelineConfig.sent_producing hle, h.sent p' _ loop, hself, PipelineConfig.sent,
        Nat.add_sub_cancel, List.range'_concat, List.map_append, Nat.one_mul, Nat.add_comm 1]
      rfl
    · rw [List.getElem?_set_ne (Ne.symm heq)] at hloop'
      rw [Shares.share_singleton_of_ne (Ne.symm heq), List.append_nil]
      exact h.sent p' loop' hloop'
  · intro item hmem
    rw [hsent, List.mem_append, List.mem_singleton] at hmem
    rcases hmem with hmem | rfl
    · exact h.producers item hmem
    · exact hp
  · rw [receivedItems_push]
    exact h.popped
  · rw [receivedItems_push]
    exact h.total
  · rw [receivedItems_push]
    exact h.perProducer

/-- The main thread has popped an item. -/
theorem PipelineHistory.received
    (h : PipelineHistory config q log s) (hshape : PipelineShape config s) {n : ℕ}
    (main : s.main = .consuming n) {out : List Byte} {sys : BqSystem workItemSize}
    (hreaches : (bqMachine workItemSize q (config.producers + 1)).Reaches
      (log ++ [.pop (.ok out)]) sys) :
  PipelineHistory config q (log ++ [.pop (.ok out)])
    { s with
      sys
      main := config.consume (n + 1)
      total := s.total + (WorkItem.ofBytes out).value
      perProducer := s.perProducer.modify (WorkItem.ofBytes out).producerId.toNat (· + 1) }
  := by
  have hpopped := h.popped
  have hn := hshape.main
  rw [main] at hpopped hn
  constructor
  · exact hreaches
  · rw [sentItems_pop]
    exact h.sent
  · rw [sentItems_pop]
    exact h.producers
  · rw [receivedItems_pop, List.length_append, show (receivedItems log).length = n from hpopped]
    exact MainPhase.popped_consume hn
  · rw [receivedItems_pop, List.map_append, List.sum_append, h.total, List.map_singleton,
      List.sum_singleton]
  · rw [receivedItems_pop, h.perProducer]
    exact modify_perProducer _ _ _

/-- Every step keeps the history. -/
theorem PipelineHistory.step
    (hfits : config.Fits) (h : PipelineHistory config q log s) (hshape : PipelineShape config s)
    (hstep : PipelineStep config s e s')
    (hreaches : (bqMachine workItemSize q (config.producers + 1)).Reaches
      (log ++ e.toList) s'.sys) :
  PipelineHistory config q (log ++ e.toList) s'
  := by
  have hpopped := h.popped
  cases hstep with
  | @created p main =>
      rw [Option.toList_none, List.append_nil] at hreaches ⊢
      apply h.silent hreaches rfl rfl rfl
      rw [main] at hpopped
      rw [show (receivedItems log).length = 0 from hpopped]
      apply MainPhase.popped_create
  | notCreated =>
      rw [Option.toList_none, List.append_nil] at hreaches ⊢
      exact h.silent hreaches rfl rfl rfl trivial
  | pushWait | popWait | wakePush | wakePop =>
      rw [Option.toList_none, List.append_nil] at hreaches ⊢
      exact h.silent hreaches rfl rfl rfl hpopped
  | @joined p main =>
      rw [Option.toList_none, List.append_nil] at hreaches ⊢
      rw [main] at hpopped
      exact h.silent hreaches rfl rfl rfl (MainPhase.popped_join hpopped)
  | pushOk loop => exact h.pushed hfits hshape loop hreaches
  | popOk main => exact h.received hshape main hreaches
  | closed main =>
      rw [main] at hpopped
      rw [Option.toList_some] at hreaches ⊢
      constructor
      · exact hreaches
      · rw [sentItems_close]
        exact h.sent
      · rw [sentItems_close]
        exact h.producers
      · rw [receivedItems_close]
        exact hpopped
      · rw [receivedItems_close]
        exact h.total
      · rw [receivedItems_close]
        exact h.perProducer

/-- The history before the first step. -/
theorem PipelineHistory.start (h : PipelineStart config q s) :
  PipelineHistory config q [] s
  := by
  obtain ⟨hsys, hloops, hmain, htotal, hper⟩ := h
  constructor
  · rw [hsys]
    exact .init rfl
  · intro p loop hloop
    rw [hloops, List.getElem?_replicate, Option.ite_none_right_eq_some] at hloop
    cases hloop.2
    have hzero : config.sent (config.producing 1) = 0 := by
      rw [PipelineConfig.producing]
      split
      · rfl
      · rw [PipelineConfig.sent]
        omega
    rw [hzero]
    rfl
  · intro item hmem
    cases hmem
  · rw [hmain]
    apply MainPhase.popped_create
  · exact htotal
  · rw [hper]
    apply List.ext_getElem?
    intro p
    rw [List.getElem?_replicate, List.getElem?_map]
    by_cases hp : p < config.producers
    · rw [if_pos hp, List.getElem?_range hp]
      rfl
    · rw [if_neg hp, List.getElem?_eq_none (by rw [List.length_range]; omega)]
      rfl

/-- The shape and the history in every state of a run. -/
theorem pipeline_of_reaches
    {malloc : Malloc} (hq : bqInit malloc workItemSize config.queueCap = .ok q)
    (hfits : config.Fits) (hs : (pipelineMachine config q).Reaches log s) :
  PipelineShape config s ∧ PipelineHistory config q log s
  := by
  apply hs.invariant
    (I := fun log s => PipelineShape config s ∧ PipelineHistory config q log s)
  · intro s hstart
    exact ⟨.start (bqInit_fields hq).2.1 hstart, .start hstart⟩
  · rintro log s e s' - ⟨hshape, hhistory⟩ ⟨a, hstep⟩
    have hcases := hshape.cases hstep
    exact ⟨hshape.step hcases, hhistory.step hfits hshape hcases (hhistory.reaches_step hstep)⟩

/-! ### The results -/

/-- The items of producer `p` that were popped are its first ones. -/
theorem PipelineHistory.share_received
    {malloc : Malloc} (hmalloc : malloc.RefusesHuge)
    (hq : bqInit malloc workItemSize config.queueCap = .ok q)
    (h : PipelineHistory config q log s) (hshape : PipelineShape config s) {p : ℕ}
    (hp : p < config.producers) :
  ∃ n ≤ config.itemsPerProducer, s.perProducer[p]? = some n
    ∧ Shares.share WorkItem.producer p (receivedItems log)
      = (List.range' 1 n).map (PipelineConfig.item p)
  := by
  have hlt : p < s.loops.length := by
    rw [hshape.length_loops]
    exact hp
  have hloop := List.getElem?_eq_getElem hlt
  have hfront : Shares.share WorkItem.producer p (receivedItems log)
      <+: Shares.share WorkItem.producer p (sentItems log) :=
    Shares.share_prefix (receivedItems_front hmalloc hq h.reaches) p
  rw [h.sent p _ hloop] at hfront
  obtain ⟨hle, hshare⟩ := Shares.eq_map_range'_of_prefix hfront
  refine ⟨_, ?_, ?_, hshare⟩
  · apply Nat.le_trans hle
    cases hi : s.loops[p] with
    | none => exact Nat.le_refl _
    | some i =>
        obtain ⟨-, hi⟩ := hshape.loops p i (by rw [hloop, hi])
        rw [PipelineConfig.sent]
        omega
  · rw [h.perProducer, List.getElem?_map, List.getElem?_range hp]
    rfl

/-- Every item that was popped is of a producer. -/
theorem PipelineHistory.producers_received
    {malloc : Malloc} (hmalloc : malloc.RefusesHuge)
    (hq : bqInit malloc workItemSize config.queueCap = .ok q)
    (h : PipelineHistory config q log s) :
  ∀ item ∈ receivedItems log, item.producer < config.producers
  := by
  intro item hmem
  exact h.producers item ((receivedItems_front hmalloc hq h.reaches).subset hmem)

/-- The sum of the first numbers. -/
theorem sum_range'_one (n : ℕ) :
  2 * ((List.range' 1 n).map fun i : ℕ => (i : ℤ)).sum = n * (n + 1)
  := by
  induction n with
  | zero => rfl
  | succ n ih =>
      rw [List.range'_concat, List.map_append, List.sum_append, Int.mul_add, ih]
      simp only [List.map_cons, List.map_nil, List.sum_cons, List.sum_nil]
      push_cast
      ring

/-- The total is that of the counters. -/
theorem PipelineHistory.total_eq
    {malloc : Malloc} (hmalloc : malloc.RefusesHuge)
    (hq : bqInit malloc workItemSize config.queueCap = .ok q)
    (h : PipelineHistory config q log s) (hshape : PipelineShape config s) :
  2 * s.total = (s.perProducer.map fun n : ℕ => (n : ℤ) * (n + 1)).sum
  := by
  rw [h.total, Shares.sum_map_eq WorkItem.value (h.producers_received hmalloc hq), h.perProducer,
    List.map_map, Finset.mul_sum]
  apply Finset.sum_congr rfl
  intro p hp
  obtain ⟨n, -, hn, hshare⟩ := h.share_received hmalloc hq hshape (Finset.mem_range.mp hp)
  rw [Function.comp_apply, hshare, List.length_map, List.length_range', List.map_map]
  exact sum_range'_one n

/-- `LLONG_MAX` -/
def llongMax : ℤ := 9223372036854775807

/-- In every state of the pipeline, for any number of producers, items and slots, the main thread
has popped of each producer the items `1`, `2`, and so on in order, as many as its counter says,
and no other items, the total is the sum of their values and fits in a `long long`, and the queue
holds no more than its capacity. -/
theorem pipeline_delivers
    {malloc : Malloc} (hmalloc : malloc.RefusesHuge)
    (hq : bqInit malloc workItemSize config.queueCap = .ok q) (hfits : config.Fits)
    (hs : (pipelineMachine config q).Reaches log s) :
  (∀ p < config.producers, ∃ n ≤ config.itemsPerProducer, s.perProducer[p]? = some n
      ∧ Shares.share WorkItem.producer p (receivedItems log)
        = (List.range' 1 n).map (PipelineConfig.item p))
    ∧ (∀ item ∈ receivedItems log, item.producer < config.producers)
    ∧ 2 * s.total = (s.perProducer.map fun n : ℕ => (n : ℤ) * (n + 1)).sum
    ∧ s.total ≤ llongMax ∧ s.sys.q.len ≤ config.queueCap
  := by
  obtain ⟨hshape, h⟩ := pipeline_of_reaches hq hfits hs
  have hshares := fun p (hp : p < config.producers) => h.share_received hmalloc hq hshape hp
  have htotal := h.total_eq hmalloc hq hshape
  refine ⟨hshares, h.producers_received hmalloc hq, htotal, ?_, ?_⟩
  · have hbound : (s.perProducer.map fun n : ℕ => (n : ℤ) * (n + 1)).sum
        ≤ s.perProducer.length
          • ((config.itemsPerProducer : ℤ) * (config.itemsPerProducer + 1)) := by
      rw [← List.length_map fun n : ℕ => (n : ℤ) * (n + 1)]
      apply List.sum_le_card_nsmul
      intro z hz
      obtain ⟨n, hn, rfl⟩ := List.mem_map.mp hz
      obtain ⟨p, hp, rfl⟩ := List.mem_iff_getElem.mp hn
      have hlt : p < config.producers := by
        rw [h.perProducer, List.length_map, List.length_range] at hp
        exact hp
      obtain ⟨n, hle, hn, -⟩ := hshares p hlt
      rw [List.getElem?_eq_getElem hp, Option.some.injEq] at hn
      rw [hn]
      gcongr
    have hlength : s.perProducer.length = config.producers := by
      rw [h.perProducer, List.length_map, List.length_range]
    obtain ⟨-, hitems, hproduct⟩ := hfits
    have hmax : (config.producers * config.itemsPerProducer : ℤ) * (config.itemsPerProducer + 1)
        ≤ intMax * intMax := by
      apply mul_le_mul
      · exact_mod_cast hproduct
      · exact_mod_cast hitems
      · positivity
      · positivity
    rw [hlength, nsmul_eq_mul, ← mul_assoc, ← htotal] at hbound
    have hconst : (intMax : ℤ) * intMax ≤ 2 * llongMax := by decide
    omega
  · have hrepr := (bq_delivers_and_drains malloc hmalloc _ _ q hq _ log s.sys h.reaches).2.2.2.1
    obtain ⟨t, -, hrel⟩ := (bqSimulation hmalloc hq _).reaches h.reaches
    rw [hrel.cap_eq] at hrepr
    exact hrepr

/-- The main thread sleeps until the first of two producers pushes its item. -/
theorem pipeline_delivers_of_run :
  ∃ log s, (pipelineMachine ⟨2, 1, 1⟩ ⟨List.replicate 8 0, 8, 1, 0, 0, false⟩).Reaches log s
    ∧ s.perProducer = [1, 0] ∧ 2 * s.total = 2
    ∧ Shares.share WorkItem.producer 0 (receivedItems log) = [PipelineConfig.item 0 1]
  := by
  let start : Pipeline :=
    { sys := ⟨⟨List.replicate 8 0, 8, 1, 0, 0, false⟩, [.idle, .idle, .idle]⟩
      loops := [some 1, some 1]
      main := .creating 0
      total := 0
      perProducer := [0, 0]
      spurious := 1 }
  have hrun : (StateMachine.run (pipelineStep ⟨2, 1, 1⟩) start
      [.create true, .create true, .pop [], .push 0 [false, false, true], .push 1 [],
        .spurious 1, .resume 1 [], .resume 2 [false, true]]).map
        (fun result => result.1.perProducer) = some [1, 0] := by
    decide
  obtain ⟨⟨s, log⟩, hrun, hper⟩ := Option.map_eq_some_iff.mp hrun
  have hs : (pipelineMachine ⟨2, 1, 1⟩ _).Reaches log s :=
    StateMachine.reaches_of_run ⟨rfl, rfl, rfl, rfl, rfl⟩ hrun
  obtain ⟨hshares, -, htotal, -⟩ := pipeline_delivers
    (Malloc.refusesHuge_upTo (show 8 ≤ ptrdiffMax by decide)) rfl
    ⟨by decide, by decide, by decide⟩ hs
  dsimp only at hper
  obtain ⟨n, -, hn, hshare⟩ := hshares 0 (by decide)
  rw [hper] at hn htotal
  cases hn
  exact ⟨log, s, hs, hper, htotal, hshare⟩

end CTemplate

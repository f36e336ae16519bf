import CTemplate.Core.Int
import CTemplate.Hpc.BlockingQueue.System
import CTemplate.Library.Words

/-!
# A pipeline on the blocking queue

The program of `examples/pipeline_demo.c`: some threads in `producer_main` push numbered items into
one `BlockingQueue`, and the main thread pops as many as there are, adds them up, joins the
producers and closes the queue.

`pipelineMachine config q` lets the threads take their steps in any order, with any signals and
with finitely many spurious wakeups; the calls on the queue are steps of `bqStep`.
-/

namespace CTemplate

/-! ### Work items -/

/-- The bytes of an `int`. -/
def intBytes (z : ℤ) : List Byte :=
  Words.bytes 4 (z % 4294967296).toNat

/-- The `int` with the given bytes. -/
def ofIntBytes (bytes : List Byte) : ℤ :=
  let n := Words.value bytes
  if n < 2147483648 then n else n - 4294967296

/-- `WorkItem`. -/
structure WorkItem where
  producerId : ℤ
  value : ℤ
  deriving DecidableEq

/-- `sizeof(WorkItem)`. -/
def workItemSize : ℕ := 8

/-- The bytes of a `WorkItem`. -/
def WorkItem.bytes (item : WorkItem) : Elem workItemSize :=
  ⟨intBytes item.producerId ++ intBytes item.value, by simp [intBytes, workItemSize]⟩

/-- The `WorkItem` with the given bytes. -/
def WorkItem.ofBytes (bytes : List Byte) : WorkItem :=
  ⟨ofIntBytes (bytes.take 4), ofIntBytes (bytes.drop 4)⟩

/-! ### The threads -/

/-- `PRODUCERS`, `ITEMS_PER_PRODUCER` and `QUEUE_CAP`. -/
structure PipelineConfig where
  producers : ℕ
  itemsPerProducer : ℕ
  queueCap : ℕ

/-- The constants of the program. -/
def pipelineDemo : PipelineConfig := ⟨3, 1000, 32⟩

/-- Where the main thread is. -/
inductive MainPhase where
  /-- Before the call of `pthread_create` for producer `p`. -/
  | creating (p : ℕ)
  /-- In the loop of the consumer, which has popped `n` items. -/
  | consuming (n : ℕ)
  /-- Before the call of `pthread_join` for producer `p`. -/
  | joining (p : ℕ)
  /-- Before `bq_close`. -/
  | closing
  | finished
  /-- A call of `pthread_create` has failed. -/
  | failed
  deriving DecidableEq

/-- The process. -/
structure Pipeline where
  sys : BqSystem workItemSize
  /-- `i` in `producer_main` for each producer, or `none` once its loop has ended. -/
  loops : List (Option ℕ)
  main : MainPhase
  total : ℤ
  perProducer : List ℕ
  /-- How many spurious wakeups are still to come. -/
  spurious : ℕ
  deriving DecidableEq

namespace PipelineConfig

variable (config : PipelineConfig)

/-- The item with the number `i` of producer `p`. -/
def item (p i : ℕ) : WorkItem := ⟨p, i⟩

/-- The head of the loop of `producer_main`. -/
def producing (i : ℕ) : Option ℕ :=
  if i ≤ config.itemsPerProducer then some i else none

/-- The head of the loop that joins the producers. -/
def join (p : ℕ) : MainPhase :=
  if p < config.producers then .joining p else .closing

/-- The head of the loop of the consumer. -/
def consume (n : ℕ) : MainPhase :=
  if n < config.producers * config.itemsPerProducer then .consuming n else config.join 0

/-- The head of the loop that creates the producers. -/
def create (p : ℕ) : MainPhase :=
  if p < config.producers then .creating p else config.consume 0

end PipelineConfig

/-- Producer `p` was created, and the process has not ended. -/
def MainPhase.created (p : ℕ) : MainPhase → Bool
  | .creating p' => decide (p < p')
  | .finished | .failed => false
  | _ => true

/-- The process has not ended. -/
def MainPhase.alive : MainPhase → Bool
  | .finished | .failed => false
  | _ => true

variable (config : PipelineConfig)

/-- Thread `i` after its call on the queue has returned. -/
def Pipeline.returned (s : Pipeline) (i : ℕ) : Option BqEvent → Pipeline
  | some (.push _ code) =>
      { s with loops := s.loops.modify i fun loop =>
          loop.bind fun i => if code = .ok then config.producing (i + 1) else none }
  | some (.pop (.ok out)) =>
      match s.main with
      | .consuming n =>
          let item := WorkItem.ofBytes out
          { s with
            main := config.consume (n + 1)
            total := s.total + item.value
            perProducer := s.perProducer.modify item.producerId.toNat (· + 1) }
      | _ => s
  | some (.pop (.error _)) => { s with main := config.join 0 }
  -- the thread waits, or closed the queue
  | _ => s

/-- Thread `i` runs in a call on the queue. -/
def Pipeline.call (s : Pipeline) (i : ℕ) (a : BqAct workItemSize) :
    Option (Pipeline × Option BqEvent) :=
  (bqStep s.sys a).map fun (sys, e) => (Pipeline.returned config { s with sys } i e, e)

/-- What happens next.  `chosen` says which sleeping threads a signal wakes. -/
inductive PipelineAct where
  /-- The main thread creates the next producer, or fails to. -/
  | create (ok : Bool)
  /-- Producer `p` calls `bq_push`. -/
  | push (p : ℕ) (chosen : List Bool)
  /-- The main thread calls `bq_pop`. -/
  | pop (chosen : List Bool)
  /-- Thread `i`, which was woken, gets the mutex back. -/
  | resume (i : ℕ) (chosen : List Bool)
  /-- Thread `i` wakes up spuriously. -/
  | spurious (i : ℕ)
  /-- The main thread joins the next producer. -/
  | join
  /-- The main thread calls `bq_close`. -/
  | close

/-- One step of the threads; the main thread has the number after those of the producers. -/
def pipelineStep (s : Pipeline) : PipelineAct → Option (Pipeline × Option BqEvent)
  | .create ok =>
      match s.main with
      | .creating p =>
          some ({ s with main := if ok then config.create (p + 1) else .failed }, none)
      | _ => none
  | .push p chosen =>
      if s.main.created p then
        match s.loops[p]? with
        | some (some i) => s.call config p (.push p (PipelineConfig.item p i).bytes chosen)
        | _ => none
      else none
  | .pop chosen =>
      match s.main with
      | .consuming _ => s.call config config.producers (.pop config.producers chosen)
      | _ => none
  | .resume i chosen => if s.main.alive then s.call config i (.resume i chosen) else none
  | .spurious i =>
      if s.main.alive ∧ 0 < s.spurious then
        { s with spurious := s.spurious - 1 }.call config i (.spurious i)
      else none
  | .join =>
      match s.main with
      | .joining p =>
          if s.loops[p]? = some none then some ({ s with main := config.join (p + 1) }, none)
          else none
      | _ => none
  | .close =>
      match s.main with
      | .closing =>
          { s with main := .finished }.call config config.producers (.close config.producers)
      | _ => none

/-- The process before the first call of `pthread_create`, with the queue `q`. -/
def PipelineStart (q : BlockingQueue) (s : Pipeline) : Prop :=
  s.sys = ⟨q, List.replicate (config.producers + 1) .idle⟩
    ∧ s.loops = List.replicate config.producers (config.producing 1)
    ∧ s.main = config.create 0 ∧ s.total = 0 ∧ s.perProducer = List.replicate config.producers 0

/-- The pipeline on the queue `q`. -/
def pipelineMachine (q : BlockingQueue) : StateMachine Pipeline BqEvent :=
  .ofStep (PipelineStart config q) (pipelineStep config)

end CTemplate

import CTemplate.Library.Fifo
import Mathlib.Data.Multiset.AddSub
import Mathlib.Data.Multiset.Count

/-!
# Queues of work

`WorkQueue.machine` accepts jobs while it is open, starts them in the order in which it
accepted them, and lets started jobs finish in any order.  A queue of work is a queue, by
`toFifo`, so the started jobs are a prefix of the accepted ones.  Every started job is
running or has finished, so when nothing waits and nothing runs, the finished jobs are the
accepted ones, each as often as it was accepted.
-/

namespace WorkQueue

universe u

variable {α : Type u}

/-- What a queue of work does, one event a step. -/
inductive Event (α : Type u) where
  | accept (x : α)
  | refuse
  | start (x : α)
  | finish (x : α)
  | close

/-- The waiting jobs, oldest first, the running ones, and whether the queue was closed. -/
structure State (α : Type u) where
  waiting : List α
  running : Multiset α
  closed : Bool

/-- The steps of a queue of work. -/
inductive Step : State α → Event α → State α → Prop where
  | accept {waiting : List α} {running : Multiset α} (x : α) :
      Step ⟨waiting, running, false⟩ (.accept x) ⟨waiting ++ [x], running, false⟩
  | refuse {waiting : List α} {running : Multiset α} :
      Step ⟨waiting, running, true⟩ .refuse ⟨waiting, running, true⟩
  | start {x : α} {waiting : List α} {running : Multiset α} {closed : Bool} :
      Step ⟨x :: waiting, running, closed⟩ (.start x) ⟨waiting, x ::ₘ running, closed⟩
  | finish {x : α} {waiting : List α} {running : Multiset α} {closed : Bool} :
      Step ⟨waiting, x ::ₘ running, closed⟩ (.finish x) ⟨waiting, running, closed⟩
  | close {waiting : List α} {running : Multiset α} {closed : Bool} :
      Step ⟨waiting, running, closed⟩ .close ⟨waiting, running, true⟩

/-- The queue of work, empty and open at first. -/
def machine (α : Type u) : StateMachine (State α) (Event α) where
  init s := s = ⟨[], 0, false⟩
  step s e s' := ∃ ev, e = some ev ∧ Step s ev s'

/-- A single step of the machine, as steps. -/
theorem steps_of_step {s s' : State α} {e : Event α} (h : Step s e s') :
  (machine α).Steps s [e] s'
  := by
  have hstep : (machine α).step s (some e) s' := ⟨e, rfl, h⟩
  apply StateMachine.Steps.single hstep

/-- How many jobs wait after an accepted job. -/
theorem Step.length_accept {s s' : State α} {x : α} (h : Step s (.accept x) s') :
  s'.waiting.length = s.waiting.length + 1
  := by
  cases h
  exact List.length_append

/-- How many jobs waited before one was started. -/
theorem Step.length_start {s s' : State α} {x : α} (h : Step s (.start x) s') :
  s.waiting.length = s'.waiting.length + 1
  := by
  cases h
  rfl

/-- Finishing a job leaves the waiting ones as they are. -/
theorem Step.waiting_finish {s s' : State α} {x : α} (h : Step s (.finish x) s') :
  s'.waiting = s.waiting
  := by
  cases h
  rfl

/-- The jobs accepted in a log, in order. -/
def accepted (log : List (Event α)) : List α :=
  log.filterMap fun
    | .accept x => some x
    | _ => none

/-- The jobs started in a log, in order. -/
def started (log : List (Event α)) : List α :=
  log.filterMap fun
    | .start x => some x
    | _ => none

/-- The jobs finished in a log, in order. -/
def finished (log : List (Event α)) : List α :=
  log.filterMap fun
    | .finish x => some x
    | _ => none

@[simp]
theorem started_append (log log' : List (Event α)) :
  started (log ++ log') = started log ++ started log'
  := List.filterMap_append

@[simp]
theorem finished_append (log log' : List (Event α)) :
  finished (log ++ log') = finished log ++ finished log'
  := List.filterMap_append

/-! ### A queue of work is a queue -/

/-- The event as one of an unbounded queue, which sees nothing of finished jobs. -/
def Event.observe : Event α → Option (Fifo.Event α)
  | .accept x => some (.accept x)
  | .refuse => some .refuse
  | .start x => some (.deliver x)
  | .finish _ => none
  | .close => some .close

/-- The unbounded queue of the waiting jobs simulates a queue of work. -/
def toFifo (α : Type u) : StateMachine.Simulation (machine α) (Fifo.machine α ⊤) where
  observe := Event.observe
  rel s t := t = ⟨s.waiting, s.closed⟩
  start := by
    rintro _ rfl
    exact ⟨⟨[], false⟩, rfl, rfl⟩
  follow := by
    rintro s e s' _ rfl ⟨e, rfl, hstep⟩
    refine ⟨⟨s'.waiting, s'.closed⟩, ?_, rfl⟩
    cases hstep with
    | accept x => apply Fifo.steps_of_step (.accept x (WithTop.coe_lt_top _))
    | refuse => apply Fifo.steps_of_step .refuse
    | start => apply Fifo.steps_of_step .deliver
    | finish => exact .refl
    | close => apply Fifo.steps_of_step .close

theorem accepted_observe (log : List (Event α)) :
  Fifo.accepted (log.filterMap Event.observe) = accepted log
  := by
  rw [Fifo.accepted, List.filterMap_filterMap]
  apply List.filterMap_congr
  rintro (_ | _ | _ | _ | _) _ <;> rfl

theorem delivered_observe (log : List (Event α)) :
  Fifo.delivered (log.filterMap Event.observe) = started log
  := by
  rw [Fifo.delivered, List.filterMap_filterMap]
  apply List.filterMap_congr
  rintro (_ | _ | _ | _ | _) _ <;> rfl

variable {s : State α} {log : List (Event α)}

/-- What was accepted is what was started followed by what waits. -/
theorem accepted_eq (h : (machine α).Reaches log s) :
  accepted log = started log ++ s.waiting
  := by
  obtain ⟨_, ht, rfl⟩ := (toFifo α).reaches h
  have heq := Fifo.accepted_eq ht
  change Fifo.accepted (log.filterMap Event.observe)
    = Fifo.delivered (log.filterMap Event.observe) ++ s.waiting at heq
  rwa [accepted_observe, delivered_observe] at heq

/-! ### Every job once -/

/-- What was started has finished or is running. -/
theorem started_eq (h : (machine α).Reaches log s) :
  (started log : Multiset α) = finished log + s.running
  := by
  apply h.invariant (I := fun log s => (started log : Multiset α) = finished log + s.running)
  · rintro _ rfl
    rfl
  · rintro log t _ t' - ih ⟨e, rfl, hstep⟩
    rw [Option.toList_some, started_append, finished_append, ← Multiset.coe_add,
      ← Multiset.coe_add, ih]
    cases hstep with
    | accept => simp [started, finished]
    | refuse => simp [started, finished]
    | @start x waiting running =>
        change (finished log : Multiset α) + running + {x} = finished log + 0 + x ::ₘ running
        rw [Multiset.add_zero, ← Multiset.singleton_add, Multiset.add_assoc,
          Multiset.add_comm running]
    | @finish x waiting running =>
        change (finished log : Multiset α) + x ::ₘ running + 0 = finished log + {x} + running
        rw [Multiset.add_zero, ← Multiset.singleton_add, Multiset.add_assoc]
    | close => simp [started, finished]

/-- When nothing waits and nothing runs, the finished jobs are the accepted ones. -/
theorem finished_perm
    (h : (machine α).Reaches log s) (hwaiting : s.waiting = []) (hrunning : s.running = 0) :
  (finished log).Perm (accepted log)
  := by
  rw [accepted_eq h, hwaiting, List.append_nil, ← Multiset.coe_eq_coe, started_eq h, hrunning,
    Multiset.add_zero]

/-- A job that finished was accepted. -/
theorem accepted_of_finished
    (h : (machine α).Reaches log s) {x : α} (hx : x ∈ finished log) :
  x ∈ accepted log
  := by
  rw [accepted_eq h]
  apply List.mem_append_left
  rw [← Multiset.mem_coe, started_eq h]
  apply Multiset.mem_add.mpr (Or.inl _)
  exact hx

end WorkQueue

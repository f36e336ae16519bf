import CTemplate.Library.StateMachine
import Mathlib.Data.ENat.Basic

/-!
# Bounded queues that can be closed

`Fifo.machine cap` is the queue that holds at most `cap` elements, delivers them in the
order in which it accepted them, and can be closed.  A closed queue refuses elements,
still delivers the ones it holds, and reports that it is drained once it holds none.

The theorems are about logs: the delivered elements are a prefix of the accepted ones,
nothing is accepted after the queue was closed, and when the queue reports that it is
drained it was closed and has delivered everything it accepted.
-/

namespace Fifo

universe u

variable {α : Type u}

/-- What a queue does, one event a step. -/
inductive Event (α : Type u) where
  | accept (x : α)
  | refuse
  | deliver (x : α)
  | drained
  | close

/-- The elements a queue holds, oldest first, and whether it was closed. -/
structure State (α : Type u) where
  items : List α
  closed : Bool

/-- The steps of a queue that holds at most `cap` elements. -/
inductive Step (cap : ℕ∞) : State α → Event α → State α → Prop where
  | accept {items : List α} (x : α) (room : (items.length : ℕ∞) < cap) :
      Step cap ⟨items, false⟩ (.accept x) ⟨items ++ [x], false⟩
  | refuse {items : List α} : Step cap ⟨items, true⟩ .refuse ⟨items, true⟩
  | deliver {x : α} {items : List α} {closed : Bool} :
      Step cap ⟨x :: items, closed⟩ (.deliver x) ⟨items, closed⟩
  | drained : Step cap ⟨[], true⟩ .drained ⟨[], true⟩
  | close {items : List α} {closed : Bool} :
      Step cap ⟨items, closed⟩ .close ⟨items, true⟩

/-- The queue that holds at most `cap` elements, empty and open at first. -/
def machine (α : Type u) (cap : ℕ∞) : StateMachine (State α) (Event α) where
  init s := s = ⟨[], false⟩
  step s e s' := ∃ ev, e = some ev ∧ Step cap s ev s'

/-- The elements accepted in a log, in order. -/
def accepted (log : List (Event α)) : List α :=
  log.filterMap fun
    | .accept x => some x
    | _ => none

/-- The elements delivered in a log, in order. -/
def delivered (log : List (Event α)) : List α :=
  log.filterMap fun
    | .deliver x => some x
    | _ => none

@[simp]
theorem accepted_append (log log' : List (Event α)) :
  accepted (log ++ log') = accepted log ++ accepted log'
  := List.filterMap_append

@[simp]
theorem delivered_append (log log' : List (Event α)) :
  delivered (log ++ log') = delivered log ++ delivered log'
  := List.filterMap_append

variable {cap : ℕ∞} {s : State α} {log : List (Event α)}

/-- A single step of the machine, as steps. -/
theorem steps_of_step {s s' : State α} {e : Event α} (h : Step cap s e s') :
  (machine α cap).Steps s [e] s'
  := by
  have hstep : (machine α cap).step s (some e) s' := ⟨e, rfl, h⟩
  apply StateMachine.Steps.single hstep

/-- What was accepted is what was delivered followed by what the queue holds. -/
theorem accepted_eq (h : (machine α cap).Reaches log s) :
  accepted log = delivered log ++ s.items
  := by
  apply h.invariant (I := fun log s => accepted log = delivered log ++ s.items)
  · rintro _ rfl
    rfl
  · rintro log t _ t' - ih ⟨e, rfl, hstep⟩
    rw [Option.toList_some, accepted_append, delivered_append, ih]
    cases hstep <;> simp [accepted, delivered]

/-- A queue never holds more than `cap` elements. -/
theorem length_le (h : (machine α cap).Reaches log s) :
  (s.items.length : ℕ∞) ≤ cap
  := by
  apply h.invariant (I := fun _ s => (s.items.length : ℕ∞) ≤ cap)
  · rintro _ rfl
    simp
  · rintro log t _ t' - ih ⟨e, rfl, hstep⟩
    cases hstep with
    | accept x room =>
        rw [List.length_append, List.length_singleton]
        apply Order.add_one_le_of_lt room
    | deliver =>
        apply le_trans _ ih
        simp
    | refuse => exact ih
    | drained => exact ih
    | close => exact ih

/-- A queue is closed exactly when its log shows that it was closed. -/
theorem closed_iff (h : (machine α cap).Reaches log s) :
  s.closed = true ↔ Event.close ∈ log
  := by
  apply h.invariant (I := fun log s => s.closed = true ↔ Event.close ∈ log)
  · rintro _ rfl
    simp
  · rintro log t _ t' - ih ⟨e, rfl, hstep⟩
    cases hstep with
    | close => simp
    | accept => simpa using ih
    | refuse => simpa using ih
    | deliver => simpa using ih
    | drained => simpa using ih

/-- A closed queue stays closed and accepts nothing. -/
theorem accepted_of_closed
    {s s' : State α} (h : (machine α cap).Steps s log s') (hs : s.closed = true) :
  accepted log = [] ∧ s'.closed = true
  := by
  apply h.invariant (I := fun log s' => accepted log = [] ∧ s'.closed = true) ⟨rfl, hs⟩
  rintro log t _ t' - ⟨hlog, ht⟩ ⟨e, rfl, hstep⟩
  rw [Option.toList_some, accepted_append, hlog]
  cases hstep with
  | accept x room => simp at ht
  | refuse => exact ⟨rfl, ht⟩
  | deliver => exact ⟨rfl, ht⟩
  | drained => exact ⟨rfl, ht⟩
  | close => exact ⟨rfl, rfl⟩

/-- Nothing is accepted after the queue was closed. -/
theorem accepted_after_close
    {pre post : List (Event α)} (h : (machine α cap).Reaches (pre ++ .close :: post) s) :
  accepted post = []
  := by
  obtain ⟨t, t', -, ⟨e, he, hstep⟩, hpost⟩ := h.split
  cases he
  cases hstep
  apply (accepted_of_closed hpost rfl).1

/-- When a queue reports that it is drained, it was closed before and has delivered
everything it accepted. -/
theorem delivered_of_drained
    {pre post : List (Event α)} (h : (machine α cap).Reaches (pre ++ .drained :: post) s) :
  Event.close ∈ pre ∧ delivered pre = accepted pre
  := by
  obtain ⟨t, t', hpre, ⟨e, he, hstep⟩, -⟩ := h.split
  cases he
  cases hstep
  constructor
  · apply (closed_iff hpre).mp rfl
  · rw [accepted_eq hpre, List.append_nil]

end Fifo

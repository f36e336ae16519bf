import CTemplate.Core.Error
import CTemplate.Core.Memory
import CTemplate.Library.Fifo
import CTemplate.Library.Slots

/-!
# The single-producer single-consumer queue

`SpscQueue` is the lock-free ring of `hpc/spsc.c`.  One thread runs calls of
`spsc_push`, another calls of `spsc_pop`.  A call is four elementary steps: it loads its
own index, loads the index of the other side and compares, copies a slot, and stores its
own index.  `spscMachine q` interleaves the steps of the two threads in any order.

The machine is simulated by a queue that holds at most `capacity` elements.  Each thread
works with indices it loaded some steps ago; the relation says for each of its program
points what it still knows.
-/

namespace CTemplate

/-! ### The queue and the threads -/

/-- The fields of `SpscQueue`: the slots, the width of a slot, the number of slots, the
position of the consumer and the position of the producer. -/
structure SpscQueue where
  data : List Byte
  elemSize : ℕ
  slots : ℕ
  head : ℕ
  tail : ℕ
  deriving DecidableEq

/-- `spsc_init`, given the outcome of its call of `malloc`. -/
def spscInit (malloc : Malloc) (elemSize capacity : ℕ) : Except ErrorCode SpscQueue :=
  if elemSize = 0 ∨ capacity = 0 then .error .invalidArg
  else if toSize (capacity + 1) > sizeMax / elemSize then .error .overflow
  else
    match malloc.block (toSize (toSize (capacity + 1) * elemSize)) with
    | none => .error .nomem
    | some data =>
        .ok { data, elemSize, slots := toSize (capacity + 1), head := 0, tail := 0 }

/-- The point at which the producer is in a call of `spsc_push`. -/
inductive Producer where
  /-- No call is running. -/
  | idle
  /-- The own index was loaded. -/
  | loadedTail (elem : List Byte) (tail : ℕ)
  /-- The queue was found not full; the slot is copied next. -/
  | copying (elem : List Byte) (tail next : ℕ)
  /-- The slot was copied; the own index is stored next. -/
  | storing (elem : List Byte) (next : ℕ)
  deriving DecidableEq

/-- The point at which the consumer is in a call of `spsc_pop`. -/
inductive Consumer where
  /-- No call is running. -/
  | idle
  /-- The own index was loaded. -/
  | loadedHead (head : ℕ)
  /-- The queue was found not empty; the slot is copied next. -/
  | copying (head : ℕ)
  /-- The slot was copied; the own index is stored next. -/
  | storing (head : ℕ) (out : List Byte)
  deriving DecidableEq

/-- A call that returned: a push of an element and what it returned, or a pop with the
element it gave when it returned true. -/
inductive SpscEvent where
  | push (elem : List Byte) (result : Bool)
  | pop (out : Option (List Byte))
  deriving DecidableEq

/-- The next elementary step of a running call of `spsc_push`. -/
def spscPush (q : SpscQueue) : Producer → Option (SpscQueue × Producer × Option SpscEvent)
  | .idle => none
  | .loadedTail elem tail =>
      let next := toSize (tail + 1) % q.slots
      if next = q.head then some (q, .idle, some (.push elem false))
      else some (q, .copying elem tail next, none)
  | .copying elem tail next =>
      some ({ q with data := Slots.write q.elemSize q.data tail elem }, .storing elem next, none)
  | .storing elem next => some ({ q with tail := next }, .idle, some (.push elem true))

/-- The next elementary step of a running call of `spsc_pop`. -/
def spscPop (q : SpscQueue) : Consumer → Option (SpscQueue × Consumer × Option SpscEvent)
  | .idle => none
  | .loadedHead head =>
      if head = q.tail then some (q, .idle, some (.pop none))
      else some (q, .copying head, none)
  | .copying head => some (q, .storing head (Slots.read q.elemSize q.data head), none)
  | .storing head out =>
      some ({ q with head := toSize (head + 1) % q.slots }, .idle, some (.pop (some out)))

/-- `spsc_len`, on the values of the indices at one moment. -/
def spscLen (q : SpscQueue) : ℕ :=
  toSize (q.tail + q.slots + (sizeMax + 1) - q.head) % q.slots

/-- The queue and the two threads that use it. -/
structure SpscSystem where
  q : SpscQueue
  producer : Producer
  consumer : Consumer
  deriving DecidableEq

/-- What happens next: the producer calls `spsc_push` and loads its index, it takes
another step of its call, and the same for the consumer and `spsc_pop`. -/
inductive SpscAct where
  | push (elem : List Byte)
  | producer
  | pop
  | consumer
  deriving DecidableEq

/-- One elementary step of one of the threads.  The pointer passed to `spsc_push` points
to an element of the queue's element size. -/
def spscStep (s : SpscSystem) : SpscAct → Option (SpscSystem × Option SpscEvent)
  | .push elem =>
      if s.producer = .idle ∧ elem.length = s.q.elemSize then
        some ({ s with producer := .loadedTail elem s.q.tail }, none)
      else none
  | .producer =>
      match spscPush s.q s.producer with
      | none => none
      | some (q, producer, event) => some ({ s with q, producer }, event)
  | .pop =>
      if s.consumer = .idle then
        some ({ s with consumer := .loadedHead s.q.head }, none)
      else none
  | .consumer =>
      match spscPop s.q s.consumer with
      | none => none
      | some (q, consumer, event) => some ({ s with q, consumer }, event)

/-- The two threads on the queue `q`, both outside calls at first. -/
def spscMachine (q : SpscQueue) : StateMachine SpscSystem SpscEvent :=
  .ofStep (fun s => s = ⟨q, .idle, .idle⟩) spscStep

/-- The elements whose push returned true, in order. -/
def spscPushed (log : List SpscEvent) : List (List Byte) :=
  log.filterMap fun
    | .push elem true => some elem
    | _ => none

/-- The elements popped, in order. -/
def spscPopped (log : List SpscEvent) : List (List Byte) :=
  log.filterMap fun
    | .pop out => out
    | _ => none

/-! ### Simulation by a bounded queue -/

/-- A call that took effect, as an event of the bounded queue. -/
def SpscEvent.observe : SpscEvent → Option (Fifo.Event (List Byte))
  | .push elem true => some (.accept elem)
  | .push _ false => none
  | .pop (some elem) => some (.deliver elem)
  | .pop none => none

theorem accepted_observe (log : List SpscEvent) :
  Fifo.accepted (log.filterMap SpscEvent.observe) = spscPushed log
  := by
  rw [Fifo.accepted, List.filterMap_filterMap]
  apply List.filterMap_congr
  rintro (⟨elem, _ | _⟩ | ⟨_ | elem⟩) _ <;> rfl

theorem delivered_observe (log : List SpscEvent) :
  Fifo.delivered (log.filterMap SpscEvent.observe) = spscPopped log
  := by
  rw [Fifo.delivered, List.filterMap_filterMap]
  apply List.filterMap_congr
  rintro (⟨elem, _ | _⟩ | ⟨_ | elem⟩) _ <;> rfl

/-- What the producer knows at each point of a call, when the queue holds `items`. -/
def Producer.Knows (q : SpscQueue) (items : List (List Byte)) : Producer → Prop
  | .idle => True
  | .loadedTail elem tail => elem.length = q.elemSize ∧ tail = q.tail
  | .copying elem tail next =>
      elem.length = q.elemSize ∧ tail = q.tail ∧ next = (q.tail + 1) % q.slots
        ∧ items.length + 1 < q.slots
  | .storing elem next =>
      next = (q.tail + 1) % q.slots ∧ items.length + 1 < q.slots
        ∧ Slots.read q.elemSize q.data q.tail = elem

/-- What the consumer knows at each point of a call, when the queue holds `items`. -/
def Consumer.Knows (q : SpscQueue) (items : List (List Byte)) : Consumer → Prop
  | .idle => True
  | .loadedHead head => head = q.head
  | .copying head => head = q.head ∧ items ≠ []
  | .storing head out => head = q.head ∧ items.head? = some out

/-- The system `s` represents a bounded queue that holds the elements `t.items`: they are
in consecutive slots from the position of the consumer to that of the producer, and both
threads know what their program points say. -/
structure SpscRel (s : SpscSystem) (t : Fifo.State (List Byte)) : Prop where
  slots_le : s.q.slots ≤ sizeMax
  length_data : s.q.data.length = s.q.slots * s.q.elemSize
  head_lt : s.q.head < s.q.slots
  isOpen : t.closed = false
  length_lt : t.items.length < s.q.slots
  tail_eq : s.q.tail = (s.q.head + t.items.length) % s.q.slots
  items_eq : t.items = Slots.ring s.q.elemSize s.q.data s.q.slots s.q.head t.items.length
  producer : s.producer.Knows s.q t.items
  consumer : s.consumer.Knows s.q t.items

variable {s s' : SpscSystem} {t : Fifo.State (List Byte)} {e : Option SpscEvent}

theorem SpscRel.tail_lt (h : SpscRel s t) :
  s.q.tail < s.q.slots
  := by
  rw [h.tail_eq]
  apply Nat.mod_lt
  have := h.head_lt
  omega

/-- `spsc_len` returns the number of elements, unless twice the number of slots exceeds
`SIZE_MAX`. -/
theorem SpscRel.spscLen_eq (h : SpscRel s t) (hslots : 2 * s.q.slots ≤ sizeMax) :
  spscLen s.q = t.items.length
  := by
  have hhead := h.head_lt
  have hlength := h.length_lt
  -- the difference of the indices in `size_t`, whether or not the tail has wrapped around
  have hsub : ∃ k ≤ 1, s.q.tail + s.q.slots + (sizeMax + 1) - s.q.head
      = t.items.length + s.q.slots * k + (sizeMax + 1) := by
    rw [h.tail_eq]
    by_cases hwrap : s.q.head + t.items.length < s.q.slots
    · rw [Nat.mod_eq_of_lt hwrap]
      use 1, Nat.le_refl 1
      omega
    · rw [Nat.mod_eq_sub_mod (Nat.le_of_not_lt hwrap), Nat.mod_eq_of_lt (by omega)]
      use 0, Nat.zero_le 1
      omega
  obtain ⟨k, hk, hsub⟩ := hsub
  have hle : s.q.slots * k ≤ s.q.slots * 1 := Nat.mul_le_mul_left _ hk
  have hsize : t.items.length + s.q.slots * k < sizeMax + 1 := by omega
  rw [spscLen, hsub, toSize, Nat.add_mod_right, Nat.mod_eq_of_lt hsize,
    Nat.add_mul_mod_self_left, Nat.mod_eq_of_lt hlength]

/-- The index after `i` never wraps around in `size_t`. -/
theorem SpscRel.toSize_succ (h : SpscRel s t) {i : ℕ} (hi : i < s.q.slots) :
  toSize (i + 1) = i + 1
  := by
  apply toSize_of_le
  have := h.slots_le
  omega

/-- Knowledge of the consumer that concerns only its own index and the first element is
not affected by what the producer does. -/
theorem Consumer.Knows.of_eq
    {c : Consumer} {q q' : SpscQueue} {items items' : List (List Byte)}
    (h : c.Knows q items) (hhead : q'.head = q.head)
    (hitems : items ≠ [] → items'.head? = items.head?) :
  c.Knows q' items'
  := by
  cases c with
  | idle => trivial
  | loadedHead head => apply h.trans hhead.symm
  | copying head =>
      obtain ⟨rfl, hne⟩ := h
      use hhead.symm
      rintro rfl
      have := hitems hne
      cases items with
      | nil => apply hne rfl
      | cons x xs => simp at this
  | storing head out =>
      obtain ⟨rfl, hout⟩ := h
      use hhead.symm
      rw [hitems (by rintro rfl; simp at hout), hout]

/-- The producer finding the queue full or not. -/
theorem SpscRel.loadedTail_step
    (h : SpscRel s t) {elem : List Byte} {tail : ℕ} (hp : s.producer = .loadedTail elem tail) :
  (toSize (tail + 1) % s.q.slots = s.q.head → SpscRel { s with producer := .idle } t) ∧
  (toSize (tail + 1) % s.q.slots ≠ s.q.head →
    SpscRel { s with producer := .copying elem tail (toSize (tail + 1) % s.q.slots) } t)
  := by
  have hknows := h.producer
  rw [hp] at hknows
  obtain ⟨helem, rfl⟩ := hknows
  rw [h.toSize_succ h.tail_lt]
  constructor
  · intro _
    exact { h with producer := trivial }
  · intro hne
    have hroom : t.items.length + 1 < s.q.slots := by
      by_contra hfull
      apply hne
      have hlen : t.items.length + 1 = s.q.slots := by
        have := h.length_lt
        omega
      rw [h.tail_eq, Nat.mod_add_mod, Nat.add_assoc, hlen, Nat.add_mod_right,
        Nat.mod_eq_of_lt h.head_lt]
    exact { h with producer := ⟨helem, rfl, rfl, hroom⟩ }

/-- Copying into the slot after the last element changes none of the elements. -/
theorem SpscRel.copyIn
    (h : SpscRel s t) {elem : List Byte} {tail next : ℕ}
    (hp : s.producer = .copying elem tail next) :
  SpscRel
    { s with
      q := { s.q with data := Slots.write s.q.elemSize s.q.data tail elem }
      producer := .storing elem next } t
  := by
  have hknows := h.producer
  rw [hp] at hknows
  obtain ⟨helem, rfl, rfl, hroom⟩ := hknows
  exact
    { h with
      length_data := by
        rw [Slots.length_write h.length_data h.tail_lt helem]
        exact h.length_data
      items_eq := by
        simp only [h.tail_eq]
        rw [Slots.ring_write h.length_data h.length_lt helem]
        exact h.items_eq
      producer := ⟨rfl, hroom, Slots.read_write_self h.length_data h.tail_lt helem⟩
      consumer := h.consumer.of_eq rfl fun _ => rfl }

/-- Storing the producer's index appends the copied element. -/
theorem SpscRel.publish
    (h : SpscRel s t) {elem : List Byte} {next : ℕ} (hp : s.producer = .storing elem next) :
  SpscRel { s with q := { s.q with tail := next }, producer := .idle }
    ⟨t.items ++ [elem], false⟩
  := by
  have hknows := h.producer
  rw [hp] at hknows
  obtain ⟨rfl, hroom, helem⟩ := hknows
  exact
    { h with
      isOpen := rfl
      length_lt := by simpa using hroom
      tail_eq := by
        simp only [h.tail_eq, List.length_append, List.length_singleton]
        rw [Nat.mod_add_mod, Nat.add_assoc]
      items_eq := by
        simp only [List.length_append, List.length_singleton]
        rw [Slots.ring_snoc, ← h.items_eq, ← h.tail_eq, helem]
      producer := trivial
      consumer := by
        apply h.consumer.of_eq rfl
        intro hne
        rw [List.head?_append_of_ne_nil _ hne] }

/-- The consumer finding the queue empty or not. -/
theorem SpscRel.loadedHead_step
    (h : SpscRel s t) {head : ℕ} (hc : s.consumer = .loadedHead head) :
  (head = s.q.tail → SpscRel { s with consumer := .idle } t) ∧
  (head ≠ s.q.tail → SpscRel { s with consumer := .copying head } t)
  := by
  have hknows := h.consumer
  rw [hc] at hknows
  obtain rfl := hknows
  constructor
  · intro _
    exact { h with consumer := trivial }
  · intro hne
    have hitems : t.items ≠ [] := by
      intro hnil
      apply hne
      rw [h.tail_eq, hnil, List.length_nil, Nat.add_zero, Nat.mod_eq_of_lt h.head_lt]
    exact { h with consumer := ⟨rfl, hitems⟩ }

/-- The consumer copies the first element out of its slot. -/
theorem SpscRel.copyOut
    (h : SpscRel s t) {head : ℕ} (hc : s.consumer = .copying head) :
  SpscRel { s with consumer := .storing head (Slots.read s.q.elemSize s.q.data head) } t
  := by
  have hknows := h.consumer
  rw [hc] at hknows
  obtain ⟨rfl, hne⟩ := hknows
  have hout : t.items.head? = some (Slots.read s.q.elemSize s.q.data s.q.head) := by
    obtain ⟨x, xs, hx⟩ := List.exists_cons_of_ne_nil hne
    obtain ⟨_, -, rfl, -⟩ := Slots.ring_eq_cons h.head_lt (h.items_eq.symm.trans hx)
    rw [hx, List.head?_cons]
  exact { h with consumer := ⟨rfl, hout⟩ }

/-- Storing the consumer's index removes the first element. -/
theorem SpscRel.release
    (h : SpscRel s t) {head : ℕ} {out : List Byte} (hc : s.consumer = .storing head out) :
  ∃ items, t.items = out :: items ∧
    SpscRel
      { s with q := { s.q with head := toSize (head + 1) % s.q.slots }, consumer := .idle }
      ⟨items, false⟩
  := by
  have hknows := h.consumer
  rw [hc] at hknows
  obtain ⟨rfl, hout⟩ := hknows
  obtain ⟨items, hitems⟩ := List.head?_eq_some_iff.mp hout
  use items, hitems
  obtain ⟨len, hlen, -, htail⟩ := Slots.ring_eq_cons h.head_lt (h.items_eq.symm.trans hitems)
  have hlen' : items.length = len := by
    rw [hitems, List.length_cons] at hlen
    omega
  have hslots : 0 < s.q.slots := by
    have := h.head_lt
    omega
  have hlt := h.length_lt
  rw [hitems, List.length_cons] at hlt
  rw [h.toSize_succ h.head_lt]
  exact
    { h with
      head_lt := Nat.mod_lt _ hslots
      isOpen := rfl
      length_lt := by
        simp only
        omega
      tail_eq := by
        simp only [h.tail_eq, hitems, List.length_cons]
        rw [Nat.mod_add_mod, Nat.add_right_comm, Nat.add_assoc]
      items_eq := by
        simp only [hlen']
        exact htail
      producer := by
        have hp := h.producer
        rw [hitems] at hp
        cases hprod : s.producer with
        | idle => trivial
        | loadedTail elem tail =>
            rw [hprod] at hp
            exact hp
        | copying elem tail next =>
            rw [hprod] at hp
            obtain ⟨helem, htl, hnext, hroom⟩ := hp
            rw [List.length_cons] at hroom
            exact ⟨helem, htl, hnext, by omega⟩
        | storing elem next =>
            rw [hprod] at hp
            obtain ⟨hnext, hroom, hread⟩ := hp
            rw [List.length_cons] at hroom
            exact ⟨hnext, by omega, hread⟩
      consumer := trivial }

/-- A step of the producer inside a call is followed by the bounded queue, which accepts
an element when the producer stores its index. -/
theorem SpscRel.producer_follow
    (h : SpscRel s t) {q : SpscQueue} {producer : Producer}
    (hstep : spscPush s.q s.producer = some (q, producer, e)) :
  q.slots = s.q.slots ∧ ∃ t', (Fifo.machine (List Byte) (s.q.slots - 1 : ℕ)).Steps t
    (e.bind SpscEvent.observe).toList t' ∧ SpscRel { s with q, producer } t'
  := by
  cases hp : s.producer with
  | idle => simp [hp, spscPush] at hstep
  | loadedTail elem tail =>
      obtain ⟨hfull, hgo⟩ := h.loadedTail_step hp
      simp only [hp, spscPush] at hstep
      split at hstep
      · rename_i hnext
        cases hstep
        use rfl, t, .refl
        apply hfull hnext
      · rename_i hnext
        cases hstep
        use rfl, t, .refl
        apply hgo hnext
  | copying elem tail next =>
      simp only [hp, spscPush] at hstep
      cases hstep
      use rfl, t, .refl
      apply h.copyIn hp
  | storing elem next =>
      have hroom := h.producer
      rw [hp] at hroom
      simp only [hp, spscPush] at hstep
      cases hstep
      use rfl, ⟨t.items ++ [elem], false⟩
      constructor
      · have hlt : (t.items.length : ℕ∞) < (s.q.slots - 1 : ℕ) := by
          rw [Nat.cast_lt]
          have := hroom.2.1
          omega
        have ht : t = ⟨t.items, false⟩ := by rw [← h.isOpen]
        rw [ht]
        apply Fifo.steps_of_step (Fifo.Step.accept elem hlt)
      · apply h.publish hp

/-- A step of the consumer inside a call is followed by the bounded queue, which delivers
an element when the consumer stores its index. -/
theorem SpscRel.consumer_follow
    (h : SpscRel s t) {q : SpscQueue} {consumer : Consumer} {cap : ℕ∞}
    (hstep : spscPop s.q s.consumer = some (q, consumer, e)) :
  q.slots = s.q.slots ∧ ∃ t', (Fifo.machine (List Byte) cap).Steps t
    (e.bind SpscEvent.observe).toList t' ∧ SpscRel { s with q, consumer } t'
  := by
  cases hc : s.consumer with
  | idle => simp [hc, spscPop] at hstep
  | loadedHead head =>
      obtain ⟨hempty, hgo⟩ := h.loadedHead_step hc
      simp only [hc, spscPop] at hstep
      split at hstep
      · rename_i hhead
        cases hstep
        use rfl, t, .refl
        apply hempty hhead
      · rename_i hhead
        cases hstep
        use rfl, t, .refl
        apply hgo hhead
  | copying head =>
      simp only [hc, spscPop] at hstep
      cases hstep
      use rfl, t, .refl
      apply h.copyOut hc
  | storing head out =>
      simp only [hc, spscPop] at hstep
      cases hstep
      obtain ⟨items, hitems, hrel⟩ := h.release hc
      use rfl, ⟨items, false⟩
      constructor
      · have ht : t = ⟨out :: items, false⟩ := by rw [← hitems, ← h.isOpen]
        rw [ht]
        apply Fifo.steps_of_step Fifo.Step.deliver
      · exact hrel

/-- Every step of the two threads is followed by the bounded queue. -/
theorem SpscRel.follow
    (h : SpscRel s t) {a : SpscAct} (hstep : spscStep s a = some (s', e)) :
  s'.q.slots = s.q.slots ∧ ∃ t', (Fifo.machine (List Byte) (s.q.slots - 1 : ℕ)).Steps t
    (e.bind SpscEvent.observe).toList t' ∧ SpscRel s' t'
  := by
  cases a with
  | push elem =>
      simp only [spscStep] at hstep
      split at hstep
      · rename_i hcall
        cases hstep
        use rfl, t, .refl
        exact { h with producer := ⟨hcall.2, rfl⟩ }
      · cases hstep
  | producer =>
      simp only [spscStep] at hstep
      split at hstep
      · cases hstep
      · rename_i q producer event hpush
        cases hstep
        apply h.producer_follow hpush
  | pop =>
      simp only [spscStep] at hstep
      split at hstep
      · cases hstep
        use rfl, t, .refl
        exact { h with consumer := rfl }
      · cases hstep
  | consumer =>
      simp only [spscStep] at hstep
      split at hstep
      · cases hstep
      · rename_i q consumer event hpop
        cases hstep
        apply h.consumer_follow hpop

/-- What a successful `spsc_init` leaves: an empty queue of `capacity + 1` slots. -/
theorem spscInit_eq_ok
    {malloc : Malloc} {elemSize capacity : ℕ} {q : SpscQueue}
    (h : spscInit malloc elemSize capacity = .ok q) (hwrap : capacity + 1 ≤ sizeMax) :
  q.slots = capacity + 1 ∧ SpscRel ⟨q, .idle, .idle⟩ ⟨[], false⟩
  := by
  unfold spscInit at h
  rw [toSize_of_le hwrap] at h
  split at h
  · cases h
  · rename_i hpos
    split at h
    · cases h
    · rename_i hmul
      split at h
      · cases h
      · rename_i data hdata
        cases h
        have hle : (capacity + 1) * elemSize ≤ sizeMax := by
          apply (Nat.le_div_iff_mul_le (by omega)).mp
          omega
        rw [toSize_of_le hle] at hdata
        use rfl
        exact
          { slots_le := hwrap
            length_data := malloc.length_block hdata
            head_lt := Nat.succ_pos capacity
            isOpen := rfl
            length_lt := Nat.succ_pos capacity
            tail_eq := by simp
            items_eq := by simp [Slots.ring]
            producer := trivial
            consumer := trivial }

/-- The bounded queue of `capacity` elements simulates the two threads on a queue from
`spsc_init`. -/
def spscSimulation
    {malloc : Malloc} {elemSize capacity : ℕ} {q : SpscQueue}
    (h : spscInit malloc elemSize capacity = .ok q) (hwrap : capacity + 1 ≤ sizeMax) :
    StateMachine.Simulation (spscMachine q) (Fifo.machine (List Byte) capacity) where
  observe := SpscEvent.observe
  rel s t := s.q.slots = capacity + 1 ∧ SpscRel s t
  start := by
    rintro _ rfl
    use ⟨[], false⟩, rfl
    apply spscInit_eq_ok h hwrap
  follow := by
    rintro s e s' t ⟨hslots, hrel⟩ ⟨a, hstep⟩
    obtain ⟨hslots', t', hsteps, hrel'⟩ := hrel.follow hstep
    rw [hslots, Nat.add_sub_cancel] at hsteps
    use t', hsteps, hslots'.trans hslots

/-! ### Delivery -/

/-- When both threads are about to copy a slot, they copy different slots. -/
theorem SpscRel.copy_ne
    (h : SpscRel s t) {elem : List Byte} {tail next head : ℕ}
    (hp : s.producer = .copying elem tail next) (hc : s.consumer = .copying head) :
  tail ≠ head
  := by
  have hprod := h.producer
  have hcons := h.consumer
  rw [hp] at hprod
  rw [hc] at hcons
  obtain ⟨-, rfl, -, hroom⟩ := hprod
  obtain ⟨rfl, hne⟩ := hcons
  have hlen : 0 < t.items.length := List.length_pos_of_ne_nil hne
  have hne' : (s.q.head + 0) % s.q.slots ≠ (s.q.head + t.items.length) % s.q.slots := by
    apply Slots.ring_index_ne hlen
    omega
  rw [Nat.add_zero, Nat.mod_eq_of_lt h.head_lt, ← h.tail_eq] at hne'
  exact hne'.symm

/-- For a queue from `spsc_init` and any interleaving of the elementary steps of the two
threads: the elements popped so far are a prefix of the elements pushed so far, the two
threads never copy the same slot, and at most `capacity` elements were pushed and not
popped. -/
theorem spsc_delivers_in_order
    (malloc : Malloc) (elemSize capacity : ℕ) (hwrap : capacity + 1 ≤ sizeMax)
    (q : SpscQueue) (hq : spscInit malloc elemSize capacity = .ok q)
    (log : List SpscEvent) (s : SpscSystem) (hs : (spscMachine q).Reaches log s) :
  spscPopped log <+: spscPushed log
    ∧ (∀ elem tail next head, s.producer = .copying elem tail next →
        s.consumer = .copying head → tail ≠ head)
    ∧ (spscPushed log).length ≤ (spscPopped log).length + capacity
  := by
  obtain ⟨t, ht, -, hrel⟩ := (spscSimulation hq hwrap).reaches hs
  have haccepted := Fifo.accepted_eq ht
  have hlength := Fifo.length_le ht
  have hobserve : (spscSimulation hq hwrap).observe = SpscEvent.observe := rfl
  rw [hobserve, accepted_observe, delivered_observe] at haccepted
  rw [Nat.cast_le] at hlength
  refine ⟨⟨t.items, haccepted.symm⟩, ?_, ?_⟩
  · intro elem tail next head hp hc
    apply hrel.copy_ne hp hc
  · rw [haccepted, List.length_append]
    omega

/-- A push, a push into the full queue and a pop, with the steps of the threads mixed. -/
theorem spsc_delivers_in_order_run :
  ∃ s, (spscMachine ⟨[0, 0], 1, 2, 0, 0⟩).Reaches
      [.push [7] true, .push [8] false, .pop (some [7])] s
    ∧ spscPopped [.push [7] true, .push [8] false, .pop (some [7])]
        <+: spscPushed [.push [7] true, .push [8] false, .pop (some [7])]
  := by
  have hrun : StateMachine.run spscStep ⟨⟨[0, 0], 1, 2, 0, 0⟩, .idle, .idle⟩
      [.push [7], .producer, .producer, .producer, .pop, .push [8], .consumer, .producer,
        .consumer, .consumer]
    = some (⟨⟨[7, 0], 1, 2, 1, 1⟩, .idle, .idle⟩,
        [.push [7] true, .push [8] false, .pop (some [7])]) := by decide
  have hs : (spscMachine _).Reaches _ _ := StateMachine.reaches_of_run rfl hrun
  exact ⟨_, hs, (spsc_delivers_in_order (.upTo 2) 1 1 (by decide) _ rfl _ _ hs).1⟩

end CTemplate

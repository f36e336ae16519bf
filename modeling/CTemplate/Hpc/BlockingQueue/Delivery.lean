import CTemplate.Hpc.BlockingQueue.System
import CTemplate.Library.Fifo

/-!
# Delivery by the blocking queue

A `BlockingQueue` represents a bounded queue: its elements are in `len` consecutive slots
from `head` on.  The bounded queue simulates any number of threads on a queue from
`bq_init`, so what threads pop is what was pushed, in the same order, nothing is pushed
after the queue was closed, and `ERR_NOT_FOUND` means that the queue was closed and
everything pushed was popped.
-/

namespace CTemplate

/-- The queue `q` represents a bounded queue that holds `t.items`. -/
structure BqRepr (q : BlockingQueue) (t : Fifo.State (List Byte)) : Prop where
  cap_le : 2 * q.cap ≤ sizeMax
  length_data : q.data.length = q.cap * q.elemSize
  head_lt : q.head < q.cap
  len_le : q.len ≤ q.cap
  closed_eq : t.closed = q.closed
  items_eq : t.items = Slots.ring q.elemSize q.data q.cap q.head q.len

variable {q : BlockingQueue} {t : Fifo.State (List Byte)}

theorem BqRepr.length_items (h : BqRepr q t) :
  t.items.length = q.len
  := by
  rw [h.items_eq, Slots.length_ring]

/-- The represented state, by its fields. -/
theorem BqRepr.eta (h : BqRepr q t) :
  t = ⟨t.items, q.closed⟩
  := by
  rw [← h.closed_eq]

/-- The slot behind the last element, computed in `size_t`. -/
theorem BqRepr.toSize_tail (h : BqRepr q t) :
  toSize (q.head + q.len) = q.head + q.len
  := by
  apply toSize_of_le
  have := h.cap_le
  have := h.head_lt
  have := h.len_le
  omega

/-- A push into an open queue that is not full accepts the element. -/
theorem BqRepr.pushed
    (h : BqRepr q t) {x : List Byte} (hx : x.length = q.elemSize) (room : q.len ≠ q.cap)
    (isOpen : q.closed = false) :
  Fifo.Step q.cap t (.accept x) ⟨t.items ++ [x], false⟩
    ∧ BqRepr (q.pushed x) ⟨t.items ++ [x], false⟩
  := by
  have hcap := h.cap_le
  have hle := h.len_le
  have hlt : q.len < q.cap := by omega
  have hlen : toSize (q.len + 1) = q.len + 1 := by
    apply toSize_of_le
    omega
  constructor
  · rw [h.eta, isOpen]
    apply Fifo.Step.accept
    rw [Nat.cast_lt, h.length_items]
    exact hlt
  · exact
      { h with
        length_data := by
          simp only [BlockingQueue.pushed]
          rw [Slots.length_write h.length_data (Nat.mod_lt _ (by omega)) hx]
          exact h.length_data
        len_le := by
          simp only [BlockingQueue.pushed, hlen]
          omega
        closed_eq := isOpen.symm
        items_eq := by
          simp only [BlockingQueue.pushed, hlen, h.toSize_tail]
          rw [Slots.ring_write_last h.length_data hlt hx, ← h.items_eq] }

/-- A pop from a queue that is not empty delivers the oldest element. -/
theorem BqRepr.popped (h : BqRepr q t) (filled : q.len ≠ 0) :
  ∃ t', Fifo.Step q.cap t (.deliver (Slots.read q.elemSize q.data q.head)) t'
    ∧ BqRepr q.popped t'
  := by
  have hcap := h.cap_le
  have hhead := h.head_lt
  obtain ⟨len, hlen⟩ := Nat.exists_eq_succ_of_ne_zero filled
  have hle := h.len_le
  have hitems : t.items = Slots.read q.elemSize q.data q.head
      :: Slots.ring q.elemSize q.data q.cap ((q.head + 1) % q.cap) len := by
    rw [h.items_eq, hlen, Slots.ring_succ hhead]
  use ⟨Slots.ring q.elemSize q.data q.cap ((q.head + 1) % q.cap) len, q.closed⟩
  constructor
  · rw [h.eta, hitems]
    exact .deliver
  · have hsucc : toSize (q.head + 1) = q.head + 1 := by
      apply toSize_of_le
      omega
    exact
      { h with
        head_lt := Nat.mod_lt _ (by omega)
        len_le := by
          simp only [BlockingQueue.popped]
          omega
        closed_eq := rfl
        items_eq := by
          simp only [BlockingQueue.popped, hsucc, hlen]
          rfl }

theorem BqRepr.close (h : BqRepr q t) :
  BqRepr (bqClose q) ⟨t.items, true⟩
  := { h with closed_eq := rfl }

/-- What a successful `bq_init` leaves: an empty open queue, whose index arithmetic never
wraps around because no block is larger than `PTRDIFF_MAX` bytes. -/
theorem bqInit_eq_ok
    {malloc : Malloc} (hmalloc : malloc.RefusesHuge) {elemSize capacity : ℕ}
    (h : bqInit malloc elemSize capacity = .ok q) :
  q.elemSize = elemSize ∧ q.cap = capacity ∧ BqRepr q ⟨[], false⟩
  := by
  unfold bqInit at h
  split at h
  · cases h
  · rename_i hpos
    split at h
    · cases h
    · rename_i hmul
      split at h
      · cases h
      · rename_i data hdata
        cases h
        have hle : capacity * elemSize ≤ sizeMax := by
          apply (Nat.le_div_iff_mul_le (by omega)).mp
          omega
        rw [toSize_of_le hle] at hdata
        have hptrdiff : capacity * elemSize ≤ ptrdiffMax := by
          by_contra hgt
          rw [hmalloc _ (Nat.lt_of_not_le hgt)] at hdata
          cases hdata
        have hcap : capacity ≤ capacity * elemSize := by
          apply Nat.le_mul_of_pos_right
          omega
        use rfl, rfl
        exact
          { cap_le := by
              simp only [ptrdiffMax, sizeMax] at *
              omega
            length_data := malloc.length_block hdata
            head_lt := by
              simp only
              omega
            len_le := Nat.zero_le _
            closed_eq := rfl
            items_eq := rfl }

/-! ### Simulation -/

/-- The call as an event of the bounded queue. -/
def BqEvent.observe : BqEvent → Option (Fifo.Event (List Byte))
  | .push elem .ok => some (.accept elem)
  | .push _ .unsupported => some .refuse
  | .push _ _ => none
  | .pop (.ok out) => some (.deliver out)
  | .pop (.error .notFound) => some .drained
  | .pop (.error _) => none
  | .close => some .close

/-- The elements of the pushes that returned `ERR_OK`, in the order of their critical
sections. -/
def bqPushed (log : List BqEvent) : List (List Byte) :=
  log.filterMap fun
    | .push elem .ok => some elem
    | _ => none

/-- The elements of the pops that returned `ERR_OK`, in the order of their critical
sections. -/
def bqPopped (log : List BqEvent) : List (List Byte) :=
  log.filterMap fun
    | .pop (.ok out) => some out
    | _ => none

theorem accepted_bqObserve (log : List BqEvent) :
  Fifo.accepted (log.filterMap BqEvent.observe) = bqPushed log
  := by
  rw [Fifo.accepted, List.filterMap_filterMap]
  apply List.filterMap_congr
  rintro (⟨_, _ | _⟩ | ⟨⟨_ | _⟩ | _⟩ | _) _ <;> rfl

theorem delivered_bqObserve (log : List BqEvent) :
  Fifo.delivered (log.filterMap BqEvent.observe) = bqPopped log
  := by
  rw [Fifo.delivered, List.filterMap_filterMap]
  apply List.filterMap_congr
  rintro (⟨_, _ | _⟩ | ⟨⟨_ | _⟩ | _⟩ | _) _ <;> rfl

theorem filterMap_observe_close (log : List BqEvent) :
  (.close :: log).filterMap BqEvent.observe = .close :: log.filterMap BqEvent.observe
  := rfl

theorem filterMap_observe_notFound (log : List BqEvent) :
  (.pop (.error .notFound) :: log).filterMap BqEvent.observe
    = .drained :: log.filterMap BqEvent.observe
  := rfl

/-- Only a close shows as a close. -/
theorem close_mem_of_observe
    {log : List BqEvent} (h : Fifo.Event.close ∈ log.filterMap BqEvent.observe) :
  BqEvent.close ∈ log
  := by
  obtain ⟨e, he, hobserve⟩ := List.mem_filterMap.mp h
  rcases e with ⟨_, _ | _⟩ | ⟨⟨_ | _⟩ | _⟩ | _
  case close => exact he
  all_goals cases hobserve

/-- The system `s` stands for a bounded queue of `capacity` elements in the state `t`. -/
structure BqRel {w : ℕ} (capacity : ℕ) (s : BqSystem w) (t : Fifo.State (List Byte)) :
    Prop where
  elemSize_eq : s.q.elemSize = w
  cap_eq : s.q.cap = capacity
  repr : BqRepr s.q t

/-- Every step of the threads is followed by the bounded queue. -/
theorem BqRel.follow
    {w capacity : ℕ} {s s' : BqSystem w} {e : Option BqEvent} (h : BqRel capacity s t)
    (hstep : BqStep s e s') :
  ∃ t', (Fifo.machine (List Byte) capacity).Steps t (e.bind BqEvent.observe).toList t'
    ∧ BqRel capacity s' t'
  := by
  obtain ⟨helem, rfl, hrepr⟩ := h
  cases hstep with
  | pushWait => exact ⟨t, .refl, helem, rfl, hrepr⟩
  | @pushOk i u elem chosen threads _ _ room isOpen _ =>
      obtain ⟨haccept, hrepr'⟩ := hrepr.pushed (elem.property.trans helem.symm) room isOpen
      exact ⟨_, Fifo.steps_of_step haccept, helem, rfl, hrepr'⟩
  | pushRefused _ _ closed =>
      use t
      constructor
      · rw [hrepr.eta, closed]
        apply Fifo.steps_of_step .refuse
      · exact ⟨helem, rfl, hrepr⟩
  | popWait => exact ⟨t, .refl, helem, rfl, hrepr⟩
  | popOk _ _ filled _ =>
      obtain ⟨t', hdeliver, hrepr'⟩ := hrepr.popped filled
      exact ⟨t', Fifo.steps_of_step hdeliver, helem, rfl, hrepr'⟩
  | popDrained _ _ empty closed =>
      use t
      constructor
      · have hitems : t.items = [] := by
          apply List.eq_nil_of_length_eq_zero
          rw [hrepr.length_items, empty]
        rw [hrepr.eta, hitems, closed]
        apply Fifo.steps_of_step .drained
      · exact ⟨helem, rfl, hrepr⟩
  | close =>
      use ⟨t.items, true⟩
      constructor
      · apply Fifo.steps_of_step .close
      · exact ⟨helem, rfl, hrepr.close⟩
  | wakePush => exact ⟨t, .refl, helem, rfl, hrepr⟩
  | wakePop => exact ⟨t, .refl, helem, rfl, hrepr⟩

/-- The bounded queue of `capacity` elements simulates `n` threads on a queue from
`bq_init`. -/
def bqSimulation
    {malloc : Malloc} (hmalloc : malloc.RefusesHuge) {w capacity : ℕ}
    (h : bqInit malloc w capacity = .ok q) (n : ℕ) :
    StateMachine.Simulation (bqMachine w q n) (Fifo.machine (List Byte) capacity) where
  observe := BqEvent.observe
  rel := BqRel capacity
  start := by
    rintro _ rfl
    obtain ⟨helem, hcap, hrepr⟩ := bqInit_eq_ok hmalloc h
    exact ⟨⟨[], false⟩, rfl, helem, hcap, hrepr⟩
  follow := by
    rintro s e s' t hrel ⟨a, hstep⟩
    apply hrel.follow (bqStep_cases hstep)

/-! ### Logs -/

/-- For any number of threads and any interleaving of their calls on a queue from
`bq_init`: the popped elements are a prefix of the pushed ones, in the order of the
critical sections; no push succeeds after a close; a pop returns `ERR_NOT_FOUND` only
after a close, when every pushed element was popped; and the fields stay in range. -/
theorem bq_delivers_and_drains
    (malloc : Malloc) (hmalloc : malloc.RefusesHuge) (w capacity : ℕ) (q : BlockingQueue)
    (hq : bqInit malloc w capacity = .ok q) (n : ℕ) (log : List BqEvent) (s : BqSystem w)
    (hs : (bqMachine w q n).Reaches log s) :
  bqPopped log <+: bqPushed log
    ∧ (∀ pre post, log = pre ++ .close :: post → bqPushed post = [])
    ∧ (∀ pre post, log = pre ++ .pop (.error .notFound) :: post →
        .close ∈ pre ∧ bqPopped pre = bqPushed pre)
    ∧ s.q.len ≤ s.q.cap ∧ s.q.head < s.q.cap
  := by
  obtain ⟨t, ht, hrel⟩ := (bqSimulation hmalloc hq n).reaches hs
  change (Fifo.machine _ _).Reaches (log.filterMap BqEvent.observe) t at ht
  refine ⟨?_, ?_, ?_, hrel.repr.len_le, hrel.repr.head_lt⟩
  · use t.items
    rw [← accepted_bqObserve, ← delivered_bqObserve, Fifo.accepted_eq ht]
  · rintro pre post rfl
    rw [List.filterMap_append, filterMap_observe_close] at ht
    rw [← accepted_bqObserve]
    apply Fifo.accepted_after_close ht
  · rintro pre post rfl
    rw [List.filterMap_append, filterMap_observe_notFound] at ht
    obtain ⟨hclose, hall⟩ := Fifo.delivered_of_drained ht
    rw [accepted_bqObserve, delivered_bqObserve] at hall
    exact ⟨close_mem_of_observe hclose, hall⟩

/-- A consumer waits, a producer pushes one element and closes the queue, and the consumer
pops the element and then finds the queue drained. -/
theorem bq_delivers_and_drains_run :
  ∃ s, (bqMachine 1 ⟨[0], 1, 1, 0, 0, false⟩ 2).Reaches
      [.push [7] .ok, .close, .pop (.ok [7]), .pop (.error .notFound)] s
    ∧ bqPopped [.push [7] .ok, .close, .pop (.ok [7]), .pop (.error .notFound)]
        <+: bqPushed [.push [7] .ok, .close, .pop (.ok [7]), .pop (.error .notFound)]
    ∧ s.q.len ≤ s.q.cap ∧ s.q.head < s.q.cap
  := by
  have hrun : StateMachine.run bqStep ⟨⟨[0], 1, 1, 0, 0, false⟩, [.idle, .idle]⟩
      [.pop 0 [], .push 1 ⟨[7], rfl⟩ [true], .close 1, .resume 0 [], .pop 0 []]
    = some (⟨⟨[7], 1, 1, 0, 0, true⟩, [.idle, .idle]⟩,
        [.push [7] .ok, .close, .pop (.ok [7]), .pop (.error .notFound)]) := rfl
  have hs : (bqMachine 1 _ 2).Reaches _ _ := StateMachine.reaches_of_run rfl hrun
  have h := bq_delivers_and_drains (.upTo 1) (Malloc.refusesHuge_upTo (by decide)) 1 1 _ rfl
    2 _ _ hs
  exact ⟨_, hs, h.1, h.2.2.2⟩

end CTemplate

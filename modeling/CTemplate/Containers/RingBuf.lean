import CTemplate.Core.Elements
import CTemplate.Core.Error
import CTemplate.Library.StateMachine

/-!
# The ring buffer

The circular buffer of `containers/ringbuf.c`.  Whatever calls are made on a buffer, they
return what they return on a list of bounded length to which elements are appended at the back
and from which they are taken at the front.

A function gives `none` when memory outside the buffer is accessed or the computation of an
index wraps around.
-/

namespace CTemplate

/-! ### The buffer -/

/-- `RingBuf`.  The data is `none` for a null pointer. -/
structure RingBuf where
  data : Option (List Byte)
  elemSize : ℕ
  cap : ℕ
  head : ℕ
  len : ℕ
  deriving DecidableEq

/-- `ringbuf_init`: the buffer, or the error. -/
def ringbufInit (malloc : Malloc) (elemSize capacity : ℕ) : Except ErrorCode RingBuf :=
  if elemSize = 0 ∨ capacity = 0 then .error .invalidArg
  else if capacity > sizeMax / elemSize then .error .overflow
  else
    match malloc.block (capacity * elemSize) with
    | none => .error .nomem
    | some data => .ok { data, elemSize, cap := capacity, head := 0, len := 0 }

/-- `tail_index` -/
def tailIndex (r : RingBuf) : Option ℕ :=
  (addSize r.head r.len).map (· % r.cap)

/-- `ringbuf_push`: the buffer after the call and the code returned.  The element is `none` for
a null pointer. -/
def ringbufPush (r : RingBuf) (elem : Option (List Byte)) : Option (RingBuf × ErrorCode) :=
  match r.data, elem with
  | some data, some elem =>
      if r.len = r.cap then some (r, .overflow)
      else
        (tailIndex r).bind fun tail =>
          (storeElem r.elemSize data tail elem).map fun data =>
            ({ r with data := some data, len := toSize (r.len + 1) }, .ok)
  | _, _ => some (r, .invalidArg)

/-- `ringbuf_push_overwrite` -/
def ringbufPushOverwrite (r : RingBuf) (elem : Option (List Byte)) :
    Option (RingBuf × ErrorCode) :=
  match r.data, elem with
  | some data, some elem =>
      if r.len < r.cap then ringbufPush r elem
      else
        (storeElem r.elemSize data r.head elem).map fun data =>
          ({ r with data := some data, head := toSize (r.head + 1) % r.cap }, .ok)
  | _, _ => some (r, .invalidArg)

/-- `ringbuf_pop`, where `out` says whether its argument is not a null pointer: the buffer after
the call, the code returned and the element copied to `*out`. -/
def ringbufPop (r : RingBuf) (out : Bool) :
    Option (RingBuf × ErrorCode × Option (List Byte)) :=
  match r.data with
  | none => some (r, .invalidArg, none)
  | some data =>
      if r.len = 0 then some (r, .notFound, none)
      else
        (if out then (loadElem r.elemSize data r.head).map some else some none).map fun elem =>
          ({ r with head := toSize (r.head + 1) % r.cap, len := r.len - 1 }, .ok, elem)

/-- `ringbuf_len` -/
def ringbufLen (r : RingBuf) : ℕ :=
  r.len

/-- `ringbuf_is_full` -/
def ringbufIsFull (r : RingBuf) : Bool :=
  r.len = r.cap

/-- A call on a buffer of elements of `w` bytes. -/
inductive RingBufCall (w : ℕ) where
  | push (elem : Option (Elem w))
  | pushOverwrite (elem : Option (Elem w))
  | pop (out : Bool)
  | len
  | isFull

/-- What a call returns. -/
inductive RingBufResult where
  | code (code : ErrorCode)
  | popped (code : ErrorCode) (elem : Option (List Byte))
  | count (n : ℕ)
  | full (b : Bool)
  deriving DecidableEq

/-- A call on the buffer. -/
def ringbufStep {w : ℕ} (r : RingBuf) : RingBufCall w → Option (RingBuf × Option RingBufResult)
  | .push elem => (ringbufPush r (elem.map (·.1))).map fun (r, code) => (r, some (.code code))
  | .pushOverwrite elem =>
      (ringbufPushOverwrite r (elem.map (·.1))).map fun (r, code) => (r, some (.code code))
  | .pop out => (ringbufPop r out).map fun (r, code, elem) => (r, some (.popped code elem))
  | .len => some (r, some (.count (ringbufLen r)))
  | .isFull => some (r, some (.full (ringbufIsFull r)))

/-- What a call does to a list of at most `cap` elements, and what it returns. -/
def boundedFifo {w : ℕ} (cap : ℕ) (items : List (List Byte)) :
    RingBufCall w → List (List Byte) × RingBufResult
  | .push none => (items, .code .invalidArg)
  | .push (some elem) =>
      if items.length < cap then (items ++ [elem.1], .code .ok) else (items, .code .overflow)
  | .pushOverwrite none => (items, .code .invalidArg)
  | .pushOverwrite (some elem) =>
      if items.length < cap then (items ++ [elem.1], .code .ok)
      else (items.tail ++ [elem.1], .code .ok)
  | .pop out =>
      match items with
      | [] => ([], .popped .notFound none)
      | elem :: items => (items, .popped .ok (if out then some elem else none))
  | .len => (items, .count items.length)
  | .isFull => (items, .full (items.length = cap))

/-! ### The list in the buffer -/

/-- The buffer holds the elements of the list, the oldest one at its head. -/
structure RingBufRepr (w cap : ℕ) (r : RingBuf) (items : List (List Byte)) : Prop where
  data_eq : ∃ data, r.data = some data ∧ data.length = cap * w
    ∧ items = Slots.ring w data cap r.head r.len
  elemSize_eq : r.elemSize = w
  cap_eq : r.cap = cap
  head_lt : r.head < cap
  len_le : r.len ≤ cap
  elemSize_pos : 0 < w
  size_le : cap * w ≤ ptrdiffMax

variable {w cap : ℕ} {r : RingBuf} {items : List (List Byte)} {malloc : Malloc}

/-- A buffer from `ringbuf_init` is empty. -/
theorem RingBufRepr.init
    (hmalloc : malloc.RefusesHuge) (hinit : ringbufInit malloc w cap = .ok r) :
  RingBufRepr w cap r []
  := by
  rw [ringbufInit] at hinit
  split at hinit
  · cases hinit
  case isFalse hpos =>
  rw [not_or] at hpos
  split at hinit
  · cases hinit
  split at hinit
  · cases hinit
  case h_2 data hdata =>
  obtain rfl := Except.ok.inj hinit
  constructor
  · exact ⟨data, rfl, malloc.length_block hdata, rfl⟩
  · rfl
  · rfl
  · apply Nat.pos_of_ne_zero hpos.2
  · apply Nat.zero_le
  · apply Nat.pos_of_ne_zero hpos.1
  · by_contra hhuge
    rw [hmalloc _ (by omega)] at hdata
    cases hdata

theorem RingBufRepr.len_eq (h : RingBufRepr w cap r items) :
  r.len = items.length
  := by
  obtain ⟨data, -, -, hitems⟩ := h.data_eq
  rw [hitems, Slots.length_ring]

theorem RingBufRepr.cap_le (h : RingBufRepr w cap r items) :
  cap ≤ ptrdiffMax
  := Nat.le_trans (Nat.le_mul_of_pos_right cap h.elemSize_pos) h.size_le

/-- The sum of the head and the length does not wrap around. -/
theorem RingBufRepr.head_add_len_le (h : RingBufRepr w cap r items) :
  r.head + r.len ≤ sizeMax
  := by
  have hcap := h.cap_le
  have hhead := h.head_lt
  have hlen := h.len_le
  have hmax : ptrdiffMax + ptrdiffMax ≤ sizeMax := by decide
  omega

theorem RingBufRepr.toSize_succ (h : RingBufRepr w cap r items) {n : ℕ} (hn : n < cap) :
  toSize (n + 1) = n + 1
  := by
  have hcap := h.cap_le
  have hmax : ptrdiffMax ≤ sizeMax := by decide
  apply toSize_of_le
  omega

/-- Pushing onto a buffer that is not full. -/
theorem RingBufRepr.push (h : RingBufRepr w cap r items) (elem : Elem w) (hlt : r.len < cap) :
  ∃ r', ringbufPush r (some elem.1) = some (r', .ok) ∧ RingBufRepr w cap r' (items ++ [elem.1])
  := by
  obtain ⟨data, hdata, hlength, hitems⟩ := h.data_eq
  have hsize : cap * w ≤ sizeMax := Nat.le_trans h.size_le (by decide)
  have htail : (r.head + r.len) % cap < cap := Nat.mod_lt _ (by omega)
  have hstore := storeElem_eq hlength hsize htail elem.2
  simp only [ringbufPush, hdata]
  rw [if_neg (by rw [h.cap_eq]; omega), tailIndex, addSize_of_le h.head_add_len_le, h.cap_eq,
    h.elemSize_eq, Option.map_some, Option.bind_some, hstore]
  refine ⟨_, rfl, ?_⟩
  constructor
  · refine ⟨_, rfl, ?_, ?_⟩
    · rw [Slots.length_write hlength htail elem.2, hlength]
    · dsimp only
      rw [h.toSize_succ hlt, Slots.ring_write_last hlength hlt elem.2, hitems]
  · rfl
  · rfl
  · exact h.head_lt
  · dsimp only
    rw [h.toSize_succ hlt]
    exact hlt
  · exact h.elemSize_pos
  · exact h.size_le

/-- Pushing onto a buffer that is full drops its oldest element. -/
theorem RingBufRepr.overwrite
    (h : RingBufRepr w cap r items) (elem : Elem w) (hfull : r.len = cap) :
  ∃ r', ringbufPushOverwrite r (some elem.1) = some (r', .ok)
    ∧ RingBufRepr w cap r' (items.tail ++ [elem.1])
  := by
  obtain ⟨data, hdata, hlength, hitems⟩ := h.data_eq
  have hsize : cap * w ≤ sizeMax := Nat.le_trans h.size_le (by decide)
  have hstore := storeElem_eq hlength hsize h.head_lt elem.2
  simp only [ringbufPushOverwrite, hdata]
  rw [if_neg (by rw [h.cap_eq]; omega), h.elemSize_eq, hstore]
  refine ⟨_, rfl, ?_⟩
  constructor
  · refine ⟨_, rfl, ?_, ?_⟩
    · rw [Slots.length_write hlength h.head_lt elem.2, hlength]
    · dsimp only
      rw [h.cap_eq, h.toSize_succ h.head_lt, hitems, hfull,
        Slots.ring_write_first hlength h.head_lt elem.2]
  · rfl
  · exact h.cap_eq
  · dsimp only
    rw [h.cap_eq]
    apply Nat.mod_lt _ (Nat.zero_lt_of_lt h.head_lt)
  · exact h.len_le
  · exact h.elemSize_pos
  · exact h.size_le

/-- Popping from a buffer that is not empty takes its oldest element. -/
theorem RingBufRepr.pop {elem : List Byte} (h : RingBufRepr w cap r (elem :: items)) (out : Bool) :
  ∃ r', ringbufPop r out = some (r', .ok, if out then some elem else none)
    ∧ RingBufRepr w cap r' items
  := by
  obtain ⟨data, hdata, hlength, hitems⟩ := h.data_eq
  have hsize : cap * w ≤ sizeMax := Nat.le_trans h.size_le (by decide)
  have hload := loadElem_eq hlength hsize h.head_lt
  obtain ⟨len, hlen, hfirst, hrest⟩ := Slots.ring_eq_cons h.head_lt hitems.symm
  have hcopied : (if out then (loadElem w data r.head).map some else some none)
      = some (if out then some elem else none) := by
    rw [hload, hfirst]
    cases out <;> rfl
  rw [ringbufPop, hdata]
  simp only
  rw [if_neg (by omega), h.elemSize_eq, hcopied]
  refine ⟨_, rfl, ?_⟩
  constructor
  · refine ⟨data, rfl, hlength, ?_⟩
    dsimp only
    rw [h.cap_eq, h.toSize_succ h.head_lt, hlen, Nat.add_sub_cancel]
    exact hrest
  · rfl
  · exact h.cap_eq
  · dsimp only
    rw [h.cap_eq]
    apply Nat.mod_lt _ (Nat.zero_lt_of_lt h.head_lt)
  · apply Nat.le_trans (Nat.sub_le _ _) h.len_le
  · exact h.elemSize_pos
  · exact h.size_le

/-! ### Runs -/

/-- The call returns what it returns on the list. -/
def RingBufAgrees (w cap : ℕ) (r : RingBuf) (items : List (List Byte)) (call : RingBufCall w) :
    Prop :=
  ∃ r', ringbufStep r call = some (r', some (boundedFifo cap items call).2)
    ∧ RingBufRepr w cap r' (boundedFifo cap items call).1

theorem RingBufRepr.step_push (h : RingBufRepr w cap r items) (elem : Option (Elem w)) :
  RingBufAgrees w cap r items (.push elem)
  := by
  have hlen := h.len_eq
  have hle := h.len_le
  obtain ⟨data, hdata, -, -⟩ := h.data_eq
  cases elem with
  | none =>
      use r
      simp only [ringbufStep, ringbufPush, Option.map_none]
      rw [hdata]
      exact ⟨rfl, h⟩
  | some elem =>
      rw [RingBufAgrees, boundedFifo]
      split
      case isTrue hlt =>
        obtain ⟨r', hpush, h'⟩ := h.push elem (by omega)
        use r'
        rw [ringbufStep, Option.map_some, hpush]
        exact ⟨rfl, h'⟩
      case isFalse hge =>
        use r
        simp only [ringbufStep, Option.map_some, ringbufPush, hdata]
        rw [if_pos (by rw [h.cap_eq]; omega)]
        exact ⟨rfl, h⟩

theorem RingBufRepr.step_pushOverwrite
    (h : RingBufRepr w cap r items) (elem : Option (Elem w)) :
  RingBufAgrees w cap r items (.pushOverwrite elem)
  := by
  have hlen := h.len_eq
  have hle := h.len_le
  obtain ⟨data, hdata, -, -⟩ := h.data_eq
  cases elem with
  | none =>
      use r
      simp only [ringbufStep, ringbufPushOverwrite, Option.map_none]
      rw [hdata]
      exact ⟨rfl, h⟩
  | some elem =>
      rw [RingBufAgrees, boundedFifo]
      split
      case isTrue hlt =>
        obtain ⟨r', hpush, h'⟩ := h.push elem (by omega)
        use r'
        simp only [ringbufStep, Option.map_some, ringbufPushOverwrite, hdata]
        rw [if_pos (by rw [h.cap_eq]; omega), hpush]
        exact ⟨rfl, h'⟩
      case isFalse hge =>
        obtain ⟨r', hpush, h'⟩ := h.overwrite elem (by omega)
        use r'
        rw [ringbufStep, Option.map_some, hpush]
        exact ⟨rfl, h'⟩

theorem RingBufRepr.step_pop (h : RingBufRepr w cap r items) (out : Bool) :
  RingBufAgrees w cap r items (.pop out)
  := by
  have hlen := h.len_eq
  obtain ⟨data, hdata, -, -⟩ := h.data_eq
  cases items with
  | nil =>
      use r
      rw [List.length_nil] at hlen
      simp only [ringbufStep, ringbufPop, hdata]
      rw [if_pos hlen]
      exact ⟨rfl, h⟩
  | cons elem items =>
      obtain ⟨r', hpop, h'⟩ := h.pop out
      use r'
      rw [ringbufStep, hpop]
      exact ⟨rfl, h'⟩

/-- Every call returns what it returns on the list. -/
theorem RingBufRepr.step (h : RingBufRepr w cap r items) (call : RingBufCall w) :
  RingBufAgrees w cap r items call
  := by
  cases call with
  | push elem => apply h.step_push
  | pushOverwrite elem => apply h.step_pushOverwrite
  | pop out => apply h.step_pop
  | len =>
      use r
      rw [ringbufStep, ringbufLen, h.len_eq]
      exact ⟨rfl, h⟩
  | isFull =>
      use r
      rw [ringbufStep, ringbufIsFull, h.len_eq, h.cap_eq]
      exact ⟨rfl, h⟩

/-- Calls on a buffer from `ringbuf_init` return what they return on a list that is empty at
first, the buffer is as long as the list and holds it, and an index is never computed with a
sum that wraps around. -/
theorem ringbuf_fifo
    (hmalloc : malloc.RefusesHuge) (hinit : ringbufInit malloc w cap = .ok r)
    (calls : List (RingBufCall w)) :
  ∃ r', StateMachine.run ringbufStep r calls
      = some (r', (StateMachine.callAll (boundedFifo cap) [] calls).2)
    ∧ RingBufRepr w cap r' (StateMachine.callAll (boundedFifo cap) [] calls).1
    ∧ ringbufLen r' = (StateMachine.callAll (boundedFifo cap) [] calls).1.length
    ∧ ringbufLen r' ≤ cap
    ∧ r'.head + r'.len ≤ sizeMax
  := by
  obtain ⟨r', hrun, h⟩ :=
    StateMachine.run_of_rel RingBufRepr.step (RingBufRepr.init hmalloc hinit) calls
  use r', hrun, h, h.len_eq, h.len_le, h.head_add_len_le

/-- A buffer of two elements is filled, overwritten and emptied. -/
theorem ringbuf_fifo_run :
  ∃ r r', ringbufInit (.upTo 64) 2 2 = .ok r
    ∧ StateMachine.run ringbufStep r
        [.push (some ⟨[1, 1], rfl⟩), .push (some ⟨[2, 2], rfl⟩), .push (some ⟨[3, 3], rfl⟩),
          .pushOverwrite (some ⟨[4, 4], rfl⟩), .isFull, .pop true, .pop true, .pop true, .len]
      = some (r', [.code .ok, .code .ok, .code .overflow, .code .ok, .full true,
          .popped .ok (some [2, 2]), .popped .ok (some [4, 4]), .popped .notFound none,
          .count 0])
  := by
  obtain ⟨r', hrun, -⟩ := ringbuf_fifo
    (Malloc.refusesHuge_upTo (by decide)) (show ringbufInit (.upTo 64) 2 2 = .ok _ from rfl)
    [.push (some ⟨[1, 1], rfl⟩), .push (some ⟨[2, 2], rfl⟩), .push (some ⟨[3, 3], rfl⟩),
      .pushOverwrite (some ⟨[4, 4], rfl⟩), .isFull, .pop true, .pop true, .pop true, .len]
  exact ⟨_, r', rfl, hrun⟩

end CTemplate

import CTemplate.Hpc.Spsc
import Mathlib.Data.List.Induction

/-!
# The capacity of the single-producer single-consumer queue

`spsc_init` computes `capacity + 1` in `size_t` before it checks the size of the slots.  For the
capacity `SIZE_MAX` the sum is zero and passes the check, so that a `malloc` that returns a pointer
for zero bytes makes a queue without slots.  For every other capacity a queue from `spsc_init` has
the slots it should have, `SpscSound`.
-/

namespace CTemplate

variable {malloc : Malloc} {elemSize capacity : ℕ} {q : SpscQueue} {log : List SpscEvent}
  {s s' : SpscSystem}

/-- What a call of `spsc_push` returned. -/
def SpscEvent.pushResult : SpscEvent → Option Bool
  | .push _ result => some result
  | .pop _ => none

/-- What the calls of `spsc_push` returned, in order. -/
def spscResults (log : List SpscEvent) : List Bool :=
  log.filterMap SpscEvent.pushResult

/-- The results of `n` pushes, of which the first `capacity` are accepted. -/
def firstAccepted (capacity n : ℕ) : List Bool :=
  List.replicate (min n capacity) true ++ List.replicate (n - capacity) false

/-- What is promised of a queue from `spsc_init`: it has `capacity + 1` slots, whose bytes were
requested without wrapping around; in no state of the two threads is its number of slots zero,
which all its functions divide by; and as long as nothing was popped, the first `capacity` pushes
return true and all later ones false, and any number of pushes can be made. -/
structure SpscSound (malloc : Malloc) (elemSize capacity : ℕ) (q : SpscQueue) : Prop where
  slots_eq : q.slots = capacity + 1
  size_le : (capacity + 1) * elemSize ≤ sizeMax
  requested : malloc.block ((capacity + 1) * elemSize) = some q.data
  slots_ne_zero : ∀ log s, (spscMachine q).Reaches log s → s.q.slots ≠ 0
  results : ∀ log s, (spscMachine q).Reaches log s → spscPopped log = [] →
    ∃ n, spscResults log = firstAccepted capacity n
  fills : ∀ elems : List (List Byte), (∀ elem ∈ elems, elem.length = elemSize) →
    ∃ s, (spscMachine q).Reaches
      (List.zipWith SpscEvent.push elems (firstAccepted capacity elems.length)) s

/-! ### Results of pushes -/

theorem length_firstAccepted (capacity n : ℕ) :
  (firstAccepted capacity n).length = n
  := by
  simp only [firstAccepted, List.length_append, List.length_replicate]
  omega

/-- One more push is accepted while fewer than `capacity` were made. -/
theorem firstAccepted_succ (capacity n : ℕ) :
  firstAccepted capacity (n + 1) = firstAccepted capacity n ++ [decide (n < capacity)]
  := by
  rw [firstAccepted, firstAccepted]
  by_cases hlt : n < capacity
  · have hmin : min (n + 1) capacity = min n capacity + 1 := by
      omega
    have hzero : n + 1 - capacity = 0 ∧ n - capacity = 0 := by
      omega
    rw [hmin, hzero.1, hzero.2, List.replicate_succ', decide_eq_true hlt]
    simp
  · have hmin : min (n + 1) capacity = min n capacity := by
      omega
    have hsub : n + 1 - capacity = n - capacity + 1 := by
      omega
    rw [hmin, hsub, List.replicate_succ', decide_eq_false hlt, List.append_assoc]

theorem count_firstAccepted (capacity n : ℕ) :
  (firstAccepted capacity n).count true = min n capacity
  := by
  simp [firstAccepted, List.count_replicate]

/-- As many pushes returned true as elements were pushed. -/
theorem count_spscResults (log : List SpscEvent) :
  (spscResults log).count true = (spscPushed log).length
  := by
  induction log with
  | nil => rfl
  | cons e log ih =>
    rcases e with ⟨elem, _ | _⟩ | out
    · simpa [spscResults, spscPushed, SpscEvent.pushResult] using ih
    · simpa [spscResults, spscPushed, SpscEvent.pushResult] using ih
    · exact ih

theorem spscPopped_append (log log' : List SpscEvent) :
  spscPopped (log ++ log') = spscPopped log ++ spscPopped log'
  := List.filterMap_append

theorem spscResults_append (log log' : List SpscEvent) :
  spscResults (log ++ log') = spscResults log ++ spscResults log'
  := List.filterMap_append

/-! ### Queues with fewer than `SIZE_MAX` elements -/

/-- In every state of the two threads, the queue has its slots, and its elements are those that
were pushed and not popped. -/
theorem spsc_reaches
    (hq : spscInit malloc elemSize capacity = .ok q) (hwrap : capacity + 1 ≤ sizeMax)
    (hs : (spscMachine q).Reaches log s) :
  s.q.slots = capacity + 1
    ∧ ∃ t, SpscRel s t ∧ spscPushed log = spscPopped log ++ t.items
  := by
  obtain ⟨t, ht, hslots, hrel⟩ := (spscSimulation hq hwrap).reaches hs
  have haccepted := Fifo.accepted_eq ht
  have hobserve : (spscSimulation hq hwrap).observe = SpscEvent.observe := rfl
  rw [hobserve, accepted_observe, delivered_observe] at haccepted
  exact ⟨hslots, t, hrel, haccepted⟩

/-- A push returns whether the queue holds fewer elements than it has slots to use. -/
theorem SpscRel.pushResult_eq
    {t : Fifo.State (List Byte)} (h : SpscRel s t) {q' : SpscQueue} {producer : Producer}
    {elem : List Byte} {result : Bool}
    (hstep : spscPush s.q s.producer = some (q', producer, some (.push elem result))) :
  result = decide (t.items.length + 1 < s.q.slots)
  := by
  have hknows := h.producer
  cases hp : s.producer with
  | idle =>
    rw [hp] at hstep
    cases hstep
  | loadedTail elem' tail =>
    rw [hp] at hknows hstep
    obtain ⟨-, rfl⟩ := hknows
    rw [spscPush, h.toSize_succ h.tail_lt] at hstep
    split at hstep
    next hfull =>
      cases hstep
      apply (decide_eq_false _).symm
      intro hroom
      have hne : (s.q.head + 0) % s.q.slots ≠ (s.q.head + (t.items.length + 1)) % s.q.slots :=
        Slots.ring_index_ne (Nat.succ_pos _) (by omega)
      apply hne
      rw [Nat.add_zero, Nat.mod_eq_of_lt h.head_lt, ← Nat.add_assoc, ← Nat.mod_add_mod,
        ← h.tail_eq, hfull]
    next => cases hstep
  | copying elem' tail next =>
    rw [hp] at hstep
    cases hstep
  | storing elem' next =>
    rw [hp] at hknows hstep
    cases hstep
    exact (decide_eq_true hknows.2.1).symm

/-- Only a step in a call of `spsc_push` emits its event. -/
theorem spscPush_of_event
    {a : SpscAct} {elem : List Byte} {result : Bool}
    (h : spscStep s a = some (s', some (.push elem result))) :
  ∃ q' producer, spscPush s.q s.producer = some (q', producer, some (.push elem result))
  := by
  cases a with
  | push elem' =>
    rw [spscStep] at h
    split at h <;> simp at h
  | producer =>
    rw [spscStep] at h
    split at h
    · cases h
    next q' producer event hpush =>
      cases h
      exact ⟨q', producer, hpush⟩
  | pop =>
    rw [spscStep] at h
    split at h <;> simp at h
  | consumer =>
    rw [spscStep] at h
    split at h
    · cases h
    next q' consumer event hpop =>
      cases h
      -- a step in a call of `spsc_pop` emits no event of a push
      cases hc : s.consumer with
      | idle => simp [hc, spscPop] at hpop
      | loadedHead head =>
        rw [hc, spscPop] at hpop
        split at hpop <;> simp at hpop
      | copying head => simp [hc, spscPop] at hpop
      | storing head out => simp [hc, spscPop] at hpop

/-- As long as nothing was popped, the first `capacity` pushes are accepted. -/
theorem spscResults_eq
    (hq : spscInit malloc elemSize capacity = .ok q) (hwrap : capacity + 1 ≤ sizeMax)
    (hs : (spscMachine q).Reaches log s) :
  spscPopped log = [] → ∃ n, spscResults log = firstAccepted capacity n
  := by
  apply hs.invariant
    (I := fun log _ => spscPopped log = [] → ∃ n, spscResults log = firstAccepted capacity n)
  · intro s₀ _ _
    use 0
    rw [firstAccepted, Nat.zero_min, Nat.zero_sub]
    rfl
  · rintro log t e t' ht ih ⟨a, hstep⟩ hnone
    rw [spscPopped_append, List.append_eq_nil_iff] at hnone
    obtain ⟨n, hn⟩ := ih hnone.1
    rw [spscResults_append, hn]
    rcases e with _ | ⟨elem, result⟩ | out
    · exact ⟨n, List.append_nil _⟩
    · use n + 1
      obtain ⟨hslots, u, hrel, hitems⟩ := spsc_reaches hq hwrap ht
      obtain ⟨q', producer, hpush⟩ := spscPush_of_event hstep
      have hlength := count_spscResults log
      rw [hitems, hnone.1, List.nil_append, hn, count_firstAccepted] at hlength
      have hresult : result = decide (n < capacity) := by
        rw [hrel.pushResult_eq hpush, hslots, ← hlength, decide_eq_decide]
        omega
      rw [firstAccepted_succ, hresult]
      rfl
    · exact ⟨n, List.append_nil _⟩

/-- A call of `spsc_push` returns when the producer goes on with it. -/
theorem spscPush_returns
    {elem : List Byte} (hidle : s.producer = .idle) (helem : elem.length = s.q.elemSize) :
  ∃ result s', (spscMachine q).Steps s [.push elem result] s' ∧ s'.producer = .idle
    ∧ s'.q.elemSize = s.q.elemSize
  := by
  have hcall : spscStep s (.push elem)
      = some ({ s with producer := .loadedTail elem s.q.tail }, none) := if_pos ⟨hidle, helem⟩
  by_cases hfull : toSize (s.q.tail + 1) % s.q.slots = s.q.head
  · have hrun : StateMachine.run spscStep s [.push elem, .producer]
        = some ({ s with producer := .idle }, [.push elem false]) := by
      rw [StateMachine.run, hcall]
      simp only [StateMachine.run, spscStep, spscPush, if_pos hfull]
      rfl
    exact ⟨false, _, StateMachine.steps_of_run hrun, rfl, rfl⟩
  · have hrun : ∃ s', StateMachine.run spscStep s [.push elem, .producer, .producer, .producer]
        = some (s', [.push elem true]) ∧ s'.producer = .idle
          ∧ s'.q.elemSize = s.q.elemSize := by
      rw [StateMachine.run, hcall]
      simp only [StateMachine.run, spscStep, spscPush, if_neg hfull]
      exact ⟨_, rfl, rfl, rfl⟩
    obtain ⟨s', hrun, hidle', hsize⟩ := hrun
    exact ⟨true, s', StateMachine.steps_of_run hrun, hidle', hsize⟩

theorem spscPopped_pushes (elems : List (List Byte)) (results : List Bool) :
  spscPopped (List.zipWith SpscEvent.push elems results) = []
  := by
  induction elems generalizing results with
  | nil => rfl
  | cons elem elems ih =>
    cases results with
    | nil => rfl
    | cons result results => apply ih results

theorem spscResults_pushes
    {elems : List (List Byte)} {results : List Bool} (h : results.length = elems.length) :
  spscResults (List.zipWith SpscEvent.push elems results) = results
  := by
  induction elems generalizing results with
  | nil => exact (List.length_eq_zero_iff.mp h).symm
  | cons elem elems ih =>
    cases results with
    | nil => rfl
    | cons result results => apply congrArg (result :: ·) (ih (Nat.succ.inj h))

/-- Pushes of any elements, one after the other. -/
theorem spsc_pushes
    (q : SpscQueue) (elems : List (List Byte)) (helems : ∀ elem ∈ elems, elem.length = q.elemSize) :
  ∃ results s, results.length = elems.length
    ∧ (spscMachine q).Reaches (List.zipWith SpscEvent.push elems results) s
    ∧ s.producer = .idle ∧ s.q.elemSize = q.elemSize
  := by
  induction elems using List.reverseRecOn with
  | nil => exact ⟨[], ⟨q, .idle, .idle⟩, rfl, .init rfl, rfl, rfl⟩
  | append_singleton elems elem ih =>
    obtain ⟨results, s, hlength, hreach, hidle, hsize⟩ := ih fun elem' hmem =>
      helems elem' (List.mem_append_left _ hmem)
    have helem : elem.length = s.q.elemSize := by
      rw [hsize]
      apply helems elem (by simp)
    obtain ⟨result, s', hsteps, hidle', hsize'⟩ := spscPush_returns hidle helem
    refine ⟨results ++ [result], s', by simp [hlength], ?_, hidle', hsize'.trans hsize⟩
    rw [List.zipWith_append hlength.symm]
    apply hreach.trans hsteps

/-- What a successful `spsc_init` requested. -/
theorem spscInit_requested
    (hq : spscInit malloc elemSize capacity = .ok q) (hwrap : capacity + 1 ≤ sizeMax) :
  (capacity + 1) * elemSize ≤ sizeMax ∧ malloc.block ((capacity + 1) * elemSize) = some q.data
    ∧ q.elemSize = elemSize
  := by
  rw [spscInit, toSize_of_le hwrap] at hq
  split at hq
  · cases hq
  next hpos =>
  split at hq
  · cases hq
  next hmul =>
  have hle : (capacity + 1) * elemSize ≤ sizeMax := by
    apply (Nat.le_div_iff_mul_le (by omega)).mp
    omega
  rw [toSize_of_le hle] at hq
  split at hq
  · cases hq
  next data hdata =>
  cases hq
  exact ⟨hle, hdata, rfl⟩

/-- A queue from `spsc_init` for fewer than `SIZE_MAX` elements is as promised. -/
theorem spscSound_of_lt
    (hq : spscInit malloc elemSize capacity = .ok q) (hwrap : capacity + 1 ≤ sizeMax) :
  SpscSound malloc elemSize capacity q
  := by
  obtain ⟨hsize, hrequested, helemSize⟩ := spscInit_requested hq hwrap
  exact
    { slots_eq := (spscInit_eq_ok hq hwrap).1
      size_le := hsize
      requested := hrequested
      slots_ne_zero := by
        intro log s hs
        rw [(spsc_reaches hq hwrap hs).1]
        apply Nat.succ_ne_zero
      results := fun log s hs => spscResults_eq hq hwrap hs
      fills := by
        intro elems helems
        rw [← helemSize] at helems
        obtain ⟨results, s, hlength, hs, -⟩ := spsc_pushes q elems helems
        obtain ⟨n, hn⟩ := spscResults_eq hq hwrap hs (spscPopped_pushes elems results)
        rw [spscResults_pushes hlength] at hn
        have hcount : n = elems.length := by
          rw [← length_firstAccepted capacity n, ← hn, hlength]
        rw [← hcount, ← hn]
        exact ⟨s, hs⟩ }

/-! ### All capacities -/

/-- The capacity `SIZE_MAX` passes the check, and no bytes are requested. -/
theorem spscInit_sizeMax (helem : 0 < elemSize) (malloc : Malloc) :
  spscInit malloc elemSize sizeMax
    = match malloc.block 0 with
      | none => .error .nomem
      | some data => .ok { data, elemSize, slots := 0, head := 0, tail := 0 }
  := by
  have hzero : toSize (sizeMax + 1) = 0 := Nat.mod_self _
  have hargs : ¬(elemSize = 0 ∨ sizeMax = 0) := by
    simp only [sizeMax]
    omega
  have hbytes : toSize (0 * elemSize) = 0 := by
    rw [Nat.zero_mul, toSize, Nat.zero_mod]
  have hfits : ¬0 > sizeMax / elemSize := Nat.not_lt_zero _
  cases hblock : malloc.block 0 with
  | none => simp only [spscInit, if_neg hargs, hzero, if_neg hfits, hbytes, hblock]
  | some data => simp only [spscInit, if_neg hargs, hzero, if_neg hfits, hbytes, hblock]

/-- For all sizes and capacities, every queue that `spsc_init` makes is as promised exactly when
the capacity is less than `SIZE_MAX` or `malloc` returns a null pointer for zero bytes. -/
theorem spscInit_sound_iff
    (malloc : Malloc) (helem : 0 < elemSize) (hcapacity : capacity ≤ sizeMax) :
  (∀ q, spscInit malloc elemSize capacity = .ok q → SpscSound malloc elemSize capacity q)
    ↔ capacity < sizeMax ∨ malloc.block 0 = none
  := by
  constructor
  · intro h
    by_contra hnot
    push Not at hnot
    obtain rfl : capacity = sizeMax := Nat.le_antisymm hcapacity hnot.1
    obtain ⟨data, hdata⟩ := Option.ne_none_iff_exists'.mp hnot.2
    have hq := spscInit_sizeMax helem malloc
    rw [hdata] at hq
    cases (h _ hq).slots_eq
  · rintro h q hq
    rcases hcapacity.lt_or_eq with hlt | rfl
    · apply spscSound_of_lt hq hlt
    · have hnone := h.resolve_left (Nat.lt_irrefl _)
      rw [spscInit_sizeMax helem, hnone] at hq
      cases hq

/-- A queue of two elements of one byte. -/
theorem spscInit_sound_two :
  ∃ q, spscInit (.upTo 3) 1 2 = .ok q ∧ SpscSound (.upTo 3) 1 2 q
  := ⟨_, rfl, (spscInit_sound_iff (.upTo 3) (by decide) (by decide)).mpr (.inl (by decide)) _ rfl⟩

/-- An allocator that returns a pointer for zero bytes makes a queue without slots of the capacity
`SIZE_MAX`. -/
theorem spscInit_no_slots :
  spscInit (.upTo 0) 1 sizeMax = .ok ⟨[], 1, 0, 0, 0⟩
    ∧ ¬SpscSound (.upTo 0) 1 sizeMax ⟨[], 1, 0, 0, 0⟩
  := by
  constructor
  · rfl
  · intro h
    cases h.slots_eq

end CTemplate

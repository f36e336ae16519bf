import CTemplate.Library.Bindings
import CTemplate.Networking.EventLoop.Steps

/-!
# The registrations of the event loop

The registrations in use that are not removed are the bindings of the map `registered log`
that the successful calls describe.  Whether a call fails, and how, depends only on its
arguments and this map, apart from failures for want of memory, and a call that fails
leaves the registrations as they are.
-/

namespace CTemplate

/-- The binding of a registration that is not removed. -/
def EventEntry.binding (entry : EventEntry) : Option (ℤ × Registration) :=
  if entry.fd < 0 then none
  else some (entry.fd, ⟨entry.events, entry.cb, entry.userData⟩)

/-- The bindings of the registrations in use. -/
def EventLoop.bindings (loop : EventLoop) : List (ℤ × Registration) :=
  loop.active.filterMap EventEntry.binding

/-- The registrations in use represent the registry, and there are removed ones only while
callbacks are dispatched. -/
structure LoopInv (r : Registry) (s : LoopSystem) : Prop where
  represents : Bindings.Represents r s.loop.bindings
  dispatching : s.loop.dispatching = true ↔ s.point ≠ .outside
  clean : s.point = .outside → ∀ entry ∈ s.loop.active, 0 ≤ entry.fd

variable {r : Registry} {s s' : LoopSystem} {e : Option LoopEvent} {loop loop' : EventLoop}

/-! ### Registrations in use -/

theorem EventEntry.binding_of_nonneg {entry : EventEntry} (h : 0 ≤ entry.fd) :
  entry.binding = some (entry.fd, ⟨entry.events, entry.cb, entry.userData⟩)
  := if_neg (Int.not_lt.mpr h)

theorem EventEntry.binding_of_neg {entry : EventEntry} (h : entry.fd < 0) :
  entry.binding = none
  := if_pos h

/-- A binding comes from a registration in use with its descriptor. -/
theorem EventLoop.mem_bindings {fd : ℤ} {reg : Registration} :
  (fd, reg) ∈ loop.bindings ↔
    0 ≤ fd ∧ (⟨fd, reg.events, reg.cb, reg.userData⟩ : EventEntry) ∈ loop.active
  := by
  rw [EventLoop.bindings, List.mem_filterMap]
  constructor
  · rintro ⟨⟨fd', events, cb, userData⟩, hmem, hbinding⟩
    unfold EventEntry.binding at hbinding
    split at hbinding
    · cases hbinding
    · rename_i hfd
      cases hbinding
      exact ⟨Int.not_lt.mp hfd, hmem⟩
  · rintro ⟨hfd, hmem⟩
    exact ⟨_, hmem, EventEntry.binding_of_nonneg hfd⟩

/-- A descriptor is found just when it is registered. -/
theorem findIndex_eq_none_iff
    (h : Bindings.Represents r loop.bindings) {fd : ℤ} (hfd : 0 ≤ fd) :
  findIndex loop fd = none ↔ fd ∉ r
  := by
  rw [findIndex_eq_none, h.mem_iff, List.mem_map]
  constructor
  · rintro hnot ⟨⟨fd', reg⟩, hmem, rfl⟩
    apply hnot _ (EventLoop.mem_bindings.mp hmem).2 rfl
  · rintro hnot entry hmem rfl
    apply hnot
    use (entry.fd, ⟨entry.events, entry.cb, entry.userData⟩)
    exact ⟨EventLoop.mem_bindings.mpr ⟨hfd, hmem⟩, rfl⟩

/-- Replacing a registration in use. -/
theorem EventLoop.active_replaced (i : ℕ) (entry : EventEntry) :
  (loop.replaced i entry).active = loop.active.set i entry
  := List.take_set

theorem EventLoop.getElem?_active_of_lt {i : ℕ} (hi : i < loop.len) :
  loop.active[i]? = loop.entries[i]?
  := by
  rw [EventLoop.getElem?_active, if_pos hi]

/-- Appending a registration. -/
theorem EventLoop.Arrays.active_append
    (h : loop.Arrays) (room : loop.len < loop.cap) (entry : EventEntry) :
  EventLoop.active
      { loop with entries := loop.entries.set loop.len entry, len := loop.len + 1 }
    = loop.active ++ [entry]
  := by
  have hlt : loop.len < loop.entries.length := Nat.lt_of_lt_of_le room h.cap_le_entries
  simp only [EventLoop.active]
  rw [List.take_add_one, List.take_set_of_le (Nat.le_refl _), List.getElem?_set_self hlt]
  rfl

/-- Removing a registration by the last one. -/
theorem EventLoop.Arrays.active_swap
    (h : loop.Arrays) {i : ℕ} {entry last : EventEntry} (lt : i < loop.len)
    (found : loop.entries[i]? = some entry) (atLast : loop.entries[loop.len - 1]? = some last) :
  (entry :: EventLoop.active { loop.replaced i last with len := loop.len - 1 }).Perm
    loop.active
  := by
  have hlength := h.length_active
  have hactive : EventLoop.active { loop.replaced i last with len := loop.len - 1 }
      = (loop.active.set i last).dropLast := by
    rw [List.dropLast_eq_take, List.length_set, hlength, EventLoop.active, EventLoop.active,
      ← List.take_set, List.take_take, Nat.min_eq_left (Nat.sub_le _ _)]
    rfl
  rw [hactive]
  apply ListSet.swap_remove_perm
  · rw [EventLoop.getElem?_active_of_lt lt, found]
  · rw [List.getLast?_eq_getElem?, hlength, EventLoop.getElem?_active_of_lt (by omega), atLast]

/-- Compacting keeps the bindings. -/
theorem bindings_filter (l : List EventEntry) :
  (l.filter fun entry => entry.fd ≥ 0).filterMap EventEntry.binding
    = l.filterMap EventEntry.binding
  := by
  rw [List.filterMap_filter]
  apply List.filterMap_congr
  intro entry _
  by_cases hfd : entry.fd < 0
  · rw [if_neg (by simpa using hfd), EventEntry.binding_of_neg hfd]
  · rw [if_pos (by simpa using hfd)]

/-! ### Steps -/

theorem registered_append (log : List LoopEvent) (e : Option LoopEvent) :
  registered (log ++ e.toList) = e.elim (registered log) (registered log).after
  := by
  cases e with
  | none => apply congrArg registered (List.append_nil log)
  | some e =>
      rw [registered, List.foldl_append]
      rfl

/-- A call that returned an error. -/
def LoopEvent.Failed : LoopEvent → Prop
  | .add _ _ _ _ code => code ≠ .ok
  | .mod _ _ code => code ≠ .ok
  | .remove _ code => code ≠ .ok
  | .idle code => code ≠ .ok
  | _ => False

/-- A failed call does not count. -/
theorem Registry.after_failed {e : LoopEvent} (h : e.Failed) :
  r.after e = r
  := by
  cases e with
  | add fd events cb userData code => cases code <;> first | rfl | exact absurd rfl h
  | mod fd events code => cases code <;> first | rfl | exact absurd rfl h
  | remove fd code => cases code <;> first | rfl | exact absurd rfl h
  | idle => rfl
  | _ => exact h.elim

/-- A failed call leaves the registrations in use as they are. -/
theorem LoopStep.active_failed {e : LoopEvent} (hstep : LoopStep s (some e) s') (h : e.Failed) :
  s'.loop.active = s.loop.active
  := by
  cases hstep with
  | addFailed _ grown => exact grown.active_eq
  | modFailed => rfl
  | removeFailed => rfl
  | idle => rfl
  | addOk => exact absurd rfl h
  | modOk => exact absurd rfl h
  | tombstone => exact absurd rfl h
  | swap => exact absurd rfl h
  | _ => exact h.elim

theorem LoopInv.addOk
    (h : LoopInv r s) {fd : ℤ} {events : BitVec 32} {cb userData : Ptr}
    (grown : loop.Extends s.loop) (room : loop.len < loop.cap)
    (valid : ¬ (fd < 0 ∨ cb = nullPtr ∨ events = 0)) (absent : findIndex s.loop fd = none) :
  LoopInv (r.insert fd ⟨events, cb, userData⟩)
    { s with
      loop := { loop with
        entries := loop.entries.set loop.len { fd, events, cb, userData }
        len := loop.len + 1 } }
  := by
  have hfd : 0 ≤ fd := Int.not_lt.mp fun hneg => valid (Or.inl hneg)
  have hactive := grown.arrays.active_append room ⟨fd, events, cb, userData⟩
  rw [grown.active_eq] at hactive
  constructor
  · have hbindings : EventLoop.bindings
        { loop with
          entries := loop.entries.set loop.len { fd, events, cb, userData }
          len := loop.len + 1 }
        = s.loop.bindings ++ [(fd, ⟨events, cb, userData⟩)] := by
      rw [EventLoop.bindings, hactive, List.filterMap_append, EventLoop.bindings]
      simp [EventEntry.binding, Int.not_lt.mpr hfd]
    rw [hbindings]
    have hnew := (findIndex_eq_none_iff h.represents hfd).mp absent
    apply (h.represents.insert hnew _).perm
    apply (List.perm_append_singleton _ _).symm
  · change loop.dispatching = true ↔ _
    rw [grown.dispatching_eq]
    exact h.dispatching
  · intro houtside entry hmem
    rw [hactive, List.mem_append, List.mem_singleton] at hmem
    rcases hmem with hmem | rfl
    · apply h.clean houtside entry hmem
    · exact hfd

theorem LoopInv.modOk
    (h : LoopInv r s) {fd : ℤ} {events : BitVec 32} {i : ℕ} {entry : EventEntry}
    (valid : ¬ (fd < 0 ∨ events = 0)) (lt : i < s.loop.len)
    (found : s.loop.entries[i]? = some entry) (same : entry.fd = fd) :
  LoopInv (r.after (.mod fd events .ok))
    { s with loop := s.loop.replaced i { entry with events } }
  := by
  subst same
  have hfd : 0 ≤ entry.fd := Int.not_lt.mp fun hneg => valid (Or.inl hneg)
  rw [← EventLoop.getElem?_active_of_lt lt] at found
  have hmem : (entry.fd, ⟨entry.events, entry.cb, entry.userData⟩) ∈ s.loop.bindings :=
    EventLoop.mem_bindings.mpr ⟨hfd, List.mem_of_getElem? found⟩
  constructor
  · have hperm := ListSet.filterMap_set_perm EventEntry.binding found { entry with events }
    have hnew : EventEntry.binding { entry with events }
        = some (entry.fd, ⟨events, entry.cb, entry.userData⟩) :=
      EventEntry.binding_of_nonneg hfd
    rw [EventEntry.binding_of_nonneg hfd, hnew] at hperm
    have hlookup := (h.represents.lookup_iff _ _).mpr hmem
    simp only [Registry.after, hlookup]
    apply h.represents.change hmem
    rw [EventLoop.bindings, EventLoop.active_replaced]
    exact hperm
  · exact h.dispatching
  · intro houtside entry' hmem'
    rw [EventLoop.active_replaced] at hmem'
    rcases List.mem_or_eq_of_mem_set hmem' with hmem' | rfl
    · apply h.clean houtside entry' hmem'
    · exact hfd

theorem LoopInv.tombstone
    (h : LoopInv r s) {fd : ℤ} {i : ℕ} {entry : EventEntry} (valid : ¬ fd < 0)
    (dispatching : s.loop.dispatching = true) (lt : i < s.loop.len)
    (found : s.loop.entries[i]? = some entry) (same : entry.fd = fd) :
  LoopInv (r.erase fd) { s with loop := s.loop.replaced i { entry with fd := -1 } }
  := by
  have hfd : 0 ≤ entry.fd := by
    rw [same]
    apply Int.not_lt.mp valid
  rw [← EventLoop.getElem?_active_of_lt lt] at found
  constructor
  · have hperm := ListSet.filterMap_set_perm EventEntry.binding found { entry with fd := -1 }
    have hnew : EventEntry.binding { entry with fd := -1 } = none :=
      EventEntry.binding_of_neg (show (-1 : ℤ) < 0 by decide)
    rw [EventEntry.binding_of_nonneg hfd, hnew, same] at hperm
    apply h.represents.remove
    rw [EventLoop.bindings, EventLoop.active_replaced]
    exact hperm
  · exact h.dispatching
  · intro houtside
    exact absurd houtside (h.dispatching.mp dispatching)

theorem LoopInv.swap
    (h : LoopInv r s) (harrays : s.loop.Arrays) {fd : ℤ} {i : ℕ} {entry last : EventEntry}
    (valid : ¬ fd < 0) (lt : i < s.loop.len) (found : s.loop.entries[i]? = some entry)
    (same : entry.fd = fd) (atLast : s.loop.entries[s.loop.len - 1]? = some last) :
  LoopInv (r.erase fd)
    { s with loop := { s.loop.replaced i last with len := s.loop.len - 1 } }
  := by
  have hfd : 0 ≤ entry.fd := by
    rw [same]
    apply Int.not_lt.mp valid
  have hperm := harrays.active_swap lt found atLast
  constructor
  · have hbindings := hperm.filterMap EventEntry.binding
    rw [List.filterMap_cons_some (EventEntry.binding_of_nonneg hfd), same] at hbindings
    apply h.represents.remove hbindings
  · exact h.dispatching
  · intro houtside entry' hmem
    apply h.clean houtside entry'
    apply hperm.mem_iff.mp (List.mem_cons_of_mem entry hmem)

/-- Moving on in a round changes nothing. -/
theorem LoopInv.moved
    (h : LoopInv r s) {point : LoopPoint} (inside : s.point ≠ .outside)
    (hpoint : point ≠ .outside) :
  LoopInv r { s with point }
  := by
  constructor
  · exact h.represents
  · rw [h.dispatching]
    apply iff_of_true inside hpoint
  · intro houtside
    exact absurd houtside hpoint

/-- Every step keeps the registry. -/
theorem LoopInv.step (h : LoopInv r s) (harrays : s.loop.Arrays) (hstep : LoopStep s e s') :
  LoopInv (e.elim r r.after) s'
  := by
  cases hstep with
  | @addFailed fd events cb userData code loop _ grown failed =>
      have hafter : r.after (.add fd events cb userData code) = r := Registry.after_failed failed
      rw [Option.elim_some, hafter]
      constructor
      · rw [EventLoop.bindings, grown.active_eq]
        exact h.represents
      · change loop.dispatching = true ↔ _
        rw [grown.dispatching_eq]
        exact h.dispatching
      · rw [grown.active_eq]
        exact h.clean
  | addOk _ grown room valid absent => apply h.addOk grown room valid absent
  | @modFailed fd events code _ failed =>
      have hafter : r.after (.mod fd events code) = r := Registry.after_failed failed
      rwa [Option.elim_some, hafter]
  | modOk _ valid lt found same => apply h.modOk valid lt found same
  | @removeFailed fd code _ failed =>
      have hafter : r.after (.remove fd code) = r := Registry.after_failed failed
      rwa [Option.elim_some, hafter]
  | tombstone _ valid dispatching lt found same =>
      apply h.tombstone valid dispatching lt found same
  | swap _ valid _ lt found same atLast => apply h.swap harrays valid lt found same atLast
  | stop => exact ⟨h.represents, h.dispatching, h.clean⟩
  | count => exact h
  | idle => exact ⟨h.represents, h.dispatching, h.clean⟩
  | polled => exact ⟨h.represents, by simp, by simp⟩
  | skip walking => apply h.moved (by simp [walking]) (by simp)
  | invoke walking => apply h.moved (by simp [walking]) (by simp)
  | roundDone =>
      have hsame : EventLoop.Arrays { s.loop with dispatching := false } := { harrays with }
      obtain ⟨hactive, -, hdispatching⟩ := compact_cases hsame
      constructor
      · rw [EventLoop.bindings, hactive, bindings_filter]
        exact h.represents
      · simp [hdispatching]
      · intro _ entry hmem
        rw [hactive, List.mem_filter] at hmem
        simpa using hmem.2
  | callbackReturns inCallback => apply h.moved (by simp [inCallback]) (by simp)

/-- The registrations represent the registry in every state the thread can reach. -/
theorem LoopInv.of_reaches {log : List LoopEvent} (hs : loopMachine.Reaches log s) :
  LoopInv (registered log) s
  := by
  apply loop_invariant hs (I := fun log s => LoopInv (registered log) s)
  · exact ⟨Bindings.represents_empty, by simp [EventLoop.zero], by simp [EventLoop.active,
      EventLoop.zero]⟩
  · intro log s e s' hs h hstep
    rw [registered_append]
    apply h.step (arrays_of_reaches hs) hstep

/-- An event of a log was a step from a reachable state. -/
theorem exists_step_of_split
    {pre post : List LoopEvent} {e : LoopEvent}
    (hs : loopMachine.Reaches (pre ++ e :: post) s) :
  ∃ t t', loopMachine.Reaches pre t ∧ LoopStep t (some e) t'
  := by
  obtain ⟨t, t', ht, ⟨a, hstep⟩, -⟩ := hs.split
  exact ⟨t, t', ht, loopStep_cases (arrays_of_reaches ht) hstep⟩

/-! ### Calls -/

/-- A registration that was found in use has a registered descriptor. -/
theorem LoopInv.mem_of_found
    (h : LoopInv r s) {fd : ℤ} {i : ℕ} {entry : EventEntry} (hfd : 0 ≤ fd)
    (lt : i < s.loop.len) (found : s.loop.entries[i]? = some entry) (same : entry.fd = fd) :
  fd ∈ r
  := by
  by_contra hnot
  rw [← findIndex_eq_none_iff h.represents hfd, findIndex_eq_none] at hnot
  rw [← EventLoop.getElem?_active_of_lt lt] at found
  apply hnot entry (List.mem_of_getElem? found) same

/-- When `event_loop_add` returns `ERR_INVALID_ARG`. -/
theorem LoopInv.add_code
    (h : LoopInv r s) {fd : ℤ} {events : BitVec 32} {cb userData : Ptr} {code : ErrorCode}
    (hstep : LoopStep s (some (.add fd events cb userData code)) s') :
  code = .invalidArg ↔ fd < 0 ∨ cb = nullPtr ∨ events = 0 ∨ fd ∈ r
  := by
  cases hstep with
  | addFailed _ _ _ invalid =>
      rw [invalid]
      by_cases hfd : fd < 0
      · simp [hfd]
      · rw [Ne, findIndex_eq_none_iff h.represents (Int.not_lt.mp hfd), Classical.not_not]
  | addOk _ _ _ valid absent =>
      have hfd : 0 ≤ fd := Int.not_lt.mp fun hneg => valid (Or.inl hneg)
      rw [findIndex_eq_none_iff h.represents hfd] at absent
      constructor
      · intro hcode
        cases hcode
      · rintro (hfd | hcb | hevents | hmem)
        · exact absurd (Or.inl hfd) valid
        · exact absurd (Or.inr (Or.inl hcb)) valid
        · exact absurd (Or.inr (Or.inr hevents)) valid
        · exact absurd hmem absent

/-- When `event_loop_mod` returns `ERR_NOT_FOUND`. -/
theorem LoopInv.mod_code
    (h : LoopInv r s) {fd : ℤ} {events : BitVec 32} {code : ErrorCode}
    (hstep : LoopStep s (some (.mod fd events code)) s') :
  code = .notFound ↔ ¬ (fd < 0 ∨ events = 0) ∧ fd ∉ r
  := by
  cases hstep with
  | modFailed _ _ absent =>
      rw [absent]
      apply and_congr_right
      intro hvalid
      apply findIndex_eq_none_iff h.represents
      apply Int.not_lt.mp fun hneg => hvalid (Or.inl hneg)
  | modOk _ valid lt found same =>
      have hfd : 0 ≤ fd := Int.not_lt.mp fun hneg => valid (Or.inl hneg)
      have hmem := h.mem_of_found hfd lt found same
      simp [hmem]

/-- When `event_loop_remove` returns `ERR_NOT_FOUND`. -/
theorem LoopInv.remove_code
    (h : LoopInv r s) {fd : ℤ} {code : ErrorCode}
    (hstep : LoopStep s (some (.remove fd code)) s') :
  code = .notFound ↔ ¬ fd < 0 ∧ fd ∉ r
  := by
  cases hstep with
  | removeFailed _ _ absent =>
      rw [absent]
      apply and_congr_right
      intro hvalid
      apply findIndex_eq_none_iff h.represents (Int.not_lt.mp hvalid)
  | tombstone _ valid _ lt found same =>
      have hmem := h.mem_of_found (Int.not_lt.mp valid) lt found same
      simp [hmem]
  | swap _ valid _ lt found same =>
      have hmem := h.mem_of_found (Int.not_lt.mp valid) lt found same
      simp [hmem]

/-- In every state the thread can reach: the registrations that are not removed are the
bindings of the map that the successful calls of the log describe, one for each
descriptor; `event_loop_add` returned `ERR_INVALID_ARG` just for invalid arguments and
registered descriptors, and `event_loop_mod` and `event_loop_remove` returned
`ERR_NOT_FOUND` just for descriptors that were not registered; a call that fails leaves
the registrations as they are; both arrays hold at least `cap` elements; and outside
dispatching no removed registration is in use. -/
theorem loop_refines_registry
    (log : List LoopEvent) (s : LoopSystem) (hs : loopMachine.Reaches log s) :
  (s.loop.bindings.map Prod.fst).Nodup
    ∧ (∀ fd reg, (registered log).lookup fd = some reg ↔ (fd, reg) ∈ s.loop.bindings)
    ∧ (∀ (pre : List LoopEvent) (fd : ℤ) (events : BitVec 32) (cb userData : Ptr)
        (code : ErrorCode) (post : List LoopEvent),
        log = pre ++ .add fd events cb userData code :: post →
        (code = .invalidArg ↔
          fd < 0 ∨ cb = nullPtr ∨ events = 0 ∨ fd ∈ registered pre))
    ∧ (∀ (pre : List LoopEvent) (fd : ℤ) (events : BitVec 32) (code : ErrorCode)
        (post : List LoopEvent), log = pre ++ .mod fd events code :: post →
        (code = .notFound ↔ ¬ (fd < 0 ∨ events = 0) ∧ fd ∉ registered pre))
    ∧ (∀ (pre : List LoopEvent) (fd : ℤ) (code : ErrorCode) (post : List LoopEvent),
        log = pre ++ .remove fd code :: post →
        (code = .notFound ↔ ¬ fd < 0 ∧ fd ∉ registered pre))
    ∧ (∀ (a : LoopAct) (s' : LoopSystem) (e : LoopEvent),
        loopStep s a = some (s', some e) → e.Failed → s'.loop.active = s.loop.active)
    ∧ s.loop.cap ≤ s.loop.entries.length ∧ s.loop.cap ≤ s.loop.pollfds.length
    ∧ (s.loop.dispatching = false → ∀ entry ∈ s.loop.active, 0 ≤ entry.fd)
  := by
  have h := LoopInv.of_reaches hs
  have harrays := arrays_of_reaches hs
  refine ⟨h.represents.nodup, h.represents.lookup_iff, ?_, ?_, ?_, ?_, harrays.cap_le_entries,
    harrays.cap_le_pollfds, ?_⟩
  · rintro pre fd events cb userData code post rfl
    obtain ⟨t, t', ht, hstep⟩ := exists_step_of_split hs
    exact (LoopInv.of_reaches ht).add_code hstep
  · rintro pre fd events code post rfl
    obtain ⟨t, t', ht, hstep⟩ := exists_step_of_split hs
    exact (LoopInv.of_reaches ht).mod_code hstep
  · rintro pre fd code post rfl
    obtain ⟨t, t', ht, hstep⟩ := exists_step_of_split hs
    exact (LoopInv.of_reaches ht).remove_code hstep
  · intro a s' e hstep hfailed
    exact (loopStep_cases harrays hstep).active_failed hfailed
  · intro hidle
    apply h.clean
    by_contra hpoint
    rw [h.dispatching.mpr hpoint] at hidle
    cases hidle

/-- A call of `event_loop_add` whose second `realloc` fails, one that succeeds, and one for
the same descriptor. -/
theorem loop_refines_registry_run :
  ∃ log s, loopMachine.Reaches log s ∧ log.length = 3
    ∧ (3, ⟨evRead, 1, nullPtr⟩) ∈ s.loop.bindings
  := by
  have hrun : StateMachine.run loopStep ⟨.zero, .outside⟩
      [.add 3 evRead 1 nullPtr { EventReallocs.clear with pollfds := none },
        .add 3 evRead 1 nullPtr .clear, .add 3 evWrite 2 nullPtr .clear]
    = some
        (⟨{ entries := ⟨3, evRead, 1, nullPtr⟩ :: List.replicate 7 ⟨0, 0, nullPtr, nullPtr⟩
            pollfds := List.replicate 8 ⟨0, 0, 0⟩
            len := 1
            cap := 8
            running := false
            dispatching := false }, .outside⟩,
          [.add 3 evRead 1 nullPtr .nomem, .add 3 evRead 1 nullPtr .ok,
            .add 3 evWrite 2 nullPtr .invalidArg]) := rfl
  have hs : loopMachine.Reaches _ _ := StateMachine.reaches_of_run rfl hrun
  refine ⟨_, _, hs, rfl, ?_⟩
  apply ((loop_refines_registry _ _ hs).2.1 3 ⟨evRead, 1, nullPtr⟩).mp
  rfl

end CTemplate

import CTemplate.Networking.EventLoop.Registry

/-!
# Dispatching

In a round every registration that was in use when `poll` was called has one turn, in the
order of the array.  Until the end of the round these registrations and the structures for
`poll` keep their places, whatever the callbacks do: a removed registration is marked, and
new ones come behind.  So a turn invokes the callback that was registered when `poll` was
called, just when `poll` reported something and the registration was not removed before.
-/

namespace CTemplate

/-! ### Flags -/

/-- The flags that `poll` reports for an open descriptor. -/
def pollFlags : BitVec 16 := pollIn ||| pollOut ||| pollErr ||| pollHup

theorem pollToReady_eq_zero {revents : BitVec 16} :
  pollToReady revents = 0 ↔
    revents &&& (pollIn ||| pollHup ||| pollErr) = 0 ∧ revents &&& pollOut = 0
  := by
  unfold pollToReady
  split <;> split <;> simp_all [evRead, evWrite]

/-- A callback is told something just when `poll` reported something. -/
theorem pollToReady_eq_zero_iff {revents : BitVec 16} (h : revents &&& pollFlags = revents) :
  pollToReady revents = 0 ↔ revents = 0
  := by
  have hflags : pollIn ||| pollHup ||| pollErr ||| pollOut = pollFlags := by decide
  have hor := BitVec.or_eq_zero_iff (x := revents &&& (pollIn ||| pollHup ||| pollErr))
    (y := revents &&& pollOut)
  rw [← BitVec.and_or_distrib_left, hflags, h] at hor
  rw [pollToReady_eq_zero]
  apply hor.symm

/-- A callback is told that it can write just when `poll` reported so. -/
theorem pollToReady_and_evWrite {revents : BitVec 16} :
  pollToReady revents &&& evWrite = 0 ↔ revents &&& pollOut = 0
  := by
  unfold pollToReady
  split <;> split <;> simp_all [evRead, evWrite]

/-- `poll` is asked about writing just when the mask has `EV_WRITE`. -/
theorem interestToPoll_and_pollOut {events : BitVec 32} :
  interestToPoll events &&& pollOut = 0 ↔ events &&& evWrite = 0
  := by
  unfold interestToPoll
  split <;> split <;> simp_all [pollIn, pollOut]

/-! ### The call of `poll` -/

/-- What `poll` is given and reports when the registered descriptors are `r`. -/
structure Polled (r : Registry) (entries : List EventEntry) (pollfds : List PollFd)
    (revents : List (BitVec 16)) : Prop where
  nodup : (entries.map EventEntry.fd).Nodup
  lookup_iff : ∀ fd reg, r.lookup fd = some reg ↔
    (⟨fd, reg.events, reg.cb, reg.userData⟩ : EventEntry) ∈ entries
  nonneg : ∀ entry ∈ entries, 0 ≤ entry.fd
  pollfds_eq : pollfds = entries.map fun entry =>
    ⟨entry.fd, interestToPoll entry.events, 0⟩
  length_eq : revents.length = entries.length

variable {r : Registry} {s s' : LoopSystem} {e : Option LoopEvent} {entries : List EventEntry}
  {pollfds : List PollFd} {revents : List (BitVec 16)} {mid : List LoopEvent}

/-- The structures in use that `event_loop_poll_once` fills in. -/
theorem take_fillPollfds {loop : EventLoop} (h : loop.Arrays) :
  (fillPollfds loop).take loop.len
    = loop.active.map fun entry => ⟨entry.fd, interestToPoll entry.events, 0⟩
  := by
  apply List.ext_getElem?
  intro i
  rw [List.getElem?_take, List.getElem?_map, EventLoop.getElem?_active]
  split
  · rename_i hi
    have hlt : i < loop.entries.length :=
      Nat.lt_of_lt_of_le hi (Nat.le_trans h.len_le h.cap_le_entries)
    rw [(fillPollfds_cases h).2 i _ hi (List.getElem?_eq_getElem hlt),
      List.getElem?_eq_getElem hlt]
    rfl
  · rfl

/-- When `poll` is called the registrations in use are the registered descriptors. -/
theorem LoopInv.polled
    (h : LoopInv r s) (harrays : s.loop.Arrays)
    (hstep : LoopStep s (some (.polled entries pollfds revents)) s') :
  Polled r entries pollfds revents
  := by
  cases hstep with
  | polled outside length =>
      have hnonneg := h.clean outside
      have hbindings : s.loop.bindings
          = s.loop.active.map fun entry => (entry.fd, ⟨entry.events, entry.cb, entry.userData⟩)
        := by
        rw [EventLoop.bindings, ← List.filterMap_eq_map]
        apply List.filterMap_congr
        intro entry hmem
        apply EventEntry.binding_of_nonneg (hnonneg entry hmem)
      constructor
      · have hnodup := h.represents.nodup
        rwa [hbindings, List.map_map] at hnodup
      · intro fd reg
        rw [h.represents.lookup_iff, EventLoop.mem_bindings, and_iff_right_iff_imp]
        apply hnonneg
      · exact hnonneg
      · apply take_fillPollfds harrays
      · rw [length, harrays.length_active]

/-! ### Rounds -/

/-- The turn that an event is. -/
def LoopEvent.turnIndex : LoopEvent → Option ℕ
  | .turn i _ => some i
  | _ => none

/-- The turns in a log. -/
def turns (log : List LoopEvent) : List ℕ :=
  log.filterMap LoopEvent.turnIndex

/-- The number of turns of the round, and how many of them are taken. -/
def LoopPoint.progress : LoopPoint → Option (ℕ × ℕ)
  | .outside => none
  | .walking count i => some (count, i)
  | .inCallback count i => some (count, i + 1)

/-- A round for the registrations `entries` after the events `mid`: the turns were taken in
order, and the registrations and the results are in their places, except that removed
registrations are marked and callbacks may have changed masks. -/
structure RoundInv (entries : List EventEntry) (revents : List (BitVec 16))
    (mid : List LoopEvent) (s : LoopSystem) : Prop where
  progress : ∃ k ≤ entries.length, s.point.progress = some (entries.length, k)
    ∧ turns mid = List.range k
  length_eq : revents.length = entries.length
  length_le : entries.length ≤ s.loop.len
  entry_at : ∀ (i : ℕ) (entry : EventEntry), entries[i]? = some entry →
    ∃ events, s.loop.entries[i]? = some
      { fd := if .remove entry.fd .ok ∈ mid then -1 else entry.fd
        events := events
        cb := entry.cb
        userData := entry.userData }
  pollfd_at : ∀ (i : ℕ) (revent : BitVec 16), revents[i]? = some revent →
    ∃ p, s.loop.pollfds[i]? = some p ∧ p.revents = revent

/-- Two registrations in use do not have the same descriptor. -/
theorem LoopInv.index_unique
    (h : LoopInv r s) {i j : ℕ} {entry entry' : EventEntry} (hi : i < s.loop.len)
    (hj : j < s.loop.len) (found : s.loop.entries[i]? = some entry)
    (found' : s.loop.entries[j]? = some entry') (hfd : 0 ≤ entry.fd)
    (same : entry.fd = entry'.fd) :
  i = j
  := by
  have hnodup := h.represents.nodup
  rw [EventLoop.bindings, List.map_filterMap, List.Nodup, List.pairwise_filterMap,
    List.pairwise_iff_getElem] at hnodup
  rw [← EventLoop.getElem?_active_of_lt hi, List.getElem?_eq_some_iff] at found
  rw [← EventLoop.getElem?_active_of_lt hj, List.getElem?_eq_some_iff] at found'
  obtain ⟨hi, rfl⟩ := found
  obtain ⟨hj, rfl⟩ := found'
  have hbinding := EventEntry.binding_of_nonneg hfd
  rw [same] at hfd
  have hbinding' := EventEntry.binding_of_nonneg hfd
  rcases Nat.lt_trichotomy i j with hlt | heq | hlt
  · exact absurd same (hnodup i j hi hj hlt _ (by rw [hbinding]; rfl) _ (by rw [hbinding']; rfl))
  · exact heq
  · exact absurd same.symm
      (hnodup j i hj hi hlt _ (by rw [hbinding']; rfl) _ (by rw [hbinding]; rfl))

theorem turns_append (log log' : List LoopEvent) :
  turns (log ++ log') = turns log ++ turns log'
  := List.filterMap_append

/-- A step that is no turn and removes nothing keeps the round. -/
theorem RoundInv.quiet
    (h : RoundInv entries revents mid s) (hturn : turns e.toList = [])
    (hremove : ∀ fd, .remove fd .ok ∉ e.toList)
    (hprogress : s'.point.progress = s.point.progress) (hlen : s.loop.len ≤ s'.loop.len)
    (hentries : ∀ i < s.loop.len, ∀ entry, s.loop.entries[i]? = some entry →
      ∃ events, s'.loop.entries[i]? = some { entry with events })
    (hpollfds : ∀ i < s.loop.len, s'.loop.pollfds[i]? = s.loop.pollfds[i]?) :
  RoundInv entries revents (mid ++ e.toList) s'
  := by
  have hlength_le := h.length_le
  constructor
  · rw [hprogress, turns_append, hturn, List.append_nil]
    exact h.progress
  · exact h.length_eq
  · apply Nat.le_trans h.length_le hlen
  · intro i entry hentry
    have hi : i < entries.length := (List.getElem?_eq_some_iff.mp hentry).1
    obtain ⟨events, hevents⟩ := h.entry_at i entry hentry
    obtain ⟨events', hevents'⟩ := hentries i (by omega) _ hevents
    use events'
    have hmem : .remove entry.fd .ok ∈ mid ++ e.toList ↔ .remove entry.fd .ok ∈ mid := by
      rw [List.mem_append, or_iff_left (hremove entry.fd)]
    simp only [hmem]
    exact hevents'
  · intro i revent hrevent
    have hi : i < revents.length := (List.getElem?_eq_some_iff.mp hrevent).1
    rw [h.length_eq] at hi
    rw [hpollfds i (by omega)]
    apply h.pollfd_at i revent hrevent

/-- A step that leaves the loop as it is, is no turn and removes nothing keeps the
round. -/
theorem RoundInv.idle
    (h : RoundInv entries revents mid s) (hturn : turns e.toList = [])
    (hremove : ∀ fd, .remove fd .ok ∉ e.toList) (hloop : s'.loop = s.loop)
    (hprogress : s'.point.progress = s.point.progress) :
  RoundInv entries revents (mid ++ e.toList) s'
  := by
  apply h.quiet hturn hremove hprogress
  · rw [hloop]
  · intro i _ entry found
    use entry.events
    rw [hloop, found]
  · intro i _
    rw [hloop]

/-- A turn keeps the round. -/
theorem RoundInv.turned
    (h : RoundInv entries revents mid s) {count i : ℕ} (walking : s.point = .walking count i)
    (hi : i < count) (invoked : Option Invocation) {point : LoopPoint}
    (hpoint : point.progress = some (count, i + 1)) :
  RoundInv entries revents (mid ++ [.turn i invoked]) { s with point }
  := by
  obtain ⟨k, hk, hprogress, hturns⟩ := h.progress
  rw [walking] at hprogress
  cases hprogress
  constructor
  · refine ⟨i + 1, hi, hpoint, ?_⟩
    rw [turns_append, hturns, List.range_succ]
    rfl
  · exact h.length_eq
  · exact h.length_le
  · intro j entry hentry
    have hmem : .remove entry.fd .ok ∈ mid ++ [.turn i invoked] ↔ .remove entry.fd .ok ∈ mid := by
      simp
    simp only [hmem]
    apply h.entry_at j entry hentry
  · exact h.pollfd_at

/-- A removal marks the registration and no other. -/
theorem RoundInv.tombstone
    (h : RoundInv entries revents mid s) (hinv : LoopInv r s) {fd : ℤ} {i : ℕ}
    {entry : EventEntry} (valid : ¬ fd < 0) (lt : i < s.loop.len)
    (found : s.loop.entries[i]? = some entry) (same : entry.fd = fd) :
  RoundInv entries revents (mid ++ [.remove fd .ok])
    { s with loop := s.loop.replaced i { entry with fd := -1 } }
  := by
  have hlt : i < s.loop.entries.length := (List.getElem?_eq_some_iff.mp found).1
  constructor
  · have hturns : turns (mid ++ [.remove fd .ok]) = turns mid := by
      rw [turns_append]
      apply List.append_nil
    rw [hturns]
    exact h.progress
  · exact h.length_eq
  · exact h.length_le
  · intro j entry' hentry'
    have hj : j < entries.length := (List.getElem?_eq_some_iff.mp hentry').1
    have hjlen : j < s.loop.len := Nat.lt_of_lt_of_le hj h.length_le
    obtain ⟨events, hevents⟩ := h.entry_at j entry' hentry'
    use events
    change (s.loop.entries.set i { entry with fd := -1 })[j]? = _
    by_cases hij : i = j
    · -- the marked registration was in its place
      subst hij
      rw [found, Option.some.injEq] at hevents
      have hfd : entry.fd = if .remove entry'.fd .ok ∈ mid then -1 else entry'.fd :=
        congrArg EventEntry.fd hevents
      split at hfd
      · omega
      · rw [List.getElem?_set_self hlt, if_pos (by simp [← hfd, same]), hevents]
    · -- another registration with the descriptor was marked before
      have hmem : .remove entry'.fd .ok ∈ mid ++ [.remove fd .ok] ↔
          .remove entry'.fd .ok ∈ mid := by
        rw [List.mem_append, List.mem_singleton, or_iff_left_iff_imp]
        intro hremove
        by_contra hnot
        rw [if_neg hnot] at hevents
        cases hremove
        apply hij
        apply hinv.index_unique lt hjlen found hevents (by omega) same
      simp only [hmem]
      rw [List.getElem?_set_ne hij, hevents]
  · exact h.pollfd_at

/-- Changing the mask of a registration changes at most the masks. -/
theorem EventLoop.exists_replaced_events
    {loop : EventLoop} {i j : ℕ} {entry entry' : EventEntry} {events : BitVec 32}
    (found : loop.entries[i]? = some entry) (found' : loop.entries[j]? = some entry') :
  ∃ events', (loop.replaced i { entry with events }).entries[j]?
    = some { entry' with events := events' }
  := by
  rw [EventLoop.replaced]
  by_cases hij : i = j
  · subst hij
    rw [found] at found'
    cases found'
    use events
    apply List.getElem?_set_self (List.getElem?_eq_some_iff.mp found).1
  · use entry'.events
    rw [List.getElem?_set_ne hij, found']

/-- Every step but the end of the round keeps it. -/
theorem RoundInv.step
    (h : RoundInv entries revents mid s) (hinv : LoopInv r s) (hstep : LoopStep s e s')
    (hgoing : e ≠ some .roundDone) :
  RoundInv entries revents (mid ++ e.toList) s'
  := by
  have hinside : s.point ≠ .outside := by
    obtain ⟨k, -, hprogress, -⟩ := h.progress
    intro houtside
    rw [houtside] at hprogress
    cases hprogress
  cases hstep with
  | addFailed _ grown =>
      apply h.quiet
      · rfl
      · simp
      · rfl
      · apply Nat.le_of_eq grown.len_eq.symm
      · intro i hi entry found
        use entry.events
        rw [grown.entries_eq i hi, found]
      · exact grown.pollfds_eq
  | @addOk fd events cb userData loop _ grown =>
      apply h.quiet
      · rfl
      · simp
      · rfl
      · apply Nat.le_succ_of_le (Nat.le_of_eq grown.len_eq.symm)
      · intro i hi entry found
        use entry.events
        change (loop.entries.set loop.len ⟨fd, events, cb, userData⟩)[i]? = _
        have hlen := grown.len_eq
        rw [List.getElem?_set_ne (by omega), grown.entries_eq i hi, found]
      · exact grown.pollfds_eq
  | modFailed => apply h.idle rfl (by simp) rfl rfl
  | @modOk fd events i entry _ _ lt found =>
      apply h.quiet
      · rfl
      · simp
      · rfl
      · apply Nat.le_refl
      · intro j _ entry' found'
        apply EventLoop.exists_replaced_events found found'
      · intro j hj
        rfl
  | removeFailed _ failed =>
      apply h.idle rfl _ rfl rfl
      intro fd hmem
      rw [Option.toList_some, List.mem_singleton] at hmem
      cases hmem
      apply failed rfl
  | tombstone _ valid _ lt found same => apply h.tombstone hinv valid lt found same
  | swap _ _ dispatching =>
      rw [hinv.dispatching.mpr hinside] at dispatching
      cases dispatching
  | stop =>
      apply h.quiet
      · rfl
      · simp
      · rfl
      · apply Nat.le_refl
      · intro i hi entry found
        use entry.events
      · intro i hi
        rfl
  | count => exact h.idle rfl (by simp) rfl rfl
  | idle outside => exact absurd outside hinside
  | polled outside => exact absurd outside hinside
  | skip walking lt => exact h.turned walking lt none rfl
  | invoke walking lt => exact h.turned walking lt _ rfl
  | roundDone => exact absurd rfl hgoing
  | @callbackReturns count i inCallback =>
      have hprogress : (LoopPoint.walking count (i + 1)).progress = s.point.progress := by
        rw [inCallback]
        rfl
      exact h.idle rfl (by simp) rfl hprogress

/-- The round that begins when `poll` has reported something. -/
theorem RoundInv.start
    (harrays : s.loop.Arrays) (hstep : LoopStep s (some (.polled entries pollfds revents)) s') :
  RoundInv entries revents [] s'
  := by
  cases hstep with
  | polled _ length =>
      have hlength := harrays.length_active
      constructor
      · use 0, Nat.zero_le _
        rw [hlength]
        exact ⟨rfl, rfl⟩
      · rw [length, hlength]
      · apply Nat.le_of_eq hlength
      · intro i entry hentry
        use entry.events
        have hi : i < s.loop.active.length := (List.getElem?_eq_some_iff.mp hentry).1
        rw [hlength] at hi
        rw [EventLoop.getElem?_active_of_lt hi] at hentry
        exact hentry
      · intro i revent hrevent
        have hi : i < revents.length := (List.getElem?_eq_some_iff.mp hrevent).1
        rw [length] at hi
        have hlt : i < (fillPollfds s.loop).length := by
          rw [(fillPollfds_cases harrays).1]
          have := harrays.len_le
          have := harrays.cap_le_pollfds
          omega
        refine ⟨_, by rw [getElem?_storeRevents, List.getElem?_eq_getElem hlt]; rfl, ?_⟩
        rw [hrevent]
        rfl

/-- A state in a round. -/
theorem RoundInv.of_reaches
    {pre : List LoopEvent}
    (hs : loopMachine.Reaches (pre ++ .polled entries pollfds revents :: mid) s)
    (hmid : .roundDone ∉ mid) :
  RoundInv entries revents mid s
  := by
  obtain ⟨t, t', ht, hpolled, hround⟩ := hs.split
  have ht' := ht.snoc hpolled
  apply hround.invariant (I := fun log u => .roundDone ∉ log → RoundInv entries revents log u)
    _ _ hmid
  · intro _
    obtain ⟨a, hpolled⟩ := hpolled
    have harrays := arrays_of_reaches ht
    apply RoundInv.start harrays (loopStep_cases harrays hpolled)
  · rintro log u e u' hu h ⟨a, hstep⟩ hlog
    have hreaches := ht'.trans hu
    rw [List.mem_append, not_or] at hlog
    apply (h hlog.1).step (LoopInv.of_reaches hreaches)
    · apply loopStep_cases (arrays_of_reaches hreaches) hstep
    · rintro rfl
      apply hlog.2
      simp

/-- What `poll` was given and reported in a run. -/
theorem Polled.of_reaches
    {pre post : List LoopEvent}
    (hs : loopMachine.Reaches (pre ++ .polled entries pollfds revents :: post) s) :
  Polled (registered pre) entries pollfds revents
  := by
  obtain ⟨t, t', ht, hstep⟩ := exists_step_of_split hs
  apply (LoopInv.of_reaches ht).polled (arrays_of_reaches ht) hstep

/-! ### Turns -/

/-- What a turn of a round invokes. -/
theorem RoundInv.invoked_eq
    (h : RoundInv entries revents mid s) (hnonneg : ∀ entry ∈ entries, 0 ≤ entry.fd) {i : ℕ}
    {invoked : Option Invocation} (hstep : LoopStep s (some (.turn i invoked)) s') :
  ∃ entry revent, entries[i]? = some entry ∧ revents[i]? = some revent
    ∧ invoked = if pollToReady revent ≠ 0 ∧ .remove entry.fd .ok ∉ mid then
        some ⟨entry.cb, entry.fd, pollToReady revent, entry.userData⟩ else none
  := by
  obtain ⟨count, entry', p, hwalking, hlt, hentry', hp, hinvoked⟩ : ∃ count entry p,
      s.point = .walking count i ∧ i < count ∧ s.loop.entries[i]? = some entry
        ∧ s.loop.pollfds[i]? = some p ∧ invoked = pollTurn entry p := by
    cases hstep with
    | skip walking lt hentry hp nothing => exact ⟨_, _, _, walking, lt, hentry, hp, nothing.symm⟩
    | invoke walking lt hentry hp invokes => exact ⟨_, _, _, walking, lt, hentry, hp, invokes.symm⟩
  obtain ⟨k, -, hprogress, -⟩ := h.progress
  rw [hwalking] at hprogress
  cases hprogress
  have hlt' : i < revents.length := by
    rw [h.length_eq]
    exact hlt
  obtain ⟨events, hevents⟩ := h.entry_at i _ (List.getElem?_eq_getElem hlt)
  obtain ⟨p', hp', hrevents⟩ := h.pollfd_at i _ (List.getElem?_eq_getElem hlt')
  have hfd := hnonneg _ (List.getElem_mem hlt)
  rw [hentry', Option.some.injEq] at hevents
  rw [hp, Option.some.injEq] at hp'
  subst hevents hp' hinvoked
  refine ⟨_, _, List.getElem?_eq_getElem hlt, List.getElem?_eq_getElem hlt', ?_⟩
  rw [← hrevents]
  by_cases hremoved : .remove entries[i].fd .ok ∈ mid
  · simp [pollTurn, hremoved]
  · by_cases hready : pollToReady p.revents = 0
    · simp [pollTurn, hready]
    · simp [pollTurn, hremoved, Int.not_lt.mpr hfd]

/-- A round that is over has taken a turn for every registration. -/
theorem RoundInv.turns_eq_of_done
    (h : RoundInv entries revents mid s) (hstep : LoopStep s (some .roundDone) s') :
  turns mid = List.range entries.length
  := by
  cases hstep with
  | roundDone walking last =>
      obtain ⟨k, hk, hprogress, hturns⟩ := h.progress
      rw [walking] at hprogress
      cases hprogress
      rw [hturns, Nat.le_antisymm hk last]

/-- The thread can take the next turn. -/
theorem RoundInv.isSome_turn
    (h : RoundInv entries revents mid s) {count i : ℕ} (walking : s.point = .walking count i) :
  (loopStep s .turn).isSome = true
  := by
  obtain ⟨k, -, hprogress, -⟩ := h.progress
  rw [walking] at hprogress
  cases hprogress
  simp only [loopStep, walking]
  split
  · rename_i hlt
    have hlt' : i < revents.length := by
      rw [h.length_eq]
      exact hlt
    obtain ⟨events, hevents⟩ := h.entry_at i _ (List.getElem?_eq_getElem hlt)
    obtain ⟨p, hp, -⟩ := h.pollfd_at i _ (List.getElem?_eq_getElem hlt')
    simp only [hevents, hp, Option.isSome_some]
  · rfl

/-- In a round of any run the registrations `entries` that were in use when `poll` was
called are the registered descriptors, each once, and have one turn each in this order.  A
turn invokes the callback of its registration, with the descriptor and the user data of
the registration, just when `poll` reported something for it and no call in the round has
removed it; nothing else invokes a callback.  The round goes on until every registration
had its turn. -/
theorem round_invokes_registered
    (pre mid post : List LoopEvent) (entries : List EventEntry) (pollfds : List PollFd)
    (revents : List (BitVec 16)) (s : LoopSystem)
    (hs : loopMachine.Reaches (pre ++ .polled entries pollfds revents :: (mid ++ post)) s)
    (hmid : .roundDone ∉ mid) (hflags : ∀ revent ∈ revents, revent &&& pollFlags = revent) :
  (entries.map EventEntry.fd).Nodup
    ∧ (∀ fd reg, (registered pre).lookup fd = some reg ↔
        (⟨fd, reg.events, reg.cb, reg.userData⟩ : EventEntry) ∈ entries)
    ∧ revents.length = entries.length
    ∧ (∃ k ≤ entries.length, turns mid = List.range k)
    ∧ (∀ (before : List LoopEvent) (i : ℕ) (invoked : Option Invocation)
        (after : List LoopEvent), mid = before ++ .turn i invoked :: after →
        ∃ entry revent, entries[i]? = some entry ∧ revents[i]? = some revent
          ∧ invoked = if revent ≠ 0 ∧ .remove entry.fd .ok ∉ before then
              some ⟨entry.cb, entry.fd, pollToReady revent, entry.userData⟩ else none)
    ∧ (∀ rest : List LoopEvent, post = .roundDone :: rest → turns mid = List.range entries.length)
    ∧ (∀ count i : ℕ, post = [] → s.point = .walking count i → (loopStep s .turn).isSome = true)
  := by
  have hpolled := Polled.of_reaches hs
  rw [← List.cons_append, ← List.append_assoc] at hs
  obtain ⟨t, ht, -⟩ := hs.of_append
  have hround := RoundInv.of_reaches ht hmid
  refine ⟨hpolled.nodup, hpolled.lookup_iff, hpolled.length_eq, ?_, ?_, ?_, ?_⟩
  · obtain ⟨k, hk, -, hturns⟩ := hround.progress
    use k, hk, hturns
  · rintro before i invoked after rfl
    rw [← List.cons_append, ← List.append_assoc] at ht
    obtain ⟨u, u', hu, hstep⟩ := exists_step_of_split ht
    have hbefore : .roundDone ∉ before := fun hmem => hmid (List.mem_append_left _ hmem)
    obtain ⟨entry, revent, hentry, hrevent, hinvoked⟩ :=
      (RoundInv.of_reaches hu hbefore).invoked_eq hpolled.nonneg hstep
    use entry, revent, hentry, hrevent
    have hready := pollToReady_eq_zero_iff (hflags _ (List.mem_of_getElem? hrevent))
    simp only [hinvoked, ne_eq, hready]
  · rintro rest rfl
    obtain ⟨u, u', hu, hstep⟩ := exists_step_of_split hs
    apply (RoundInv.of_reaches hu hmid).turns_eq_of_done hstep
  · rintro count i rfl hwalking
    rw [List.append_nil] at hs
    apply (RoundInv.of_reaches hs hmid).isSome_turn hwalking

/-- A callback removes the next descriptor and adds it again: its turn invokes nothing. -/
theorem round_invokes_registered_run :
  ∃ pre mid s, loopMachine.Reaches
      (pre ++ .polled [⟨3, evRead, 1, nullPtr⟩, ⟨4, evRead, 2, nullPtr⟩]
        [⟨3, pollIn, 0⟩, ⟨4, pollIn, 0⟩] [pollIn, pollIn] :: (mid ++ [.roundDone])) s
    ∧ .remove 4 .ok ∈ mid ∧ .add 4 evRead 2 nullPtr .ok ∈ mid ∧ turns mid = [0, 1]
  := by
  have hrun : StateMachine.run loopStep ⟨.zero, .outside⟩
      [.add 3 evRead 1 nullPtr .clear, .add 4 evRead 2 nullPtr .clear,
        .poll (.ready [pollIn, pollIn]), .turn, .remove 4, .add 4 evRead 2 nullPtr .clear,
        .callbackReturns, .turn, .turn]
    = some
        (⟨{ entries := ⟨3, evRead, 1, nullPtr⟩ :: ⟨4, evRead, 2, nullPtr⟩
              :: ⟨4, evRead, 2, nullPtr⟩ :: List.replicate 5 ⟨0, 0, nullPtr, nullPtr⟩
            pollfds := ⟨3, pollIn, pollIn⟩ :: ⟨4, pollIn, pollIn⟩
              :: List.replicate 6 ⟨0, 0, 0⟩
            len := 2
            cap := 8
            running := false
            dispatching := false }, .outside⟩,
          [LoopEvent.add 3 evRead 1 nullPtr .ok, LoopEvent.add 4 evRead 2 nullPtr .ok]
            ++ LoopEvent.polled [⟨3, evRead, 1, nullPtr⟩, ⟨4, evRead, 2, nullPtr⟩]
              [⟨3, pollIn, 0⟩, ⟨4, pollIn, 0⟩] [pollIn, pollIn]
            :: ([LoopEvent.turn 0 (some ⟨1, 3, evRead, nullPtr⟩), LoopEvent.remove 4 .ok,
              LoopEvent.add 4 evRead 2 nullPtr .ok, LoopEvent.turn 1 none]
              ++ [LoopEvent.roundDone])) := rfl
  have hs : loopMachine.Reaches _ _ := StateMachine.reaches_of_run rfl hrun
  have hflags : ∀ revent ∈ [pollIn, pollIn], revent &&& pollFlags = revent := by
    intro revent hmem
    obtain rfl : revent = pollIn := by simpa using hmem
    rfl
  refine ⟨_, _, _, hs, by simp, by simp, ?_⟩
  apply (round_invokes_registered _ _ _ _ _ _ _ hs (by simp) hflags).2.2.2.2.2.1 [] rfl

end CTemplate

import CTemplate.Networking.EventLoop.Registry

/-!
# Counting registrations

`event_loop_count` returns the number of registrations in use, among them those that
callbacks of the current round removed.  So it returns the number of registered
descriptors just when no call in the current round has removed one.
-/

namespace CTemplate

variable {s s' : LoopSystem} {e : Option LoopEvent} {log : List LoopEvent}

/-- The call removed a descriptor. -/
def LoopEvent.isRemoval : LoopEvent → Bool
  | .remove _ .ok => true
  | _ => false

/-- The registration was removed. -/
def EventEntry.isRemoved (entry : EventEntry) : Bool :=
  decide (entry.fd < 0)

/-- The number of registrations in use is that of the bindings and the removed ones. -/
theorem EventLoop.length_active_eq (loop : EventLoop) :
  loop.active.length = loop.bindings.length + loop.active.countP EventEntry.isRemoved
  := by
  have hsome : loop.bindings.length
      = loop.active.countP fun entry => !entry.isRemoved := by
    rw [EventLoop.bindings, List.length_filterMap_eq_countP]
    apply List.countP_congr
    intro entry _
    rw [EventEntry.binding, EventEntry.isRemoved]
    split <;> simp_all
  have hlength := List.length_eq_countP_add_countP EventEntry.isRemoved (l := loop.active)
  simp only [Bool.not_eq_true, Bool.decide_eq_false] at hlength
  omega

theorem roundOf_append (log : List LoopEvent) (e : Option LoopEvent) :
  roundOf (log ++ e.toList) = e.elim (roundOf log) (roundAfter (roundOf log))
  := by
  cases e with
  | none => apply congrArg roundOf (List.append_nil log)
  | some e =>
      rw [roundOf, List.foldl_append]
      rfl

/-- The thread is in a round just when the log is, and the removed registrations in use
are as many as the calls in the round that removed one. -/
structure CountInv (round : Option (List LoopEvent)) (s : LoopSystem) : Prop where
  isSome_iff : round.isSome = true ↔ s.point ≠ .outside
  countP_eq : s.loop.active.countP EventEntry.isRemoved
    = (round.getD []).countP LoopEvent.isRemoval

/-- An event that removes no descriptor and neither begins nor ends a round. -/
theorem CountInv.quiet
    {round : Option (List LoopEvent)} (h : CountInv round s) {e : LoopEvent}
    (hround : roundAfter round e = round.map fun mid => mid ++ [e])
    (hremoval : e.isRemoval = false) (hpoint : s'.point ≠ .outside ↔ s.point ≠ .outside)
    (hcount : s'.loop.active.countP EventEntry.isRemoved
      = s.loop.active.countP EventEntry.isRemoved) :
  CountInv (roundAfter round e) s'
  := by
  rw [hround]
  constructor
  · rw [Option.isSome_map, h.isSome_iff, hpoint]
  · rw [hcount, h.countP_eq]
    cases round <;> simp [hremoval]

/-- Outside rounds no registration in use is removed. -/
theorem LoopInv.countInv {r : Registry} (h : LoopInv r s) (outside : s.point = .outside) :
  CountInv none s
  := by
  constructor
  · simp [outside]
  · change _ = 0
    rw [List.countP_eq_zero]
    intro entry hmem
    simpa [EventEntry.isRemoved] using h.clean outside entry hmem

/-- A registration that is marked counts as removed. -/
theorem CountInv.tombstone
    {mid : List LoopEvent} (h : CountInv (some mid) s) {fd : ℤ} {i : ℕ} {entry : EventEntry}
    (valid : ¬ fd < 0) (lt : i < s.loop.len) (found : s.loop.entries[i]? = some entry)
    (same : entry.fd = fd) :
  CountInv (some (mid ++ [.remove fd .ok]))
    { s with loop := s.loop.replaced i { entry with fd := -1 } }
  := by
  rw [← EventLoop.getElem?_active_of_lt lt] at found
  have hcount := ListSet.countP_set_add EventEntry.isRemoved found { entry with fd := -1 }
  have hold : entry.isRemoved = false := by
    rw [EventEntry.isRemoved, same]
    simpa using valid
  have hnew : EventEntry.isRemoved { entry with fd := -1 } = true := rfl
  have hlog := h.countP_eq
  rw [hold, hnew] at hcount
  constructor
  · exact h.isSome_iff
  · rw [EventLoop.active_replaced]
    simp only [Option.getD_some, List.countP_append] at hlog ⊢
    simp only [Bool.false_eq_true, if_false, if_true, Nat.add_zero] at hcount
    rw [hcount, hlog]
    rfl

/-- A registration that is appended does not count as removed. -/
theorem CountInv.append
    {round : Option (List LoopEvent)} (h : CountInv round s) {loop : EventLoop}
    (grown : loop.Extends s.loop) (room : loop.len < loop.cap) (entry : EventEntry)
    (valid : ¬ entry.fd < 0) :
  CountInv (roundAfter round (.add entry.fd entry.events entry.cb entry.userData .ok))
    { s with loop := { loop with
        entries := loop.entries.set loop.len entry
        len := loop.len + 1 } }
  := by
  apply h.quiet rfl rfl
  · rfl
  · rw [grown.arrays.active_append room entry, grown.active_eq, List.countP_append]
    simp [EventEntry.isRemoved, valid]

/-- Other events for a registration do not count. -/
theorem CountInv.modify
    {round : Option (List LoopEvent)} (h : CountInv round s) {i : ℕ} {entry : EventEntry}
    (fd : ℤ) (events : BitVec 32) (lt : i < s.loop.len)
    (found : s.loop.entries[i]? = some entry) :
  CountInv (roundAfter round (.mod fd events .ok))
    { s with loop := s.loop.replaced i { entry with events } }
  := by
  apply h.quiet rfl rfl
  · rfl
  · rw [← EventLoop.getElem?_active_of_lt lt] at found
    have hcount := ListSet.countP_set_add EventEntry.isRemoved found { entry with events }
    have hremoved : EventEntry.isRemoved { entry with events } = entry.isRemoved := rfl
    rw [hremoved] at hcount
    rw [EventLoop.active_replaced]
    apply Nat.add_right_cancel hcount

/-- Removed registrations stay in use only within rounds. -/
theorem CountInv.outside_of_not_dispatching
    {r : Registry} {round : Option (List LoopEvent)} (h : CountInv round s) (hinv : LoopInv r s)
    (dispatching : s.loop.dispatching = false) :
  s.point = .outside ∧ round = none
  := by
  have houtside : s.point = .outside := by
    by_contra hpoint
    rw [hinv.dispatching.mpr hpoint] at dispatching
    cases dispatching
  use houtside
  cases round with
  | none => rfl
  | some mid => exact absurd houtside (h.isSome_iff.mp rfl)

/-- Every step keeps the count. -/
theorem CountInv.step
    {r : Registry} {round : Option (List LoopEvent)} (h : CountInv round s) (hinv : LoopInv r s)
    (harrays : s.loop.Arrays) (hstep : LoopStep s e s') :
  CountInv (e.elim round (roundAfter round)) s'
  := by
  have hinv' := hinv.step harrays hstep
  cases hstep with
  | @addFailed _ _ _ _ code _ _ grown =>
      rw [Option.elim_some]
      apply h.quiet rfl
      · cases code <;> rfl
      · rfl
      · rw [grown.active_eq]
  | @addOk fd events cb userData loop _ grown room valid =>
      apply h.append grown room ⟨fd, events, cb, userData⟩
      intro hneg
      apply valid (.inl hneg)
  | @modFailed _ _ code =>
      rw [Option.elim_some]
      apply h.quiet rfl
      · cases code <;> rfl
      · rfl
      · rfl
  | modOk _ _ lt found => apply h.modify _ _ lt found
  | @removeFailed _ code _ failed =>
      rw [Option.elim_some]
      apply h.quiet rfl
      · cases code <;> first | rfl | exact absurd rfl failed
      · rfl
      · rfl
  | tombstone _ valid dispatching lt found same =>
      obtain ⟨mid, rfl⟩ := Option.isSome_iff_exists.mp
        (h.isSome_iff.mpr (hinv.dispatching.mp dispatching))
      apply h.tombstone valid lt found same
  | swap _ _ dispatching =>
      obtain ⟨houtside, rfl⟩ := h.outside_of_not_dispatching hinv dispatching
      apply hinv'.countInv houtside
  | stop =>
      rw [Option.elim_some]
      apply h.quiet rfl rfl
      · rfl
      · rfl
  | count =>
      rw [Option.elim_some]
      apply h.quiet rfl rfl
      · rfl
      · rfl
  | idle =>
      rw [Option.elim_some]
      apply h.quiet rfl rfl
      · rfl
      · rfl
  | polled outside =>
      constructor
      · simp [roundAfter]
      · apply (hinv.countInv outside).countP_eq
  | skip walking =>
      rw [Option.elim_some]
      apply h.quiet rfl rfl
      · simp [walking]
      · rfl
  | invoke walking =>
      rw [Option.elim_some]
      apply h.quiet rfl rfl
      · simp [walking]
      · rfl
  | roundDone => apply hinv'.countInv rfl
  | callbackReturns inCallback =>
      constructor
      · simpa [inCallback] using h.isSome_iff
      · exact h.countP_eq

/-- The count of the removed registrations in every state the thread can reach. -/
theorem CountInv.of_reaches (hs : loopMachine.Reaches log s) :
  CountInv (roundOf log) s
  := by
  apply loop_invariant hs (I := fun log s => CountInv (roundOf log) s)
  · exact ⟨by simp [roundOf], rfl⟩
  · intro log s e s' hs h hstep
    rw [roundOf_append]
    apply h.step (LoopInv.of_reaches hs) (arrays_of_reaches hs) hstep

/-- In every state the thread can reach, `event_loop_count` returns the number of
registered descriptors just when no call in the current round has removed one. -/
theorem loop_count_eq_iff
    (log : List LoopEvent) (s : LoopSystem) (hs : loopMachine.Reaches log s) :
  eventLoopCount s.loop = (registered log).keys.card ↔
    ∀ fd, .remove fd .ok ∉ (roundOf log).getD []
  := by
  have hlength := s.loop.length_active_eq
  rw [(arrays_of_reaches hs).length_active, (CountInv.of_reaches hs).countP_eq] at hlength
  rw [eventLoopCount, (LoopInv.of_reaches hs).represents.card_keys, hlength, Nat.add_eq_left,
    List.countP_eq_zero]
  constructor
  · intro hnone fd hmem
    apply hnone _ hmem rfl
  · intro hnone e hmem hremoval
    cases e with
    | remove fd code =>
        cases code with
        | ok => apply hnone fd hmem
        | _ => cases hremoval
    | _ => cases hremoval

/-- In the callback of a round that removed nothing the count is right. -/
theorem loop_count_eq_iff_run :
  ∃ log s, loopMachine.Reaches log s ∧ s.point = .inCallback 1 0
    ∧ eventLoopCount s.loop = (registered log).keys.card
  := by
  have hrun : StateMachine.run loopStep ⟨.zero, .outside⟩
      [.add 3 evRead 1 nullPtr .clear, .poll (.ready [pollIn]), .turn]
    = some
        (⟨{ entries := ⟨3, evRead, 1, nullPtr⟩ :: List.replicate 7 ⟨0, 0, nullPtr, nullPtr⟩
            pollfds := ⟨3, pollIn, pollIn⟩ :: List.replicate 7 ⟨0, 0, 0⟩
            len := 1
            cap := 8
            running := false
            dispatching := true }, .inCallback 1 0⟩,
          [.add 3 evRead 1 nullPtr .ok,
            .polled [⟨3, evRead, 1, nullPtr⟩] [⟨3, pollIn, 0⟩] [pollIn],
            .turn 0 (some ⟨1, 3, evRead, nullPtr⟩)]) := rfl
  have hs : loopMachine.Reaches _ _ := StateMachine.reaches_of_run rfl hrun
  refine ⟨_, _, hs, rfl, ?_⟩
  rw [loop_count_eq_iff _ _ hs]
  simp [roundOf, roundAfter]

/-- A callback that removes its own descriptor leaves none registered, but one is
counted. -/
theorem loop_count_ne_registered :
  ¬ ∀ log s, loopMachine.Reaches log s →
    eventLoopCount s.loop = (registered log).keys.card
  := by
  intro h
  have hrun : StateMachine.run loopStep ⟨.zero, .outside⟩
      [.add 3 evRead 1 nullPtr .clear, .poll (.ready [pollIn]), .turn, .remove 3]
    = some
        (⟨{ entries := ⟨-1, evRead, 1, nullPtr⟩ :: List.replicate 7 ⟨0, 0, nullPtr, nullPtr⟩
            pollfds := ⟨3, pollIn, pollIn⟩ :: List.replicate 7 ⟨0, 0, 0⟩
            len := 1
            cap := 8
            running := false
            dispatching := true }, .inCallback 1 0⟩,
          [.add 3 evRead 1 nullPtr .ok,
            .polled [⟨3, evRead, 1, nullPtr⟩] [⟨3, pollIn, 0⟩] [pollIn],
            .turn 0 (some ⟨1, 3, evRead, nullPtr⟩), .remove 3 .ok]) := rfl
  have hs : loopMachine.Reaches _ _ := StateMachine.reaches_of_run rfl hrun
  have hcount := h _ _ hs
  revert hcount
  decide

end CTemplate

import CTemplate.Networking.EventLoop.Count
import CTemplate.Networking.EventLoop.Dispatch

/-!
# Interest in writing

When `event_loop_mod` leaves `EV_WRITE` out of a mask, `poll` is not asked about writing
from the next round on.  But a round hands out what `poll` reported when it began, and does
not look at the masks again.  So a callback can be told that it can write after
`EV_WRITE` was left out, just when that happened in the same round, before its turn.
-/

namespace CTemplate

/-- Whether `event_loop_mod` left `EV_WRITE` out of the mask of `fd` and it has not been
restored, after an event. -/
def writeDroppedAfter (fd : ℤ) (dropped : Bool) : LoopEvent → Bool
  | .mod fd' events .ok => if fd' = fd then decide (events &&& evWrite = 0) else dropped
  | .add fd' events _ _ .ok =>
      if fd' = fd ∧ events &&& evWrite ≠ 0 then false else dropped
  | _ => dropped

/-- Whether `event_loop_mod` left `EV_WRITE` out of the mask of `fd` in a log and it has not
been restored. -/
def writeDropped (fd : ℤ) (log : List LoopEvent) : Bool :=
  log.foldl (writeDroppedAfter fd) false

/-- `poll` reports `POLLOUT` only where it was asked for. -/
def WritableOnlyIfAsked (log : List LoopEvent) : Prop :=
  ∀ (entries : List EventEntry) (pollfds : List PollFd) (revents : List (BitVec 16)),
    .polled entries pollfds revents ∈ log →
      ∀ (i : ℕ) (p : PollFd) (revent : BitVec 16), pollfds[i]? = some p →
        revents[i]? = some revent → revent &&& pollOut ≠ 0 → p.events &&& pollOut ≠ 0

/-- No callback is told that it can write while `EV_WRITE` is left out of its mask. -/
def RespectsWriteInterest (log : List LoopEvent) : Prop :=
  ∀ (pre : List LoopEvent) (i : ℕ) (invoked : Invocation) (post : List LoopEvent),
    log = pre ++ .turn i (some invoked) :: post →
    writeDropped invoked.fd pre = true → invoked.events &&& evWrite = 0

/-- In every round, no call before the turn of a registration leaves `EV_WRITE` out of its
mask, if `poll` reported `POLLOUT` for it and it is not removed. -/
def KeepsReportedWrites (log : List LoopEvent) : Prop :=
  ∀ (pre : List LoopEvent) (entries : List EventEntry) (pollfds : List PollFd)
    (revents : List (BitVec 16)) (mid : List LoopEvent) (i : ℕ) (invoked : Option Invocation)
    (post : List LoopEvent) (entry : EventEntry) (revent : BitVec 16),
    log = pre ++ .polled entries pollfds revents :: mid ++ .turn i invoked :: post →
      .roundDone ∉ mid → entries[i]? = some entry → revents[i]? = some revent →
        revent &&& pollOut ≠ 0 → .remove entry.fd .ok ∉ mid →
          writeDropped entry.fd mid = false

variable {r : Registry} {s s' : LoopSystem} {fd : ℤ} {log mid : List LoopEvent}

/-! ### Masks -/

theorem writeDroppedAfter_mono {dropped dropped' : Bool} (h : dropped = true → dropped' = true)
    (e : LoopEvent) (he : writeDroppedAfter fd dropped e = true) :
  writeDroppedAfter fd dropped' e = true
  := by
  unfold writeDroppedAfter at he ⊢
  split at he
  · split at he
    · rename_i hfd
      rwa [if_pos hfd]
    · rename_i hfd
      rw [if_neg hfd]
      apply h he
  · split at he
    · cases he
    · rename_i hfd
      rw [if_neg hfd]
      apply h he
  · apply h he

/-- What was dropped in the second part of a log is dropped in the whole. -/
theorem writeDropped_append_right (log : List LoopEvent) (h : writeDropped fd mid = true) :
  writeDropped fd (log ++ mid) = true
  := by
  have hmono : ∀ (mid : List LoopEvent) (dropped dropped' : Bool),
      (dropped = true → dropped' = true) → mid.foldl (writeDroppedAfter fd) dropped = true →
        mid.foldl (writeDroppedAfter fd) dropped' = true := by
    intro mid
    induction mid with
    | nil => exact fun _ _ h => h
    | cons e mid ih =>
        intro dropped dropped' h hmid
        apply ih _ _ _ hmid
        apply writeDroppedAfter_mono h
  rw [writeDropped, List.foldl_append]
  apply hmono mid false
  · intro hfalse
    cases hfalse
  · exact h

/-- What was not dropped in the first part of a log is dropped only if it is in the
second. -/
theorem writeDropped_append_of_false (h : writeDropped fd log = false) (mid : List LoopEvent) :
  writeDropped fd (log ++ mid) = writeDropped fd mid
  := by
  rw [writeDropped, List.foldl_append]
  apply congrArg (mid.foldl (writeDroppedAfter fd)) h

/-- The mask of a registration from which `EV_WRITE` was dropped does not have it. -/
theorem Registry.after_of_dropped
    {dropped : Bool} (h : dropped = true → ∀ reg, r.lookup fd = some reg →
      reg.events &&& evWrite = 0)
    (e : LoopEvent) (he : writeDroppedAfter fd dropped e = true) {reg : Registration}
    (hreg : (r.after e).lookup fd = some reg) :
  reg.events &&& evWrite = 0
  := by
  unfold writeDroppedAfter at he
  split at he
  · rename_i fd' events
    simp only [Registry.after] at hreg
    by_cases hfd : fd' = fd
    · subst hfd
      rw [if_pos rfl, decide_eq_true_eq] at he
      split at hreg
      · rename_i hnone
        rw [hnone] at hreg
        cases hreg
      · rw [Finmap.lookup_insert] at hreg
        cases hreg
        exact he
    · rw [if_neg hfd] at he
      apply h he
      split at hreg
      · exact hreg
      · rwa [Finmap.lookup_insert_of_ne _ (Ne.symm hfd)] at hreg
  · rename_i fd' events cb userData
    simp only [Registry.after] at hreg
    split at he
    · cases he
    · rename_i hnot
      by_cases hfd : fd' = fd
      · subst hfd
        rw [Finmap.lookup_insert] at hreg
        cases hreg
        by_contra hevents
        apply hnot ⟨rfl, hevents⟩
      · apply h he
        rwa [Finmap.lookup_insert_of_ne _ (Ne.symm hfd)] at hreg
  · rename_i hmod hadd
    apply h he
    cases e with
    | add fd' events cb userData code =>
        cases code with
        | ok => exact absurd rfl (hadd _ _ _ _)
        | _ => exact hreg
    | mod fd' events code =>
        cases code with
        | ok => exact absurd rfl (hmod _ _)
        | _ => exact hreg
    | remove fd' code =>
        cases code with
        | ok =>
            by_cases hfd : fd' = fd
            · subst hfd
              simp only [Registry.after, Finmap.lookup_erase] at hreg
              cases hreg
            · simpa only [Registry.after, Finmap.lookup_erase_ne (Ne.symm hfd)] using hreg
        | _ => exact hreg
    | _ => exact hreg

theorem registered_of_dropped (log : List LoopEvent) (h : writeDropped fd log = true)
    {reg : Registration} (hreg : (registered log).lookup fd = some reg) :
  reg.events &&& evWrite = 0
  := by
  induction log using List.reverseRecOn generalizing reg with
  | nil => cases h
  | append_singleton log e ih =>
      rw [writeDropped, List.foldl_append] at h
      rw [registered, List.foldl_append] at hreg
      apply Registry.after_of_dropped (fun hlog reg hreg => ih hlog hreg) e h hreg

/-! ### Rounds of a log -/

/-- An event that leaves a round open either begins it or belongs to it. -/
theorem roundAfter_eq_some
    {round : Option (List LoopEvent)} {e : LoopEvent} (h : roundAfter round e = some mid) :
  (∃ entries pollfds revents, e = .polled entries pollfds revents ∧ mid = [])
    ∨ (e ≠ .roundDone ∧ ∃ before, round = some before ∧ mid = before ++ [e])
  := by
  cases e with
  | polled entries pollfds revents =>
      cases h
      exact Or.inl ⟨_, _, _, rfl, rfl⟩
  | roundDone => cases h
  | _ =>
      obtain ⟨before, hbefore, rfl⟩ := Option.map_eq_some_iff.mp h
      exact Or.inr ⟨by simp, before, hbefore, rfl⟩

/-- The round of a log begins with what `poll` reported. -/
theorem exists_polled_of_roundOf (log : List LoopEvent) (h : roundOf log = some mid) :
  ∃ (pre : List LoopEvent) (entries : List EventEntry) (pollfds : List PollFd)
    (revents : List (BitVec 16)), log = pre ++ .polled entries pollfds revents :: mid
      ∧ .roundDone ∉ mid
  := by
  induction log using List.reverseRecOn generalizing mid with
  | nil => cases h
  | append_singleton log e ih =>
      have hafter : roundAfter (roundOf log) e = some mid := by
        rw [← h]
        exact (roundOf_append log (some e)).symm
      rcases roundAfter_eq_some hafter with ⟨entries, pollfds, revents, rfl, rfl⟩ | hrest
      · exact ⟨log, entries, pollfds, revents, rfl, List.not_mem_nil⟩
      · obtain ⟨hdone, before, hround, rfl⟩ := hrest
        obtain ⟨pre, entries, pollfds, revents, rfl, hbefore⟩ := ih hround
        refine ⟨pre, entries, pollfds, revents, by simp, ?_⟩
        rw [List.mem_append, List.mem_singleton, not_or]
        exact ⟨hbefore, hdone.symm⟩

/-- A turn is taken in a round. -/
theorem LoopStep.turn_inside {i : ℕ} {invoked : Option Invocation}
    (hstep : LoopStep s (some (.turn i invoked)) s') :
  s.point ≠ .outside
  := by
  cases hstep with
  | skip walking => simp [walking]
  | invoke walking => simp [walking]

/-- Every turn of a run is taken in a round, which began with a call of `poll`. -/
theorem exists_round_of_turn
    {pre post : List LoopEvent} {i : ℕ} {invoked : Option Invocation}
    (hs : loopMachine.Reaches (pre ++ .turn i invoked :: post) s) :
  ∃ (before : List LoopEvent) (entries : List EventEntry) (pollfds : List PollFd)
    (revents : List (BitVec 16)) (mid : List LoopEvent),
    pre = before ++ .polled entries pollfds revents :: mid
      ∧ .roundDone ∉ mid ∧ Polled (registered before) entries pollfds revents
  := by
  obtain ⟨t, t', ht, hstep⟩ := exists_step_of_split hs
  have hround := (CountInv.of_reaches ht).isSome_iff.mpr hstep.turn_inside
  obtain ⟨mid, hmid⟩ := Option.isSome_iff_exists.mp hround
  obtain ⟨before, entries, pollfds, revents, rfl, hdone⟩ := exists_polled_of_roundOf pre hmid
  exact ⟨before, entries, pollfds, revents, mid, rfl, hdone, Polled.of_reaches ht⟩

/-- What a turn of a run invokes. -/
theorem invoked_eq_of_reaches
    {pre mid post : List LoopEvent} {entries : List EventEntry} {pollfds : List PollFd}
    {revents : List (BitVec 16)} {i : ℕ} {invoked : Option Invocation}
    (hs : loopMachine.Reaches
      (pre ++ .polled entries pollfds revents :: mid ++ .turn i invoked :: post) s)
    (hmid : .roundDone ∉ mid) :
  ∃ entry revent, entries[i]? = some entry ∧ revents[i]? = some revent
    ∧ invoked = if pollToReady revent ≠ 0 ∧ .remove entry.fd .ok ∉ mid then
        some ⟨entry.cb, entry.fd, pollToReady revent, entry.userData⟩ else none
  := by
  obtain ⟨t, t', ht, hstep⟩ := exists_step_of_split hs
  have hpolled := Polled.of_reaches ht
  apply (RoundInv.of_reaches ht hmid).invoked_eq hpolled.nonneg hstep

/-! ### Dropped writes -/

/-- If `poll` was asked about writing for a registration, `EV_WRITE` was in its mask. -/
theorem Polled.writeDropped_eq_false
    {before : List LoopEvent} {entries : List EventEntry} {pollfds : List PollFd}
    {revents : List (BitVec 16)} (h : Polled (registered before) entries pollfds revents)
    {i : ℕ} {entry : EventEntry} (hentry : entries[i]? = some entry)
    (hasked : ∀ p, pollfds[i]? = some p → p.events &&& pollOut ≠ 0) :
  writeDropped entry.fd before = false
  := by
  by_contra hdropped
  rw [Bool.not_eq_false] at hdropped
  have hreg := (h.lookup_iff entry.fd ⟨entry.events, entry.cb, entry.userData⟩).mpr
    (List.mem_of_getElem? hentry)
  apply hasked ⟨entry.fd, interestToPoll entry.events, 0⟩
  · rw [h.pollfds_eq, List.getElem?_map, hentry]
    rfl
  · rw [interestToPoll_and_pollOut]
    apply registered_of_dropped before hdropped hreg

/-- If `poll` reports `POLLOUT` only where it was asked for: in a run no callback is told
that it can write after `event_loop_mod` left `EV_WRITE` out of its mask just when that
never happened in a round before the turn of a registration for which `poll` had reported
`POLLOUT`. -/
theorem respects_write_interest_iff
    (log : List LoopEvent) (s : LoopSystem) (hs : loopMachine.Reaches log s)
    (hpoll : WritableOnlyIfAsked log) :
  RespectsWriteInterest log ↔ KeepsReportedWrites log
  := by
  constructor
  · rintro h pre entries pollfds revents mid i invoked post entry revent rfl hmid hentry hrevent
      hout hremove
    by_contra hdropped
    rw [Bool.not_eq_false] at hdropped
    obtain ⟨entry', revent', hentry', hrevent', hinvoked⟩ := invoked_eq_of_reaches hs hmid
    rw [hentry] at hentry'
    rw [hrevent] at hrevent'
    cases hentry'
    cases hrevent'
    have hready : pollToReady revent ≠ 0 := fun hzero => hout (pollToReady_eq_zero.mp hzero).2
    rw [if_pos ⟨hready, hremove⟩] at hinvoked
    subst hinvoked
    apply hout
    rw [← pollToReady_and_evWrite]
    apply h _ i _ post rfl
    have hround : writeDropped entry.fd (.polled entries pollfds revents :: mid) = true := hdropped
    apply writeDropped_append_right pre hround
  · rintro h pre i invoked post rfl hdropped
    by_contra hevents
    obtain ⟨before, entries, pollfds, revents, mid, rfl, hmid, hpolled⟩ := exists_round_of_turn hs
    obtain ⟨entry, revent, hentry, hrevent, hinvoked⟩ := invoked_eq_of_reaches hs hmid
    split at hinvoked
    · rename_i hinvokes
      cases hinvoked
      have hout : revent &&& pollOut ≠ 0 := fun hzero =>
        hevents (pollToReady_and_evWrite.mpr hzero)
      have hkept : writeDropped entry.fd mid = false :=
        h _ _ _ _ _ _ _ _ _ _ rfl hmid hentry hrevent hout hinvokes.2
      have hasked : ∀ p, pollfds[i]? = some p → p.events &&& pollOut ≠ 0 := by
        intro p hp
        apply hpoll entries pollfds revents (by simp) i p revent hp hrevent hout
      have hbefore := hpolled.writeDropped_eq_false hentry hasked
      have hsame := writeDropped_append_of_false hbefore (.polled entries pollfds revents :: mid)
      rw [hdropped] at hsame
      cases hsame.trans hkept
    · cases hinvoked

/-- The mask is changed between two rounds. -/
theorem respects_write_interest_iff_run :
  ∃ log s, loopMachine.Reaches log s ∧ .mod 3 evRead .ok ∈ log
    ∧ .turn 0 (some ⟨1, 3, evRead, nullPtr⟩) ∈ log ∧ RespectsWriteInterest log
  := by
  have hrun : StateMachine.run loopStep ⟨.zero, .outside⟩
      [.add 3 evWrite 1 nullPtr .clear, .mod 3 evRead, .poll (.ready [pollIn]), .turn]
    = some
        (⟨{ entries := ⟨3, evRead, 1, nullPtr⟩ :: List.replicate 7 ⟨0, 0, nullPtr, nullPtr⟩
            pollfds := ⟨3, pollIn, pollIn⟩ :: List.replicate 7 ⟨0, 0, 0⟩
            len := 1
            cap := 8
            running := false
            dispatching := true }, .inCallback 1 0⟩,
          [.add 3 evWrite 1 nullPtr .ok, .mod 3 evRead .ok,
            .polled [⟨3, evRead, 1, nullPtr⟩] [⟨3, pollIn, 0⟩] [pollIn],
            .turn 0 (some ⟨1, 3, evRead, nullPtr⟩)]) := rfl
  have hs : loopMachine.Reaches _ _ := StateMachine.reaches_of_run rfl hrun
  have hnone : ∀ entries pollfds revents, LoopEvent.polled entries pollfds revents ∈
      [.add 3 evWrite 1 nullPtr .ok, .mod 3 evRead .ok,
        .polled [⟨3, evRead, 1, nullPtr⟩] [⟨3, pollIn, 0⟩] [pollIn],
        .turn 0 (some ⟨1, 3, evRead, nullPtr⟩)] →
      ∀ (i : ℕ) (revent : BitVec 16), revents[i]? = some revent → revent &&& pollOut = 0 := by
    intro entries pollfds revents hmem i revent hrevent
    obtain ⟨-, -, rfl⟩ : entries = [⟨3, evRead, 1, nullPtr⟩] ∧ pollfds = [⟨3, pollIn, 0⟩]
      ∧ revents = [pollIn] := by simpa using hmem
    obtain rfl : revent = pollIn := by simpa using List.mem_of_getElem? hrevent
    rfl
  refine ⟨_, _, hs, by simp, by simp, ?_⟩
  rw [respects_write_interest_iff _ _ hs]
  · intro pre entries pollfds revents mid i invoked post entry revent hlog _ _ hrevent hout _
    apply absurd (hnone entries pollfds revents _ i revent hrevent) hout
    rw [hlog]
    simp
  · intro entries pollfds revents hmem i p revent _ hrevent hout
    exact absurd (hnone entries pollfds revents hmem i revent hrevent) hout

/-- The callback of descriptor 3 leaves `EV_WRITE` out of the mask of descriptor 4, for
which `poll` has reported `POLLOUT` in the same round. -/
theorem not_respects_write_interest :
  ¬ ∀ log s, loopMachine.Reaches log s → WritableOnlyIfAsked log → RespectsWriteInterest log
  := by
  intro h
  have hrun : StateMachine.run loopStep ⟨.zero, .outside⟩
      [.add 3 evRead 1 nullPtr .clear, .add 4 evWrite 2 nullPtr .clear,
        .poll (.ready [pollIn, pollOut]), .turn, .mod 4 evRead, .callbackReturns, .turn]
    = some
        (⟨{ entries := ⟨3, evRead, 1, nullPtr⟩ :: ⟨4, evRead, 2, nullPtr⟩
              :: List.replicate 6 ⟨0, 0, nullPtr, nullPtr⟩
            pollfds := ⟨3, pollIn, pollIn⟩ :: ⟨4, pollOut, pollOut⟩
              :: List.replicate 6 ⟨0, 0, 0⟩
            len := 2
            cap := 8
            running := false
            dispatching := true }, .inCallback 2 1⟩,
          [LoopEvent.add 3 evRead 1 nullPtr .ok, LoopEvent.add 4 evWrite 2 nullPtr .ok,
            LoopEvent.polled [⟨3, evRead, 1, nullPtr⟩, ⟨4, evWrite, 2, nullPtr⟩]
              [⟨3, pollIn, 0⟩, ⟨4, pollOut, 0⟩] [pollIn, pollOut],
            LoopEvent.turn 0 (some ⟨1, 3, evRead, nullPtr⟩), LoopEvent.mod 4 evRead .ok]
            ++ LoopEvent.turn 1 (some ⟨2, 4, evWrite, nullPtr⟩) :: []) := rfl
  have hs : loopMachine.Reaches _ _ := StateMachine.reaches_of_run rfl hrun
  refine absurd (h _ _ hs ?_ _ _ _ _ rfl rfl) (by decide)
  intro entries pollfds revents hmem i p revent hp hrevent hout
  obtain ⟨-, rfl, rfl⟩ : entries = [⟨3, evRead, 1, nullPtr⟩, ⟨4, evWrite, 2, nullPtr⟩]
    ∧ pollfds = [⟨3, pollIn, 0⟩, ⟨4, pollOut, 0⟩] ∧ revents = [pollIn, pollOut] := by
    simpa using hmem
  match i with
  | 0 =>
      cases hrevent
      exact absurd rfl hout
  | 1 =>
      cases hp
      decide
  | _ + 2 => cases hp

end CTemplate

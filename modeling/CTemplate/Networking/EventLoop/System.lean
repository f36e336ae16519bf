import CTemplate.Library.StateMachine
import CTemplate.Networking.EventLoop.Loop
import Mathlib.Data.Finmap

/-!
# Runs of the event loop

`loopMachine` is an event loop from `event_loop_create` and the thread that uses it.
Outside `event_loop_poll_once` and inside callbacks the thread may call every other
function any number of times.  A call of `event_loop_poll_once` in which `poll` reports
something is a round: one step for each turn of its loop, and after a turn that invoked a
callback any calls until the callback returns.

A log shows the calls with what they returned, and the turns.  `registered log` is the map
of registrations that the successful calls of a log describe, and `roundOf log` is the part
of the log in the round that is not over yet.
-/

namespace CTemplate

/-- Where the thread is. -/
inductive LoopPoint where
  /-- Outside `event_loop_poll_once`. -/
  | outside
  /-- Before turn `i` of a round of `count` turns. -/
  | walking (count i : ℕ)
  /-- In the callback that turn `i` of a round of `count` turns invoked. -/
  | inCallback (count i : ℕ)
  deriving DecidableEq

/-- The event loop and its thread. -/
structure LoopSystem where
  loop : EventLoop
  point : LoopPoint
  deriving DecidableEq

/-- What happened in a step. -/
inductive LoopEvent where
  | add (fd : ℤ) (events : BitVec 32) (cb userData : Ptr) (code : ErrorCode)
  | mod (fd : ℤ) (events : BitVec 32) (code : ErrorCode)
  | remove (fd : ℤ) (code : ErrorCode)
  | stop
  | count (n : ℕ)
  /-- `event_loop_poll_once` returned without a round. -/
  | idle (code : ErrorCode)
  /-- `poll` was called with `pollfds` for the registrations `entries` and reported
  `revents`. -/
  | polled (entries : List EventEntry) (pollfds : List PollFd) (revents : List (BitVec 16))
  /-- Turn `i` of the round invoked a callback, or did not. -/
  | turn (i : ℕ) (invoked : Option Invocation)
  /-- `event_loop_poll_once` returned after a round. -/
  | roundDone
  deriving DecidableEq

/-- What happens next. -/
inductive LoopAct where
  | add (fd : ℤ) (events : BitVec 32) (cb userData : Ptr) (reallocs : EventReallocs)
  | mod (fd : ℤ) (events : BitVec 32)
  | remove (fd : ℤ)
  | stop
  | count
  /-- `event_loop_poll_once` is called, and `poll` ends with `result`. -/
  | poll (result : PollResult)
  /-- The next turn of a round, or the end of its loop. -/
  | turn
  /-- The running callback returns. -/
  | callbackReturns

/-- The thread can make calls. -/
def LoopPoint.mayCall : LoopPoint → Bool
  | .walking _ _ => false
  | _ => true

/-- A call of `event_loop_poll_once` in which `poll` ends with `result`. -/
def pollOnce (s : LoopSystem) (result : PollResult) : Option (LoopSystem × Option LoopEvent) :=
  if s.loop.len = 0 then
    match result with
    | .failed => some (s, some (.idle .io))
    | _ => some (s, some (.idle .ok))
  else
    let pollfds := fillPollfds s.loop
    match result with
    | .failed => some ({ s with loop := { s.loop with pollfds } }, some (.idle .io))
    | .timeout => some ({ s with loop := { s.loop with pollfds } }, some (.idle .ok))
    | .ready revents =>
        if revents.length = s.loop.len then
          some (⟨{ s.loop with
              pollfds := storeRevents pollfds revents
              dispatching := true }, .walking s.loop.len 0⟩,
            some (.polled s.loop.active (pollfds.take s.loop.len) revents))
        else none

/-- One step of the thread. -/
def loopStep (s : LoopSystem) : LoopAct → Option (LoopSystem × Option LoopEvent)
  | .add fd events cb userData reallocs =>
      if s.point.mayCall then
        let (loop, code) := eventLoopAdd s.loop fd events cb userData reallocs
        some ({ s with loop }, some (.add fd events cb userData code))
      else none
  | .mod fd events =>
      if s.point.mayCall then
        let (loop, code) := eventLoopMod s.loop fd events
        some ({ s with loop }, some (.mod fd events code))
      else none
  | .remove fd =>
      if s.point.mayCall then
        let (loop, code) := eventLoopRemove s.loop fd
        some ({ s with loop }, some (.remove fd code))
      else none
  | .stop =>
      if s.point.mayCall then some ({ s with loop := eventLoopStop s.loop }, some .stop)
      else none
  | .count =>
      if s.point.mayCall then some (s, some (.count (eventLoopCount s.loop))) else none
  | .poll result => if s.point = .outside then pollOnce s result else none
  | .turn =>
      match s.point with
      | .walking count i =>
          if i < count then
            match s.loop.entries[i]?, s.loop.pollfds[i]? with
            | some entry, some p =>
                let invoked := pollTurn entry p
                let point : LoopPoint :=
                  if invoked.isSome then .inCallback count i else .walking count (i + 1)
                some ({ s with point }, some (.turn i invoked))
            | _, _ => none
          else
            some (⟨compact { s.loop with dispatching := false }, .outside⟩, some .roundDone)
      | _ => none
  | .callbackReturns =>
      match s.point with
      | .inCallback count i => some ({ s with point := .walking count (i + 1) }, none)
      | _ => none

/-- The thread on a loop from `event_loop_create`. -/
def loopMachine : StateMachine LoopSystem LoopEvent :=
  .ofStep (fun s => s = ⟨.zero, .outside⟩) loopStep

/-- Calls of `realloc` that succeed and clear the new elements. -/
def EventReallocs.clear : EventReallocs where
  entries := some fun _ => ⟨0, 0, nullPtr, nullPtr⟩
  pollfds := some fun _ => ⟨0, 0, 0⟩

/-! ### What a log says -/

/-- What is registered for a descriptor. -/
structure Registration where
  events : BitVec 32
  cb : Ptr
  userData : Ptr
  deriving DecidableEq

/-- The registered descriptors. -/
abbrev Registry : Type := Finmap fun _ : ℤ => Registration

/-- What an event does to the registered descriptors. -/
def Registry.after (r : Registry) : LoopEvent → Registry
  | .add fd events cb userData .ok => r.insert fd ⟨events, cb, userData⟩
  | .mod fd events .ok =>
      match r.lookup fd with
      | none => r
      | some reg => r.insert fd { reg with events }
  | .remove fd .ok => r.erase fd
  | _ => r

/-- The registered descriptors after the calls of a log that returned `ERR_OK`. -/
def registered (log : List LoopEvent) : Registry :=
  log.foldl Registry.after ∅

/-- What an event does to the part of the log in the current round. -/
def roundAfter (round : Option (List LoopEvent)) : LoopEvent → Option (List LoopEvent)
  | .polled _ _ _ => some []
  | .roundDone => none
  | e => round.map fun mid => mid ++ [e]

/-- The part of the log in the round that is not over yet, if there is one. -/
def roundOf (log : List LoopEvent) : Option (List LoopEvent) :=
  log.foldl roundAfter none

end CTemplate

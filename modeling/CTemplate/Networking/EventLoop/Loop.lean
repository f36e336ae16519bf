import CTemplate.Core.Error
import CTemplate.Core.Memory
import Mathlib.Data.Int.Notation

/-!
# The event loop

`EventLoop` is the loop of `networking/event_loop.c`: two arrays, the registrations and
the structures that are passed to `poll`.  The lists `entries` and `pollfds` are the
allocated arrays; the first `len` registrations are in use.

The functions of this module are those of the source up to the loop in
`event_loop_poll_once` that invokes callbacks, which `pollTurn` takes one turn at a time.
-/

namespace CTemplate

/-! ### Flags -/

/-- `EV_READ`. -/
def evRead : BitVec 32 := 1

/-- `EV_WRITE`. -/
def evWrite : BitVec 32 := 2

/-- `POLLIN`. -/
def pollIn : BitVec 16 := 0x01

/-- `POLLOUT`. -/
def pollOut : BitVec 16 := 0x04

/-- `POLLERR`. -/
def pollErr : BitVec 16 := 0x08

/-- `POLLHUP`. -/
def pollHup : BitVec 16 := 0x10

/-- `interest_to_poll`. -/
def interestToPoll (events : BitVec 32) : BitVec 16 :=
  (if events &&& evRead ≠ 0 then pollIn else 0)
    ||| (if events &&& evWrite ≠ 0 then pollOut else 0)

/-- `poll_to_ready`. -/
def pollToReady (revents : BitVec 16) : BitVec 32 :=
  (if revents &&& (pollIn ||| pollHup ||| pollErr) ≠ 0 then evRead else 0)
    ||| (if revents &&& pollOut ≠ 0 then evWrite else 0)

/-! ### The loop -/

/-- The fields of `EventEntry`. -/
structure EventEntry where
  fd : ℤ
  events : BitVec 32
  cb : Ptr
  userData : Ptr
  deriving DecidableEq

/-- `sizeof(EventEntry)`. -/
def EventEntry.size : ℕ := 24

/-- The fields of `struct pollfd`. -/
structure PollFd where
  fd : ℤ
  events : BitVec 16
  revents : BitVec 16
  deriving DecidableEq

/-- `sizeof(struct pollfd)`. -/
def PollFd.size : ℕ := 8

/-- The fields of `EventLoop`. -/
structure EventLoop where
  entries : List EventEntry
  pollfds : List PollFd
  len : ℕ
  cap : ℕ
  running : Bool
  dispatching : Bool
  deriving DecidableEq

/-- The loop from a successful `event_loop_create`. -/
def EventLoop.zero : EventLoop where
  entries := []
  pollfds := []
  len := 0
  cap := 0
  running := false
  dispatching := false

/-- The registrations in use. -/
def EventLoop.active (loop : EventLoop) : List EventEntry :=
  loop.entries.take loop.len

/-- `find_index`. -/
def findIndex (loop : EventLoop) (fd : ℤ) : Option ℕ :=
  loop.active.findIdx? fun entry => entry.fd = fd

/-- What the two calls of `realloc` in `event_loop_add` give: the content of the new
elements, or nothing. -/
structure EventReallocs where
  entries : Option (ℕ → EventEntry)
  pollfds : Option (ℕ → PollFd)

/-- The part of `event_loop_add` that makes room for one more registration. -/
def eventLoopGrow (loop : EventLoop) (reallocs : EventReallocs) : EventLoop × ErrorCode :=
  if loop.len = loop.cap then
    if loop.cap > sizeMax / 2 then (loop, .overflow)
    else
      let newCap := if loop.cap = 0 then 8 else loop.cap * 2
      if newCap > sizeMax / EventEntry.size ∨ newCap > sizeMax / PollFd.size then
        (loop, .overflow)
      else
        match reallocs.entries with
        | none => (loop, .nomem)
        | some junk =>
            let loop := { loop with entries := reallocated loop.entries newCap junk }
            match reallocs.pollfds with
            -- the larger array of registrations is kept
            | none => (loop, .nomem)
            | some junk =>
                ({ loop with
                  pollfds := reallocated loop.pollfds newCap junk
                  cap := newCap }, .ok)
  else (loop, .ok)

/-- `event_loop_add`, given the outcomes of its calls of `realloc`. -/
def eventLoopAdd (loop : EventLoop) (fd : ℤ) (events : BitVec 32) (cb userData : Ptr)
    (reallocs : EventReallocs) : EventLoop × ErrorCode :=
  if fd < 0 ∨ cb = nullPtr ∨ events = 0 then (loop, .invalidArg)
  else if (findIndex loop fd).isSome then (loop, .invalidArg)
  else
    match eventLoopGrow loop reallocs with
    | (loop, .ok) =>
        ({ loop with
          entries := loop.entries.set loop.len { fd, events, cb, userData }
          len := loop.len + 1 }, .ok)
    | (loop, err) => (loop, err)

/-- `event_loop_mod`. -/
def eventLoopMod (loop : EventLoop) (fd : ℤ) (events : BitVec 32) : EventLoop × ErrorCode :=
  if fd < 0 ∨ events = 0 then (loop, .invalidArg)
  else
    match findIndex loop fd with
    | none => (loop, .notFound)
    | some i =>
        ({ loop with entries := loop.entries.modify i fun entry => { entry with events } }, .ok)

/-- `event_loop_remove`. -/
def eventLoopRemove (loop : EventLoop) (fd : ℤ) : EventLoop × ErrorCode :=
  if fd < 0 then (loop, .invalidArg)
  else
    match findIndex loop fd with
    | none => (loop, .notFound)
    | some i =>
        if loop.dispatching then
          ({ loop with
            entries := loop.entries.modify i fun entry => { entry with fd := -1 } }, .ok)
        else
          match loop.entries[loop.len - 1]? with
          -- not reached, since `i` is smaller than `len`
          | none => (loop, .ok)
          | some last =>
              ({ loop with entries := loop.entries.set i last, len := loop.len - 1 }, .ok)

/-- `event_loop_stop`. -/
def eventLoopStop (loop : EventLoop) : EventLoop :=
  { loop with running := false }

/-- `event_loop_count`. -/
def eventLoopCount (loop : EventLoop) : ℕ := loop.len

/-- The loop of `compact` with `steps` turns to go, at the registration `i`. -/
def compactFrom : (steps i kept : ℕ) → List EventEntry → List EventEntry × ℕ
  | 0, _, kept, entries => (entries, kept)
  | steps + 1, i, kept, entries =>
      match entries[i]? with
      | none => (entries, kept)
      | some entry =>
          if entry.fd ≥ 0 then compactFrom steps (i + 1) (kept + 1) (entries.set kept entry)
          else compactFrom steps (i + 1) kept entries

/-- `compact`. -/
def compact (loop : EventLoop) : EventLoop :=
  let (entries, kept) := compactFrom loop.len 0 0 loop.entries
  { loop with entries, len := kept }

/-! ### Polling -/

/-- The loop of `event_loop_poll_once` that fills in the structures for `poll`. -/
def fillPollfds (loop : EventLoop) : List PollFd :=
  (List.range loop.len).foldl (fun pollfds i =>
    match loop.entries[i]? with
    | none => pollfds
    | some entry =>
        pollfds.set i { fd := entry.fd, events := interestToPoll entry.events, revents := 0 })
    loop.pollfds

/-- The structures after `poll` has stored the results in them. -/
def storeRevents (pollfds : List PollFd) (revents : List (BitVec 16)) : List PollFd :=
  pollfds.mapIdx fun i p => { p with revents := (revents[i]?).getD p.revents }

/-- How a call of `poll` ended, apart from interruptions. -/
inductive PollResult where
  | failed
  | timeout
  /-- Some structures have results, all of which are given. -/
  | ready (revents : List (BitVec 16))

/-- A call of a callback. -/
structure Invocation where
  cb : Ptr
  fd : ℤ
  events : BitVec 32
  userData : Ptr
  deriving DecidableEq

/-- Turn `i` of the loop of `event_loop_poll_once` that dispatches: the callback it
invokes, if any. -/
def pollTurn (entry : EventEntry) (p : PollFd) : Option Invocation :=
  if entry.fd < 0 then none
  else
    let e := pollToReady p.revents
    if e ≠ 0 then some { cb := entry.cb, fd := entry.fd, events := e, userData := entry.userData }
    else none

end CTemplate

import CTemplate.Networking.EventLoop.Dispatch
import CTemplate.Networking.Stream

/-!
# The echo server on the event loop

The server of `examples/evloop_server_demo.c`: one thread runs the event loop, whose callbacks
accept connections and send back what they receive.  The callbacks make their calls on the loop by
the steps of `loopStep`.

`eventServerMachine listener` takes one call of `accept`, `recv` or `send` at a time, each with any
outcome that it can have, and any results of `poll`.  An open connection keeps what was received
on it and what was handed to the kernel for it; a descriptor that was closed may come back for
another connection.
-/

namespace CTemplate

/-- The bytes received on a connection, and those sent back. -/
structure EchoConn where
  received : List Byte
  sent : List Byte
  deriving DecidableEq

/-- Where the thread is in the callbacks of the server. -/
inductive ServerPhase where
  /-- In the event loop. -/
  | looping
  /-- In `on_accept`, before a call of `accept`. -/
  | accepting
  /-- In `on_client` for `fd`, before a call of `recv`. -/
  | receiving (fd : ℤ)
  /-- In `on_client` for `fd`, in the call of `tcp_send_all` for the bytes `buf`. -/
  | sending (fd : ℤ) (buf : List Byte) (call : SendAll)
  /-- `event_loop_run` has returned. -/
  | stopped
  deriving DecidableEq

/-- The server: the event loop, its thread, and the connections. -/
structure EventServer where
  sys : LoopSystem
  phase : ServerPhase
  /-- The open connections by their descriptors. -/
  conns : Finmap fun _ : ℤ => EchoConn
  /-- The connections that were closed. -/
  past : List EchoConn

/-- The address of `on_accept`. -/
def onAccept : Ptr := 0x401000

/-- The address of `on_client`. -/
def onClient : Ptr := 0x402000

/-- The address of the `Server` that is passed to the callbacks. -/
def serverData : Ptr := 0x7fff0000

/-- `sizeof(buf)` in `on_client`. -/
def clientBufSize : ℕ := 1024

/-! ### The callbacks -/

/-- A call of a function of the event loop. -/
def EventServer.call (s : EventServer) (a : LoopAct) : Option (EventServer × Option LoopEvent) :=
  (loopStep s.sys a).map fun (sys, e) => ({ s with sys }, e)

/-- The callback returns. -/
def EventServer.leave (s : EventServer) : Option EventServer :=
  (s.call .callbackReturns).map fun (s, _) => { s with phase := .looping }

/-- The start of the callback that a turn of the loop invoked, if it did. -/
def EventServer.enter (s : EventServer) (e : Option LoopEvent) : Option EventServer :=
  match e with
  | some (.turn _ (some invocation)) =>
      if invocation.cb = onAccept then some { s with phase := .accepting }
      else if invocation.cb = onClient then some { s with phase := .receiving invocation.fd }
      -- no other function was registered
      else none
  | _ => some s

/-- `on_accept` after a call of `accept`, given the outcomes of the calls of `realloc` in
`event_loop_add`. -/
def EventServer.accept (listener : ℤ) (s : EventServer) (outcome : AcceptOutcome)
    (reallocs : EventReallocs) : Option EventServer :=
  match outcome with
  | .failed true => some s
  | .failed false => s.leave
  | .accepted fd =>
      -- the descriptor was not open
      if 0 ≤ fd ∧ fd ≠ listener ∧ fd ∉ s.conns then
        (s.call (.add fd evRead onClient serverData reallocs)).bind fun (s, e) =>
          match e with
          | some (.add _ _ _ _ .ok) =>
              EventServer.leave { s with conns := s.conns.insert fd ⟨[], []⟩ }
          -- `tcp_close(&conn)`
          | _ => s.leave
      else none

/-- `event_loop_remove` and `tcp_close` for a connection, and the end of `on_client`. -/
def EventServer.drop (s : EventServer) (fd : ℤ) : Option EventServer :=
  (s.call (.remove fd)).bind fun (s, _) =>
    EventServer.leave { s with
      conns := s.conns.erase fd
      past := s.past ++ (s.conns.lookup fd).toList }

/-- `on_client` after a call of `recv`. -/
def EventServer.recv (s : EventServer) (fd : ℤ) (outcome : RecvOutcome) : Option EventServer :=
  match nwRecv outcome with
  | none => some s
  | some (.error _) => s.drop fd
  | some (.ok bytes) =>
      if clientBufSize < bytes.length then none
      else
        match tcpSendError fd bytes.length with
        -- `got == 0`
        | some _ => s.drop fd
        | none =>
            (s.conns.lookup fd).map fun conn =>
              { s with
                phase := .sending fd bytes (.start bytes)
                conns := s.conns.insert fd { conn with received := conn.received ++ bytes } }

/-- `on_client` after a call of `send`. -/
def EventServer.send (s : EventServer) (fd : ℤ) (buf : List Byte) (call : SendAll)
    (outcome : SendOutcome) : Option EventServer :=
  (sendRound buf buf.length call outcome).bind fun call' =>
    (s.conns.lookup fd).bind fun conn =>
      let conns := s.conns.insert fd { conn with sent := conn.sent ++ call.handed call' }
      match call'.code with
      | none => some { s with phase := .sending fd buf call', conns }
      | some .ok => EventServer.leave { s with conns }
      | some _ => EventServer.drop { s with conns } fd

/-! ### The thread -/

/-- What happens next. -/
inductive ServerAct where
  | poll (result : PollResult)
  | turn
  | accept (outcome : AcceptOutcome) (reallocs : EventReallocs)
  | recv (outcome : RecvOutcome)
  | send (outcome : SendOutcome)

/-- One step of the thread.  No callback calls `event_loop_stop`, so that `event_loop_run` goes on
until `poll` fails. -/
def serverStep (listener : ℤ) (s : EventServer) :
    ServerAct → Option (EventServer × Option Empty)
  | .poll result =>
      if s.phase = .looping then
        (s.call (.poll result)).map fun (s, e) =>
          (if e = some (.idle .io) then { s with phase := .stopped } else s, none)
      else none
  | .turn =>
      if s.phase = .looping then
        (s.call .turn).bind fun (s, e) => (s.enter e).map fun s => (s, none)
      else none
  | .accept outcome reallocs =>
      if s.phase = .accepting then
        (s.accept listener outcome reallocs).map fun s => (s, none)
      else none
  | .recv outcome =>
      match s.phase with
      | .receiving fd => (s.recv fd outcome).map fun s => (s, none)
      | _ => none
  | .send outcome =>
      match s.phase with
      | .sending fd buf call => (s.send fd buf call outcome).map fun s => (s, none)
      | _ => none

/-- The server before `event_loop_run`, after `event_loop_add` has succeeded for the listener. -/
def ServerStart (listener : ℤ) (s : EventServer) : Prop :=
  0 ≤ listener ∧ s.phase = .looping ∧ s.conns = ∅ ∧ s.past = []
    ∧ ∃ reallocs, loopStep ⟨.zero, .outside⟩ (.add listener evRead onAccept serverData reallocs)
      = some (s.sys, some (.add listener evRead onAccept serverData .ok))

/-- The server with a listening socket. -/
def eventServerMachine (listener : ℤ) : StateMachine EventServer Empty :=
  .ofStep (ServerStart listener) (serverStep listener)

end CTemplate

import CTemplate.Hpc.ThreadPool.Workers
import CTemplate.Networking.Echo.System

/-!
# The echo server on the thread pool

The server of `examples/echo_server_demo.c`: the main thread accepts connections and submits a task
for each, and the workers of the pool run `handle_client`, which sends back what it receives, then
closes the connection and frees its `TcpSocket`.

`poolServerMachine listener func pool` interleaves the main thread and the workers, with any outcome
of each call of `malloc`, `accept`, `recv` and `send`.  The kernel gives a descriptor that is not
open, and `malloc` a block that is not allocated; either may come back after it was closed or freed.
A use of a block that is not allocated or of a descriptor that is not open is the event `fault`.

The number of a connection says how many were accepted before it, and `number` in a `ClientSocket`
says for which connection it was allocated.  The code never reads these numbers.
-/

namespace CTemplate

/-! ### The state -/

/-- A connection: its number, the bytes received on it, and those sent back. -/
structure PoolConn where
  number : ℕ
  received : List Byte
  sent : List Byte
  deriving DecidableEq

/-- An allocated `TcpSocket`. -/
structure ClientSocket where
  fd : ℤ
  number : ℕ
  deriving DecidableEq

/-- Where `handle_client` is in the worker that runs it. -/
inductive HandlerPhase where
  /-- In its loop, which it has left in the state `closed`. -/
  | serving (echo : EchoServer)
  /-- After `tcp_close`, before `free`. -/
  | closed
  deriving DecidableEq

/-- Where the main thread is. -/
inductive AcceptorPhase where
  /-- Before the call of `malloc`. -/
  | allocating
  /-- In `tcp_accept`. -/
  | accepting (client : Ptr)
  /-- Before the call of `thread_pool_submit`. -/
  | submitting (client : Ptr)
  /-- After `thread_pool_submit` has failed. -/
  | rejecting (client : Ptr)
  /-- In `thread_pool_destroy`. -/
  | destroying
  | returned
  deriving DecidableEq

/-- The threads of the server and what they share. -/
structure PoolServer where
  pool : PoolSystem
  phase : AcceptorPhase
  /-- The listening socket is open. -/
  listening : Bool
  /-- The allocated sockets. -/
  clients : Ptr → Option ClientSocket
  /-- The open connections by their descriptors. -/
  conns : ℤ → Option PoolConn
  /-- Where the workers are in the tasks that they run. -/
  handlers : ℕ → HandlerPhase
  /-- How many connections were accepted. -/
  accepted : ℕ
  /-- The connections that were closed. -/
  past : List PoolConn

/-- What happened in a step. -/
inductive PoolServerEvent where
  /-- A worker starts `handle_client` for the connection with this number. -/
  | start (number : ℕ)
  /-- The main thread closes the connection with this number, which it could not submit. -/
  | reject (number : ℕ)
  /-- A block that is not allocated or a descriptor that is not open is used. -/
  | fault
  deriving DecidableEq

/-- The result of a step that uses memory and descriptors. -/
def PoolServer.orFault (s : PoolServer) (r : Option (PoolServer × Option PoolServerEvent)) :
    Option (PoolServer × Option PoolServerEvent) :=
  some (r.getD (s, some .fault))

/-- `tcp_close(client)`, or `none` when it uses what it must not. -/
def PoolServer.tcpClose (s : PoolServer) (client : Ptr) : Option PoolServer :=
  (s.clients client).bind fun socket =>
    if socket.fd < 0 then some s
    else
      (s.conns socket.fd).map fun conn =>
        { s with
          clients := Function.update s.clients client (some { socket with fd := -1 })
          conns := Function.update s.conns socket.fd none
          past := s.past ++ [conn] }

/-- `free(client)`, or `none` when the block is not allocated. -/
def PoolServer.free (s : PoolServer) (client : Ptr) : Option PoolServer :=
  (s.clients client).map fun _ => { s with clients := Function.update s.clients client none }

/-! ### The main thread -/

/-- The call of `malloc`, which gives a block of any content. -/
def PoolServer.malloc (s : PoolServer) (block : Option (Ptr × ℤ)) :
    Option (PoolServer × Option PoolServerEvent) :=
  match block with
  | none => some ({ s with phase := .destroying }, none)
  | some (client, fd) =>
      if (s.clients client).isSome then none
      else
        some ({ s with
          clients := Function.update s.clients client (some ⟨fd, s.accepted⟩)
          phase := .accepting client }, none)

/-- `tcp_accept` after a call of `accept`, and `free` when it fails. -/
def PoolServer.accept (listener : ℤ) (s : PoolServer) (client : Ptr) (outcome : AcceptOutcome) :
    Option (PoolServer × Option PoolServerEvent) :=
  match outcome with
  | .failed true => some (s, none)
  | .failed false =>
      s.orFault ((s.free client).map fun s => ({ s with phase := .destroying }, none))
  | .accepted fd =>
      -- the descriptor was not open
      if 0 ≤ fd ∧ fd ≠ listener ∧ s.conns fd = none then
        s.orFault ((s.clients client).map fun socket =>
          ({ s with
            clients := Function.update s.clients client (some { socket with fd })
            conns := Function.update s.conns fd (some ⟨s.accepted, [], []⟩)
            accepted := s.accepted + 1
            phase := .submitting client }, none))
      else none

/-- `thread_pool_submit(pool, handle_client, client)`. -/
def PoolServer.submit (func : Ptr) (s : PoolServer) (client : Ptr) (block : Option Addr)
    (chosen : List Bool) : Option (PoolServer × Option PoolServerEvent) :=
  (poolStep s.pool (.submit none func client block chosen)).map fun (pool, e) =>
    match e with
    | some (.submit _ .ok) => ({ s with pool, phase := .allocating }, none)
    | _ => ({ s with pool, phase := .rejecting client }, none)

/-- `tcp_close(client)` and `free(client)` after `thread_pool_submit` has failed. -/
def PoolServer.reject (s : PoolServer) (client : Ptr) :
    Option (PoolServer × Option PoolServerEvent) :=
  s.orFault (((s.tcpClose client).bind fun s => s.free client).map fun s' =>
    ({ s' with phase := .destroying }, some (.reject (s.accepted - 1))))

/-- The calls that `thread_pool_destroy` consists of. -/
def PoolAct.Destroys : PoolAct → Bool
  | .destroy | .join | .drain => true
  | _ => false

/-! ### The workers -/

/-- A worker takes the mutex of the pool, and may start a task. -/
def PoolServer.enter (s : PoolServer) (i : ℕ) : Option (PoolServer × Option PoolServerEvent) :=
  (poolStep s.pool (.enter i)).map fun (pool, e) =>
    match e with
    | some (.dequeue job) =>
        ({ s with pool, handlers := Function.update s.handlers i (.serving .receiving) },
          some (.start job.id))
    | _ => ({ s with pool }, none)

/-- The bytes that a call of `recv` gives. -/
def RecvOutcome.bytes : RecvOutcome → List Byte
  | .received bytes => bytes
  | .failed _ => []

/-- `handle_client` in worker `i` after a call of `recv`. -/
def PoolServer.recv (s : PoolServer) (i : ℕ) (client : Ptr) (outcome : RecvOutcome) :
    Option (PoolServer × Option PoolServerEvent) :=
  if echoBufSize < outcome.bytes.length then none
  else
    s.orFault ((s.clients client).bind fun socket =>
      match tcpRecvError socket.fd echoBufSize with
      | some _ =>
          some ({ s with handlers := Function.update s.handlers i (.serving .closed) }, none)
      | none =>
          (s.conns socket.fd).map fun conn =>
            ({ s with
              conns := Function.update s.conns socket.fd
                (some { conn with received := conn.received ++ outcome.bytes })
              handlers := Function.update s.handlers i (.serving (serverRecv outcome)) }, none))

/-- `handle_client` in worker `i` after a call of `send`. -/
def PoolServer.send (s : PoolServer) (i : ℕ) (client : Ptr) (buf : List Byte) (call : SendAll)
    (outcome : SendOutcome) : Option (PoolServer × Option PoolServerEvent) :=
  (serverSend buf call outcome).bind fun (call', echo) =>
    s.orFault ((s.clients client).bind fun socket =>
      (s.conns socket.fd).map fun conn =>
        ({ s with
          conns := Function.update s.conns socket.fd
            (some { conn with sent := conn.sent ++ call.handed call' })
          handlers := Function.update s.handlers i (.serving echo) }, none))

/-- `tcp_close(client)` in `handle_client`. -/
def PoolServer.close (s : PoolServer) (i : ℕ) (client : Ptr) :
    Option (PoolServer × Option PoolServerEvent) :=
  s.orFault ((s.tcpClose client).map fun s =>
    ({ s with handlers := Function.update s.handlers i .closed }, none))

/-- `free(client)` at the end of `handle_client`, and the return of the task. -/
def PoolServer.finish (s : PoolServer) (i : ℕ) (client : Ptr) :
    Option (PoolServer × Option PoolServerEvent) :=
  match s.free client with
  | none => some (s, some .fault)
  | some s => (poolStep s.pool (.finish i)).map fun (pool, _) => ({ s with pool }, none)

/-! ### The server -/

/-- What happens next. -/
inductive PoolServerAct where
  | malloc (block : Option (Ptr × ℤ))
  | accept (outcome : AcceptOutcome)
  | submit (block : Option Addr) (chosen : List Bool)
  | reject
  /-- A part of `thread_pool_destroy`. -/
  | destroy (a : PoolAct)
  /-- `tcp_close` for the listening socket, and the end of `main`. -/
  | leave
  /-- Worker `i` takes the mutex. -/
  | enter (i : ℕ)
  /-- Worker `i` wakes up spuriously. -/
  | spurious (i : ℕ)
  | recv (i : ℕ) (outcome : RecvOutcome)
  | send (i : ℕ) (outcome : SendOutcome)
  | close (i : ℕ)
  | finish (i : ℕ)

/-- One step of the threads. -/
def poolServerStep (listener : ℤ) (func : Ptr) (s : PoolServer) :
    PoolServerAct → Option (PoolServer × Option PoolServerEvent)
  | .malloc block => if s.phase = .allocating then s.malloc block else none
  | .accept outcome =>
      match s.phase with
      | .accepting client => s.accept listener client outcome
      | _ => none
  | .submit block chosen =>
      match s.phase with
      | .submitting client => s.submit func client block chosen
      | _ => none
  | .reject =>
      match s.phase with
      | .rejecting client => s.reject client
      | _ => none
  | .destroy a =>
      if s.phase = .destroying ∧ a.Destroys then
        (poolStep s.pool a).map fun (pool, _) => ({ s with pool }, none)
      else none
  | .leave =>
      if s.phase = .destroying ∧ s.pool.destroyer = .returned then
        some ({ s with listening := false, phase := .returned }, none)
      else none
  | .enter i => s.enter i
  | .spurious i => (poolStep s.pool (.spurious i)).map fun (pool, _) => ({ s with pool }, none)
  | .recv i outcome =>
      match s.pool.jobOf i, s.handlers i with
      | some job, .serving .receiving => s.recv i job.arg outcome
      | _, _ => none
  | .send i outcome =>
      match s.pool.jobOf i, s.handlers i with
      | some job, .serving (.sending buf call) => s.send i job.arg buf call outcome
      | _, _ => none
  | .close i =>
      match s.pool.jobOf i, s.handlers i with
      | some job, .serving .closed => s.close i job.arg
      | _, _ => none
  | .finish i =>
      match s.pool.jobOf i, s.handlers i with
      | some job, .closed => s.finish i job.arg
      | _, _ => none

/-- The server when the pool was created and before the first call of `malloc`. -/
def PoolServerStart (pool : ThreadPool) (s : PoolServer) : Prop :=
  s.pool = .start pool ∧ s.phase = .allocating ∧ s.listening = true ∧ (∀ p, s.clients p = none)
    ∧ (∀ fd, s.conns fd = none) ∧ s.accepted = 0 ∧ s.past = []

/-- The main thread and the workers of the server. -/
def poolServerMachine (listener : ℤ) (func : Ptr) (pool : ThreadPool) :
    StateMachine PoolServer PoolServerEvent :=
  .ofStep (PoolServerStart pool) (poolServerStep listener func)

end CTemplate

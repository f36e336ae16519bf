import CTemplate.Library.Conveyor
import CTemplate.Networking.Stream

/-!
# An echo client and its server

The client of `examples/echo_client_demo.c` and `handle_client` of `examples/echo_server_demo.c`,
joined by a connection.  The client sends its message and then receives until it has as many bytes
as it sent; the server sends back what it receives until the client closes the connection.

`echoMachine net msg` takes one call of `send` or `recv` at a time, in any order of the two
parties.  A direction of the connection holds a bounded number of bytes, a call may take any part
of what it could, and signals may interrupt it finitely often.  On a faulty connection a call may
fail at any time.
-/

namespace CTemplate

/-! ### The client -/

/-- The client between two calls of `send` or `recv`. -/
inductive EchoClient where
  | sending (call : SendAll)
  /-- The client receives, and has the bytes `got` in its buffer. -/
  | receiving (got : List Byte)
  /-- The client has closed its socket and returned `status`. -/
  | exited (got : List Byte) (status : ℕ)
  deriving DecidableEq

/-- `sizeof(buf)` in the client and in the server. -/
def echoBufSize : ℕ := 1024

/-- The end of the client, which has received `got`. -/
def clientExit (msg got : List Byte) : EchoClient :=
  .exited got (if got.length = msg.length then 0 else 1)

/-- The client at the condition of its loop, up to the call of `recv`. -/
def clientLoop (msg got : List Byte) : EchoClient :=
  if got.length < msg.length then
    match tcpRecvError 0 (echoBufSize - 1 - got.length) with
    | some _ => clientExit msg got
    | none => .receiving got
  else clientExit msg got

/-- The client up to its first call of `send`. -/
def clientStart (msg : List Byte) : EchoClient :=
  match tcpSendError 0 msg.length with
  | some _ => .exited [] 1
  | none => .sending (.start msg)

/-- The client after a call of `send`. -/
def clientSend (msg : List Byte) (call : SendAll) (outcome : SendOutcome) :
    Option (SendAll × EchoClient) :=
  (sendRound msg msg.length call outcome).map fun call' =>
    (call', match call'.code with
      | none => .sending call'
      | some .ok => clientLoop msg []
      | some _ => .exited [] 1)

/-- The client after a call of `recv`. -/
def clientRecv (msg got : List Byte) (outcome : RecvOutcome) : EchoClient :=
  match nwRecv outcome with
  | none => .receiving got
  | some (.error _) => clientExit msg got
  | some (.ok bytes) => if bytes = [] then clientExit msg got else clientLoop msg (got ++ bytes)

/-! ### The server -/

/-- `handle_client` between two calls of `send` or `recv`. -/
inductive EchoServer where
  | receiving
  | sending (buf : List Byte) (call : SendAll)
  | closed
  deriving DecidableEq

/-- `handle_client` after a call of `recv`. -/
def serverRecv (outcome : RecvOutcome) : EchoServer :=
  match nwRecv outcome with
  | none => .receiving
  | some (.error _) => .closed
  | some (.ok bytes) =>
      match tcpSendError 0 bytes.length with
      -- `got > 0` fails
      | some _ => .closed
      | none => .sending bytes (.start bytes)

/-- `handle_client` after a call of `send`. -/
def serverSend (buf : List Byte) (call : SendAll) (outcome : SendOutcome) :
    Option (SendAll × EchoServer) :=
  (sendRound buf buf.length call outcome).map fun call' =>
    (call', match call'.code with
      | none => .sending buf call'
      | some .ok => .receiving
      | some _ => .closed)

/-! ### The connection -/

/-- A connection: how many bytes may be on their way to the server and back, and whether calls
fail for no other reason than that. -/
structure EchoNet where
  outRoom : ℕ
  backRoom : ℕ
  faulty : Bool

/-- The two parties, the bytes on their way, and the number of signals still to come. -/
structure EchoSystem where
  client : EchoClient
  server : EchoServer
  out : List Byte
  back : List Byte
  signals : ℕ
  deriving DecidableEq

/-- The outcomes of `send` on a direction with `free` bytes of room, when calls may fail and this
many signals may come, and the number of signals after it. -/
def sendSignals (free : ℕ) (mayFail : Bool) (signals : ℕ) : SendOutcome → Option ℕ
  | .accepted n => if n ≤ free ∧ (n = 0 → mayFail = true) then some signals else none
  | .failed true => if 0 < signals then some (signals - 1) else none
  | .failed false => if mayFail then some signals else none

/-- The outcomes of `recv` for `cap` bytes on a direction that holds `bytes` and that its writer
may have closed: the bytes left on their way, and the number of signals after it. -/
def recvStream (bytes : List Byte) (cap : ℕ) (closed mayFail : Bool) (signals : ℕ) :
    RecvOutcome → Option (List Byte × ℕ)
  | .received got =>
      if got = [] then if bytes = [] ∧ closed then some ([], signals) else none
      else if got.length ≤ cap ∧ got.isPrefixOf bytes then some (bytes.drop got.length, signals)
      else none
  | .failed true => if 0 < signals then some (bytes, signals - 1) else none
  | .failed false => if mayFail then some (bytes, signals) else none

/-- The client has closed its socket. -/
def EchoSystem.clientGone (s : EchoSystem) : Bool :=
  match s.client with
  | .exited _ _ => true
  | _ => false

/-- The server has closed its socket. -/
def EchoSystem.serverGone (s : EchoSystem) : Bool :=
  match s.server with
  | .closed => true
  | _ => false

/-- What happens next: a call of `send` or `recv` of one of the parties ends. -/
inductive EchoAct where
  | clientSend (outcome : SendOutcome)
  | clientRecv (outcome : RecvOutcome)
  | serverRecv (outcome : RecvOutcome)
  | serverSend (outcome : SendOutcome)
  deriving DecidableEq

/-- One step of the two parties.  Calls on a socket whose other end was closed may fail. -/
def echoStep (net : EchoNet) (msg : List Byte) (s : EchoSystem) :
    EchoAct → Option (EchoSystem × Option Empty)
  | .clientSend outcome =>
      match s.client with
      | .sending call =>
          (sendSignals (net.outRoom - s.out.length) (net.faulty || s.serverGone) s.signals
              outcome).bind fun signals =>
            (clientSend msg call outcome).map fun (call', client) =>
              ({ s with client, out := s.out ++ call.handed call', signals }, none)
      | _ => none
  | .clientRecv outcome =>
      match s.client with
      | .receiving got =>
          (recvStream s.back (echoBufSize - 1 - got.length) s.serverGone
              (net.faulty || s.serverGone) s.signals outcome).map fun (back, signals) =>
            ({ s with client := clientRecv msg got outcome, back, signals }, none)
      | _ => none
  | .serverRecv outcome =>
      match s.server with
      | .receiving =>
          (recvStream s.out echoBufSize s.clientGone (net.faulty || s.clientGone) s.signals
              outcome).map fun (out, signals) =>
            ({ s with server := serverRecv outcome, out, signals }, none)
      | _ => none
  | .serverSend outcome =>
      match s.server with
      | .sending buf call =>
          (sendSignals (net.backRoom - s.back.length) (net.faulty || s.clientGone) s.signals
              outcome).bind fun signals =>
            (serverSend buf call outcome).map fun (call', server) =>
              ({ s with server, back := s.back ++ call.handed call', signals }, none)
      | _ => none

/-- The two parties on a connection that was just made, with any number of signals to come. -/
def echoMachine (net : EchoNet) (msg : List Byte) : StateMachine EchoSystem Empty :=
  .ofStep (fun s => s.client = clientStart msg ∧ s.server = .receiving ∧ s.out = [] ∧ s.back = [])
    (echoStep net msg)

/-- The client has got its message back and returned 0, and the server has closed the
connection. -/
def EchoSystem.Done (msg : List Byte) (s : EchoSystem) : Prop :=
  s.client = .exited msg 0 ∧ s.server = .closed

end CTemplate

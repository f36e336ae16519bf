import CTemplate.Networking.Echo.System

/-!
# What the echo client gets

The bytes of the message pass through five places: the client has not sent them, they are on
their way to the server, the server has not sent them back, they are on their way back, and the
client has received them.  Every step passes some of them on, is an interruption, or ends one of
the parties, `echoStep_cases`.
-/

namespace CTemplate

/-! ### The places of the message -/

/-- The bytes that the client has received. -/
def EchoSystem.got (s : EchoSystem) : List Byte :=
  match s.client with
  | .sending _ => []
  | .receiving got => got
  | .exited got _ => got

/-- The bytes that the client still sends. -/
def EchoSystem.unsent (msg : List Byte) (s : EchoSystem) : List Byte :=
  match s.client with
  | .sending call => call.rest msg
  | _ => []

/-- The bytes that the server has received and still sends back. -/
def EchoSystem.pending (s : EchoSystem) : List Byte :=
  match s.server with
  | .sending buf call => call.rest buf
  | _ => []

/-- The bytes of the message by where they are. -/
def EchoSystem.places (msg : List Byte) (s : EchoSystem) : List (List Byte) :=
  [s.got, s.back, s.pending, s.out, s.unsent msg]

/-- What holds of the client between two steps. -/
inductive ClientOk (msg : List Byte) : EchoClient → Prop where
  | sending {call : SendAll} (h : Sending msg call) : ClientOk msg (.sending call)
  | receiving {got : List Byte} (more : got.length < msg.length)
      (room : got.length < echoBufSize - 1) : ClientOk msg (.receiving got)
  | exited {got : List Byte} (room : got.length ≤ echoBufSize - 1) :
      ClientOk msg (clientExit msg got)

/-- What holds of the server between two steps. -/
inductive ServerOk : EchoServer → Prop where
  | receiving : ServerOk .receiving
  | sending {buf : List Byte} {call : SendAll} (max : buf.length ≤ sizeMax)
      (h : Sending buf call) : ServerOk (.sending buf call)
  | closed : ServerOk .closed

variable {net : EchoNet} {msg got : List Byte} {s s' : EchoSystem}

/-- The client goes on to receive when its message and its buffer leave something to do. -/
theorem clientLoop_cases (msg got : List Byte) :
  (clientLoop msg got = .receiving got ∧ got.length < msg.length
      ∧ got.length < echoBufSize - 1)
    ∨ (clientLoop msg got = clientExit msg got
      ∧ (msg.length ≤ got.length ∨ echoBufSize - 1 ≤ got.length))
  := by
  rw [clientLoop]
  split
  case isTrue hlt =>
    by_cases hcap : echoBufSize - 1 - got.length = 0
    · rw [tcpRecvError, if_pos (.inr hcap)]
      exact .inr ⟨rfl, .inr (by omega)⟩
    · rw [tcpRecvError, if_neg (not_or.mpr ⟨by decide, hcap⟩)]
      exact .inl ⟨rfl, hlt, by omega⟩
  case isFalse hge => exact .inr ⟨rfl, .inl (Nat.le_of_not_lt hge)⟩

theorem clientOk_loop (room : got.length ≤ echoBufSize - 1) :
  ClientOk msg (clientLoop msg got)
  := by
  rcases clientLoop_cases msg got with ⟨heq, more, hroom⟩ | ⟨heq, -⟩ <;> rw [heq]
  · exact .receiving more hroom
  · exact .exited room

/-- The client starts to send a message that is not empty. -/
theorem clientStart_of_ne_nil (h : msg ≠ []) :
  clientStart msg = .sending (.start msg)
  := by
  rw [clientStart, tcpSendError, if_neg]
  rw [not_or, List.length_eq_zero_iff]
  exact ⟨by decide, h⟩

theorem serverRecv_of_ne_nil {bytes : List Byte} (h : bytes ≠ []) :
  serverRecv (.received bytes) = .sending bytes (.start bytes)
  := by
  rw [serverRecv, nwRecv]
  dsimp only
  rw [tcpSendError, if_neg]
  rw [not_or, List.length_eq_zero_iff]
  exact ⟨by decide, h⟩

/-! ### Steps -/

/-- A step that passes bytes on. -/
structure EchoPass (net : EchoNet) (msg : List Byte) (s s' : EchoSystem) : Prop where
  pass : Conveyor.Pass (s.places msg) (s'.places msg)
  client : ClientOk msg s'.client
  server : ServerOk s'.server
  clientOpen : s.clientGone = true → s'.clientGone = true ∧ s'.client = s.client
  serverOpen : s'.serverGone = s.serverGone
  front : s.serverGone = true → s'.got ++ s'.back = s.got ++ s.back
  /-- The client exits only with its whole message, or with its buffer full. -/
  full : s'.clientGone = true → s.clientGone = false →
    msg.length ≤ s'.got.length ∨ echoBufSize - 1 ≤ s'.got.length
  out_le : s.out.length ≤ net.outRoom → s'.out.length ≤ net.outRoom
  back_le : s.back.length ≤ net.backRoom → s'.back.length ≤ net.backRoom
  signals : s'.signals = s.signals

/-- What a step can do. -/
inductive EchoStep (net : EchoNet) (msg : List Byte) (s : EchoSystem) : EchoSystem → Prop where
  | passes {s' : EchoSystem} (h : EchoPass net msg s s') : EchoStep net msg s s'
  | interrupted (pos : 0 < s.signals) : EchoStep net msg s { s with signals := s.signals - 1 }
  /-- The client exits after a call that failed, or at the end of the stream. -/
  | clientExits (isOpen : s.clientGone = false)
      (cause : net.faulty = true ∨ s.serverGone = true) :
      EchoStep net msg s { s with client := clientExit msg s.got }
  /-- The server closes after a call that failed, or at the end of the stream. -/
  | serverCloses (isOpen : s.serverGone = false)
      (cause : net.faulty = true ∨ s.clientGone = true) :
      EchoStep net msg s { s with server := .closed }

/-- What `send` can do on a direction of the connection. -/
theorem sendSignals_cases
    {free signals signals' : ℕ} {mayFail : Bool} {outcome : SendOutcome}
    (h : sendSignals free mayFail signals outcome = some signals') :
  (∃ n, outcome = .accepted n ∧ n ≤ free ∧ (n = 0 → mayFail = true) ∧ signals' = signals)
    ∨ (outcome = .failed true ∧ 0 < signals ∧ signals' = signals - 1)
    ∨ (outcome = .failed false ∧ mayFail = true ∧ signals' = signals)
  := by
  rcases outcome with n | (_ | _) <;> rw [sendSignals, Option.ite_none_right_eq_some] at h
  · obtain ⟨⟨hfree, hzero⟩, heq⟩ := h
    exact .inl ⟨n, rfl, hfree, hzero, (Option.some.inj heq).symm⟩
  · exact .inr (.inr ⟨rfl, h.1, (Option.some.inj h.2).symm⟩)
  · exact .inr (.inl ⟨rfl, h.1, (Option.some.inj h.2).symm⟩)

/-- What `recv` can do on a direction of the connection. -/
theorem recvStream_cases
    {bytes bytes' : List Byte} {cap signals signals' : ℕ} {closed mayFail : Bool}
    {outcome : RecvOutcome}
    (h : recvStream bytes cap closed mayFail signals outcome = some (bytes', signals')) :
  (∃ got, outcome = .received got ∧ got ≠ [] ∧ got.length ≤ cap ∧ bytes = got ++ bytes'
      ∧ signals' = signals)
    ∨ (outcome = .received [] ∧ bytes = bytes' ∧ closed = true ∧ signals' = signals)
    ∨ (outcome = .failed true ∧ 0 < signals ∧ bytes' = bytes ∧ signals' = signals - 1)
    ∨ (outcome = .failed false ∧ mayFail = true ∧ bytes' = bytes ∧ signals' = signals)
  := by
  rcases outcome with got | (_ | _) <;> rw [recvStream] at h
  · split at h
    case isTrue hnil =>
      rw [Option.ite_none_right_eq_some] at h
      obtain ⟨⟨rfl, hclosed⟩, heq⟩ := h
      cases heq
      exact .inr (.inl ⟨by rw [hnil], rfl, hclosed, rfl⟩)
    case isFalse hnil =>
      rw [Option.ite_none_right_eq_some] at h
      obtain ⟨⟨hcap, hback⟩, heq⟩ := h
      obtain ⟨rest, rfl⟩ := List.isPrefixOf_iff_prefix.mp hback
      rw [List.drop_left] at heq
      cases heq
      exact .inl ⟨got, rfl, hnil, hcap, rfl, rfl⟩
  · rw [Option.ite_none_right_eq_some] at h
    obtain ⟨hfail, heq⟩ := h
    cases heq
    exact .inr (.inr (.inr ⟨rfl, hfail, rfl, rfl⟩))
  · rw [Option.ite_none_right_eq_some] at h
    obtain ⟨hpos, heq⟩ := h
    cases heq
    exact .inr (.inr (.inl ⟨rfl, hpos, rfl, rfl⟩))

theorem ClientOk.sending_of {call : SendAll} (h : ClientOk msg (.sending call)) :
  Sending msg call
  := by
  generalize hclient : EchoClient.sending call = client at h
  cases h with
  | sending h =>
      cases hclient
      exact h
  | receiving => cases hclient
  | exited => cases hclient

theorem ClientOk.receiving_of (h : ClientOk msg (.receiving got)) :
  got.length < msg.length ∧ got.length < echoBufSize - 1
  := by
  generalize hclient : EchoClient.receiving got = client at h
  cases h with
  | sending => cases hclient
  | receiving more room =>
      cases hclient
      exact ⟨more, room⟩
  | exited => cases hclient

theorem ServerOk.sending_of {buf : List Byte} {call : SendAll} (h : ServerOk (.sending buf call)) :
  buf.length ≤ sizeMax ∧ Sending buf call
  := by
  cases h with
  | sending max h => exact ⟨max, h⟩

/-- A client that sends its message has received nothing. -/
theorem EchoStep.clientFails
    {call : SendAll} {server : EchoServer} {out back : List Byte} {signals : ℕ}
    (hmsg : msg ≠ []) (cause : net.faulty = true
      ∨ EchoSystem.serverGone ⟨.sending call, server, out, back, signals⟩ = true) :
  EchoStep net msg ⟨.sending call, server, out, back, signals⟩
    ⟨.exited [] 1, server, out, back, signals⟩
  := by
  have hexit : clientExit msg [] = .exited [] 1 := by
    rw [clientExit, if_neg]
    intro hlength
    exact hmsg (List.length_eq_zero_iff.mp hlength.symm)
  have hstep : EchoStep net msg ⟨.sending call, server, out, back, signals⟩
      ⟨clientExit msg [], server, out, back, signals⟩ := EchoStep.clientExits rfl cause
  rw [hexit] at hstep
  exact hstep

/-- The client hands bytes to the kernel, and goes on to send the others or to receive. -/
theorem EchoPass.clientSends
    {call : SendAll} {client : EchoClient} {server : EchoServer} {out back bytes : List Byte}
    {signals : ℕ} (hclient : ClientOk msg client) (hserver : ServerOk server) (hbytes : bytes ≠ [])
    (hrest : (∃ call', client = .sending call' ∧ call.rest msg = bytes ++ call'.rest msg)
      ∨ (client = .receiving [] ∧ call.rest msg = bytes))
    (room : bytes.length ≤ net.outRoom - out.length) :
  EchoPass net msg ⟨.sending call, server, out, back, signals⟩
    ⟨client, server, out ++ bytes, back, signals⟩
  where
  pass := by
    have hpass : ∀ rest, Conveyor.Pass [out, bytes ++ rest] [out ++ bytes, rest] :=
      fun rest => .first hbytes
    rcases hrest with ⟨call', rfl, hrest⟩ | ⟨rfl, hrest⟩
    · simp only [EchoSystem.places, EchoSystem.got, EchoSystem.unsent, hrest]
      exact .later (.later (.later (hpass _)))
    · have hlast := hpass []
      rw [List.append_nil] at hlast
      simp only [EchoSystem.places, EchoSystem.got, EchoSystem.unsent, hrest]
      exact .later (.later (.later hlast))
  client := hclient
  server := hserver
  clientOpen h := by cases h
  serverOpen := rfl
  front _ := by rcases hrest with ⟨call', rfl, -⟩ | ⟨rfl, -⟩ <;> rfl
  full h := by rcases hrest with ⟨call', rfl, -⟩ | ⟨rfl, -⟩ <;> cases h
  out_le h := by
    have hpos := List.length_pos_iff.mpr hbytes
    rw [List.length_append]
    dsimp only at h
    omega
  back_le := id
  signals := rfl

/-- The server hands bytes to the kernel, and goes on to send the others or to receive. -/
theorem EchoPass.serverSends
    {buf : List Byte} {call : SendAll} {client : EchoClient} {server : EchoServer}
    {out back bytes : List Byte} {signals : ℕ} (hclient : ClientOk msg client)
    (hserver : ServerOk server) (hbytes : bytes ≠ [])
    (hrest : (∃ call', server = .sending buf call' ∧ call.rest buf = bytes ++ call'.rest buf)
      ∨ (server = .receiving ∧ call.rest buf = bytes))
    (room : bytes.length ≤ net.backRoom - back.length) :
  EchoPass net msg ⟨client, .sending buf call, out, back, signals⟩
    ⟨client, server, out, back ++ bytes, signals⟩
  where
  pass := by
    have hpass : ∀ rest places, Conveyor.Pass (back :: (bytes ++ rest) :: places)
        ((back ++ bytes) :: rest :: places) := fun rest places => .first hbytes
    rcases hrest with ⟨call', rfl, hrest⟩ | ⟨rfl, hrest⟩
    · simp only [EchoSystem.places, EchoSystem.pending, hrest]
      exact .later (hpass _ _)
    · have hlast := hpass [] [out, EchoSystem.unsent msg ⟨client, .receiving, out, back, signals⟩]
      rw [List.append_nil] at hlast
      simp only [EchoSystem.places, EchoSystem.pending, hrest]
      exact .later hlast
  client := hclient
  server := hserver
  clientOpen h := ⟨h, rfl⟩
  serverOpen := by rcases hrest with ⟨call', rfl, -⟩ | ⟨rfl, -⟩ <;> rfl
  front h := by cases h
  full h h' := absurd (h.symm.trans h') (by decide)
  out_le := id
  back_le h := by
    have hpos := List.length_pos_iff.mpr hbytes
    rw [List.length_append]
    dsimp only at h
    omega
  signals := rfl

/-- A call of `send` in the client. -/
theorem echoStep_clientSend
    {call : SendAll} {server : EchoServer} {out back : List Byte} {signals signals' : ℕ}
    {outcome : SendOutcome} {call' : SendAll} {client : EchoClient} (hmax : msg.length ≤ sizeMax)
    (hsending : Sending msg call) (hserver : ServerOk server)
    (hsignals : sendSignals (net.outRoom - out.length)
      (net.faulty || EchoSystem.serverGone ⟨.sending call, server, out, back, signals⟩) signals
      outcome = some signals')
    (hsend : clientSend msg call outcome = some (call', client)) :
  EchoStep net msg ⟨.sending call, server, out, back, signals⟩
    ⟨client, server, out ++ call.handed call', back, signals'⟩
  := by
  obtain ⟨call'', hround, heq⟩ := Option.map_eq_some_iff.mp hsend
  obtain ⟨rfl, rfl⟩ := Prod.mk.inj heq
  have hmsg : msg ≠ [] := by
    rintro rfl
    exact hsending.rest_ne_nil List.drop_nil
  cases hsending.round hmax hround with
  | @part n _ pos lt handed rest sending =>
      obtain ⟨n', hn, hfree, -, rfl⟩ | ⟨hn, -⟩ | ⟨hn, -⟩ := sendSignals_cases hsignals <;> cases hn
      have hlength : ((call.rest msg).take n).length = n := List.length_take_of_le (Nat.le_of_lt lt)
      rw [sending.running, handed]
      apply EchoStep.passes
      apply EchoPass.clientSends (.sending sending) hserver
      · rw [← List.length_pos_iff, hlength]
        exact pos
      · exact .inl ⟨_, rfl, by rw [rest, List.take_append_drop]⟩
      · rw [hlength]
        exact hfree
  | last handed code =>
      obtain ⟨n', hn, hfree, -, rfl⟩ | ⟨hn, -⟩ | ⟨hn, -⟩ := sendSignals_cases hsignals <;> cases hn
      have hloop : clientLoop msg [] = .receiving [] := by
        rcases clientLoop_cases msg [] with ⟨heq, -⟩ | ⟨-, hnil | hfull⟩
        · exact heq
        · exact absurd (List.length_eq_zero_iff.mp (Nat.le_zero.mp hnil)) hmsg
        · exact absurd hfull (by decide)
      rw [code, handed]
      dsimp only
      apply EchoStep.passes
      apply EchoPass.clientSends (clientOk_loop (Nat.zero_le _)) hserver hsending.rest_ne_nil
      · exact .inr ⟨hloop, rfl⟩
      · exact hfree
  | interrupted =>
      obtain ⟨n', hn, -⟩ | ⟨-, hpos, rfl⟩ | ⟨hn, -⟩ := sendSignals_cases hsignals
      · cases hn
      · rw [hsending.running, SendAll.handed_self, List.append_nil]
        exact .interrupted hpos
      · cases hn
  | failed fatal handed code =>
      rw [code, handed, List.append_nil]
      obtain ⟨n', rfl, -, hzero, rfl⟩ | ⟨rfl, -⟩ | ⟨rfl, hfail, rfl⟩ := sendSignals_cases hsignals
      · rcases fatal with hn | hn <;> cases hn
        apply EchoStep.clientFails hmsg
        simpa only [Bool.or_eq_true] using hzero rfl
      · rcases fatal with hn | hn <;> cases hn
      · apply EchoStep.clientFails hmsg
        simpa only [Bool.or_eq_true] using hfail

/-- A call of `send` in the server. -/
theorem echoStep_serverSend
    {buf : List Byte} {call : SendAll} {client : EchoClient} {out back : List Byte}
    {signals signals' : ℕ} {outcome : SendOutcome} {call' : SendAll} {server : EchoServer}
    (hmax : buf.length ≤ sizeMax) (hclient : ClientOk msg client) (hsending : Sending buf call)
    (hsignals : sendSignals (net.backRoom - back.length)
      (net.faulty || EchoSystem.clientGone ⟨client, .sending buf call, out, back, signals⟩) signals
      outcome = some signals')
    (hsend : serverSend buf call outcome = some (call', server)) :
  EchoStep net msg ⟨client, .sending buf call, out, back, signals⟩
    ⟨client, server, out, back ++ call.handed call', signals'⟩
  := by
  obtain ⟨call'', hround, heq⟩ := Option.map_eq_some_iff.mp hsend
  obtain ⟨rfl, rfl⟩ := Prod.mk.inj heq
  cases hsending.round hmax hround with
  | @part n _ pos lt handed rest sending =>
      obtain ⟨n', hn, hfree, -, rfl⟩ | ⟨hn, -⟩ | ⟨hn, -⟩ := sendSignals_cases hsignals <;> cases hn
      have hlength : ((call.rest buf).take n).length = n := List.length_take_of_le (Nat.le_of_lt lt)
      rw [sending.running, handed]
      apply EchoStep.passes
      apply EchoPass.serverSends hclient (.sending hmax sending)
      · rw [← List.length_pos_iff, hlength]
        exact pos
      · exact .inl ⟨_, rfl, by rw [rest, List.take_append_drop]⟩
      · rw [hlength]
        exact hfree
  | last handed code =>
      obtain ⟨n', hn, hfree, -, rfl⟩ | ⟨hn, -⟩ | ⟨hn, -⟩ := sendSignals_cases hsignals <;> cases hn
      rw [code, handed]
      apply EchoStep.passes
      apply EchoPass.serverSends hclient .receiving hsending.rest_ne_nil
      · exact .inr ⟨rfl, rfl⟩
      · exact hfree
  | interrupted =>
      obtain ⟨n', hn, -⟩ | ⟨-, hpos, rfl⟩ | ⟨hn, -⟩ := sendSignals_cases hsignals
      · cases hn
      · rw [hsending.running, SendAll.handed_self, List.append_nil]
        exact .interrupted hpos
      · cases hn
  | failed fatal handed code =>
      rw [code, handed, List.append_nil]
      obtain ⟨n', rfl, -, hzero, rfl⟩ | ⟨rfl, -⟩ | ⟨rfl, hfail, rfl⟩ := sendSignals_cases hsignals
      · rcases fatal with hn | hn <;> cases hn
        apply EchoStep.serverCloses rfl
        simpa only [Bool.or_eq_true] using hzero rfl
      · rcases fatal with hn | hn <;> cases hn
      · apply EchoStep.serverCloses rfl
        simpa only [Bool.or_eq_true] using hfail

/-- A call of `recv` in the client. -/
theorem echoStep_clientRecv
    {server : EchoServer} {out back back' : List Byte} {signals signals' : ℕ}
    {outcome : RecvOutcome} (hclient : ClientOk msg (.receiving got)) (hserver : ServerOk server)
    (hrecv : recvStream back (echoBufSize - 1 - got.length)
      (EchoSystem.serverGone ⟨.receiving got, server, out, back, signals⟩)
      (net.faulty || EchoSystem.serverGone ⟨.receiving got, server, out, back, signals⟩) signals
      outcome = some (back', signals')) :
  EchoStep net msg ⟨.receiving got, server, out, back, signals⟩
    ⟨clientRecv msg got outcome, server, out, back', signals'⟩
  := by
  obtain ⟨bytes, rfl, hbytes, hcap, rfl, rfl⟩ | ⟨rfl, rfl, hclosed, rfl⟩ | ⟨rfl, hpos, rfl, rfl⟩
    | ⟨rfl, hfail, rfl, rfl⟩ := recvStream_cases hrecv
  · have hroom := hclient.receiving_of.2
    have hnew : ClientOk msg (clientLoop msg (got ++ bytes)) := by
      apply clientOk_loop
      rw [List.length_append]
      omega
    have hlater := clientLoop_cases msg (got ++ bytes)
    rw [clientRecv, nwRecv]
    dsimp only
    rw [if_neg hbytes]
    apply EchoStep.passes
    exact
      { pass := by
          rcases hlater with ⟨heq, -⟩ | ⟨heq, -⟩ <;> rw [heq] <;> exact .first hbytes
        client := hnew
        server := hserver
        clientOpen := fun h => (by cases h)
        serverOpen := rfl
        front := fun _ => by
          rcases hlater with ⟨heq, -⟩ | ⟨heq, -⟩ <;> rw [heq] <;>
            exact List.append_assoc got bytes back'
        full := fun h _ => by
          rcases hlater with ⟨heq, -⟩ | ⟨heq, hfull⟩
          · rw [heq] at h
            cases h
          · rw [heq]
            exact hfull
        out_le := id
        back_le := fun h => by
          dsimp only at h ⊢
          rw [List.length_append] at h
          omega
        signals := rfl }
  · exact .clientExits rfl (.inr hclosed)
  · exact .interrupted hpos
  · apply EchoStep.clientExits rfl
    simpa only [Bool.or_eq_true] using hfail

/-- A call of `recv` in the server. -/
theorem echoStep_serverRecv
    {client : EchoClient} {out out' back : List Byte} {signals signals' : ℕ}
    {outcome : RecvOutcome} (hclient : ClientOk msg client)
    (hrecv : recvStream out echoBufSize
      (EchoSystem.clientGone ⟨client, .receiving, out, back, signals⟩)
      (net.faulty || EchoSystem.clientGone ⟨client, .receiving, out, back, signals⟩) signals
      outcome = some (out', signals')) :
  EchoStep net msg ⟨client, .receiving, out, back, signals⟩
    ⟨client, serverRecv outcome, out', back, signals'⟩
  := by
  obtain ⟨bytes, rfl, hbytes, hcap, rfl, rfl⟩ | ⟨rfl, rfl, hclosed, rfl⟩ | ⟨rfl, hpos, rfl, rfl⟩
    | ⟨rfl, hfail, rfl, rfl⟩ := recvStream_cases hrecv
  · rw [serverRecv_of_ne_nil hbytes]
    apply EchoStep.passes
    exact
      { pass := .later (.later (.first hbytes))
        client := hclient
        server := .sending (Nat.le_trans hcap (by decide)) (Sending.start hbytes)
        clientOpen := fun h => ⟨h, rfl⟩
        serverOpen := rfl
        front := fun h => (by cases h)
        full := fun h h' => absurd (h.symm.trans h') (by decide)
        out_le := fun h => by
          dsimp only at h ⊢
          rw [List.length_append] at h
          omega
        back_le := id
        signals := rfl }
  · exact .serverCloses rfl (.inr hclosed)
  · exact .interrupted hpos
  · apply EchoStep.serverCloses rfl
    simpa only [Bool.or_eq_true] using hfail

/-- Every step that `echoStep` accepts is one of the steps of `EchoStep`. -/
theorem echoStep_cases
    {a : EchoAct} {e : Option Empty} (hmax : msg.length ≤ sizeMax) (hclient : ClientOk msg s.client)
    (hserver : ServerOk s.server) (h : echoStep net msg s a = some (s', e)) :
  EchoStep net msg s s'
  := by
  obtain ⟨client, server, out, back, signals⟩ := s
  dsimp only at hclient hserver
  cases a with
  | clientSend outcome =>
      cases client with
      | sending call =>
          obtain ⟨signals', hsignals, h⟩ := Option.bind_eq_some_iff.mp h
          obtain ⟨⟨call', client'⟩, hsend, heq⟩ := Option.map_eq_some_iff.mp h
          cases heq
          apply echoStep_clientSend hmax hclient.sending_of hserver hsignals hsend
      | receiving => cases h
      | exited => cases h
  | clientRecv outcome =>
      cases client with
      | receiving got =>
          obtain ⟨⟨back', signals'⟩, hrecv, heq⟩ := Option.map_eq_some_iff.mp h
          cases heq
          apply echoStep_clientRecv hclient hserver hrecv
      | sending => cases h
      | exited => cases h
  | serverRecv outcome =>
      cases server with
      | receiving =>
          obtain ⟨⟨out', signals'⟩, hrecv, heq⟩ := Option.map_eq_some_iff.mp h
          cases heq
          apply echoStep_serverRecv hclient hrecv
      | sending => cases h
      | closed => cases h
  | serverSend outcome =>
      cases server with
      | sending buf call =>
          obtain ⟨signals', hsignals, h⟩ := Option.bind_eq_some_iff.mp h
          obtain ⟨⟨call', server'⟩, hsend, heq⟩ := Option.map_eq_some_iff.mp h
          cases heq
          obtain ⟨hbuf, hsending⟩ := hserver.sending_of
          apply echoStep_serverSend hbuf hclient hsending hsignals hsend
      | receiving => cases h
      | closed => cases h

/-! ### Runs -/

/-- The bytes of the message stay in order.  None is lost as long as both parties are there. -/
structure EchoInv (net : EchoNet) (msg : List Byte) (s : EchoSystem) : Prop where
  client : ClientOk msg s.client
  server : ServerOk s.server
  delivered : s.got ++ s.back <+: msg
  line : s.serverGone = false → (s.places msg).flatten <+: msg
  whole : s.serverGone = false → s.clientGone = false → (s.places msg).flatten = msg
  out_le : s.out.length ≤ net.outRoom
  back_le : s.back.length ≤ net.backRoom

theorem EchoSystem.flatten_places :
  (s.places msg).flatten = s.got ++ (s.back ++ (s.pending ++ (s.out ++ s.unsent msg)))
  := by
  simp only [EchoSystem.places, List.flatten_cons, List.flatten_nil, List.append_nil]

theorem ClientOk.length_got (h : ClientOk msg s.client) :
  s.got.length ≤ echoBufSize - 1
  := by
  rw [EchoSystem.got]
  generalize s.client = client at h
  cases h with
  | sending => exact Nat.zero_le _
  | receiving more room => exact Nat.le_of_lt room
  | exited room => exact room

theorem EchoInv.init (hmsg : msg ≠ []) (signals : ℕ) :
  EchoInv net msg ⟨clientStart msg, .receiving, [], [], signals⟩
  := by
  have hstart : (EchoSystem.places msg ⟨.sending (.start msg), .receiving, [], [], signals⟩).flatten
      = msg := by
    rw [EchoSystem.flatten_places]
    rfl
  rw [clientStart_of_ne_nil hmsg]
  exact
    { client := .sending (Sending.start hmsg)
      server := .receiving
      delivered := List.nil_prefix
      line := fun _ => ⟨[], (List.append_nil _).trans hstart⟩
      whole := fun _ _ => hstart
      out_le := Nat.zero_le _
      back_le := Nat.zero_le _ }

theorem EchoInv.passes (h : EchoInv net msg s) (hpass : EchoPass net msg s s') :
  EchoInv net msg s'
  := by
  have hflatten := hpass.pass.flatten_eq
  have hline : s'.serverGone = false → (s'.places msg).flatten <+: msg := by
    intro hopen
    rw [hflatten]
    apply h.line (hpass.serverOpen ▸ hopen)
  constructor
  case client => exact hpass.client
  case server => exact hpass.server
  case delivered =>
    cases hserver : s.serverGone with
    | true =>
        rw [hpass.front hserver]
        exact h.delivered
    | false =>
        apply List.IsPrefix.trans _ (hline (hpass.serverOpen.trans hserver))
        rw [EchoSystem.flatten_places, ← List.append_assoc]
        apply List.prefix_append
  case line => exact hline
  case whole =>
    intro hserver hclient
    rw [hflatten]
    apply h.whole (hpass.serverOpen ▸ hserver)
    cases hgone : s.clientGone with
    | true =>
        rw [(hpass.clientOpen hgone).1] at hclient
        cases hclient
    | false => rfl
  case out_le => exact hpass.out_le h.out_le
  case back_le => exact hpass.back_le h.back_le

/-- What the client did not send is lost when it exits. -/
theorem EchoInv.clientExits (h : EchoInv net msg s) :
  EchoInv net msg { s with client := clientExit msg s.got }
  where
  client := .exited h.client.length_got
  server := h.server
  delivered := h.delivered
  line hserver := by
    apply List.IsPrefix.trans _ (h.line hserver)
    rw [EchoSystem.flatten_places, EchoSystem.flatten_places]
    change s.got ++ (s.back ++ (s.pending ++ (s.out ++ []))) <+: _
    simp only [List.prefix_append_right_inj]
    exact List.nil_prefix
  whole _ h := by cases h
  out_le := h.out_le
  back_le := h.back_le

theorem EchoInv.step (h : EchoInv net msg s) (hstep : EchoStep net msg s s') :
  EchoInv net msg s'
  := by
  cases hstep with
  | passes hpass => apply h.passes hpass
  | interrupted =>
      exact
        { client := h.client
          server := h.server
          delivered := h.delivered
          line := h.line
          whole := h.whole
          out_le := h.out_le
          back_le := h.back_le }
  | clientExits => exact h.clientExits
  | serverCloses =>
      exact
        { client := h.client
          server := .closed
          delivered := h.delivered
          line := fun h => (by cases h)
          whole := fun h => (by cases h)
          out_le := h.out_le
          back_le := h.back_le }

theorem EchoInv.of_reaches
    {log : List Empty} (hmax : msg.length ≤ sizeMax) (hmsg : msg ≠ [])
    (h : (echoMachine net msg).Reaches log s) :
  EchoInv net msg s
  := by
  apply h.invariant (I := fun _ s => EchoInv net msg s)
  · rintro ⟨client, server, out, back, signals⟩ ⟨hclient, hserver, hout, hback⟩
    dsimp only at hclient hserver hout hback
    subst hclient hserver hout hback
    apply EchoInv.init hmsg
  · rintro log t e t' - ht ⟨a, hstep⟩
    apply ht.step (echoStep_cases hmax ht.client ht.server hstep)

/-- Whatever parts the calls of `send` and `recv` take, in whatever order, and whichever of them
fail: what the client has received, followed by what is on its way back, is the front of its
message, so that no byte is changed, repeated or out of order.  As long as neither party has closed
its socket no byte is missing: the five places hold the message.  The client returns 0 exactly when
it got its whole message back, and never writes past its buffer. -/
theorem echo_delivers
    {log : List Empty} (hmax : msg.length ≤ sizeMax) (hmsg : msg ≠ [])
    (h : (echoMachine net msg).Reaches log s) :
  s.got ++ s.back <+: msg
    ∧ (s.clientGone = false → s.serverGone = false →
      s.got ++ (s.back ++ (s.pending ++ (s.out ++ s.unsent msg))) = msg)
    ∧ (∀ got status, s.client = .exited got status → (status = 0 ↔ got = msg))
    ∧ s.got.length ≤ echoBufSize - 1
  := by
  have hI := EchoInv.of_reaches hmax hmsg h
  refine ⟨hI.delivered, ?_, ?_, hI.client.length_got⟩
  · intro hclient hserver
    rw [← EchoSystem.flatten_places]
    apply hI.whole hserver hclient
  · intro got status hexited
    have hdelivered := hI.delivered
    have hok := hI.client
    rw [EchoSystem.got, hexited] at hdelivered
    rw [hexited] at hok
    generalize hclient : EchoClient.exited got status = client at hok
    cases hok with
    | sending => cases hclient
    | receiving => cases hclient
    | exited =>
        cases hclient
        have hfront : got <+: msg := (List.prefix_append _ _).trans hdelivered
        split
        case isTrue hlength => exact iff_of_true rfl (hfront.eq_of_length hlength)
        case isFalse hlength =>
          apply iff_of_false (by decide)
          rintro rfl
          exact hlength rfl

/-- A message of two bytes goes out in two parts and comes back in one. -/
theorem echo_delivers_of_run :
  ∃ s, (echoMachine ⟨8, 8, false⟩ [104, 105]).Reaches [] s ∧ s.client = .exited [104, 105] 0
    ∧ s.got ++ s.back <+: [104, 105] ∧ s.got.length ≤ echoBufSize - 1
  := by
  have hrun : StateMachine.run (echoStep ⟨8, 8, false⟩ [104, 105])
      ⟨clientStart [104, 105], .receiving, [], [], 1⟩
      [.clientSend (.accepted 1), .serverRecv (.failed true), .clientSend (.accepted 1),
        .serverRecv (.received [104, 105]), .serverSend (.accepted 2),
        .clientRecv (.received [104, 105]), .serverRecv (.received [])]
    = some (⟨.exited [104, 105] 0, .closed, [], [], 0⟩, []) := by
    decide
  have hs : (echoMachine ⟨8, 8, false⟩ [104, 105]).Reaches _ _ :=
    StateMachine.reaches_of_run ⟨rfl, rfl, rfl, rfl⟩ hrun
  obtain ⟨hdelivered, -, -, hlength⟩ := echo_delivers (by decide) (by decide) hs
  exact ⟨_, hs, rfl, hdelivered, hlength⟩

end CTemplate

import CTemplate.Library.Inevitable
import CTemplate.Networking.Echo.Delivery

/-!
# When the echo client gets its message back

The client receives nothing before it has sent all of its message, while the server stops to
receive as long as it cannot send.  On a connection that does not fail, every run ends with the
message back at the client exactly when the connection and one byte in the server can hold it;
with one byte more the two parties can wait for each other forever.
-/

namespace CTemplate

variable {net : EchoNet} {msg got : List Byte} {s s' : EchoSystem}

/-! ### Every run ends -/

/-- How many steps can follow. -/
def EchoSystem.rank (msg : List Byte) (s : EchoSystem) : ℕ :=
  Conveyor.rank (s.places msg) + s.signals + (!s.clientGone).toNat + (!s.serverGone).toNat

/-- Every step lowers the rank, also on a faulty connection. -/
theorem EchoStep.rank_lt (hstep : EchoStep net msg s s') :
  s'.rank msg < s.rank msg
  := by
  cases hstep with
  | passes h =>
      have hrank := h.pass.rank_lt
      have hclient : (!s'.clientGone).toNat ≤ (!s.clientGone).toNat := by
        cases hgone : s.clientGone with
        | true => rw [(h.clientOpen hgone).1]
        | false => apply Bool.toNat_le
      rw [EchoSystem.rank, EchoSystem.rank, h.serverOpen, h.signals]
      omega
  | interrupted pos =>
      have hlt : s.signals - 1 < s.signals := by omega
      have hsame : ∀ {a b c n m : ℕ}, n < m → a + n + b + c < a + m + b + c := by
        intro a b c n m h
        omega
      exact hsame hlt
  | clientExits isOpen =>
      have hle := Conveyor.rank_set_nil_le (s.places msg) 4
      have hrank : EchoSystem.rank msg { s with client := clientExit msg s.got }
          = Conveyor.rank ((s.places msg).set 4 []) + s.signals + 0 + (!s.serverGone).toNat := rfl
      rw [hrank, EchoSystem.rank, isOpen, Bool.not_false, Bool.toNat_true]
      omega
  | serverCloses isOpen =>
      have hle := Conveyor.rank_set_nil_le (s.places msg) 2
      have hrank : EchoSystem.rank msg { s with server := .closed }
          = Conveyor.rank ((s.places msg).set 2 []) + s.signals + (!s.clientGone).toNat + 0 := rfl
      rw [hrank, EchoSystem.rank, isOpen, Bool.not_false, Bool.toNat_true]
      omega

/-! ### A connection that does not fail -/

/-- The client exits with its message, and the server closes only after it. -/
structure EchoSound (net : EchoNet) (msg : List Byte) (s : EchoSystem) : Prop where
  inv : EchoInv net msg s
  exited : s.clientGone = true → s.client = .exited msg 0
  closed : s.serverGone = true → s.clientGone = true

theorem EchoSound.init (hmsg : msg ≠ []) (signals : ℕ) :
  EchoSound net msg ⟨clientStart msg, .receiving, [], [], signals⟩
  := by
  use EchoInv.init hmsg signals
  · rw [clientStart_of_ne_nil hmsg]
    intro h
    cases h
  · intro h
    cases h

/-- A client that is done with at least as many bytes as its message has got the message. -/
theorem EchoInv.exited_of_full
    (h : EchoInv net msg s) (hgone : s.clientGone = true) (hfull : msg.length ≤ s.got.length) :
  s.client = .exited msg 0
  := by
  have hfront : s.got <+: msg := (List.prefix_append _ _).trans h.delivered
  have hgot : s.got = msg := hfront.eq_of_length_le hfull
  have hclient := h.client
  rw [EchoSystem.clientGone] at hgone
  rw [EchoSystem.got] at hgot
  generalize s.client = client at hclient hgone hgot
  cases hclient with
  | sending => cases hgone
  | receiving => cases hgone
  | @exited got room =>
      have heq : got = msg := hgot
      rw [clientExit, if_pos (congrArg List.length heq), heq]

theorem EchoSound.step
    (hfaulty : net.faulty = false) (hlen : msg.length ≤ echoBufSize - 1)
    (h : EchoSound net msg s) (hstep : EchoStep net msg s s') :
  EchoSound net msg s'
  := by
  have hinv := h.inv.step hstep
  cases hstep with
  | passes hpass =>
      use hinv
      · intro hgone'
        cases hgone : s.clientGone with
        | true =>
            rw [(hpass.clientOpen hgone).2]
            exact h.exited hgone
        | false =>
            apply hinv.exited_of_full hgone'
            have := hpass.full hgone' hgone
            omega
      · intro hserver
        rw [hpass.serverOpen] at hserver
        exact (hpass.clientOpen (h.closed hserver)).1
  | interrupted => exact ⟨hinv, h.exited, h.closed⟩
  | clientExits isOpen cause =>
      rcases cause with hfault | hserver
      · rw [hfaulty] at hfault
        cases hfault
      · rw [h.closed hserver] at isOpen
        cases isOpen
  | serverCloses isOpen cause =>
      rcases cause with hfault | hclient
      · rw [hfaulty] at hfault
        cases hfault
      · exact ⟨hinv, h.exited, fun _ => hclient⟩

/-- Where there is room, one byte can be sent. -/
theorem sendSignals_one {free : ℕ} (hfree : 0 < free) (mayFail : Bool) (signals : ℕ) :
  sendSignals free mayFail signals (.accepted 1) = some signals
  := if_pos ⟨hfree, fun h => absurd h (by decide)⟩

theorem exists_step_of_isSome {a : EchoAct} (h : (echoStep net msg s a).isSome) :
  ∃ e s', (echoMachine net msg).step s e s'
  := by
  obtain ⟨⟨s', e⟩, hstep⟩ := Option.isSome_iff_exists.mp h
  exact ⟨e, s', a, hstep⟩

/-- The client can send when there is room on the way to the server. -/
theorem exists_clientSend
    {call : SendAll} (hmax : msg.length ≤ sizeMax) (hclient : s.client = .sending call)
    (h : Sending msg call) (room : s.out.length < net.outRoom) :
  ∃ e s', (echoMachine net msg).step s e s'
  := by
  have hpos := List.length_pos_iff.mpr h.rest_ne_nil
  have hrest : (call.rest msg).length = msg.length - call.sent := List.length_drop
  obtain ⟨call', hround, -⟩ := h.accepted hmax (n := 1) (by decide) (by omega)
  have hfree : 0 < net.outRoom - s.out.length := by omega
  apply exists_step_of_isSome (a := .clientSend (.accepted 1))
  simp only [echoStep, hclient, sendSignals_one hfree, Option.bind_some, clientSend, hround,
    Option.map_some, Option.isSome_some]

/-- The server can send when there is room on the way back. -/
theorem exists_serverSend
    {buf : List Byte} {call : SendAll} (hmax : buf.length ≤ sizeMax)
    (hserver : s.server = .sending buf call) (h : Sending buf call)
    (room : s.back.length < net.backRoom) :
  ∃ e s', (echoMachine net msg).step s e s'
  := by
  have hpos := List.length_pos_iff.mpr h.rest_ne_nil
  have hrest : (call.rest buf).length = buf.length - call.sent := List.length_drop
  obtain ⟨call', hround, -⟩ := h.accepted hmax (n := 1) (by decide) (by omega)
  have hfree : 0 < net.backRoom - s.back.length := by omega
  apply exists_step_of_isSome (a := .serverSend (.accepted 1))
  simp only [echoStep, hserver, sendSignals_one hfree, Option.bind_some, serverSend, hround,
    Option.map_some, Option.isSome_some]

/-- The first byte on its way can be received. -/
theorem recvStream_head
    (b : Byte) (rest : List Byte) {cap : ℕ} (hcap : 0 < cap) (closed mayFail : Bool)
    (signals : ℕ) :
  recvStream (b :: rest) cap closed mayFail signals (.received [b]) = some (rest, signals)
  := by
  rw [recvStream, if_neg (List.cons_ne_nil _ _), if_pos]
  · rfl
  · exact ⟨hcap, by simp⟩

/-- The client can receive what is on its way back. -/
theorem exists_clientRecv
    (hclient : s.client = .receiving got) (hok : ClientOk msg (.receiving got))
    (hback : s.back ≠ []) :
  ∃ e s', (echoMachine net msg).step s e s'
  := by
  have hroom := hok.receiving_of.2
  obtain ⟨b, rest, hcons⟩ := List.exists_cons_of_ne_nil hback
  apply exists_step_of_isSome (a := .clientRecv (.received [b]))
  simp only [echoStep, hclient, hcons]
  rw [recvStream_head b rest (by omega)]
  rfl

/-- The server can receive what is on its way, or learn that the client is gone. -/
theorem exists_serverRecv
    (hserver : s.server = .receiving) (h : s.out ≠ [] ∨ s.clientGone = true) :
  ∃ e s', (echoMachine net msg).step s e s'
  := by
  rcases hout : s.out with _ | ⟨b, rest⟩
  · have hgone := h.resolve_left (not_not.mpr hout)
    apply exists_step_of_isSome (a := .serverRecv (.received []))
    simp only [echoStep, hserver, hout, hgone]
    rw [recvStream, if_pos rfl, if_pos ⟨rfl, rfl⟩]
    rfl
  · apply exists_step_of_isSome (a := .serverRecv (.received [b]))
    simp only [echoStep, hserver, hout]
    rw [recvStream_head b rest (by decide)]
    rfl

/-- The server notices that the client is gone when it sends. -/
theorem exists_serverFails
    {buf : List Byte} {call : SendAll} (hserver : s.server = .sending buf call)
    (h : Sending buf call) (hgone : s.clientGone = true) :
  ∃ e s', (echoMachine net msg).step s e s'
  := by
  have hround : sendRound buf buf.length call (.failed false)
      = some { call with code := some .io } := by
    rw [sendRound, if_pos h.running]
    rfl
  apply exists_step_of_isSome (a := .serverSend (.failed false))
  simp only [echoStep, hserver, hgone, sendSignals, Bool.or_true, if_true, Option.bind_some,
    serverSend, hround,
    Option.map_some, Option.isSome_some]

/-- As long as the client sends, one of the two parties can go on. -/
theorem EchoSound.progress_sending
    (hout : 0 < net.outRoom) (hmax : msg.length ≤ sizeMax)
    (hroom : msg.length ≤ net.outRoom + net.backRoom + 1) (h : EchoSound net msg s)
    {call : SendAll} (hclient : s.client = .sending call) :
  ∃ e s', (echoMachine net msg).step s e s'
  := by
  have hsending : Sending msg call := by
    have hok := h.inv.client
    rw [hclient] at hok
    exact hok.sending_of
  by_cases hfree : s.out.length < net.outRoom
  · apply exists_clientSend hmax hclient hsending hfree
  cases hserver : s.server with
  | receiving =>
      apply exists_serverRecv hserver (.inl _)
      rw [← List.length_pos_iff]
      omega
  | sending buf call' =>
      have hok := h.inv.server
      rw [hserver] at hok
      obtain ⟨hbuf, hsending'⟩ := hok.sending_of
      apply exists_serverSend hbuf hserver hsending'
      by_contra hfull
      -- both directions are full, and both parties have a byte more to send
      have hgone : s.clientGone = false := by rw [EchoSystem.clientGone, hclient]
      have hgone' : s.serverGone = false := by rw [EchoSystem.serverGone, hserver]
      have hwhole := congrArg List.length (h.inv.whole hgone' hgone)
      have hpending : s.pending = call'.rest buf := by rw [EchoSystem.pending, hserver]
      have hunsent : s.unsent msg = call.rest msg := by rw [EchoSystem.unsent, hclient]
      have hpos := List.length_pos_iff.mpr hsending.rest_ne_nil
      have hpos' := List.length_pos_iff.mpr hsending'.rest_ne_nil
      rw [EchoSystem.flatten_places, hpending, hunsent] at hwhole
      simp only [List.length_append] at hwhole
      omega
  | closed =>
      have hgone := h.closed (by rw [EchoSystem.serverGone, hserver])
      rw [EchoSystem.clientGone, hclient] at hgone
      cases hgone

/-- While the client receives, one of the two parties can go on. -/
theorem EchoSound.progress_receiving
    (hback : 0 < net.backRoom) (h : EchoSound net msg s) (hclient : s.client = .receiving got) :
  ∃ e s', (echoMachine net msg).step s e s'
  := by
  have hok := h.inv.client
  rw [hclient] at hok
  by_cases hnil : s.back = []
  · cases hserver : s.server with
    | receiving =>
        apply exists_serverRecv hserver (.inl _)
        intro hout
        have hgone : s.clientGone = false := by rw [EchoSystem.clientGone, hclient]
        have hgone' : s.serverGone = false := by rw [EchoSystem.serverGone, hserver]
        have hwhole := congrArg List.length (h.inv.whole hgone' hgone)
        have hgot : s.got = got := by rw [EchoSystem.got, hclient]
        have hpending : s.pending = [] := by rw [EchoSystem.pending, hserver]
        have hunsent : s.unsent msg = [] := by rw [EchoSystem.unsent, hclient]
        rw [EchoSystem.flatten_places, hgot, hnil, hpending, hout, hunsent] at hwhole
        simp only [List.append_nil] at hwhole
        have hmore := hok.receiving_of.1
        omega
    | sending buf call =>
        have hok' := h.inv.server
        rw [hserver] at hok'
        obtain ⟨hbuf, hsending⟩ := hok'.sending_of
        apply exists_serverSend hbuf hserver hsending
        rw [hnil]
        exact hback
    | closed =>
        have hgone := h.closed (by rw [EchoSystem.serverGone, hserver])
        rw [EchoSystem.clientGone, hclient] at hgone
        cases hgone
  · apply exists_clientRecv hclient hok hnil

/-- One of the two parties can go on until both are done. -/
theorem EchoSound.progress
    (hout : 0 < net.outRoom) (hback : 0 < net.backRoom) (hmax : msg.length ≤ sizeMax)
    (hroom : msg.length ≤ net.outRoom + net.backRoom + 1) (h : EchoSound net msg s)
    (hdone : ¬s.Done msg) :
  ∃ e s', (echoMachine net msg).step s e s'
  := by
  cases hclient : s.client with
  | sending call => apply h.progress_sending hout hmax hroom hclient
  | receiving got => apply h.progress_receiving hback hclient
  | exited got status =>
      have hgone : s.clientGone = true := by rw [EchoSystem.clientGone, hclient]
      cases hserver : s.server with
      | receiving => apply exists_serverRecv hserver (.inr hgone)
      | sending buf call =>
          have hok := h.inv.server
          rw [hserver] at hok
          apply exists_serverFails hserver hok.sending_of.2 hgone
      | closed => exact absurd ⟨h.exited hgone, hserver⟩ hdone

/-! ### Messages that are too long -/

/-- The client has sent `i` bytes, and all of them are on their way back. -/
def echoFill (msg : List Byte) (i : ℕ) : EchoSystem where
  client := .sending ⟨i, msg.take i, none⟩
  server := .receiving
  out := []
  back := msg.take i
  signals := 0

/-- The way back holds `k` bytes, the server has one to send, and `j` are on their way to it. -/
def echoBlock (msg : List Byte) (k : ℕ) (b : Byte) (j : ℕ) : EchoSystem where
  client := .sending ⟨k + 1 + j, msg.take (k + 1 + j), none⟩
  server := .sending [b] (.start [b])
  out := (msg.drop (k + 1)).take j
  back := msg.take k
  signals := 0

/-- The client sends one byte of several. -/
theorem clientSend_one {i : ℕ} {b : Byte} (hmax : msg.length ≤ sizeMax) (hb : msg[i]? = some b)
    (hlt : i + 1 < msg.length) :
  ∃ call', clientSend msg ⟨i, msg.take i, none⟩ (.accepted 1) = some (call', .sending call')
    ∧ call' = ⟨i + 1, msg.take (i + 1), none⟩
    ∧ SendAll.handed ⟨i, msg.take i, none⟩ call' = [b]
  := by
  have hsize : toSize (i + 1) = i + 1 := toSize_of_le (by omega)
  have hone : (msg.drop i).take 1 = [b] := by
    rw [List.take_one, List.head?_drop, hb, Option.toList_some]
  have hround : sendRound msg msg.length ⟨i, msg.take i, none⟩ (.accepted 1)
      = some ⟨i + 1, msg.take i ++ [b], none⟩ := by
    rw [sendRound, if_pos rfl]
    dsimp only
    rw [if_pos (by omega), if_neg (by decide), Buffer.read, if_pos (by omega), hone,
      Option.map_some, hsize, sendLoop, if_pos hlt]
  have htake : msg.take (i + 1) = msg.take i ++ [b] := by
    rw [List.take_add_one, hb, Option.toList_some]
  refine ⟨_, ?_, rfl, ?_⟩
  · rw [clientSend, hround, Option.map_some, htake]
  · rw [SendAll.handed]
    dsimp only
    rw [htake, List.drop_left]

/-- One byte goes to the server and back. -/
theorem steps_echoFill_succ
    (hout : 0 < net.outRoom) (hmax : msg.length ≤ sizeMax) {i : ℕ}
    (hi : i < net.backRoom) (hlt : i + 1 < msg.length) :
  (echoMachine net msg).Steps (echoFill msg i) [] (echoFill msg (i + 1))
  := by
  obtain ⟨b, hb⟩ : ∃ b, msg[i]? = some b := ⟨_, List.getElem?_eq_getElem (by omega)⟩
  obtain ⟨call', hsend, rfl, hhanded⟩ := clientSend_one hmax hb hlt
  have htake : msg.take (i + 1) = msg.take i ++ [b] := by
    rw [List.take_add_one, hb, Option.toList_some]
  have hlength : (msg.take i).length = i := List.length_take_of_le (by omega)
  have hrun : StateMachine.run (echoStep net msg) (echoFill msg i)
      [.clientSend (.accepted 1), .serverRecv (.received [b]), .serverSend (.accepted 1)]
    = some (echoFill msg (i + 1), []) := by
    have hfirst : echoStep net msg (echoFill msg i) (.clientSend (.accepted 1))
        = some ({ echoFill msg i with
            client := .sending ⟨i + 1, msg.take (i + 1), none⟩, out := [b] }, none) := by
      simp only [echoStep, echoFill]
      rw [List.length_nil, Nat.sub_zero, sendSignals_one hout, Option.bind_some, hsend,
        Option.map_some, hhanded]
      rfl
    have hsecond : echoStep net msg { echoFill msg i with
            client := .sending ⟨i + 1, msg.take (i + 1), none⟩, out := [b] }
          (.serverRecv (.received [b]))
        = some ({ echoFill msg i with
            client := .sending ⟨i + 1, msg.take (i + 1), none⟩
            server := .sending [b] (.start [b]) }, none) := by
      simp only [echoStep, echoFill]
      rw [recvStream_head b [] (by decide)]
      rfl
    have hthird : echoStep net msg { echoFill msg i with
            client := .sending ⟨i + 1, msg.take (i + 1), none⟩
            server := .sending [b] (.start [b]) } (.serverSend (.accepted 1))
        = some (echoFill msg (i + 1), none) := by
      simp only [echoStep, echoFill]
      rw [sendSignals_one (by omega), htake]
      rfl
    simp only [StateMachine.run, hfirst, hsecond, hthird]
    rfl
  exact StateMachine.steps_of_run hrun

/-- The client sends one byte while the server waits for room. -/
theorem steps_echoBlock_succ
    (hmax : msg.length ≤ sizeMax) {k j : ℕ} {b : Byte} (hj : j < net.outRoom)
    (hlt : k + 1 + j + 1 < msg.length) :
  (echoMachine net msg).Steps (echoBlock msg k b j) [] (echoBlock msg k b (j + 1))
  := by
  obtain ⟨c, hc⟩ : ∃ c, msg[k + 1 + j]? = some c := ⟨_, List.getElem?_eq_getElem (by omega)⟩
  obtain ⟨call', hsend, rfl, hhanded⟩ := clientSend_one hmax hc hlt
  have hlength : ((msg.drop (k + 1)).take j).length = j :=
    List.length_take_of_le (by rw [List.length_drop]; omega)
  have hnext : (msg.drop (k + 1)).take (j + 1) = (msg.drop (k + 1)).take j ++ [c] := by
    rw [List.take_add_one, List.getElem?_drop, hc, Option.toList_some]
  have hstep : (echoMachine net msg).step (echoBlock msg k b j) none
      (echoBlock msg k b (j + 1)) := by
    use .clientSend (.accepted 1)
    simp only [echoStep, echoBlock]
    rw [hlength, sendSignals_one (by omega), Option.bind_some, hsend, Option.map_some, hhanded,
      hnext]
    rfl
  exact .single hstep

/-- The server takes one byte that it cannot send back. -/
theorem steps_echoBlock
    (hout : 0 < net.outRoom) (hmax : msg.length ≤ sizeMax) {k : ℕ}
    (hlt : k + 1 < msg.length) :
  ∃ b, (echoMachine net msg).Steps (echoFill msg k) [] (echoBlock msg k b 0)
  := by
  obtain ⟨b, hb⟩ : ∃ b, msg[k]? = some b := ⟨_, List.getElem?_eq_getElem (by omega)⟩
  obtain ⟨call', hsend, rfl, hhanded⟩ := clientSend_one hmax hb hlt
  use b
  have hfirst : (echoMachine net msg).step (echoFill msg k) none { echoFill msg k with
      client := .sending ⟨k + 1, msg.take (k + 1), none⟩, out := [b] } := by
    use .clientSend (.accepted 1)
    simp only [echoStep, echoFill]
    rw [List.length_nil, Nat.sub_zero, sendSignals_one hout, Option.bind_some, hsend,
      Option.map_some, hhanded]
    rfl
  have hsecond : (echoMachine net msg).step { echoFill msg k with
      client := .sending ⟨k + 1, msg.take (k + 1), none⟩, out := [b] } none
      (echoBlock msg k b 0) := by
    use .serverRecv (.received [b])
    simp only [echoStep, echoFill, echoBlock]
    rw [recvStream_head b [] (by decide)]
    rfl
  exact (StateMachine.Steps.single hfirst).snoc hsecond

/-- Both directions are full, and both parties wait to send. -/
theorem echoBlock_stuck
    (hfaulty : net.faulty = false) {b : Byte} (hback : net.backRoom ≤ msg.length)
    (hout : net.backRoom + 1 + net.outRoom ≤ msg.length) (e : Option Empty) (s' : EchoSystem) :
  ¬(echoMachine net msg).step (echoBlock msg net.backRoom b net.outRoom) e s'
  := by
  have hfull : ((msg.drop (net.backRoom + 1)).take net.outRoom).length = net.outRoom :=
    List.length_take_of_le (by rw [List.length_drop]; omega)
  have hfull' : (msg.take net.backRoom).length = net.backRoom := List.length_take_of_le hback
  -- with no room, no signal and no fault, `send` has no outcome
  have hnone : ∀ outcome, sendSignals 0 (false || false) 0 outcome = none := by
    rintro (n | (_ | _))
    · rw [sendSignals, if_neg]
      rintro ⟨hle, hzero⟩
      cases hzero (Nat.le_zero.mp hle)
    · rfl
    · rfl
  rintro ⟨outcome | outcome | outcome | outcome, hstep⟩
  · simp only [echoStep, echoBlock, hfull, hfaulty, Nat.sub_self, EchoSystem.serverGone,
      hnone] at hstep
    cases hstep
  · cases hstep
  · cases hstep
  · simp only [echoStep, echoBlock, hfull', hfaulty, Nat.sub_self, EchoSystem.clientGone,
      hnone] at hstep
    cases hstep

/-- On a message that is too long the two parties can come to wait for each other. -/
theorem exists_stuck
    (hfaulty : net.faulty = false) (hout : 0 < net.outRoom) (hmax : msg.length ≤ sizeMax)
    (hlong : net.outRoom + net.backRoom + 1 < msg.length) :
  ∃ s, (echoMachine net msg).Reaches [] s ∧ ¬s.Done msg
    ∧ ∀ e s', ¬(echoMachine net msg).step s e s'
  := by
  have hmsg : msg ≠ [] := by
    rintro rfl
    exact absurd hlong (Nat.not_lt_zero _)
  have hfill : ∀ i, i ≤ net.backRoom → (echoMachine net msg).Reaches [] (echoFill msg i) := by
    intro i
    induction i with
    | zero =>
        intro _
        apply StateMachine.Reaches.init
        refine ⟨?_, rfl, rfl, rfl⟩
        rw [clientStart_of_ne_nil hmsg, SendAll.start, sendLoop,
          if_pos (List.length_pos_iff.mpr hmsg)]
        rfl
    | succ i ih =>
        intro hi
        exact (ih (by omega)).trans
          (steps_echoFill_succ hout hmax (by omega) (by omega))
  obtain ⟨b, hblock⟩ := steps_echoBlock hout hmax (k := net.backRoom) (by omega)
  have hreach : ∀ j, j ≤ net.outRoom →
      (echoMachine net msg).Reaches [] (echoBlock msg net.backRoom b j) := by
    intro j
    induction j with
    | zero => exact fun _ => (hfill _ (Nat.le_refl _)).trans hblock
    | succ j ih =>
        intro hj
        exact (ih (by omega)).trans (steps_echoBlock_succ hmax (by omega) (by omega))
  refine ⟨_, hreach net.outRoom (Nat.le_refl _), ?_, ?_⟩
  · rintro ⟨hclient, -⟩
    cases hclient
  · apply echoBlock_stuck hfaulty (by omega) (by omega)

/-- On a connection that does not fail, and for a message that fits in the client's buffer: every
run, however it goes on, ends with the message back at the client and both sockets closed, exactly
when the message has at most one byte more than the two directions of the connection can hold.
For a longer message the two parties can wait for each other forever. -/
theorem echo_completes_iff
    (hfaulty : net.faulty = false) (hout : 0 < net.outRoom) (hback : 0 < net.backRoom)
    (hmsg : msg ≠ []) (hlen : msg.length ≤ echoBufSize - 1) :
  (∀ log s, (echoMachine net msg).Reaches log s →
      (echoMachine net msg).Inevitable (EchoSystem.Done msg) s)
    ↔ msg.length ≤ net.outRoom + net.backRoom + 1
  := by
  have hmax : msg.length ≤ sizeMax := Nat.le_trans hlen (by decide)
  constructor
  · intro hall
    by_contra hlong
    obtain ⟨s, hs, hdone, hstuck⟩ := exists_stuck hfaulty hout hmax (Nat.lt_of_not_le hlong)
    exact StateMachine.not_inevitable_of_stuck hdone hstuck (hall _ s hs)
  · intro hroom log s hs
    have hcases : ∀ {s s' : EchoSystem} {e : Option Empty}, EchoSound net msg s →
        (echoMachine net msg).step s e s' → EchoStep net msg s s' := by
      rintro s s' e h ⟨a, hstep⟩
      apply echoStep_cases hmax h.inv.client h.inv.server hstep
    have hsound : EchoSound net msg s := by
      apply hs.invariant (I := fun _ s => EchoSound net msg s)
      · rintro ⟨client, server, out, back, signals⟩ ⟨hclient, hserver, hout, hback⟩
        dsimp only at hclient hserver hout hback
        subst hclient hserver hout hback
        apply EchoSound.init hmsg
      · intro log t e t' _ ht hstep
        apply ht.step hfaulty hlen (hcases ht hstep)
    apply StateMachine.inevitable_of_invariant (EchoSystem.rank msg) _ _ _ hsound
    · intro s e s' h hstep
      apply h.step hfaulty hlen (hcases h hstep)
    · intro s e s' h hstep
      apply (hcases h hstep).rank_lt
    · intro s h hdone
      apply h.progress hout hback hmax hroom hdone

/-- With room for one byte each way, three bytes always come back, and four need not. -/
theorem echo_completes_iff_three :
  (∀ log s, (echoMachine ⟨1, 1, false⟩ [1, 2, 3]).Reaches log s →
      (echoMachine ⟨1, 1, false⟩ [1, 2, 3]).Inevitable (EchoSystem.Done [1, 2, 3]) s)
    ∧ ¬∀ log s, (echoMachine ⟨1, 1, false⟩ [1, 2, 3, 4]).Reaches log s →
      (echoMachine ⟨1, 1, false⟩ [1, 2, 3, 4]).Inevitable (EchoSystem.Done [1, 2, 3, 4]) s
  := by
  constructor
  · rw [echo_completes_iff rfl (by decide) (by decide) (by decide) (by decide)]
    decide
  · rw [echo_completes_iff rfl (by decide) (by decide) (by decide) (by decide)]
    decide

end CTemplate

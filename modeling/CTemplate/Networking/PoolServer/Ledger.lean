import CTemplate.Networking.PoolServer.System

/-!
# The sockets of the echo server on the thread pool

`Serves echo conn` says what `handle_client` has sent back on its connection.
`SocketLedger R spare s` says that the allocated sockets and the open descriptors are those that the
holders `R` have, one for each connection, besides the socket `spare` of the next connection, and
that every accepted connection is open or was closed once.  What the threads do with a socket keeps
it.
-/

namespace CTemplate

/-! ### Serving a connection -/

/-- What was sent back on a connection, by the state of `handle_client`. -/
inductive Serves : EchoServer → PoolConn → Prop where
  | receiving {conn : PoolConn} (all : conn.received = conn.sent) : Serves .receiving conn
  | sending {conn : PoolConn} {buf : List Byte} {call : SendAll} (max : buf.length ≤ sizeMax)
      (h : Sending buf call) (rest : conn.received = conn.sent ++ call.rest buf) :
      Serves (.sending buf call) conn
  | closed {conn : PoolConn} (front : conn.sent <+: conn.received) : Serves .closed conn

variable {conn : PoolConn} {echo : EchoServer}

theorem Serves.front (h : Serves echo conn) :
  conn.sent <+: conn.received
  := by
  cases h with
  | receiving all => exact ⟨[], by rw [all, List.append_nil]⟩
  | sending _ _ rest => exact ⟨_, rest.symm⟩
  | closed front => exact front

/-- The loop of `handle_client` may be left at any time. -/
theorem Serves.leave (h : Serves echo conn) :
  Serves .closed conn
  := .closed h.front

theorem Serves.recv
    (h : Serves .receiving conn) {outcome : RecvOutcome}
    (hcap : outcome.bytes.length ≤ echoBufSize) :
  Serves (serverRecv outcome) { conn with received := conn.received ++ outcome.bytes }
  := by
  have hall : conn.received = conn.sent := by
    cases h
    assumption
  cases outcome with
  | failed eintr =>
      have heq : { conn with received := conn.received ++ (RecvOutcome.failed eintr).bytes }
          = conn := by
        rw [RecvOutcome.bytes, List.append_nil]
      rw [heq]
      cases eintr with
      | false => exact h.leave
      | true => exact h
  | received bytes =>
      rw [serverRecv, nwRecv]
      dsimp only [RecvOutcome.bytes] at hcap ⊢
      rw [tcpSendError]
      split
      case h_1 =>
        apply Serves.closed
        rw [hall]
        exact List.prefix_append _ _
      case h_2 hnone =>
        have hne : bytes ≠ [] := by
          rintro rfl
          simp at hnone
        apply Serves.sending (le_trans hcap (by decide)) (.start hne)
        rw [hall, SendAll.rest, SendAll.start, List.drop_zero]

theorem Serves.send
    {buf : List Byte} {call call' : SendAll} (h : Serves (.sending buf call) conn)
    {outcome : SendOutcome} (hsend : serverSend buf call outcome = some (call', echo)) :
  Serves echo { conn with sent := conn.sent ++ call.handed call' }
  := by
  cases h with
  | sending max hsending rest =>
      obtain ⟨call'', hround, heq⟩ := Option.map_eq_some_iff.mp hsend
      obtain ⟨rfl, rfl⟩ := Prod.mk.inj heq
      cases hsending.round max hround with
      | part pos lt handed rest' sending =>
          rw [sending.running]
          apply Serves.sending max sending
          rw [rest, handed, rest', List.append_assoc, List.take_append_drop]
      | last handed code =>
          rw [code]
          apply Serves.receiving
          rw [rest, handed]
      | interrupted =>
          rw [hsending.running]
          apply Serves.sending max hsending
          rw [SendAll.handed_self, List.append_nil, rest]
      | failed fatal handed code =>
          rw [code]
          apply Serves.closed
          rw [handed, List.append_nil, rest]
          exact List.prefix_append _ _

/-! ### The ledger -/

/-- The socket at `client` is that of connection `n`, which is open and was served as `echo` says,
or was closed. -/
def HoldsSocket (s : PoolServer) (client : Ptr) (n : ℕ) : HandlerPhase → Prop
  | .serving echo => ∃ fd conn, 0 ≤ fd ∧ s.clients client = some ⟨fd, n⟩
      ∧ s.conns fd = some conn ∧ conn.number = n ∧ Serves echo conn
  | .closed => s.clients client = some ⟨-1, n⟩

/-- The allocated sockets and the open connections are those of the holders `R`, besides the block
for the next connection, and every connection was accepted once and is open or was closed once. -/
structure SocketLedger (R : Ptr → ℕ → HandlerPhase → Prop) (spare : Option Ptr) (s : PoolServer) :
    Prop where
  lt : ∀ p n phase, R p n phase → n < s.accepted
  unique : ∀ p q n phase phase', R p n phase → R q n phase' → p = q ∧ phase = phase'
  holds : ∀ p n phase, R p n phase → HoldsSocket s p n phase
  allocated : ∀ p, spare = some p → ∃ fd, s.clients p = some ⟨fd, s.accepted⟩
  held : ∀ p socket, s.clients p = some socket →
    (spare = some p ∧ socket.number = s.accepted) ∨ ∃ phase, R p socket.number phase
  served : ∀ fd conn, s.conns fd = some conn →
    ∃ p echo, R p conn.number (.serving echo) ∧ s.clients p = some ⟨fd, conn.number⟩
  past : ∀ conn ∈ s.past, conn.sent <+: conn.received
  nodup : (s.past.map PoolConn.number).Nodup
  closed : ∀ n, n ∈ s.past.map PoolConn.number
    ↔ n < s.accepted ∧ ∀ fd conn, s.conns fd = some conn → conn.number ≠ n

variable {R R' : Ptr → ℕ → HandlerPhase → Prop} {spare : Option Ptr} {s s' : PoolServer}
  {p q : Ptr} {n : ℕ} {phase : HandlerPhase}

/-- The same holders, perhaps in other places. -/
theorem SocketLedger.congr
    (h : SocketLedger R spare s) (hR : ∀ p n phase, R' p n phase ↔ R p n phase)
    (hclients : s'.clients = s.clients) (hconns : s'.conns = s.conns)
    (haccepted : s'.accepted = s.accepted) (hpast : s'.past = s.past) :
  SocketLedger R' spare s'
  := by
  obtain rfl : R' = R := by
    funext p n phase
    exact propext (hR p n phase)
  obtain ⟨pool, phase, listening, clients, conns, handlers, accepted, past⟩ := s'
  obtain rfl : clients = s.clients := hclients
  obtain rfl : conns = s.conns := hconns
  obtain rfl : accepted = s.accepted := haccepted
  obtain rfl : past = s.past := hpast
  exact { h with }

/-- A holder depends on its socket and its connection. -/
theorem HoldsSocket.congr
    (h : HoldsSocket s p n phase) (hclients : s'.clients p = s.clients p)
    (hconns : ∀ fd conn, s.conns fd = some conn → conn.number = n → s'.conns fd = some conn) :
  HoldsSocket s' p n phase
  := by
  cases phase with
  | closed =>
      rw [HoldsSocket, hclients]
      exact h
  | serving echo =>
      obtain ⟨fd, conn, hpos, hclient, hconn, hnumber, hserves⟩ := h
      exact ⟨fd, conn, hpos, hclients.trans hclient, hconns fd conn hconn hnumber, hnumber, hserves⟩

/-- The number of the socket of a holder. -/
theorem HoldsSocket.number (h : HoldsSocket s p n phase) :
  ∃ fd, s.clients p = some ⟨fd, n⟩
  := by
  cases phase with
  | closed => exact ⟨_, h⟩
  | serving echo =>
      obtain ⟨fd, _, _, hclient, _⟩ := h
      exact ⟨fd, hclient⟩

/-- Holders of different connections have different sockets. -/
theorem SocketLedger.ne
    (h : SocketLedger R spare s) {n' : ℕ} {phase' : HandlerPhase} (hp : R p n phase)
    (hq : R q n' phase') (hne : n' ≠ n) :
  q ≠ p
  := by
  rintro rfl
  obtain ⟨fd, hclient⟩ := (h.holds _ _ _ hp).number
  obtain ⟨fd', hclient'⟩ := (h.holds _ _ _ hq).number
  rw [hclient] at hclient'
  cases hclient'
  exact hne rfl

/-- The block for the next connection belongs to no holder. -/
theorem SocketLedger.spare_ne
    (h : SocketLedger R spare s) (hspare : spare = some p) (hq : R q n phase) :
  q ≠ p
  := by
  rintro rfl
  obtain ⟨fd, hclient⟩ := h.allocated q hspare
  obtain ⟨fd', hclient'⟩ := (h.holds _ _ _ hq).number
  rw [hclient] at hclient'
  cases hclient'
  exact lt_irrefl _ (h.lt _ _ _ hq)

/-- An open connection has one holder, whose socket has its descriptor. -/
theorem SocketLedger.served_unique
    (h : SocketLedger R spare s) {fd : ℤ} (hconn : s.conns fd = some conn)
    (hp : R p conn.number phase) :
  (∃ echo, phase = .serving echo) ∧ s.clients p = some ⟨fd, conn.number⟩
  := by
  obtain ⟨q, echo, hq, hclient⟩ := h.served fd conn hconn
  obtain ⟨rfl, rfl⟩ := h.unique _ _ _ _ _ hp hq
  exact ⟨⟨echo, rfl⟩, hclient⟩

/-! ### What the threads do with a socket -/

/-- `malloc` gives the block for the next connection. -/
theorem SocketLedger.malloc (h : SocketLedger R none s) (hp : s.clients p = none) (fd : ℤ) :
  SocketLedger R (some p)
    { s with clients := Function.update s.clients p (some ⟨fd, s.accepted⟩) }
  := by
  have hne : ∀ q n phase, R q n phase → q ≠ p := by
    rintro q n phase hq rfl
    obtain ⟨fd', hclient⟩ := (h.holds _ _ _ hq).number
    rw [hp] at hclient
    cases hclient
  exact
    { h with
      holds := by
        intro q n phase hq
        apply (h.holds q n phase hq).congr
        · apply Function.update_of_ne (hne q n phase hq)
        · exact fun _ _ hconn _ => hconn
      allocated := by
        rintro _ ⟨⟩
        exact ⟨fd, Function.update_self ..⟩
      held := by
        intro q socket hsocket
        by_cases hq : q = p
        · subst hq
          simp only [Function.update_self, Option.some.injEq] at hsocket
          subst hsocket
          exact .inl ⟨rfl, rfl⟩
        · simp only [Function.update_of_ne hq] at hsocket
          rcases h.held q socket hsocket with ⟨hspare, -⟩ | hheld
          · cases hspare
          · exact .inr hheld
      served := by
        intro fd' conn hconn
        obtain ⟨q, echo, hq, hclient⟩ := h.served fd' conn hconn
        refine ⟨q, echo, hq, ?_⟩
        exact (Function.update_of_ne (hne q _ _ hq) ..).trans hclient }

/-- `free` gives the block for the next connection back. -/
theorem SocketLedger.discard (h : SocketLedger R (some p) s) :
  s.free p = some { s with clients := Function.update s.clients p none }
    ∧ SocketLedger R none { s with clients := Function.update s.clients p none }
  := by
  obtain ⟨fd, hfd⟩ := h.allocated p rfl
  have hne : ∀ q n phase, R q n phase → q ≠ p := fun q n phase => h.spare_ne rfl
  refine ⟨by rw [PoolServer.free, hfd, Option.map_some], ?_⟩
  exact
    { h with
      holds := by
        intro q n phase hq
        apply (h.holds q n phase hq).congr
        · apply Function.update_of_ne (hne q n phase hq)
        · exact fun _ _ hconn _ => hconn
      allocated := by
        intro q hq
        cases hq
      held := by
        intro q socket hsocket
        by_cases hq : q = p
        · subst hq
          simp only [Function.update_self] at hsocket
          cases hsocket
        · simp only [Function.update_of_ne hq] at hsocket
          rcases h.held q socket hsocket with ⟨hspare, -⟩ | hheld
          · exact absurd (Option.some.inj hspare).symm hq
          · exact .inr hheld
      served := by
        intro fd' conn hconn
        obtain ⟨q, echo, hq, hclient⟩ := h.served fd' conn hconn
        refine ⟨q, echo, hq, ?_⟩
        exact (Function.update_of_ne (hne q _ _ hq) ..).trans hclient }

/-- A connection is accepted into the spare block. -/
theorem SocketLedger.accept
    (h : SocketLedger R (some p) s) {fd : ℤ} (hpos : 0 ≤ fd) (hfree : s.conns fd = none) :
  SocketLedger (fun q n phase => R q n phase ∨ q = p ∧ n = s.accepted ∧ phase = .serving .receiving)
    none
    { s with
      clients := Function.update s.clients p (some ⟨fd, s.accepted⟩)
      conns := Function.update s.conns fd (some ⟨s.accepted, [], []⟩)
      accepted := s.accepted + 1 }
  := by
  have hne : ∀ q n phase, R q n phase → q ≠ p := fun q n phase => h.spare_ne rfl
  have hconns : ∀ fd' conn, s.conns fd' = some conn → fd' ≠ fd := by
    rintro fd' conn hconn rfl
    rw [hfree] at hconn
    cases hconn
  refine
    { h with
      lt := ?_, unique := ?_, holds := ?_, allocated := ?_, held := ?_, served := ?_
      closed := ?_ }
  · intro q n phase hq
    rcases hq with hq | ⟨-, rfl, -⟩
    · exact Nat.lt_succ_of_lt (h.lt q n phase hq)
    · exact Nat.lt_succ_self _
  · intro q q' n phase phase' hq hq'
    rcases hq with hq | ⟨rfl, rfl, rfl⟩ <;>
      rcases hq' with hq' | ⟨rfl, heq, rfl⟩
    · exact h.unique _ _ _ _ _ hq hq'
    · exact absurd heq (Nat.ne_of_lt (h.lt _ _ _ hq))
    · exact absurd (h.lt _ _ _ hq') (lt_irrefl _)
    · exact ⟨rfl, rfl⟩
  · intro q n phase hq
    rcases hq with hq | ⟨rfl, rfl, rfl⟩
    · apply (h.holds q n phase hq).congr
      · apply Function.update_of_ne (hne q n phase hq)
      · intro fd' conn hconn _
        exact (Function.update_of_ne (hconns fd' conn hconn) ..).trans hconn
    · exact ⟨fd, ⟨s.accepted, [], []⟩, hpos, Function.update_self .., Function.update_self .., rfl,
        .receiving rfl⟩
  · intro q hq
    cases hq
  · intro q socket hsocket
    right
    by_cases hq : q = p
    · subst hq
      simp only [Function.update_self, Option.some.injEq] at hsocket
      subst hsocket
      exact ⟨_, .inr ⟨rfl, rfl, rfl⟩⟩
    · simp only [Function.update_of_ne hq] at hsocket
      rcases h.held q socket hsocket with ⟨hspare, -⟩ | ⟨phase, hheld⟩
      · exact absurd (Option.some.inj hspare).symm hq
      · exact ⟨phase, .inl hheld⟩
  · intro fd' conn hconn
    by_cases hfd : fd' = fd
    · subst hfd
      simp only [Function.update_self, Option.some.injEq] at hconn
      subst hconn
      exact ⟨p, _, .inr ⟨rfl, rfl, rfl⟩, Function.update_self ..⟩
    · simp only [Function.update_of_ne hfd] at hconn
      obtain ⟨q, echo, hq, hclient⟩ := h.served fd' conn hconn
      refine ⟨q, echo, .inl hq, ?_⟩
      exact (Function.update_of_ne (hne q _ _ hq) ..).trans hclient
  · intro n
    rw [h.closed]
    constructor
    · rintro ⟨hlt, hno⟩
      refine ⟨Nat.lt_succ_of_lt hlt, ?_⟩
      intro fd' conn hconn
      by_cases hfd : fd' = fd
      · subst hfd
        simp only [Function.update_self, Option.some.injEq] at hconn
        subst hconn
        exact Nat.ne_of_gt hlt
      · simp only [Function.update_of_ne hfd] at hconn
        exact hno fd' conn hconn
    · rintro ⟨hlt, hno⟩
      have hnew : s.accepted ≠ n := hno fd _ (Function.update_self ..)
      refine ⟨Nat.lt_of_le_of_ne (Nat.le_of_lt_succ hlt) hnew.symm, ?_⟩
      intro fd' conn hconn
      apply hno fd' conn
      exact (Function.update_of_ne (hconns fd' conn hconn) ..).trans hconn

/-- The holders when that of connection `n`, at `p`, is in `phase`. -/
def Replaced (R : Ptr → ℕ → HandlerPhase → Prop) (p : Ptr) (n : ℕ) (phase : HandlerPhase) (q : Ptr)
    (m : ℕ) (phase' : HandlerPhase) : Prop :=
  (m ≠ n ∧ R q m phase') ∨ (q = p ∧ m = n ∧ phase' = phase)

theorem SocketLedger.replaced_lt
    (h : SocketLedger R spare s) (hp : R p n phase) {phase' : HandlerPhase} (q : Ptr) (m : ℕ)
    (phase'' : HandlerPhase) (hq : Replaced R p n phase' q m phase'') :
  m < s.accepted
  := by
  rcases hq with ⟨-, hq⟩ | ⟨-, rfl, -⟩
  · exact h.lt _ _ _ hq
  · exact h.lt _ _ _ hp

theorem SocketLedger.replaced_unique
    (h : SocketLedger R spare s) {phase' : HandlerPhase} (q q' : Ptr) (m : ℕ)
    (phase₁ phase₂ : HandlerPhase) (hq : Replaced R p n phase' q m phase₁)
    (hq' : Replaced R p n phase' q' m phase₂) :
  q = q' ∧ phase₁ = phase₂
  := by
  rcases hq with ⟨hne, hq⟩ | ⟨rfl, rfl, rfl⟩ <;> rcases hq' with ⟨hne', hq'⟩ | ⟨rfl, heq, rfl⟩
  · exact h.unique _ _ _ _ _ hq hq'
  · exact absurd heq hne
  · exact absurd rfl hne'
  · exact ⟨rfl, rfl⟩

/-- A socket that is held is held when its holder goes on. -/
theorem SocketLedger.replaced_held
    (h : SocketLedger R spare s) (hp : R p n phase) (phase' : HandlerPhase) (q : Ptr)
    (socket : ClientSocket) (hsocket : s.clients q = some socket) :
  (spare = some q ∧ socket.number = s.accepted)
    ∨ ∃ phase'', Replaced R p n phase' q socket.number phase''
  := by
  rcases h.held q socket hsocket with hspare | ⟨phase₁, hq⟩
  · exact .inl hspare
  · right
    by_cases hn : socket.number = n
    · rw [hn] at hq ⊢
      obtain ⟨rfl, -⟩ := h.unique _ _ _ _ _ hp hq
      exact ⟨phase', .inr ⟨rfl, rfl, rfl⟩⟩
    · exact ⟨phase₁, .inl ⟨hn, hq⟩⟩

/-- Something is received or sent on a connection. -/
theorem SocketLedger.serve
    (h : SocketLedger R spare s) (hp : R p n (.serving echo)) {fd : ℤ} (hpos : 0 ≤ fd)
    (hclient : s.clients p = some ⟨fd, n⟩) (hconn : s.conns fd = some conn) {conn' : PoolConn}
    (hnumber : conn.number = n) (hnumber' : conn'.number = n) {echo' : EchoServer}
    (hserves : Serves echo' conn') :
  SocketLedger (Replaced R p n (.serving echo')) spare
    { s with conns := Function.update s.conns fd (some conn') }
  := by
  have hconns : ∀ fd' conn', s.conns fd' = some conn' → conn'.number ≠ n → fd' ≠ fd := by
    rintro fd' conn'' hconn' hne rfl
    rw [hconn] at hconn'
    cases hconn'
    exact hne hnumber
  refine
    { h with
      lt := h.replaced_lt hp, unique := h.replaced_unique, holds := ?_
      held := h.replaced_held hp _, served := ?_, closed := ?_ }
  · rintro q m phase (⟨hne, hq⟩ | ⟨rfl, rfl, rfl⟩)
    · apply (h.holds q m phase hq).congr
      · rfl
      · rintro fd' conn'' hconn' rfl
        exact (Function.update_of_ne (hconns fd' conn'' hconn' hne) ..).trans hconn'
    · exact ⟨fd, conn', hpos, hclient, Function.update_self .., hnumber', hserves⟩
  · intro fd' conn'' hconn'
    by_cases hfd : fd' = fd
    · subst hfd
      simp only [Function.update_self, Option.some.injEq] at hconn'
      subst hconn'
      exact ⟨p, echo', .inr ⟨rfl, hnumber', rfl⟩, by rw [hclient, hnumber']⟩
    · simp only [Function.update_of_ne hfd] at hconn'
      obtain ⟨q, echo'', hq, hclient'⟩ := h.served fd' conn'' hconn'
      refine ⟨q, echo'', .inl ⟨?_, hq⟩, hclient'⟩
      intro hn
      rw [hn] at hq hclient'
      obtain ⟨rfl, -⟩ := h.unique _ _ _ _ _ hp hq
      rw [hclient] at hclient'
      cases hclient'
      exact hfd rfl
  · intro m
    rw [h.closed]
    apply and_congr_right
    intro _
    constructor
    · intro hno fd' conn'' hconn'
      by_cases hfd : fd' = fd
      · subst hfd
        simp only [Function.update_self, Option.some.injEq] at hconn'
        subst hconn'
        rw [hnumber', ← hnumber]
        exact hno fd' conn hconn
      · simp only [Function.update_of_ne hfd] at hconn'
        exact hno fd' conn'' hconn'
    · intro hno fd' conn'' hconn'
      by_cases hfd : fd' = fd
      · subst hfd
        rw [hconn] at hconn'
        cases hconn'
        rw [hnumber, ← hnumber']
        exact hno fd' conn' (Function.update_self ..)
      · exact hno fd' conn'' ((Function.update_of_ne hfd ..).trans hconn')

/-- `tcp_close` closes the connection of a holder. -/
theorem SocketLedger.tcpClose (h : SocketLedger R spare s) (hp : R p n (.serving echo)) :
  ∃ fd conn, s.conns fd = some conn ∧ conn.number = n
    ∧ s.tcpClose p = some { s with
        clients := Function.update s.clients p (some ⟨-1, n⟩)
        conns := Function.update s.conns fd none
        past := s.past ++ [conn] }
    ∧ SocketLedger (Replaced R p n .closed) spare
        { s with
          clients := Function.update s.clients p (some ⟨-1, n⟩)
          conns := Function.update s.conns fd none
          past := s.past ++ [conn] }
  := by
  obtain ⟨fd, conn, hpos, hclient, hconn, hnumber, hserves⟩ := h.holds _ _ _ hp
  have hconns : ∀ fd' conn', s.conns fd' = some conn' → conn'.number ≠ n → fd' ≠ fd := by
    rintro fd' conn' hconn' hne rfl
    rw [hconn] at hconn'
    cases hconn'
    exact hne hnumber
  have hopen : ∀ fd' conn', Function.update s.conns fd none fd' = some conn' →
      s.conns fd' = some conn' ∧ conn'.number ≠ n := by
    intro fd' conn' hconn'
    have hfd : fd' ≠ fd := by
      rintro rfl
      rw [Function.update_self] at hconn'
      cases hconn'
    rw [Function.update_of_ne hfd] at hconn'
    refine ⟨hconn', ?_⟩
    rintro rfl
    obtain ⟨-, hclient'⟩ := h.served_unique hconn' hp
    rw [hclient] at hclient'
    cases hclient'
    exact hfd rfl
  refine ⟨fd, conn, hconn, hnumber, ?_, ?_⟩
  · rw [PoolServer.tcpClose, hclient, Option.bind_some, if_neg (not_lt.mpr hpos), hconn,
      Option.map_some]
  refine
    { h with
      lt := h.replaced_lt hp, unique := h.replaced_unique, holds := ?_, allocated := ?_, held := ?_
      served := ?_, past := ?_, nodup := ?_, closed := ?_ }
  · rintro q m phase (⟨hne, hq⟩ | ⟨rfl, rfl, rfl⟩)
    · apply (h.holds q m phase hq).congr
      · apply Function.update_of_ne (h.ne hp hq hne)
      · rintro fd' conn' hconn' rfl
        exact (Function.update_of_ne (hconns fd' conn' hconn' hne) ..).trans hconn'
    · exact Function.update_self ..
  · intro q hq
    obtain ⟨fd', hfd'⟩ := h.allocated q hq
    have hne : q ≠ p := (h.spare_ne hq hp).symm
    exact ⟨fd', (Function.update_of_ne hne ..).trans hfd'⟩
  · intro q socket hsocket
    by_cases hq : q = p
    · subst hq
      simp only [Function.update_self, Option.some.injEq] at hsocket
      subst hsocket
      exact .inr ⟨_, .inr ⟨rfl, rfl, rfl⟩⟩
    · simp only [Function.update_of_ne hq] at hsocket
      exact h.replaced_held hp _ q socket hsocket
  · intro fd' conn' hconn'
    obtain ⟨hconn', hne⟩ := hopen fd' conn' hconn'
    obtain ⟨q, echo', hq, hclient'⟩ := h.served fd' conn' hconn'
    refine ⟨q, echo', .inl ⟨hne, hq⟩, ?_⟩
    exact (Function.update_of_ne (h.ne hp hq hne) ..).trans hclient'
  · intro conn' hmem
    rcases List.mem_append.mp hmem with hmem | hmem
    · exact h.past conn' hmem
    · rw [List.mem_singleton.mp hmem]
      exact hserves.front
  · rw [List.map_append, List.map_singleton, List.nodup_append_comm, List.singleton_append,
      List.nodup_cons]
    refine ⟨?_, h.nodup⟩
    intro hmem
    exact ((h.closed _).mp hmem).2 fd conn hconn rfl
  · intro m
    rw [List.map_append, List.map_singleton, List.mem_append, List.mem_singleton, h.closed,
      hnumber]
    constructor
    · rintro (⟨hlt, hno⟩ | rfl)
      · exact ⟨hlt, fun fd' conn' hconn' => hno fd' conn' (hopen fd' conn' hconn').1⟩
      · exact ⟨h.lt _ _ _ hp, fun fd' conn' hconn' => (hopen fd' conn' hconn').2⟩
    · rintro ⟨hlt, hno⟩
      by_cases hm : m = n
      · exact .inr hm
      · left
        refine ⟨hlt, ?_⟩
        rintro fd' conn' hconn' rfl
        apply hno fd' conn' _ rfl
        exact (Function.update_of_ne (hconns fd' conn' hconn' hm) ..).trans hconn'

/-- `free` gives the block of a holder back that has closed its connection. -/
theorem SocketLedger.free (h : SocketLedger R spare s) (hp : R p n .closed) :
  s.free p = some { s with clients := Function.update s.clients p none }
    ∧ SocketLedger (fun q m phase => m ≠ n ∧ R q m phase) spare
        { s with clients := Function.update s.clients p none }
  := by
  have hclient : s.clients p = some ⟨-1, n⟩ := h.holds _ _ _ hp
  refine ⟨by rw [PoolServer.free, hclient, Option.map_some], ?_⟩
  refine
    { h with
      lt := fun q m phase hq => h.lt q m phase hq.2
      unique := fun q q' m phase phase' hq hq' => h.unique q q' m phase phase' hq.2 hq'.2
      holds := ?_, allocated := ?_, held := ?_, served := ?_ }
  · rintro q m phase ⟨hne, hq⟩
    apply (h.holds q m phase hq).congr
    · apply Function.update_of_ne (h.ne hp hq hne)
    · exact fun _ _ hconn _ => hconn
  · intro q hq
    obtain ⟨fd', hfd'⟩ := h.allocated q hq
    have hne : q ≠ p := (h.spare_ne hq hp).symm
    exact ⟨fd', (Function.update_of_ne hne ..).trans hfd'⟩
  · intro q socket hsocket
    by_cases hq : q = p
    · subst hq
      simp only [Function.update_self] at hsocket
      cases hsocket
    · simp only [Function.update_of_ne hq] at hsocket
      rcases h.held q socket hsocket with hspare | ⟨phase, hheld⟩
      · exact .inl hspare
      · refine .inr ⟨phase, ?_, hheld⟩
        rintro rfl
        exact hq (h.unique _ _ _ _ _ hheld hp).1
  · intro fd' conn' hconn'
    obtain ⟨q, echo', hq, hclient'⟩ := h.served fd' conn' hconn'
    have hne : conn'.number ≠ n := by
      rintro rfl
      obtain ⟨⟨_, heq⟩, -⟩ := h.served_unique hconn' hp
      cases heq
    refine ⟨q, echo', ⟨hne, hq⟩, ?_⟩
    exact (Function.update_of_ne (h.ne hp hq hne) ..).trans hclient'

end CTemplate

import CTemplate.Networking.EventLoop.Count
import CTemplate.Networking.EventServer.System

/-!
# What the echo server keeps

In every state of a run the registrations of the event loop are the listener and the open
connections, so that no callback uses a descriptor that was closed, also where one comes back in
the round in which it was closed.  On every connection what was sent back is the front of what was
received, and all of it while the callback of the connection is not running.
-/

namespace CTemplate

/-! ### Turns of the event loop -/

section Loop

variable {s s' : LoopSystem} {e : Option LoopEvent} {log : List LoopEvent}

/-- In a round there are no more turns than registrations in use. -/
theorem turns_le_len (hs : loopMachine.Reaches log s) :
  ∀ count k, s.point.progress = some (count, k) → count ≤ s.loop.len
  := by
  apply loop_invariant hs
    (I := fun _ s => ∀ count k, s.point.progress = some (count, k) → count ≤ s.loop.len)
  · rintro count k h
    cases h
  · intro log s e s' hs hle hstep count k hprogress
    cases hstep with
    | addFailed _ grown =>
        have hlen := grown.len_eq
        dsimp only at hprogress ⊢
        rw [hlen]
        apply hle count k hprogress
    | addOk _ grown =>
        have hlen := grown.len_eq
        have := hle count k hprogress
        dsimp only
        omega
    | modFailed => exact hle count k hprogress
    | modOk => exact hle count k hprogress
    | removeFailed => exact hle count k hprogress
    | tombstone => exact hle count k hprogress
    | swap _ _ dispatching =>
        have hpoint : s.point = .outside := by
          by_contra hinside
          rw [(LoopInv.of_reaches hs).dispatching.mpr hinside] at dispatching
          cases dispatching
        rw [hpoint] at hprogress
        cases hprogress
    | stop => exact hle count k hprogress
    | count => exact hle count k hprogress
    | idle => exact hle count k hprogress
    | polled =>
        cases hprogress
        exact Nat.le_refl _
    | skip walking =>
        cases hprogress
        apply hle _ _ (by rw [walking]; rfl)
    | invoke walking =>
        cases hprogress
        apply hle _ _ (by rw [walking]; rfl)
    | roundDone => cases hprogress
    | callbackReturns inCallback =>
        cases hprogress
        apply hle _ _ (by rw [inCallback]; rfl)

/-- A turn invokes what is registered for a descriptor at that moment. -/
theorem lookup_of_invoked
    (hs : loopMachine.Reaches log s) {i : ℕ} {invocation : Invocation}
    (hstep : LoopStep s (some (.turn i invocation)) s') :
  ∃ reg, (registered log).lookup invocation.fd = some reg ∧ reg.cb = invocation.cb
  := by
  cases hstep with
  | @invoke n _ entry p _ walking lt hentry hp invokes =>
      have hlen := turns_le_len hs n i (by rw [walking]; rfl)
      rw [pollTurn] at invokes
      split at invokes
      · cases invokes
      case isFalse hfd =>
      dsimp only at invokes
      split at invokes
      case isFalse => cases invokes
      case isTrue =>
      obtain rfl := Option.some.inj invokes
      refine ⟨⟨entry.events, entry.cb, entry.userData⟩, ?_, rfl⟩
      rw [(LoopInv.of_reaches hs).represents.lookup_iff, EventLoop.mem_bindings]
      refine ⟨Int.not_lt.mp hfd, ?_⟩
      rw [← EventLoop.getElem?_active_of_lt (Nat.lt_of_lt_of_le lt hlen)] at hentry
      exact List.mem_of_getElem? hentry

end Loop

/-! ### The invariant -/

/-- What is registered for a descriptor when these connections are open. -/
def serverRegistration (listener : ℤ) (conns : Finmap fun _ : ℤ => EchoConn) (fd : ℤ) :
    Option Registration :=
  if fd = listener then some ⟨evRead, onAccept, serverData⟩
  else (conns.lookup fd).map fun _ => ⟨evRead, onClient, serverData⟩

/-- The bytes received on a connection that its callback still sends back. -/
def EventServer.unsent (s : EventServer) (fd : ℤ) : List Byte :=
  match s.phase with
  | .sending fd' buf call => if fd' = fd then call.rest buf else []
  | _ => []

/-- The thread is where the phase says. -/
inductive PhaseOk (s : EventServer) : Prop where
  | looping (h : s.phase = .looping) (outside : ∀ count i, s.sys.point ≠ .inCallback count i)
  | accepting (h : s.phase = .accepting) {count i : ℕ}
      (inside : s.sys.point = .inCallback count i)
  | receiving {fd : ℤ} (h : s.phase = .receiving fd) {count i : ℕ}
      (inside : s.sys.point = .inCallback count i) (isOpen : fd ∈ s.conns)
  | sending {fd : ℤ} {buf : List Byte} {call : SendAll} (h : s.phase = .sending fd buf call)
      {count i : ℕ} (inside : s.sys.point = .inCallback count i) (isOpen : fd ∈ s.conns)
      (max : buf.length ≤ sizeMax) (sending : Sending buf call)
  | stopped (h : s.phase = .stopped)

/-- The registrations are those of the server. -/
structure ServerCore (listener : ℤ) (s : EventServer) : Prop where
  registered : ∃ log, loopMachine.Reaches log s.sys
    ∧ ∀ fd, (registered log).lookup fd = serverRegistration listener s.conns fd
  nonneg : 0 ≤ listener
  listener_notMem : listener ∉ s.conns
  past : ∀ conn ∈ s.past, conn.sent <+: conn.received

/-- The registrations are those of the server, the thread is where the phase says, and what was
received on an open connection was sent back or still will be. -/
structure ServerInv (listener : ℤ) (s : EventServer) : Prop where
  core : ServerCore listener s
  phase : PhaseOk s
  echoed : ∀ fd conn, s.conns.lookup fd = some conn → conn.received = conn.sent ++ s.unsent fd

variable {listener : ℤ} {s s' : EventServer} {e : Option LoopEvent} {fd : ℤ} {conn : EchoConn}

/-- A call of a function of the event loop is a step of it. -/
theorem EventServer.call_eq_some {a : LoopAct} (h : s.call a = some (s', e)) :
  ∃ sys, loopStep s.sys a = some (sys, e) ∧ s' = { s with sys }
  := by
  obtain ⟨⟨sys, e'⟩, hstep, heq⟩ := Option.map_eq_some_iff.mp h
  cases heq
  exact ⟨sys, hstep, rfl⟩

/-- The same descriptors, with other connections. -/
theorem serverRegistration_insert (hmem : s.conns.lookup fd = some conn) (conn' : EchoConn) :
  serverRegistration listener (s.conns.insert fd conn') = serverRegistration listener s.conns
  := by
  funext fd'
  rw [serverRegistration, serverRegistration]
  by_cases heq : fd' = fd
  · subst heq
    rw [Finmap.lookup_insert, hmem]
    rfl
  · rw [Finmap.lookup_insert_of_ne _ heq]

/-- A step of the event loop after which the registrations are those of `conns`. -/
theorem ServerCore.step
    (h : ServerCore listener s) {a : LoopAct} {sys : LoopSystem}
    (hstep : loopStep s.sys a = some (sys, e)) {conns : Finmap fun _ : ℤ => EchoConn}
    (hregistered : ∀ r : Registry, LoopInv r s.sys →
      (∀ fd, r.lookup fd = serverRegistration listener s.conns fd) →
      ∀ fd, (e.elim r r.after).lookup fd = serverRegistration listener conns fd)
    (hlistener : listener ∉ conns) {past : List EchoConn}
    (hpast : ∀ conn ∈ past, conn.sent <+: conn.received) (phase : ServerPhase) :
  ServerCore listener ⟨sys, phase, conns, past⟩
  := by
  obtain ⟨log, hs, hlookup⟩ := h.registered
  constructor
  · refine ⟨_, hs.snoc ⟨a, hstep⟩, ?_⟩
    rw [registered_append]
    apply hregistered _ (LoopInv.of_reaches hs) hlookup
  · exact h.nonneg
  · exact hlistener
  · exact hpast

/-- An event that is no successful call leaves the registrations as they are. -/
theorem ServerCore.step_quiet
    (h : ServerCore listener s) {a : LoopAct} {sys : LoopSystem}
    (hstep : loopStep s.sys a = some (sys, e)) (hquiet : ∀ r : Registry, e.elim r r.after = r)
    (phase : ServerPhase) :
  ServerCore listener { s with sys, phase }
  := by
  apply h.step hstep _ h.listener_notMem h.past
  intro r _ hlookup
  rw [hquiet]
  exact hlookup

/-! ### The end of a callback -/

/-- A callback that has sent back everything returns. -/
theorem ServerCore.leave
    (h : ServerCore listener s)
    (hechoed : ∀ fd conn, s.conns.lookup fd = some conn → conn.received = conn.sent)
    (hleave : s.leave = some s') :
  ServerInv listener s'
  := by
  obtain ⟨⟨s₁, e⟩, hcall, rfl⟩ := Option.map_eq_some_iff.mp hleave
  obtain ⟨sys, hstep, rfl⟩ := EventServer.call_eq_some hcall
  have hcases : e = none ∧ ∀ count i, sys.point ≠ .inCallback count i := by
    simp only [loopStep] at hstep
    split at hstep
    · cases hstep
      refine ⟨rfl, ?_⟩
      intro count i hpoint
      cases hpoint
    · cases hstep
  obtain ⟨rfl, houtside⟩ := hcases
  constructor
  · exact h.step_quiet hstep (fun _ => rfl) .looping
  · exact .looping rfl houtside
  · intro fd conn hlookup
    rw [hechoed fd conn hlookup]
    exact (List.append_nil _).symm

/-- `event_loop_remove` for a registered descriptor succeeds. -/
theorem eventLoopRemove_ok
    {r : Registry} {sys sys' : LoopSystem} (h : LoopInv r sys) (hfd : 0 ≤ fd) (hmem : fd ∈ r)
    (hstep : loopStep sys (.remove fd) = some (sys', e)) :
  e = some (.remove fd .ok)
  := by
  simp only [loopStep] at hstep
  split at hstep
  case isFalse => cases hstep
  case isTrue =>
  cases hstep
  have hok : (eventLoopRemove sys.loop fd).2 = .ok := by
    rw [eventLoopRemove, if_neg (Int.not_lt.mpr hfd)]
    cases hfind : findIndex sys.loop fd with
    | none =>
        rw [findIndex_eq_none_iff h.represents hfd] at hfind
        exact absurd hmem hfind
    | some i =>
        dsimp only
        split
        · rfl
        · split <;> rfl
  rw [hok]

/-- The registrations after the connection `fd` was removed. -/
theorem lookup_erase_registration
    {r : Registry} {conns : Finmap fun _ : ℤ => EchoConn} (hne : fd ≠ listener)
    (h : ∀ fd, r.lookup fd = serverRegistration listener conns fd) (fd' : ℤ) :
  (r.erase fd).lookup fd' = serverRegistration listener (conns.erase fd) fd'
  := by
  rw [serverRegistration]
  by_cases heq : fd' = fd
  · subst heq
    rw [Finmap.lookup_erase, if_neg hne, Finmap.lookup_erase]
    rfl
  · rw [Finmap.lookup_erase_ne heq, h, serverRegistration, Finmap.lookup_erase_ne heq]

theorem ServerCore.ne_listener (h : ServerCore listener s) (hmem : fd ∈ s.conns) :
  fd ≠ listener
  := by
  rintro rfl
  exact h.listener_notMem hmem

/-- A connection is removed from the event loop and closed. -/
theorem ServerCore.drop
    (h : ServerCore listener s) (hfd : s.conns.lookup fd = some conn)
    (hsent : conn.sent <+: conn.received)
    (hechoed : ∀ fd' conn', fd' ≠ fd → s.conns.lookup fd' = some conn' →
      conn'.received = conn'.sent)
    (hdrop : s.drop fd = some s') :
  ServerInv listener s'
  := by
  have hmem : fd ∈ s.conns := Finmap.mem_iff.mpr ⟨conn, hfd⟩
  have hne := h.ne_listener hmem
  obtain ⟨⟨s₁, e⟩, hcall, hleave⟩ := Option.bind_eq_some_iff.mp hdrop
  obtain ⟨sys, hstep, rfl⟩ := EventServer.call_eq_some hcall
  dsimp only at hleave
  apply ServerCore.leave _ _ hleave
  · apply h.step hstep
    · intro r hr hlookup
      have hregistered : r.lookup fd = some ⟨evRead, onClient, serverData⟩ := by
        rw [hlookup, serverRegistration, if_neg hne, hfd]
        rfl
      have hnonneg := (EventLoop.mem_bindings.mp ((hr.represents.lookup_iff _ _).mp hregistered)).1
      have hin : fd ∈ r := Finmap.mem_iff.mpr ⟨_, hregistered⟩
      rw [eventLoopRemove_ok hr hnonneg hin hstep]
      exact lookup_erase_registration hne hlookup
    · rw [Finmap.mem_erase]
      exact fun hmem => h.listener_notMem hmem.2
    · intro conn' hconn
      rw [hfd, List.mem_append] at hconn
      rcases hconn with hold | hnew
      · exact h.past conn' hold
      · rw [Option.toList_some, List.mem_singleton] at hnew
        rw [hnew]
        exact hsent
  · intro fd' conn' hlookup
    by_cases heq : fd' = fd
    · subst heq
      rw [Finmap.lookup_erase] at hlookup
      cases hlookup
    · rw [Finmap.lookup_erase_ne heq] at hlookup
      exact hechoed fd' conn' heq hlookup

/-! ### The callbacks -/

/-- What `event_loop_add` does for an accepted connection. -/
theorem eventLoopAdd_cases
    {sys sys' : LoopSystem} {events : BitVec 32} {cb userData : Ptr} {reallocs : EventReallocs}
    (hstep : loopStep sys (.add fd events cb userData reallocs) = some (sys', e)) :
  e = some (.add fd events cb userData .ok)
    ∨ ∃ code ≠ .ok, e = some (.add fd events cb userData code)
  := by
  simp only [loopStep] at hstep
  split at hstep
  case isFalse => cases hstep
  case isTrue =>
  cases hstep
  by_cases hok : (eventLoopAdd sys.loop fd events cb userData reallocs).2 = .ok
  · rw [hok]
    exact .inl rfl
  · exact .inr ⟨_, hok, rfl⟩

/-- A connection that was accepted. -/
theorem ServerInv.accept
    (h : ServerInv listener s) (hphase : s.phase = .accepting) {outcome : AcceptOutcome}
    {reallocs : EventReallocs} (haccept : s.accept listener outcome reallocs = some s') :
  ServerInv listener s'
  := by
  have hechoed : ∀ fd conn, s.conns.lookup fd = some conn → conn.received = conn.sent := by
    intro fd conn hlookup
    rw [h.echoed fd conn hlookup, EventServer.unsent, hphase, List.append_nil]
  rcases outcome with fd | (_ | _)
  · rw [EventServer.accept, Option.ite_none_right_eq_some] at haccept
    obtain ⟨⟨hfd, hne, hnew⟩, hbind⟩ := haccept
    obtain ⟨⟨s₁, e⟩, hcall, hleave⟩ := Option.bind_eq_some_iff.mp hbind
    obtain ⟨sys, hstep, rfl⟩ := EventServer.call_eq_some hcall
    rcases eventLoopAdd_cases hstep with rfl | ⟨code, hcode, rfl⟩
    · dsimp only at hleave
      apply ServerCore.leave _ _ hleave
      · apply h.core.step hstep _ _ h.core.past
        · intro r _ hlookup fd'
          change (r.insert fd _).lookup fd' = _
          rw [serverRegistration]
          by_cases heq : fd' = fd
          · subst heq
            rw [Finmap.lookup_insert, if_neg hne, Finmap.lookup_insert]
            rfl
          · rw [Finmap.lookup_insert_of_ne _ heq, hlookup, serverRegistration,
              Finmap.lookup_insert_of_ne _ heq]
        · rw [Finmap.mem_insert, not_or]
          exact ⟨hne.symm, h.core.listener_notMem⟩
      · intro fd' conn hlookup
        by_cases heq : fd' = fd
        · subst heq
          rw [Finmap.lookup_insert] at hlookup
          cases hlookup
          rfl
        · rw [Finmap.lookup_insert_of_ne _ heq] at hlookup
          exact hechoed fd' conn hlookup
    · have hquiet : ∀ r : Registry,
          (some (LoopEvent.add fd evRead onClient serverData code)).elim r r.after = r :=
        fun r => Registry.after_failed hcode
      have hleave' : EventServer.leave { s with sys } = some s' := by
        cases code <;> first | exact hleave | exact absurd rfl hcode
      exact (h.core.step_quiet hstep hquiet s.phase).leave hechoed hleave'
  · exact h.core.leave hechoed haccept
  · cases haccept
    exact h

/-- The other connections while the callback of one is running. -/
theorem ServerInv.echoed_of_ne
    (h : ServerInv listener s) (hphase : s.phase = .receiving fd
      ∨ ∃ buf call, s.phase = .sending fd buf call) {fd' : ℤ} (hne : fd' ≠ fd)
    (hlookup : s.conns.lookup fd' = some conn) :
  conn.received = conn.sent
  := by
  rw [h.echoed fd' conn hlookup, EventServer.unsent]
  rcases hphase with hphase | ⟨buf, call, hphase⟩ <;> rw [hphase]
  · exact List.append_nil _
  · dsimp only
    rw [if_neg hne.symm, List.append_nil]

/-- Bytes were received on a connection, or sent. -/
theorem ServerCore.changed
    (h : ServerCore listener s) (hlookup : s.conns.lookup fd = some conn) (conn' : EchoConn)
    (phase : ServerPhase) :
  ServerCore listener { s with phase, conns := s.conns.insert fd conn' }
  := by
  obtain ⟨log, hs, hregistered⟩ := h.registered
  have hopen : fd ∈ s.conns := Finmap.mem_iff.mpr ⟨conn, hlookup⟩
  constructor
  · refine ⟨log, hs, ?_⟩
    dsimp only
    rw [serverRegistration_insert hlookup]
    exact hregistered
  · exact h.nonneg
  · dsimp only
    rw [Finmap.mem_insert, not_or]
    exact ⟨(h.ne_listener hopen).symm, h.listener_notMem⟩
  · exact h.past

/-- The callback of a connection has bytes to send back. -/
theorem ServerCore.sending
    (h : ServerCore listener s) {buf : List Byte} {call : SendAll}
    (hphase : s.phase = .sending fd buf call) {count i : ℕ}
    (hinside : s.sys.point = .inCallback count i) (hmax : buf.length ≤ sizeMax)
    (hsending : Sending buf call) (hlookup : s.conns.lookup fd = some conn)
    (hreceived : conn.received = conn.sent ++ call.rest buf)
    (hothers : ∀ fd' conn', fd' ≠ fd → s.conns.lookup fd' = some conn' →
      conn'.received = conn'.sent) :
  ServerInv listener s
  where
  core := h
  phase := .sending hphase hinside (Finmap.mem_iff.mpr ⟨conn, hlookup⟩) hmax hsending
  echoed := by
    intro fd' conn' hlookup'
    rw [EventServer.unsent, hphase]
    dsimp only
    by_cases heq : fd' = fd
    · subst heq
      rw [hlookup] at hlookup'
      cases hlookup'
      rw [if_pos rfl]
      exact hreceived
    · rw [if_neg (Ne.symm heq), List.append_nil]
      exact hothers fd' conn' heq hlookup'

/-- Bytes that were received, or the end of a connection. -/
theorem ServerInv.recv
    (h : ServerInv listener s) (hphase : s.phase = .receiving fd) {outcome : RecvOutcome}
    (hrecv : s.recv fd outcome = some s') :
  ServerInv listener s'
  := by
  obtain ⟨count, i, hinside, hopen⟩ : ∃ count i, s.sys.point = .inCallback count i
      ∧ fd ∈ s.conns := by
    cases h.phase with
    | receiving heq inside isOpen =>
        rw [hphase] at heq
        cases heq
        exact ⟨_, _, inside, isOpen⟩
    | looping heq | accepting heq | sending heq | stopped heq =>
        rw [hphase] at heq
        cases heq
  obtain ⟨conn, hlookup⟩ := Finmap.mem_iff.mp hopen
  have hsame : conn.received = conn.sent := by
    rw [h.echoed fd conn hlookup, EventServer.unsent, hphase, List.append_nil]
  have hdrop : s.drop fd = some s' → ServerInv listener s' := by
    apply h.core.drop hlookup (by rw [hsame])
    intro fd' conn' hne
    apply h.echoed_of_ne (.inl hphase) hne
  rcases outcome with bytes | (_ | _)
  · rw [EventServer.recv, nwRecv] at hrecv
    dsimp only at hrecv
    split at hrecv
    · cases hrecv
    case isFalse hmax =>
    split at hrecv
    case h_1 => exact hdrop hrecv
    case h_2 hsend =>
    have hnil : bytes ≠ [] := by
      rintro rfl
      rw [tcpSendError, if_pos (.inr rfl)] at hsend
      cases hsend
    rw [hlookup, Option.map_some] at hrecv
    cases hrecv
    apply (h.core.changed hlookup _ _).sending rfl hinside
      (Nat.le_trans (Nat.le_of_not_lt hmax) (by decide)) (Sending.start hnil)
      (Finmap.lookup_insert _)
    · rw [hsame]
      rfl
    · intro fd' conn' hne hlookup'
      dsimp only at hlookup'
      rw [Finmap.lookup_insert_of_ne _ hne] at hlookup'
      exact h.echoed_of_ne (.inl hphase) hne hlookup'
  · exact hdrop hrecv
  · cases hrecv
    exact h

/-- A round of `tcp_send_all` for a connection. -/
theorem ServerInv.send
    (h : ServerInv listener s) {buf : List Byte} {call : SendAll}
    (hphase : s.phase = .sending fd buf call) {outcome : SendOutcome}
    (hsend : s.send fd buf call outcome = some s') :
  ServerInv listener s'
  := by
  obtain ⟨count, i, hinside, hopen, hmax, hsending⟩ : ∃ count i,
      s.sys.point = .inCallback count i ∧ fd ∈ s.conns ∧ buf.length ≤ sizeMax
        ∧ Sending buf call := by
    cases h.phase with
    | sending heq inside isOpen max sending =>
        rw [hphase] at heq
        cases heq
        exact ⟨_, _, inside, isOpen, max, sending⟩
    | looping heq | accepting heq | receiving heq | stopped heq =>
        rw [hphase] at heq
        cases heq
  obtain ⟨conn, hlookup⟩ := Finmap.mem_iff.mp hopen
  have hreceived : conn.received = conn.sent ++ call.rest buf := by
    rw [h.echoed fd conn hlookup, EventServer.unsent, hphase]
    dsimp only
    rw [if_pos rfl]
  have hothers : ∀ fd' conn', fd' ≠ fd → s.conns.lookup fd' = some conn' →
      conn'.received = conn'.sent := fun fd' conn' hne =>
    h.echoed_of_ne (.inr ⟨buf, call, hphase⟩) hne
  obtain ⟨call', hround, hnext⟩ := Option.bind_eq_some_iff.mp hsend
  rw [hlookup, Option.bind_some] at hnext
  have hcore := h.core.changed hlookup { conn with sent := conn.sent ++ call.handed call' }
  cases hsending.round hmax hround with
  | part pos lt handed rest sending =>
      rw [sending.running] at hnext
      cases hnext
      apply (hcore _).sending rfl hinside hmax sending (Finmap.lookup_insert _)
      · rw [handed, rest, List.append_assoc, List.take_append_drop]
        exact hreceived
      · intro fd' conn' hne hlookup'
        dsimp only at hlookup'
        rw [Finmap.lookup_insert_of_ne _ hne] at hlookup'
        exact hothers fd' conn' hne hlookup'
  | last handed code =>
      rw [code] at hnext
      apply (hcore s.phase).leave _ hnext
      intro fd' conn' hlookup'
      dsimp only at hlookup'
      by_cases heq : fd' = fd
      · subst heq
        rw [Finmap.lookup_insert] at hlookup'
        cases hlookup'
        rw [handed]
        exact hreceived
      · rw [Finmap.lookup_insert_of_ne _ heq] at hlookup'
        exact hothers fd' conn' heq hlookup'
  | interrupted =>
      rw [hsending.running] at hnext
      cases hnext
      have hsame : (⟨conn.received, conn.sent ++ call.handed call⟩ : EchoConn) = conn := by
        rw [SendAll.handed_self, List.append_nil]
      have hconns : s.conns.insert fd conn = s.conns := by
        apply Finmap.ext_lookup
        intro fd'
        by_cases heq : fd' = fd
        · subst heq
          rw [Finmap.lookup_insert, hlookup]
        · rw [Finmap.lookup_insert_of_ne _ heq]
      rw [hsame, hconns, ← hphase]
      exact h
  | failed fatal handed code =>
      rw [code] at hnext
      apply (hcore s.phase).drop (Finmap.lookup_insert _) _ _ hnext
      · dsimp only
        rw [handed, List.append_nil, hreceived]
        exact List.prefix_append _ _
      · intro fd' conn' hne hlookup'
        dsimp only at hlookup'
        rw [Finmap.lookup_insert_of_ne _ hne] at hlookup'
        exact hothers fd' conn' hne hlookup'

/-! ### The event loop -/

/-- A call of `poll` leaves the registrations, and invokes nothing yet. -/
theorem loopStep_poll
    {sys sys' : LoopSystem} {result : PollResult}
    (h : loopStep sys (.poll result) = some (sys', e)) :
  (∀ r : Registry, e.elim r r.after = r) ∧ ∀ count i, sys'.point ≠ .inCallback count i
  := by
  simp only [loopStep] at h
  split at h
  case isFalse => cases h
  case isTrue houtside =>
  have hstay : ∀ {loop : EventLoop} {count i : ℕ},
      LoopSystem.point ⟨loop, sys.point⟩ ≠ .inCallback count i := by
    intro loop count i
    dsimp only
    rw [houtside]
    exact fun h => (by cases h)
  unfold pollOnce at h
  split at h
  · cases result <;> cases h <;> exact ⟨fun _ => rfl, fun _ _ => @hstay sys.loop _ _⟩
  · cases result with
    | failed =>
        cases h
        exact ⟨fun _ => rfl, fun _ _ => hstay⟩
    | timeout =>
        cases h
        exact ⟨fun _ => rfl, fun _ _ => hstay⟩
    | ready revents =>
        rw [Option.ite_none_right_eq_some] at h
        cases h.2
        exact ⟨fun _ => rfl, fun _ _ => fun h => (by cases h)⟩

/-- A turn that invokes nothing leaves the thread in the loop. -/
theorem EventServer.enter_quiet {e : Option LoopEvent}
    (h : ∀ i invocation, e ≠ some (.turn i (some invocation))) :
  s.enter e = some s
  := by
  rcases e with _ | e
  · rfl
  · cases e with
    | turn i invoked =>
        cases invoked with
        | none => rfl
        | some invocation => exact absurd rfl (h i invocation)
    | _ => rfl

/-- Nothing is left to send while no callback is running. -/
theorem ServerInv.of_looping
    (h : ServerCore listener s) (hphase : PhaseOk s) (hidle : ∀ fd, s.unsent fd = [])
    (hechoed : ∀ fd conn, s.conns.lookup fd = some conn → conn.received = conn.sent) :
  ServerInv listener s
  where
  core := h
  phase := hphase
  echoed := by
    intro fd conn hlookup
    rw [hidle, List.append_nil]
    exact hechoed fd conn hlookup

theorem ServerInv.echoed_of_looping
    (h : ServerInv listener s) (hphase : s.phase = .looping)
    (hlookup : s.conns.lookup fd = some conn) :
  conn.received = conn.sent
  := by
  rw [h.echoed fd conn hlookup, EventServer.unsent, hphase, List.append_nil]

/-- A turn invokes `on_accept` for the listener, `on_client` for an open connection, or
nothing. -/
theorem ServerCore.turn_cases
    (h : ServerCore listener s) {sys : LoopSystem} (hstep : loopStep s.sys .turn = some (sys, e)) :
  (∀ r : Registry, e.elim r r.after = r)
    ∧ (((∀ i invocation, e ≠ some (.turn i (some invocation)))
        ∧ ∀ count i, sys.point ≠ .inCallback count i)
      ∨ ∃ i invocation count, e = some (.turn i (some invocation))
        ∧ sys.point = .inCallback count i
        ∧ (invocation.cb = onAccept ∨ invocation.cb = onClient ∧ invocation.fd ∈ s.conns))
  := by
  obtain ⟨log, hs, hregistered⟩ := h.registered
  have hcases := LoopStep.of_turn hstep
  have hturn := hcases
  cases hcases with
  | skip =>
      refine ⟨fun _ => rfl, .inl ⟨?_, ?_⟩⟩
      · intro i invocation heq
        cases heq
      · intro count i heq
        cases heq
  | @invoke n i entry p invocation =>
      refine ⟨fun _ => rfl, .inr ⟨i, invocation, n, rfl, rfl, ?_⟩⟩
      obtain ⟨reg, hlookup, hcb⟩ := lookup_of_invoked hs hturn
      rw [hregistered, serverRegistration] at hlookup
      split at hlookup
      case isTrue =>
        cases hlookup
        exact .inl hcb.symm
      case isFalse =>
        obtain ⟨conn, hconn, rfl⟩ := Option.map_eq_some_iff.mp hlookup
        exact .inr ⟨hcb.symm, Finmap.mem_iff.mpr ⟨conn, hconn⟩⟩
  | roundDone =>
      refine ⟨fun _ => rfl, .inl ⟨?_, ?_⟩⟩
      · intro i invocation heq
        cases heq
      · intro count i heq
        cases heq
  | _ => simp only [loopStep] at hstep; grind

/-- Every step keeps the invariant. -/
theorem ServerInv.step
    {e : Option Empty} {a : ServerAct} (h : ServerInv listener s)
    (hstep : serverStep listener s a = some (s', e)) :
  ServerInv listener s'
  := by
  cases a with
  | poll result =>
      obtain ⟨hphase, hmap⟩ := Option.ite_none_right_eq_some.mp hstep
      obtain ⟨⟨s₁, e₁⟩, hcall, heq⟩ := Option.map_eq_some_iff.mp hmap
      cases heq
      obtain ⟨sys, hloop, rfl⟩ := EventServer.call_eq_some hcall
      obtain ⟨hquiet, houtside⟩ := loopStep_poll hloop
      have hechoed : ∀ fd conn, s.conns.lookup fd = some conn → conn.received = conn.sent :=
        fun fd conn => h.echoed_of_looping hphase
      split
      case isTrue =>
        apply ServerInv.of_looping (h.core.step_quiet hloop hquiet .stopped) (.stopped rfl)
          (fun _ => rfl) hechoed
      case isFalse =>
        apply ServerInv.of_looping (h.core.step_quiet hloop hquiet s.phase)
          (.looping hphase houtside) _ hechoed
        intro fd
        rw [EventServer.unsent, hphase]
  | turn =>
      obtain ⟨hphase, hbind⟩ := Option.ite_none_right_eq_some.mp hstep
      obtain ⟨⟨s₁, e₁⟩, hcall, hmap⟩ := Option.bind_eq_some_iff.mp hbind
      obtain ⟨s₂, henter, heq⟩ := Option.map_eq_some_iff.mp hmap
      cases heq
      obtain ⟨sys, hloop, rfl⟩ := EventServer.call_eq_some hcall
      have hechoed : ∀ fd conn, s.conns.lookup fd = some conn → conn.received = conn.sent :=
        fun fd conn => h.echoed_of_looping hphase
      obtain ⟨hquiet, ⟨hnone, houtside⟩ | ⟨i, invocation, count, rfl, hpoint, hcb⟩⟩ :=
        h.core.turn_cases hloop
      · rw [EventServer.enter_quiet hnone] at henter
        cases henter
        apply ServerInv.of_looping (h.core.step_quiet hloop hquiet s.phase)
          (.looping hphase houtside) _ hechoed
        intro fd
        rw [EventServer.unsent, hphase]
      · rw [EventServer.enter] at henter
        rcases hcb with hcb | ⟨hcb, hopen⟩
        · rw [if_pos hcb] at henter
          cases henter
          exact ServerInv.of_looping (h.core.step_quiet hloop hquiet .accepting)
            (.accepting rfl hpoint) (fun _ => rfl) hechoed
        · rw [if_neg (by rw [hcb]; decide), if_pos hcb] at henter
          cases henter
          exact ServerInv.of_looping (h.core.step_quiet hloop hquiet (.receiving invocation.fd))
            (.receiving rfl hpoint hopen) (fun _ => rfl) hechoed
  | accept outcome reallocs =>
      obtain ⟨hphase, hmap⟩ := Option.ite_none_right_eq_some.mp hstep
      obtain ⟨s₁, haccept, heq⟩ := Option.map_eq_some_iff.mp hmap
      cases heq
      apply h.accept hphase haccept
  | recv outcome =>
      simp only [serverStep] at hstep
      split at hstep
      case h_1 fd hphase =>
        obtain ⟨s₁, hrecv, heq⟩ := Option.map_eq_some_iff.mp hstep
        cases heq
        apply h.recv hphase hrecv
      case h_2 => cases hstep
  | send outcome =>
      simp only [serverStep] at hstep
      split at hstep
      case h_1 fd buf call hphase =>
        obtain ⟨s₁, hsend, heq⟩ := Option.map_eq_some_iff.mp hstep
        cases heq
        apply h.send hphase hsend
      case h_2 => cases hstep

theorem ServerInv.init (h : ServerStart listener s) :
  ServerInv listener s
  := by
  obtain ⟨sys, phase, conns, past⟩ := s
  obtain ⟨hnonneg, hphase, hconns, hpast, reallocs, hadd⟩ := h
  dsimp only at hphase hconns hpast hadd
  subst hphase hconns hpast
  have hzero : loopMachine.Reaches [] ⟨.zero, .outside⟩ := .init rfl
  have hregistered : registered [.add listener evRead onAccept serverData .ok]
      = (∅ : Registry).insert listener ⟨evRead, onAccept, serverData⟩ := rfl
  apply ServerInv.of_looping
  · constructor
    · refine ⟨_, hzero.snoc ⟨_, hadd⟩, ?_⟩
      intro fd
      rw [List.nil_append, Option.toList_some, hregistered, serverRegistration]
      by_cases heq : fd = listener
      · subst heq
        rw [Finmap.lookup_insert, if_pos rfl]
      · rw [Finmap.lookup_insert_of_ne _ heq, if_neg heq, Finmap.lookup_empty,
          Finmap.lookup_empty]
        rfl
    · exact hnonneg
    · exact Finmap.notMem_empty
    · intro conn hmem
      cases hmem
  · apply PhaseOk.looping rfl
    intro count i hpoint
    simp only [loopStep, LoopPoint.mayCall, if_true, Option.some.injEq, Prod.mk.injEq] at hadd
    rw [← hadd.1] at hpoint
    cases hpoint
  · exact fun _ => rfl
  · intro fd conn hlookup
    rw [Finmap.lookup_empty] at hlookup
    cases hlookup

/-- Every state of a run keeps the invariant. -/
theorem ServerInv.of_reaches {log : List Empty} (hs : (eventServerMachine listener).Reaches log s) :
  ServerInv listener s
  := by
  apply hs.invariant (I := fun _ s => ServerInv listener s)
  · exact fun s => ServerInv.init
  · rintro log s e s' _ h ⟨a, hstep⟩
    exact h.step hstep

/-! ### What a maintainer relies on -/

/-- One registration is the listener's. -/
theorem card_keys_of_registration
    {r : Registry} {conns : Finmap fun _ : ℤ => EchoConn} (hlistener : listener ∉ conns)
    (h : ∀ fd, r.lookup fd = serverRegistration listener conns fd) :
  r.keys.card = conns.keys.card + 1
  := by
  have hkeys : r.keys = insert listener conns.keys := by
    ext fd
    rw [Finset.mem_insert, Finmap.mem_keys, Finmap.mem_keys, Finmap.mem_iff, Finmap.mem_iff, h,
      serverRegistration]
    by_cases heq : fd = listener
    · simp [heq]
    · simp [heq, Option.map_eq_some_iff]
  rw [hkeys, Finset.card_insert_of_notMem (by rwa [Finmap.mem_keys])]

/-- In a round the thread can take the next turn. -/
theorem ServerInv.isSome_turn
    (h : ServerInv listener s) (hphase : s.phase = .looping) (hround : s.sys.point ≠ .outside) :
  (serverStep listener s .turn).isSome = true
  := by
  obtain ⟨log, hs, -⟩ := h.core.registered
  obtain ⟨count, i, hpoint⟩ : ∃ count i, s.sys.point = .walking count i := by
    cases h.phase with
    | looping _ outside =>
        cases hpoint : s.sys.point with
        | outside => exact absurd hpoint hround
        | walking count i => exact ⟨count, i, rfl⟩
        | inCallback count i => exact absurd hpoint (outside count i)
    | accepting heq | receiving heq | sending heq | stopped heq =>
        rw [hphase] at heq
        cases heq
  obtain ⟨⟨sys, e⟩, hloop⟩ : ∃ result, loopStep s.sys .turn = some result := by
    have hlen := turns_le_len hs count i (by rw [hpoint]; rfl)
    have harrays := arrays_of_reaches hs
    have hle := harrays.len_le
    have hentries := harrays.cap_le_entries
    have hpollfds := harrays.cap_le_pollfds
    simp only [loopStep, hpoint]
    split
    case isFalse => exact ⟨_, rfl⟩
    case isTrue hlt =>
    rw [List.getElem?_eq_getElem (i := i) (by omega), List.getElem?_eq_getElem (i := i) (by omega)]
    exact ⟨_, rfl⟩
  have hcall : s.call .turn = some ({ s with sys }, e) := by
    rw [EventServer.call, hloop]
    rfl
  rw [serverStep, if_pos hphase, hcall, Option.bind_some, Option.isSome_map]
  obtain ⟨-, ⟨hnone, -⟩ | ⟨i, invocation, count, rfl, -, hcb⟩⟩ := h.core.turn_cases hloop
  · rw [EventServer.enter_quiet hnone]
    rfl
  · rw [EventServer.enter]
    rcases hcb with hcb | ⟨hcb, -⟩
    · rw [if_pos hcb]
      rfl
    · rw [if_neg (by rw [hcb]; decide), if_pos hcb]
      rfl

/-- In every state that the server can reach the registrations of the event loop are the listener
and the open connections.  What was received on an open connection was sent back in order, up to
what its running callback still sends, and on a closed connection the front of what was received
was sent back.  A callback uses an open connection only.  Outside rounds `event_loop_count` is the
number of open connections and the listener, and a round can always go on. -/
theorem event_server_echoes {log : List Empty}
    (hs : (eventServerMachine listener).Reaches log s) :
  (∀ fd reg, (fd, reg) ∈ s.sys.loop.bindings ↔ serverRegistration listener s.conns fd = some reg)
    ∧ (∀ fd conn, s.conns.lookup fd = some conn → conn.received = conn.sent ++ s.unsent fd)
    ∧ (∀ conn ∈ s.past, conn.sent <+: conn.received)
    ∧ (∀ fd, s.phase = .receiving fd ∨ (∃ buf call, s.phase = .sending fd buf call) →
        fd ∈ s.conns)
    ∧ (s.sys.point = .outside → eventLoopCount s.sys.loop = s.conns.keys.card + 1)
    ∧ (s.phase = .looping → s.sys.point ≠ .outside →
        (serverStep listener s .turn).isSome = true)
  := by
  have h := ServerInv.of_reaches hs
  obtain ⟨loopLog, hloop, hregistered⟩ := h.core.registered
  have hinv := LoopInv.of_reaches hloop
  refine ⟨?_, h.echoed, h.core.past, ?_, ?_, h.isSome_turn⟩
  · intro fd reg
    rw [← hinv.represents.lookup_iff, hregistered]
  · intro fd hphase
    cases h.phase with
    | receiving heq _ isOpen | sending heq _ isOpen =>
        rcases hphase with hphase | ⟨_, _, hphase⟩ <;> rw [hphase] at heq <;> cases heq
        exact isOpen
    | looping heq | accepting heq | stopped heq =>
        rcases hphase with hphase | ⟨_, _, hphase⟩ <;> rw [hphase] at heq <;> cases heq
  · intro houtside
    have hlength := s.sys.loop.length_active_eq
    rw [(arrays_of_reaches hloop).length_active, (hinv.countInv houtside).countP_eq] at hlength
    rw [eventLoopCount, hlength, ← hinv.represents.card_keys,
      card_keys_of_registration h.core.listener_notMem hregistered]
    rfl

/-- A client is accepted and sends two bytes; one of them was sent back, and the other one still
will be. -/
theorem event_server_echoes_of_run :
  ∃ s, (eventServerMachine 3).Reaches [] s ∧ s.conns.lookup 4 = some ⟨[104, 105], [104]⟩
    ∧ s.unsent 4 = [105]
  := by
  let start : EventServer :=
    ⟨⟨(eventLoopAdd .zero 3 evRead onAccept serverData .clear).1, .outside⟩, .looping, ∅, []⟩
  have hrun : (StateMachine.run (serverStep 3) start
      [.poll (.ready [pollIn]), .turn, .accept (.accepted 4) .clear, .turn,
        .poll (.ready [0, pollIn]), .turn, .turn, .recv (.received [104, 105]),
        .send (.failed true), .send (.accepted 1)]).map
        (fun result => (result.1.conns.lookup 4, result.2))
      = some (some ⟨[104, 105], [104]⟩, []) := by
    decide
  obtain ⟨⟨s, log⟩, hrun, heq⟩ := Option.map_eq_some_iff.mp hrun
  obtain ⟨hlookup, rfl⟩ := Prod.mk.inj heq
  have hs : (eventServerMachine 3).Reaches [] s :=
    StateMachine.reaches_of_run ⟨by decide, rfl, rfl, rfl, .clear, rfl⟩ hrun
  refine ⟨s, hs, hlookup, ?_⟩
  have hechoed := (event_server_echoes hs).2.1 4 _ hlookup
  exact (List.cons.inj hechoed).2.symm

end CTemplate

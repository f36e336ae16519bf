import CTemplate.Networking.PoolServer.Places

/-!
# What the echo server on the thread pool keeps

In every run of the server a socket is used by one thread at a time, no block and no descriptor is
used after it was given back, what is sent back on a connection is what was received on it, and
when `main` returns nothing is left open or allocated.
-/

namespace CTemplate

variable {listener : ℤ} {func : Ptr} {s s' : PoolServer} {e : Option PoolServerEvent}
  {log : List PoolServerEvent} {waiting : List Job} {p q : Ptr} {n : ℕ} {phase' : HandlerPhase}

/-- What holds of the server in every state. -/
structure PoolServerInv (listener : ℤ) (log : List PoolServerEvent) (s : PoolServer)
    (waiting : List Job) : Prop where
  pool : PoolWaits s.pool waiting
  order : PoolOrder log s waiting
  sockets : SocketLedger (Place s waiting) s.spare s
  listener : s.conns listener = none
  listening : s.listening = true ↔ s.phase ≠ .returned
  returned : s.phase = .returned → s.pool.destroyer = .returned
  noFault : .fault ∉ log

/-! ### Steps of the main thread -/

/-- What a step must give: the invariant for the log with its event. -/
abbrev Keeps (listener : ℤ) (log : List PoolServerEvent) (e : Option PoolServerEvent)
    (s' : PoolServer) : Prop :=
  ∃ waiting, PoolServerInv listener (log ++ e.toList) s' waiting

/-- A step that shows no event. -/
theorem PoolServerInv.keeps (waiting : List Job) (h : PoolServerInv listener log s' waiting) :
  Keeps listener log none s'
  := by
  refine ⟨waiting, ?_⟩
  rwa [Option.toList_none, List.append_nil]

/-- The order of the connections depends on the jobs and on what the main thread has. -/
theorem PoolOrder.congr
    (h : PoolOrder log s waiting) (hpending : s'.pending = s.pending)
    (hsubmits : s'.submits = s.submits) (hrejects : rejectedConns log = [])
    (haccepted : s'.accepted = s.accepted) (hjobs : s'.pool.jobOf = s.pool.jobOf)
    (hcalls : s'.pool.calls = s.pool.calls) :
  PoolOrder log s' waiting
  where
  order := by rw [hpending, haccepted, h.order]
  rejects := .inr (.inr hrejects)
  calls := by rw [hcalls, hsubmits, haccepted, h.calls]
  running := by
    rw [hjobs]
    exact h.running
  running_inj := by
    rw [hjobs]
    exact h.running_inj

/-- The main thread goes on without a connection. -/
theorem PoolServerInv.idle
    (h : PoolServerInv listener log s waiting) (hrejects : rejectedConns log = [])
    (hpending : s.pending = []) (hsubmits : s.submits = 0) (hpending' : s'.pending = [])
    (hsubmits' : s'.submits = 0) (haccepted : s'.accepted = s.accepted) (hpool : s'.pool = s.pool)
    (hconns : s'.conns = s.conns)
    (hsockets : SocketLedger (Place s' waiting) s'.spare s')
    (hlistening : s'.listening = s.listening) (hreturned : s.phase ≠ .returned)
    (hreturned' : s'.phase ≠ .returned) :
  PoolServerInv listener log s' waiting
  where
  pool := by
    rw [hpool]
    exact h.pool
  order := by
    apply h.order.congr _ _ hrejects haccepted
    · rw [hpool]
    · rw [hpool]
    · rw [hpending, hpending']
    · rw [hsubmits, hsubmits']
  sockets := hsockets
  listener := by rw [hconns, h.listener]
  listening := by simp [hlistening, h.listening, hreturned, hreturned']
  returned := fun heq => absurd heq hreturned'
  noFault := h.noFault

theorem PoolServer.not_holding (h : s.pending = []) (p : Ptr) :
  ¬ s.Holding p
  := by
  intro hp
  rw [mem_pending hp] at h
  cases h

/-- The places when the main thread has no connection before and after. -/
theorem Place.idle
    (hpending : s.pending = []) (hpending' : s'.pending = []) (haccepted : s'.accepted = s.accepted)
    (hpool : s'.pool = s.pool) (hhandlers : s'.handlers = s.handlers) (p : Ptr) (n : ℕ)
    (phase : HandlerPhase) :
  Place s' waiting p n phase ↔ Place s waiting p n phase
  := by
  apply Place.congr _ haccepted (by rw [hpool]) hhandlers
  intro p
  simp [PoolServer.not_holding hpending, PoolServer.not_holding hpending']

theorem PoolServerInv.malloc
    (h : PoolServerInv listener log s waiting) (hphase : s.phase = .allocating)
    {block : Option (Ptr × ℤ)} (hstep : s.malloc block = some (s', e)) :
  Keeps listener log e s'
  := by
  have hrejects : rejectedConns log = [] := by simpa [hphase] using h.order.rejects
  have hpending : s.pending = [] := by rw [PoolServer.pending, hphase]
  have hsubmits : s.submits = 0 := by rw [PoolServer.submits, hphase]
  have hreturned : s.phase ≠ .returned := by
    rw [hphase]
    intro heq
    cases heq
  have hsockets := h.sockets
  rw [PoolServer.spare, hphase] at hsockets
  unfold PoolServer.malloc at hstep
  split at hstep
  · cases hstep
    apply PoolServerInv.keeps waiting
    apply h.idle hrejects hpending hsubmits
    case hsockets =>
      apply hsockets.congr (Place.idle hpending _ _ _ _) <;> rfl
    case hreturned' =>
      intro heq
      cases heq
    all_goals first | rfl | exact hreturned
  · split at hstep
    case isTrue => cases hstep
    case isFalse hfree =>
    cases hstep
    apply PoolServerInv.keeps waiting
    apply h.idle hrejects hpending hsubmits
    case hsockets =>
      apply (hsockets.malloc (Option.not_isSome_iff_eq_none.mp hfree) _).congr
        (Place.idle hpending _ _ _ _) <;> rfl
    case hreturned' =>
      intro heq
      cases heq
    all_goals first | rfl | exact hreturned

theorem PoolServerInv.accept
    (h : PoolServerInv listener log s waiting) {client : Ptr} (hphase : s.phase = .accepting client)
    {outcome : AcceptOutcome} (hstep : s.accept listener client outcome = some (s', e)) :
  Keeps listener log e s'
  := by
  have hrejects : rejectedConns log = [] := by simpa [hphase] using h.order.rejects
  have hpending : s.pending = [] := by rw [PoolServer.pending, hphase]
  have hsubmits : s.submits = 0 := by rw [PoolServer.submits, hphase]
  have hreturned : s.phase ≠ .returned := by
    rw [hphase]
    intro heq
    cases heq
  have hsockets := h.sockets
  rw [PoolServer.spare, hphase] at hsockets
  unfold PoolServer.accept at hstep
  split at hstep
  · cases hstep
    exact h.keeps waiting
  · obtain ⟨hfree, hsockets'⟩ := hsockets.discard
    rw [PoolServer.orFault, hfree, Option.map_some, Option.getD_some] at hstep
    cases hstep
    apply PoolServerInv.keeps waiting
    apply h.idle hrejects hpending hsubmits
    case hsockets =>
      apply hsockets'.congr (Place.idle hpending _ _ _ _) <;> rfl
    case hreturned' =>
      intro heq
      cases heq
    all_goals first | rfl | exact hreturned
  · rename_i fd
    split at hstep
    case isFalse => cases hstep
    case isTrue hfd =>
    obtain ⟨hpos, hlistener, hfree⟩ := hfd
    obtain ⟨fd', hclient⟩ := hsockets.allocated client rfl
    rw [PoolServer.orFault, hclient, Option.map_some, Option.getD_some] at hstep
    cases hstep
    apply PoolServerInv.keeps waiting
    refine ⟨h.pool, ?_, ?_, ?_, ?_, (fun heq => by cases heq), h.noFault⟩
    · refine ⟨?_, .inr (.inr hrejects), ?_, h.order.running, h.order.running_inj⟩
      · have horder := h.order.order
        rw [hpending, hrejects, List.append_nil, List.append_nil] at horder
        rw [hrejects, List.append_nil, horder]
        exact List.range_succ.symm
      · have hcalls := h.order.calls
        rw [hsubmits, Nat.add_zero] at hcalls
        rw [← hcalls]
        rfl
    · apply (hsockets.accept hpos hfree).congr
      case hclients | hconns | haccepted | hpast => rfl
      intro q n phase
      constructor
      · rintro (hmain | hjob | hjob)
        · right
          rcases hmain with hmain | hmain <;> cases hmain
          exact ⟨rfl, rfl, rfl⟩
        · exact .inl (.waiting hjob)
        · exact .inl (.running hjob)
      · rintro (hq | ⟨rfl, rfl, rfl⟩)
        · rcases hq with hmain | hjob | hjob
          · exact absurd hmain (PoolServer.not_holding hpending _)
          · exact .waiting hjob
          · exact .running hjob
        · exact .main (.inl rfl)
    · exact (Function.update_of_ne hlistener.symm ..).trans h.listener
    · simp [h.listening, hreturned]

theorem PoolServerInv.submit
    (h : PoolServerInv listener log s waiting) {client : Ptr}
    (hphase : s.phase = .submitting client) {block : Option Addr} {chosen : List Bool}
    (hstep : s.submit func client block chosen = some (s', e)) :
  Keeps listener log e s'
  := by
  have hrejects : rejectedConns log = [] := by simpa [hphase] using h.order.rejects
  have hpending : s.pending = [s.accepted - 1] := PoolServer.mem_pending (.inl hphase)
  have hlistening : s.listening = true := by
    apply h.listening.mpr
    rw [hphase]
    intro heq
    cases heq
  have hcalls : s.pool.calls + 1 = s.accepted := by
    rw [← h.order.calls, PoolServer.submits, hphase]
  have hsockets := h.sockets
  rw [PoolServer.spare, hphase] at hsockets
  have horder := h.order.order
  rw [hpending, hrejects, List.append_nil] at horder
  obtain ⟨⟨pool, event⟩, hpool, heq⟩ := Option.map_eq_some_iff.mp hstep
  obtain ⟨code, rfl⟩ := poolStep_submit hpool
  obtain ⟨hwaits, hjobs, hcalls'⟩ := h.pool.submit (poolStep_cases hpool)
  have hid : s.pool.calls = s.accepted - 1 := by omega
  have hrunning : ∀ i job, pool.jobOf i = some job → job.id ∈ startedConns log := by
    rw [hjobs]
    exact h.order.running
  have hinj : ∀ i j job job', pool.jobOf i = some job → pool.jobOf j = some job' →
      job.id = job'.id → i = j := by
    rw [hjobs]
    exact h.order.running_inj
  by_cases hcode : code = .ok
  · subst hcode
    cases heq
    rw [if_pos rfl] at hwaits
    apply PoolServerInv.keeps (waiting ++ [⟨s.pool.calls, func, client⟩])
    refine ⟨hwaits, ⟨?_, .inr (.inr hrejects), ?_, hrunning, hinj⟩, ?_, h.listener, ?_,
      (fun heq => by cases heq), h.noFault⟩
    · rw [List.map_append, List.map_singleton, hrejects, List.append_nil, hid, ← horder,
        ← List.append_assoc]
      exact List.append_nil _
    · exact hcalls'.trans hcalls
    · apply hsockets.congr
      case hclients | hconns | haccepted | hpast => rfl
      intro p n phase
      exact Place.submitted hphase rfl rfl hid hjobs rfl
    · apply iff_of_true hlistening
      intro heq
      cases heq
  · have heq' : s' = { s with pool, phase := .rejecting client } ∧ e = none := by
      cases code with
      | ok => exact absurd rfl hcode
      | _ =>
          cases heq
          exact ⟨rfl, rfl⟩
    obtain ⟨rfl, rfl⟩ := heq'
    rw [if_neg hcode] at hwaits
    apply PoolServerInv.keeps waiting
    refine ⟨hwaits, ⟨?_, .inr (.inr hrejects), ?_, hrunning, hinj⟩, ?_, h.listener, ?_,
      (fun heq => by cases heq), h.noFault⟩
    · rw [hrejects, List.append_nil]
      exact horder
    · exact hcalls'.trans hcalls
    · apply hsockets.congr
      case hclients | hconns | haccepted | hpast => rfl
      intro p n phase
      apply Place.congr
      case haccepted | hhandlers => rfl
      · intro p
        simp [PoolServer.Holding, hphase]
      · exact hjobs
    · apply iff_of_true hlistening
      intro heq
      cases heq

/-- The connection of the main thread is closed and freed. -/
theorem PoolServerInv.reject
    (h : PoolServerInv listener log s waiting) {client : Ptr}
    (hphase : s.phase = .rejecting client) (hstep : s.reject client = some (s', e)) :
  Keeps listener log e s'
  := by
  have hrejects : rejectedConns log = [] := by simpa [hphase] using h.order.rejects
  have hpending : s.pending = [s.accepted - 1] := PoolServer.mem_pending (.inr hphase)
  have hcalls := h.order.calls
  rw [PoolServer.submits, hphase] at hcalls
  have hsockets := h.sockets
  rw [PoolServer.spare, hphase] at hsockets
  have hplace : Place s waiting client (s.accepted - 1) (.serving .receiving) :=
    .main (.inr hphase)
  obtain ⟨fd, conn, hconn, -, hclose, hsockets'⟩ := hsockets.tcpClose hplace
  obtain ⟨hfree, hsockets''⟩ := hsockets'.free (.inr ⟨rfl, rfl, rfl⟩)
  rw [PoolServer.reject, PoolServer.orFault, hclose, Option.bind_some, hfree, Option.map_some,
    Option.getD_some] at hstep
  cases hstep
  have hrejected : rejectedConns (log ++ [.reject (s.accepted - 1)]) = [s.accepted - 1] := by
    rw [rejectedConns, List.filterMap_append]
    rw [rejectedConns] at hrejects
    rw [hrejects]
    rfl
  have hstarted : startedConns (log ++ [.reject (s.accepted - 1)]) = startedConns log := by
    rw [startedConns, List.filterMap_append]
    exact List.append_nil _
  refine ⟨waiting, h.pool, ⟨?_, .inl rfl, hcalls, ?_, h.order.running_inj⟩, ?_, ?_, ?_, ?_, ?_⟩
  · have horder := h.order.order
    rw [hpending, hrejects, List.append_nil] at horder
    rw [Option.toList_some, hrejected, hstarted]
    simp only [PoolServer.pending, List.append_nil]
    exact horder
  · rw [Option.toList_some, hstarted]
    exact h.order.running
  · apply hsockets''.congr
    case hclients | hconns | haccepted | hpast => rfl
    intro p n phase
    have hne := h.order.not_pending (.inr hphase)
    constructor
    · rintro (hmain | @⟨job, hjob⟩ | @⟨i, job, hjob⟩)
      · rcases hmain with hmain | hmain <;> cases hmain
      · have hid : job.id ≠ s.accepted - 1 := by
          intro heq
          rw [← heq] at hne
          exact hne.2 (List.mem_map_of_mem hjob)
        exact ⟨hid, .inl ⟨hid, .waiting hjob⟩⟩
      · have hid : job.id ≠ s.accepted - 1 := by
          intro heq
          rw [← heq] at hne
          exact hne.1 (h.order.running i job hjob)
        exact ⟨hid, .inl ⟨hid, .running hjob⟩⟩
    · rintro ⟨hid, ⟨-, hplace⟩ | ⟨-, heq, -⟩⟩
      · rcases hplace with hmain | hjob | hjob
        · exact absurd rfl hid
        · exact .waiting hjob
        · exact .running hjob
      · exact absurd heq hid
  · have hfd : listener ≠ fd := by
      rintro rfl
      rw [h.listener] at hconn
      cases hconn
    exact (Function.update_of_ne hfd ..).trans h.listener
  · apply iff_of_true
    · apply h.listening.mpr
      rw [hphase]
      intro heq
      cases heq
    · intro heq
      cases heq
  · intro heq
    cases heq
  · simp [h.noFault]

/-- A part of `thread_pool_destroy`, or a spurious wakeup. -/
theorem PoolServerInv.destroys
    (h : PoolServerInv listener log s waiting) {a : PoolAct} {pool : PoolSystem}
    {event : Option PoolEvent} (ha : a = .destroy ∨ a = .join ∨ a = .drain ∨ ∃ i, a = .spurious i)
    (hstep : poolStep s.pool a = some (pool, event))
    (hreturned : s.phase = .returned → pool.destroyer = .returned) :
  Keeps listener log none { s with pool }
  := by
  obtain ⟨hwaits, hjobs, hcalls⟩ := h.pool.destroys ha hstep
  apply PoolServerInv.keeps waiting
  refine ⟨hwaits, ⟨h.order.order, h.order.rejects, ?_, ?_, ?_⟩, ?_, h.listener, h.listening,
    hreturned, h.noFault⟩
  · rw [← h.order.calls, ← hcalls]
    rfl
  · rw [hjobs]
    exact h.order.running
  · rw [hjobs]
    exact h.order.running_inj
  · apply h.sockets.congr
    case hclients | hconns | haccepted | hpast => rfl
    intro p n phase
    exact Place.congr (fun _ => Iff.rfl) rfl hjobs rfl

/-! ### Steps of the workers -/

theorem PoolServerInv.enter
    (h : PoolServerInv listener log s waiting) {i : ℕ} (hstep : s.enter i = some (s', e)) :
  Keeps listener log e s'
  := by
  obtain ⟨⟨pool, event⟩, hpool, heq⟩ := Option.map_eq_some_iff.mp hstep
  have hdestroyer := poolStep_destroyer (.inl rfl) hpool
  rcases h.pool.enter hpool with ⟨hquiet, hwaits, hjobs, hcalls⟩
    | ⟨job, rest, rfl, rfl, hwaits, hnone, hjobs, hcalls⟩
  · have heq' : s' = { s with pool } ∧ e = none := by
      rcases hquiet with rfl | rfl | rfl | rfl <;> cases heq <;> exact ⟨rfl, rfl⟩
    obtain ⟨rfl, rfl⟩ := heq'
    apply PoolServerInv.keeps waiting
    refine ⟨hwaits, ⟨h.order.order, h.order.rejects, ?_, ?_, ?_⟩, ?_, h.listener, h.listening,
      fun heq => hdestroyer.trans (h.returned heq), h.noFault⟩
    · rw [← h.order.calls, ← hcalls]
      rfl
    · rw [hjobs]
      exact h.order.running
    · rw [hjobs]
      exact h.order.running_inj
    · apply h.sockets.congr
      case hclients | hconns | haccepted | hpast => rfl
      intro p n phase
      exact Place.congr (fun _ => Iff.rfl) rfl hjobs rfl
  · cases heq
    have hstarted : startedConns (log ++ [.start job.id]) = startedConns log ++ [job.id] := by
      rw [startedConns, List.filterMap_append]
      rfl
    have hrejected : rejectedConns (log ++ [.start job.id]) = rejectedConns log := by
      rw [rejectedConns, List.filterMap_append]
      exact List.append_nil _
    have hnew : job.id ∉ startedConns log := by
      apply h.order.not_started
      rw [List.map_cons]
      exact List.mem_cons_self
    refine ⟨rest, hwaits, ⟨?_, ?_, ?_, ?_, ?_⟩, ?_, h.listener, h.listening,
      fun heq => hdestroyer.trans (h.returned heq), ?_⟩
    · rw [Option.toList_some, hstarted, hrejected]
      have horder := h.order.order
      rw [List.map_cons, List.append_cons] at horder
      exact horder
    · rw [Option.toList_some, hrejected]
      exact h.order.rejects
    · rw [← h.order.calls, ← hcalls]
      rfl
    · rw [Option.toList_some, hstarted, hjobs]
      intro j job' hjob'
      by_cases hj : j = i
      · subst hj
        rw [Function.update_self] at hjob'
        cases hjob'
        exact List.mem_append_right _ List.mem_cons_self
      · rw [Function.update_of_ne hj] at hjob'
        exact List.mem_append_left _ (h.order.running j job' hjob')
    · rw [hjobs]
      intro j k job₁ job₂ hjob₁ hjob₂ hid
      by_cases hj : j = i <;> by_cases hk : k = i
      · rw [hj, hk]
      · rw [hj, Function.update_self] at hjob₁
        rw [Function.update_of_ne hk] at hjob₂
        cases hjob₁
        rw [hid] at hnew
        exact absurd (h.order.running k job₂ hjob₂) hnew
      · rw [hk, Function.update_self] at hjob₂
        rw [Function.update_of_ne hj] at hjob₁
        cases hjob₂
        rw [← hid] at hnew
        exact absurd (h.order.running j job₁ hjob₁) hnew
      · rw [Function.update_of_ne hj] at hjob₁
        rw [Function.update_of_ne hk] at hjob₂
        exact h.order.running_inj j k job₁ job₂ hjob₁ hjob₂ hid
    · apply h.sockets.congr
      case hclients | hconns | haccepted | hpast => rfl
      intro p n phase
      exact Place.taken hnone (fun _ => Iff.rfl) rfl hjobs rfl
    · simp [h.noFault]

/-- A worker goes on in its task. -/
theorem PoolServerInv.serve
    (h : PoolServerInv listener log s waiting) {i : ℕ} {job : Job}
    (hjob : s.pool.jobOf i = some job) {conns : ℤ → Option PoolConn}
    {clients : Ptr → Option ClientSocket} {past : List PoolConn}
    (hconns : conns listener = none)
    (hsockets : SocketLedger (Replaced (Place s waiting) job.arg job.id phase') s.spare
      { s with clients, conns, past }) :
  Keeps listener log none
    { s with clients, conns, past, handlers := Function.update s.handlers i phase' }
  := by
  apply PoolServerInv.keeps waiting
  refine ⟨h.pool, ⟨h.order.order, h.order.rejects, h.order.calls, h.order.running,
    h.order.running_inj⟩, ?_, hconns, h.listening, h.returned, h.noFault⟩
  apply hsockets.congr
  case hclients | hconns | haccepted | hpast => rfl
  intro p n phase
  apply h.order.replaced hjob
  case hholding => exact fun _ => Iff.rfl
  case haccepted | hpool | hhandlers => rfl

theorem PoolServerInv.recv
    (h : PoolServerInv listener log s waiting) {i : ℕ} {job : Job}
    (hjob : s.pool.jobOf i = some job) (hphase : s.handlers i = .serving .receiving)
    {outcome : RecvOutcome} (hstep : s.recv i job.arg outcome = some (s', e)) :
  Keeps listener log e s'
  := by
  have hplace : Place s waiting job.arg job.id (s.handlers i) := .running hjob
  rw [hphase] at hplace
  obtain ⟨fd, conn, hpos, hclient, hconn, hnumber, hserves⟩ := h.sockets.holds _ _ _ hplace
  have herror : tcpRecvError fd echoBufSize = none := by
    rw [tcpRecvError, if_neg (not_or.mpr ⟨not_lt.mpr hpos, by decide⟩)]
  unfold PoolServer.recv at hstep
  split at hstep
  case isTrue => cases hstep
  case isFalse hcap =>
  simp only [PoolServer.orFault, hclient, Option.bind_some, herror, hconn, Option.map_some,
    Option.getD_some] at hstep
  cases hstep
  apply h.serve hjob
  · apply (Function.update_of_ne _ ..).trans h.listener
    rintro rfl
    rw [h.listener] at hconn
    cases hconn
  · refine h.sockets.serve hplace hpos hclient hconn hnumber ?_
      (hserves.recv (Nat.le_of_not_lt hcap))
    exact hnumber

theorem PoolServerInv.send
    (h : PoolServerInv listener log s waiting) {i : ℕ} {job : Job} {buf : List Byte}
    {call : SendAll} (hjob : s.pool.jobOf i = some job)
    (hphase : s.handlers i = .serving (.sending buf call)) {outcome : SendOutcome}
    (hstep : s.send i job.arg buf call outcome = some (s', e)) :
  Keeps listener log e s'
  := by
  have hplace : Place s waiting job.arg job.id (s.handlers i) := .running hjob
  rw [hphase] at hplace
  obtain ⟨fd, conn, hpos, hclient, hconn, hnumber, hserves⟩ := h.sockets.holds _ _ _ hplace
  obtain ⟨⟨call', echo⟩, hsend, hstep⟩ := Option.bind_eq_some_iff.mp hstep
  simp only [PoolServer.orFault, hclient, Option.bind_some, hconn, Option.map_some,
    Option.getD_some] at hstep
  cases hstep
  apply h.serve hjob
  · apply (Function.update_of_ne _ ..).trans h.listener
    rintro rfl
    rw [h.listener] at hconn
    cases hconn
  · refine h.sockets.serve hplace hpos hclient hconn hnumber ?_ (hserves.send hsend)
    exact hnumber

theorem PoolServerInv.close
    (h : PoolServerInv listener log s waiting) {i : ℕ} {job : Job}
    (hjob : s.pool.jobOf i = some job) (hphase : s.handlers i = .serving .closed)
    (hstep : s.close i job.arg = some (s', e)) :
  Keeps listener log e s'
  := by
  have hplace : Place s waiting job.arg job.id (s.handlers i) := .running hjob
  rw [hphase] at hplace
  obtain ⟨fd, conn, hconn, -, hclose, hsockets⟩ := h.sockets.tcpClose hplace
  rw [PoolServer.close, PoolServer.orFault, hclose, Option.map_some, Option.getD_some] at hstep
  cases hstep
  apply h.serve hjob _ hsockets
  apply (Function.update_of_ne _ ..).trans h.listener
  rintro rfl
  rw [h.listener] at hconn
  cases hconn

theorem PoolServerInv.finish
    (h : PoolServerInv listener log s waiting) {i : ℕ} {job : Job}
    (hjob : s.pool.jobOf i = some job) (hphase : s.handlers i = .closed)
    (hstep : s.finish i job.arg = some (s', e)) :
  Keeps listener log e s'
  := by
  have hplace : Place s waiting job.arg job.id (s.handlers i) := .running hjob
  rw [hphase] at hplace
  obtain ⟨hfree, hsockets⟩ := h.sockets.free hplace
  rw [PoolServer.finish, hfree] at hstep
  obtain ⟨⟨pool, event⟩, hpool, heq⟩ := Option.map_eq_some_iff.mp hstep
  cases heq
  have hdestroyer := poolStep_destroyer (.inr (.inl rfl)) hpool
  obtain ⟨job', -, hjob', hwaits, hjobs, hcalls⟩ := h.pool.finish hpool
  have hkept : ∀ j job, pool.jobOf j = some job → s.pool.jobOf j = some job := by
    intro j job'' hjob''
    rw [hjobs, Function.update_apply] at hjob''
    split at hjob''
    · cases hjob''
    · exact hjob''
  apply PoolServerInv.keeps waiting
  refine ⟨hwaits, ⟨h.order.order, h.order.rejects, ?_, ?_, ?_⟩, ?_, h.listener, h.listening,
    fun heq => hdestroyer.trans (h.returned heq), h.noFault⟩
  · rw [← h.order.calls, ← hcalls]
    rfl
  · exact fun j job'' hjob'' => h.order.running j job'' (hkept j job'' hjob'')
  · exact fun j k job₁ job₂ hjob₁ hjob₂ =>
      h.order.running_inj j k job₁ job₂ (hkept j job₁ hjob₁) (hkept k job₂ hjob₂)
  · apply hsockets.congr
    case hclients | hconns | haccepted | hpast => rfl
    intro p n phase
    apply h.order.removed hjob
    case hholding => exact fun _ => Iff.rfl
    case haccepted | hhandlers => rfl
    case hjobs => exact hjobs

/-! ### Every run -/

theorem PoolServerInv.step
    (h : PoolServerInv listener log s waiting) {a : PoolServerAct}
    (hstep : poolServerStep listener func s a = some (s', e)) :
  Keeps listener log e s'
  := by
  cases a with
  | malloc block =>
      rw [poolServerStep] at hstep
      split at hstep
      case isTrue hphase => exact h.malloc hphase hstep
      case isFalse => cases hstep
  | accept outcome =>
      rw [poolServerStep] at hstep
      split at hstep
      case h_1 hphase => exact h.accept hphase hstep
      case h_2 => cases hstep
  | submit block chosen =>
      rw [poolServerStep] at hstep
      split at hstep
      case h_1 hphase => exact h.submit hphase hstep
      case h_2 => cases hstep
  | reject =>
      rw [poolServerStep] at hstep
      split at hstep
      case h_1 hphase => exact h.reject hphase hstep
      case h_2 => cases hstep
  | destroy a =>
      rw [poolServerStep] at hstep
      split at hstep
      case isFalse => cases hstep
      case isTrue hphase =>
      obtain ⟨⟨pool, event⟩, hpool, heq⟩ := Option.map_eq_some_iff.mp hstep
      cases heq
      apply h.destroys _ hpool
      · intro heq
        rw [hphase.1] at heq
        cases heq
      · cases a with
        | destroy => exact .inl rfl
        | join => exact .inr (.inl rfl)
        | drain => exact .inr (.inr (.inl rfl))
        | _ => exact absurd hphase.2 Bool.false_ne_true
  | leave =>
      rw [poolServerStep] at hstep
      split at hstep
      case isFalse => cases hstep
      case isTrue hphase =>
      cases hstep
      apply PoolServerInv.keeps waiting
      have hpending : s.pending = [] := by rw [PoolServer.pending, hphase.1]
      have hspare : s.spare = none := by rw [PoolServer.spare, hphase.1]
      refine ⟨h.pool, ⟨?_, .inr (.inl rfl), ?_, h.order.running, h.order.running_inj⟩, ?_,
        h.listener, ?_, fun _ => hphase.2, h.noFault⟩
      · have horder := h.order.order
        rw [hpending] at horder
        exact horder
      · have hcalls := h.order.calls
        rw [PoolServer.submits, hphase.1] at hcalls
        exact hcalls
      · have hsockets := h.sockets
        rw [hspare] at hsockets
        apply hsockets.congr (Place.idle hpending _ _ _ _) <;> rfl
      · simp
  | enter i => exact h.enter hstep
  | spurious i =>
      obtain ⟨⟨pool, event⟩, hpool, heq⟩ := Option.map_eq_some_iff.mp hstep
      cases heq
      apply h.destroys (.inr (.inr (.inr ⟨i, rfl⟩))) hpool
      intro heq
      exact (poolStep_destroyer (.inr (.inr rfl)) hpool).trans (h.returned heq)
  | recv i outcome =>
      rw [poolServerStep] at hstep
      split at hstep
      case h_1 hjob hphase => exact h.recv hjob hphase hstep
      case h_2 => cases hstep
  | send i outcome =>
      rw [poolServerStep] at hstep
      split at hstep
      case h_1 hjob hphase => exact h.send hjob hphase hstep
      case h_2 => cases hstep
  | close i =>
      rw [poolServerStep] at hstep
      split at hstep
      case h_1 hjob hphase => exact h.close hjob hphase hstep
      case h_2 => cases hstep
  | finish i =>
      rw [poolServerStep] at hstep
      split at hstep
      case h_1 hjob hphase => exact h.finish hjob hphase hstep
      case h_2 => cases hstep

theorem PoolServerInv.start
    {calloc malloc : Bool} {created : ℕ → Bool} {numThreads : ℕ} {pool : ThreadPool}
    (hpool : threadPoolCreate calloc malloc created numThreads = .ok pool)
    (h : PoolServerStart pool s) :
  PoolServerInv listener [] s []
  := by
  obtain ⟨heq, hphase, hlistening, hclients, hconns, haccepted, hpast⟩ := h
  obtain ⟨hwaits, hjobs⟩ := PoolWaits.start hpool
  have hplace : ∀ p n phase, ¬ Place s [] p n phase := by
    rintro p n phase (hmain | hjob | hjob)
    · rw [PoolServer.Holding, hphase] at hmain
      rcases hmain with hmain | hmain <;> cases hmain
    · cases hjob
    · rw [heq, hjobs] at hjob
      cases hjob
  refine ⟨by rwa [heq], ⟨?_, .inr (.inr rfl), ?_, ?_, ?_⟩, ?_, hconns _, ?_, ?_, ?_⟩
  · rw [PoolServer.pending, hphase, haccepted]
    rfl
  · rw [PoolServer.submits, hphase, haccepted, heq]
    rfl
  · intro i job hjob
    rw [heq, hjobs] at hjob
    cases hjob
  · intro i j job job' hjob
    rw [heq, hjobs] at hjob
    cases hjob
  · exact
      { lt := fun p n phase hp => absurd hp (hplace p n phase)
        unique := fun p q n phase phase' hp => absurd hp (hplace p n phase)
        holds := fun p n phase hp => absurd hp (hplace p n phase)
        allocated := by
          intro p hp
          rw [PoolServer.spare, hphase] at hp
          cases hp
        held := by
          intro p socket hsocket
          rw [hclients] at hsocket
          cases hsocket
        served := by
          intro fd conn hconn
          rw [hconns] at hconn
          cases hconn
        past := by
          rw [hpast]
          intro n hn
          cases hn
        nodup := by
          rw [hpast]
          exact List.nodup_nil
        closed := by
          intro n
          simp [hpast, haccepted] }
  · rw [hphase]
    apply iff_of_true hlistening
    intro heq
    cases heq
  · rw [hphase]
    intro heq
    cases heq
  · intro hfault
    cases hfault

variable {calloc malloc : Bool} {created : ℕ → Bool} {numThreads : ℕ} {pool : ThreadPool}

/-- Every state of a run keeps the invariant. -/
theorem PoolServerInv.of_reaches
    (hpool : threadPoolCreate calloc malloc created numThreads = .ok pool)
    (hs : (poolServerMachine listener func pool).Reaches log s) :
  ∃ waiting, PoolServerInv listener log s waiting
  := by
  apply hs.invariant (I := fun log s => ∃ waiting, PoolServerInv listener log s waiting)
  · exact fun s₀ h₀ => ⟨[], .start hpool h₀⟩
  · rintro log s e s' _ ⟨waiting, h⟩ ⟨a, hstep⟩
    exact h.step hstep

/-! ### What a maintainer relies on -/

/-- Connection `n` is open at the descriptor `fd`. -/
def PoolServer.OpenAt (s : PoolServer) (n : ℕ) (fd : ℤ) : Prop :=
  ∃ conn, s.conns fd = some conn ∧ conn.number = n

/-- A connection is open at one descriptor. -/
theorem SocketLedger.openAt_unique
    {R : Ptr → ℕ → HandlerPhase → Prop} {spare : Option Ptr} (h : SocketLedger R spare s)
    {fd fd' : ℤ} (hfd : s.OpenAt n fd) (hfd' : s.OpenAt n fd') :
  fd = fd'
  := by
  obtain ⟨conn, hconn, rfl⟩ := hfd
  obtain ⟨conn', hconn', hnumber⟩ := hfd'
  obtain ⟨p, echo, hp, hclient⟩ := h.served fd conn hconn
  obtain ⟨q, echo', hq, hclient'⟩ := h.served fd' conn' hconn'
  rw [hnumber] at hq hclient'
  obtain ⟨rfl, -⟩ := h.unique _ _ _ _ _ hp hq
  rw [hclient] at hclient'
  cases hclient'
  rfl

/-- The descriptor of an open connection is in one allocated socket. -/
theorem SocketLedger.exists_unique_client
    {R : Ptr → ℕ → HandlerPhase → Prop} {spare : Option Ptr} (h : SocketLedger R spare s)
    {fd : ℤ} (hfd : s.OpenAt n fd) :
  ∃! p, s.clients p = some ⟨fd, n⟩
  := by
  obtain ⟨conn, hconn, rfl⟩ := hfd
  obtain ⟨p, echo, hp, hclient⟩ := h.served fd conn hconn
  refine ⟨p, hclient, ?_⟩
  intro q hq
  rcases h.held q _ hq with ⟨-, hnumber⟩ | ⟨phase, hplace⟩
  · exact absurd hnumber (Nat.ne_of_lt (h.lt _ _ _ hp))
  · exact (h.unique _ _ _ _ _ hplace hp).1

/-- Two workers do not use one socket. -/
theorem PoolServerInv.arg_inj
    (h : PoolServerInv listener log s waiting) {i j : ℕ} {job job' : Job}
    (hi : s.pool.jobOf i = some job) (hj : s.pool.jobOf j = some job') (harg : job.arg = job'.arg) :
  i = j
  := by
  obtain ⟨fd, hfd⟩ := (h.sockets.holds _ _ _ (.running hi)).number
  obtain ⟨fd', hfd'⟩ := (h.sockets.holds _ _ _ (.running hj)).number
  rw [harg, hfd'] at hfd
  have hid := congrArg ClientSocket.number (Option.some.inj hfd)
  exact h.order.running_inj i j job job' hi hj hid.symm

/-- When `main` has returned nothing is open or allocated. -/
theorem PoolServerInv.all_closed
    (h : PoolServerInv listener log s waiting) (hreturned : s.phase = .returned) :
  (∀ p, s.clients p = none) ∧ (∀ fd, s.conns fd = none)
    ∧ startedConns log ++ rejectedConns log = List.range s.accepted
    ∧ ∀ n, n ∈ s.past.map PoolConn.number ↔ n < s.accepted
  := by
  obtain ⟨rfl, hjobs⟩ := h.pool.returned (h.returned hreturned)
  have hpending : s.pending = [] := by rw [PoolServer.pending, hreturned]
  have hspare : s.spare = none := by rw [PoolServer.spare, hreturned]
  have hplace : ∀ p n phase, ¬ Place s [] p n phase := by
    rintro p n phase (hmain | hjob | hjob)
    · exact PoolServer.not_holding hpending _ hmain
    · cases hjob
    · rw [hjobs] at hjob
      cases hjob
  have hconns : ∀ fd, s.conns fd = none := by
    intro fd
    rw [Option.eq_none_iff_forall_ne_some]
    intro conn hconn
    obtain ⟨p, echo, hp, -⟩ := h.sockets.served fd conn hconn
    exact hplace _ _ _ hp
  refine ⟨?_, hconns, ?_, ?_⟩
  · intro p
    rw [Option.eq_none_iff_forall_ne_some]
    intro socket hsocket
    rcases h.sockets.held p socket hsocket with ⟨hp, -⟩ | ⟨phase, hp⟩
    · rw [hspare] at hp
      cases hp
    · exact hplace _ _ _ hp
  · have horder := h.order.order
    rwa [hpending, List.map_nil, List.append_nil, List.append_nil] at horder
  · intro n
    rw [h.sockets.closed]
    simp [hconns]

/-- In every state that the server can reach, however its threads are scheduled and whatever its
calls give, no descriptor and no block was used after it was given back.  The workers start on the
connections in the order in which they were accepted.  Every accepted connection is open at one
descriptor, which is in one allocated socket, or was closed, once, and no two workers use the same
socket.  What was sent back on a connection is the front of what was received on it, and all of it
when `handle_client` receives.  When `main` has returned every connection that was accepted was
served to its end or rejected, and nothing is open or allocated. -/
theorem pool_server_serves
    (hpool : threadPoolCreate calloc malloc created numThreads = .ok pool)
    (hs : (poolServerMachine listener func pool).Reaches log s) :
  .fault ∉ log ∧ startedConns log <+: List.range s.accepted
    ∧ (s.past.map PoolConn.number).Nodup
    ∧ (∀ n, (n ∈ s.past.map PoolConn.number ↔ n < s.accepted ∧ ∀ fd, ¬ s.OpenAt n fd))
    ∧ (∀ n fd, s.OpenAt n fd → n < s.accepted ∧ fd ≠ listener ∧ (∀ fd', s.OpenAt n fd' → fd' = fd)
        ∧ ∃! p, s.clients p = some ⟨fd, n⟩)
    ∧ (∀ i j job job', s.pool.jobOf i = some job → s.pool.jobOf j = some job' →
        job.arg = job'.arg → i = j)
    ∧ (∀ conn, conn ∈ s.past ∨ (∃ fd, s.conns fd = some conn) → conn.sent <+: conn.received)
    ∧ (∀ i job, s.pool.jobOf i = some job → s.handlers i = .serving .receiving →
        ∃ fd conn, s.clients job.arg = some ⟨fd, job.id⟩ ∧ s.conns fd = some conn
          ∧ conn.number = job.id ∧ conn.received = conn.sent)
    ∧ (s.phase = .returned → s.listening = false ∧ (∀ p, s.clients p = none)
        ∧ (∀ fd, s.conns fd = none)
        ∧ startedConns log ++ rejectedConns log = List.range s.accepted
        ∧ ∀ n, n ∈ s.past.map PoolConn.number ↔ n < s.accepted)
  := by
  obtain ⟨waiting, h⟩ := PoolServerInv.of_reaches hpool hs
  refine ⟨h.noFault, ?_, h.sockets.nodup, ?_, ?_, ?_, ?_, ?_, ?_⟩
  · rw [← h.order.order, List.append_assoc, List.append_assoc]
    exact List.prefix_append _ _
  · intro n
    rw [h.sockets.closed]
    apply and_congr_right
    intro _
    constructor
    · rintro hno fd ⟨conn, hconn, hnumber⟩
      exact hno fd conn hconn hnumber
    · intro hno fd conn hconn hnumber
      exact hno fd ⟨conn, hconn, hnumber⟩
  · intro n fd hfd
    refine ⟨?_, ?_, fun fd' hfd' => h.sockets.openAt_unique hfd' hfd,
      h.sockets.exists_unique_client hfd⟩
    · obtain ⟨conn, hconn, rfl⟩ := hfd
      obtain ⟨p, echo, hp, -⟩ := h.sockets.served fd conn hconn
      exact h.sockets.lt _ _ _ hp
    · rintro rfl
      obtain ⟨conn, hconn, -⟩ := hfd
      rw [h.listener] at hconn
      cases hconn
  · exact fun i j job job' => h.arg_inj
  · rintro conn (hpast | ⟨fd, hconn⟩)
    · exact h.sockets.past conn hpast
    · obtain ⟨p, echo, hp, hclient⟩ := h.sockets.served fd conn hconn
      obtain ⟨fd', conn', -, hclient', hconn', -, hserves⟩ := h.sockets.holds _ _ _ hp
      rw [hclient] at hclient'
      cases hclient'
      rw [hconn] at hconn'
      cases hconn'
      exact hserves.front
  · intro i job hjob hphase
    have hplace : Place s waiting job.arg job.id (s.handlers i) := .running hjob
    rw [hphase] at hplace
    obtain ⟨fd, conn, -, hclient, hconn, hnumber, hserves⟩ := h.sockets.holds _ _ _ hplace
    refine ⟨fd, conn, hclient, hconn, hnumber, ?_⟩
    cases hserves
    assumption
  · intro hreturned
    refine ⟨?_, h.all_closed hreturned⟩
    rw [← Bool.not_eq_true, h.listening]
    exact fun hne => hne hreturned

/-- A client is served by the one worker, and then `malloc` fails. -/
theorem pool_server_serves_of_run :
  ∃ s, (poolServerMachine 3 7 ⟨1, none, none, false⟩).Reaches [.start 0] s
    ∧ s.past = [⟨0, [104, 105], [104, 105]⟩] ∧ ∀ fd, s.conns fd = none
  := by
  let start : PoolServer :=
    ⟨.start ⟨1, none, none, false⟩, .allocating, true, fun _ => none, fun _ => none,
      fun _ => .closed, 0, []⟩
  have hrun : StateMachine.run (poolServerStep 3 7) start
      [.malloc (some (16, 0)), .accept (.accepted 4), .enter 0, .submit (some 0) [true], .enter 0,
        .recv 0 (.received [104, 105]), .send 0 (.accepted 2), .recv 0 (.received []), .close 0,
        .finish 0, .malloc none, .destroy .destroy, .enter 0, .destroy .join, .destroy .join,
        .destroy .drain, .leave]
      = some (_, [.start 0]) := rfl
  have hs : (poolServerMachine 3 7 _).Reaches _ _ :=
    StateMachine.reaches_of_run ⟨rfl, rfl, rfl, fun _ => rfl, fun _ => rfl, rfl, rfl⟩ hrun
  have hpool : threadPoolCreate true true (fun _ => true) 1 = .ok ⟨1, none, none, false⟩ := rfl
  have h := pool_server_serves hpool hs
  exact ⟨_, hs, rfl, (h.2.2.2.2.2.2.2.2 rfl).2.2.1⟩

end CTemplate

import CTemplate.Networking.SendAll

/-!
# Stream sockets

The functions of `networking/socket.c` that send and receive on a connected socket, given the
outcomes of the calls of `send` and `recv`: `tcp_send_all` starts a call of `nw_send_all`, whose
rounds are those of `sendRound`, and `nw_recv` goes on as long as `recv` is interrupted, as
`nw_accept_intr` does with `accept`.
-/

namespace CTemplate

/-! ### Receiving -/

/-- What a call of `recv` gives: bytes, none of them at the end of the stream, or -1 with `errno`
being `EINTR` or not. -/
inductive RecvOutcome where
  | received (bytes : List Byte)
  | failed (eintr : Bool)
  deriving DecidableEq

/-- One round of the loop of `nw_recv`: what it returns, or `none` when it calls `recv` again. -/
def nwRecv : RecvOutcome → Option (Except ErrorCode (List Byte))
  | .failed true => none
  | .failed false => some (.error .io)
  | .received bytes => some (.ok bytes)

/-- The error that `tcp_recv` returns before it calls `nw_recv`, if it does. -/
def tcpRecvError (fd : ℤ) (cap : ℕ) : Option ErrorCode :=
  if fd < 0 ∨ cap = 0 then some .invalidArg else none

/-! ### Accepting -/

/-- What a call of `accept` gives: a descriptor, or -1 with `errno` being `EINTR` or not. -/
inductive AcceptOutcome where
  | accepted (fd : ℤ)
  | failed (eintr : Bool)
  deriving DecidableEq

/-! ### Sending -/

/-- The error that `tcp_send_all` returns before it calls `nw_send_all`, if it does. -/
def tcpSendError (fd : ℤ) (len : ℕ) : Option ErrorCode :=
  if fd < 0 ∨ len = 0 then some .invalidArg else none

/-- A call of `nw_send_all` for a whole buffer before its first round. -/
def SendAll.start (buf : List Byte) : SendAll :=
  ⟨0, [], sendLoop buf.length 0⟩

/-- The bytes of the buffer that were not sent yet. -/
def SendAll.rest (buf : List Byte) (call : SendAll) : List Byte :=
  buf.drop call.sent

/-- The bytes that the kernel was handed between two states of a call. -/
def SendAll.handed (call call' : SendAll) : List Byte :=
  call'.kernel.drop call.kernel.length

/-- A call of `nw_send_all` for a whole buffer that has not returned. -/
structure Sending (buf : List Byte) (call : SendAll) : Prop where
  invariant : ∃ log, SendInvariant buf buf.length log call
  running : call.code = none

variable {buf : List Byte} {call call' : SendAll} {outcome : SendOutcome}

theorem Sending.start (h : buf ≠ []) :
  Sending buf (.start buf)
  where
  invariant := ⟨[], SendInvariant.init buf buf.length⟩
  running := if_pos (List.length_pos_iff.mpr h)

theorem Sending.rest_ne_nil (h : Sending buf call) :
  call.rest buf ≠ []
  := by
  obtain ⟨log, hI⟩ := h.invariant
  have hlt := (hI.running h.running).1
  rw [SendAll.rest, ← List.length_pos_iff, List.length_drop]
  omega

theorem SendInvariant.length_kernel
    {len : ℕ} {log : List SendOutcome} (h : SendInvariant buf len log call)
    (hlen : len ≤ buf.length) :
  call.kernel.length = call.sent
  := by
  have := h.sent_le
  rw [h.kernel_eq, List.length_take]
  omega

/-- What a round of a call that has not returned can do. -/
inductive SendRound (buf : List Byte) (call : SendAll) : SendOutcome → SendAll → Prop where
  /-- Some bytes are handed to the kernel, and more are left. -/
  | part {n : ℕ} {call' : SendAll} (pos : 0 < n) (lt : n < (call.rest buf).length)
      (handed : call.handed call' = (call.rest buf).take n)
      (rest : call'.rest buf = (call.rest buf).drop n) (sending : Sending buf call') :
      SendRound buf call (.accepted n) call'
  /-- The last bytes are handed to the kernel. -/
  | last {call' : SendAll} (handed : call.handed call' = call.rest buf)
      (code : call'.code = some .ok) :
      SendRound buf call (.accepted (call.rest buf).length) call'
  | interrupted : SendRound buf call (.failed true) call
  | failed {outcome : SendOutcome} {call' : SendAll} (fatal : outcome.Fatal)
      (handed : call.handed call' = []) (code : call'.code = some .io) :
      SendRound buf call outcome call'

theorem SendAll.handed_self : call.handed call = [] :=
  List.drop_length

/-- A round in which `send` accepts some of the rest of the buffer. -/
theorem Sending.accepted
    (h : Sending buf call) (hmax : buf.length ≤ sizeMax) {n : ℕ} (hpos : n ≠ 0)
    (hle : n ≤ buf.length - call.sent) :
  ∃ call', sendRound buf buf.length call (.accepted n) = some call'
    ∧ SendRound buf call (.accepted n) call'
  := by
  obtain ⟨log, hI⟩ := h.invariant
  have hlt := (hI.running h.running).1
  have hsize : toSize (call.sent + n) = call.sent + n := toSize_of_le (by omega)
  have hnext := hI.accepted h.running hpos (n := n) (by omega)
  have hlength := hI.length_kernel (Nat.le_refl _)
  rw [sendRound, if_pos h.running]
  dsimp only
  rw [if_pos hle, if_neg hpos, Buffer.read, if_pos (by omega), Option.map_some, hsize]
  refine ⟨_, rfl, ?_⟩
  have hrest : (call.rest buf).length = buf.length - call.sent := List.length_drop
  have hsent : call.sent + n ≤ buf.length := by omega
  rcases sendLoop_cases hsent with ⟨hmore, hcode⟩ | ⟨hend, hcode⟩
  · apply SendRound.part (Nat.pos_of_ne_zero hpos) (by omega)
    · rw [SendAll.handed, List.drop_left]
      rfl
    · rw [SendAll.rest, SendAll.rest, List.drop_drop]
    · exact ⟨⟨_, hnext⟩, hcode⟩
  · obtain rfl : n = (call.rest buf).length := by omega
    apply SendRound.last
    · rw [SendAll.handed, List.drop_left]
      apply List.take_of_length_le
      exact Nat.le_of_eq rfl
    · exact hcode

/-- Every round of a call that has not returned is one of the rounds of `SendRound`. -/
theorem Sending.round
    (h : Sending buf call) (hmax : buf.length ≤ sizeMax)
    (hround : sendRound buf buf.length call outcome = some call') :
  SendRound buf call outcome call'
  := by
  have hallowed := (allowed_of_sendRound hround).2
  cases outcome with
  | accepted n =>
      by_cases hpos : n = 0
      · subst hpos
        rw [sendRound, if_pos h.running] at hround
        dsimp only at hround
        rw [if_pos (Nat.zero_le _), if_pos rfl] at hround
        cases hround
        exact .failed (.inl rfl) SendAll.handed_self rfl
      · obtain ⟨call'', hround', hcases⟩ := h.accepted hmax hpos hallowed
        rw [hround] at hround'
        cases hround'
        exact hcases
  | failed eintr =>
      rw [sendRound, if_pos h.running] at hround
      cases eintr with
      | false =>
          cases hround
          exact .failed (.inr rfl) SendAll.handed_self rfl
      | true =>
          cases hround
          exact .interrupted

end CTemplate

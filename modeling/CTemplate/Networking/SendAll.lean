import CTemplate.Core.Error
import CTemplate.Core.Memory
import CTemplate.Library.Buffer
import CTemplate.Library.StateMachine
import Mathlib.Algebra.Ring.Nat

/-!
# Sending a buffer

The loop of `nw_send_all` in `networking/socket.c`.  A call of `send` may take part of what it is
given, fail, or be interrupted by a signal; whatever the calls do, the kernel has been handed the
front of the buffer, each byte once.
-/

namespace CTemplate

/-- The value that `send` returns and, where it is -1, whether `errno` is `EINTR`. -/
inductive SendOutcome where
  | accepted (n : ℕ)
  | failed (eintr : Bool)
  deriving DecidableEq

/-- A call of `nw_send_all`: the bytes that it counts as sent, those that the kernel was handed,
and the code that it returned, if it did. -/
structure SendAll where
  sent : ℕ
  kernel : List Byte
  code : Option ErrorCode
  deriving DecidableEq

/-- The condition of the loop: the call goes on, or it returns `ERR_OK`. -/
def sendLoop (len sent : ℕ) : Option ErrorCode :=
  if sent < len then none else some .ok

/-- One round of the loop of `nw_send_all`.  What `send` accepts is part of what it was given. -/
def sendRound (buf : List Byte) (len : ℕ) (s : SendAll) (outcome : SendOutcome) :
    Option SendAll :=
  if s.code = none then
    match outcome with
    | .accepted n =>
        if n ≤ len - s.sent then
          if n = 0 then some { s with code := some .io }
          else
            (Buffer.read buf s.sent n).map fun bytes =>
              let sent := toSize (s.sent + n)
              { sent, kernel := s.kernel ++ bytes, code := sendLoop len sent }
        else none
    | .failed eintr => some (if eintr then s else { s with code := some .io })
  else none

/-- `nw_send_all` on the first `len` bytes of a buffer, with the outcomes of `send` for events. -/
def sendAllMachine (buf : List Byte) (len : ℕ) : StateMachine SendAll SendOutcome :=
  .ofStep (fun s => s = ⟨0, [], sendLoop len 0⟩) fun s outcome =>
    (sendRound buf len s outcome).map fun s => (s, some outcome)

/-! ### Outcomes -/

/-- The bytes that a call of `send` accepted. -/
def SendOutcome.count : SendOutcome → ℕ
  | .accepted n => n
  | .failed _ => 0

/-- The bytes that all calls of `send` accepted. -/
def acceptedBytes (log : List SendOutcome) : ℕ :=
  (log.map SendOutcome.count).sum

/-- The call of `send` returned zero, or failed for another reason than a signal. -/
def SendOutcome.Fatal (outcome : SendOutcome) : Prop :=
  outcome = .accepted 0 ∨ outcome = .failed false

/-- A call of `send` for `request` bytes can have this outcome. -/
def SendOutcome.Allowed (request : ℕ) : SendOutcome → Prop
  | .accepted n => n ≤ request
  | .failed _ => True

theorem acceptedBytes_snoc (log : List SendOutcome) (outcome : SendOutcome) :
  acceptedBytes (log ++ [outcome]) = acceptedBytes log + outcome.count
  := by
  rw [acceptedBytes, List.map_append, List.sum_append, List.map_singleton, List.sum_singleton]
  rfl

/-! ### One round -/

/-- What holds of a call of `nw_send_all` after the calls of `send` in `log`. -/
structure SendInvariant (buf : List Byte) (len : ℕ) (log : List SendOutcome) (s : SendAll) :
    Prop where
  sent_eq : s.sent = acceptedBytes log
  kernel_eq : s.kernel = buf.take s.sent
  sent_le : s.sent ≤ len
  ok_iff : s.code = some .ok ↔ s.sent = len
  io_iff : s.code = some .io ↔ ∃ outcome ∈ log, outcome.Fatal
  code_cases : s.code = none ∨ s.code = some .ok ∨ s.code = some .io

variable {buf : List Byte} {len : ℕ} {log : List SendOutcome} {s s' : SendAll}
  {outcome : SendOutcome}

theorem sendLoop_cases {sent : ℕ} (h : sent ≤ len) :
  sent < len ∧ sendLoop len sent = none ∨ sent = len ∧ sendLoop len sent = some .ok
  := by
  rw [sendLoop]
  split
  case isTrue hlt => exact .inl ⟨hlt, rfl⟩
  case isFalse hge => exact .inr ⟨by omega, rfl⟩

theorem SendInvariant.init (buf : List Byte) (len : ℕ) :
  SendInvariant buf len [] ⟨0, [], sendLoop len 0⟩
  := by
  rcases sendLoop_cases (Nat.zero_le len) with ⟨hlt, hcode⟩ | ⟨hlen, hcode⟩ <;> rw [hcode]
  · exact
      { sent_eq := rfl
        kernel_eq := List.take_zero.symm
        sent_le := Nat.zero_le len
        ok_iff := ⟨fun h => (by cases h), fun h => absurd h (Nat.ne_of_lt hlt)⟩
        io_iff := ⟨fun h => (by cases h), fun ⟨_, hmem, _⟩ => absurd hmem List.not_mem_nil⟩
        code_cases := .inl rfl }
  · exact
      { sent_eq := rfl
        kernel_eq := List.take_zero.symm
        sent_le := Nat.zero_le len
        ok_iff := ⟨fun _ => hlen, fun _ => rfl⟩
        io_iff := ⟨fun h => (by cases h), fun ⟨_, hmem, _⟩ => absurd hmem List.not_mem_nil⟩
        code_cases := .inr (.inl rfl) }

/-- A call that goes on has bytes left to send, and no outcome so far was fatal. -/
theorem SendInvariant.running
    (h : SendInvariant buf len log s) (hcode : s.code = none) :
  s.sent < len ∧ ¬ ∃ outcome ∈ log, outcome.Fatal
  := by
  constructor
  · apply lt_of_le_of_ne h.sent_le
    intro hlen
    rw [h.ok_iff.mpr hlen] at hcode
    cases hcode
  · intro hfatal
    rw [h.io_iff.mpr hfatal] at hcode
    cases hcode

theorem exists_fatal_snoc_iff :
  (∃ o ∈ log ++ [outcome], o.Fatal) ↔ (∃ o ∈ log, o.Fatal) ∨ outcome.Fatal
  := by
  simp only [List.mem_append, List.mem_singleton, or_and_right, exists_or, exists_eq_left]

/-- A round that fails leaves what was sent as it is. -/
theorem SendInvariant.fatal
    (h : SendInvariant buf len log s) (hcode : s.code = none) (hcount : outcome.count = 0)
    (hfatal : outcome.Fatal) :
  SendInvariant buf len (log ++ [outcome]) { s with code := some .io }
  where
  sent_eq := by rw [acceptedBytes_snoc, hcount, Nat.add_zero, ← h.sent_eq]
  kernel_eq := h.kernel_eq
  sent_le := h.sent_le
  ok_iff := ⟨fun h => (by cases h), fun heq => absurd heq (Nat.ne_of_lt (h.running hcode).1)⟩
  io_iff := ⟨fun _ => exists_fatal_snoc_iff.mpr (.inr hfatal), fun _ => rfl⟩
  code_cases := .inr (.inr rfl)

/-- A round in which `send` accepts some of the rest of the buffer. -/
theorem SendInvariant.accepted
    (h : SendInvariant buf len log s) (hcode : s.code = none) {n : ℕ} (hpos : n ≠ 0)
    (hle : s.sent + n ≤ len) :
  SendInvariant buf len (log ++ [.accepted n])
    { sent := s.sent + n
      kernel := s.kernel ++ (buf.drop s.sent).take n
      code := sendLoop len (s.sent + n) }
  := by
  have hnone : ¬ (SendOutcome.accepted n).Fatal := by
    rintro (hzero | hfailed)
    · cases hzero
      exact hpos rfl
    · cases hfailed
  have hloop := sendLoop_cases hle
  constructor
  case sent_eq => rw [acceptedBytes_snoc, ← h.sent_eq, SendOutcome.count]
  case kernel_eq => rw [h.kernel_eq, List.take_add]
  case sent_le => exact hle
  case ok_iff =>
    rcases hloop with ⟨hlt, hcode⟩ | ⟨heq, hcode⟩ <;> rw [hcode]
    · exact ⟨fun h => (by cases h), fun h => absurd h (Nat.ne_of_lt hlt)⟩
    · exact ⟨fun _ => heq, fun _ => rfl⟩
  case io_iff =>
    rw [exists_fatal_snoc_iff, iff_false_right (not_or.mpr ⟨(h.running hcode).2, hnone⟩)]
    rcases hloop with ⟨-, hcode⟩ | ⟨-, hcode⟩ <;> rw [hcode] <;> intro h <;> cases h
  case code_cases =>
    rcases hloop with ⟨-, hcode⟩ | ⟨-, hcode⟩
    · exact .inl hcode
    · exact .inr (.inl hcode)

/-- A round in which `send` is interrupted changes nothing. -/
theorem SendInvariant.interrupted (h : SendInvariant buf len log s) :
  SendInvariant buf len (log ++ [.failed true]) s
  := by
  have hnone : ¬ (SendOutcome.failed true).Fatal := by
    rintro (hzero | hfailed)
    · cases hzero
    · cases hfailed
  exact
    { h with
      sent_eq := by rw [acceptedBytes_snoc, ← h.sent_eq, SendOutcome.count, Nat.add_zero]
      io_iff := by rw [exists_fatal_snoc_iff, or_iff_left hnone, h.io_iff] }

/-- While the call goes on, every outcome of `send` leads to a round, which keeps the
invariant. -/
theorem SendInvariant.round
    (h : SendInvariant buf len log s) (hcode : s.code = none) (hlen : len ≤ buf.length)
    (hmax : len ≤ sizeMax) (hallowed : outcome.Allowed (len - s.sent)) :
  ∃ s', sendRound buf len s outcome = some s' ∧ SendInvariant buf len (log ++ [outcome]) s'
  := by
  have hlt := (h.running hcode).1
  unfold sendRound
  rw [if_pos hcode]
  cases outcome with
  | accepted n =>
      replace hallowed : n ≤ len - s.sent := hallowed
      dsimp only
      rw [if_pos hallowed]
      split
      case isTrue hzero =>
        subst hzero
        exact ⟨_, rfl, h.fatal hcode rfl (.inl rfl)⟩
      case isFalse hpos =>
        have hsize : toSize (s.sent + n) = s.sent + n := toSize_of_le (by omega)
        rw [Buffer.read, if_pos (by omega), Option.map_some, hsize]
        exact ⟨_, rfl, h.accepted hcode hpos (by omega)⟩
  | failed eintr =>
      cases eintr with
      | false => exact ⟨_, rfl, h.fatal hcode rfl (.inr rfl)⟩
      | true => exact ⟨s, rfl, h.interrupted⟩

/-- A round is made only while the call goes on, and only for an outcome that `send` can have. -/
theorem allowed_of_sendRound (h : sendRound buf len s outcome = some s') :
  s.code = none ∧ outcome.Allowed (len - s.sent)
  := by
  unfold sendRound at h
  rw [Option.ite_none_right_eq_some] at h
  use h.1
  cases outcome with
  | accepted n =>
      obtain ⟨-, h⟩ := h
      rw [Option.ite_none_right_eq_some] at h
      exact h.1
  | failed eintr => trivial

theorem SendInvariant.of_reaches
    (hlen : len ≤ buf.length) (hmax : len ≤ sizeMax) (h : (sendAllMachine buf len).Reaches log s) :
  SendInvariant buf len log s
  := by
  apply h.invariant (I := SendInvariant buf len)
  · rintro _ rfl
    apply SendInvariant.init
  · rintro log s e s' - hI ⟨outcome, hstep⟩
    obtain ⟨s'', hround, heq⟩ := Option.map_eq_some_iff.mp hstep
    cases heq
    obtain ⟨hcode, hallowed⟩ := allowed_of_sendRound hround
    obtain ⟨s'', hround', hI'⟩ := hI.round hcode hlen hmax hallowed
    rw [hround] at hround'
    cases hround'
    exact hI'

/-! ### The promises of the call -/

/-- Whatever `send` did so far, `nw_send_all` has handed the kernel the front of the buffer up to
what was accepted.  It returns `ERR_OK` when all of the buffer was accepted, and `ERR_IO` when a
call of `send` returned zero or failed for another reason than a signal; otherwise it goes on, for
every outcome of a call for the rest of the buffer. -/
theorem nwSendAll_prefix
    (hlen : len ≤ buf.length) (hmax : len ≤ sizeMax) (h : (sendAllMachine buf len).Reaches log s) :
  s.kernel = buf.take (acceptedBytes log) ∧ acceptedBytes log ≤ len
    ∧ (s.code = some .ok ↔ acceptedBytes log = len)
    ∧ (s.code = some .io ↔ ∃ outcome ∈ log, outcome.Fatal)
    ∧ (s.code = none ∨ s.code = some .ok ∨ s.code = some .io)
    ∧ (s.code = none → s.sent = acceptedBytes log ∧ s.sent < len
      ∧ ∀ outcome : SendOutcome, outcome.Allowed (len - s.sent) →
        ∃ s', sendRound buf len s outcome = some s')
  := by
  have hI := SendInvariant.of_reaches hlen hmax h
  rw [← hI.sent_eq]
  refine ⟨hI.kernel_eq, hI.sent_le, hI.ok_iff, hI.io_iff, hI.code_cases, ?_⟩
  intro hcode
  use rfl, (hI.running hcode).1
  intro outcome hallowed
  obtain ⟨s', hround, -⟩ := hI.round hcode hlen hmax hallowed
  use s'

/-- Three bytes go out in two parts, with a signal in between. -/
theorem nwSendAll_prefix_of_run :
  ∃ s, (sendAllMachine [7, 8, 9, 10] 3).Reaches [.accepted 2, .failed true, .accepted 1] s
    ∧ s.kernel = [7, 8, 9] ∧ s.code = some .ok
  := by
  have hrun : StateMachine.run
      (fun s outcome => (sendRound [7, 8, 9, 10] 3 s outcome).map fun s => (s, some outcome))
      ⟨0, [], sendLoop 3 0⟩ [.accepted 2, .failed true, .accepted 1]
    = some (⟨3, [7, 8, 9], some .ok⟩, [.accepted 2, .failed true, .accepted 1]) := by
    decide
  have hs : (sendAllMachine [7, 8, 9, 10] 3).Reaches _ _ := StateMachine.reaches_of_run rfl hrun
  obtain ⟨hkernel, -, hok, -⟩ := nwSendAll_prefix (by decide) (by decide) hs
  exact ⟨_, hs, hkernel, hok.mpr rfl⟩

end CTemplate

import CTemplate.Core.Error
import CTemplate.Core.Memory
import CTemplate.Library.Buffer
import CTemplate.Library.While
import Mathlib.Algebra.Group.Nat.Defs

/-!
# Capturing the output of a command

`process_capture` of `systems/process.c`.  It reads the output of a command into a buffer that it
doubles while there is no room for another byte and the zero byte at the end.  The stream delivers
the output in pieces of any size, and the calls of the C library that are made are recorded.

A function gives `none` when memory outside the buffer is accessed, or the computation of a size
wraps around.
-/

namespace CTemplate

/-- The stream of a command: the bytes that it will still deliver, how many of them each of the
next reads gets at most, and what `ferror` says at the end. -/
structure Pipe where
  rest : List Byte
  pieces : List ℕ
  failed : Bool
  deriving DecidableEq

/-- The number of bytes that a call of `fread` for `request` bytes gets.  It is zero only when
none are requested or left. -/
def Pipe.readCount (p : Pipe) (request : ℕ) : ℕ :=
  min (max 1 (p.pieces.headD request)) (min request p.rest.length)

/-- The stream after `n` bytes of it were read. -/
def Pipe.afterRead (p : Pipe) (n : ℕ) : Pipe where
  rest := p.rest.drop n
  pieces := p.pieces.tail
  failed := p.failed

/-- A call of the C library. -/
inductive CaptureCall where
  | popen (ok : Bool)
  | malloc (n : ℕ) (ok : Bool)
  | fread (offset request : ℕ)
  | realloc (n : ℕ) (ok : Bool)
  | free
  | pclose
  deriving DecidableEq

/-- What changes in the loop of `process_capture`, and the calls made so far. -/
structure CaptureLoop where
  buf : List Byte
  cap : ℕ
  len : ℕ
  pipe : Pipe
  calls : List CaptureCall
  deriving DecidableEq

/-- One round of the loop of `process_capture`, which is left at the end of the stream or with an
error. -/
def captureStep (realloc : ℕ → Realloc) (s : CaptureLoop) :
    Option (CaptureLoop ⊕ (CaptureLoop × Option ErrorCode)) :=
  ((subSize s.cap s.len).bind (subSize · 1)).bind fun request =>
    let n := s.pipe.readCount request
    let calls := s.calls ++ [.fread s.len request]
    (Buffer.write s.buf s.len (s.pipe.rest.take n)).bind fun buf =>
      let pipe := s.pipe.afterRead n
      if n > 0 then
        (addSize s.len n).bind fun len =>
          (addSize len 1).bind fun next =>
            if next ≥ s.cap then
              if s.cap > sizeMax / 2 then
                some (.inr ({ buf, cap := s.cap, len, pipe, calls }, some .overflow))
              else
                (mulSize s.cap 2).map fun cap =>
                  match realloc cap with
                  | none =>
                      .inr ({ buf, cap, len, pipe, calls := calls ++ [.realloc cap false] },
                        some .nomem)
                  | some junk =>
                      .inl
                        { buf := reallocated buf cap junk, cap, len, pipe,
                          calls := calls ++ [.realloc cap true] }
            else some (.inl { buf, cap := s.cap, len, pipe, calls })
      else some (.inr ({ buf, cap := s.cap, len := s.len, pipe, calls }, none))

/-- `*out_buf`, as the content of what it points to, and `*out_len`. -/
structure CaptureOut where
  buf : Option (List Byte)
  len : ℕ
  deriving DecidableEq

/-- A call of `process_capture` that returned. -/
structure CaptureResult where
  code : ErrorCode
  out : CaptureOut
  calls : List CaptureCall
  deriving DecidableEq

/-- What `process_capture` does after its loop. -/
def captureEnd (out : CaptureOut) (s : CaptureLoop) : Option ErrorCode → Option CaptureResult
  | some code => some { code, out, calls := s.calls ++ [.free, .pclose] }
  | none =>
      if s.pipe.failed then some { code := .io, out, calls := s.calls ++ [.free, .pclose] }
      else
        (Buffer.write s.buf s.len [0]).map fun buf =>
          { code := .ok, out := ⟨some buf, s.len⟩, calls := s.calls ++ [.pclose] }

/-- `process_capture`, where `popen` says which stream a command has, if any, and the arguments
`out_buf` and `out_len` are not null pointers if `hasBuf` and `hasLen` hold.  They point to `out`
at first.  The loop makes at most `fuel` rounds. -/
def processCapture (popen : CString → Option Pipe) (malloc : Malloc) (realloc : ℕ → Realloc)
    (cmd : Option CString) (hasBuf hasLen : Bool) (out : CaptureOut) (fuel : ℕ) :
    Option CaptureResult :=
  match cmd, hasBuf, hasLen with
  | some cmd, true, true =>
      match popen cmd with
      | none => some { code := .io, out, calls := [.popen false] }
      | some pipe =>
          match malloc.block 1024 with
          | none =>
              some { code := .nomem, out, calls := [.popen true, .malloc 1024 false, .pclose] }
          | some buf =>
              (While.run (captureStep realloc) fuel
                { buf, cap := 1024, len := 0, pipe,
                  calls := [.popen true, .malloc 1024 true] }).bind fun (s, error) =>
                captureEnd out s error
  | _, _, _ => some { code := .invalidArg, out, calls := [] }

/-! ### Calls -/

/-- The size of the block that is held after a call. -/
def CaptureCall.held (block : Option ℕ) : CaptureCall → Option ℕ
  | .malloc n true => some n
  | .realloc n true => some n
  | .free => none
  | _ => block

/-- Whether the stream is open after a call. -/
def CaptureCall.opened (isOpen : Bool) : CaptureCall → Bool
  | .popen true => true
  | .pclose => false
  | _ => isOpen

/-- The size of the block that was allocated in calls and not freed, if there is one. -/
def heldBlock (calls : List CaptureCall) : Option ℕ :=
  calls.foldl CaptureCall.held none

/-- Whether the stream is open after calls. -/
def streamOpen (calls : List CaptureCall) : Bool :=
  calls.foldl CaptureCall.opened false

/-- The call is one for the block that is held: `fread` is for at least one byte inside of it. -/
def CaptureCall.Proper (block : Option ℕ) : CaptureCall → Prop
  | .fread offset request => 1 ≤ request ∧ ∃ size ∈ block, offset + request ≤ size
  | .realloc _ _ => block.isSome
  | .free => block.isSome
  | .malloc _ _ => block = none
  | _ => True

/-- All calls are proper. -/
def ProperCalls (block : Option ℕ) : List CaptureCall → Prop
  | [] => True
  | call :: calls => call.Proper block ∧ ProperCalls (call.held block) calls

/-- The calls are allocations that succeed, or no allocations. -/
def NoFailure (calls : List CaptureCall) : Prop :=
  ∀ n, .malloc n false ∉ calls ∧ .realloc n false ∉ calls

theorem properCalls_append (block : Option ℕ) (calls calls' : List CaptureCall) :
  ProperCalls block (calls ++ calls')
    ↔ ProperCalls block calls ∧ ProperCalls (calls.foldl CaptureCall.held block) calls'
  := by
  induction calls generalizing block with
  | nil => rw [List.nil_append, List.foldl_nil, ProperCalls, true_and]
  | cons call calls ih =>
      rw [List.cons_append, ProperCalls, ProperCalls, ih, and_assoc]
      rfl

theorem heldBlock_append (calls calls' : List CaptureCall) :
  heldBlock (calls ++ calls') = calls'.foldl CaptureCall.held (heldBlock calls)
  := List.foldl_append

theorem streamOpen_append (calls calls' : List CaptureCall) :
  streamOpen (calls ++ calls') = calls'.foldl CaptureCall.opened (streamOpen calls)
  := List.foldl_append

/-! ### Reads -/

theorem Pipe.readCount_le (p : Pipe) (request : ℕ) :
  p.readCount request ≤ request ∧ p.readCount request ≤ p.rest.length
  := by
  rw [Pipe.readCount]
  omega

/-- A read of at least one byte gets none only at the end of the stream. -/
theorem Pipe.readCount_pos_iff {p : Pipe} {request : ℕ} (h : 1 ≤ request) :
  0 < p.readCount request ↔ 0 < p.rest.length
  := by
  rw [Pipe.readCount]
  omega

/-! ### The loop -/

/-- What holds in the loop of `process_capture` for a stream that was `pipe` at first. -/
structure CaptureInv (realloc : ℕ → Realloc) (pipe : Pipe) (s : CaptureLoop) : Prop where
  length_buf : s.buf.length = s.cap
  taken : s.buf.take s.len = pipe.rest.take s.len
  rest_eq : s.pipe.rest = pipe.rest.drop s.len
  failed_eq : s.pipe.failed = pipe.failed
  len_le : s.len ≤ pipe.rest.length
  cap_pow : ∃ k, s.cap = 2 ^ k
  cap_le : s.cap ≤ sizeMax
  granted : s.cap = 1024 ∨ (realloc s.cap).isSome
  held : heldBlock s.calls = some s.cap
  isOpen : streamOpen s.calls = true
  proper : ProperCalls none s.calls

/-- There is room for another byte and the zero byte at the end. -/
def CaptureLoop.Room (s : CaptureLoop) : Prop :=
  s.len + 1 < s.cap

/-- How the loop is left: at the end of the stream, or when the buffer is full and there is no
larger one. -/
structure CaptureLeft (realloc : ℕ → Realloc) (pipe : Pipe)
    (r : CaptureLoop × Option ErrorCode) : Prop where
  held : (heldBlock r.1.calls).isSome
  isOpen : streamOpen r.1.calls = true
  proper : ProperCalls none r.1.calls
  error_cases : r.2 = none ∧ CaptureInv realloc pipe r.1 ∧ r.1.Room ∧ r.1.len = pipe.rest.length
    ∨ r.2 = some .overflow ∧ ptrdiffMax ≤ pipe.rest.length
      ∧ (∃ n, ptrdiffMax < n ∧ (realloc n).isSome)
    ∨ r.2 = some .nomem ∧ ∃ n, .realloc n false ∈ r.1.calls

variable {realloc : ℕ → Realloc} {pipe : Pipe} {s : CaptureLoop}

/-- What a round reads. -/
def CaptureLoop.request (s : CaptureLoop) : ℕ :=
  s.cap - s.len - 1

theorem CaptureLoop.request_eq (h : s.Room) :
  (subSize s.cap s.len).bind (subSize · 1) = some s.request
  := by
  rw [Room] at h
  rw [subSize_of_le (by omega), Option.bind_some, subSize_of_le (by omega), request]

/-- The bytes that were read are the next ones of the output. -/
theorem CaptureInv.exists_write
    (h : CaptureInv realloc pipe s) (hroom : s.Room) {n : ℕ} (hn : n ≤ s.request)
    (hrest : n ≤ s.pipe.rest.length) :
  ∃ buf, Buffer.write s.buf s.len (s.pipe.rest.take n) = some buf ∧ buf.length = s.cap
    ∧ buf.take (s.len + n) = pipe.rest.take (s.len + n)
  := by
  have hlen : (s.pipe.rest.take n).length = n := List.length_take_of_le hrest
  rw [CaptureLoop.Room] at hroom
  rw [CaptureLoop.request] at hn
  refine ⟨s.buf.take s.len ++ (s.pipe.rest.take n ++ s.buf.drop (s.len + n)), ?_, ?_, ?_⟩
  · rw [Buffer.write, hlen, if_pos (by rw [h.length_buf]; omega)]
  · rw [List.length_append, List.length_append, hlen, List.length_take, List.length_drop,
      h.length_buf]
    omega
  · have hfront : (s.buf.take s.len ++ s.pipe.rest.take n).length = s.len + n := by
      rw [List.length_append, hlen, List.length_take, h.length_buf]
      omega
    rw [← List.append_assoc, ← hfront, List.take_left, hfront, h.taken, h.rest_eq, List.take_add]

/-- The calls after a read inside the buffer. -/
theorem CaptureInv.calls_read
    (h : CaptureInv realloc pipe s) (hroom : s.Room) :
  heldBlock (s.calls ++ [.fread s.len s.request]) = some s.cap
    ∧ streamOpen (s.calls ++ [.fread s.len s.request]) = true
    ∧ ProperCalls none (s.calls ++ [.fread s.len s.request])
  := by
  rw [CaptureLoop.Room] at hroom
  rw [heldBlock_append, streamOpen_append, properCalls_append, ← heldBlock, h.held]
  refine ⟨rfl, h.isOpen, h.proper, ⟨?_, s.cap, rfl, ?_⟩, trivial⟩
  · rw [CaptureLoop.request]
    omega
  · rw [CaptureLoop.request]
    omega

/-- The calls after a call of `realloc`. -/
theorem calls_realloc
    {calls : List CaptureCall} {block : ℕ} (hheld : heldBlock calls = some block)
    (hopen : streamOpen calls = true) (hproper : ProperCalls none calls) (n : ℕ) (ok : Bool) :
  heldBlock (calls ++ [.realloc n ok]) = some (if ok then n else block)
    ∧ streamOpen (calls ++ [.realloc n ok]) = true ∧ ProperCalls none (calls ++ [.realloc n ok])
  := by
  rw [heldBlock_append, streamOpen_append, properCalls_append, ← heldBlock, hheld, hopen]
  refine ⟨?_, rfl, hproper, rfl, trivial⟩
  cases ok <;> rfl

/-- A capacity that cannot be doubled is the largest power of two of type `size_t`. -/
theorem CaptureInv.cap_eq
    (h : CaptureInv realloc pipe s) (hcap : sizeMax / 2 < s.cap) :
  s.cap = ptrdiffMax + 1
  := by
  obtain ⟨k, hk⟩ := h.cap_pow
  have hle := h.cap_le
  rw [hk] at hcap hle ⊢
  have hlow : 63 ≤ k := by
    by_contra hlt
    have hpow : 2 ^ k ≤ 2 ^ 62 := Nat.pow_le_pow_right Nat.two_pos (by omega)
    simp only [sizeMax] at hcap
    omega
  have hhigh : k < 64 := by
    by_contra hge
    have hpow : 2 ^ 64 ≤ 2 ^ k := Nat.pow_le_pow_right Nat.two_pos (by omega)
    simp only [sizeMax] at hle
    omega
  obtain rfl : k = 63 := by omega
  rfl

/-- The loop after a read, the bytes of which are in `buf`. -/
def CaptureLoop.afterRead (s : CaptureLoop) (buf : List Byte) : CaptureLoop where
  buf := buf
  cap := s.cap
  len := s.len + s.pipe.readCount s.request
  pipe := s.pipe.afterRead (s.pipe.readCount s.request)
  calls := s.calls ++ [.fread s.len s.request]

/-- The part of a round after a read that leaves no room. -/
def captureGrow (realloc : ℕ → Realloc) (t : CaptureLoop) :
    Option (CaptureLoop ⊕ (CaptureLoop × Option ErrorCode)) :=
  if t.cap > sizeMax / 2 then some (.inr (t, some .overflow))
  else
    (mulSize t.cap 2).map fun cap =>
      match realloc cap with
      | none => .inr ({ t with cap, calls := t.calls ++ [.realloc cap false] }, some .nomem)
      | some junk =>
          .inl
            { t with
              buf := reallocated t.buf cap junk
              cap
              calls := t.calls ++ [.realloc cap true] }

/-- A round reads, and is the last one when nothing was left to read. -/
theorem captureStep_eq
    (hmax : s.cap ≤ sizeMax) (hroom : s.Room) {buf : List Byte}
    (hwrite : Buffer.write s.buf s.len (s.pipe.rest.take (s.pipe.readCount s.request)) = some buf) :
  captureStep realloc s
    = if 0 < s.pipe.readCount s.request then
        if s.len + s.pipe.readCount s.request + 1 ≥ s.cap then captureGrow realloc (s.afterRead buf)
        else some (.inl (s.afterRead buf))
      else some (.inr (s.afterRead buf, none))
  := by
  obtain ⟨hle, -⟩ := s.pipe.readCount_le s.request
  rw [captureStep, s.request_eq hroom, Option.bind_some]
  dsimp only
  rw [hwrite, Option.bind_some]
  rw [CaptureLoop.Room] at hroom
  have hrequest : s.request = s.cap - s.len - 1 := rfl
  split
  case isTrue hpos =>
    rw [addSize_of_le (by omega), Option.bind_some, addSize_of_le (by omega), Option.bind_some]
    rfl
  case isFalse hzero =>
    have hnone : s.pipe.readCount s.request = 0 := by omega
    rw [CaptureLoop.afterRead, hnone]
    rfl

/-- A read keeps the invariant. -/
theorem CaptureInv.exists_read
    (h : CaptureInv realloc pipe s) (hroom : s.Room) :
  ∃ buf, Buffer.write s.buf s.len (s.pipe.rest.take (s.pipe.readCount s.request)) = some buf
    ∧ CaptureInv realloc pipe (s.afterRead buf)
  := by
  obtain ⟨hrequest, hrest⟩ := s.pipe.readCount_le s.request
  obtain ⟨buf, hwrite, hlength, htake⟩ := h.exists_write hroom hrequest hrest
  obtain ⟨hheld, hopen, hproper⟩ := h.calls_read hroom
  have hle := h.len_le
  rw [h.rest_eq, List.length_drop] at hrest
  use buf, hwrite
  exact
    { h with
      length_buf := hlength
      taken := htake
      rest_eq := by
        rw [CaptureLoop.afterRead, Pipe.afterRead, h.rest_eq, List.drop_drop]
      failed_eq := h.failed_eq
      len_le := by
        dsimp only [CaptureLoop.afterRead]
        omega
      held := hheld
      isOpen := hopen
      proper := hproper }

/-- A buffer twice as large keeps the invariant. -/
theorem CaptureInv.reallocated
    (h : CaptureInv realloc pipe s) (hsmall : s.cap ≤ sizeMax / 2) (hle : s.len ≤ s.cap)
    {junk : ℕ → Byte} (hgrant : realloc (s.cap * 2) = some junk) :
  CaptureInv realloc pipe
    { s with
      buf := CTemplate.reallocated s.buf (s.cap * 2) junk
      cap := s.cap * 2
      calls := s.calls ++ [.realloc (s.cap * 2) true] }
  := by
  obtain ⟨hheld, hopen, hproper⟩ := calls_realloc h.held h.isOpen h.proper (s.cap * 2) true
  obtain ⟨k, hk⟩ := h.cap_pow
  have hlength := h.length_buf
  have hkept : ((CTemplate.reallocated s.buf (s.cap * 2) junk).take s.buf.length).take s.len
      = (CTemplate.reallocated s.buf (s.cap * 2) junk).take s.len := by
    rw [List.take_take, Nat.min_eq_left (by omega)]
  rw [take_reallocated (by omega)] at hkept
  exact
    { h with
      length_buf := length_reallocated ..
      taken := hkept.symm.trans h.taken
      cap_pow := ⟨k + 1, by rw [hk, Nat.pow_succ]⟩
      cap_le := by
        dsimp only
        omega
      granted := .inr (by rw [hgrant]; rfl)
      held := hheld
      isOpen := hopen
      proper := hproper }

/-- A full buffer is made larger, or the loop is left. -/
theorem CaptureInv.grow
    (h : CaptureInv realloc pipe s) (hfull : s.len + 1 = s.cap) :
  (∃ r, captureGrow realloc s = some (.inr r) ∧ CaptureLeft realloc pipe r)
    ∨ ∃ s', captureGrow realloc s = some (.inl s') ∧ CaptureInv realloc pipe s' ∧ s'.Room
      ∧ s'.pipe = s.pipe
  := by
  have hlen := h.len_le
  rw [captureGrow]
  split
  case isTrue hhuge =>
    left
    have hcap := h.cap_eq hhuge
    refine ⟨_, rfl, ⟨?_, h.isOpen, h.proper, .inr (.inl ⟨rfl, by omega, s.cap, by omega, ?_⟩)⟩⟩
    · rw [h.held]
      rfl
    · apply h.granted.resolve_left
      simp only [ptrdiffMax] at hcap
      omega
  case isFalse hsmall =>
    rw [mulSize_of_le (by omega), Option.map_some]
    cases hgrant : realloc (s.cap * 2) with
    | none =>
        left
        obtain ⟨hheld, hopen, hproper⟩ := calls_realloc h.held h.isOpen h.proper (s.cap * 2) false
        refine ⟨_, rfl, ⟨?_, hopen, hproper, .inr (.inr ⟨rfl, s.cap * 2, ?_⟩)⟩⟩
        · rw [hheld]
          rfl
        · apply List.mem_append_right _ List.mem_cons_self
    | some junk =>
        right
        refine ⟨_, rfl, h.reallocated (by omega) (by omega) hgrant, ?_, rfl⟩
        dsimp only [CaptureLoop.Room]
        omega

/-- A round reads the next bytes of the output and keeps room for more, or the loop is left. -/
theorem CaptureInv.step
    (h : CaptureInv realloc pipe s) (hroom : s.Room) :
  (∃ r, captureStep realloc s = some (.inr r) ∧ CaptureLeft realloc pipe r)
    ∨ ∃ s', captureStep realloc s = some (.inl s') ∧ CaptureInv realloc pipe s' ∧ s'.Room
      ∧ s'.pipe.rest.length < s.pipe.rest.length
  := by
  obtain ⟨buf, hwrite, h'⟩ := h.exists_read hroom
  obtain ⟨hrequest, hrest⟩ := s.pipe.readCount_le s.request
  rw [captureStep_eq h.cap_le hroom hwrite]
  have hrestlen : s.pipe.rest.length = pipe.rest.length - s.len := by
    rw [h.rest_eq, List.length_drop]
  have hless : 0 < s.pipe.readCount s.request →
      (s.afterRead buf).pipe.rest.length < s.pipe.rest.length := by
    intro hn
    dsimp only [CaptureLoop.afterRead, Pipe.afterRead]
    rw [List.length_drop]
    omega
  have hroom' : s.len + 1 < s.cap := hroom
  have hsize : s.request = s.cap - s.len - 1 := rfl
  split
  case isFalse hzero =>
    -- the end of the stream
    have hone : 1 ≤ s.request := by omega
    have hend := (Pipe.readCount_pos_iff hone).not.mp hzero
    have hlen := h.len_le
    have hlen' : (s.afterRead buf).len = s.len := by
      dsimp only [CaptureLoop.afterRead]
      omega
    left
    refine ⟨_, rfl, ⟨?_, h'.isOpen, h'.proper, .inl ⟨rfl, h', ?_, hlen'.trans (by omega)⟩⟩⟩
    · rw [h'.held]
      rfl
    · rw [CaptureLoop.Room, hlen']
      exact hroom
  case isTrue hn =>
    split
    case isFalse hlt =>
      -- there is room for another byte
      right
      exact ⟨_, rfl, h', Nat.not_le.mp hlt, hless hn⟩
    case isTrue hfull =>
      have hexact : (s.afterRead buf).len + 1 = (s.afterRead buf).cap := by
        dsimp only [CaptureLoop.afterRead]
        omega
      rcases h'.grow hexact with hleft | ⟨s', hgrow, hs', hroom', hpipe⟩
      · left
        exact hleft
      · right
        refine ⟨s', hgrow, hs', hroom', ?_⟩
        rw [hpipe]
        apply hless hn

/-- The loop is left after a number of rounds. -/
theorem CaptureInv.exists_run
    (h : CaptureInv realloc pipe s) (hroom : s.Room) :
  ∃ r rounds, (∀ fuel, rounds ≤ fuel → While.run (captureStep realloc) fuel s = some r)
    ∧ CaptureLeft realloc pipe r
  := by
  have hturn : ∀ (m : ℕ) (s : CaptureLoop),
      (CaptureInv realloc pipe s ∧ s.Room) ∧ m = s.pipe.rest.length →
      (∃ r, captureStep realloc s = some (.inr r) ∧ CaptureLeft realloc pipe r)
        ∨ ∃ s', captureStep realloc s = some (.inl s') ∧ ∃ m' < m,
          (CaptureInv realloc pipe s' ∧ s'.Room) ∧ m' = s'.pipe.rest.length := by
    rintro m s ⟨⟨h, hroom⟩, rfl⟩
    rcases h.step hroom with hleft | ⟨s', hstep, h', hroom', hless⟩
    · exact .inl hleft
    · exact .inr ⟨s', hstep, _, hless, ⟨h', hroom'⟩, rfl⟩
  obtain ⟨r, hrun, hr⟩ := While.exists_run hturn ⟨⟨h, hroom⟩, rfl⟩ (Nat.lt_succ_self _)
  exact ⟨r, _, fun fuel hfuel => While.run_of_le hrun hfuel, hr⟩

/-! ### The promises of the call -/

/-- What a call of `process_capture` leaves behind when it returns an error: `*out_buf` and
`*out_len` as they were, no block and no open stream. -/
structure CaptureUndone (out : CaptureOut) (r : CaptureResult) : Prop where
  out_eq : r.out = out
  freed : heldBlock r.calls = none
  closed : streamOpen r.calls = false

/-- The whole output was captured, in order, with a zero byte after it in the block that is handed
out. -/
structure Captured (output : List Byte) (r : CaptureResult) : Prop where
  code_eq : r.code = .ok
  len_eq : r.out.len = output.length
  buf : ∃ buf, r.out.buf = some buf ∧ heldBlock r.calls = some buf.length
    ∧ buf.take output.length = output ∧ buf[output.length]? = some 0

theorem captureInv_init
    {buf : List Byte} (hbuf : buf.length = 1024) :
  CaptureInv realloc pipe
    { buf, cap := 1024, len := 0, pipe, calls := [.popen true, .malloc 1024 true] }
  where
  length_buf := hbuf
  taken := by rw [List.take_zero, List.take_zero]
  rest_eq := List.drop_zero.symm
  failed_eq := rfl
  len_le := Nat.zero_le _
  cap_pow := ⟨10, rfl⟩
  cap_le := (by decide : 1024 ≤ sizeMax)
  granted := .inl rfl
  held := rfl
  isOpen := rfl
  proper := ⟨trivial, rfl, trivial⟩

/-- A call that gives up frees the block and closes the stream. -/
theorem captureUndone_of_left
    {r : CaptureLoop × Option ErrorCode} (h : CaptureLeft realloc pipe r) (out : CaptureOut)
    (code : ErrorCode) :
  CaptureUndone out { code, out, calls := r.1.calls ++ [.free, .pclose] }
    ∧ ProperCalls none (r.1.calls ++ [.free, .pclose])
  := by
  refine ⟨⟨rfl, ?_, ?_⟩, ?_⟩
  · rw [heldBlock_append]
    rfl
  · rw [streamOpen_append]
    rfl
  · rw [properCalls_append, ← heldBlock]
    exact ⟨h.proper, h.held, trivial, trivial⟩

/-- At the end of the output, a zero byte is put after it. -/
theorem CaptureInv.captured
    (h : CaptureInv realloc pipe s) (hroom : s.Room)
    (hlen : s.len = pipe.rest.length) :
  ∃ buf, Buffer.write s.buf s.len [0] = some buf
    ∧ Captured pipe.rest { code := .ok, out := ⟨some buf, s.len⟩, calls := s.calls ++ [.pclose] }
    ∧ ProperCalls none (s.calls ++ [.pclose])
  := by
  rw [CaptureLoop.Room] at hroom
  have hfit : s.len + ([0] : List Byte).length ≤ s.buf.length := by
    rw [List.length_singleton, h.length_buf]
    omega
  have hfront : (s.buf.take s.len).length = s.len := by
    rw [List.length_take, h.length_buf]
    omega
  refine ⟨_, if_pos hfit, ⟨rfl, hlen, _, rfl, ?_, ?_, ?_⟩, ?_⟩
  · rw [heldBlock_append, h.held, List.length_append, hfront, List.length_append,
      List.length_singleton, List.length_drop, h.length_buf]
    simp only [List.foldl_cons, List.foldl_nil, CaptureCall.held, Option.some.injEq]
    omega
  · rw [← hlen, List.take_append_of_le_length (by omega), List.take_take, Nat.min_self, h.taken,
      hlen, List.take_length]
  · rw [← hlen, List.getElem?_append_right (by omega), hfront, Nat.sub_self]
    rfl
  · rw [properCalls_append]
    exact ⟨h.proper, trivial, trivial⟩

/-- What the statements after the loop make of how it was left. -/
theorem CaptureLeft.exists_end
    {r : CaptureLoop × Option ErrorCode} (h : CaptureLeft realloc pipe r) (out : CaptureOut) :
  ∃ r', captureEnd out r.1 r.2 = some r' ∧ ProperCalls none r'.calls
    ∧ (r'.code ≠ .ok → CaptureUndone out r')
    ∧ (pipe.failed = false → NoFailure r'.calls → 2 * pipe.rest.length ≤ sizeMax →
      (pipe.rest.length = ptrdiffMax → ∀ n, ptrdiffMax < n → realloc n = none) →
      Captured pipe.rest r')
  := by
  obtain ⟨s, error⟩ := r
  rcases h.error_cases with ⟨rfl, hinv, hroom, hlen⟩ | ⟨rfl, hlong, n, hn, hgrant⟩
    | ⟨rfl, n, hmem⟩
  · dsimp only at hinv hroom hlen
    rw [captureEnd]
    dsimp only
    split
    case isTrue hfailed =>
      obtain ⟨hundone, hproper⟩ := captureUndone_of_left h out .io
      refine ⟨_, rfl, hproper, fun _ => hundone, ?_⟩
      intro hok
      rw [← hinv.failed_eq, hfailed] at hok
      cases hok
    case isFalse =>
      obtain ⟨buf, hwrite, hcaptured, hproper⟩ := hinv.captured hroom hlen
      rw [hwrite, Option.map_some]
      exact ⟨_, rfl, hproper, fun hcode => absurd rfl hcode, fun _ _ _ _ => hcaptured⟩
  · obtain ⟨hundone, hproper⟩ := captureUndone_of_left h out .overflow
    refine ⟨_, rfl, hproper, fun _ => hundone, ?_⟩
    -- the output would have filled a block larger than there are
    intro _ _ hfit hhuge
    rw [hhuge (by simp only [ptrdiffMax, sizeMax] at hlong hfit ⊢; omega) n hn] at hgrant
    cases hgrant
  · obtain ⟨hundone, hproper⟩ := captureUndone_of_left h out .nomem
    refine ⟨_, rfl, hproper, fun _ => hundone, ?_⟩
    intro _ hall
    exact absurd (List.mem_append_left _ hmem) (hall n).2

/-- More rounds do not change what a call does. -/
theorem processCapture_of_le
    {cmd : Option CString} {hasBuf hasLen : Bool} {fuel fuel' : ℕ} {r : CaptureResult}
    (h : processCapture popen malloc realloc cmd hasBuf hasLen out fuel = some r)
    (hle : fuel ≤ fuel') :
  processCapture popen malloc realloc cmd hasBuf hasLen out fuel' = some r
  := by
  revert h
  unfold processCapture
  split
  · split
    · exact id
    · split
      · exact id
      · intro h
        obtain ⟨p, hrun, hend⟩ := Option.bind_eq_some_iff.mp h
        rw [While.run_of_le hrun hle, Option.bind_some]
        exact hend
  · exact id

/-- `process_capture` returns, whatever its calls do.  Every read is for at least one byte inside
the block that is held; after an error nothing is left behind; and when the command could be
started, the stream did not fail and no allocation failed, the whole output was captured.  Of the
lengths of the output whose double is of type `size_t`, this takes for the last one that no block
is larger than `PTRDIFF_MAX` bytes. -/
theorem processCapture_correct
    (popen : CString → Option Pipe) (malloc : Malloc) (realloc : ℕ → Realloc)
    (cmd : Option CString) (hasBuf hasLen : Bool) (out : CaptureOut) :
  ∃ r rounds,
    (∀ fuel, rounds ≤ fuel →
        processCapture popen malloc realloc cmd hasBuf hasLen out fuel = some r)
      ∧ ProperCalls none r.calls
      ∧ (r.code ≠ .ok → CaptureUndone out r)
      ∧ ∀ c pipe, cmd = some c → hasBuf = true → hasLen = true → popen c = some pipe →
        pipe.failed = false → NoFailure r.calls → 2 * pipe.rest.length ≤ sizeMax →
        (pipe.rest.length = ptrdiffMax → ∀ n, ptrdiffMax < n → realloc n = none) →
        Captured pipe.rest r
  := by
  by_cases hargs : ∃ c, cmd = some c ∧ hasBuf = true ∧ hasLen = true
  · obtain ⟨c, rfl, rfl, rfl⟩ := hargs
    cases hpipe : popen c with
    | none =>
        refine ⟨{ code := .io, out, calls := [.popen false] }, 0, ?_, ⟨trivial, trivial⟩,
          fun _ => ⟨rfl, rfl, rfl⟩, ?_⟩
        · intro fuel _
          simp only [processCapture, hpipe]
        · rintro c' pipe ⟨⟩ - - hpipe'
          rw [hpipe] at hpipe'
          cases hpipe'
    | some pipe =>
        cases hblock : malloc.block 1024 with
        | none =>
            refine ⟨{ code := .nomem, out, calls := [.popen true, .malloc 1024 false, .pclose] },
              0, ?_, ⟨trivial, rfl, trivial, trivial⟩, fun _ => ⟨rfl, rfl, rfl⟩, ?_⟩
            · intro fuel _
              simp only [processCapture, hpipe, hblock]
            · rintro c' pipe' - - - - - hall
              exact absurd (by simp) (hall 1024).1
        | some buf =>
            have hinit : CaptureInv realloc pipe _ :=
              captureInv_init (malloc.length_block hblock)
            obtain ⟨r, rounds, hrun, hleft⟩ := hinit.exists_run (show 0 + 1 < 1024 by decide)
            obtain ⟨r', hend, hproper, hundone, hcaptured⟩ := hleft.exists_end out
            refine ⟨r', rounds, ?_, hproper, hundone, ?_⟩
            · intro fuel hfuel
              simp only [processCapture, hpipe, hblock, hrun fuel hfuel, Option.bind_some]
              exact hend
            · rintro c' pipe' ⟨⟩ - - hpipe'
              rw [hpipe] at hpipe'
              cases hpipe'
              exact hcaptured
  · refine ⟨{ code := .invalidArg, out, calls := [] }, 0, ?_, trivial,
      fun _ => ⟨rfl, rfl, rfl⟩, ?_⟩
    · intro fuel _
      rw [processCapture]
      intro c hc hbuf hlen
      exact hargs ⟨c, hc, hbuf, hlen⟩
    · intro c pipe hc hbuf hlen
      exact absurd ⟨c, hc, hbuf, hlen⟩ hargs

/-- More bytes than the first buffer holds, which come in two pieces: the buffer is doubled. -/
theorem processCapture_correct_of_pieces :
  ∃ r fuel, processCapture (fun _ => some ⟨List.replicate 1100 97, [1023, 77], false⟩)
      (.upTo 2048) (fun _ => some fun _ => 0) (some ⟨[108, 115], by decide⟩) true true ⟨none, 7⟩
      fuel = some r
    ∧ r.calls = [.popen true, .malloc 1024 true, .fread 0 1023, .realloc 2048 true,
      .fread 1023 1024, .fread 1100 947, .pclose]
    ∧ Captured (List.replicate 1100 97) r
  := by
  obtain ⟨r, rounds, hrun, -, -, hcaptured⟩ := processCapture_correct
    (fun _ => some ⟨List.replicate 1100 97, [1023, 77], false⟩) (.upTo 2048)
    (fun _ => some fun _ => 0) (some ⟨[108, 115], by decide⟩) true true ⟨none, 7⟩
  have hcalls : (processCapture (fun _ => some ⟨List.replicate 1100 97, [1023, 77], false⟩)
      (.upTo 2048) (fun _ => some fun _ => 0) (some ⟨[108, 115], by decide⟩) true true ⟨none, 7⟩
      3).map (·.calls)
    = some [.popen true, .malloc 1024 true, .fread 0 1023, .realloc 2048 true,
      .fread 1023 1024, .fread 1100 947, .pclose] := by
    decide +kernel
  obtain ⟨r', hthree, hcalls⟩ := Option.map_eq_some_iff.mp hcalls
  have hsame := processCapture_of_le hthree (Nat.le_max_left 3 rounds)
  rw [hrun _ (Nat.le_max_right 3 rounds), Option.some.injEq] at hsame
  subst hsame
  refine ⟨r, 3, hthree, hcalls, hcaptured _ _ rfl rfl rfl rfl rfl ?_ ?_ ?_⟩
  · rw [hcalls]
    intro n
    simp
  · rw [List.length_replicate]
    decide
  · intro hlong
    rw [List.length_replicate] at hlong
    cases hlong

end CTemplate

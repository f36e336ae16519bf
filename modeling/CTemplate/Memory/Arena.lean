import CTemplate.Core.Error
import CTemplate.Core.Memory
import CTemplate.Library.Alignment
import CTemplate.Library.Region
import CTemplate.Library.StateMachine
import Mathlib.Data.UInt

/-!
# The arena

`Arena` is the bump allocator of `memory/arena.c`.  Its sizes are words of 64 bits, whose
operations wrap around.  `arenaMachine malloc` is an arena from `arena_init` on which
`arena_alloc` and `arena_reset` are called in any order, with any arguments.

The blocks returned since the last call of `arena_reset` form a layout of the buffer, and
`arena_alloc` refuses exactly the requests that are malformed or do not fit.  It rounds the
offset in the buffer, not the address, so a returned address is aligned exactly when the
address of the buffer is.
-/

namespace CTemplate

open Alignment Region

/-! ### The arena -/

/-- The fields of `Arena`: the address of the buffer, its size, and the number of its bytes
in use. -/
structure Arena where
  buf : Ptr
  cap : UInt64
  pos : UInt64
  deriving DecidableEq

/-- `arena_init`, given the outcome of its call of `malloc`. -/
def arenaInit (malloc : MallocAddr) (capacity : UInt64) : Except ErrorCode Arena :=
  if capacity = 0 then .error .invalidArg
  else if malloc.addr capacity = nullPtr then .error .nomem
  else .ok { buf := malloc.addr capacity, cap := capacity, pos := 0 }

/-- `arena_alloc`: the arena after the call and the pointer returned. -/
def arenaAlloc (a : Arena) (size align : UInt64) : Arena × Ptr :=
  if a.buf = nullPtr ∨ size = 0 then (a, nullPtr)
  else if align = 0 ∨ align &&& (align - 1) ≠ 0 then (a, nullPtr)
  else if a.pos > .ofNat sizeMax - (align - 1) then (a, nullPtr)
  else
    let aligned := (a.pos + align - 1) &&& ~~~(align - 1)
    if aligned > a.cap ∨ size > a.cap - aligned then (a, nullPtr)
    else ({ a with pos := aligned + size }, a.buf + aligned)

/-- `arena_reset` -/
def arenaReset (a : Arena) : Arena :=
  { a with pos := 0 }

/-- A call on an arena. -/
inductive ArenaCall where
  | alloc (size align : UInt64)
  | reset
  deriving DecidableEq

/-- A call that returned: what `arena_alloc` was asked for and returned, or a reset. -/
inductive ArenaEvent where
  | alloc (size align : UInt64) (ptr : Ptr)
  | reset
  deriving DecidableEq

/-- One call on the arena. -/
def arenaStep (a : Arena) : ArenaCall → Option (Arena × Option ArenaEvent)
  | .alloc size align =>
      some ((arenaAlloc a size align).1, some (.alloc size align (arenaAlloc a size align).2))
  | .reset => some (arenaReset a, some .reset)

/-- An arena from `arena_init` and any calls on it. -/
def arenaMachine (malloc : MallocAddr) : StateMachine Arena ArenaEvent :=
  .ofStep (fun a => ∃ capacity, arenaInit malloc capacity = .ok a) arenaStep

/-- The blocks in use after an event, given those in use before it. -/
def ArenaEvent.blocks (blocks : List Block) : ArenaEvent → List Block
  | .alloc size align ptr =>
      if ptr = nullPtr then blocks
      else blocks ++ [⟨ptr.toNat, size.toNat, align.toNat⟩]
  | .reset => []

/-- The blocks returned since the last reset. -/
def arenaBlocks (log : List ArenaEvent) : List Block :=
  log.foldl ArenaEvent.blocks []

/-! ### One allocation -/

/-- What a call of `arena_alloc` can do: refuse a malformed request or one that does not
fit, or return the next aligned offset. -/
inductive ArenaAllocSpec (a : Arena) (size align : UInt64) : Arena × Ptr → Prop where
  | refused
      (h : size = 0 ∨ ¬ align.toNat.isPowerOfTwo
        ∨ a.cap.toNat < roundUp a.pos.toNat align.toNat + size.toNat) :
      ArenaAllocSpec a size align (a, nullPtr)
  | granted (pos offset : UInt64) (hsize : size ≠ 0) (halign : align.toNat.isPowerOfTwo)
      (hoffset : offset.toNat = roundUp a.pos.toNat align.toNat)
      (hpos : pos.toNat = roundUp a.pos.toNat align.toNat + size.toNat)
      (hcap : roundUp a.pos.toNat align.toNat + size.toNat ≤ a.cap.toNat) :
      ArenaAllocSpec a size align ({ a with pos }, a.buf + offset)

/-- The number `align - 1` when `align` is not zero. -/
theorem toNat_sub_one {align : UInt64} (h : align ≠ 0) :
  (align - 1).toNat = align.toNat - 1
  := by
  apply UInt64.toNat_sub_of_le
  rw [UInt64.le_iff_toNat_le]
  have hne : align.toNat ≠ 0 := by simpa [← UInt64.toNat_inj] using h
  apply Nat.pos_of_ne_zero hne

/-- The test for a power of two. -/
theorem align_valid_iff (align : UInt64) :
  ¬ (align = 0 ∨ align &&& (align - 1) ≠ 0) ↔ align.toNat.isPowerOfTwo
  := by
  rw [← Nat.ne_zero_and_sub_one_eq_zero_iff_isPowerOfTwo, not_or, not_not]
  by_cases h : align = 0
  · simp [h]
  · rw [← UInt64.toNat_inj (b := 0), ← UInt64.toNat_inj (a := align &&& (align - 1)),
      UInt64.toNat_and, toNat_sub_one h]
    rfl

/-- The guard before the bump fires exactly when the sum exceeds `SIZE_MAX`. -/
theorem guard_iff {pos align : UInt64} (h : align ≠ 0) :
  pos > .ofNat sizeMax - (align - 1) ↔ 2 ^ 64 ≤ pos.toNat + (align.toNat - 1)
  := by
  have hle : align - 1 ≤ .ofNat sizeMax := by
    rw [UInt64.le_iff_toNat_le]
    apply Nat.le_of_lt_succ (align - 1).toNat_lt
  have hlt := (align - 1).toNat_lt
  rw [toNat_sub_one h] at hlt
  have hmax : (UInt64.ofNat sizeMax).toNat = 2 ^ 64 - 1 := rfl
  rw [gt_iff_lt, UInt64.lt_iff_toNat_lt, UInt64.toNat_sub_of_le _ _ hle, toNat_sub_one h, hmax]
  omega

/-- Without overflow, the masked sum is the position rounded up. -/
theorem aligned_eq
    {pos align : UInt64} (h : align.toNat.isPowerOfTwo)
    (hsum : pos.toNat + (align.toNat - 1) < 2 ^ 64) :
  ((pos + align - 1) &&& ~~~(align - 1)).toNat = roundUp pos.toNat align.toNat
  := by
  have hpos := Nat.pos_of_isPowerOfTwo h
  have hne : align ≠ 0 := by
    rintro rfl
    exact absurd hpos (by decide)
  have hadd : (pos + align - 1).toNat = pos.toNat + (align.toNat - 1) := by
    rw [add_sub_assoc, UInt64.toNat_add, toNat_sub_one hne, Nat.mod_eq_of_lt hsum]
  rw [UInt64.toNat_and, UInt64.toNat_not, toNat_sub_one hne, hadd]
  apply roundUp_eq_and h align.toNat_lt hsum

/-- The test for a block that does not fit. -/
theorem full_iff (aligned size cap : UInt64) :
  (aligned > cap ∨ size > cap - aligned) ↔ cap.toNat < aligned.toNat + size.toNat
  := by
  rw [gt_iff_lt, gt_iff_lt, UInt64.lt_iff_toNat_lt, UInt64.lt_iff_toNat_lt]
  by_cases h : aligned ≤ cap
  · rw [UInt64.toNat_sub_of_le _ _ h]
    rw [UInt64.le_iff_toNat_le] at h
    omega
  · rw [UInt64.le_iff_toNat_le] at h
    omega

/-- A call of `arena_alloc` on an arena with a buffer does what `ArenaAllocSpec` says. -/
theorem arenaAlloc_spec {a : Arena} (hbuf : a.buf ≠ nullPtr) (size align : UInt64) :
  ArenaAllocSpec a size align (arenaAlloc a size align)
  := by
  rw [arenaAlloc]
  split
  · case isTrue h =>
      exact .refused (.inl (h.resolve_left hbuf))
  split
  · case isTrue h =>
      apply ArenaAllocSpec.refused
      rw [← align_valid_iff, not_not]
      exact .inr (.inl h)
  case isFalse hsize halign =>
  rw [align_valid_iff] at halign
  have hne : align ≠ 0 := by
    rintro rfl
    exact absurd (Nat.pos_of_isPowerOfTwo halign) (by decide)
  split
  · case isTrue h =>
      rw [guard_iff hne] at h
      have hover := le_roundUp_of_overflow halign align.toNat_lt h
      have hcap := a.cap.toNat_lt
      apply ArenaAllocSpec.refused
      right; right
      omega
  case isFalse h =>
  rw [guard_iff hne, Nat.not_le] at h
  have haligned := aligned_eq halign h
  dsimp only
  generalize (a.pos + align - 1) &&& ~~~(align - 1) = aligned at haligned ⊢
  have hfull := full_iff aligned size a.cap
  rw [haligned] at hfull
  split
  · case isTrue h =>
      exact .refused (.inr (.inr (hfull.mp h)))
  · case isFalse h =>
      rw [hfull, Nat.not_lt] at h
      have hpos : (aligned + size).toNat = roundUp a.pos.toNat align.toNat + size.toNat := by
        have hcap := a.cap.toNat_lt
        rw [UInt64.toNat_add, haligned, Nat.mod_eq_of_lt (by omega)]
      rw [not_or] at hsize
      exact .granted (aligned + size) aligned hsize.2 halign haligned hpos h

/-! ### Arenas in use -/

/-- What holds of an arena after any calls: the buffer is where `malloc` may put it, the
blocks returned since the last reset lie in it, below the position, without overlap, and a
returned address is as aligned as the address of the buffer. -/
structure ArenaInvariant (log : List ArenaEvent) (a : Arena) : Prop where
  buf_ne_null : a.buf ≠ nullPtr
  dvd_buf : maxAlign ∣ a.buf.toNat
  end_le : a.buf.toNat + a.cap.toNat ≤ sizeMax
  layout : ∃ L : Layout a.buf.toNat a.cap.toNat,
    L.blocks = arenaBlocks log ∧ L.Below (a.buf.toNat + a.pos.toNat)
  dvd_ptr_iff : ∀ size align ptr, ArenaEvent.alloc size align ptr ∈ log → ptr ≠ nullPtr →
    (align.toNat ∣ ptr.toNat ↔ align.toNat ∣ a.buf.toNat)

theorem arenaBlocks_snoc (log : List ArenaEvent) (e : ArenaEvent) :
  arenaBlocks (log ++ [e]) = e.blocks (arenaBlocks log)
  := by
  rw [arenaBlocks, List.foldl_append]
  rfl

theorem ArenaInvariant.init
    {malloc : MallocAddr} {capacity : UInt64} {a : Arena}
    (h : arenaInit malloc capacity = .ok a) :
  ArenaInvariant [] a
  := by
  rw [arenaInit] at h
  split at h
  · cases h
  split at h
  · cases h
  case isFalse hnull =>
  cases h
  constructor
  · exact hnull
  · apply malloc.dvd_addr
  · apply malloc.add_le capacity hnull
  · use .empty _ _, rfl
    apply Layout.below_empty
  · simp

variable {log : List ArenaEvent} {a : Arena} {size align : UInt64}

/-- The address of an offset in the buffer. -/
theorem ArenaInvariant.toNat_buf_add
    (h : ArenaInvariant log a) {offset : UInt64} (hoffset : offset.toNat ≤ a.cap.toNat) :
  (a.buf + offset).toNat = a.buf.toNat + offset.toNat
  := by
  have hend := h.end_le
  rw [UInt64.toNat_add, Nat.mod_eq_of_lt]
  simp only [sizeMax] at hend
  omega

theorem ArenaInvariant.buf_add_ne_null
    (h : ArenaInvariant log a) {offset : UInt64} (hoffset : offset.toNat ≤ a.cap.toNat) :
  a.buf + offset ≠ nullPtr
  := by
  have hne := h.buf_ne_null
  have hadd := h.toNat_buf_add hoffset
  rw [Ne, ← UInt64.toNat_inj] at hne ⊢
  rw [hadd]
  simp only [nullPtr, UInt64.toNat_zero] at hne ⊢
  omega

/-- A call of `arena_alloc` keeps the invariant. -/
theorem ArenaInvariant.alloc (h : ArenaInvariant log a) (size align : UInt64) :
  ArenaInvariant (log ++ [.alloc size align (arenaAlloc a size align).2])
    (arenaAlloc a size align).1
  := by
  have hspec := arenaAlloc_spec h.buf_ne_null size align
  generalize arenaAlloc a size align = result at hspec
  obtain ⟨L, hblocks, hbelow⟩ := h.layout
  cases hspec with
  | refused =>
      constructor
      · exact h.buf_ne_null
      · exact h.dvd_buf
      · exact h.end_le
      · use L
        rw [arenaBlocks_snoc]
        use hblocks, hbelow
      · intro size' align' ptr hmem hptr
        rcases List.mem_append.mp hmem with hmem | hmem
        · apply h.dvd_ptr_iff _ _ _ hmem hptr
        · simp_all
  | granted pos offset hsize halign hoffset hpos hcap =>
      have hfit : offset.toNat ≤ a.cap.toNat := by omega
      have hptr := h.toNat_buf_add hfit
      have hle := le_roundUp (n := a.pos.toNat) (Nat.pos_of_isPowerOfTwo halign)
      have hdvd := dvd_roundUp a.pos.toNat align.toNat
      constructor
      · exact h.buf_ne_null
      · exact h.dvd_buf
      · exact h.end_le
      · have hinside : Block.Inside a.buf.toNat a.cap.toNat
            ⟨(a.buf + offset).toNat, size.toNat, align.toNat⟩ := by
          constructor
          · dsimp only
            omega
          · dsimp only
            omega
          · rw [hptr, Nat.add_sub_cancel_left, hoffset]
            exact hdvd
        have hnew : L.Below (a.buf + offset).toNat := by
          intro b hb
          have := hbelow b hb
          omega
        use L.bump _ hinside hnew
        constructor
        · rw [arenaBlocks_snoc, ArenaEvent.blocks, if_neg (h.buf_add_ne_null hfit), ← hblocks]
          rfl
        · have hbump := Layout.below_bump hinside hnew
          dsimp only at hbump ⊢
          rwa [hpos, ← hoffset, ← Nat.add_assoc, ← hptr]
      · intro size' align' ptr hmem hne
        rcases List.mem_append.mp hmem with hmem | hmem
        · apply h.dvd_ptr_iff _ _ _ hmem hne
        · obtain ⟨rfl, rfl, rfl⟩ := by simpa using hmem
          rw [hptr, hoffset]
          apply Nat.dvd_add_iff_left hdvd |>.symm

/-- A call of `arena_reset` keeps the invariant. -/
theorem ArenaInvariant.reset (h : ArenaInvariant log a) :
  ArenaInvariant (log ++ [.reset]) (arenaReset a)
  := by
  constructor
  · exact h.buf_ne_null
  · exact h.dvd_buf
  · exact h.end_le
  · use .empty _ _
    rw [arenaBlocks_snoc]
    use rfl
    apply Layout.below_empty
  · intro size align ptr hmem hne
    apply h.dvd_ptr_iff size align ptr _ hne
    simpa using hmem

/-- The invariant holds after any calls on an arena from `arena_init`. -/
theorem ArenaInvariant.of_reaches
    {malloc : MallocAddr} (h : (arenaMachine malloc).Reaches log a) :
  ArenaInvariant log a
  := by
  apply h.invariant (I := ArenaInvariant)
  · rintro a₀ ⟨capacity, h₀⟩
    apply ArenaInvariant.init h₀
  · rintro log a e a' - hI ⟨call, hstep⟩
    cases call with
    | alloc size align =>
        obtain ⟨rfl, rfl⟩ : _ = a' ∧ _ = e := by simpa [arenaStep] using hstep
        apply hI.alloc
    | reset =>
        obtain ⟨rfl, rfl⟩ : _ = a' ∧ _ = e := by simpa [arenaStep] using hstep
        apply hI.reset

/-- `arena_alloc` returns a null pointer exactly when the request is malformed or does not
fit, and then leaves the arena as it was. -/
theorem ArenaInvariant.alloc_eq_null_iff (h : ArenaInvariant log a) :
  ((arenaAlloc a size align).2 = nullPtr ↔
      size = 0 ∨ ¬ align.toNat.isPowerOfTwo
        ∨ a.cap.toNat < roundUp a.pos.toNat align.toNat + size.toNat)
    ∧ ((arenaAlloc a size align).2 = nullPtr → (arenaAlloc a size align).1 = a)
  := by
  have hspec := arenaAlloc_spec h.buf_ne_null size align
  generalize arenaAlloc a size align = result at hspec
  cases hspec with
  | refused hmalformed => simp [hmalformed]
  | granted pos offset hsize halign hoffset hpos hcap =>
      have hle : offset.toNat ≤ a.cap.toNat := by omega
      have hne := h.buf_add_ne_null hle
      simp [hne, hsize, halign, hcap]

/-- `arena_alloc` returns the address of the least aligned offset that is not below `pos`. -/
theorem ArenaInvariant.isLeast_alloc
    (h : ArenaInvariant log a) (hptr : (arenaAlloc a size align).2 ≠ nullPtr) :
  IsLeast { offset | a.pos.toNat ≤ offset ∧ align.toNat ∣ offset }
    ((arenaAlloc a size align).2.toNat - a.buf.toNat)
  := by
  have hspec := arenaAlloc_spec h.buf_ne_null size align
  generalize arenaAlloc a size align = result at hspec hptr
  cases hspec with
  | refused => exact absurd rfl hptr
  | granted pos offset hsize halign hoffset hpos hcap =>
      have hle : offset.toNat ≤ a.cap.toNat := by omega
      rw [h.toNat_buf_add hle, Nat.add_sub_cancel_left, hoffset]
      apply isLeast_roundUp (Nat.pos_of_isPowerOfTwo halign)

/-! ### The promises of the arena -/

/-- The blocks returned since the last reset lie in the buffer at aligned offsets and do not
overlap.  A request is refused, without effect, exactly when it is malformed or when the
block at the next aligned offset would not fit. -/
theorem arena_blocks
    {malloc : MallocAddr} {log : List ArenaEvent} {a : Arena}
    (h : (arenaMachine malloc).Reaches log a) :
  (∀ b ∈ arenaBlocks log, b.Inside a.buf.toNat a.cap.toNat)
    ∧ (arenaBlocks log).Pairwise Block.Disjoint
    ∧ ∀ size align : UInt64,
        ((arenaAlloc a size align).2 = nullPtr ↔
          size = 0 ∨ ¬ align.toNat.isPowerOfTwo
            ∨ a.cap.toNat < roundUp a.pos.toNat align.toNat + size.toNat)
        ∧ ((arenaAlloc a size align).2 = nullPtr → (arenaAlloc a size align).1 = a)
  := by
  have hI := ArenaInvariant.of_reaches h
  obtain ⟨L, hblocks, -⟩ := hI.layout
  rw [← hblocks]
  use L.inside, L.disjoint
  intro size align
  apply hI.alloc_eq_null_iff

/-- Two allocations with a reset between them and a third, after which the buffer of 64
bytes has no room for 49 more at an offset that is a multiple of 16. -/
theorem arena_blocks_of_run :
  ∃ (malloc : MallocAddr) (log : List ArenaEvent) (a : Arena),
    (arenaMachine malloc).Reaches log a
      ∧ arenaBlocks log = [⟨4096, 4, 4⟩, ⟨4112, 8, 16⟩]
      ∧ (arenaBlocks log).Pairwise Block.Disjoint
      ∧ (arenaAlloc a 49 16).2 = nullPtr
  := by
  have hrun : StateMachine.run arenaStep ⟨4096, 64, 0⟩
      [.alloc 60 8, .reset, .alloc 4 4, .alloc 8 16]
    = some (⟨4096, 64, 24⟩,
        [.alloc 60 8 4096, .reset, .alloc 4 4 4096, .alloc 8 16 4112]) := by decide
  have hinit : ∃ capacity,
      arenaInit (.at 4096 64 (by decide) (by decide)) capacity = .ok ⟨4096, 64, 0⟩ :=
    ⟨64, rfl⟩
  have hs : (arenaMachine (.at 4096 64 (by decide) (by decide))).Reaches _ _ :=
    StateMachine.reaches_of_run hinit hrun
  obtain ⟨-, hdisjoint, halloc⟩ := arena_blocks hs
  refine ⟨_, _, _, hs, by decide, hdisjoint, ?_⟩
  apply (halloc 49 16).1.mpr
  right; right
  decide

/-- Every address is aligned to any alignment that `malloc` provides for. -/
theorem ArenaInvariant.dvd_ptr
    (h : ArenaInvariant log a) {ptr : Ptr} (hcall : ArenaEvent.alloc size align ptr ∈ log)
    (hptr : ptr ≠ nullPtr) (halign : align.toNat ∣ maxAlign) :
  align.toNat ∣ ptr.toNat
  := by
  rw [h.dvd_ptr_iff size align ptr hcall hptr]
  apply Nat.dvd_trans halign h.dvd_buf

/-- An address that `arena_alloc` returned for some alignment is aligned exactly when the
address of the buffer is. -/
theorem arena_ptr_aligned_iff
    {malloc : MallocAddr} {log : List ArenaEvent} {a : Arena}
    (h : (arenaMachine malloc).Reaches log a) {size align : UInt64} {ptr : Ptr}
    (hcall : ArenaEvent.alloc size align ptr ∈ log) (hptr : ptr ≠ nullPtr) :
  align.toNat ∣ ptr.toNat ↔ align.toNat ∣ a.buf.toNat
  := (ArenaInvariant.of_reaches h).dvd_ptr_iff size align ptr hcall hptr

/-- A buffer at the address 16 gives the address 16 for the alignment 32. -/
theorem arena_ptr_not_aligned :
  ∃ (malloc : MallocAddr) (log : List ArenaEvent) (a : Arena) (size align : UInt64) (ptr : Ptr),
    (arenaMachine malloc).Reaches log a ∧ ArenaEvent.alloc size align ptr ∈ log
      ∧ ptr ≠ nullPtr ∧ align.toNat.isPowerOfTwo ∧ ¬ align.toNat ∣ ptr.toNat
  := by
  have hrun : StateMachine.run arenaStep ⟨16, 64, 0⟩ [.alloc 8 32]
    = some (⟨16, 64, 8⟩, [.alloc 8 32 16]) := by decide
  have hinit : ∃ capacity,
      arenaInit (.at 16 64 (by decide) (by decide)) capacity = .ok ⟨16, 64, 0⟩ :=
    ⟨64, rfl⟩
  have hs : (arenaMachine (.at 16 64 (by decide) (by decide))).Reaches _ _ :=
    StateMachine.reaches_of_run hinit hrun
  refine ⟨_, _, _, 8, 32, 16, hs, List.mem_singleton_self _, by decide, by decide, by decide⟩

/-- On a buffer at the address 32, the alignment 32 is honoured. -/
theorem arena_ptr_aligned_of_run :
  ∃ (malloc : MallocAddr) (log : List ArenaEvent) (a : Arena),
    (arenaMachine malloc).Reaches log a ∧ ArenaEvent.alloc 8 32 64 ∈ log
      ∧ 32 ∣ (64 : Ptr).toNat
  := by
  have hrun : StateMachine.run arenaStep ⟨32, 64, 0⟩ [.alloc 8 32, .alloc 8 32]
    = some (⟨32, 64, 40⟩, [.alloc 8 32 32, .alloc 8 32 64]) := by decide
  have hinit : ∃ capacity,
      arenaInit (.at 32 64 (by decide) (by decide)) capacity = .ok ⟨32, 64, 0⟩ :=
    ⟨64, rfl⟩
  have hs : (arenaMachine (.at 32 64 (by decide) (by decide))).Reaches _ _ :=
    StateMachine.reaches_of_run hinit hrun
  have hcall : ArenaEvent.alloc 8 32 64 ∈ [ArenaEvent.alloc 8 32 32, .alloc 8 32 64] := by
    decide
  refine ⟨_, _, _, hs, hcall, ?_⟩
  apply (arena_ptr_aligned_iff hs hcall (by decide)).mpr
  decide

end CTemplate

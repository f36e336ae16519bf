import CTemplate.Core.Error
import CTemplate.Core.Memory
import CTemplate.Library.Linked
import CTemplate.Library.Region
import CTemplate.Library.StateMachine
import CTemplate.Library.Words
import Mathlib.Data.List.Perm.Basic
import Mathlib.Data.UInt

/-!
# The block pool

`Pool` is the allocator of `memory/pool.c` for blocks of one size.  The list of its free blocks
lives in the blocks themselves: the first bytes of a free block are the address of the next
one.  `blockPoolMachine p` is the pool `p` on which `pool_alloc` and `pool_free` are called in any
order, while the blocks in use are written by those who got them.

A function gives `none` when it follows a pointer out of the buffer.
-/

namespace CTemplate

open Region

/-! ### The pool -/

/-- The fields of `Pool`: the address of the buffer, the size and the number of its blocks, and
the first free block.  The content of the buffer is `mem`. -/
structure Pool where
  buf : Ptr
  blockSize : UInt64
  blockCount : UInt64
  freeList : Ptr
  mem : List Byte
  deriving DecidableEq

/-- `sizeof(void *)` -/
def ptrSize : UInt64 := 8

/-- The pointer stored at an address. -/
def Pool.load (p : Pool) (addr : Ptr) : Option Ptr :=
  if p.buf ≤ addr then
    (Words.load p.mem (addr.toNat - p.buf.toNat) ptrSize.toNat).map UInt64.ofNat
  else none

/-- The pool after a pointer was stored at an address. -/
def Pool.store (p : Pool) (addr value : Ptr) : Option Pool :=
  if p.buf ≤ addr then
    (Words.store p.mem (addr.toNat - p.buf.toNat) ptrSize.toNat value.toNat).map fun mem =>
      { p with mem }
  else none

/-- Put the block at `addr` in front of the free blocks. -/
def Pool.link (p : Pool) (addr : Ptr) : Option Pool :=
  (p.store addr p.freeList).map fun p => { p with freeList := addr }

/-- The address of the block with index `i`. -/
def Pool.block (p : Pool) (i : ℕ) : Ptr :=
  p.buf + .ofNat i * p.blockSize

/-- The loop of `pool_init`, with the blocks below `i` to go. -/
def poolThread : ℕ → Pool → Option Pool
  | 0, p => some p
  | i + 1, p => (p.link (p.block i)).bind (poolThread i)

/-- `pool_init`, given the outcome of its call of `malloc` and the content `junk` of what that
returned. -/
def poolInit (malloc : MallocAddr) (junk : ℕ → Byte) (blockSize blockCount : UInt64) :
    Option (Except ErrorCode Pool) :=
  if blockCount = 0 then some (.error .invalidArg)
  else
    let blockSize := if blockSize < ptrSize then ptrSize else blockSize
    if blockCount > .ofNat sizeMax / blockSize then some (.error .overflow)
    else
      let buf := malloc.addr (blockSize * blockCount)
      if buf = nullPtr then some (.error .nomem)
      else
        let mem := (List.range (blockSize * blockCount).toNat).map junk
        (poolThread blockCount.toNat
          { buf, blockSize, blockCount, freeList := nullPtr, mem }).map .ok

/-- `pool_alloc`: the pool after the call and the pointer returned. -/
def poolAlloc (p : Pool) : Option (Pool × Ptr) :=
  if p.freeList = nullPtr then some (p, nullPtr)
  else (p.load p.freeList).map fun next => ({ p with freeList := next }, p.freeList)

/-- `pool_free` -/
def poolFree (p : Pool) (ptr : Ptr) : Option Pool :=
  if ptr = nullPtr ∨ p.buf = nullPtr then some p
  else
    let span := p.blockSize * p.blockCount
    if ptr < p.buf ∨ ptr ≥ p.buf + span then some p
    else if (ptr - p.buf) % p.blockSize ≠ 0 then some p
    else p.link ptr

/-- The addresses of all blocks. -/
def Pool.blocks (p : Pool) : List Ptr :=
  (List.range p.blockCount.toNat).map p.block

/-- The pointer is null, outside the buffer, or not on the boundary of a block. -/
def Pool.Stray (p : Pool) (ptr : Ptr) : Prop :=
  ptr = nullPtr ∨ ptr.toNat < p.buf.toNat
    ∨ p.buf.toNat + p.blockSize.toNat * p.blockCount.toNat ≤ ptr.toNat
    ∨ ¬ p.blockSize.toNat ∣ ptr.toNat - p.buf.toNat

instance (p : Pool) (ptr : Ptr) : Decidable (p.Stray ptr) := by
  unfold Pool.Stray
  infer_instance

/-- The pool and the blocks in use. -/
structure BlockPoolSystem where
  pool : Pool
  inUse : List Ptr
  deriving DecidableEq

/-- What happens next: a call on the pool, or bytes are written into a block in use. -/
inductive BlockPoolCall where
  | alloc
  | free (ptr : Ptr)
  | write (block : Ptr) (offset : ℕ) (xs : List Byte)
  deriving DecidableEq

/-- A call that returned. -/
inductive BlockPoolEvent where
  | alloc (ptr : Ptr)
  | free (ptr : Ptr)
  deriving DecidableEq

/-- One call on the pool, or one write.  A pointer that is freed is a block in use or stray. -/
def blockPoolStep (s : BlockPoolSystem) :
    BlockPoolCall → Option (BlockPoolSystem × Option BlockPoolEvent)
  | .alloc =>
      (poolAlloc s.pool).map fun (pool, ptr) =>
        (⟨pool, if ptr = nullPtr then s.inUse else ptr :: s.inUse⟩, some (.alloc ptr))
  | .free ptr =>
      if ptr ∈ s.inUse ∨ s.pool.Stray ptr then
        (poolFree s.pool ptr).map fun pool => (⟨pool, s.inUse.erase ptr⟩, some (.free ptr))
      else none
  | .write block offset xs =>
      if block ∈ s.inUse ∧ offset + xs.length ≤ s.pool.blockSize.toNat then
        (Buffer.write s.pool.mem (block.toNat - s.pool.buf.toNat + offset) xs).map fun mem =>
          ({ s with pool := { s.pool with mem } }, none)
      else none

/-- The pool `p`, none of whose blocks are in use at first. -/
def blockPoolMachine (p : Pool) : StateMachine BlockPoolSystem BlockPoolEvent :=
  .ofStep (fun s => s = ⟨p, []⟩) blockPoolStep

/-! ### Blocks -/

/-- The buffer of the pool has room for its blocks, each of which has room for a pointer. -/
structure Pool.Sized (p : Pool) : Prop where
  buf_ne_null : p.buf ≠ nullPtr
  ptrSize_le : ptrSize.toNat ≤ p.blockSize.toNat
  end_le : p.buf.toNat + p.blockSize.toNat * p.blockCount.toNat ≤ sizeMax
  length_mem : p.mem.length = p.blockSize.toNat * p.blockCount.toNat

variable {p : Pool} {ptr : Ptr} {i : ℕ}

theorem Pool.Sized.blockSize_pos (h : p.Sized) :
  0 < p.blockSize.toNat
  := by
  apply Nat.lt_of_lt_of_le _ h.ptrSize_le
  decide

/-- A block ends within the buffer. -/
theorem Pool.Sized.block_end_le (h : p.Sized) (hi : i < p.blockCount.toNat) :
  i * p.blockSize.toNat + p.blockSize.toNat ≤ p.mem.length
  := by
  rw [h.length_mem, ← Nat.succ_mul, Nat.mul_comm]
  apply Nat.mul_le_mul_left _ hi

theorem Pool.Sized.toNat_block (h : p.Sized) (hi : i < p.blockCount.toNat) :
  (p.block i).toNat = p.buf.toNat + i * p.blockSize.toNat
  := by
  have hblock := h.block_end_le hi
  have hend := h.end_le
  have hcount := p.blockCount.toNat_lt
  rw [← h.length_mem] at hend
  simp only [sizeMax] at hend
  rw [Pool.block, UInt64.toNat_add, UInt64.toNat_mul, UInt64.toNat_ofNat',
    Nat.mod_eq_of_lt (a := i) (by omega), Nat.mod_eq_of_lt (a := i * _) (by omega),
    Nat.mod_eq_of_lt (by omega)]

@[simp]
theorem Pool.length_blocks (p : Pool) :
  p.blocks.length = p.blockCount.toNat
  := by
  rw [blocks, List.length_map, List.length_range]

/-- The blocks are at the multiples of the block size in the buffer. -/
theorem Pool.Sized.mem_blocks_iff (h : p.Sized) :
  ptr ∈ p.blocks
    ↔ ∃ i < p.blockCount.toNat, ptr.toNat = p.buf.toNat + i * p.blockSize.toNat
  := by
  rw [Pool.blocks, List.mem_map]
  constructor
  · rintro ⟨i, hi, rfl⟩
    rw [List.mem_range] at hi
    use i, hi
    apply h.toNat_block hi
  · rintro ⟨i, hi, hptr⟩
    use i, List.mem_range.mpr hi
    rw [← UInt64.toNat_inj, hptr]
    apply h.toNat_block hi

theorem Pool.Sized.nodup_blocks (h : p.Sized) :
  p.blocks.Nodup
  := by
  rw [Pool.blocks, List.nodup_map_iff_inj_on List.nodup_range]
  intro i hi j hj heq
  rw [List.mem_range] at hi hj
  rw [← UInt64.toNat_inj, h.toNat_block hi, h.toNat_block hj, Nat.add_left_cancel_iff] at heq
  apply Nat.eq_of_mul_eq_mul_right h.blockSize_pos heq

theorem Pool.Sized.ne_null (h : p.Sized) (hptr : ptr ∈ p.blocks) :
  ptr ≠ nullPtr
  := by
  obtain ⟨i, -, hi⟩ := h.mem_blocks_iff.mp hptr
  have hbuf := h.buf_ne_null
  rw [Ne, ← UInt64.toNat_inj] at hbuf ⊢
  simp only [nullPtr, UInt64.toNat_zero] at hbuf ⊢
  omega

/-- A pointer is stray exactly when it is not a block. -/
theorem Pool.Sized.stray_iff (h : p.Sized) :
  p.Stray ptr ↔ ptr ∉ p.blocks
  := by
  constructor
  · intro hstray hptr
    have hne := h.ne_null hptr
    obtain ⟨i, hi, heq⟩ := h.mem_blocks_iff.mp hptr
    have hend := h.block_end_le hi
    have hpos := h.blockSize_pos
    rw [h.length_mem] at hend
    rcases hstray with hnull | hlt | hge | hdvd
    · apply hne hnull
    · omega
    · omega
    · apply hdvd
      rw [heq, Nat.add_sub_cancel_left]
      apply Nat.dvd_mul_left
  · intro hptr
    by_contra hstray
    simp only [Pool.Stray, not_or, not_not, Nat.not_lt, Nat.not_le] at hstray
    obtain ⟨-, hge, hlt, i, hi⟩ := hstray
    apply hptr
    apply h.mem_blocks_iff.mpr
    use i
    constructor
    · apply Nat.lt_of_mul_lt_mul_left (a := p.blockSize.toNat)
      omega
    · rw [Nat.mul_comm]
      omega

/-- The blocks as ranges of addresses. -/
def Pool.regions (p : Pool) : List Block :=
  p.blocks.map fun b => ⟨b.toNat, p.blockSize.toNat, p.blockSize.toNat⟩

/-- The blocks lie in the buffer and do not overlap. -/
theorem Pool.Sized.regions_disjoint (h : p.Sized) :
  (∀ b ∈ p.regions,
      b.Inside p.buf.toNat (p.blockSize.toNat * p.blockCount.toNat))
    ∧ p.regions.Pairwise Block.Disjoint
  := by
  constructor
  · intro b hb
    obtain ⟨ptr, hptr, rfl⟩ := List.mem_map.mp hb
    obtain ⟨i, hi, heq⟩ := h.mem_blocks_iff.mp hptr
    have hend := h.block_end_le hi
    rw [h.length_mem] at hend
    constructor
    · dsimp only
      omega
    · dsimp only
      omega
    · dsimp only
      rw [heq, Nat.add_sub_cancel_left]
      apply Nat.dvd_mul_left
  · rw [Pool.regions, Pool.blocks, List.map_map, List.pairwise_map]
    apply List.pairwise_lt_range.imp_of_mem
    intro i j hi hj hlt
    rw [List.mem_range] at hi hj
    apply Block.disjoint_of_le
    have hle := Nat.mul_le_mul_right p.blockSize.toNat (Nat.succ_le_of_lt hlt)
    rw [Nat.succ_mul] at hle
    simp only [Function.comp_apply, h.toNat_block hi, h.toNat_block hj]
    omega

/-! ### The content of the blocks -/

/-- Where a block lies in the buffer. -/
theorem Pool.Sized.offset_of_mem (h : p.Sized) (hptr : ptr ∈ p.blocks) :
  p.buf ≤ ptr ∧ ptr.toNat - p.buf.toNat + p.blockSize.toNat ≤ p.mem.length
  := by
  obtain ⟨i, hi, heq⟩ := h.mem_blocks_iff.mp hptr
  have hend := h.block_end_le hi
  rw [UInt64.le_iff_toNat_le]
  omega

/-- Two blocks do not overlap. -/
theorem Pool.Sized.offset_le_of_ne
    (h : p.Sized) {a b : Ptr} (ha : a ∈ p.blocks) (hb : b ∈ p.blocks) (hne : a ≠ b) :
  a.toNat - p.buf.toNat + p.blockSize.toNat ≤ b.toNat - p.buf.toNat
    ∨ b.toNat - p.buf.toNat + p.blockSize.toNat ≤ a.toNat - p.buf.toNat
  := by
  obtain ⟨i, -, hi⟩ := h.mem_blocks_iff.mp ha
  obtain ⟨j, -, hj⟩ := h.mem_blocks_iff.mp hb
  rw [hi, hj, Nat.add_sub_cancel_left, Nat.add_sub_cancel_left, ← Nat.succ_mul, ← Nat.succ_mul]
  rcases Nat.lt_trichotomy i j with hlt | rfl | hgt
  · left
    apply Nat.mul_le_mul_right _ hlt
  · rw [← hj, UInt64.toNat_inj] at hi
    exact absurd hi hne
  · right
    apply Nat.mul_le_mul_right _ hgt

/-- A block holds a pointer. -/
theorem Pool.Sized.exists_load (h : p.Sized) (hptr : ptr ∈ p.blocks) :
  ∃ value, p.load ptr = some value
  := by
  obtain ⟨hle, hend⟩ := h.offset_of_mem hptr
  have hsize := h.ptrSize_le
  have hroom : ptr.toNat - p.buf.toNat + ptrSize.toNat ≤ p.mem.length := by omega
  obtain ⟨n, hn⟩ := Words.exists_load hroom
  use .ofNat n
  rw [Pool.load, if_pos hle, hn, Option.map_some]

/-- Bytes that are written into a block do not change the pointers in other blocks. -/
theorem Pool.Sized.write
    (h : p.Sized) (hptr : ptr ∈ p.blocks) {offset : ℕ} {xs : List Byte}
    (hfit : offset + xs.length ≤ p.blockSize.toNat) :
  ∃ mem, Buffer.write p.mem (ptr.toNat - p.buf.toNat + offset) xs = some mem
    ∧ { p with mem }.Sized
    ∧ ∀ a ∈ p.blocks, a ≠ ptr → { p with mem }.load a = p.load a
  := by
  obtain ⟨-, hend⟩ := h.offset_of_mem hptr
  obtain ⟨mem, hwrite, hwrote⟩ :=
    Buffer.exists_write p.mem (ptr.toNat - p.buf.toNat + offset) xs (by omega)
  refine ⟨mem, hwrite, ?_, ?_⟩
  · exact { h with length_mem := hwrote.length_eq.trans h.length_mem }
  · intro a ha hne
    have hsize := h.ptrSize_le
    have hdisjoint := h.offset_le_of_ne ha hptr hne
    rw [Pool.load, Pool.load]
    dsimp only
    rw [Words.load_wrote_of_disjoint hwrote (by omega) (by omega)]

/-- A pointer that is stored in a block is loaded from it, and the pointers in other blocks do
not change. -/
theorem Pool.Sized.store (h : p.Sized) (hptr : ptr ∈ p.blocks) (value : Ptr) :
  ∃ mem, p.store ptr value = some { p with mem } ∧ { p with mem }.Sized
    ∧ { p with mem }.load ptr = some value
    ∧ ∀ a ∈ p.blocks, a ≠ ptr → { p with mem }.load a = p.load a
  := by
  obtain ⟨hle, hend⟩ := h.offset_of_mem hptr
  have hsize := h.ptrSize_le
  have hvalue : value.toNat < 256 ^ ptrSize.toNat := value.toNat_lt
  have hroom : ptr.toNat - p.buf.toNat + ptrSize.toNat ≤ p.mem.length := by omega
  obtain ⟨mem, hstore, hlength, hload, hother⟩ := Words.exists_store hroom hvalue
  use mem
  refine ⟨?_, ?_, ?_, ?_⟩
  · rw [Pool.store, if_pos hle, hstore, Option.map_some]
  · exact { h with length_mem := hlength.trans h.length_mem }
  · rw [Pool.load, if_pos hle]
    dsimp only
    rw [hload, Option.map_some, UInt64.ofNat_toNat]
  · intro a ha hne
    have hdisjoint := h.offset_le_of_ne ha hptr hne
    rw [Pool.load, Pool.load]
    dsimp only
    rw [hother (by omega)]

/-! ### The free blocks -/

/-- The address in a pointer, if it is not null. -/
def nonNull (ptr : Ptr) : Option Ptr :=
  if ptr = nullPtr then none else some ptr

/-- The list of free blocks runs through `nodes`. -/
def Pool.FreeList (p : Pool) (nodes : List Ptr) : Prop :=
  Linked.Chain nonNull p.load (nonNull p.freeList) nodes

theorem nonNull_of_ne (h : ptr ≠ nullPtr) :
  nonNull ptr = some ptr
  := if_neg h

variable {nodes : List Ptr}

/-- A block that is not free is put in front of the free blocks. -/
theorem Pool.Sized.link
    (h : p.Sized) (hptr : ptr ∈ p.blocks) (hfree : p.FreeList nodes) (hnew : ptr ∉ nodes)
    (hnodes : ∀ a ∈ nodes, a ∈ p.blocks) :
  ∃ mem, p.link ptr = some { p with mem, freeList := ptr }
    ∧ { p with mem, freeList := ptr }.Sized
    ∧ { p with mem, freeList := ptr }.FreeList (ptr :: nodes)
  := by
  obtain ⟨mem, hstore, hsized, hload, hother⟩ := h.store hptr p.freeList
  refine ⟨mem, ?_, { hsized with }, nonNull_of_ne (h.ne_null hptr), p.freeList, hload, ?_⟩
  · rw [Pool.link, hstore, Option.map_some]
  · apply Linked.Chain.congr hfree
    intro a ha
    apply hother a (hnodes a ha)
    rintro rfl
    apply hnew ha

/-- The loop of `pool_init` puts the blocks that are to go in front of the free ones. -/
theorem Pool.Sized.thread
    (h : p.Sized) (hi : i ≤ p.blockCount.toNat) (hfree : p.FreeList (p.blocks.drop i)) :
  ∃ mem freeList, poolThread i p = some { p with mem, freeList }
    ∧ { p with mem, freeList }.Sized ∧ { p with mem, freeList }.FreeList p.blocks
  := by
  induction i generalizing p with
  | zero => exact ⟨p.mem, p.freeList, rfl, h, hfree⟩
  | succ i ih =>
      have hlt : i < p.blocks.length := by rwa [p.length_blocks]
      have hblock : p.blocks[i] = p.block i := by simp [Pool.blocks]
      have hdrop : p.blocks.drop i = p.block i :: p.blocks.drop (i + 1) := by
        rw [List.drop_eq_getElem_cons hlt, hblock]
      have hnodup : (p.blocks.drop i).Nodup := h.nodup_blocks.sublist (List.drop_sublist i _)
      rw [hdrop, List.nodup_cons] at hnodup
      have hmem : p.block i ∈ p.blocks := by
        rw [← hblock]
        apply List.getElem_mem
      obtain ⟨mem, hlink, hsized, hfree'⟩ := h.link hmem hfree hnodup.1
        fun a ha => List.mem_of_mem_drop ha
      rw [← hdrop] at hfree'
      obtain ⟨mem', freeList, hthread, hdone⟩ := ih hsized (Nat.le_of_succ_le hi) hfree'
      use mem', freeList
      rw [poolThread, hlink, Option.bind_some, hthread]
      exact ⟨rfl, hdone⟩

/-- `pool_init` writes only into the buffer, and a pool that it accepts has all its blocks
free. -/
theorem poolInit_cases
    (malloc : MallocAddr) (junk : ℕ → Byte) (blockSize blockCount : UInt64) :
  (∃ code, poolInit malloc junk blockSize blockCount = some (.error code))
    ∨ ∃ p, poolInit malloc junk blockSize blockCount = some (.ok p) ∧ p.Sized
      ∧ p.FreeList p.blocks ∧ blockSize ≤ p.blockSize ∧ p.blockCount = blockCount
  := by
  rw [poolInit]
  dsimp only
  have hraised : ptrSize.toNat ≤ (if blockSize < ptrSize then ptrSize else blockSize).toNat
      ∧ blockSize ≤ if blockSize < ptrSize then ptrSize else blockSize := by
    split
    case isTrue hlt => exact ⟨Nat.le_refl _, UInt64.le_of_lt hlt⟩
    case isFalse hge =>
      rw [UInt64.not_lt] at hge
      exact ⟨UInt64.le_iff_toNat_le.mp hge, UInt64.le_refl _⟩
  generalize (if blockSize < ptrSize then ptrSize else blockSize) = size at hraised
  obtain ⟨hsize, hge⟩ := hraised
  split
  · exact .inl ⟨_, rfl⟩
  split
  · exact .inl ⟨_, rfl⟩
  case isFalse hoverflow =>
  split
  · exact .inl ⟨_, rfl⟩
  case isFalse hnull =>
  right
  have hmul : (size * blockCount).toNat = size.toNat * blockCount.toNat := by
    rw [UInt64.not_lt, UInt64.le_iff_toNat_le, UInt64.toNat_div] at hoverflow
    have hle := (Nat.le_div_iff_mul_le (Nat.lt_of_lt_of_le (by decide) hsize)).mp hoverflow
    have hmax : (UInt64.ofNat sizeMax).toNat = 2 ^ 64 - 1 := rfl
    rw [hmax, Nat.mul_comm] at hle
    rw [UInt64.toNat_mul, Nat.mod_eq_of_lt (by omega)]
  have hsized : Pool.Sized
      { buf := malloc.addr (size * blockCount), blockSize := size, blockCount,
        freeList := nullPtr, mem := (List.range (size * blockCount).toNat).map junk } := by
    constructor
    · exact hnull
    · exact hsize
    · rw [← hmul]
      apply malloc.add_le _ hnull
    · rw [List.length_map, List.length_range, hmul]
  generalize (List.range (size * blockCount).toNat).map junk = mem at hsized
  obtain ⟨mem', freeList, hthread, hdone, hfree⟩ := hsized.thread (Nat.le_refl _) (by
    rw [List.drop_eq_nil_of_le (Nat.le_of_eq (Pool.length_blocks _))]
    rfl)
  refine ⟨_, ?_, hdone, hfree, hge, rfl⟩
  rw [hthread, Option.map_some]

/-- A pool that `pool_init` accepts. -/
theorem poolInit_ok
    {malloc : MallocAddr} {junk : ℕ → Byte} {blockSize blockCount : UInt64}
    (h : poolInit malloc junk blockSize blockCount = some (.ok p)) :
  p.Sized ∧ p.FreeList p.blocks ∧ p.blockCount = blockCount
  := by
  rcases poolInit_cases malloc junk blockSize blockCount with
    ⟨code, hcode⟩ | ⟨p', hp', hsized, hfree, -, hcount⟩
  · rw [h] at hcode
    cases hcode
  · rw [h] at hp'
    cases hp'
    exact ⟨hsized, hfree, hcount⟩

/-! ### Calls -/

/-- The tests of `pool_free` are met by the stray pointers. -/
theorem Pool.Sized.stray_iff_tests (h : p.Sized) (ptr : Ptr) :
  p.Stray ptr ↔ (ptr = nullPtr ∨ p.buf = nullPtr)
    ∨ (ptr < p.buf ∨ ptr ≥ p.buf + p.blockSize * p.blockCount)
    ∨ (ptr - p.buf) % p.blockSize ≠ 0
  := by
  have hend := h.end_le
  simp only [sizeMax] at hend
  have hspan : (p.blockSize * p.blockCount).toNat
      = p.blockSize.toNat * p.blockCount.toNat := by
    rw [UInt64.toNat_mul, Nat.mod_eq_of_lt (by omega)]
  have htop : (p.buf + p.blockSize * p.blockCount).toNat
      = p.buf.toNat + p.blockSize.toNat * p.blockCount.toNat := by
    rw [UInt64.toNat_add, hspan, Nat.mod_eq_of_lt (by omega)]
  rw [Pool.Stray, or_iff_left h.buf_ne_null, ge_iff_le, UInt64.lt_iff_toNat_lt,
    UInt64.le_iff_toNat_le, htop, or_assoc]
  by_cases hlt : ptr.toNat < p.buf.toNat
  · simp [hlt]
  · have hsub : (ptr - p.buf).toNat = ptr.toNat - p.buf.toNat := by
      apply UInt64.toNat_sub_of_le
      rw [UInt64.le_iff_toNat_le]
      omega
    have hmod : (ptr - p.buf) % p.blockSize = 0
        ↔ p.blockSize.toNat ∣ ptr.toNat - p.buf.toNat := by
      rw [← UInt64.toNat_inj, UInt64.toNat_mod, hsub, UInt64.toNat_zero,
        Nat.dvd_iff_mod_eq_zero]
    rw [Ne, hmod]

/-- `pool_free` ignores stray pointers and puts any other block in front of the free ones. -/
theorem Pool.Sized.poolFree_eq (h : p.Sized) (ptr : Ptr) :
  poolFree p ptr = if p.Stray ptr then some p else p.link ptr
  := by
  rw [if_congr (h.stray_iff_tests ptr) rfl rfl, ite_or (ptr = nullPtr ∨ _),
    ite_or (ptr < p.buf ∨ _)]
  rfl

/-- What holds of a pool that was `p` at first: the free blocks and those in use are all
blocks of the pool, each once. -/
structure PoolInvariant (p : Pool) (s : BlockPoolSystem) : Prop where
  blockCount_eq : s.pool.blockCount = p.blockCount
  blocks_eq : s.pool.blocks = p.blocks
  sized : s.pool.Sized
  free : ∃ nodes, s.pool.FreeList nodes ∧ (nodes ++ s.inUse).Perm p.blocks

variable {s s' : BlockPoolSystem}

theorem PoolInvariant.init (h : p.Sized) (hfree : p.FreeList p.blocks) :
  PoolInvariant p ⟨p, []⟩
  where
  blockCount_eq := rfl
  blocks_eq := rfl
  sized := h
  free := ⟨p.blocks, hfree, by rw [List.append_nil]⟩

/-- `pool_alloc` returns a null pointer when all blocks are in use, and otherwise a block that
is not. -/
theorem PoolInvariant.alloc (h : PoolInvariant p s) :
  ((∀ c ∈ p.blocks, c ∈ s.inUse) ∧ poolAlloc s.pool = some (s.pool, nullPtr))
    ∨ ∃ b next, b ∈ p.blocks ∧ b ∉ s.inUse
      ∧ poolAlloc s.pool = some ({ s.pool with freeList := next }, b)
      ∧ PoolInvariant p ⟨{ s.pool with freeList := next }, b :: s.inUse⟩
  := by
  obtain ⟨nodes, hfree, hperm⟩ := h.free
  rw [poolAlloc]
  cases nodes with
  | nil =>
      left
      have hnull : s.pool.freeList = nullPtr := by
        have hnone : nonNull s.pool.freeList = none := hfree
        by_contra hne
        rw [nonNull_of_ne hne] at hnone
        cases hnone
      rw [if_pos hnull]
      exact ⟨fun c hc => hperm.symm.subset hc, rfl⟩
  | cons b nodes =>
      right
      obtain ⟨hstart, next, hload, hrest⟩ := hfree
      have hb : b ∈ p.blocks := hperm.subset List.mem_cons_self
      have hne : s.pool.freeList ≠ nullPtr := by
        intro hnull
        rw [hnull] at hstart
        cases hstart
      have hhead : s.pool.freeList = b := by
        rw [nonNull_of_ne hne] at hstart
        apply Option.some.inj hstart
      have hnodup := hperm.nodup_iff.mpr (h.blocks_eq ▸ h.sized.nodup_blocks)
      rw [List.cons_append, List.nodup_cons, List.mem_append, not_or] at hnodup
      rw [if_neg hne, hhead, hload, Option.map_some]
      refine ⟨b, next, hb, hnodup.1.2, rfl, ?_⟩
      exact
        { h with
          sized := { h.sized with }
          free := ⟨nodes, hrest, List.perm_middle.trans hperm⟩ }

/-- Freeing a block in use makes it a free one. -/
theorem PoolInvariant.freeInUse (h : PoolInvariant p s) (hptr : ptr ∈ s.inUse) :
  ∃ pool, poolFree s.pool ptr = some pool ∧ PoolInvariant p ⟨pool, s.inUse.erase ptr⟩
  := by
  obtain ⟨nodes, hfree, hperm⟩ := h.free
  have hmem : ptr ∈ p.blocks := hperm.subset (List.mem_append_right nodes hptr)
  have hnodup := hperm.nodup_iff.mpr (h.blocks_eq ▸ h.sized.nodup_blocks)
  have hnew : ptr ∉ nodes := fun hnode => (List.nodup_append.mp hnodup).2.2 _ hnode _ hptr rfl
  have hstray : ¬ s.pool.Stray ptr := by
    rw [h.sized.stray_iff, h.blocks_eq, not_not]
    exact hmem
  rw [← h.blocks_eq] at hmem
  obtain ⟨mem, hlink, hsized, hlinked⟩ := h.sized.link hmem hfree hnew (by
    intro a ha
    rw [h.blocks_eq]
    apply hperm.subset (List.mem_append_left s.inUse ha))
  rw [h.sized.poolFree_eq, if_neg hstray, hlink]
  refine ⟨_, rfl, ?_⟩
  exact
    { h with
      sized := hsized
      free := by
        refine ⟨ptr :: nodes, hlinked, ?_⟩
        apply List.Perm.trans _ hperm
        apply List.perm_middle.symm.trans
        apply List.Perm.append_left nodes
        apply (List.perm_cons_erase hptr).symm }

/-- Freeing a stray pointer changes nothing. -/
theorem PoolInvariant.freeStray (h : PoolInvariant p s) (hptr : s.pool.Stray ptr) :
  poolFree s.pool ptr = some s.pool ∧ ptr ∉ s.inUse
  := by
  constructor
  · rw [h.sized.poolFree_eq, if_pos hptr]
  · intro huse
    obtain ⟨nodes, -, hperm⟩ := h.free
    rw [h.sized.stray_iff, h.blocks_eq] at hptr
    apply hptr
    apply hperm.subset (List.mem_append_right nodes huse)

/-- Writing into a block in use keeps the list of free blocks. -/
theorem PoolInvariant.write
    (h : PoolInvariant p s) (hptr : ptr ∈ s.inUse) {offset : ℕ} {xs : List Byte}
    (hfit : offset + xs.length ≤ s.pool.blockSize.toNat) :
  ∃ mem, Buffer.write s.pool.mem (ptr.toNat - s.pool.buf.toNat + offset) xs = some mem
    ∧ PoolInvariant p { s with pool := { s.pool with mem } }
  := by
  obtain ⟨nodes, hfree, hperm⟩ := h.free
  have hblock : ∀ a ∈ nodes ++ s.inUse, a ∈ s.pool.blocks := by
    intro a ha
    rw [h.blocks_eq]
    apply hperm.subset ha
  have hnodup := hperm.nodup_iff.mpr (h.blocks_eq ▸ h.sized.nodup_blocks)
  obtain ⟨mem, hwrite, hsized, hother⟩ :=
    h.sized.write (hblock ptr (List.mem_append_right nodes hptr)) hfit
  refine ⟨mem, hwrite, ?_⟩
  exact
    { h with
      sized := hsized
      free := by
        refine ⟨nodes, Linked.Chain.congr hfree ?_, hperm⟩
        intro a ha
        apply hother a (hblock a (List.mem_append_left s.inUse ha))
        rintro rfl
        exact (List.nodup_append.mp hnodup).2.2 _ ha _ hptr rfl }

/-- Every step keeps the invariant. -/
theorem PoolInvariant.step
    (h : PoolInvariant p s) {call : BlockPoolCall} {e : Option BlockPoolEvent}
    (hstep : blockPoolStep s call = some (s', e)) :
  PoolInvariant p s'
  := by
  cases call with
  | alloc =>
      rw [blockPoolStep] at hstep
      rcases h.alloc with ⟨-, halloc⟩ | ⟨b, next, hb, -, halloc, h'⟩
      · rw [halloc] at hstep
        cases hstep
        exact h
      · have hne : b ≠ nullPtr := by
          rw [← h.blocks_eq] at hb
          apply h.sized.ne_null hb
        rw [halloc] at hstep
        simp only [Option.map_some, if_neg hne] at hstep
        cases hstep
        exact h'
  | free ptr =>
      rw [blockPoolStep, Option.ite_none_right_eq_some] at hstep
      obtain ⟨hptr, hstep⟩ := hstep
      by_cases huse : ptr ∈ s.inUse
      · obtain ⟨pool, hfree, h'⟩ := h.freeInUse huse
        rw [hfree] at hstep
        cases hstep
        exact h'
      · obtain ⟨hfree, -⟩ := h.freeStray (hptr.resolve_left huse)
        rw [hfree, Option.map_some, List.erase_of_not_mem huse] at hstep
        cases hstep
        exact h
  | write block offset xs =>
      rw [blockPoolStep, Option.ite_none_right_eq_some] at hstep
      obtain ⟨⟨huse, hfit⟩, hstep⟩ := hstep
      obtain ⟨mem, hwrite, h'⟩ := h.write huse hfit
      rw [hwrite] at hstep
      cases hstep
      exact h'

theorem PoolInvariant.of_reaches
    (h : p.Sized) (hfree : p.FreeList p.blocks) {log : List BlockPoolEvent}
    (hs : (blockPoolMachine p).Reaches log s) :
  PoolInvariant p s
  := by
  apply hs.invariant (I := fun _ s => PoolInvariant p s)
  · rintro _ rfl
    apply PoolInvariant.init h hfree
  · rintro log s e s' - hI ⟨call, hstep⟩
    apply hI.step hstep

/-! ### The promises of the pool -/

/-- On a pool from `pool_init`, whatever is allocated and freed: the list of free blocks ends
and holds the blocks that are not in use, each once; `pool_alloc` returns such a block, or a
null pointer when all blocks are in use; the blocks lie in the buffer and do not overlap; and
freeing a stray pointer changes nothing. -/
theorem pool_blocks
    {malloc : MallocAddr} {junk : ℕ → Byte} {blockSize blockCount : UInt64} {p : Pool}
    (hinit : poolInit malloc junk blockSize blockCount = some (.ok p)) {log : List BlockPoolEvent}
    {s : BlockPoolSystem} (h : (blockPoolMachine p).Reaches log s) :
  (∃ nodes, s.pool.FreeList nodes ∧ nodes.Nodup
      ∧ ∀ b, b ∈ nodes ↔ b ∈ p.blocks ∧ b ∉ s.inUse)
    ∧ (∃ pool b, poolAlloc s.pool = some (pool, b)
        ∧ (b ≠ nullPtr → b ∈ p.blocks ∧ b ∉ s.inUse)
        ∧ (b = nullPtr ↔ ∀ c ∈ p.blocks, c ∈ s.inUse))
    ∧ (p.blocks.length = blockCount.toNat ∧ p.regions.Pairwise Block.Disjoint
        ∧ ∀ b ∈ p.regions, b.Inside p.buf.toNat (p.blockSize.toNat * p.blockCount.toNat))
    ∧ (∀ ptr ∈ s.inUse, ∃ pool, poolFree s.pool ptr = some pool)
    ∧ ∀ ptr, s.pool.Stray ptr → poolFree s.pool ptr = some s.pool
  := by
  obtain ⟨hsized, hfree, hcount⟩ := poolInit_ok hinit
  have hI := PoolInvariant.of_reaches hsized hfree h
  refine ⟨?_, ?_, ?_, ?_, ?_⟩
  · obtain ⟨nodes, hnodes, hperm⟩ := hI.free
    have hnodup := hperm.nodup_iff.mpr hsized.nodup_blocks
    rw [List.nodup_append] at hnodup
    use nodes, hnodes, hnodup.1
    intro b
    rw [← hperm.mem_iff, List.mem_append]
    constructor
    · intro hb
      use .inl hb
      intro huse
      apply hnodup.2.2 b hb b huse rfl
    · rintro ⟨hb, huse⟩
      apply hb.resolve_right huse
  · rcases hI.alloc with ⟨hall, halloc⟩ | ⟨b, next, hb, huse, halloc, -⟩
    · use s.pool, nullPtr, halloc
      constructor
      · intro hne
        exact absurd rfl hne
      · exact ⟨fun _ => hall, fun _ => rfl⟩
    · refine ⟨_, b, halloc, fun _ => ⟨hb, huse⟩, ?_⟩
      constructor
      · intro hnull
        exact absurd hnull (hsized.ne_null hb)
      · intro hall
        exact absurd (hall b hb) huse
  · use by rw [p.length_blocks, hcount], hsized.regions_disjoint.2
    apply hsized.regions_disjoint.1
  · intro ptr hptr
    obtain ⟨pool, hpool, -⟩ := hI.freeInUse hptr
    use pool
  · intro ptr hptr
    apply (hI.freeStray hptr).1

/-- A pool of two blocks at the address 4096. -/
def twoBlockPool (freeList : Ptr) (mem : List Byte) : Pool where
  buf := 4096
  blockSize := 8
  blockCount := 2
  freeList := freeList
  mem := mem

/-- Both blocks are allocated and one is freed again, after which a stray pointer is freed. -/
theorem pool_blocks_of_run :
  ∃ (p : Pool) (s : BlockPoolSystem), s.inUse = [4104]
    ∧ (blockPoolMachine p).Reaches [.alloc 4096, .alloc 4104, .alloc 0, .free 4096, .free 4097] s
    ∧ ∃ pool b, poolAlloc s.pool = some (pool, b)
        ∧ (b = nullPtr ↔ ∀ c ∈ p.blocks, c ∈ s.inUse)
  := by
  have hinit : poolInit (.at 4096 64 (by decide) (by decide)) (fun _ => 0) 1 2
      = some (.ok (twoBlockPool 4096 ([8, 16, 0, 0, 0, 0, 0, 0] ++ List.replicate 8 0))) := by
    decide
  have hrun : StateMachine.run blockPoolStep
      ⟨twoBlockPool 4096 ([8, 16, 0, 0, 0, 0, 0, 0] ++ List.replicate 8 0), []⟩
      [.alloc, .alloc, .write 4104 3 [7, 7], .alloc, .free 4096, .free 4097]
    = some (⟨twoBlockPool 4096 (List.replicate 11 0 ++ [7, 7, 0, 0, 0]), [4104]⟩,
        [.alloc 4096, .alloc 4104, .alloc 0, .free 4096, .free 4097]) := by
    decide
  have hs : (blockPoolMachine (twoBlockPool 4096 _)).Reaches _ _ :=
    StateMachine.reaches_of_run rfl hrun
  obtain ⟨-, ⟨pool, b, halloc, -, hnull⟩, -⟩ := pool_blocks hinit hs
  exact ⟨_, _, rfl, hs, pool, b, halloc, hnull⟩

end CTemplate

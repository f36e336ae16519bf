import CTemplate.Memory.Pool

/-!
# The alignment of the block pool

`pool_init` raises the size of a block to that of a pointer, but not to a multiple of it, so that
the blocks after the first one need not be aligned for the pointers that are stored in them.  The
functions whose names end in `Traced` are those of the pool and say in addition at which addresses
they store or load a pointer.  All these addresses are aligned exactly when there is only one block
or its size keeps the alignment, `poolRun_aligned_iff`.
-/

namespace CTemplate

open Region

/-- `alignof(void *)` -/
def ptrAlign : ℕ := 8

/-- `Pool.link`, with the address at which the pointer is stored. -/
def Pool.linkTraced (p : Pool) (addr : Ptr) : Option (Pool × List Ptr) :=
  (p.link addr).map fun p => (p, [addr])

/-- `poolThread`, with the addresses at which pointers are stored. -/
def poolThreadTraced : ℕ → Pool → Option (Pool × List Ptr)
  | 0, p => some (p, [])
  | i + 1, p =>
      (p.linkTraced (p.block i)).bind fun (p, trace) =>
        (poolThreadTraced i p).map fun (p, rest) => (p, trace ++ rest)

/-- `pool_init`, with the addresses at which pointers are stored. -/
def poolInitTraced (malloc : MallocAddr) (junk : ℕ → Byte) (blockSize blockCount : UInt64) :
    Option (Except ErrorCode Pool × List Ptr) :=
  if blockCount = 0 then some (.error .invalidArg, [])
  else
    let blockSize := if blockSize < ptrSize then ptrSize else blockSize
    if blockCount > .ofNat sizeMax / blockSize then some (.error .overflow, [])
    else
      let buf := malloc.addr (blockSize * blockCount)
      if buf = nullPtr then some (.error .nomem, [])
      else
        let mem := (List.range (blockSize * blockCount).toNat).map junk
        (poolThreadTraced blockCount.toNat
          { buf, blockSize, blockCount, freeList := nullPtr, mem }).map fun (p, trace) =>
            (.ok p, trace)

/-- `pool_alloc`, with the addresses at which a pointer is loaded. -/
def poolAllocTraced (p : Pool) : Option ((Pool × Ptr) × List Ptr) :=
  if p.freeList = nullPtr then some ((p, nullPtr), [])
  else
    (p.load p.freeList).map fun next => (({ p with freeList := next }, p.freeList), [p.freeList])

/-- `pool_free`, with the addresses at which a pointer is stored. -/
def poolFreeTraced (p : Pool) (ptr : Ptr) : Option (Pool × List Ptr) :=
  if ptr = nullPtr ∨ p.buf = nullPtr then some (p, [])
  else
    let span := p.blockSize * p.blockCount
    if ptr < p.buf ∨ ptr ≥ p.buf + span then some (p, [])
    else if (ptr - p.buf) % p.blockSize ≠ 0 then some (p, [])
    else p.linkTraced ptr

/-- The list of free blocks comes to `a`.  When blocks are freed twice it need not end. -/
def Pool.OnFreeList (p : Pool) (a : Ptr) : Prop :=
  Linked.Visits nonNull p.load (nonNull p.freeList) a

/-- A call that returned, with the addresses at which it stored or loaded a pointer. -/
inductive PoolAccess where
  | alloc (ptr : Ptr) (trace : List Ptr)
  | free (ptr : Ptr) (trace : List Ptr)

/-- The addresses at which a call stored or loaded a pointer. -/
def PoolAccess.trace : PoolAccess → List Ptr
  | .alloc _ trace => trace
  | .free _ trace => trace

/-- A step: `pool_alloc`, `pool_free` of any pointer at all, or bytes are written into a block that
is not free. -/
inductive PoolAccessStep (p : Pool) : Option PoolAccess → Pool → Prop where
  | alloc {q : Pool} {ptr : Ptr} {trace : List Ptr}
      (call : poolAllocTraced p = some ((q, ptr), trace)) :
      PoolAccessStep p (some (.alloc ptr trace)) q
  | free {q : Pool} {ptr : Ptr} {trace : List Ptr} (call : poolFreeTraced p ptr = some (q, trace)) :
      PoolAccessStep p (some (.free ptr trace)) q
  | write {block : Ptr} {offset : ℕ} {xs mem : List Byte} (inside : block ∈ p.blocks)
      (used : ¬p.OnFreeList block) (fit : offset + xs.length ≤ p.blockSize.toNat)
      (call : Buffer.write p.mem (block.toNat - p.buf.toNat + offset) xs = some mem) :
      PoolAccessStep p none { p with mem }

/-- The pool `p` under any calls. -/
def poolAccessMachine (p : Pool) : StateMachine Pool PoolAccess where
  init q := q = p
  step := PoolAccessStep

/-- Every address at which `pool_init`, with the trace `trace`, and the calls of the log stored or
loaded a pointer is aligned for it, and so is every block that was handed out. -/
def RunAligned (trace : List Ptr) (log : List PoolAccess) : Prop :=
  (∀ a ∈ trace ++ log.flatMap PoolAccess.trace, ptrAlign ∣ a.toNat)
    ∧ ∀ ptr trace, .alloc ptr trace ∈ log → ptrAlign ∣ ptr.toNat

/-- There is only one block, or its size keeps the alignment. -/
def KeepsAlignment (blockSize blockCount : UInt64) : Prop :=
  blockCount = 1 ∨ blockSize < ptrSize ∨ ptrAlign ∣ blockSize.toNat

variable {p q : Pool} {ptr : Ptr} {trace : List Ptr}

/-! ### The traces -/

theorem poolAllocTraced_fst (p : Pool) :
  (poolAllocTraced p).map Prod.fst = poolAlloc p
  := by
  rw [poolAllocTraced, poolAlloc]
  split
  · rfl
  · rw [Option.map_map]
    rfl

theorem Pool.linkTraced_fst (p : Pool) (addr : Ptr) :
  (p.linkTraced addr).map Prod.fst = p.link addr
  := by
  rw [linkTraced, Option.map_map]
  apply Option.map_id'

theorem poolFreeTraced_fst (p : Pool) (ptr : Ptr) :
  (poolFreeTraced p ptr).map Prod.fst = poolFree p ptr
  := by
  rw [poolFreeTraced, poolFree]
  dsimp only
  split
  · rfl
  split
  · rfl
  split
  · rfl
  · apply Pool.linkTraced_fst

/-- A block that is linked leaves the blocks where they are. -/
theorem Pool.link_fields (h : p.link ptr = some q) :
  q.buf = p.buf ∧ q.blockSize = p.blockSize ∧ q.blockCount = p.blockCount
  := by
  rw [link, Option.map_eq_some_iff] at h
  obtain ⟨r, hr, rfl⟩ := h
  rw [store, Option.ite_none_right_eq_some] at hr
  obtain ⟨mem, -, rfl⟩ := Option.map_eq_some_iff.mp hr.2
  exact ⟨rfl, rfl, rfl⟩

theorem Pool.block_congr
    (hbuf : q.buf = p.buf) (hsize : q.blockSize = p.blockSize) :
  q.block = p.block
  := by
  funext i
  rw [block, block, hbuf, hsize]

/-- The loop of `pool_init` stores a pointer in every block, from the last one to the first. -/
theorem poolThreadTraced_eq (i : ℕ) (p : Pool) :
  poolThreadTraced i p
    = (poolThread i p).map fun q => (q, ((List.range i).map p.block).reverse)
  := by
  induction i generalizing p with
  | zero => rfl
  | succ i ih =>
      rw [poolThreadTraced, poolThread, Pool.linkTraced]
      cases hlink : p.link (p.block i) with
      | none => rfl
      | some q =>
          obtain ⟨hbuf, hsize, -⟩ := Pool.link_fields hlink
          simp [ih, Pool.block_congr hbuf hsize, List.range_succ, Function.comp_def]

theorem poolThread_fields {i : ℕ} (h : poolThread i p = some q) :
  q.buf = p.buf ∧ q.blockSize = p.blockSize ∧ q.blockCount = p.blockCount
  := by
  induction i generalizing p with
  | zero =>
      cases h
      exact ⟨rfl, rfl, rfl⟩
  | succ i ih =>
      rw [poolThread, Option.bind_eq_some_iff] at h
      obtain ⟨r, hlink, hthread⟩ := h
      obtain ⟨hbuf, hsize, hcount⟩ := Pool.link_fields hlink
      obtain ⟨hbuf', hsize', hcount'⟩ := ih hthread
      exact ⟨hbuf'.trans hbuf, hsize'.trans hsize, hcount'.trans hcount⟩

theorem poolInitTraced_fst
    (malloc : MallocAddr) (junk : ℕ → Byte) (blockSize blockCount : UInt64) :
  (poolInitTraced malloc junk blockSize blockCount).map Prod.fst
    = poolInit malloc junk blockSize blockCount
  := by
  rw [poolInitTraced, poolInit]
  dsimp only
  generalize (if blockSize < ptrSize then ptrSize else blockSize) = size
  split
  · rfl
  split
  · rfl
  split
  · rfl
  · rw [poolThreadTraced_eq, Option.map_map, Option.map_map]
    rfl

/-- A pool that `pool_init` accepts: the pointers are stored in all its blocks, which are of the
raised size and start at an address from `malloc`. -/
theorem poolInitTraced_ok
    {malloc : MallocAddr} {junk : ℕ → Byte} {blockSize blockCount : UInt64}
    (h : poolInitTraced malloc junk blockSize blockCount = some (.ok p, trace)) :
  trace = p.blocks.reverse ∧ maxAlign ∣ p.buf.toNat
    ∧ p.blockSize = (if blockSize < ptrSize then ptrSize else blockSize)
    ∧ p.blockCount = blockCount ∧ 0 < blockCount.toNat
  := by
  rw [poolInitTraced] at h
  dsimp only at h
  generalize (if blockSize < ptrSize then ptrSize else blockSize) = size at h ⊢
  split at h
  · cases h
  case isFalse hcount =>
  split at h
  · cases h
  split at h
  · cases h
  rw [poolThreadTraced_eq, Option.map_map, Option.map_eq_some_iff] at h
  obtain ⟨q, hthread, heq⟩ := h
  cases heq
  obtain ⟨hbuf, hsize, hcount'⟩ := poolThread_fields hthread
  refine ⟨?_, ?_, hsize, hcount', ?_⟩
  · rw [Pool.blocks, Pool.block_congr hbuf hsize, hcount']
  · rw [hbuf]
    apply malloc.dvd_addr
  · apply Nat.pos_of_ne_zero
    intro hzero
    apply hcount
    rw [← UInt64.toNat_inj]
    exact hzero

/-! ### The blocks -/

/-- All blocks are aligned exactly when there is only one or their size keeps the alignment. -/
theorem Pool.Sized.blocks_aligned_iff
    (h : p.Sized) (hbuf : maxAlign ∣ p.buf.toNat) (hcount : 0 < p.blockCount.toNat) :
  (∀ b ∈ p.blocks, ptrAlign ∣ b.toNat)
    ↔ p.blockCount = 1 ∨ ptrAlign ∣ p.blockSize.toNat
  := by
  have hbase : ptrAlign ∣ p.buf.toNat := Nat.dvd_trans (by decide) hbuf
  have hone : p.blockCount = 1 ↔ p.blockCount.toNat = 1 := UInt64.toNat_inj.symm
  rw [hone]
  constructor
  · intro hall
    rw [or_iff_not_imp_left]
    intro hne
    -- the second block starts one size after the first one
    have hsecond : p.block 1 ∈ p.blocks := by
      apply List.mem_map_of_mem
      rw [List.mem_range]
      omega
    have haligned := hall _ hsecond
    rw [h.toNat_block (by omega), Nat.one_mul] at haligned
    apply (Nat.dvd_add_right hbase).mp haligned
  · rintro hcond b hb
    obtain ⟨i, hi, heq⟩ := h.mem_blocks_iff.mp hb
    rw [heq]
    apply Nat.dvd_add hbase
    rcases hcond with hcount' | hsize
    · obtain rfl : i = 0 := by omega
      rw [Nat.zero_mul]
      apply Nat.dvd_zero
    · apply Nat.dvd_mul_left_of_dvd hsize

/-! ### Runs -/

/-- What holds of a pool that was `p` at first, whatever is freed: the list of free blocks comes
only to blocks. -/
structure PoolLinked (p q : Pool) : Prop where
  blocks_eq : q.blocks = p.blocks
  sized : q.Sized
  mem_blocks : ∀ a, q.OnFreeList a → a ∈ p.blocks

/-- The accesses of a call are at blocks, and a block or a null pointer is handed out. -/
def PoolAccess.AtBlocks (p : Pool) (e : PoolAccess) : Prop :=
  (∀ a ∈ e.trace, a ∈ p.blocks)
    ∧ ∀ ptr trace, e = .alloc ptr trace → ptr = nullPtr ∨ ptr ∈ p.blocks

theorem PoolLinked.init (h : p.Sized) (hfree : p.FreeList p.blocks) :
  PoolLinked p p
  where
  blocks_eq := rfl
  sized := h
  mem_blocks _ ha := Linked.Chain.mem_of_visits hfree ha

theorem Pool.Sized.poolFreeTraced_eq (h : p.Sized) (ptr : Ptr) :
  poolFreeTraced p ptr = if p.Stray ptr then some (p, []) else p.linkTraced ptr
  := by
  rw [if_congr (h.stray_iff_tests ptr) rfl rfl, ite_or (ptr = nullPtr ∨ _),
    ite_or (ptr < p.buf ∨ _)]
  rfl

/-- `pool_alloc` returns a null pointer, or the first free block, at which it loads a pointer. -/
theorem PoolLinked.alloc (h : PoolLinked p q) :
  poolAllocTraced q = some ((q, nullPtr), [])
    ∨ ∃ b next, b ∈ p.blocks
      ∧ poolAllocTraced q = some (({ q with freeList := next }, b), [b])
      ∧ PoolLinked p { q with freeList := next }
  := by
  by_cases hnull : q.freeList = nullPtr
  · left
    rw [poolAllocTraced, if_pos hnull]
  · right
    have hhead : q.OnFreeList q.freeList := .head (nonNull_of_ne hnull)
    have hb := h.mem_blocks _ hhead
    obtain ⟨next, hload⟩ := h.sized.exists_load (h.blocks_eq ▸ hb)
    refine ⟨q.freeList, next, hb, ?_, ?_⟩
    · rw [poolAllocTraced, if_neg hnull, hload, Option.map_some]
    · exact
        { h with
          sized := { h.sized with }
          mem_blocks := by
            intro a ha
            apply h.mem_blocks a
            apply Linked.Visits.tail (nonNull_of_ne hnull) hload ha }

/-- `pool_free` ignores a pointer, or stores a pointer in the block that is freed, also when the
block is free already. -/
theorem PoolLinked.free (h : PoolLinked p q) (ptr : Ptr) :
  poolFreeTraced q ptr = some (q, [])
    ∨ ∃ q', ptr ∈ p.blocks ∧ poolFreeTraced q ptr = some (q', [ptr]) ∧ PoolLinked p q'
  := by
  rw [h.sized.poolFreeTraced_eq]
  by_cases hstray : q.Stray ptr
  · left
    rw [if_pos hstray]
  · right
    have hptr : ptr ∈ q.blocks := by rwa [h.sized.stray_iff, not_not] at hstray
    obtain ⟨mem, hstore, hsized, hload, hother⟩ := h.sized.store hptr q.freeList
    have hblock := h.blocks_eq ▸ hptr
    use { q with mem, freeList := ptr }, hblock
    constructor
    · rw [if_neg hstray, Pool.linkTraced, Pool.link, hstore, Option.map_some, Option.map_some]
    · exact
        { h with
          sized := { hsized with }
          mem_blocks := by
            intro a ha
            rw [Pool.OnFreeList, nonNull_of_ne (h.sized.ne_null hptr)] at ha
            rcases Linked.Visits.push hload rfl (fun c hc hvisits =>
              hother c (h.blocks_eq ▸ h.mem_blocks c hvisits) hc) ha with rfl | ha
            · exact hblock
            · apply h.mem_blocks a ha }

/-- Writing into a block that is not free changes no link. -/
theorem PoolLinked.write
    (h : PoolLinked p q) (hptr : ptr ∈ q.blocks) (hused : ¬q.OnFreeList ptr) {offset : ℕ}
    {xs mem : List Byte} (hfit : offset + xs.length ≤ q.blockSize.toNat)
    (hwrite : Buffer.write q.mem (ptr.toNat - q.buf.toNat + offset) xs = some mem) :
  PoolLinked p { q with mem }
  := by
  obtain ⟨mem', hwrite', hsized, hother⟩ := h.sized.write hptr hfit
  obtain rfl := Option.some.inj (hwrite'.symm.trans hwrite)
  exact
    { h with
      sized := hsized
      mem_blocks := by
        intro a ha
        apply h.mem_blocks a
        apply ha.of_heap
        intro b hb
        apply hother b (h.blocks_eq ▸ h.mem_blocks b hb)
        rintro rfl
        apply hused hb }

/-- Every step keeps the list of free blocks among the blocks and accesses only blocks. -/
theorem PoolLinked.step
    (h : PoolLinked p q) {e : Option PoolAccess} {q' : Pool} (hstep : PoolAccessStep q e q') :
  PoolLinked p q' ∧ ∀ e' ∈ e, e'.AtBlocks p
  := by
  cases hstep with
  | alloc call =>
      rcases h.alloc with halloc | ⟨b, next, hb, halloc, h'⟩
      · rw [halloc] at call
        cases call
        use h
        rintro _ ⟨⟩
        constructor
        · simp [PoolAccess.trace]
        · rintro _ _ ⟨⟩
          left
          rfl
      · rw [halloc] at call
        cases call
        use h'
        rintro _ ⟨⟩
        constructor
        · simpa [PoolAccess.trace] using hb
        · rintro _ _ ⟨⟩
          right
          exact hb
  | @free _ ptr _ call =>
      rcases h.free ptr with hfree | ⟨q₁, hptr, hfree, h'⟩
      · rw [hfree] at call
        cases call
        use h
        rintro _ ⟨⟩
        constructor
        · simp [PoolAccess.trace]
        · rintro _ _ ⟨⟩
      · rw [hfree] at call
        cases call
        use h'
        rintro _ ⟨⟩
        constructor
        · simpa [PoolAccess.trace] using hptr
        · rintro _ _ ⟨⟩
  | write inside used fit call =>
      use h.write inside used fit call
      rintro _ ⟨⟩

theorem PoolLinked.of_reaches
    (h : PoolLinked p p) {log : List PoolAccess} (hq : (poolAccessMachine p).Reaches log q) :
  PoolLinked p q ∧ ∀ e ∈ log, e.AtBlocks p
  := by
  apply hq.invariant (I := fun log q => PoolLinked p q ∧ ∀ e ∈ log, e.AtBlocks p)
  · rintro _ rfl
    use h
    simp
  · rintro log q e q' - ⟨hq, hlog⟩ hstep
    obtain ⟨hq', he⟩ := hq.step hstep
    use hq'
    intro e' he'
    rw [List.mem_append, Option.mem_toList] at he'
    rcases he' with he' | he'
    · apply hlog e' he'
    · apply he e' he'

/-- In no state that can be reached does a call follow a pointer out of the buffer. -/
theorem poolCalls_return
    (h : PoolLinked p p) {log : List PoolAccess} (hq : (poolAccessMachine p).Reaches log q) :
  poolAlloc q ≠ none ∧ ∀ ptr, poolFree q ptr ≠ none
  := by
  obtain ⟨hq, -⟩ := h.of_reaches hq
  constructor
  · rw [← poolAllocTraced_fst]
    rcases hq.alloc with halloc | ⟨b, next, -, halloc, -⟩ <;> simp [halloc]
  · intro ptr
    rw [← poolFreeTraced_fst]
    rcases hq.free ptr with hfree | ⟨q', -, hfree, -⟩ <;> simp [hfree]

/-- What a call shows when the addresses are left out. -/
def PoolAccess.event : PoolAccess → BlockPoolEvent
  | .alloc ptr _ => .alloc ptr
  | .free ptr _ => .free ptr

/-- A block in use is not free. -/
theorem PoolInvariant.not_onFreeList
    {s : BlockPoolSystem} (h : PoolInvariant p s) (hptr : ptr ∈ s.inUse) :
  ¬s.pool.OnFreeList ptr
  := by
  intro hvisits
  obtain ⟨nodes, hfree, hperm⟩ := h.free
  have hnodup := hperm.nodup_iff.mpr (h.blocks_eq ▸ h.sized.nodup_blocks)
  exact (List.nodup_append.mp hnodup).2.2 _ (hfree.mem_of_visits hvisits) _ hptr rfl

/-- The programs that free only blocks in use are among those that make any calls. -/
def blockPoolRefinement (h : p.Sized) (hfree : p.FreeList p.blocks) :
    StateMachine.Refinement (blockPoolMachine p) (poolAccessMachine p) where
  label := PoolAccess.event
  rel s q := PoolInvariant p s ∧ q = s.pool
  start := by
    rintro _ rfl
    exact ⟨p, rfl, .init h hfree, rfl⟩
  follow := by
    rintro s e s' _ ⟨hI, rfl⟩ ⟨call, hstep⟩
    have hI' := hI.step hstep
    cases call with
    | alloc =>
      rw [blockPoolStep, ← poolAllocTraced_fst, Option.map_map, Option.map_eq_some_iff] at hstep
      obtain ⟨⟨⟨q, ptr⟩, trace⟩, htraced, heq⟩ := hstep
      cases heq
      exact ⟨_, q, .alloc htraced, rfl, hI', rfl⟩
    | free ptr =>
      rw [blockPoolStep, Option.ite_none_right_eq_some, ← poolFreeTraced_fst, Option.map_map,
        Option.map_eq_some_iff] at hstep
      obtain ⟨-, ⟨q, trace⟩, htraced, heq⟩ := hstep
      cases heq
      exact ⟨_, q, .free htraced, rfl, hI', rfl⟩
    | write block offset xs =>
      rw [blockPoolStep, Option.ite_none_right_eq_some, Option.map_eq_some_iff] at hstep
      obtain ⟨⟨huse, hfit⟩, mem, hwrite, heq⟩ := hstep
      cases heq
      obtain ⟨nodes, -, hperm⟩ := hI.free
      have hblock : block ∈ s.pool.blocks := by
        rw [hI.blocks_eq]
        apply hperm.subset (List.mem_append_right nodes huse)
      exact ⟨none, _, .write hblock (hI.not_onFreeList huse) hfit hwrite, rfl, hI', rfl⟩

/-- What such a program sees, it sees in a run of the pool under any calls as well. -/
theorem exists_poolAccess_run
    (h : p.Sized) (hfree : p.FreeList p.blocks) {log : List BlockPoolEvent} {s : BlockPoolSystem}
    (hs : (blockPoolMachine p).Reaches log s) :
  ∃ log', (poolAccessMachine p).Reaches log' s.pool ∧ log = log'.map PoolAccess.event
  := by
  obtain ⟨log', _, hq, hlog, -, rfl⟩ := (blockPoolRefinement h hfree).reaches hs
  exact ⟨log', hq, hlog⟩

/-- On a pool from `pool_init`, whatever is allocated, freed and written: all addresses at which
pointers are stored or loaded and all blocks that are handed out are aligned for a pointer when
there is only one block or its size keeps the alignment, and otherwise not. -/
theorem poolRun_aligned_iff
    {malloc : MallocAddr} {junk : ℕ → Byte} {blockSize blockCount : UInt64} {p : Pool}
    {trace : List Ptr}
    (hinit : poolInitTraced malloc junk blockSize blockCount = some (.ok p, trace))
    {log : List PoolAccess} {q : Pool} (h : (poolAccessMachine p).Reaches log q) :
  RunAligned trace log ↔ KeepsAlignment blockSize blockCount
  := by
  obtain ⟨rfl, hbuf, hsize, hcount, hpos⟩ := poolInitTraced_ok hinit
  have hok : poolInit malloc junk blockSize blockCount = some (.ok p) := by
    rw [← poolInitTraced_fst, hinit, Option.map_some]
  obtain ⟨hsized, hfree, -⟩ := poolInit_ok hok
  have hblocks : (∀ b ∈ p.blocks, ptrAlign ∣ b.toNat) ↔ KeepsAlignment blockSize blockCount := by
    rw [hsized.blocks_aligned_iff hbuf (hcount ▸ hpos), hcount, hsize, KeepsAlignment]
    apply or_congr Iff.rfl
    split
    case isTrue hlt => apply iff_of_true (by decide) (.inl hlt)
    case isFalse hge => rw [or_iff_right hge]
  obtain ⟨-, hlog⟩ := (PoolLinked.init hsized hfree).of_reaches h
  rw [← hblocks]
  constructor
  · intro haligned b hb
    apply haligned.1 b
    apply List.mem_append_left
    apply List.mem_reverse.mpr hb
  · intro haligned
    constructor
    · intro a ha
      apply haligned
      rcases List.mem_append.mp ha with ha | ha
      · apply List.mem_reverse.mp ha
      · obtain ⟨e, he, ha⟩ := List.mem_flatMap.mp ha
        apply (hlog e he).1 a ha
    · intro ptr trace halloc
      rcases (hlog _ halloc).2 ptr trace rfl with rfl | hptr
      · apply Nat.dvd_zero
      · apply haligned ptr hptr

/-- A pool of two blocks of sixteen bytes, one of which is allocated. -/
theorem poolRun_aligned_sixteen :
  ∃ p trace q, poolInitTraced (.at 4096 64 (by decide) (by decide)) (fun _ => 0) 16 2
      = some (.ok p, trace)
    ∧ (poolAccessMachine p).Reaches [.alloc 4096 [4096]] q
    ∧ RunAligned trace [.alloc 4096 [4096]]
  := by
  have hinit : poolInitTraced (.at 4096 64 (by decide) (by decide)) (fun _ => 0) 16 2
      = some (.ok { twoBlockPool 4096 ([16, 16] ++ List.replicate 30 0) with blockSize := 16 },
        [4112, 4096]) := by
    decide
  have hstep : PoolAccessStep
      { twoBlockPool 4096 ([16, 16] ++ List.replicate 30 0) with blockSize := 16 }
      (some (.alloc 4096 [4096]))
      { twoBlockPool 4112 ([16, 16] ++ List.replicate 30 0) with blockSize := 16 } := by
    apply PoolAccessStep.alloc
    decide
  have hq : (poolAccessMachine _).Reaches _ _ := (StateMachine.Reaches.init rfl).snoc hstep
  have hkeeps : KeepsAlignment 16 2 := by
    right
    right
    decide
  exact ⟨_, _, _, hinit, hq, (poolRun_aligned_iff hinit hq).mpr hkeeps⟩

/-- The second of two blocks of twelve bytes is not aligned for the pointer that is stored in it,
loaded from it and handed out. -/
theorem poolRun_misaligned :
  ∃ p q, poolInitTraced (.at 4096 64 (by decide) (by decide)) (fun _ => 0) 12 2
      = some (.ok p, [4108, 4096])
    ∧ (poolAccessMachine p).Reaches [.alloc 4096 [4096], .alloc 4108 [4108]] q
    ∧ ¬RunAligned [4108, 4096] [.alloc 4096 [4096], .alloc 4108 [4108]]
  := by
  have hinit : poolInitTraced (.at 4096 64 (by decide) (by decide)) (fun _ => 0) 12 2
      = some (.ok { twoBlockPool 4096 ([12, 16] ++ List.replicate 22 0) with blockSize := 12 },
        [4108, 4096]) := by
    decide
  have hfirst : PoolAccessStep
      { twoBlockPool 4096 ([12, 16] ++ List.replicate 22 0) with blockSize := 12 }
      (some (.alloc 4096 [4096]))
      { twoBlockPool 4108 ([12, 16] ++ List.replicate 22 0) with blockSize := 12 } := by
    apply PoolAccessStep.alloc
    decide
  have hsecond : PoolAccessStep
      { twoBlockPool 4108 ([12, 16] ++ List.replicate 22 0) with blockSize := 12 }
      (some (.alloc 4108 [4108]))
      { twoBlockPool 0 ([12, 16] ++ List.replicate 22 0) with blockSize := 12 } := by
    apply PoolAccessStep.alloc
    decide
  have hq : (poolAccessMachine _).Reaches _ _ :=
    ((StateMachine.Reaches.init rfl).snoc hfirst).snoc hsecond
  refine ⟨_, _, hinit, hq, ?_⟩
  intro haligned
  have hdvd := haligned.1 4108 List.mem_cons_self
  revert hdvd
  decide

end CTemplate

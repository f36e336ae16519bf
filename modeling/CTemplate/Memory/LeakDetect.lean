import CTemplate.Core.Memory
import CTemplate.Library.Bindings
import CTemplate.Library.ListSet
import CTemplate.Library.StateMachine
import Mathlib.Data.Finset.Card
import Mathlib.Data.UInt

/-!
# The leak detector

The wrappers of `memory/leak_detect.c` around `malloc`, `calloc`, `realloc` and `free`, which
keep a record of every block.  `leakMachine` calls them in any order; the allocator behind them
returns addresses that are not in use, or null pointers, and a call `realloc(p, 0)` frees `p`
and returns a null pointer.

The records are the blocks that are live, and the counters agree with them, as long as no block
is freed by such a call.
-/

namespace CTemplate

/-! ### The detector -/

/-- `AllocRecord`, without its link. -/
structure AllocRecord where
  ptr : Ptr
  size : UInt64
  file : Ptr
  line : ℤ
  deriving DecidableEq

/-- The static variables of the detector: the list of records from `g_head` on, the number of
allocations and the number of frees. -/
structure LeakDetect where
  head : List AllocRecord
  totalAllocs : UInt64
  totalFrees : UInt64
  deriving DecidableEq

/-- `leak_detect_init` -/
def leakDetectInit : LeakDetect where
  head := []
  totalAllocs := 0
  totalFrees := 0

/-- `record_add`, given whether its call of `malloc` succeeds. -/
def recordAdd (d : LeakDetect) (malloc : Bool) (record : AllocRecord) : LeakDetect :=
  if malloc then { d with head := record :: d.head, totalAllocs := d.totalAllocs + 1 } else d

/-- The records without the first one for the pointer, if there is one. -/
def unlink (ptr : Ptr) : List AllocRecord → Option (List AllocRecord)
  | [] => none
  | record :: rest => if record.ptr = ptr then some rest else (unlink ptr rest).map (record :: ·)

/-- `record_remove` -/
def recordRemove (d : LeakDetect) (ptr : Ptr) : LeakDetect :=
  match unlink ptr d.head with
  | some head => { d with head, totalFrees := d.totalFrees + 1 }
  | none => d

/-- `leak_detect_malloc`, given what its call of `malloc` returns and whether the record can be
allocated: the detector after the call and the pointer returned. -/
def leakDetectMalloc (d : LeakDetect) (size : UInt64) (file : Ptr) (line : ℤ) (block : Ptr)
    (malloc : Bool) : LeakDetect × Ptr :=
  if block ≠ nullPtr then (recordAdd d malloc ⟨block, size, file, line⟩, block)
  else (d, block)

/-- The guard of `leak_detect_calloc` against a product that wraps around. -/
def callocOverflows (count size : UInt64) : Prop :=
  size ≠ 0 ∧ count > .ofNat sizeMax / size

instance (count size : UInt64) : Decidable (callocOverflows count size) := by
  unfold callocOverflows
  infer_instance

/-- `leak_detect_calloc`, given what its call of `calloc` returns. -/
def leakDetectCalloc (d : LeakDetect) (count size : UInt64) (file : Ptr) (line : ℤ)
    (block : Ptr) (malloc : Bool) : LeakDetect × Ptr :=
  if callocOverflows count size then (d, nullPtr)
  else if block ≠ nullPtr then
    (recordAdd d malloc ⟨block, count * size, file, line⟩, block)
  else (d, block)

/-- `leak_detect_realloc`, given what its call of `realloc` returns. -/
def leakDetectRealloc (d : LeakDetect) (ptr : Ptr) (size : UInt64) (file : Ptr) (line : ℤ)
    (newptr : Ptr) (malloc : Bool) : LeakDetect × Ptr :=
  let record := if ptr ≠ nullPtr then d.head.findIdx? (·.ptr = ptr) else none
  if newptr = nullPtr then (d, nullPtr)
  else
    match record with
    | some i => ({ d with head := d.head.set i ⟨newptr, size, file, line⟩ }, newptr)
    | none => (recordAdd d malloc ⟨newptr, size, file, line⟩, newptr)

/-- `leak_detect_free` -/
def leakDetectFree (d : LeakDetect) (ptr : Ptr) : LeakDetect :=
  if ptr = nullPtr then d else recordRemove d ptr

/-- `leak_detect_report` -/
def leakDetectReport (d : LeakDetect) : UInt64 :=
  d.head.foldl (fun leaks _ => leaks + 1) 0

/-! ### The allocator -/

/-- The blocks that are allocated: the size of each, by its address. -/
abbrev LiveBlocks : Type := Finmap fun _ : Ptr => UInt64

/-- The live blocks after `malloc(size)` returned `block`. -/
def heapMalloc (live : LiveBlocks) (size : UInt64) (block : Ptr) : Option LiveBlocks :=
  if block = nullPtr then some live
  else if block ∈ live then none
  else some (live.insert block size)

/-- The live blocks after `realloc(ptr, size)` returned `block`. -/
def heapRealloc (live : LiveBlocks) (ptr : Ptr) (size : UInt64) (block : Ptr) :
    Option LiveBlocks :=
  if ptr = nullPtr then heapMalloc live size block
  else if ptr ∉ live then none
  else if size = 0 then
    if block = nullPtr then some (live.erase ptr) else none
  else if block = nullPtr then some live
  else heapMalloc (live.erase ptr) size block

/-- The live blocks after `free(ptr)`. -/
def heapFree (live : LiveBlocks) (ptr : Ptr) : Option LiveBlocks :=
  if ptr = nullPtr then some live
  else if ptr ∈ live then some (live.erase ptr)
  else none

/-- The detector and the live blocks. -/
structure LeakSystem where
  detect : LeakDetect
  live : LiveBlocks

/-- A call, with what the allocator returns. -/
inductive LeakCall where
  | malloc (size : UInt64) (file : Ptr) (line : ℤ) (block : Ptr)
  | calloc (count size : UInt64) (file : Ptr) (line : ℤ) (block : Ptr)
  | realloc (ptr : Ptr) (size : UInt64) (file : Ptr) (line : ℤ) (block : Ptr)
  | free (ptr : Ptr)
  deriving DecidableEq

/-- The call is `realloc(p, 0)` for a block `p`. -/
def LeakCall.FreesByRealloc : LeakCall → Prop
  | .realloc ptr size _ _ _ => ptr ≠ nullPtr ∧ size = 0
  | _ => False

/-- One call of a wrapper, whose record can be allocated.  A pointer that is passed is null or
a live block. -/
def leakStep (s : LeakSystem) (call : LeakCall) : Option (LeakSystem × Option LeakCall) :=
  match call with
  | .malloc size file line block =>
      (heapMalloc s.live size block).map fun live =>
        (⟨(leakDetectMalloc s.detect size file line block true).1, live⟩, some call)
  | .calloc count size file line block =>
      if callocOverflows count size then
        some (⟨(leakDetectCalloc s.detect count size file line block true).1, s.live⟩, some call)
      else
        (heapMalloc s.live (count * size) block).map fun live =>
          (⟨(leakDetectCalloc s.detect count size file line block true).1, live⟩, some call)
  | .realloc ptr size file line block =>
      (heapRealloc s.live ptr size block).map fun live =>
        (⟨(leakDetectRealloc s.detect ptr size file line block true).1, live⟩, some call)
  | .free ptr =>
      (heapFree s.live ptr).map fun live => (⟨leakDetectFree s.detect ptr, live⟩, some call)

/-- `leak_detect_init` and any calls after it. -/
def leakMachine : StateMachine LeakSystem LeakCall :=
  .ofStep (fun s => s = ⟨leakDetectInit, ∅⟩) leakStep

/-- The block that a record is about, with its size. -/
def AllocRecord.binding (record : AllocRecord) : Ptr × UInt64 :=
  (record.ptr, record.size)

/-- The blocks that the records are about, with their sizes. -/
def LeakDetect.bindings (d : LeakDetect) : List (Ptr × UInt64) :=
  d.head.map AllocRecord.binding

/-- There is one record for each live block, with its size; `leak_detect_report` returns the
number of live blocks, which is also the difference of the counters. -/
structure Accounted (s : LeakSystem) : Prop where
  records : Bindings.Represents s.live s.detect.bindings
  report : (leakDetectReport s.detect).toNat = s.live.keys.card
  balance : (s.detect.totalAllocs - s.detect.totalFrees).toNat = s.live.keys.card

/-! ### The list of records -/

variable {d : LeakDetect} {ptr : Ptr} {records : List AllocRecord} {live live' : LiveBlocks}

/-- Unlinking takes one record for the pointer out of the list. -/
theorem unlink_eq_some {rest : List AllocRecord} (h : unlink ptr records = some rest) :
  ∃ record, record.ptr = ptr ∧ (record :: rest).Perm records
  := by
  induction records generalizing rest with
  | nil => cases h
  | cons record records ih =>
      rw [unlink] at h
      split at h
      case isTrue heq =>
        obtain rfl := Option.some.inj h
        use record, heq
      case isFalse =>
        obtain ⟨rest', hrest, rfl⟩ := Option.map_eq_some_iff.mp h
        obtain ⟨record', heq, hperm⟩ := ih hrest
        use record', heq
        apply (List.Perm.swap record record' rest').trans (hperm.cons record)

theorem unlink_eq_none (h : unlink ptr records = none) :
  ∀ record ∈ records, record.ptr ≠ ptr
  := by
  induction records with
  | nil => simp
  | cons record records ih =>
      rw [unlink] at h
      split at h
      case isTrue => cases h
      case isFalse hne =>
        rw [Option.map_eq_none_iff] at h
        rw [List.forall_mem_cons]
        exact ⟨hne, ih h⟩

/-- The report counts the records. -/
theorem leakDetectReport_eq (d : LeakDetect) :
  leakDetectReport d = .ofNat d.bindings.length
  := by
  rw [leakDetectReport, LeakDetect.bindings, List.length_map]
  have hfold : ∀ (records : List AllocRecord) (n : ℕ),
      records.foldl (fun leaks _ => leaks + 1) (UInt64.ofNat n)
        = .ofNat (n + records.length) := by
    intro records
    induction records with
    | nil => simp
    | cons record records ih =>
        intro n
        have hsucc : UInt64.ofNat n + 1 = .ofNat (n + 1) := by rw [UInt64.ofNat_add]; rfl
        rw [List.foldl_cons, hsucc, ih, List.length_cons]
        congr 1
        omega
  have hzero := hfold d.head 0
  rwa [Nat.zero_add] at hzero

/-- There are fewer blocks than addresses. -/
theorem card_keys_lt (h : nullPtr ∉ live) :
  live.keys.card < 2 ^ 64
  := by
  have himage : (live.keys.image UInt64.toNat).card = live.keys.card := by
    apply Finset.card_image_of_injective
    intro a b
    apply UInt64.toNat_inj.mp
  have hsub : live.keys.image UInt64.toNat ⊆ (Finset.range (2 ^ 64)).erase 0 := by
    intro n hn
    obtain ⟨a, ha, rfl⟩ := Finset.mem_image.mp hn
    rw [Finset.mem_erase, Finset.mem_range]
    use fun hzero => ?_, a.toNat_lt
    have hnull : a = nullPtr := UInt64.toNat_inj.mp hzero
    rw [Finmap.mem_keys, hnull] at ha
    apply h ha
  have hcard := Finset.card_le_card hsub
  rw [himage, Finset.card_erase_of_mem (Finset.mem_range.mpr (by decide)), Finset.card_range]
    at hcard
  omega

/-! ### Keeping the records -/

/-- What holds of the detector while no block is freed by `realloc`. -/
structure LeakInvariant (s : LeakSystem) : Prop where
  nullPtr_not_mem : nullPtr ∉ s.live
  records : Bindings.Represents s.live s.detect.bindings
  balance : s.detect.totalAllocs = s.detect.totalFrees + .ofNat s.live.keys.card

theorem LeakInvariant.accounted {s : LeakSystem} (h : LeakInvariant s) :
  Accounted s
  := by
  have hlt := card_keys_lt h.nullPtr_not_mem
  constructor
  · exact h.records
  · rw [leakDetectReport_eq, ← h.records.card_keys, UInt64.toNat_ofNat', Nat.mod_eq_of_lt hlt]
  · rw [h.balance, add_sub_cancel_left, UInt64.toNat_ofNat', Nat.mod_eq_of_lt hlt]

section Calls

variable {size : UInt64} {file block : Ptr} {line : ℤ}

theorem LeakInvariant.init : LeakInvariant ⟨leakDetectInit, ∅⟩ where
  nullPtr_not_mem := Finmap.notMem_empty
  records := Bindings.represents_empty
  balance := rfl

/-- A new block gets a record. -/
theorem LeakInvariant.add
    (h : LeakInvariant ⟨d, live⟩) (hblock : block ≠ nullPtr) (hnew : block ∉ live)
    (size : UInt64) (file : Ptr) (line : ℤ) :
  LeakInvariant ⟨recordAdd d true ⟨block, size, file, line⟩, live.insert block size⟩
  := by
  have hrecords := h.records.insert hnew size
  have hcard := hrecords.card_keys
  constructor
  · rw [Finmap.mem_insert, not_or]
    exact ⟨hblock.symm, h.nullPtr_not_mem⟩
  · exact hrecords
  · have hbalance := h.balance
    dsimp only at hbalance
    rw [hcard, List.length_cons, ← h.records.card_keys, recordAdd, if_pos rfl]
    dsimp only
    rw [hbalance, add_assoc, UInt64.ofNat_add]
    rfl

/-- What `malloc` can do to the live blocks. -/
theorem heapMalloc_cases (h : heapMalloc live size block = some live') :
  (block = nullPtr ∧ live' = live)
    ∨ (block ≠ nullPtr ∧ block ∉ live ∧ live' = live.insert block size)
  := by
  rw [heapMalloc] at h
  split at h
  case isTrue hnull => exact .inl ⟨hnull, (Option.some.inj h).symm⟩
  case isFalse hne =>
  split at h
  case isTrue => cases h
  case isFalse hnew => exact .inr ⟨hne, hnew, (Option.some.inj h).symm⟩

/-- A call of `malloc` with its record, or one that fails. -/
theorem LeakInvariant.malloc
    (h : LeakInvariant ⟨d, live⟩) (hmalloc : heapMalloc live size block = some live')
    (file : Ptr) (line : ℤ) :
  LeakInvariant ⟨(if block ≠ nullPtr then (recordAdd d true ⟨block, size, file, line⟩, block)
    else (d, block)).1, live'⟩
  := by
  rcases heapMalloc_cases hmalloc with ⟨hnull, rfl⟩ | ⟨hne, hnew, rfl⟩
  · rw [if_neg (not_not.mpr hnull)]
    exact h
  · rw [if_pos hne]
    apply h.add hne hnew

/-- A live block has a record, and the records without it are those of the other blocks. -/
theorem LeakInvariant.unlink
    (h : LeakInvariant ⟨d, live⟩) (hptr : ptr ∈ live) :
  ∃ rest, unlink ptr d.head = some rest
    ∧ Bindings.Represents (live.erase ptr) (rest.map AllocRecord.binding)
  := by
  cases hunlink : CTemplate.unlink ptr d.head with
  | none =>
      have hmem := h.records.mem_iff.mp hptr
      rw [LeakDetect.bindings, List.map_map, List.mem_map] at hmem
      obtain ⟨record, hrecord, heq⟩ := hmem
      exact absurd heq (unlink_eq_none hunlink record hrecord)
  | some rest =>
      obtain ⟨record, rfl, hperm⟩ := unlink_eq_some hunlink
      use rest, rfl
      apply h.records.remove (v := record.size)
      apply hperm.map AllocRecord.binding

/-- A block is freed with its record. -/
theorem LeakInvariant.remove (h : LeakInvariant ⟨d, live⟩) (hptr : ptr ∈ live) :
  LeakInvariant ⟨recordRemove d ptr, live.erase ptr⟩
  := by
  obtain ⟨rest, hunlink, hrest⟩ := h.unlink hptr
  have hcard : live.keys.card = (live.erase ptr).keys.card + 1 := by
    rw [Finmap.keys_erase]
    exact (Finset.card_erase_add_one (Finmap.mem_keys.mpr hptr)).symm
  have hbalance := h.balance
  rw [recordRemove, hunlink]
  constructor
  · rw [Finmap.mem_erase]
    intro hnull
    apply h.nullPtr_not_mem hnull.2
  · exact hrest
  · dsimp only at hbalance ⊢
    rw [hbalance, hcard, UInt64.ofNat_add, add_assoc, add_comm (1 : UInt64)]
    rfl

/-- A block is resized in place or moved, and its record with it. -/
theorem LeakInvariant.resize
    (h : LeakInvariant ⟨d, live⟩) (hptr : ptr ∈ live) (hblock : block ≠ nullPtr)
    (hnew : block ∉ live.erase ptr) (size : UInt64) (file : Ptr) (line : ℤ) :
  LeakInvariant ⟨(leakDetectRealloc d ptr size file line block true).1,
    (live.erase ptr).insert block size⟩
  := by
  have hne : ptr ≠ nullPtr := by
    rintro rfl
    apply h.nullPtr_not_mem hptr
  rw [leakDetectRealloc]
  simp only [if_neg hblock, if_pos hne]
  cases hfind : d.head.findIdx? (·.ptr = ptr) with
  | none =>
      have hmem := h.records.mem_iff.mp hptr
      rw [LeakDetect.bindings, List.map_map, List.mem_map] at hmem
      obtain ⟨record, hrecord, heq⟩ := hmem
      have hnone := List.findIdx?_eq_none_iff.mp hfind record hrecord
      rw [decide_eq_false_iff_not] at hnone
      exact absurd heq hnone
  | some i =>
      obtain ⟨hi, hptr', -⟩ := List.findIdx?_eq_some_iff_getElem.mp hfind
      have hget : d.head[i]? = some d.head[i] := List.getElem?_eq_getElem hi
      rw [decide_eq_true_iff] at hptr'
      obtain ⟨rest, hrest⟩ : ∃ rest, (d.head[i] :: rest).Perm d.head :=
        ⟨d.head.eraseIdx i, List.getElem_cons_eraseIdx_perm hi⟩
      have hset := ListSet.filterMap_set_perm some hget ⟨block, size, file, line⟩
      rw [List.filterMap_some, List.filterMap_some, Option.toList_some, Option.toList_some,
        List.singleton_append, List.singleton_append] at hset
      have hperm : (⟨block, size, file, line⟩ :: rest : List AllocRecord).Perm
          (d.head.set i ⟨block, size, file, line⟩) := by
        apply List.Perm.cons_inv (a := d.head[i])
        apply List.Perm.trans _ hset.symm
        apply (List.Perm.swap _ _ rest).trans (hrest.cons _)
      have herase : Bindings.Represents (live.erase ptr)
          (rest.map AllocRecord.binding) := by
        apply h.records.remove (v := d.head[i].size)
        have hmap := hrest.map AllocRecord.binding
        rwa [List.map_cons, AllocRecord.binding, hptr'] at hmap
      have hinsert := herase.insert hnew size
      have hrecords := hinsert.perm (hperm.map AllocRecord.binding)
      have hbalance := h.balance
      constructor
      · rw [Finmap.mem_insert, Finmap.mem_erase, not_or]
        exact ⟨hblock.symm, fun hnull => h.nullPtr_not_mem hnull.2⟩
      · exact hrecords
      · dsimp only at hbalance ⊢
        rw [hbalance, hrecords.card_keys, h.records.card_keys, LeakDetect.bindings,
          List.length_map, List.length_map, List.length_set]

end Calls

/-! ### Runs -/

variable {s s' : LeakSystem} {call : LeakCall} {e : Option LeakCall}

/-- What the allocator can do when `realloc` does not free a block: nothing, or it resizes a
live block or allocates a new one. -/
theorem LeakInvariant.realloc
    (h : LeakInvariant ⟨d, live⟩) {size : UInt64} {file block : Ptr} {line : ℤ}
    (hrealloc : heapRealloc live ptr size block = some live')
    (hkeep : ¬ (ptr ≠ nullPtr ∧ size = 0)) :
  LeakInvariant ⟨(leakDetectRealloc d ptr size file line block true).1, live'⟩
  := by
  rw [heapRealloc] at hrealloc
  split at hrealloc
  case isTrue hnull =>
    rcases heapMalloc_cases hrealloc with ⟨hblock, rfl⟩ | ⟨hblock, hnew, rfl⟩
    · simp only [leakDetectRealloc, if_pos hblock]
      exact h
    · simp only [leakDetectRealloc, if_neg hblock, if_neg (not_not.mpr hnull)]
      apply h.add hblock hnew
  case isFalse hne =>
  split at hrealloc
  case isTrue => cases hrealloc
  case isFalse hptr =>
  rw [not_not] at hptr
  split at hrealloc
  case isTrue hzero => exact absurd ⟨hne, hzero⟩ hkeep
  case isFalse =>
  split at hrealloc
  case isTrue hblock =>
    obtain rfl := Option.some.inj hrealloc
    simp only [leakDetectRealloc, if_pos hblock]
    exact h
  case isFalse hblock =>
    rcases heapMalloc_cases hrealloc with ⟨hnull, -⟩ | ⟨-, hnew, rfl⟩
    · exact absurd hnull hblock
    · apply h.resize hptr hblock hnew

/-- A step that does not free a block by `realloc` keeps the invariant. -/
theorem LeakInvariant.step
    (h : LeakInvariant s) (hstep : leakStep s call = some (s', e))
    (hcall : ¬ call.FreesByRealloc) :
  LeakInvariant s'
  := by
  obtain ⟨d, live⟩ := s
  cases call with
  | malloc size file line block =>
      obtain ⟨live', hlive, heq⟩ := Option.map_eq_some_iff.mp hstep
      cases heq
      apply h.malloc hlive
  | calloc count size file line block =>
      rw [leakStep] at hstep
      simp only [leakDetectCalloc] at hstep
      split at hstep
      case isTrue => cases hstep; exact h
      case isFalse hfits =>
        obtain ⟨live', hlive, heq⟩ := Option.map_eq_some_iff.mp hstep
        cases heq
        apply h.malloc hlive
  | realloc ptr size file line block =>
      obtain ⟨live', hlive, heq⟩ := Option.map_eq_some_iff.mp hstep
      cases heq
      apply h.realloc hlive hcall
  | free ptr =>
      obtain ⟨live', hlive, heq⟩ := Option.map_eq_some_iff.mp hstep
      cases heq
      rw [heapFree] at hlive
      dsimp only [leakDetectFree] at hlive ⊢
      split at hlive
      case isTrue hnull =>
        obtain rfl := Option.some.inj hlive
        rw [if_pos hnull]
        exact h
      case isFalse hne =>
      split at hlive
      case isTrue hptr =>
        obtain rfl := Option.some.inj hlive
        rw [if_neg hne]
        apply h.remove hptr
      case isFalse => cases hlive

/-- A step shows its call in the log. -/
theorem leakStep_event (hstep : leakStep s call = some (s', e)) :
  e = some call
  := by
  cases call <;> simp only [leakStep] at hstep
  case calloc =>
    split at hstep
    · cases hstep; rfl
    · obtain ⟨_, -, heq⟩ := Option.map_eq_some_iff.mp hstep
      cases heq; rfl
  all_goals
    obtain ⟨_, -, heq⟩ := Option.map_eq_some_iff.mp hstep
    cases heq
    rfl

/-- While no block was freed by `realloc`, the invariant holds. -/
theorem LeakInvariant.of_reaches
    {log : List LeakCall} (h : leakMachine.Reaches log s)
    (hlog : ∀ call ∈ log, ¬ call.FreesByRealloc) :
  LeakInvariant s
  := by
  apply h.invariant
    (I := fun log s => (∀ call ∈ log, ¬ call.FreesByRealloc) → LeakInvariant s) _ _ hlog
  · rintro _ rfl -
    apply LeakInvariant.init
  · rintro log s e s' - hI ⟨call, hstep⟩ hlog
    obtain rfl := leakStep_event hstep
    rw [Option.toList_some, List.forall_mem_append] at hlog
    apply (hI hlog.1).step hstep (hlog.2 call (List.mem_singleton_self call))

/-- A block that is freed by `realloc` keeps its record. -/
theorem not_accounted_of_freesByRealloc
    (h : Accounted s) (hstep : leakStep s call = some (s', e)) (hcall : call.FreesByRealloc) :
  ¬ Accounted s'
  := by
  cases call with
  | malloc => cases hcall
  | calloc => cases hcall
  | free => cases hcall
  | realloc ptr size file line block =>
      obtain ⟨hne, rfl⟩ := hcall
      obtain ⟨live', hlive, heq⟩ := Option.map_eq_some_iff.mp hstep
      cases heq
      rw [heapRealloc, if_neg hne] at hlive
      split at hlive
      case isTrue => cases hlive
      case isFalse hptr =>
      rw [not_not] at hptr
      rw [if_pos rfl] at hlive
      split at hlive
      case isFalse => cases hlive
      case isTrue hblock =>
        obtain rfl := Option.some.inj hlive
        intro hafter
        have hbefore := h.records.card_keys
        have hrecords := hafter.records.card_keys
        simp only [leakDetectRealloc, if_pos hblock] at hrecords
        rw [← hbefore, Finmap.keys_erase] at hrecords
        exact absurd hrecords
          (Nat.ne_of_lt (Finset.card_erase_lt_of_mem (Finmap.mem_keys.mpr hptr)))

/-! ### What the records are worth -/

/-- While no block was freed by `realloc`, the records and the counters are those of the live
blocks; and they are not right after one is. -/
theorem leak_detect_accounts
    {log : List LeakCall} (h : leakMachine.Reaches log s)
    (hlog : ∀ call ∈ log, ¬ call.FreesByRealloc) :
  Accounted s ∧ ∀ call s' e, leakStep s call = some (s', e) →
    (Accounted s' ↔ ¬ call.FreesByRealloc)
  := by
  have hI := LeakInvariant.of_reaches h hlog
  use hI.accounted
  intro call s' e hstep
  constructor
  · intro hafter hcall
    apply not_accounted_of_freesByRealloc hI.accounted hstep hcall hafter
  · intro hcall
    apply (hI.step hstep hcall).accounted

/-- A block of 16 bytes is moved, and another one freed. -/
theorem leak_detect_accounts_run :
  ∃ s : LeakSystem, leakMachine.Reaches
      [.malloc 16 0 1 4096, .calloc 4 8 0 2 8192, .realloc 4096 32 0 3 12288, .free 8192] s
    ∧ Accounted s
  := by
  have hrun : ∃ s : LeakSystem, StateMachine.run leakStep ⟨leakDetectInit, ∅⟩
      [.malloc 16 0 1 4096, .calloc 4 8 0 2 8192, .realloc 4096 32 0 3 12288, .free 8192]
    = some (s, [.malloc 16 0 1 4096, .calloc 4 8 0 2 8192, .realloc 4096 32 0 3 12288,
        .free 8192]) := ⟨_, rfl⟩
  obtain ⟨s, hrun⟩ := hrun
  have hs : leakMachine.Reaches _ s := StateMachine.reaches_of_run rfl hrun
  use s, hs
  apply (leak_detect_accounts hs (by simp [LeakCall.FreesByRealloc])).1

/-- A block of 16 bytes is freed by `realloc(p, 0)`. -/
theorem leak_detect_stale_record :
  ∃ (log : List LeakCall) (s : LeakSystem), leakMachine.Reaches log s ∧ ¬ Accounted s
  := by
  have hrun : ∃ s : LeakSystem, StateMachine.run leakStep ⟨leakDetectInit, ∅⟩
      [.malloc 16 0 1 4096, .realloc 4096 0 0 2 0]
    = some (s, [.malloc 16 0 1 4096, .realloc 4096 0 0 2 0])
      ∧ s.detect.head.length = 1 ∧ s.live.keys.card = 0 := ⟨_, rfl, rfl, rfl⟩
  obtain ⟨s, hrun, hhead, hlive⟩ := hrun
  have hs : leakMachine.Reaches _ s := StateMachine.reaches_of_run rfl hrun
  refine ⟨_, s, hs, ?_⟩
  intro h
  have hcard := h.records.card_keys
  rw [hlive, LeakDetect.bindings, List.length_map, hhead] at hcard
  cases hcard

end CTemplate

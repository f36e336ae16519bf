import CTemplate.Containers.Hash
import CTemplate.Core.Error
import CTemplate.Library.StateMachine

/-!
# The hash map

`HashMap` is the map of `containers/hashmap.c` from strings to pointers: a table of slots
that is searched by linear probing, with tombstones for removed keys.  The functions take
the hash function as a parameter; in the code it is `hash_fnv1a_str`.  A pointer to a slot
is the index of the slot.

The result `none` of a function that could follow a null pointer means that it does.
-/

namespace CTemplate

/-- The fields of `HashMapSlot`. -/
structure HashMapSlot where
  key : Option CString
  value : Ptr
  dead : Bool
  deriving DecidableEq

/-- A slot from `calloc`. -/
def HashMapSlot.zero : HashMapSlot where
  key := none
  value := nullPtr
  dead := false

/-- `sizeof(HashMapSlot)`. -/
def HashMapSlot.size : ℕ := 24

/-- The fields of `HashMap`.  The array of no slots is the null pointer. -/
structure HashMap where
  slots : List HashMapSlot
  cap : ℕ
  len : ℕ
  used : ℕ
  deriving DecidableEq

/-- `HASHMAP_INITIAL_CAP`. -/
def hashmapInitialCap : ℕ := 16

/-- `hashmap_init`, given the outcome of its call of `calloc`. -/
def hashmapInit (calloc : Calloc) : Except ErrorCode HashMap :=
  if calloc.grants hashmapInitialCap HashMapSlot.size then
    .ok {
      slots := List.replicate hashmapInitialCap .zero
      cap := hashmapInitialCap
      len := 0
      used := 0 }
  else .error .nomem

/-- The loop of `probe` with `steps` steps to go, at the slot `i`. -/
def probeFrom (slots : List HashMapSlot) (cap : ℕ) (key : CString) :
    (steps i : ℕ) → (firstTombstone : Option ℕ) → Option ℕ
  | 0, _, firstTombstone => firstTombstone
  | steps + 1, i, firstTombstone =>
      match slots[i]? with
      | none => none
      | some s =>
          match s.key with
          | none => some (firstTombstone.getD i)
          | some k =>
              if s.dead then
                probeFrom slots cap key steps ((i + 1) &&& (cap - 1))
                  (some (firstTombstone.getD i))
              else if k = key then some i
              else probeFrom slots cap key steps ((i + 1) &&& (cap - 1)) firstTombstone

variable (hash : CString → UInt64)

/-- `probe`: the slot of the key if it is present, otherwise the first free slot. -/
def probe (slots : List HashMapSlot) (cap : ℕ) (key : CString) : Option ℕ :=
  probeFrom slots cap key cap ((hash key).toNat &&& (cap - 1)) none

/-- The body of the loop of `rehash`, which moves a live slot to the new table. -/
def rehashSlot (newCap : ℕ) (fresh : List HashMapSlot) (s : HashMapSlot) :
    Option (List HashMapSlot) :=
  match s.key with
  | none => some fresh
  | some key =>
      if s.dead then some fresh
      else
        match probe hash fresh newCap key with
        | none => none
        | some i => some (fresh.modify i fun dst => { dst with key, value := s.value })

/-- `rehash`, given the outcome of its call of `calloc`. -/
def rehash (m : HashMap) (calloc : Calloc) (newCap : ℕ) : Option (HashMap × ErrorCode) :=
  if calloc.grants newCap HashMapSlot.size then
    match m.slots.foldlM (rehashSlot hash newCap) (List.replicate newCap .zero) with
    | none => none
    | some fresh => some ({ slots := fresh, cap := newCap, len := m.len, used := m.len }, .ok)
  else some (m, .nomem)

/-- The part of `hashmap_put` that keeps the load factor. -/
def hashmapGrow (m : HashMap) (calloc : Calloc) : Option (HashMap × ErrorCode) :=
  if m.used > sizeMax / 4 - 1 then some (m, .overflow)
  else if toSize ((m.used + 1) * 4) > toSize (m.cap * 3) then
    if m.cap > sizeMax / 2 then some (m, .overflow)
    else rehash hash m calloc (m.cap * 2)
  else some (m, .ok)

/-- The part of `hashmap_put` from its call of `probe` on, given whether `strdup`
succeeds. -/
def hashmapStore (m : HashMap) (key : CString) (value : Ptr) (strdup : Bool) :
    Option (HashMap × ErrorCode) :=
  match probe hash m.slots m.cap key with
  | none => none
  | some i =>
      match m.slots[i]? with
      | none => none
      | some s =>
          if s.key.isSome && !s.dead then
            some ({ m with slots := m.slots.set i { s with value } }, .ok)
          else if !strdup then some (m, .nomem)
          else
            some ({ m with
              slots := m.slots.set i { key, value, dead := false }
              len := m.len + 1
              -- a tombstone that is used again was counted before
              used := if s.key.isNone then m.used + 1 else m.used }, .ok)

/-- `hashmap_put`, given the outcomes of its calls of `calloc` and `strdup`. -/
def hashmapPut (m : HashMap) (key : Option CString) (value : Ptr) (calloc : Calloc)
    (strdup : Bool) : Option (HashMap × ErrorCode) :=
  match key with
  | none => some (m, .invalidArg)
  | some key =>
      if m.slots = [] then some (m, .invalidArg)
      else
        match hashmapGrow hash m calloc with
        | none => none
        | some (m, .ok) => hashmapStore hash m key value strdup
        | some (m, err) => some (m, err)

/-- `find_live`: the live slot for the key. -/
def findLive (m : HashMap) (key : Option CString) : Option ℕ :=
  match key with
  | none => none
  | some key =>
      if m.slots = [] then none
      else
        match probe hash m.slots m.cap key with
        | none => none
        | some i =>
            match m.slots[i]? with
            | none => none
            | some s => if s.key.isSome && !s.dead then some i else none

/-- `hashmap_get`. -/
def hashmapGet (m : HashMap) (key : Option CString) : Ptr :=
  match findLive hash m key with
  | none => nullPtr
  | some i => (m.slots[i]?.map HashMapSlot.value).getD nullPtr

/-- `hashmap_contains`. -/
def hashmapContains (m : HashMap) (key : Option CString) : Bool :=
  (findLive hash m key).isSome

/-- `hashmap_remove`. -/
def hashmapRemove (m : HashMap) (key : Option CString) : HashMap × ErrorCode :=
  if m.slots = [] ∨ key = none then (m, .invalidArg)
  else
    match findLive hash m key with
    | none => (m, .notFound)
    | some i =>
        ({ m with
          slots := m.slots.modify i fun s => { s with dead := true, value := nullPtr }
          len := m.len - 1 }, .ok)

/-- `hashmap_len`. -/
def hashmapLen (m : HashMap) : ℕ := m.len

/-! ### Iterating -/

/-- `HashMapIter` -/
structure HashMapIter where
  idx : ℕ
  deriving DecidableEq

/-- The loop of `hashmap_next` with `steps` slots to go, at the slot `idx`: the entry produced, if
any, and the iterator.  The result `none` means that it leaves the array. -/
def nextFrom (slots : List HashMapSlot) :
    (steps idx : ℕ) → Option (Option (CString × Ptr) × HashMapIter)
  | 0, idx => some (none, ⟨idx⟩)
  | steps + 1, idx =>
      match slots[idx]? with
      | none => none
      | some s =>
          match s.key with
          | none => nextFrom slots steps (idx + 1)
          | some key =>
              if s.dead then nextFrom slots steps (idx + 1)
              else some (some (key, s.value), ⟨idx + 1⟩)

/-- `hashmap_next`, for an iterator that is not a null pointer: the entry produced, or none when
it returns false, and the iterator after the call. -/
def hashmapNext (m : HashMap) (it : HashMapIter) :
    Option (Option (CString × Ptr) × HashMapIter) :=
  if m.slots = [] then some (none, it) else nextFrom m.slots (m.cap - it.idx) it.idx

/-- What `n` calls of `hashmap_next` one after another produce. -/
def hashmapIterate (m : HashMap) : ℕ → HashMapIter → Option (List (Option (CString × Ptr)))
  | 0, _ => some []
  | n + 1, it =>
      match hashmapNext m it with
      | none => none
      | some (entry, it) => (hashmapIterate m n it).map (entry :: ·)

/-! ### Sequences of calls -/

/-- A call on a map, with the outcomes of the allocations it makes. -/
inductive HashMapCall where
  | put (key : Option CString) (value : Ptr) (calloc : Calloc) (strdup : Bool)
  | get (key : Option CString)
  | contains (key : Option CString)
  | remove (key : Option CString)
  | len

/-- What a call returned. -/
inductive HashMapResult where
  | code (code : ErrorCode)
  | value (value : Ptr)
  | found (found : Bool)
  | count (n : ℕ)
  deriving DecidableEq

/-- One call on a map. -/
def hashmapStep (m : HashMap) : HashMapCall → Option (HashMap × Option HashMapResult)
  | .put key value calloc strdup =>
      match hashmapPut hash m key value calloc strdup with
      | none => none
      | some (m, code) => some (m, some (.code code))
  | .get key => some (m, some (.value (hashmapGet hash m key)))
  | .contains key => some (m, some (.found (hashmapContains hash m key)))
  | .remove key =>
      let (m, code) := hashmapRemove hash m key
      some (m, some (.code code))
  | .len => some (m, some (.count (hashmapLen m)))

/-- A sequence of calls on a map, with what they return. -/
def hashmapRun (m : HashMap) (calls : List HashMapCall) :
    Option (HashMap × List HashMapResult) :=
  StateMachine.run (hashmapStep hash) m calls

end CTemplate

import CTemplate.Containers.HashMap.Dictionary

/-!
# Iterating over the hash map

`hashmap_next` goes through the slots in their order and produces the live ones, `livePairs`.
When it is called again and again on a map reached by any calls, it produces every entry of the
dictionary that the map stands for once, and then no more.

A call of `hashmap_put` that fails changes nothing of this, nor of what the other functions
return, although it may have moved the entries to a larger table before.
-/

namespace CTemplate

open Probing

variable {hash : CString → UInt64} {m m' : HashMap} {d : Dictionary}

/-! ### The entries of a table -/

/-- The entry of a slot that is live. -/
def HashMapSlot.entry (s : HashMapSlot) : Option (CString × Ptr) :=
  match s.key with
  | none => none
  | some key => if s.dead then none else some (key, s.value)

/-- The entries of the live slots, in the order of the slots. -/
def livePairs (slots : List HashMapSlot) : List (CString × Ptr) :=
  slots.filterMap HashMapSlot.entry

/-- The entry of a slot is that of its cell. -/
theorem HashMapSlot.entry_eq_some_iff {s : HashMapSlot} {k : CString} {v : Ptr} :
  s.entry = some (k, v) ↔ s.cell = .live k v
  := by
  obtain ⟨key, value, dead⟩ := s
  cases key with
  | none => simp [entry, cell]
  | some key => cases dead <;> simp [entry, cell]

theorem HashMapSlot.isSome_entry (s : HashMapSlot) :
  s.entry.isSome = s.cell.isLive
  := by
  obtain ⟨key, value, dead⟩ := s
  cases key with
  | none => rfl
  | some key => cases dead <;> rfl

/-- The entries are what the map holds. -/
theorem mem_livePairs_iff {k : CString} {v : Ptr} :
  (k, v) ∈ livePairs m.slots ↔ Holds m k v
  := by
  simp [livePairs, Holds, cellsOf, HashMapSlot.entry_eq_some_iff]

/-- There are as many entries as `hashmap_len` returns. -/
theorem HashMapInv.length_livePairs (h : HashMapInv hash m) :
  (livePairs m.slots).length = hashmapLen m
  := by
  rw [hashmapLen, h.len_eq, cellsOf, List.countP_map, livePairs, List.length_filterMap_eq_countP]
  apply List.countP_congr
  intro s _
  rw [Function.comp_apply, HashMapSlot.isSome_entry]

/-- No key is in two entries. -/
theorem HashMapInv.nodup_livePairs (h : HashMapInv hash m) :
  ((livePairs m.slots).map Prod.fst).Nodup
  := by
  have hdistinct := distinctKeys_of_wellFormed h.wellFormed
  rw [DistinctKeys, cellsOf, List.pairwise_map] at hdistinct
  rw [List.Nodup, List.pairwise_map, livePairs, List.pairwise_filterMap]
  apply hdistinct.imp
  rintro s s' hne ⟨k, v⟩ hentry ⟨k', v'⟩ hentry' hk
  obtain rfl : k = k' := hk
  apply hne k v v' (HashMapSlot.entry_eq_some_iff.mp hentry)
    (HashMapSlot.entry_eq_some_iff.mp hentry')

/-! ### Successive calls -/

/-- The loop of `hashmap_next` produces the first entry of the slots that are left, and leaves the
others. -/
theorem nextFrom_eq {slots : List HashMapSlot} {steps idx : ℕ} (h : idx + steps = slots.length) :
  ∃ it, nextFrom slots steps idx = some ((livePairs (slots.drop idx)).head?, it)
    ∧ it.idx ≤ slots.length
    ∧ livePairs (slots.drop it.idx) = (livePairs (slots.drop idx)).tail
  := by
  induction steps generalizing idx with
  | zero =>
    have hnil : livePairs (slots.drop idx) = [] := by
      rw [List.drop_eq_nil_of_le (by omega)]
      rfl
    rw [nextFrom, hnil]
    exact ⟨⟨idx⟩, rfl, by simp only; omega, hnil⟩
  | succ steps ih =>
    have hlt : idx < slots.length := by
      omega
    have hnext : idx + 1 + steps = slots.length := by
      omega
    obtain ⟨it, hnext, hle, htail⟩ := ih hnext
    rw [nextFrom, List.getElem?_eq_getElem hlt, List.drop_eq_getElem_cons hlt]
    obtain ⟨key, value, dead⟩ := slots[idx]
    cases key with
    | none => exact ⟨it, hnext, hle, htail⟩
    | some key =>
      cases dead with
      | true => exact ⟨it, hnext, hle, htail⟩
      | false => exact ⟨⟨idx + 1⟩, rfl, hlt, rfl⟩

/-- The `i`-th of the calls of `hashmap_next` produces the `i`-th of the entries that are left, and
nothing when there are not so many. -/
theorem HashMapInv.iterate
    (h : HashMapInv hash m) (n : ℕ) {it : HashMapIter} (hit : it.idx ≤ m.cap) :
  hashmapIterate m n it
    = some ((List.range n).map fun i => (livePairs (m.slots.drop it.idx))[i]?)
  := by
  induction n generalizing it with
  | zero => rfl
  | succ n ih =>
    have hleft : it.idx + (m.cap - it.idx) = m.slots.length := by
      rw [h.length_slots]
      omega
    obtain ⟨it', hnext, hle, htail⟩ := nextFrom_eq hleft
    rw [h.length_slots] at hle
    rw [hashmapIterate, hashmapNext, if_neg h.slots_ne_nil, hnext]
    simp only
    rw [ih hle, htail, List.range_succ_eq_map, List.map_cons, List.map_map, Option.map_some,
      List.head?_eq_getElem?]
    simp [Function.comp_def]

/-! ### Maps reached by calls -/

/-- The dictionary after calls that returned these results: a call that returned `ERR_NOMEM` did
nothing. -/
def dictionaryAfter (d : Dictionary) (calls : List (HashMapCall × HashMapResult)) : Dictionary :=
  calls.foldl
    (fun d call => if call.2 = .code .nomem then d else (dictionaryCall d call.1).1) d

theorem dictionaryCall_ne_nomem (d : Dictionary) (call : HashMapCall) :
  (dictionaryCall d call).2 ≠ .code .nomem
  := by
  cases call with
  | put key => cases key <;> simp [dictionaryCall]
  | get key => cases key <;> simp [dictionaryCall]
  | contains key => cases key <;> simp [dictionaryCall]
  | remove key =>
    cases key with
    | none => simp [dictionaryCall]
    | some key =>
      rw [dictionaryCall]
      split <;> simp
  | len => simp [dictionaryCall]

/-- A map reached by calls stands for the dictionary that the calls lead to. -/
theorem HashMapRepr.runAfter (h : HashMapRepr hash m d) (calls : List HashMapCall) :
  ∃ m' results, hashmapRun hash m calls = some (m', results)
    ∧ HashMapRepr hash m' (dictionaryAfter d (calls.zip results))
  := by
  induction calls generalizing m d with
  | nil => exact ⟨m, [], rfl, h⟩
  | cons call calls ih =>
    obtain ⟨m₁, result, hstep, hcase⟩ := h.step call
    have h₁ : HashMapRepr hash m₁
        (if result = .code .nomem then d else (dictionaryCall d call).1) := by
      split
      case isTrue hnomem =>
        rcases hcase with ⟨-, h₁⟩ | ⟨hresult, h₁⟩
        · exact h₁
        · rw [hresult] at hnomem
          exact absurd hnomem (dictionaryCall_ne_nomem d call)
      case isFalse hok =>
        rcases hcase with ⟨hnomem, -⟩ | ⟨-, h₁⟩
        · exact absurd hnomem hok
        · exact h₁
    obtain ⟨m₂, results, hrun, h₂⟩ := ih h₁
    refine ⟨m₂, result :: results, ?_, h₂⟩
    rw [hashmapRun, StateMachine.run_cons_iff]
    exact ⟨m₁, some result, results, hstep, hrun, rfl⟩

/-- The entries that a map holds are those that its functions return. -/
theorem HashMapRepr.holds_iff (h : HashMapRepr hash m d) (k : CString) (v : Ptr) :
  Holds m k v ↔ hashmapContains hash m (some k) = true ∧ hashmapGet hash m (some k) = v
  := by
  rw [← h.lookup_iff, (h.find k).1, (h.find k).2, decide_eq_true_iff, Finmap.mem_iff]
  constructor
  · intro hlookup
    rw [hlookup]
    exact ⟨⟨v, rfl⟩, rfl⟩
  · rintro ⟨⟨v', hlookup⟩, hget⟩
    rw [hlookup, Option.getD_some] at hget
    rw [hlookup, hget]

/-- On a map reached by any calls from `hashmap_init`, the calls of `hashmap_next` from a zeroed
iterator on produce every entry of the dictionary that the calls lead to once, and nothing
more.  These are the entries that `hashmap_contains` and `hashmap_get` find, and there are as many
as `hashmap_len` returns. -/
theorem hashmapIterate_eq
    (hash : CString → UInt64) {calloc : Calloc} {m : HashMap} (hinit : hashmapInit calloc = .ok m)
    (calls : List HashMapCall) :
  ∃ m' results, ∃ entries : List (CString × Ptr), hashmapRun hash m calls = some (m', results)
    ∧ (∀ n, hashmapIterate m' n ⟨0⟩ = some ((List.range n).map (entries[·]?)))
    ∧ (entries.map Prod.fst).Nodup
    ∧ (∀ k v, (k, v) ∈ entries ↔ (dictionaryAfter ∅ (calls.zip results)).lookup k = some v)
    ∧ (∀ k v, (k, v) ∈ entries ↔
        hashmapContains hash m' (some k) = true ∧ hashmapGet hash m' (some k) = v)
    ∧ entries.length = hashmapLen m'
  := by
  obtain ⟨m', results, hrun, h⟩ := (HashMapRepr.init hash hinit).runAfter calls
  refine ⟨m', results, livePairs m'.slots, hrun, ?_, h.inv.nodup_livePairs, ?_, ?_,
    h.inv.length_livePairs⟩
  · intro n
    apply h.inv.iterate n (Nat.zero_le _)
  · intro k v
    rw [mem_livePairs_iff, h.lookup_iff]
  · intro k v
    rw [mem_livePairs_iff, h.holds_iff]

/-- The map that `hashmap_init` makes. -/
def hashmapFresh : HashMap where
  slots := List.replicate hashmapInitialCap .zero
  cap := hashmapInitialCap
  len := 0
  used := 0

/-- Two keys are put and the first one is removed. -/
def removalCalls : List HashMapCall :=
  [.put (some ⟨[97], by decide⟩) 5 (.upTo 0 (by decide)) true,
    .put (some ⟨[98], by decide⟩) 7 (.upTo 0 (by decide)) true,
    .remove (some ⟨[97], by decide⟩)]

/-- With the hash function of the code, the first of three calls of `hashmap_next` produces the
entry that is left. -/
theorem hashmapIterate_eq_removal :
  ∃ m' results, hashmapInit (.upTo 384 (by decide)) = .ok hashmapFresh
    ∧ hashmapRun (fun key => hashFnv1aStr (some key)) hashmapFresh removalCalls
      = some (m', results)
    ∧ hashmapIterate m' 3 ⟨0⟩ = some [some (⟨[98], by decide⟩, 7), none, none]
    ∧ hashmapLen m' = 1
  := by
  have hinit : hashmapInit (.upTo 384 (by decide)) = .ok hashmapFresh := rfl
  obtain ⟨m', results, entries, hrun, -, -, -, -, hlength⟩ := hashmapIterate_eq
    (fun key => hashFnv1aStr (some key)) hinit removalCalls
  have hproduced : (hashmapRun (fun key => hashFnv1aStr (some key)) hashmapFresh removalCalls).bind
      (fun run => hashmapIterate run.1 3 ⟨0⟩) = some [some (⟨[98], by decide⟩, 7), none, none] := by
    rfl
  have hlen : (hashmapRun (fun key => hashFnv1aStr (some key)) hashmapFresh removalCalls).map
      (fun run => hashmapLen run.1) = some 1 := by
    rfl
  rw [hrun] at hproduced hlen
  exact ⟨m', results, hinit, hrun, hproduced, Option.some.inj hlen⟩

/-! ### Failed calls -/

/-- The entries that an iteration over the map produces. -/
def hashmapEntries (m : HashMap) : Set (CString × Ptr) :=
  { entry | ∃ n produced, hashmapIterate m n ⟨0⟩ = some produced ∧ some entry ∈ produced }

/-- An iteration produces what the map holds. -/
theorem HashMapInv.mem_hashmapEntries_iff (h : HashMapInv hash m) {k : CString} {v : Ptr} :
  (k, v) ∈ hashmapEntries m ↔ Holds m k v
  := by
  rw [← mem_livePairs_iff]
  constructor
  · rintro ⟨n, produced, hproduced, hmem⟩
    rw [h.iterate n (Nat.zero_le _)] at hproduced
    obtain rfl := Option.some.inj hproduced
    obtain ⟨i, -, hi⟩ := List.mem_map.mp hmem
    apply List.mem_of_getElem? hi
  · intro hmem
    obtain ⟨i, hi⟩ := List.getElem?_of_mem hmem
    refine ⟨i + 1, _, h.iterate (i + 1) (Nat.zero_le _), ?_⟩
    rw [List.mem_map]
    exact ⟨i, List.mem_range.mpr i.lt_succ_self, hi⟩

/-- The functions return the same on maps that stand for one dictionary. -/
theorem HashMapRepr.find_congr
    (h : HashMapRepr hash m d) (h' : HashMapRepr hash m' d) (key : Option CString) :
  hashmapGet hash m' key = hashmapGet hash m key
    ∧ hashmapContains hash m' key = hashmapContains hash m key
  := by
  cases key with
  | none => exact ⟨rfl, rfl⟩
  | some key =>
    rw [(h.find key).1, (h.find key).2, (h'.find key).1, (h'.find key).2]
    exact ⟨rfl, rfl⟩

/-- On a map reached by any calls from `hashmap_init`, a call of `hashmap_put` keeps the invariant.
When it does not return `ERR_OK`, it changes nothing of what the other functions return and of what
an iteration produces. -/
theorem hashmapPut_failed
    (hash : CString → UInt64) {calloc : Calloc} {m : HashMap} (hinit : hashmapInit calloc = .ok m)
    (calls : List HashMapCall) (key : Option CString) (value : Ptr) (callocPut : Calloc)
    (strdup : Bool) :
  ∃ m' results m'' code, hashmapRun hash m calls = some (m', results)
    ∧ hashmapPut hash m' key value callocPut strdup = some (m'', code)
    ∧ HashMapInv hash m''
    ∧ (code ≠ .ok →
        (∀ k, hashmapGet hash m'' k = hashmapGet hash m' k
          ∧ hashmapContains hash m'' k = hashmapContains hash m' k)
        ∧ hashmapLen m'' = hashmapLen m'
        ∧ hashmapEntries m'' = hashmapEntries m')
  := by
  obtain ⟨m', results, hrun, h⟩ := (HashMapRepr.init hash hinit).runAfter calls
  cases key with
  | none =>
    refine ⟨m', results, m', .invalidArg, hrun, rfl, h.inv, ?_⟩
    intro _
    exact ⟨fun k => ⟨rfl, rfl⟩, rfl, rfl⟩
  | some key =>
    obtain ⟨m'', code, hput, h'', hcase⟩ := h.inv.put key value callocPut strdup
    refine ⟨m', results, m'', code, hrun, hput, h'', ?_⟩
    intro hfailed
    rcases hcase with ⟨-, hholds, hlen⟩ | ⟨hok, -⟩
    · have hsame : HashMapRepr hash m'' (dictionaryAfter ∅ (calls.zip results)) :=
        { inv := h''
          lookup_iff := by
            intro k v
            rw [hholds, h.lookup_iff]
          len_eq := by rw [hlen, h.len_eq] }
      refine ⟨h.find_congr hsame, hlen, ?_⟩
      ext ⟨k, v⟩
      rw [h''.mem_hashmapEntries_iff, h.inv.mem_hashmapEntries_iff, hholds]
    · exact absurd hok hfailed

/-- A key of one letter. -/
def oneLetter (c : Byte) : Option CString :=
  if h : 0 ∉ [c] then some ⟨[c], h⟩ else none

/-- Twelve keys are put, after which the load limit is reached. -/
def fillCalls : List HashMapCall :=
  [97, 98, 99, 100, 101, 102, 103, 104, 105, 106, 107, 108].map fun c =>
    .put (oneLetter c) 1 (.upTo 0 (by decide)) true

/-- With the hash function of the code, putting a thirteenth key fails after the entries have been
moved to a larger table. -/
theorem hashmapPut_failed_fill :
  ∃ m' results m'', hashmapInit (.upTo 384 (by decide)) = .ok hashmapFresh
    ∧ hashmapRun (fun key => hashFnv1aStr (some key)) hashmapFresh fillCalls = some (m', results)
    ∧ hashmapPut (fun key => hashFnv1aStr (some key)) m' (oneLetter 109) 1
        (.upTo 768 (by decide)) false = some (m'', .nomem)
    ∧ m'.cap = 16 ∧ m''.cap = 32 ∧ hashmapLen m'' = hashmapLen m'
    ∧ hashmapEntries m'' = hashmapEntries m'
  := by
  have hinit : hashmapInit (.upTo 384 (by decide)) = .ok hashmapFresh := rfl
  obtain ⟨m', results, m'', code, hrun, hput, -, hfailed⟩ := hashmapPut_failed
    (fun key => hashFnv1aStr (some key)) hinit fillCalls (oneLetter 109) 1
    (.upTo 768 (by decide)) false
  have hvalues : (hashmapRun (fun key => hashFnv1aStr (some key)) hashmapFresh fillCalls).bind
      (fun run => (hashmapPut (fun key => hashFnv1aStr (some key)) run.1 (oneLetter 109) 1
        (.upTo 768 (by decide)) false).map fun put => (run.1.cap, put.1.cap, put.2))
      = some (16, 32, .nomem) := by
    rfl
  rw [hrun, Option.bind_some, hput, Option.map_some] at hvalues
  obtain ⟨hcap, hcap', rfl⟩ : m'.cap = 16 ∧ m''.cap = 32 ∧ code = .nomem := by
    simpa using hvalues
  obtain ⟨-, hlen, hentries⟩ := hfailed (by decide)
  exact ⟨m', results, m'', hinit, hrun, hput, hcap, hcap', hlen, hentries⟩

end CTemplate

import CTemplate.Containers.HashMap.Operations
import Mathlib.Data.Finmap

/-!
# The hash map as a dictionary

A dictionary is a finite map from strings to pointers.  A map from `hashmap_init` behaves
like a dictionary: whatever calls are made and however the hashes of the keys collide,
the calls return what the same calls on a dictionary return, as long as no call fails for
want of memory.
-/

namespace CTemplate

/-- A finite map from strings to pointers. -/
abbrev Dictionary : Type := Finmap fun _ : CString => Ptr

/-- What a call does to a dictionary, and what it returns. -/
def dictionaryCall (d : Dictionary) : HashMapCall → Dictionary × HashMapResult
  | .put none _ _ _ => (d, .code .invalidArg)
  | .put (some key) value _ _ => (d.insert key value, .code .ok)
  | .get none => (d, .value nullPtr)
  | .get (some key) => (d, .value ((d.lookup key).getD nullPtr))
  | .contains none => (d, .found false)
  | .contains (some key) => (d, .found (key ∈ d))
  | .remove none => (d, .code .invalidArg)
  | .remove (some key) =>
      if key ∈ d then (d.erase key, .code .ok) else (d, .code .notFound)
  | .len => (d, .count d.keys.card)

/-- What a sequence of calls on a dictionary returns. -/
def dictionaryRun (d : Dictionary) : List HashMapCall → List HashMapResult
  | [] => []
  | call :: calls => (dictionaryCall d call).2 :: dictionaryRun (dictionaryCall d call).1 calls

/-- The allocations that a call may make succeed: a table of twice the capacity and a copy
of the key. -/
def HashMapCall.allocates (m : HashMap) : HashMapCall → Bool
  | .put _ _ calloc strdup => calloc.grants (m.cap * 2) HashMapSlot.size && strdup
  | _ => true

/-- The allocations that the calls of a sequence may make succeed. -/
def allocatesAll (hash : CString → UInt64) (m : HashMap) : List HashMapCall → Bool
  | [] => true
  | call :: calls =>
      call.allocates m &&
        match hashmapStep hash m call with
        | none => true
        | some (m, _) => allocatesAll hash m calls

variable {hash : CString → UInt64} {m m' : HashMap} {d : Dictionary} {key : CString}

/-! ### Failures -/

theorem hashmapGrow_ne_nomem
    {calloc : Calloc} (hgrants : calloc.grants (m.cap * 2) HashMapSlot.size = true) :
  hashmapGrow hash m calloc ≠ some (m', .nomem)
  := by
  unfold hashmapGrow
  split
  · simp
  · split
    · split
      · simp
      · rw [rehash, if_pos hgrants]
        split <;> simp
    · simp

theorem hashmapStore_ne_nomem {value : Ptr} :
  hashmapStore hash m key value true ≠ some (m', .nomem)
  := by
  unfold hashmapStore
  split
  · simp
  · split
    · simp
    · split <;> simp

/-- A call fails for want of memory only if one of its allocations fails. -/
theorem hashmapStep_ne_nomem {call : HashMapCall} (h : call.allocates m = true) :
  hashmapStep hash m call ≠ some (m', some (.code .nomem))
  := by
  cases call with
  | put key value calloc strdup =>
      rw [HashMapCall.allocates, Bool.and_eq_true] at h
      obtain ⟨hgrants, rfl⟩ := h
      have hput : ∀ m', hashmapPut hash m key value calloc true ≠ some (m', .nomem) := by
        intro m'
        unfold hashmapPut
        split
        · simp
        · split
          · simp
          · split
            · simp
            · apply hashmapStore_ne_nomem
            · rename_i m₁ err _ hgrow
              intro herr
              cases herr
              apply hashmapGrow_ne_nomem hgrants hgrow
      simp only [hashmapStep]
      split
      · simp
      · rename_i m₁ code hcode
        intro hnomem
        cases hnomem
        apply hput _ hcode
  | get => simp [hashmapStep]
  | contains => simp [hashmapStep]
  | remove key =>
      simp only [hashmapStep, hashmapRemove]
      split
      · simp
      · split <;> simp
  | len => simp [hashmapStep]

/-! ### Representing a dictionary -/

/-- The map represents the dictionary. -/
structure HashMapRepr (hash : CString → UInt64) (m : HashMap) (d : Dictionary) : Prop where
  inv : HashMapInv hash m
  lookup_iff : ∀ k v, d.lookup k = some v ↔ Holds m k v
  len_eq : m.len = d.keys.card

/-- The keys of the dictionary are the keys that the map holds. -/
theorem HashMapRepr.mem_iff (h : HashMapRepr hash m d) (k : CString) :
  k ∈ d ↔ ∃ v, Holds m k v
  := by
  rw [Finmap.mem_iff]
  simp only [h.lookup_iff]

theorem HashMapRepr.lookup_eq_none (h : HashMapRepr hash m d) (hnot : ∀ v, ¬ Holds m key v) :
  d.lookup key = none
  := by
  rw [Finmap.lookup_eq_none, h.mem_iff]
  rintro ⟨v, hv⟩
  apply hnot v hv

/-- A new map represents the empty dictionary. -/
theorem HashMapRepr.init
    (hash : CString → UInt64) {calloc : Calloc} (h : hashmapInit calloc = .ok m) :
  HashMapRepr hash m ∅
  := by
  unfold hashmapInit at h
  split at h
  · rename_i hgrants
    cases h
    constructor
    · exact
        { cap_pow := ⟨4, rfl⟩
          cap_ge := Nat.le_refl _
          cap_le := calloc.mul_le hgrants
          length_slots := List.length_replicate
          len_eq := by simp [cellsOf_zero, List.countP_replicate, Probing.Cell.isLive]
          used_eq := by simp [cellsOf_zero, List.countP_replicate, Probing.Cell.isUsed]
          load := Nat.zero_le _
          wellFormed := by
            rw [cellsOf_zero]
            apply Probing.wellFormed_free }
    · intro k v
      simp [Holds, cellsOf_zero]
    · rfl
  · cases h

/-- Inserting a key into the dictionary. -/
theorem HashMapRepr.insert
    (h : HashMapRepr hash m d) (h' : HashMapInv hash m') {value : Ptr}
    (hholds : ∀ k v, Holds m' k v ↔ (k = key ∧ v = value) ∨ (k ≠ key ∧ Holds m k v))
    (hlen : ((∃ v, Holds m key v) ∧ m'.len = m.len)
      ∨ ((∀ v, ¬ Holds m key v) ∧ m'.len = m.len + 1)) :
  HashMapRepr hash m' (d.insert key value)
  := by
  have hkeys : (d.insert key value).keys = Insert.insert key d.keys := by
    ext k
    simp [Finmap.mem_keys]
  constructor
  · exact h'
  · intro k v
    rw [hholds]
    by_cases hk : k = key
    · subst hk
      simp [Finmap.lookup_insert, eq_comm]
    · rw [Finmap.lookup_insert_of_ne _ hk, h.lookup_iff]
      simp [hk]
  · rw [hkeys]
    rcases hlen with ⟨hheld, hlen⟩ | ⟨hnew, hlen⟩
    · rw [Finset.insert_eq_of_mem, hlen, h.len_eq]
      rw [Finmap.mem_keys, h.mem_iff]
      exact hheld
    · rw [Finset.card_insert_of_notMem, hlen, h.len_eq]
      rw [Finmap.mem_keys, h.mem_iff]
      rintro ⟨v, hv⟩
      apply hnew v hv

/-- Erasing a key from the dictionary. -/
theorem HashMapRepr.erase
    (h : HashMapRepr hash m d) (h' : HashMapInv hash m') (hheld : key ∈ d)
    (hholds : ∀ k v, Holds m' k v ↔ k ≠ key ∧ Holds m k v) (hlen : m'.len + 1 = m.len) :
  HashMapRepr hash m' (d.erase key)
  := by
  constructor
  · exact h'
  · intro k v
    rw [hholds]
    by_cases hk : k = key
    · subst hk
      simp
    · rw [Finmap.lookup_erase_ne hk, h.lookup_iff]
      simp [hk]
  · have hcard := Finset.card_erase_add_one (Finmap.mem_keys.mpr hheld)
    rw [Finmap.keys_erase]
    have := h.len_eq
    omega

/-- Looking a key up. -/
theorem HashMapRepr.find (h : HashMapRepr hash m d) (key : CString) :
  hashmapGet hash m (some key) = (d.lookup key).getD nullPtr
    ∧ hashmapContains hash m (some key) = decide (key ∈ d)
  := by
  rcases h.inv.findLive key with ⟨i, v, hfind, hs⟩ | ⟨hfind, hnot⟩
  · have hheld : Holds m key v := by
      apply List.mem_of_getElem?
      rw [getElem?_cellsOf, hs]
      rfl
    have hmem : key ∈ d := (h.mem_iff key).mpr ⟨v, hheld⟩
    rw [(h.lookup_iff key v).mpr hheld]
    simp [hashmapGet, hashmapContains, hfind, hs, hmem]
  · have hmem : key ∉ d := by
      rw [h.mem_iff]
      rintro ⟨v, hv⟩
      apply hnot v hv
    rw [h.lookup_eq_none hnot]
    simp [hashmapGet, hashmapContains, hfind, hmem]

/-- A call on a map that represents a dictionary returns, and fails with `ERR_NOMEM`
without changing the dictionary, or does what the call does to the dictionary. -/
theorem HashMapRepr.step (h : HashMapRepr hash m d) (call : HashMapCall) :
  ∃ m' result, hashmapStep hash m call = some (m', some result)
    ∧ ((result = .code .nomem ∧ HashMapRepr hash m' d)
      ∨ (result = (dictionaryCall d call).2 ∧ HashMapRepr hash m' (dictionaryCall d call).1))
  := by
  cases call with
  | put key value calloc strdup =>
      cases key with
      | none => exact ⟨m, _, rfl, Or.inr ⟨rfl, h⟩⟩
      | some key =>
          obtain ⟨m', code, hput, h', hcase⟩ := h.inv.put key value calloc strdup
          simp only [hashmapStep, hput]
          rcases hcase with ⟨rfl, hholds, hlen⟩ | ⟨rfl, hholds, hlen⟩
          · refine ⟨m', _, rfl, Or.inl ⟨rfl, h', ?_, ?_⟩⟩
            · intro k v
              rw [hholds, h.lookup_iff]
            · rw [hlen, h.len_eq]
          · exact ⟨m', _, rfl, Or.inr ⟨rfl, h.insert h' hholds hlen⟩⟩
  | get key =>
      refine ⟨m, _, rfl, Or.inr ?_⟩
      cases key with
      | none => exact ⟨rfl, h⟩
      | some key =>
          rw [(h.find key).1]
          exact ⟨rfl, h⟩
  | contains key =>
      refine ⟨m, _, rfl, Or.inr ?_⟩
      cases key with
      | none => exact ⟨rfl, h⟩
      | some key =>
          rw [(h.find key).2]
          exact ⟨rfl, h⟩
  | remove key =>
      cases key with
      | none =>
          have hremove : hashmapRemove hash m none = (m, .invalidArg) := by
            rw [hashmapRemove, if_pos (Or.inr rfl)]
          simp only [hashmapStep, hremove]
          exact ⟨m, _, rfl, Or.inr ⟨rfl, h⟩⟩
      | some key =>
          rcases h.inv.remove key with ⟨hheld, m', hremove, h', hholds, hlen⟩ | ⟨hnot, hremove⟩
          · have hmem : key ∈ d := (h.mem_iff key).mpr hheld
            simp only [hashmapStep, hremove, dictionaryCall, if_pos hmem]
            exact ⟨m', _, rfl, Or.inr ⟨rfl, h.erase h' hmem hholds hlen⟩⟩
          · have hmem : key ∉ d := by
              rw [h.mem_iff]
              rintro ⟨v, hv⟩
              apply hnot v hv
            simp only [hashmapStep, hremove, dictionaryCall, if_neg hmem]
            exact ⟨m, _, rfl, Or.inr ⟨rfl, h⟩⟩
  | len =>
      refine ⟨m, _, rfl, Or.inr ⟨?_, h⟩⟩
      rw [hashmapLen, h.len_eq]
      rfl

/-- A sequence of calls on a map that represents a dictionary. -/
theorem HashMapRepr.run (h : HashMapRepr hash m d) (calls : List HashMapCall) :
  ∃ m' results, hashmapRun hash m calls = some (m', results)
    ∧ (.code .nomem ∉ results → results = dictionaryRun d calls)
    ∧ (allocatesAll hash m calls = true → .code .nomem ∉ results)
  := by
  induction calls generalizing m d with
  | nil => exact ⟨m, [], rfl, fun _ => rfl, fun _ => List.not_mem_nil⟩
  | cons call calls ih =>
      obtain ⟨m₁, result, hstep, hcase⟩ := h.step call
      obtain ⟨d₁, h₁⟩ : ∃ d₁, HashMapRepr hash m₁ d₁ := by
        rcases hcase with ⟨-, h₁⟩ | ⟨-, h₁⟩
        · exact ⟨_, h₁⟩
        · exact ⟨_, h₁⟩
      obtain ⟨m₂, results, hrun, -, hallocated⟩ := ih h₁
      refine ⟨m₂, result :: results, ?_, ?_, ?_⟩
      · rw [hashmapRun, StateMachine.run_cons_iff]
        exact ⟨m₁, some result, results, hstep, hrun, rfl⟩
      · intro hnot
        rw [List.mem_cons, not_or] at hnot
        rcases hcase with ⟨rfl, -⟩ | ⟨rfl, h₁⟩
        · exact absurd rfl hnot.1
        · obtain ⟨m₂', results', hrun', hresults, -⟩ := ih h₁
          rw [hrun] at hrun'
          cases hrun'
          rw [dictionaryRun, hresults hnot.2]
      · intro hall
        rw [allocatesAll, hstep, Bool.and_eq_true] at hall
        rw [List.mem_cons, not_or]
        constructor
        · rintro rfl
          apply hashmapStep_ne_nomem hall.1 hstep
        · apply hallocated hall.2

/-- For every hash function and every sequence of calls on a map from `hashmap_init`: no
call follows a null pointer; when no call returns `ERR_NOMEM`, the calls return what they
return on a dictionary that is empty at first; and no call returns `ERR_NOMEM` when every
allocation succeeds. -/
theorem hashmap_refines_dictionary
    (hash : CString → UInt64) (calloc : Calloc) (m : HashMap)
    (hinit : hashmapInit calloc = .ok m) (calls : List HashMapCall) :
  ∃ m' results, hashmapRun hash m calls = some (m', results)
    ∧ (.code .nomem ∉ results → results = dictionaryRun ∅ calls)
    ∧ (allocatesAll hash m calls = true → .code .nomem ∉ results)
  := by
  apply (HashMapRepr.init hash hinit).run

/-- A key is put twice and another one removed, with the hash function of the code. -/
theorem hashmap_refines_dictionary_run :
  ∃ m m', hashmapInit (.upTo 384 (by decide)) = .ok m
    ∧ hashmapRun (fun key => hashFnv1aStr (some key)) m
        [.put (some ⟨[97], by decide⟩) 5 (.upTo 768 (by decide)) true,
          .put (some ⟨[97], by decide⟩) 7 (.upTo 768 (by decide)) true,
          .remove (some ⟨[98], by decide⟩), .get (some ⟨[97], by decide⟩), .len]
      = some (m', [.code .ok, .code .ok, .code .notFound, .value 7, .count 1])
  := by
  obtain ⟨m', results, hrun, hresults, hallocated⟩ := hashmap_refines_dictionary
    (fun key => hashFnv1aStr (some key)) (.upTo 384 (by decide)) _ rfl
    [.put (some ⟨[97], by decide⟩) 5 (.upTo 768 (by decide)) true,
      .put (some ⟨[97], by decide⟩) 7 (.upTo 768 (by decide)) true,
      .remove (some ⟨[98], by decide⟩), .get (some ⟨[97], by decide⟩), .len]
  rw [hresults (hallocated rfl)] at hrun
  exact ⟨_, m', rfl, hrun⟩

end CTemplate

import CTemplate.Containers.HashMap.Iteration

/-!
# The probes of the hash map

The loop of `probe` ends in one of two ways: it returns at a slot, or it runs through the whole
table and `probe` returns the first tombstone, if there was one.  `hashmap_put` and `rehash` follow
the pointer that they get without a test.  In every map that calls on a map from `hashmap_init`
lead to, the counters and the slots agree, no chain of probes is broken, and every probe returns
from the loop, `hashmap_probes`.
-/

namespace CTemplate

open Probing

variable {hash : CString → UInt64} {m : HashMap} {slots : List HashMapSlot} {cap : ℕ}

/-- The slot at which the loop of `probe` returns, with `steps` steps to go at the slot `i`.  The
result `none` means that the loop ends first. -/
def probeStopFrom (slots : List HashMapSlot) (cap : ℕ) (key : CString) :
    (steps i : ℕ) → Option ℕ
  | 0, _ => none
  | steps + 1, i =>
      match slots[i]? with
      | none => none
      | some s =>
          match s.key with
          | none => some i
          | some k =>
              if s.dead then probeStopFrom slots cap key steps ((i + 1) &&& (cap - 1))
              else if k = key then some i
              else probeStopFrom slots cap key steps ((i + 1) &&& (cap - 1))

/-- The slot at which the loop of `probe` returns. -/
def probeStop (hash : CString → UInt64) (slots : List HashMapSlot) (cap : ℕ) (key : CString) :
    Option ℕ :=
  probeStopFrom slots cap key cap ((hash key).toNat &&& (cap - 1))

/-- `probe` returns from its loop, at a slot that was never used or holds the key, and the pointer
that it returns is that of a slot. -/
def ProbeStops (hash : CString → UInt64) (slots : List HashMapSlot) (cap : ℕ) (key : CString) :
    Prop :=
  (∃ (i : ℕ) (s : HashMapSlot), probeStop hash slots cap key = some i ∧ slots[i]? = some s
      ∧ (s.key = none ∨ (s.key = some key ∧ s.dead = false)))
    ∧ ∃ (i : ℕ) (s : HashMapSlot), probe hash slots cap key = some i ∧ slots[i]? = some s

/-- The slot holds a key that was not removed. -/
def HashMapSlot.live (s : HashMapSlot) : Bool :=
  s.key.isSome && !s.dead

/-- The counters of the map, and where its keys are. -/
structure HashMapSlotsOk (hash : CString → UInt64) (m : HashMap) : Prop where
  cap_pow : ∃ e, m.cap = 2 ^ e
  length_slots : m.slots.length = m.cap
  len_eq : m.len = m.slots.countP HashMapSlot.live
  used_eq : m.used = m.slots.countP fun s => s.key.isSome
  load : 4 * m.used ≤ 3 * m.cap
  /-- No two live slots hold the same key. -/
  distinct : ∀ (i j : ℕ) (s t : HashMapSlot), m.slots[i]? = some s → m.slots[j]? = some t →
    s.live = true → t.live = true → s.key = t.key → i = j
  /-- Every slot from the home of a live key on to its own was used. -/
  reachable : ∀ (i : ℕ) (s : HashMapSlot) (key : CString), m.slots[i]? = some s → s.live = true →
    s.key = some key →
    ∃ d < m.cap, i = ((hash key).toNat + d) &&& (m.cap - 1)
      ∧ ∀ j < d, ∃ t : HashMapSlot,
        m.slots[((hash key).toNat + j) &&& (m.cap - 1)]? = some t ∧ t.key ≠ none

/-- The probes that calls on the map make: that of `find_live`, that of `hashmap_put` after the
part that keeps the load factor, and those of `rehash`, each in the table that the slots before the
one at hand were moved to. -/
structure HashMapProbesStop (hash : CString → UInt64) (m : HashMap) : Prop where
  findLive : ∀ key, ProbeStops hash m.slots m.cap key
  put : ∀ (key : CString) (calloc : Calloc) (m₁ : HashMap),
    hashmapGrow hash m calloc = some (m₁, .ok) → ProbeStops hash m₁.slots m₁.cap key
  rehash : ∀ (before after : List HashMapSlot) (s : HashMapSlot) (key : CString),
    m.slots = before ++ s :: after → s.key = some key → s.dead = false →
    ∃ fresh, before.foldlM (rehashSlot hash (m.cap * 2)) (List.replicate (m.cap * 2) .zero)
        = some fresh
      ∧ ProbeStops hash fresh (m.cap * 2) key

/-! ### Where a probe stops -/

/-- The loop of `probe` returns where the search in the table of cells stops. -/
theorem probeStopFrom_eq {e : ℕ} (hpow : cap = 2 ^ e) (hlength : slots.length = cap)
    (key : CString) (steps i : ℕ) :
  probeStopFrom slots cap key steps i = stop (cellsOf slots) key steps i
  := by
  have hmask : ∀ i, i &&& (cap - 1) = i % (cellsOf slots).length := by
    intro i
    rw [length_cellsOf, hlength, hpow, Nat.and_two_pow_sub_one_eq_mod]
  induction steps generalizing i with
  | zero => rfl
  | succ steps ih =>
      simp only [probeStopFrom, stop, getElem?_cellsOf, hmask, ih]
      cases slots[i]? with
      | none => rfl
      | some s =>
          obtain ⟨key', value, dead⟩ := s
          cases key' with
          | none => rfl
          | some key' => cases dead <;> rfl

/-- A slot whose cell is free was never used. -/
theorem HashMapSlot.key_of_free {s : HashMapSlot} (h : s.cell = .free) :
  s.key = none
  := by
  rw [← Option.not_isSome_iff_eq_none, ← s.isUsed_cell, h]
  exact Bool.false_ne_true

/-- In a table with a slot that was never used, every probe returns from its loop. -/
theorem probeStops_of_free
    (hpow : ∃ e, cap = 2 ^ e) (hlength : slots.length = cap) (hfree : .free ∈ cellsOf slots)
    (key : CString) :
  ProbeStops hash slots cap key
  := by
  obtain ⟨f, hf⟩ := List.getElem?_of_mem hfree
  have hlt : f < (cellsOf slots).length := (List.getElem?_eq_some_iff.mp hf).1
  obtain ⟨e, he, rfl⟩ := exists_offset (homeOf hash key) hlt
  constructor
  · obtain ⟨i, hi, hcell⟩ := exists_stop (k := key) he hf (Nat.add_zero _) (Nat.zero_le e)
    have hstop : probeStop hash slots cap key = some i := by
      obtain ⟨e', hpow⟩ := hpow
      rw [probeStop, probeStopFrom_eq hpow hlength, ← hi, length_cellsOf, hlength, hpow,
        Nat.and_two_pow_sub_one_eq_mod, Nat.add_zero, homeOf]
    rcases hcell with hcell | ⟨v, hcell⟩
    · obtain ⟨s, hs, hcell⟩ := exists_slot hcell
      exact ⟨i, s, hstop, hs, .inl (HashMapSlot.key_of_free hcell)⟩
    · obtain ⟨s, hs, hcell⟩ := exists_slot hcell
      obtain rfl := HashMapSlot.cell_eq_live hcell
      exact ⟨i, _, hstop, hs, .inr ⟨rfl, rfl⟩⟩
  · obtain ⟨i, hi, hcase⟩ := search_outcome (k := key) he hf (cellsOf slots).length 0 none rfl
      (fun j hj => absurd hj (Nat.not_lt_zero j)) (by simp)
    have hprobe : probe hash slots cap key = some i := (probe_eq hpow hlength key).trans hi
    have hslot : ∃ c, (cellsOf slots)[i]? = some c := by
      rcases hcase with ⟨v, hlive⟩ | ⟨hvacant, -⟩
      · exact ⟨_, hlive⟩
      · rcases hvacant.not_live with hc | hc
        · exact ⟨_, hc⟩
        · exact ⟨_, hc⟩
    obtain ⟨c, hc⟩ := hslot
    obtain ⟨s, hs, -⟩ := exists_slot hc
    exact ⟨i, s, hprobe, hs⟩

/-! ### The invariant in terms of the slots -/

/-- The cell of a live slot. -/
theorem HashMapSlot.cell_of_live {s : HashMapSlot} {key : CString} (hlive : s.live = true)
    (hkey : s.key = some key) :
  s.cell = .live key s.value
  := by
  rw [HashMapSlot.live, hkey, Option.isSome_some, Bool.true_and, Bool.not_eq_true'] at hlive
  simp only [HashMapSlot.cell, hkey, hlive, Bool.false_eq_true, if_false]

theorem HashMapInv.slotsOk (h : HashMapInv hash m) :
  HashMapSlotsOk hash m
  := by
  have hcell {i : ℕ} {s : HashMapSlot} {key : CString} (hs : m.slots[i]? = some s)
      (hlive : s.live = true) (hkey : s.key = some key) :
      (cellsOf m.slots)[i]? = some (.live key s.value) := by
    rw [getElem?_cellsOf, hs, Option.map_some, HashMapSlot.cell_of_live hlive hkey]
  obtain ⟨e, hpow⟩ := h.cap_pow
  have hmask : ∀ i, i &&& (m.cap - 1) = i % (cellsOf m.slots).length := by
    intro i
    rw [length_cellsOf, h.length_slots, hpow, Nat.and_two_pow_sub_one_eq_mod]
  constructor
  case cap_pow => exact h.cap_pow
  case length_slots => exact h.length_slots
  case len_eq =>
    rw [h.len_eq, cellsOf, List.countP_map]
    congr 1
    funext s
    apply s.isLive_cell
  case used_eq =>
    rw [h.used_eq, cellsOf, List.countP_map]
    congr 1
    funext s
    apply s.isUsed_cell
  case load => exact h.load
  case distinct =>
    intro i j s t hs ht hlive hlive' hkey
    obtain ⟨key, hkey'⟩ : ∃ key, t.key = some key := by
      rw [HashMapSlot.live, Bool.and_eq_true] at hlive'
      apply Option.isSome_iff_exists.mp hlive'.1
    apply h.wellFormed.distinct i j key _ _ (hcell hs hlive (hkey.trans hkey'))
      (hcell ht hlive' hkey')
  case reachable =>
    intro i s key hs hlive hkey
    obtain ⟨d, hd, hi, hpassed⟩ := h.wellFormed.reachable i key _ (hcell hs hlive hkey)
    rw [length_cellsOf, h.length_slots] at hd
    refine ⟨d, hd, hi.trans (hmask _).symm, ?_⟩
    intro j hj
    have hne := hpassed j hj
    rw [homeOf, ← hmask, getElem?_cellsOf] at hne
    have hlt : ((hash key).toNat + j) &&& (m.cap - 1) < m.slots.length := by
      rw [hmask, length_cellsOf, h.length_slots]
      apply Nat.mod_lt _ (by omega)
    use m.slots[((hash key).toNat + j) &&& (m.cap - 1)], List.getElem?_eq_getElem hlt
    intro hnone
    apply hne
    rw [List.getElem?_eq_getElem hlt, Option.map_some, HashMapSlot.cell, hnone]

/-! ### The probes of the operations -/

/-- The table of `rehash` after the slots before a live one were moved to it. -/
theorem HashMapInv.exists_fresh
    (h : HashMapInv hash m) {before after : List HashMapSlot} {s : HashMapSlot}
    (hslots : m.slots = before ++ s :: after) :
  ∃ fresh, before.foldlM (CTemplate.rehashSlot hash (m.cap * 2))
      (List.replicate (m.cap * 2) .zero) = some fresh
    ∧ fresh.length = m.cap * 2 ∧ .free ∈ cellsOf fresh
  := by
  have hcells : cellsOf m.slots = cellsOf before ++ cellsOf (s :: after) := by
    rw [hslots, cellsOf, List.map_append]
    rfl
  have hdistinct : DistinctKeys (cellsOf before) := by
    have hall := distinctKeys_of_wellFormed h.wellFormed
    rw [DistinctKeys, hcells, List.pairwise_append] at hall
    exact hall.1
  have hempty : (cellsOf (List.replicate (m.cap * 2) .zero)).countP Cell.isLive = 0 := by
    simp [cellsOf_zero, List.countP_replicate, Cell.isLive]
  have hroom : (cellsOf before).countP Cell.isLive < m.cap * 2 := by
    have hcount : (cellsOf m.slots).countP Cell.isLive
        = (cellsOf before).countP Cell.isLive + (cellsOf (s :: after)).countP Cell.isLive := by
      rw [hcells, List.countP_append]
    have hle := countP_isLive_le (cellsOf m.slots)
    have hload := h.load
    have hge := h.cap_ge
    rw [← h.used_eq] at hle
    simp only [hashmapInitialCap] at hge
    omega
  obtain ⟨fresh, hfold, hfresh, -, hcount⟩ := (freshTable_zero hash (m.cap * 2)).foldlM
    h.double_pow hdistinct (by simp [cellsOf_zero]) (by rwa [hempty, Nat.zero_add])
  use fresh, hfold, hfresh.length_eq
  apply free_mem_of_countP_lt
  rw [hfresh.countP_isUsed, hcount, hempty, Nat.zero_add, length_cellsOf, hfresh.length_eq]
  exact hroom

theorem HashMapInv.probeStops (h : HashMapInv hash m) (key : CString) :
  ProbeStops hash m.slots m.cap key
  := probeStops_of_free h.cap_pow h.length_slots h.free_mem key

theorem HashMapInv.probesStop (h : HashMapInv hash m) :
  HashMapProbesStop hash m
  := by
  constructor
  case findLive =>
    intro key
    apply h.probeStops
  case put =>
    intro key calloc m₁ hgrow
    rcases h.grow calloc with hfail | ⟨m', hok, h', -⟩
    · rw [hfail] at hgrow
      cases hgrow
    · rw [hok] at hgrow
      cases hgrow
      apply h'.probeStops
  case rehash =>
    intro before after s key hslots _ _
    obtain ⟨fresh, hfold, hlength, hfree⟩ := h.exists_fresh hslots
    use fresh, hfold
    apply probeStops_of_free h.double_pow hlength hfree

/-- `hashmap_put` follows no null pointer. -/
theorem HashMapInv.put_ne_none
    (h : HashMapInv hash m) (key : Option CString) (value : Ptr) (calloc : Calloc)
    (strdup : Bool) :
  hashmapPut hash m key value calloc strdup ≠ none
  := by
  cases key with
  | none => simp [hashmapPut]
  | some key =>
      obtain ⟨m', code, hput, -⟩ := h.put key value calloc strdup
      rw [hput]
      simp

/-- On a map from `hashmap_init`, whatever calls are made and whichever allocations fail: the calls
follow no null pointer, the counters and the slots agree and the keys can be reached from their
homes, and every probe of another call returns from its loop. -/
theorem hashmap_probes
    (hash : CString → UInt64) {calloc : Calloc} {m : HashMap} (hinit : hashmapInit calloc = .ok m)
    (calls : List HashMapCall) :
  ∃ m' results, hashmapRun hash m calls = some (m', results)
    ∧ HashMapSlotsOk hash m'
    ∧ HashMapProbesStop hash m'
    ∧ ∀ (key : Option CString) (value : Ptr) (calloc : Calloc) (strdup : Bool),
      hashmapPut hash m' key value calloc strdup ≠ none
  := by
  obtain ⟨m', results, hrun, h⟩ := (HashMapRepr.init hash hinit).runAfter calls
  exact ⟨m', results, hrun, h.inv.slotsOk, h.inv.probesStop, h.inv.put_ne_none⟩

/-- With the hash function of the code, two keys are put and one of them is removed. -/
theorem hashmap_probes_removal :
  ∃ m' results, hashmapInit (.upTo 384 (by decide)) = .ok hashmapFresh
    ∧ hashmapRun (fun key => hashFnv1aStr (some key)) hashmapFresh removalCalls
      = some (m', results)
    ∧ HashMapSlotsOk (fun key => hashFnv1aStr (some key)) m'
    ∧ HashMapProbesStop (fun key => hashFnv1aStr (some key)) m'
  := by
  have hinit : hashmapInit (.upTo 384 (by decide)) = .ok hashmapFresh := rfl
  obtain ⟨m', results, hrun, hslots, hprobes, -⟩ :=
    hashmap_probes (fun key => hashFnv1aStr (some key)) hinit removalCalls
  exact ⟨m', results, hinit, hrun, hslots, hprobes⟩

end CTemplate

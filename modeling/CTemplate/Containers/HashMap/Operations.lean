import CTemplate.Containers.HashMap.Invariant

/-!
# The operations of the hash map

Every operation keeps the invariant and follows no null pointer, and changes what the map
holds as it should: growing changes nothing, a successful `hashmap_put` gives the key its
new value, `hashmap_remove` takes the key away, and everything that fails changes nothing.
-/

namespace CTemplate

open Probing

variable {hash : CString → UInt64} {m : HashMap} {newCap : ℕ} {fresh : List HashMapSlot}

/-! ### Growing -/

/-- The table that `rehash` fills: it has no tombstones. -/
structure FreshTable (hash : CString → UInt64) (newCap : ℕ) (fresh : List HashMapSlot) :
    Prop where
  length_eq : fresh.length = newCap
  alive : ∀ s ∈ fresh, s.dead = false
  wellFormed : WellFormed (homeOf hash) (cellsOf fresh)

theorem freshTable_zero (hash : CString → UInt64) (newCap : ℕ) :
  FreshTable hash newCap (List.replicate newCap .zero)
  where
  length_eq := List.length_replicate
  alive := by
    intro s hs
    rw [(List.mem_replicate.mp hs).2]
    rfl
  wellFormed := by
    rw [cellsOf_zero]
    apply wellFormed_free

/-- Without tombstones the used cells are the live ones. -/
theorem FreshTable.countP_isUsed (h : FreshTable hash newCap fresh) :
  (cellsOf fresh).countP Cell.isUsed = (cellsOf fresh).countP Cell.isLive
  := by
  rw [cellsOf, List.countP_map, List.countP_map]
  apply List.countP_congr
  intro s hs
  simp [HashMapSlot.isUsed_cell, HashMapSlot.isLive_cell, h.alive s hs]

/-- Moving a slot whose key is not yet in the new table. -/
theorem FreshTable.rehashSlot
    (h : FreshTable hash newCap fresh) (hpow : ∃ e, newCap = 2 ^ e)
    (hroom : (cellsOf fresh).countP Cell.isLive < newCap) {k : CString} (v : Ptr)
    (hnew : ∀ v, .live k v ∉ cellsOf fresh) :
  ∃ fresh', rehashSlot hash newCap fresh ⟨some k, v, false⟩ = some fresh'
    ∧ FreshTable hash newCap fresh'
    ∧ (∀ k' v', .live k' v' ∈ cellsOf fresh' ↔
        (k' = k ∧ v' = v) ∨ .live k' v' ∈ cellsOf fresh)
    ∧ (cellsOf fresh').countP Cell.isLive = (cellsOf fresh).countP Cell.isLive + 1
  := by
  have hfree : .free ∈ cellsOf fresh := by
    apply free_mem_of_countP_lt
    rw [h.countP_isUsed, length_cellsOf, h.length_eq]
    exact hroom
  obtain ⟨i, hi, hcase⟩ := h.wellFormed.find hfree k
  rw [← probe_eq hpow h.length_eq] at hi
  rcases hcase with ⟨v', hlive⟩ | ⟨hvacant, -⟩
  · exact absurd (List.mem_of_getElem? hlive) (hnew v')
  · obtain ⟨c, hc, hdead⟩ : ∃ c, (cellsOf fresh)[i]? = some c ∧ c.isLive = false := by
      rcases hvacant.not_live with hc | hc
      · exact ⟨_, hc, rfl⟩
      · exact ⟨_, hc, rfl⟩
    obtain ⟨s, hs, rfl⟩ := exists_slot hc
    have halive := h.alive s (List.mem_of_getElem? hs)
    have hslot : fresh.modify i (fun dst => { dst with key := some k, value := v })
        = fresh.set i ⟨some k, v, false⟩ := by
      rw [ListSet.modify_eq_set hs, halive]
    have hcells : cellsOf (fresh.set i ⟨some k, v, false⟩)
        = (cellsOf fresh).set i (.live k v) := cellsOf_set i _
    use fresh.set i ⟨some k, v, false⟩
    refine ⟨?_, ?_, ?_, ?_⟩
    · simp only [CTemplate.rehashSlot, hi, hslot, Bool.false_eq_true, if_false]
    · exact
        { length_eq := by
            rw [List.length_set]
            exact h.length_eq
          alive := by
            intro s' hs'
            rcases List.mem_or_eq_of_mem_set hs' with hs' | rfl
            · apply h.alive s' hs'
            · rfl
          wellFormed := by
            rw [hcells]
            apply h.wellFormed.occupy hvacant hnew }
    · intro k' v'
      rw [hcells]
      apply hvacant.mem_occupy
    · have hcount := ListSet.countP_set_add Cell.isLive hc (.live k v)
      rw [hdead] at hcount
      rw [hcells]
      simpa [Cell.isLive] using hcount

/-- No key of the cells is in two of them. -/
def DistinctKeys (cells : List (Cell CString Ptr)) : Prop :=
  cells.Pairwise fun c c' => ∀ k v v', c = .live k v → c' ≠ .live k v'

theorem distinctKeys_of_wellFormed
    {home : CString → ℕ} {cells : List (Cell CString Ptr)} (h : WellFormed home cells) :
  DistinctKeys cells
  := by
  rw [DistinctKeys, List.pairwise_iff_getElem]
  rintro i j hi hj hlt k v v' hv hv'
  have heq := h.distinct i j k v v' (List.getElem?_eq_some_iff.mpr ⟨hi, hv⟩)
    (List.getElem?_eq_some_iff.mpr ⟨hj, hv'⟩)
  omega

/-- `rehash` passes over a slot that is not live. -/
theorem rehashSlot_of_not_live
    (hash : CString → UInt64) {s : HashMapSlot} (h : ¬∃ k v, s.cell = .live k v) (newCap : ℕ)
    (fresh : List HashMapSlot) :
  CTemplate.rehashSlot hash newCap fresh s = some fresh ∧ s.cell.isLive = false
  := by
  obtain ⟨key, value, dead⟩ := s
  cases key with
  | none => exact ⟨rfl, rfl⟩
  | some key =>
      cases dead with
      | true => exact ⟨rfl, rfl⟩
      | false => exact absurd ⟨key, value, rfl⟩ h

/-- The loop of `rehash` moves the live slots among `todo` to the new table, when their
keys are pairwise different and not yet there. -/
theorem FreshTable.foldlM
    (hpow : ∃ e, newCap = 2 ^ e) {todo : List HashMapSlot} (h : FreshTable hash newCap fresh)
    (hdistinct : DistinctKeys (cellsOf todo))
    (hnew : ∀ k v v', .live k v ∈ cellsOf todo → .live k v' ∉ cellsOf fresh)
    (hroom : (cellsOf fresh).countP Cell.isLive + (cellsOf todo).countP Cell.isLive < newCap) :
  ∃ fresh', todo.foldlM (CTemplate.rehashSlot hash newCap) fresh = some fresh'
    ∧ FreshTable hash newCap fresh'
    ∧ (∀ k v, .live k v ∈ cellsOf fresh' ↔ .live k v ∈ cellsOf todo ∨ .live k v ∈ cellsOf fresh)
    ∧ (cellsOf fresh').countP Cell.isLive
      = (cellsOf fresh).countP Cell.isLive + (cellsOf todo).countP Cell.isLive
  := by
  induction todo generalizing fresh with
  | nil => exact ⟨fresh, rfl, h, by simp [cellsOf], rfl⟩
  | cons s todo ih =>
      simp only [cellsOf_cons] at hdistinct hnew hroom ⊢
      rw [List.countP_cons] at hroom ⊢
      obtain ⟨hfirst, hrest⟩ := List.pairwise_cons.mp hdistinct
      by_cases hlive : ∃ k v, s.cell = .live k v
      · obtain ⟨k, v, hcell⟩ := hlive
        obtain rfl := HashMapSlot.cell_eq_live hcell
        rw [hcell] at hfirst hnew hroom ⊢
        simp only [Cell.isLive, if_true] at hroom ⊢
        obtain ⟨fresh₁, hslot, h₁, hmem₁, hcount₁⟩ := h.rehashSlot hpow (by omega) v
          fun v' => hnew k v v' List.mem_cons_self
        obtain ⟨fresh₂, hfold, h₂, hmem₂, hcount₂⟩ := ih h₁ hrest
          (by
            intro k' v₁ v₂ hmem hmem'
            rcases (hmem₁ k' v₂).mp hmem' with ⟨rfl, rfl⟩ | hmem'
            · apply hfirst _ hmem k' v₂ v₁ rfl rfl
            · apply hnew k' v₁ v₂ (List.mem_cons_of_mem _ hmem) hmem')
          (by
            rw [hcount₁]
            omega)
        refine ⟨fresh₂, ?_, h₂, ?_, ?_⟩
        · rw [List.foldlM_cons, hslot]
          exact hfold
        · intro k' v'
          rw [hmem₂, hmem₁, List.mem_cons, Cell.live.injEq, or_assoc, or_left_comm]
        · omega
      · obtain ⟨hskip, hcount⟩ := rehashSlot_of_not_live hash hlive newCap fresh
        have hother : ∀ k v, Cell.live k v ≠ s.cell := fun k v heq => hlive ⟨k, v, heq.symm⟩
        simp only [hcount, Bool.false_eq_true, if_false, Nat.add_zero] at hroom ⊢
        obtain ⟨fresh', hfold, h', hmem, hcount'⟩ := ih h hrest
          (fun k v v' hk => hnew k v v' (List.mem_cons_of_mem _ hk)) hroom
        refine ⟨fresh', ?_, h', ?_, hcount'⟩
        · rw [List.foldlM_cons, hskip]
          exact hfold
        · intro k v
          rw [hmem, List.mem_cons, or_iff_right (hother k v)]

/-- `rehash` to a larger table fails without changes, or moves everything the map holds to
a table without tombstones. -/
theorem HashMapInv.rehash
    (h : HashMapInv hash m) (calloc : Calloc) (hpow : ∃ e, newCap = 2 ^ e)
    (hge : m.cap ≤ newCap) :
  rehash hash m calloc newCap = some (m, .nomem)
    ∨ ∃ m', rehash hash m calloc newCap = some (m', .ok) ∧ HashMapInv hash m'
      ∧ (∀ k v, Holds m' k v ↔ Holds m k v)
      ∧ m'.cap = newCap ∧ m'.len = m.len ∧ m'.used = m.len
  := by
  by_cases hgrants : calloc.grants newCap HashMapSlot.size = true
  · right
    have hcap := h.cap_ge
    have hload := h.load
    have hle := countP_isLive_le (cellsOf m.slots)
    rw [← h.len_eq, ← h.used_eq] at hle
    simp only [hashmapInitialCap] at hcap
    have hempty : (cellsOf (List.replicate newCap .zero)).countP Cell.isLive = 0 := by
      simp [cellsOf_zero, List.countP_replicate, Cell.isLive]
    obtain ⟨fresh, hfold, hfresh, hmem, hcount⟩ := (freshTable_zero hash newCap).foldlM hpow
      (distinctKeys_of_wellFormed h.wellFormed) (by simp [cellsOf_zero])
      (by
        rw [hempty, ← h.len_eq]
        omega)
    rw [hempty, Nat.zero_add, ← h.len_eq] at hcount
    use { slots := fresh, cap := newCap, len := m.len, used := m.len }
    refine ⟨?_, ?_, ?_, rfl, rfl, rfl⟩
    · simp only [CTemplate.rehash, if_pos hgrants, hfold]
    · exact
        { cap_pow := hpow
          cap_ge := Nat.le_trans h.cap_ge hge
          cap_le := calloc.mul_le hgrants
          length_slots := hfresh.length_eq
          len_eq := hcount.symm
          used_eq := by
            rw [hfresh.countP_isUsed]
            exact hcount.symm
          load := by
            simp only
            omega
          wellFormed := hfresh.wellFormed }
    · intro k v
      simp [Holds, hmem, cellsOf_zero]
  · left
    rw [CTemplate.rehash, if_neg hgrants]

/-- No size of a map from `hashmap_init` overflows in the first part of `hashmap_put`. -/
theorem HashMapInv.grow_eq (h : HashMapInv hash m) (calloc : Calloc) :
  hashmapGrow hash m calloc
    = if m.cap * 3 < (m.used + 1) * 4 then CTemplate.rehash hash m calloc (m.cap * 2)
      else some (m, .ok)
  := by
  have hload := h.load
  have hsize := h.cap_le
  simp only [HashMapSlot.size, sizeMax] at hsize
  have hused : ¬ m.used > sizeMax / 4 - 1 := by
    simp only [sizeMax]
    omega
  have hhalf : ¬ m.cap > sizeMax / 2 := by
    simp only [sizeMax]
    omega
  have hfour : toSize ((m.used + 1) * 4) = (m.used + 1) * 4 := by
    apply toSize_of_le
    simp only [sizeMax]
    omega
  have hthree : toSize (m.cap * 3) = m.cap * 3 := by
    apply toSize_of_le
    simp only [sizeMax]
    omega
  rw [hashmapGrow, if_neg hused, hfour, hthree, if_neg hhalf]

/-- The first part of `hashmap_put` fails without changes, or leaves room for one more key
and what the map holds unchanged. -/
theorem HashMapInv.grow (h : HashMapInv hash m) (calloc : Calloc) :
  hashmapGrow hash m calloc = some (m, .nomem)
    ∨ ∃ m', hashmapGrow hash m calloc = some (m', .ok) ∧ HashMapInv hash m'
      ∧ (∀ k v, Holds m' k v ↔ Holds m k v) ∧ m'.len = m.len
      ∧ 4 * (m'.used + 1) ≤ 3 * m'.cap
  := by
  have hcap := h.cap_ge
  have hload := h.load
  simp only [hashmapInitialCap] at hcap
  rw [h.grow_eq]
  by_cases hfull : m.cap * 3 < (m.used + 1) * 4
  · rw [if_pos hfull]
    rcases h.rehash calloc h.double_pow (by omega) with
      hfail | ⟨m', hok, h', hholds, hcap', hlen, hused'⟩
    · left
      exact hfail
    · right
      have hle := countP_isLive_le (cellsOf m.slots)
      rw [← h.len_eq, ← h.used_eq] at hle
      refine ⟨m', hok, h', hholds, hlen, ?_⟩
      rw [hused', hcap']
      omega
  · right
    rw [if_neg hfull]
    exact ⟨m, rfl, h, fun _ _ => Iff.rfl, rfl, by omega⟩

/-! ### Writing -/

/-- Overwriting the slot of a key with a tombstone or a slot of the same key. -/
theorem HashMapInv.overwrite
    (h : HashMapInv hash m) {i : ℕ} {k : CString} {v : Ptr}
    (hi : m.slots[i]? = some ⟨some k, v, false⟩) {s : HashMapSlot}
    (hs : s.cell = .tombstone ∨ ∃ v', s.cell = .live k v') {len : ℕ}
    (hlen : len + (if s.cell.isLive then 0 else 1) = m.len) :
  HashMapInv hash { m with slots := m.slots.set i s, len }
    ∧ ∀ k' v', Holds { m with slots := m.slots.set i s, len } k' v' ↔
        .live k' v' = s.cell ∨ (k' ≠ k ∧ Holds m k' v')
  := by
  have hcell : (cellsOf m.slots)[i]? = some (.live k v) := by
    rw [getElem?_cellsOf, hi]
    rfl
  have hlive := ListSet.countP_set_add Cell.isLive hcell s.cell
  have hused := ListSet.countP_set_add Cell.isUsed hcell s.cell
  have hused' : s.cell.isUsed = true := by
    rcases hs with hs | ⟨v', hs⟩ <;> rw [hs] <;> rfl
  have hone : (Cell.live k v).isLive = true := rfl
  have hone' : (Cell.live k v).isUsed = true := rfl
  rw [hone, if_pos rfl, ← h.len_eq] at hlive
  rw [hused', hone', ← h.used_eq] at hused
  constructor
  · exact
      { h with
        length_slots := by
          rw [List.length_set]
          exact h.length_slots
        len_eq := by
          rw [cellsOf_set]
          change len = _
          cases hdead : s.cell.isLive with
          | true =>
              rw [hdead, if_pos rfl] at hlive hlen
              omega
          | false =>
              rw [hdead, if_neg Bool.false_ne_true] at hlive hlen
              omega
        used_eq := by
          rw [cellsOf_set]
          change m.used = _
          omega
        wellFormed := by
          rw [cellsOf_set]
          apply h.wellFormed.overwrite hcell hs }
  · intro k' v'
    rw [Holds, Holds, cellsOf_set]
    apply h.wellFormed.mem_overwrite hcell hs k' v'

/-- Writing a new key into a vacant slot. -/
theorem HashMapInv.occupy
    (h : HashMapInv hash m) (hroom : 4 * (m.used + 1) ≤ 3 * m.cap) {i : ℕ} {k : CString}
    {s : HashMapSlot} (hi : m.slots[i]? = some s) (hdead : s.cell.isLive = false)
    (hvacant : Vacant (cellsOf m.slots) (homeOf hash k) i) (hnew : ∀ v, ¬ Holds m k v)
    (v : Ptr) {m' : HashMap}
    (hm' : m' = { m with
      slots := m.slots.set i ⟨some k, v, false⟩
      len := m.len + 1
      used := if s.key.isNone then m.used + 1 else m.used }) :
  HashMapInv hash m' ∧ ∀ k' v', Holds m' k' v' ↔ (k' = k ∧ v' = v) ∨ Holds m k' v'
  := by
  subst hm'
  have hcell : (cellsOf m.slots)[i]? = some s.cell := by
    rw [getElem?_cellsOf, hi]
    rfl
  have hcells : cellsOf (m.slots.set i ⟨some k, v, false⟩)
      = (cellsOf m.slots).set i (.live k v) := cellsOf_set i _
  have hlive := ListSet.countP_set_add Cell.isLive hcell (.live k v)
  have hused := ListSet.countP_set_add Cell.isUsed hcell (.live k v)
  rw [hdead] at hlive
  rw [HashMapSlot.isUsed_cell] at hused
  simp only [Cell.isLive, Cell.isUsed, Bool.false_eq_true, if_false, if_true, Nat.add_zero]
    at hlive hused
  constructor
  · exact
      { h with
        length_slots := by
          rw [List.length_set]
          exact h.length_slots
        len_eq := by
          rw [hcells, hlive, h.len_eq]
        used_eq := by
          rw [hcells, h.used_eq]
          cases hkey : s.key <;> simp_all
        load := by
          simp only
          split <;> omega
        wellFormed := by
          rw [hcells]
          apply h.wellFormed.occupy hvacant hnew v }
  · intro k' v'
    rw [Holds, Holds, hcells]
    apply hvacant.mem_occupy k k' v v'

/-- What the part of `hashmap_put` after growing does, on a map with room for one more
key: it fails without changes, gives a key the map holds its new value, or adds the key. -/
theorem HashMapInv.store
    (h : HashMapInv hash m) (hroom : 4 * (m.used + 1) ≤ 3 * m.cap) (key : CString)
    (value : Ptr) (strdup : Bool) :
  hashmapStore hash m key value strdup = some (m, .nomem)
    ∨ ∃ m', hashmapStore hash m key value strdup = some (m', .ok) ∧ HashMapInv hash m'
      ∧ (∀ k v, Holds m' k v ↔ (k = key ∧ v = value) ∨ (k ≠ key ∧ Holds m k v))
      ∧ (((∃ v, Holds m key v) ∧ m'.len = m.len)
        ∨ ((∀ v, ¬ Holds m key v) ∧ m'.len = m.len + 1))
  := by
  obtain ⟨i, s, hi, hs, hcase⟩ := h.probe key
  simp only [hashmapStore, hi, hs]
  rcases hcase with ⟨v, rfl⟩ | ⟨hvacant, hdead, hnew⟩
  · right
    have hheld : Holds m key v := by
      apply List.mem_of_getElem?
      rw [getElem?_cellsOf, hs]
      rfl
    obtain ⟨h', hholds⟩ := h.overwrite hs (s := ⟨some key, value, false⟩)
      (Or.inr ⟨value, rfl⟩) (Nat.add_zero m.len)
    refine ⟨_, rfl, h', ?_, Or.inl ⟨⟨v, hheld⟩, rfl⟩⟩
    intro k' v'
    rw [hholds]
    change Cell.live k' v' = .live key value ∨ _ ↔ _
    rw [Cell.live.injEq]
  · rw [← HashMapSlot.isLive_cell, hdead]
    cases strdup with
    | false =>
        left
        rfl
    | true =>
        right
        obtain ⟨h', hholds⟩ := h.occupy hroom hs hdead hvacant hnew value rfl
        refine ⟨_, rfl, h', ?_, Or.inr ⟨hnew, rfl⟩⟩
        intro k' v'
        rw [hholds]
        by_cases hk : k' = key
        · subst hk
          simp [hnew v']
        · simp [hk]

/-- What `hashmap_put` does: it fails with `ERR_NOMEM`, and what the map holds is
unchanged, gives a key the map holds its new value, or adds the key. -/
theorem HashMapInv.put
    (h : HashMapInv hash m) (key : CString) (value : Ptr) (calloc : Calloc) (strdup : Bool) :
  ∃ m' code, hashmapPut hash m (some key) value calloc strdup = some (m', code)
    ∧ HashMapInv hash m'
    ∧ ((code = .nomem ∧ (∀ k v, Holds m' k v ↔ Holds m k v) ∧ m'.len = m.len)
      ∨ (code = .ok
        ∧ (∀ k v, Holds m' k v ↔ (k = key ∧ v = value) ∨ (k ≠ key ∧ Holds m k v))
        ∧ (((∃ v, Holds m key v) ∧ m'.len = m.len)
          ∨ ((∀ v, ¬ Holds m key v) ∧ m'.len = m.len + 1))))
  := by
  rw [hashmapPut, if_neg h.slots_ne_nil]
  rcases h.grow calloc with hfail | ⟨m₁, hgrow, h₁, hholds₁, hlen₁, hroom⟩
  · rw [hfail]
    exact ⟨m, .nomem, rfl, h, Or.inl ⟨rfl, fun _ _ => Iff.rfl, rfl⟩⟩
  · rw [hgrow]
    rcases h₁.store hroom key value strdup with hfail | ⟨m₂, hstore, h₂, hholds₂, hlen₂⟩
    · exact ⟨m₁, .nomem, hfail, h₁, Or.inl ⟨rfl, hholds₁, hlen₁⟩⟩
    · refine ⟨m₂, .ok, hstore, h₂, Or.inr ⟨rfl, ?_, ?_⟩⟩
      · intro k v
        rw [hholds₂, hholds₁]
      · simpa only [hholds₁, hlen₁] using hlen₂

/-- What `hashmap_remove` does: it takes away a key that the map holds, and otherwise
returns `ERR_NOT_FOUND` and changes nothing. -/
theorem HashMapInv.remove (h : HashMapInv hash m) (key : CString) :
  ((∃ v, Holds m key v) ∧ ∃ m', hashmapRemove hash m (some key) = (m', .ok)
      ∧ HashMapInv hash m' ∧ (∀ k v, Holds m' k v ↔ k ≠ key ∧ Holds m k v)
      ∧ m'.len + 1 = m.len)
    ∨ ((∀ v, ¬ Holds m key v) ∧ hashmapRemove hash m (some key) = (m, .notFound))
  := by
  have hargs : ¬ (m.slots = [] ∨ some key = none) := by simp [h.slots_ne_nil]
  rw [hashmapRemove, if_neg hargs]
  rcases h.findLive key with ⟨i, v, hfind, hs⟩ | ⟨hfind, hnot⟩
  · left
    have hcell : (cellsOf m.slots)[i]? = some (.live key v) := by
      rw [getElem?_cellsOf, hs]
      rfl
    have hpos : 0 < m.len := by
      rw [h.len_eq]
      apply ListSet.countP_pos_of_getElem? hcell rfl
    have hlen : m.len - 1 + 1 = m.len := by omega
    have hslot : m.slots.modify i (fun s => { s with dead := true, value := nullPtr })
        = m.slots.set i ⟨some key, nullPtr, true⟩ := ListSet.modify_eq_set hs _
    obtain ⟨h', hholds⟩ := h.overwrite hs (s := ⟨some key, nullPtr, true⟩) (Or.inl rfl) hlen
    refine ⟨⟨v, List.mem_of_getElem? hcell⟩, _, ?_, h', ?_, hlen⟩
    · rw [hfind]
      simp only [hslot]
    · intro k' v'
      rw [hholds]
      change Cell.live k' v' = .tombstone ∨ _ ↔ _
      simp
  · right
    rw [hfind]
    exact ⟨hnot, rfl⟩

end CTemplate

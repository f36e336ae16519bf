import CTemplate.Containers.HashMap.Table
import CTemplate.Library.Probing
import Mathlib.Algebra.Group.Nat.Defs

/-!
# The invariant of the hash map

The slots of a map are the cells of a table with linear probing, and `probe` is the search
in that table.  `HashMapInv` says in addition that the capacity is a power of two, that
`len` counts the live slots and `used` the slots with a key, and that the load factor is
at most 3/4, so that there always is a free slot.

`Holds m k v` says that the map holds the value `v` for the key `k`.  The specifications
of the functions say what the map holds afterwards.
-/

namespace CTemplate

open Probing

/-- The slot as a cell of a table. -/
def HashMapSlot.cell (s : HashMapSlot) : Cell CString Ptr :=
  match s.key with
  | none => .free
  | some key => if s.dead then .tombstone else .live key s.value

/-- The cells of a table of slots. -/
def cellsOf (slots : List HashMapSlot) : List (Cell CString Ptr) :=
  slots.map HashMapSlot.cell

/-- The home of a key, before it is reduced to the size of the table. -/
def homeOf (hash : CString → UInt64) (key : CString) : ℕ :=
  (hash key).toNat

/-- The map holds the value `v` for the key `k`. -/
def Holds (m : HashMap) (k : CString) (v : Ptr) : Prop :=
  .live k v ∈ cellsOf m.slots

/-- The representation of a map by its fields. -/
structure HashMapInv (hash : CString → UInt64) (m : HashMap) : Prop where
  cap_pow : ∃ e, m.cap = 2 ^ e
  cap_ge : hashmapInitialCap ≤ m.cap
  cap_le : m.cap * HashMapSlot.size ≤ sizeMax
  length_slots : m.slots.length = m.cap
  len_eq : m.len = (cellsOf m.slots).countP Cell.isLive
  used_eq : m.used = (cellsOf m.slots).countP Cell.isUsed
  load : 4 * m.used ≤ 3 * m.cap
  wellFormed : WellFormed (homeOf hash) (cellsOf m.slots)

variable {hash : CString → UInt64} {m : HashMap} {slots : List HashMapSlot}

/-! ### Slots and cells -/

theorem length_cellsOf : (cellsOf slots).length = slots.length := List.length_map _

theorem getElem?_cellsOf (i : ℕ) : (cellsOf slots)[i]? = slots[i]?.map HashMapSlot.cell :=
  List.getElem?_map

theorem cellsOf_cons (s : HashMapSlot) : cellsOf (s :: slots) = s.cell :: cellsOf slots := rfl

/-- Writing a slot writes its cell. -/
theorem cellsOf_set (i : ℕ) (s : HashMapSlot) :
  cellsOf (slots.set i s) = (cellsOf slots).set i s.cell
  := List.map_set

/-- The slot of a cell. -/
theorem exists_slot {i : ℕ} {c : Cell CString Ptr} (h : (cellsOf slots)[i]? = some c) :
  ∃ s, slots[i]? = some s ∧ s.cell = c
  := by
  rw [getElem?_cellsOf] at h
  apply Option.map_eq_some_iff.mp h

/-- A live cell is a slot with this key and value that is not dead. -/
theorem HashMapSlot.cell_eq_live {s : HashMapSlot} {k : CString} {v : Ptr}
    (h : s.cell = .live k v) :
  s = ⟨some k, v, false⟩
  := by
  obtain ⟨key, value, dead⟩ := s
  cases key with
  | none => cases h
  | some key =>
      cases dead with
      | true => cases h
      | false =>
          cases h
          rfl

/-- The test for a live slot in `hashmap_put` and `find_live`. -/
theorem HashMapSlot.isLive_cell (s : HashMapSlot) :
  s.cell.isLive = (s.key.isSome && !s.dead)
  := by
  obtain ⟨key, value, dead⟩ := s
  cases key <;> cases dead <;> rfl

/-- The test for a slot with a key. -/
theorem HashMapSlot.isUsed_cell (s : HashMapSlot) :
  s.cell.isUsed = s.key.isSome
  := by
  obtain ⟨key, value, dead⟩ := s
  cases key <;> cases dead <;> rfl

/-- A fresh table has only free cells. -/
theorem cellsOf_zero (n : ℕ) :
  cellsOf (List.replicate n .zero) = List.replicate n .free
  := List.map_replicate

/-- The capacity after growing is a power of two as well. -/
theorem HashMapInv.double_pow (h : HashMapInv hash m) :
  ∃ e, m.cap * 2 = 2 ^ e
  := by
  obtain ⟨e, he⟩ := h.cap_pow
  use e + 1
  rw [he, Nat.pow_succ]

/-! ### Probing -/

/-- The loop of `probe` is the search in the table of cells. -/
theorem probeFrom_eq {cap e : ℕ} (hpow : cap = 2 ^ e) (hlength : slots.length = cap)
    (key : CString) (steps i : ℕ) (first : Option ℕ) :
  probeFrom slots cap key steps i first = search (cellsOf slots) key steps i first
  := by
  have hmask : ∀ i, i &&& (cap - 1) = i % (cellsOf slots).length := by
    intro i
    rw [length_cellsOf, hlength, hpow, Nat.and_two_pow_sub_one_eq_mod]
  induction steps generalizing i first with
  | zero => rfl
  | succ steps ih =>
      simp only [probeFrom, search, getElem?_cellsOf, hmask, ih]
      cases slots[i]? with
      | none => rfl
      | some s =>
          obtain ⟨key', value, dead⟩ := s
          cases key' with
          | none => rfl
          | some key' => cases dead <;> rfl

/-- `probe` is the search in the table of cells. -/
theorem probe_eq {cap : ℕ} (hpow : ∃ e, cap = 2 ^ e) (hlength : slots.length = cap)
    (key : CString) :
  probe hash slots cap key = find (homeOf hash) (cellsOf slots) key
  := by
  obtain ⟨e, he⟩ := hpow
  rw [probe, find, probeFrom_eq he hlength, length_cellsOf, hlength, he,
    Nat.and_two_pow_sub_one_eq_mod, homeOf]

/-- There is a free slot. -/
theorem HashMapInv.free_mem (h : HashMapInv hash m) :
  .free ∈ cellsOf m.slots
  := by
  apply free_mem_of_countP_lt
  have hload := h.load
  have hge := h.cap_ge
  rw [← h.used_eq, length_cellsOf, h.length_slots]
  simp only [hashmapInitialCap] at hge
  omega

/-- `probe` always finds a slot: the slot of the key, or a vacant slot for a key that the
map does not hold. -/
theorem HashMapInv.probe (h : HashMapInv hash m) (key : CString) :
  ∃ i s, probe hash m.slots m.cap key = some i ∧ m.slots[i]? = some s
    ∧ ((∃ v, s = ⟨some key, v, false⟩)
      ∨ (Vacant (cellsOf m.slots) (homeOf hash key) i ∧ s.cell.isLive = false
        ∧ ∀ v, ¬ Holds m key v))
  := by
  obtain ⟨i, hi, hcase⟩ := h.wellFormed.find h.free_mem key
  rw [← probe_eq h.cap_pow h.length_slots] at hi
  rcases hcase with ⟨v, hlive⟩ | ⟨hvacant, hnot⟩
  · obtain ⟨s, hs, hcell⟩ := exists_slot hlive
    exact ⟨i, s, hi, hs, Or.inl ⟨v, HashMapSlot.cell_eq_live hcell⟩⟩
  · rcases hvacant.not_live with hcell | hcell
    · obtain ⟨s, hs, hcell⟩ := exists_slot hcell
      refine ⟨i, s, hi, hs, Or.inr ⟨hvacant, ?_, hnot⟩⟩
      rw [hcell]
      rfl
    · obtain ⟨s, hs, hcell⟩ := exists_slot hcell
      refine ⟨i, s, hi, hs, Or.inr ⟨hvacant, ?_, hnot⟩⟩
      rw [hcell]
      rfl

/-- A map from `hashmap_init` has slots. -/
theorem HashMapInv.slots_ne_nil (h : HashMapInv hash m) :
  m.slots ≠ []
  := by
  intro hnil
  have hlength := h.length_slots
  have hge := h.cap_ge
  rw [hnil, List.length_nil] at hlength
  simp only [hashmapInitialCap] at hge
  omega

/-- What `find_live` finds. -/
theorem HashMapInv.findLive (h : HashMapInv hash m) (key : CString) :
  (∃ i v, findLive hash m (some key) = some i ∧ m.slots[i]? = some ⟨some key, v, false⟩)
    ∨ (findLive hash m (some key) = none ∧ ∀ v, ¬ Holds m key v)
  := by
  obtain ⟨i, s, hi, hs, hcase⟩ := h.probe key
  simp only [CTemplate.findLive, if_neg h.slots_ne_nil, hi, hs]
  rcases hcase with ⟨v, rfl⟩ | ⟨-, hlive, hnot⟩
  · left
    exact ⟨i, v, rfl, hs⟩
  · right
    rw [HashMapSlot.isLive_cell] at hlive
    rw [hlive]
    exact ⟨rfl, hnot⟩

end CTemplate

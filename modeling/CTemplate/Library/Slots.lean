import CTemplate.Library.Buffer
import Mathlib.Logic.Equiv.Basic

/-!
# Arrays of slots of equal width

A block of memory as a list of bytes, used as an array of slots of `w` bytes each: slot
`i` starts at `i * w`.  `read w data i` is the content of a slot and `write w data i x`
the block after `x` was copied into it.  A slot holds what was last written to it, and
writing to a slot does not change the others.  `exchange w data i j` is the block after the
contents of two slots were exchanged.

`array w data len` are the contents of the first `len` slots, and `ring w data n head len`
those of `len` consecutive slots from `head` on, where slot `0` follows slot `n - 1`.
-/

namespace Slots

universe u

variable {β : Type u} {w : ℕ} {data : List β}

/-- The content of slot `i`. -/
def read (w : ℕ) (data : List β) (i : ℕ) : List β :=
  (data.drop (i * w)).take w

/-- The block after `x` was copied into slot `i`. -/
def write (w : ℕ) (data : List β) (i : ℕ) (x : List β) : List β :=
  data.take (i * w) ++ x ++ data.drop ((i + 1) * w)

/-- A slot below `n` ends within a block of `n` slots. -/
theorem slot_end_le {i n : ℕ} (hi : i < n) :
  i * w + w ≤ n * w
  := by
  rw [← Nat.succ_mul]
  apply Nat.mul_le_mul_right w hi

@[simp]
theorem length_write
    {i n : ℕ} {x : List β} (hdata : data.length = n * w) (hi : i < n) (hx : x.length = w) :
  (write w data i x).length = data.length
  := by
  have h := slot_end_le (w := w) hi
  simp only [write, List.length_append, List.length_take, List.length_drop, Nat.succ_mul]
  omega

/-- A slot holds what was written to it. -/
theorem read_write_self
    {i n : ℕ} {x : List β} (hdata : data.length = n * w) (hi : i < n) (hx : x.length = w) :
  read w (write w data i x) i = x
  := by
  have h := slot_end_le (w := w) hi
  have hlen : (data.take (i * w)).length = i * w := by
    rw [List.length_take]
    omega
  rw [read, write, List.append_assoc, List.drop_left' hlen, List.take_left' hx]

/-- Writing to a slot does not change another slot. -/
theorem read_write_of_ne
    {i j n : ℕ} {x : List β} (hdata : data.length = n * w) (hi : i < n) (hx : x.length = w)
    (hij : j ≠ i) :
  read w (write w data i x) j = read w data j
  := by
  have h := slot_end_le (w := w) hi
  apply List.ext_getElem?
  intro k
  simp only [read, write, List.getElem?_take, List.getElem?_drop, List.append_assoc]
  split
  · rcases Nat.lt_or_gt_of_ne hij with hlt | hgt
    · -- slot `j` ends before slot `i`
      have hj := slot_end_le (w := w) hlt
      rw [List.getElem?_append_left (by rw [List.length_take]; omega), List.getElem?_take,
        if_pos (by omega)]
    · -- slot `j` starts after slot `i`
      have hj := slot_end_le (w := w) hgt
      rw [List.getElem?_append_right (by rw [List.length_take]; omega),
        List.getElem?_append_right (by rw [List.length_take]; omega), List.getElem?_drop]
      congr 1
      rw [List.length_take, Nat.succ_mul]
      omega
  · rfl

/-- The content of a slot within a block has the width of a slot. -/
theorem length_read {i n : ℕ} (hdata : data.length = n * w) (hi : i < n) :
  (read w data i).length = w
  := by
  have h := slot_end_le (w := w) hi
  rw [read, List.length_take, List.length_drop]
  omega

/-- The content of a slot is read from within the block. -/
theorem buffer_read {i n : ℕ} (hdata : data.length = n * w) (hi : i < n) :
  Buffer.read data (i * w) w = some (read w data i)
  := by
  have h := slot_end_le (w := w) hi
  rw [Buffer.read, if_pos (by omega), read]

/-- A slot is written within the block. -/
theorem buffer_write
    {i n : ℕ} {x : List β} (hdata : data.length = n * w) (hi : i < n) (hx : x.length = w) :
  Buffer.write data (i * w) x = some (write w data i x)
  := by
  have h := slot_end_le (w := w) hi
  rw [Buffer.write, hx, if_pos (by omega), write, Nat.succ_mul, List.append_assoc]

/-- The block after the contents of slots `i` and `j` were exchanged. -/
def exchange (w : ℕ) (data : List β) (i j : ℕ) : List β :=
  write w (write w data i (read w data j)) j (read w data i)

theorem length_exchange {i j n : ℕ} (hdata : data.length = n * w) (hi : i < n) (hj : j < n) :
  (exchange w data i j).length = data.length
  := by
  have hfirst := length_write hdata hi (length_read hdata hj)
  rw [exchange, length_write (hfirst.trans hdata) hj (length_read hdata hi), hfirst]

/-- After an exchange, a slot holds what the slot that it was exchanged with held. -/
theorem read_exchange
    {i j n : ℕ} (hdata : data.length = n * w) (hi : i < n) (hj : j < n) (k : ℕ) :
  read w (exchange w data i j) k = read w data (Equiv.swap i j k)
  := by
  have hx := length_read hdata hj
  have hy := length_read hdata hi
  have hfirst := (length_write hdata hi hx).trans hdata
  rw [exchange]
  by_cases hkj : k = j
  · rw [hkj, read_write_self hfirst hj hy, Equiv.swap_apply_right]
  · rw [read_write_of_ne hfirst hj hy hkj]
    by_cases hki : k = i
    · rw [hki, read_write_self hdata hi hx, Equiv.swap_apply_left]
    · rw [read_write_of_ne hdata hi hx hki, Equiv.swap_apply_of_ne_of_ne hki hkj]

/-! ### Arrays -/

/-- The contents of the first `len` slots. -/
def array (w : ℕ) (data : List β) (len : ℕ) : List (List β) :=
  (List.range len).map (read w data)

@[simp]
theorem length_array {len : ℕ} :
  (array w data len).length = len
  := by
  simp [array]

/-- The last of the slots is slot `len`. -/
theorem array_succ {len : ℕ} :
  array w data (len + 1) = array w data len ++ [read w data len]
  := by
  simp only [array, List.range_succ, List.map_append, List.map_cons, List.map_nil]

theorem getElem?_array {len i : ℕ} (hi : i < len) :
  (array w data len)[i]? = some (read w data i)
  := by
  rw [array, List.getElem?_map, List.getElem?_range hi, Option.map_some]

/-- Writing to the slot after the last one appends to the contents. -/
theorem array_write_last
    {n len : ℕ} {x : List β} (hdata : data.length = n * w) (hlen : len < n)
    (hx : x.length = w) :
  array w (write w data len x) (len + 1) = array w data len ++ [x]
  := by
  rw [array_succ, read_write_self hdata hlen hx]
  congr 1
  apply List.map_congr_left
  intro i hi
  apply read_write_of_ne hdata hlen hx (Nat.ne_of_lt (List.mem_range.mp hi))

/-- The contents of the first `len` slots are in the first `len * w` bytes. -/
theorem array_congr
    {data' : List β} {len k : ℕ} (hk : len * w ≤ k) (htake : data.take k = data'.take k) :
  array w data len = array w data' len
  := by
  apply List.map_congr_left
  intro i hi
  have hend := slot_end_le (w := w) (List.mem_range.mp hi)
  have hread : ∀ data : List β, read w data i = ((data.take k).drop (i * w)).take w := by
    intro data
    rw [read, List.drop_take, List.take_take, Nat.min_eq_left (by omega)]
  rw [hread data, hread data', htake]

/-! ### Rings -/

/-- The contents of `len` consecutive slots from slot `head` on, in a ring of `n`
slots. -/
def ring (w : ℕ) (data : List β) (n head len : ℕ) : List (List β) :=
  (List.range len).map fun k => read w data ((head + k) % n)

@[simp]
theorem length_ring {n head len : ℕ} :
  (ring w data n head len).length = len
  := by
  simp [ring]

/-- Two positions less than `n` apart in a ring of `n` slots are different slots. -/
theorem ring_index_ne {n head k l : ℕ} (hkl : k < l) (hl : l < k + n) :
  (head + k) % n ≠ (head + l) % n
  := by
  intro h
  have hdvd : n ∣ (head + l) - (head + k) :=
    Nat.dvd_of_mod_eq_zero (Nat.sub_mod_eq_zero_of_mod_eq h.symm)
  have hle := Nat.le_of_dvd (by omega) hdvd
  omega

/-- The last of the slots is `len` slots after `head`. -/
theorem ring_snoc {n head len : ℕ} :
  ring w data n head (len + 1) = ring w data n head len ++ [read w data ((head + len) % n)]
  := by
  simp only [ring, List.range_succ, List.map_append, List.map_cons, List.map_nil]

/-- The first of the slots is slot `head`. -/
theorem ring_succ {n head len : ℕ} (hhead : head < n) :
  ring w data n head (len + 1) = read w data head :: ring w data n ((head + 1) % n) len
  := by
  simp only [ring, List.range_succ_eq_map, List.map_cons, List.map_map, Nat.add_zero,
    Nat.mod_eq_of_lt hhead]
  congr 1
  apply List.map_congr_left
  intro k _
  simp only [Function.comp_apply, Nat.mod_add_mod]
  congr 2
  omega

/-- The contents of the slots, as a list that is not empty. -/
theorem ring_eq_cons
    {n head len : ℕ} {x : List β} {xs : List (List β)} (hhead : head < n)
    (h : ring w data n head len = x :: xs) :
  ∃ len', len = len' + 1 ∧ x = read w data head ∧ xs = ring w data n ((head + 1) % n) len'
  := by
  cases len with
  | zero => cases h
  | succ len' =>
      rw [ring_succ hhead] at h
      obtain ⟨rfl, rfl⟩ := List.cons.inj h
      use len'

/-- Writing to the slot after the last one does not change the contents of the slots
before it. -/
theorem ring_write
    {n head len : ℕ} {x : List β} (hdata : data.length = n * w) (hlen : len < n)
    (hx : x.length = w) :
  ring w (write w data ((head + len) % n) x) n head len = ring w data n head len
  := by
  apply List.map_congr_left
  intro k hk
  apply read_write_of_ne hdata (Nat.mod_lt _ (by omega)) hx
  apply ring_index_ne (List.mem_range.mp hk) (by omega)

/-- Writing to the slot after the last one appends to the contents. -/
theorem ring_write_last
    {n head len : ℕ} {x : List β} (hdata : data.length = n * w) (hlen : len < n)
    (hx : x.length = w) :
  ring w (write w data ((head + len) % n) x) n head (len + 1) = ring w data n head len ++ [x]
  := by
  rw [ring_snoc, ring_write hdata hlen hx,
    read_write_self hdata (Nat.mod_lt _ (by omega)) hx]

/-- Writing to the first slot of a ring that is full drops what was in it, when the ring then
starts at the next slot. -/
theorem ring_write_first
    {n head : ℕ} {x : List β} (hdata : data.length = n * w) (hhead : head < n)
    (hx : x.length = w) :
  ring w (write w data head x) n ((head + 1) % n) n = (ring w data n head n).tail ++ [x]
  := by
  obtain ⟨len, rfl⟩ : ∃ len, n = len + 1 := ⟨n - 1, by omega⟩
  have hlast : ((head + 1) % (len + 1) + len) % (len + 1) = head := by
    rw [Nat.mod_add_mod, Nat.add_assoc, Nat.add_comm 1, Nat.add_mod_right, Nat.mod_eq_of_lt hhead]
  have hwrite : ring w (write w data (((head + 1) % (len + 1) + len) % (len + 1)) x) (len + 1)
      ((head + 1) % (len + 1)) (len + 1)
    = ring w data (len + 1) ((head + 1) % (len + 1)) len ++ [x] :=
    ring_write_last hdata (Nat.lt_succ_self len) hx
  rw [hlast] at hwrite
  rw [hwrite, ring_succ hhead, List.tail_cons]

end Slots

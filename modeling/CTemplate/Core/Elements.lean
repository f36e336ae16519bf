import CTemplate.Core.Memory
import CTemplate.Library.Slots

/-!
# Arrays of elements

A container keeps elements of any type in one block of bytes and copies them in and out with
`memcpy`; the element with index `i` starts at byte `i * elem_size`.
-/

namespace CTemplate

/-- `memcpy(data + i * elem_size, elem, elem_size)`, or `none` when the product wraps around or
the element is outside the block. -/
def storeElem (elemSize : ℕ) (data : List Byte) (i : ℕ) (elem : List Byte) :
    Option (List Byte) :=
  (mulSize i elemSize).bind fun k => Buffer.write data k elem

/-- The bytes that `memcpy(out, data + i * elem_size, elem_size)` copies, or `none`. -/
def loadElem (elemSize : ℕ) (data : List Byte) (i : ℕ) : Option (List Byte) :=
  (mulSize i elemSize).bind fun k => Buffer.read data k elemSize

variable {w n i : ℕ} {data elem : List Byte}

/-- An element is stored within a block of `n` elements. -/
theorem storeElem_eq
    (hdata : data.length = n * w) (hsize : n * w ≤ sizeMax) (hi : i < n)
    (helem : elem.length = w) :
  storeElem w data i elem = some (Slots.write w data i elem)
  := by
  have hend := Slots.slot_end_le (w := w) hi
  rw [storeElem, mulSize_of_le (by omega), Option.bind_some, Slots.buffer_write hdata hi helem]

/-- An element is loaded from within a block of `n` elements. -/
theorem loadElem_eq (hdata : data.length = n * w) (hsize : n * w ≤ sizeMax) (hi : i < n) :
  loadElem w data i = some (Slots.read w data i)
  := by
  have hend := Slots.slot_end_le (w := w) hi
  rw [loadElem, mulSize_of_le (by omega), Option.bind_some, Slots.buffer_read hdata hi]

end CTemplate

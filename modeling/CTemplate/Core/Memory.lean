import Mathlib.Data.List.Basic
import Mathlib.Data.List.TakeWhile

/-!
# Sizes, pointers and allocation

Values of type `size_t` are natural numbers at most `sizeMax`; where an operation of the
source may wrap around, its result is reduced by `toSize`.  A `Malloc` is what calls of
`malloc` give: for every size either a block of that many bytes, of any content, or
nothing.  A `Calloc` says which arrays `calloc` gives, all of whose bytes are zero.
-/

namespace CTemplate

/-- A byte of memory. -/
abbrev Byte : Type := UInt8

/-- A pointer that the library stores and hands back but never follows. -/
abbrev Ptr : Type := UInt64

/-- The null pointer. -/
def nullPtr : Ptr := 0

/-- `SIZE_MAX`, for a `size_t` of 64 bits. -/
def sizeMax : ℕ := 18446744073709551615

/-- `PTRDIFF_MAX`, for a `ptrdiff_t` of 64 bits. -/
def ptrdiffMax : ℕ := 9223372036854775807

/-- The value of type `size_t` that an unsigned operation with result `n` gives. -/
def toSize (n : ℕ) : ℕ := n % (sizeMax + 1)

theorem toSize_of_le {n : ℕ} (h : n ≤ sizeMax) :
  toSize n = n
  := Nat.mod_eq_of_lt (Nat.lt_succ_of_le h)

/-- The sum of two sizes, or `none` when it wraps around. -/
def addSize (a b : ℕ) : Option ℕ :=
  if a + b ≤ sizeMax then some (a + b) else none

/-- The product of two sizes, or `none` when it wraps around. -/
def mulSize (a b : ℕ) : Option ℕ :=
  if a * b ≤ sizeMax then some (a * b) else none

/-- The difference of two sizes, or `none` when it wraps around. -/
def subSize (a b : ℕ) : Option ℕ :=
  if b ≤ a then some (a - b) else none

theorem addSize_of_le {a b : ℕ} (h : a + b ≤ sizeMax) :
  addSize a b = some (a + b)
  := if_pos h

theorem mulSize_of_le {a b : ℕ} (h : a * b ≤ sizeMax) :
  mulSize a b = some (a * b)
  := if_pos h

theorem subSize_of_le {a b : ℕ} (h : b ≤ a) :
  subSize a b = some (a - b)
  := if_pos h

/-- An element of `w` bytes that a caller passes by a pointer. -/
abbrev Elem (w : ℕ) : Type := { x : List Byte // x.length = w }

/-- A string: the bytes before the terminating zero byte. -/
abbrev CString : Type := { s : List Byte // 0 ∉ s }

/-- The string at the start of a buffer. -/
def cstr (buf : List Byte) : List Byte :=
  buf.takeWhile (· ≠ 0)

/-- `strlen` -/
def strlen (buf : List Byte) : ℕ :=
  (cstr buf).length

/-- A string in a buffer ends at the first zero byte. -/
theorem cstr_append {s : List Byte} (hs : 0 ∉ s) (tail : List Byte) :
  cstr (s ++ 0 :: tail) = s
  := by
  rw [cstr, List.takeWhile_append_of_pos, List.takeWhile_cons_of_neg (by simp), List.append_nil]
  intro c hc
  rw [decide_eq_true_iff]
  rintro rfl
  exact hs hc

/-- A text without zero bytes is a string. -/
theorem cstr_eq_self {s : List Byte} (hs : 0 ∉ s) :
  cstr s = s
  := by
  rw [cstr, List.takeWhile_eq_self_iff]
  intro c hc
  rw [decide_eq_true_iff]
  rintro rfl
  exact hs hc

/-- The outcome of `malloc(n)` for every size `n`: the content of the block, which has
`n` bytes, or `none` for a null pointer. -/
structure Malloc where
  block : ℕ → Option (List Byte)
  length_block : ∀ {n : ℕ} {b : List Byte}, block n = some b → b.length = n

/-- No block is larger than `PTRDIFF_MAX` bytes, as the C library documents. -/
def Malloc.RefusesHuge (malloc : Malloc) : Prop :=
  ∀ n, ptrdiffMax < n → malloc.block n = none

/-- The allocator that returns zeroed blocks of at most `limit` bytes. -/
def Malloc.upTo (limit : ℕ) : Malloc where
  block n := if n ≤ limit then some (List.replicate n 0) else none
  length_block := by
    intro n b h
    split at h
    · obtain rfl := Option.some.inj h
      apply List.length_replicate
    · cases h

theorem Malloc.refusesHuge_upTo {limit : ℕ} (h : limit ≤ ptrdiffMax) :
  (Malloc.upTo limit).RefusesHuge
  := by
  intro n hn
  apply if_neg
  omega

/-- `alignof(max_align_t)`, to which every address from `malloc` is aligned. -/
def maxAlign : ℕ := 16

/-- The outcome of `malloc(n)` for every size `n` as an address: a block of `n` bytes at an
address aligned for every standard type that does not reach the end of the address space,
or a null pointer. -/
structure MallocAddr where
  addr : UInt64 → Ptr
  dvd_addr : ∀ n, maxAlign ∣ (addr n).toNat
  add_le : ∀ n, addr n ≠ nullPtr → (addr n).toNat + n.toNat ≤ sizeMax

/-- The allocator that returns the address `p` for sizes up to `limit`. -/
def MallocAddr.at (p : Ptr) (limit : ℕ) (hp : maxAlign ∣ p.toNat)
    (hlimit : p.toNat + limit ≤ sizeMax) : MallocAddr where
  addr n := if n.toNat ≤ limit then p else nullPtr
  dvd_addr := by
    intro n
    split
    · exact hp
    · decide
  add_le := by
    intro n hn
    split at hn
    · rw [if_pos (by assumption)]
      omega
    · exact absurd rfl hn

/-- What a call of `realloc` does: the bytes that are new in the block it returns, or `none`
when it returns a null pointer. -/
abbrev Realloc : Type := Option (ℕ → Byte)

/-- The array `l` after a successful `realloc` to `n` elements: its elements are kept as
far as they fit, and the new ones are whatever `junk` says. -/
def reallocated {α : Type} (l : List α) (n : ℕ) (junk : ℕ → α) : List α :=
  (List.range n).map fun i => (l[i]?).getD (junk i)

@[simp]
theorem length_reallocated {α : Type} (l : List α) (n : ℕ) (junk : ℕ → α) :
  (reallocated l n junk).length = n
  := by
  rw [reallocated, List.length_map, List.length_range]

/-- A larger array keeps its elements. -/
theorem getElem?_reallocated
    {α : Type} {l : List α} {n i : ℕ} (hi : i < l.length) (hn : i < n) (junk : ℕ → α) :
  (reallocated l n junk)[i]? = l[i]?
  := by
  rw [reallocated, List.getElem?_map, List.getElem?_range hn, Option.map_some,
    List.getElem?_eq_getElem hi, Option.getD_some]

/-- A larger array starts with the elements of the smaller one. -/
theorem take_reallocated {α : Type} {l : List α} {n : ℕ} (h : l.length ≤ n) (junk : ℕ → α) :
  (reallocated l n junk).take l.length = l
  := by
  apply List.ext_getElem?
  intro i
  rw [List.getElem?_take]
  split
  case isTrue hi => exact getElem?_reallocated hi (Nat.lt_of_lt_of_le hi h) junk
  case isFalse hi => exact (List.getElem?_eq_none (Nat.le_of_not_lt hi)).symm

/-- The outcome of `calloc(n, size)` for every number `n` of elements of every size.  It
fails when the size of the array is not a `size_t`. -/
structure Calloc where
  grants : ℕ → ℕ → Bool
  mul_le : ∀ {n size : ℕ}, grants n size = true → n * size ≤ sizeMax

/-- The allocator of all arrays of at most `limit` bytes. -/
def Calloc.upTo (limit : ℕ) (h : limit ≤ sizeMax) : Calloc where
  grants n size := n * size ≤ limit
  mul_le := by
    intro n size hle
    apply Nat.le_trans _ h
    simpa using hle

end CTemplate

import CTemplate.Core.Error
import CTemplate.Core.Memory
import Mathlib.Algebra.Group.Defs

/-!
# Matrices

The matrices of `math/matx.c`.  Their elements are of an arbitrary type with a zero, which
stands for `float`.
-/

namespace CTemplate

/-- `MatX`, whose elements are stored row by row. -/
structure MatX (F : Type) where
  data : List F
  rows : ℕ
  cols : ℕ
  deriving DecidableEq

/-- The size of a `float`. -/
def floatSize : ℕ := 4

variable {F : Type}

/-- `matx_get`, or `none` for an index outside the data. -/
def matxGet (m : MatX F) (r c : ℕ) : Option F :=
  m.data[r * m.cols + c]?

/-- `checked_count` -/
def checkedCount (rows cols : ℕ) : Except ErrorCode ℕ :=
  if rows = 0 ∨ cols = 0 then .error .invalidArg
  else if rows > sizeMax / cols then .error .overflow
  else if rows * cols > sizeMax / floatSize then .error .overflow
  else .ok (rows * cols)

/-- `matx_init`: the matrix, or the error. -/
def matxInit [Zero F] (calloc : Calloc) (rows cols : ℕ) : Except ErrorCode (MatX F) :=
  match checkedCount rows cols with
  | .error err => .error err
  | .ok count =>
      if calloc.grants count floatSize then .ok ⟨List.replicate count 0, rows, cols⟩
      else .error .nomem

/-- A matrix made by `matx_init` has the given shape and is filled with zeros. -/
theorem matxInit_ok
    [Zero F] {calloc : Calloc} {rows cols : ℕ} {m : MatX F}
    (h : matxInit calloc rows cols = .ok m) :
  m = ⟨List.replicate (rows * cols) 0, rows, cols⟩
  := by
  rw [matxInit, checkedCount] at h
  split at h
  · cases h
  case h_2 count hcount =>
    split at hcount
    · cases hcount
    split at hcount
    · cases hcount
    split at hcount
    · cases hcount
    obtain rfl := Except.ok.inj hcount
    split at h
    · exact (Except.ok.inj h).symm
    · cases h

/-! ### Elements -/

/-- The index `r * cols + c`, or `none` when its computation wraps around. -/
def entryIndex (cols r c : ℕ) : Option ℕ :=
  (mulSize r cols).bind (addSize · c)

/-- The element `m->data[r * m->cols + c]`, or `none` when the index wraps around or is outside
the data. -/
def MatX.entry (m : MatX F) (r c : ℕ) : Option F :=
  (entryIndex m.cols r c).bind (m.data[·]?)

/-- The element in column `c` of row `r`. -/
def MatX.at [Zero F] (m : MatX F) (r c : ℕ) : F :=
  (m.data[r * m.cols + c]?).getD 0

/-- The shape and the number of elements are those of a matrix made by `matx_init`. -/
def MatX.Made (m : MatX F) : Prop :=
  checkedCount m.rows m.cols = .ok m.data.length

theorem matxInit_made
    [Zero F] {calloc : Calloc} {rows cols : ℕ} {m : MatX F}
    (h : matxInit calloc rows cols = .ok m) :
  m.Made
  := by
  obtain rfl := matxInit_ok h
  rw [matxInit] at h
  rw [MatX.Made, List.length_replicate]
  split at h
  · cases h
  case h_2 count hcount =>
    split at h
    · have hlength := congrArg (·.data.length) (Except.ok.inj h)
      simp only [List.length_replicate] at hlength
      rw [hcount, hlength]
    · cases h

theorem checkedCount_eq_ok {rows cols count : ℕ} (h : checkedCount rows cols = .ok count) :
  0 < rows ∧ 0 < cols ∧ count = rows * cols ∧ rows * cols * floatSize ≤ sizeMax
  := by
  rw [checkedCount] at h
  split at h
  · cases h
  case isFalse hpos =>
  split at h
  · cases h
  split at h
  · cases h
  case isFalse hsize =>
    obtain rfl := Except.ok.inj h
    rw [gt_iff_lt, not_lt, Nat.le_div_iff_mul_le (by decide)] at hsize
    exact ⟨by omega, by omega, rfl, hsize⟩

variable {m m' : MatX F} {r c r' c' : ℕ}

theorem MatX.Made.rows_pos (h : m.Made) : 0 < m.rows :=
  (checkedCount_eq_ok h).1

theorem MatX.Made.cols_pos (h : m.Made) : 0 < m.cols :=
  (checkedCount_eq_ok h).2.1

theorem MatX.Made.length_data (h : m.Made) : m.data.length = m.rows * m.cols :=
  (checkedCount_eq_ok h).2.2.1

theorem MatX.Made.size_le (h : m.Made) : m.rows * m.cols * floatSize ≤ sizeMax :=
  (checkedCount_eq_ok h).2.2.2

/-- A matrix has far fewer rows and columns than there are sizes. -/
theorem MatX.Made.rows_le (h : m.Made) : m.rows * floatSize ≤ sizeMax :=
  Nat.le_trans (Nat.mul_le_mul_right _ (Nat.le_mul_of_pos_right _ h.cols_pos)) h.size_le

theorem MatX.Made.cols_le (h : m.Made) : m.cols * floatSize ≤ sizeMax :=
  Nat.le_trans (Nat.mul_le_mul_right _ (Nat.le_mul_of_pos_left _ h.rows_pos)) h.size_le

theorem MatX.Made.data_ne_nil (h : m.Made) :
  m.data ≠ []
  := by
  rw [← List.length_pos_iff, h.length_data]
  apply Nat.mul_pos h.rows_pos h.cols_pos

theorem entry_lt {rows cols : ℕ} (hr : r < rows) (hc : c < cols) :
  r * cols + c < rows * cols
  := by
  have hle := Nat.mul_le_mul_right cols (Nat.succ_le_of_lt hr)
  rw [Nat.succ_mul] at hle
  omega

theorem entry_inj {cols : ℕ} (hc : c < cols) (hc' : c' < cols) :
  r * cols + c = r' * cols + c' ↔ r = r' ∧ c = c'
  := by
  constructor
  · intro h
    have hcols : 0 < cols := Nat.zero_lt_of_lt hc
    have hr : r = r' := by
      have hdiv := congrArg (· / cols) h
      simpa only [Nat.mul_comm _ cols, Nat.mul_add_div hcols, Nat.div_eq_of_lt hc,
        Nat.div_eq_of_lt hc', Nat.add_zero] using hdiv
    subst hr
    exact ⟨rfl, Nat.add_left_cancel h⟩
  · rintro ⟨rfl, rfl⟩
    rfl

theorem MatX.Made.index_lt (h : m.Made) (hr : r < m.rows) (hc : c < m.cols) :
  r * m.cols + c < m.data.length
  := by
  rw [h.length_data]
  apply entry_lt hr hc

/-- The index of an element is computed without wrapping around. -/
theorem MatX.Made.entryIndex_eq (h : m.Made) (hr : r < m.rows) (hc : c < m.cols) :
  entryIndex m.cols r c = some (r * m.cols + c)
  := by
  have hlt := h.index_lt hr hc
  have hle := Nat.le_trans (Nat.le_mul_of_pos_right _ (by decide)) h.size_le
  rw [h.length_data] at hlt
  rw [entryIndex, mulSize_of_le (by omega), Option.bind_some, addSize_of_le (by omega)]

theorem MatX.Made.getElem?_eq [Zero F] (h : m.Made) (hr : r < m.rows) (hc : c < m.cols) :
  m.data[r * m.cols + c]? = some (m.at r c)
  := by
  rw [MatX.at, List.getElem?_eq_getElem (h.index_lt hr hc), Option.getD_some]

theorem MatX.Made.entry_eq [Zero F] (h : m.Made) (hr : r < m.rows) (hc : c < m.cols) :
  m.entry r c = some (m.at r c)
  := by
  rw [MatX.entry, h.entryIndex_eq hr hc, Option.bind_some, h.getElem?_eq hr hc]

/-- A matrix is given by its shape and its elements. -/
theorem MatX.Made.ext
    [Zero F] (h : m.Made) (h' : m'.Made) (hrows : m.rows = m'.rows) (hcols : m.cols = m'.cols)
    (hat : ∀ r c, r < m.rows → c < m.cols → m.at r c = m'.at r c) :
  m = m'
  := by
  have hdata : m.data = m'.data := by
    apply List.ext_getElem?
    intro n
    by_cases hn : n < m.data.length
    · have hcolsPos := h.cols_pos
      rw [h.length_data] at hn
      have hr : n / m.cols < m.rows := Nat.div_lt_of_lt_mul (by rwa [Nat.mul_comm] at hn)
      have hc : n % m.cols < m.cols := Nat.mod_lt n hcolsPos
      have hget := h.getElem?_eq hr hc
      have hget' := h'.getElem?_eq (hrows ▸ hr) (hcols ▸ hc)
      rw [← hcols] at hget'
      rw [Nat.div_add_mod'] at hget hget'
      rw [hget, hget', hat _ _ hr hc]
    · rw [List.getElem?_eq_none (by omega), List.getElem?_eq_none]
      rw [h'.length_data, ← hrows, ← hcols, ← h.length_data]
      omega
  cases m
  cases m'
  cases hdata
  cases hrows
  cases hcols
  rfl

/-- A matrix made by `matx_init` for the given numbers of rows and columns. -/
structure MatX.Shaped (m : MatX F) (rows cols : ℕ) : Prop where
  made : m.Made
  rows_eq : m.rows = rows
  cols_eq : m.cols = cols

variable {a out : MatX F} {n k : ℕ}

/-- Data of the right length makes a matrix of the same shape. -/
theorem MatX.Shaped.with_data
    (h : out.Shaped n k) {data : List F} (hlength : data.length = out.data.length) :
  { out with data }.Shaped n k
  where
  made := by
    rw [MatX.Made, hlength]
    exact h.made
  rows_eq := h.rows_eq
  cols_eq := h.cols_eq

theorem MatX.Shaped.length_data (h : out.Shaped n k) :
  out.data.length = n * k
  := by
  rw [h.made.length_data, h.rows_eq, h.cols_eq]

/-- An element of a matrix of a given shape. -/
theorem MatX.Shaped.getElem?_eq [Zero F] (h : a.Shaped n k) {r c : ℕ} (hr : r < n) (hc : c < k) :
  a.data[r * k + c]? = some (a.at r c)
  := by
  have hget := h.made.getElem?_eq (r := r) (c := c) (by rwa [h.rows_eq]) (by rwa [h.cols_eq])
  rwa [h.cols_eq] at hget

theorem MatX.Shaped.entry_eq [Zero F] (h : a.Shaped n k) {r c : ℕ} (hr : r < n) (hc : c < k) :
  a.entry r c = some (a.at r c)
  := h.made.entry_eq (by rwa [h.rows_eq]) (by rwa [h.cols_eq])

theorem MatX.Shaped.entryIndex_eq (h : a.Shaped n k) {r c : ℕ} (hr : r < n) (hc : c < k) :
  entryIndex k r c = some (r * k + c)
  := by
  have hindex := h.made.entryIndex_eq (r := r) (c := c) (by rwa [h.rows_eq]) (by rwa [h.cols_eq])
  rwa [h.cols_eq] at hindex

theorem MatX.Shaped.data_ne_nil (h : a.Shaped n k) : a.data ≠ [] :=
  h.made.data_ne_nil

/-! ### Rows -/

/-- The number of elements in rows of one length. -/
theorem length_flatten {rows : List (List F)} {cols : ℕ}
    (hcols : ∀ row ∈ rows, row.length = cols) :
  rows.flatten.length = rows.length * cols
  := by
  induction rows with
  | nil => rw [List.flatten_nil, List.length_nil, List.length_nil, Nat.zero_mul]
  | cons row rows ih =>
      obtain ⟨hrow, hrows⟩ := List.forall_mem_cons.mp hcols
      rw [List.flatten_cons, List.length_append, List.length_cons, ih hrows, hrow, Nat.succ_mul,
        Nat.add_comm]

/-- Rows of one length stored one after the other: the element in column `c` of row `r`. -/
theorem getElem?_flatten
    {rows : List (List F)} {cols : ℕ} (hcols : ∀ row ∈ rows, row.length = cols) {c : ℕ}
    (hc : c < cols) (r : ℕ) :
  rows.flatten[r * cols + c]? = rows[r]?.bind (·[c]?)
  := by
  induction rows generalizing r with
  | nil => rfl
  | cons row rows ih =>
      obtain ⟨hrow, hrows⟩ := List.forall_mem_cons.mp hcols
      rw [List.flatten_cons]
      cases r with
      | zero =>
          rw [Nat.zero_mul, Nat.zero_add, List.getElem?_append_left (by omega)]
          rfl
      | succ r =>
          rw [List.getElem?_append_right (by rw [Nat.succ_mul]; omega), List.getElem?_cons_succ,
            ← ih hrows]
          congr 1
          rw [Nat.succ_mul]
          omega

end CTemplate

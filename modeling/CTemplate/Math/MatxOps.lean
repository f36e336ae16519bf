import CTemplate.Library.Loop
import CTemplate.Math.Matx

/-!
# Matrix operations element by element

The functions of `math/matx.c` that map the elements of a matrix, multiply those of two, add a
row to all rows, sum the columns, and transpose.  Their elements are of an arbitrary type.

A function gives `none` when the computation of an index wraps around or an index is outside the
data.
-/

namespace CTemplate

open Loop

variable {F : Type}

/-! ### The operations -/

/-- `out->data[i] = f(i)` for all indices `i` below `rows * cols`. -/
def assignAll (rows cols : ℕ) (f : ℕ → Option F) (out : MatX F) :
    Option (MatX F × ErrorCode) :=
  (mulSize rows cols).bind fun count =>
    (forRange 0 count (fun i data => (f i).bind fun x => update (fun _ y => y) data i x)
      out.data).map fun data => ({ out with data }, .ok)

/-- `check_elementwise` -/
def checkElementwise (a b out : MatX F) : ErrorCode :=
  if a.data = [] ∨ b.data = [] ∨ out.data = [] then .invalidArg
  else if a.rows ≠ b.rows ∨ a.cols ≠ b.cols then .invalidArg
  else if out.rows ≠ a.rows ∨ out.cols ≠ a.cols then .invalidArg
  else .ok

/-- `matx_hadamard`.  Here and in `matx_map` and `matx_add_row`, `out` may be `a`: an element is
read before it is written. -/
def matxHadamard [Mul F] (a b out : MatX F) : Option (MatX F × ErrorCode) :=
  let err := checkElementwise a b out
  if err ≠ .ok then some (out, err)
  else
    assignAll a.rows a.cols
      (fun i => a.data[i]?.bind fun x => b.data[i]?.map fun y => x * y) out

/-- `matx_map` -/
def matxMap (a : MatX F) (fn : F → F) (out : MatX F) : Option (MatX F × ErrorCode) :=
  if a.data = [] ∨ out.data = [] then some (out, .invalidArg)
  else if out.rows ≠ a.rows ∨ out.cols ≠ a.cols then some (out, .invalidArg)
  else assignAll a.rows a.cols (fun i => a.data[i]?.map fn) out

/-- `matx_add_row` -/
def matxAddRow [Add F] (a row out : MatX F) : Option (MatX F × ErrorCode) :=
  if a.data = [] ∨ row.data = [] ∨ out.data = [] then some (out, .invalidArg)
  else if row.rows ≠ 1 ∨ row.cols ≠ a.cols then some (out, .invalidArg)
  else if out.rows ≠ a.rows ∨ out.cols ≠ a.cols then some (out, .invalidArg)
  else
    (forRange 0 a.rows (fun r => forRange 0 a.cols fun c data =>
      (a.entry r c).bind fun x => row.data[c]?.bind fun y =>
        (entryIndex a.cols r c).bind fun n => update (fun _ z => z) data n (x + y))
      out.data).map fun data => ({ out with data }, .ok)

/-- `matx_col_sums`, where `aliased` says whether `out` shares its data with `a`. -/
def matxColSums [Zero F] [Add F] (a out : MatX F) (aliased : Bool) :
    Option (MatX F × ErrorCode) :=
  if a.data = [] ∨ out.data = [] then some (out, .invalidArg)
  else if out.rows ≠ 1 ∨ out.cols ≠ a.cols ∨ aliased then some (out, .invalidArg)
  else
    (forRange 0 a.cols (fun c data => update (fun _ y => y) data c 0) out.data).bind fun data =>
      (forRange 0 a.rows (fun r => forRange 0 a.cols fun c data =>
        (a.entry r c).bind fun x => update (· + ·) data c x) data).map fun data =>
          ({ out with data }, .ok)

/-- `matx_transpose`, where `aliased` says whether `out` shares its data with `a`. -/
def matxTranspose (a out : MatX F) (aliased : Bool) : Option (MatX F × ErrorCode) :=
  if a.data = [] ∨ out.data = [] then some (out, .invalidArg)
  else if out.rows ≠ a.cols ∨ out.cols ≠ a.rows then some (out, .invalidArg)
  else if aliased then some (out, .invalidArg)
  else
    (forRange 0 a.rows (fun r => forRange 0 a.cols fun c data =>
      (a.entry r c).bind fun x => (entryIndex out.cols c r).bind fun n =>
        update (fun _ y => y) data n x) out.data).map fun data => ({ out with data }, .ok)

/-- `matx_set`: the matrix after the write, or `none` when the index wraps around or is outside the
data. -/
def matxSet (m : MatX F) (r c : ℕ) (v : F) : Option (MatX F) :=
  (entryIndex m.cols r c).bind fun i =>
    (update (fun _ x => x) m.data i v).map fun data => { m with data }

/-! ### Filling a matrix -/

variable {a b out row : MatX F} {n m k : ℕ}

/-- Updates within the matrix, one for each element. -/
structure Fills (n m : ℕ) (us : List (ℕ × F)) (f : ℕ → ℕ → F) : Prop where
  lt : ∀ u ∈ us, u.1 < n * m
  contributions_eq : ∀ {r c}, r < n → c < m → contributions us (r * m + c) = [f r c]

/-- The elements of a matrix that was filled. -/
theorem MatX.Shaped.fill
    [Zero F] (h : out.Shaped n m) {us : List (ℕ × F)} {f : ℕ → ℕ → F} (hus : Fills n m us f) :
  ∃ data, run (fun _ y => y) out.data us = some data ∧ { out with data }.Shaped n m
    ∧ ∀ r c, r < n → c < m → MatX.at { out with data } r c = f r c
  := by
  have hlt : ∀ u ∈ us, u.1 < out.data.length := by
    rw [h.length_data]
    exact hus.lt
  obtain ⟨data, hrun, hlength, hget⟩ := exists_run (fun _ y => y) hlt
  refine ⟨data, hrun, h.with_data hlength, ?_⟩
  intro r c hr hc
  have hin : r * m + c < out.data.length := by
    rw [h.length_data]
    apply entry_lt hr hc
  rw [MatX.at]
  dsimp only
  rw [h.cols_eq, hget, hus.contributions_eq hr hc, List.getElem?_eq_getElem hin]
  rfl

/-- The matrix has `n` rows and `m` columns, and `f r c` is its element in row `r` and column
`c`. -/
structure MatX.Holds [Zero F] (x : MatX F) (n m : ℕ) (f : ℕ → ℕ → F) : Prop where
  shaped : x.Shaped n m
  at_eq : ∀ {r c}, r < n → c < m → x.at r c = f r c

theorem MatX.Holds.congr
    [Zero F] {x : MatX F} {f g : ℕ → ℕ → F} (h : x.Holds n m f)
    (hfg : ∀ r c, r < n → c < m → f r c = g r c) :
  x.Holds n m g
  where
  shaped := h.shaped
  at_eq hr hc := (h.at_eq hr hc).trans (hfg _ _ hr hc)

/-- A write within the matrix changes one element. -/
theorem MatX.Holds.exists_matxSet
    [Zero F] {x : MatX F} {f : ℕ → ℕ → F} (h : x.Holds n m f) {r c : ℕ} (hr : r < n) (hc : c < m)
    (v : F) :
  ∃ x', matxSet x r c v = some x' ∧ x'.Holds n m fun i j => if i = r ∧ j = c then v else f i j
  := by
  have hin : r * m + c < x.data.length := by
    rw [h.shaped.length_data]
    apply entry_lt hr hc
  refine ⟨{ x with data := x.data.set (r * m + c) v }, ?_, h.shaped.with_data List.length_set, ?_⟩
  · rw [matxSet, h.shaped.cols_eq, h.shaped.entryIndex_eq hr hc, Option.bind_some, update,
      List.getElem?_eq_getElem hin]
    rfl
  · intro i j hi hj
    rw [← h.at_eq hi hj]
    simp only [MatX.at, h.shaped.cols_eq]
    split
    case isTrue heq =>
      rw [heq.1, heq.2, List.getElem?_set_self hin, Option.getD_some]
    case isFalse hne =>
      have hindex : r * m + c ≠ i * m + j := by
        rw [ne_eq, entry_inj hc hj]
        exact fun heq => hne ⟨heq.1.symm, heq.2.symm⟩
      rw [List.getElem?_set_ne hindex]

theorem MatX.Shaped.assignAll
    [Zero F] (h : out.Shaped n m) {f : ℕ → Option F} {g : ℕ → ℕ → F}
    (hf : ∀ r c, r < n → c < m → f (r * m + c) = some (g r c)) :
  ∃ out', assignAll n m f out = some (out', .ok) ∧ out'.Shaped n m
    ∧ ∀ r c, r < n → c < m → out'.at r c = g r c
  := by
  have hsize := h.made.size_le
  rw [h.rows_eq, h.cols_eq] at hsize
  have hm : 0 < m := h.cols_eq ▸ h.made.cols_pos
  have hfills : Fills n m
      ((List.range' 0 (n * m - 0)).flatMap fun i => [(i, g (i / m) (i % m))]) g := by
    constructor
    · intro u hu
      simp only [List.mem_flatMap, List.mem_range'_1, List.mem_singleton] at hu
      obtain ⟨i, hi, rfl⟩ := hu
      dsimp only
      omega
    · intro r c hr hc
      rw [contributions_range _ ⟨Nat.zero_le _, entry_lt hr hc⟩, Nat.mul_comm r m,
        Nat.mul_add_div hm, Nat.div_eq_of_lt hc, Nat.mul_add_mod, Nat.mod_eq_of_lt hc, Nat.add_zero]
  obtain ⟨data, hrun, hshaped, hat⟩ := h.fill hfills
  rw [← forRange_run] at hrun
  have hloop : forRange 0 (n * m)
      (fun i data => (f i).bind fun x => update (fun _ y => y) data i x) out.data = some data := by
    rw [← hrun]
    apply forRange_congr
    intro i _ hi data
    have hr : i / m < n := Nat.div_lt_of_lt_mul (by rwa [Nat.mul_comm] at hi)
    have hget := hf (i / m) (i % m) hr (Nat.mod_lt i hm)
    rw [Nat.div_add_mod'] at hget
    rw [hget, Option.bind_some, update_eq_run]
  rw [CTemplate.assignAll,
    mulSize_of_le (Nat.le_trans (Nat.le_mul_of_pos_right _ (by decide)) hsize), Option.bind_some,
    hloop]
  exact ⟨_, rfl, hshaped, hat⟩

/-! ### What the operations make -/

theorem MatX.Shaped.map [Zero F] (ha : a.Shaped n m) (hout : out.Shaped n m) (fn : F → F) :
  ∃ out', matxMap a fn out = some (out', .ok) ∧ out'.Shaped n m
    ∧ ∀ r c, r < n → c < m → out'.at r c = fn (a.at r c)
  := by
  have hdata : ¬ (a.data = [] ∨ out.data = []) := not_or.mpr ⟨ha.data_ne_nil, hout.data_ne_nil⟩
  have hshape : ¬ (out.rows ≠ a.rows ∨ out.cols ≠ a.cols) := by
    rw [ha.rows_eq, ha.cols_eq, hout.rows_eq, hout.cols_eq]
    simp
  rw [matxMap, if_neg hdata, if_neg hshape, ha.rows_eq, ha.cols_eq]
  apply hout.assignAll
  intro r c hr hc
  rw [ha.getElem?_eq hr hc, Option.map_some]

theorem MatX.Shaped.hadamard
    [Zero F] [Mul F] (ha : a.Shaped n m) (hb : b.Shaped n m) (hout : out.Shaped n m) :
  ∃ out', matxHadamard a b out = some (out', .ok) ∧ out'.Shaped n m
    ∧ ∀ r c, r < n → c < m → out'.at r c = a.at r c * b.at r c
  := by
  have hcheck : checkElementwise a b out = .ok := by
    rw [checkElementwise, if_neg, if_neg, if_neg]
    · rw [ha.rows_eq, ha.cols_eq, hout.rows_eq, hout.cols_eq]
      simp
    · rw [ha.rows_eq, ha.cols_eq, hb.rows_eq, hb.cols_eq]
      simp
    · simp only [ha.data_ne_nil, hb.data_ne_nil, hout.data_ne_nil, or_self, not_false_eq_true]
  simp only [matxHadamard, hcheck, ne_eq, not_true_eq_false, if_false]
  rw [ha.rows_eq, ha.cols_eq]
  apply hout.assignAll
  intro r c hr hc
  rw [ha.getElem?_eq hr hc, hb.getElem?_eq hr hc]
  rfl

/-- Two nested loops that set every element of a matrix once. -/
theorem MatX.Shaped.fill_grid
    [Zero F] (h : out.Shaped n m) {k l : ℕ} (row col : ℕ → ℕ → ℕ) {f g : ℕ → ℕ → F}
    {body : ℕ → ℕ → List F → Option (List F)}
    (hbody : ∀ r c data, r < k → c < l →
      body r c data = update (fun _ x => x) data (row r c * m + col r c) (f r c))
    (hin : ∀ r c, r < k → c < l → row r c < n ∧ col r c < m)
    (hall : ∀ i j, i < n → j < m → ∃ r c, r < k ∧ c < l ∧ f r c = g i j
      ∧ ∀ r' c', r' < k → c' < l → (row r' c' = i ∧ col r' c' = j ↔ r' = r ∧ c' = c)) :
  ∃ data, forRange 0 k (fun r => forRange 0 l (body r)) out.data = some data
    ∧ { out with data }.Shaped n m ∧ ∀ i j, i < n → j < m → MatX.at { out with data } i j = g i j
  := by
  rw [forRange_grid hbody]
  apply h.fill
  constructor
  · intro u hu
    obtain ⟨r, c, hr, hc, rfl⟩ := exists_of_mem_grid hu
    obtain ⟨hrow, hcol⟩ := hin r c hr hc
    apply entry_lt hrow hcol
  · intro i j hi hj
    obtain ⟨r, c, hr, hc, hf, hone⟩ := hall i j hi hj
    rw [← hf]
    apply contributions_grid f hr hc
    intro r' c' hr' hc'
    rw [entry_inj (hin r' c' hr' hc').2 hj, hone r' c' hr' hc']

theorem MatX.Shaped.addRow
    [Zero F] [Add F] (ha : a.Shaped n m) (hrow : row.Shaped 1 m) (hout : out.Shaped n m) :
  ∃ out', matxAddRow a row out = some (out', .ok) ∧ out'.Shaped n m
    ∧ ∀ r c, r < n → c < m → out'.at r c = a.at r c + row.at 0 c
  := by
  have hbody : ∀ r c data, r < n → c < m →
      ((a.entry r c).bind fun x => row.data[c]?.bind fun y =>
        (entryIndex m r c).bind fun k => update (fun _ z => z) data k (x + y))
      = update (fun _ z => z) data (r * m + c) (a.at r c + row.at 0 c) := by
    intro r c data hr hc
    have hget := hrow.getElem?_eq Nat.zero_lt_one hc
    rw [Nat.zero_mul, Nat.zero_add] at hget
    rw [ha.entry_eq hr hc, hget, ha.entryIndex_eq hr hc]
    rfl
  obtain ⟨data, hloop, hshaped, hat⟩ :=
    hout.fill_grid (fun r _ => r) (fun _ c => c) hbody (fun _ _ hr hc => ⟨hr, hc⟩)
      fun i j hi hj => ⟨i, j, hi, hj, rfl, fun _ _ _ _ => Iff.rfl⟩
  rw [matxAddRow, if_neg, if_neg, if_neg, ha.rows_eq, ha.cols_eq, hloop]
  · exact ⟨_, rfl, hshaped, hat⟩
  · rw [ha.rows_eq, ha.cols_eq, hout.rows_eq, hout.cols_eq]
    simp
  · rw [hrow.rows_eq, hrow.cols_eq, ha.cols_eq]
    simp
  · simp only [ha.data_ne_nil, hrow.data_ne_nil, hout.data_ne_nil, or_self, not_false_eq_true]

theorem MatX.Shaped.transpose [Zero F] (ha : a.Shaped n m) (hout : out.Shaped m n) :
  ∃ out', matxTranspose a out false = some (out', .ok) ∧ out'.Shaped m n
    ∧ ∀ r c, r < m → c < n → out'.at r c = a.at c r
  := by
  have hbody : ∀ r c data, r < n → c < m →
      ((a.entry r c).bind fun x => (entryIndex out.cols c r).bind fun k =>
        update (fun _ y => y) data k x)
      = update (fun _ y => y) data (c * n + r) (a.at r c) := by
    intro r c data hr hc
    rw [ha.entry_eq hr hc, hout.cols_eq, hout.entryIndex_eq hc hr]
    rfl
  obtain ⟨data, hloop, hshaped, hat⟩ :=
    hout.fill_grid (fun _ c => c) (fun r _ => r) hbody (fun _ _ hr hc => ⟨hc, hr⟩)
      fun i j hi hj => ⟨j, i, hj, hi, rfl, fun _ _ _ _ => and_comm⟩
  rw [matxTranspose, if_neg, if_neg, if_neg (by decide), ha.rows_eq, ha.cols_eq, hloop]
  · exact ⟨_, rfl, hshaped, hat⟩
  · rw [ha.rows_eq, ha.cols_eq, hout.rows_eq, hout.cols_eq]
    simp
  · simp only [ha.data_ne_nil, hout.data_ne_nil, or_self, not_false_eq_true]

/-- The loop of `matx_col_sums` that clears the sums. -/
theorem MatX.Shaped.clearRow [Zero F] (hout : out.Shaped 1 m) :
  ∃ data, forRange 0 m (fun c data => update (fun _ y => y) data c (0 : F)) out.data = some data
    ∧ { out with data }.Shaped 1 m ∧ ∀ c, c < m → data[c]? = some 0
  := by
  have hfills : Fills 1 m ((List.range' 0 (m - 0)).flatMap fun c => [(c, (0 : F))])
      (fun _ _ => 0) := by
    constructor
    · intro u hu
      simp only [List.mem_flatMap, List.mem_range'_1, List.mem_singleton] at hu
      obtain ⟨c, hc, rfl⟩ := hu
      dsimp only
      omega
    · intro r c hr hc
      obtain rfl : r = 0 := by omega
      rw [Nat.zero_mul, Nat.zero_add]
      apply contributions_range (fun _ => (0 : F)) ⟨Nat.zero_le c, hc⟩
  obtain ⟨data, hrun, hshaped, hat⟩ := hout.fill hfills
  refine ⟨data, ?_, hshaped, ?_⟩
  · rw [← hrun, ← forRange_run]
    apply forRange_congr
    intro c _ _ data
    apply update_eq_run
  · intro c hc
    have hzero := hshaped.getElem?_eq Nat.zero_lt_one hc
    rw [hat 0 c Nat.zero_lt_one hc, Nat.zero_mul, Nat.zero_add] at hzero
    exact hzero

/-- The sums of the columns, added up from zero in the order of the rows. -/
theorem MatX.Shaped.colSums
    [Zero F] [Add F] (ha : a.Shaped n m) (hout : out.Shaped 1 m) :
  ∃ out', matxColSums a out false = some (out', .ok) ∧ out'.Shaped 1 m
    ∧ ∀ c, c < m → out'.at 0 c = (List.range n).foldl (fun sum r => sum + a.at r c) 0
  := by
  obtain ⟨zeros, hclear, hzeros, hget₀⟩ := hout.clearRow
  have hbody : ∀ r c data, r < n → c < m →
      ((a.entry r c).bind fun x => update (· + ·) data c x)
      = update (· + ·) data c (a.at r c) := by
    intro r c data hr hc
    rw [ha.entry_eq hr hc]
    rfl
  have hin : ∀ u ∈ grid n m (fun _ c => c) a.at, u.1 < zeros.length := by
    intro u hu
    have hlength : zeros.length = 1 * m := hzeros.length_data
    obtain ⟨r, c, hr, hc, rfl⟩ := exists_of_mem_grid hu
    dsimp only
    omega
  obtain ⟨data, hrun, hlength, hget⟩ := exists_run (· + ·) hin
  rw [matxColSums, if_neg, if_neg, ha.rows_eq, ha.cols_eq, hclear, Option.bind_some,
    forRange_grid hbody, hrun]
  · refine ⟨_, rfl, hzeros.with_data hlength, ?_⟩
    intro c hc
    rw [MatX.at]
    dsimp only
    rw [Nat.zero_mul, Nat.zero_add, hget, hget₀ c hc, contributions_columns _ hc, Option.map_some,
      Option.getD_some, List.foldl_map]
  · rw [ha.cols_eq, hout.rows_eq, hout.cols_eq]
    simp
  · simp only [ha.data_ne_nil, hout.data_ne_nil, or_self, not_false_eq_true]

end CTemplate

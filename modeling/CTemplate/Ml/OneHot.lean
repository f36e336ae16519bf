import CTemplate.Library.Rounding
import CTemplate.Math.MatxMul
import CTemplate.Math.MatxOps

/-!
# One-hot labels

`dataset_one_hot` of `ml/dataset.c`, for the values of type `float`: numbers, infinities, and not a
number.  The conversion of a `float` to `size_t`, which C leaves undefined for most of them, is a
parameter.

Every label that passes the check is a number from zero up to the count of classes, unless it is not
a number: comparisons with it are false, so that it passes too.
-/

namespace CTemplate

open BinaryFloat

/-! ### The function -/

/-- The numbers of type `float`. -/
def binary32 : Format where
  precision := 24
  precision_pos := Nat.succ_pos 23
  lowest := 149
  highest := 104

/-- `float` -/
abbrev Binary32 : Type := Datum binary32

/-- `v < 0.0f || v >= (float)classes` -/
def labelRejected (classes : ℕ) (v : Binary32) : Bool :=
  v.lt 0 || (Datum.ofNat binary32 classes).le v

/-- The loop of `dataset_one_hot` over the rows from `r` on, at most `rounds` of them. -/
def oneHotRows (cast : Binary32 → Option ℕ) (labels : MatX Binary32) (classes : ℕ) :
    ℕ → ℕ → MatX Binary32 → Option (MatX Binary32 × ErrorCode)
  | 0, _, out => some (out, .ok)
  | rounds + 1, r, out =>
      (labels.entry r 0).bind fun v =>
        if labelRejected classes v then some (out, .invalidArg)
        else
          (cast v).bind fun c =>
            (matxSet out r c 1).bind (oneHotRows cast labels classes rounds (r + 1))

/-- `dataset_one_hot` for two matrices that do not share their data: the matrix `out` after the
call, and the code returned. -/
def datasetOneHot
    (cast : Binary32 → Option ℕ) (labels : MatX Binary32) (classes : ℕ) (out : MatX Binary32) :
    Option (MatX Binary32 × ErrorCode) :=
  if labels.data = [] ∨ labels.cols ≠ 1 ∨ classes = 0 then some (out, .invalidArg)
  else if out.data = [] ∨ out.rows ≠ labels.rows ∨ out.cols ≠ classes then some (out, .invalidArg)
  else
    (clearData out).bind fun data =>
      oneHotRows cast labels classes labels.rows 0 { out with data }

/-- `(size_t)v`, where it is defined. -/
def sizeCast (v : Binary32) : Option ℕ :=
  v.truncate (sizeMax + 1)

/-! ### The rows that are filled -/

/-- A conversion drops the fraction of the numbers from zero up to `n`. -/
def TruncatesBelow (n : ℕ) (cast : Binary32 → Option ℕ) : Prop :=
  ∀ (x : ℚ) h, 0 ≤ x → x < n → cast (.finite x h) = some ⌊x⌋₊

/-- The rows before row `k` are one-hot at their labels, which are numbers from zero up to
`classes`, and the other rows are zero. -/
structure OneHotBelow (labels : MatX Binary32) (classes k : ℕ) (out : MatX Binary32) : Prop where
  shaped : out.Shaped labels.rows classes
  hot : ∀ r < k, ∃ (x : ℚ) (h : _), labels.at r 0 = .finite x h ∧ 0 ≤ x ∧ x < classes
    ∧ ∀ c < classes, out.at r c = if c = ⌊x⌋₊ then 1 else 0
  clear : ∀ r, k ≤ r → r < labels.rows → ∀ c < classes, out.at r c = 0

/-- The call returns `ERR_OK` and fills all rows, or it returns `ERR_INVALID_ARG` and fills those
before a row. -/
def OneHotResult
    (labels : MatX Binary32) (classes : ℕ) (result : Option (MatX Binary32 × ErrorCode)) : Prop :=
  ∃ out err, result = some (out, err)
    ∧ (err = .ok ∧ OneHotBelow labels classes labels.rows out
      ∨ err = .invalidArg ∧ (0 < classes → ∃ k < labels.rows, OneHotBelow labels classes k out))

variable {labels out : MatX Binary32} {classes k : ℕ} {cast : Binary32 → Option ℕ}

theorem truncatesBelow_sizeCast (h : classes ≤ sizeMax) :
  TruncatesBelow classes sizeCast
  := by
  intro x hx hzero hlt
  have hrange : -1 < x ∧ x < (sizeMax + 1 : ℕ) := by
    constructor
    · linarith
    · apply hlt.trans
      exact_mod_cast Nat.lt_succ_of_le h
  apply if_pos hrange

theorem labelRejected_nan : labelRejected classes .nan = false := by
  rw [labelRejected, Datum.not_nan_lt, Datum.not_le_nan, Bool.false_or]

/-- One row of the loop. -/
theorem OneHotBelow.exists_matxSet
    (h : OneHotBelow labels classes k out) (hk : k < labels.rows) {x : ℚ} {hx}
    (hlabel : labels.at k 0 = .finite x hx) (hzero : 0 ≤ x) (hlt : x < classes) :
  ∃ out', matxSet out k ⌊x⌋₊ 1 = some out' ∧ OneHotBelow labels classes (k + 1) out'
  := by
  have hcol : ⌊x⌋₊ < classes := by
    rwa [Nat.floor_lt hzero]
  have hholds : out.Holds labels.rows classes out.at := ⟨h.shaped, fun _ _ => rfl⟩
  obtain ⟨out', hset, h'⟩ := hholds.exists_matxSet hk hcol 1
  refine ⟨out', hset, h'.shaped, ?_, ?_⟩
  · intro r hr
    rcases Nat.lt_succ_iff_lt_or_eq.mp hr with hlow | rfl
    · obtain ⟨y, hy, hlabel', hzero', hlt', hrow⟩ := h.hot r hlow
      refine ⟨y, hy, hlabel', hzero', hlt', ?_⟩
      intro c hc
      rw [h'.at_eq (by omega) hc, if_neg (by omega), hrow c hc]
    · refine ⟨x, hx, hlabel, hzero, hlt, ?_⟩
      intro c hc
      rw [h'.at_eq hk hc, h.clear r (Nat.le_refl r) hk c hc]
      simp
  · intro r hkr hr c hc
    rw [h'.at_eq hr hc, if_neg (by omega), h.clear r (by omega) hr c hc]

/-- A row whose label passes the check and is not `nan` is filled, and the loop goes on. -/
theorem OneHotBelow.exists_oneHotRows
    (h : OneHotBelow labels classes k out) (hlabels : labels.Shaped labels.rows 1)
    (hcast : TruncatesBelow classes cast) (hk : k < labels.rows) (hnan : labels.at k 0 ≠ .nan)
    (hpass : labelRejected classes (labels.at k 0) = false) (rounds : ℕ) :
  ∃ out', OneHotBelow labels classes (k + 1) out'
    ∧ oneHotRows cast labels classes (rounds + 1) k out
      = oneHotRows cast labels classes rounds (k + 1) out'
  := by
  obtain ⟨hlt, hle⟩ := Bool.or_eq_false_iff.mp hpass
  obtain ⟨x, hx, hlabel, hzero, hbelow⟩ := Datum.exists_of_not_lt_of_not_le hnan hlt hle
  obtain ⟨out', hset, h'⟩ := h.exists_matxSet hk hlabel hzero hbelow
  refine ⟨out', h', ?_⟩
  rw [oneHotRows, hlabels.entry_eq hk Nat.one_pos, Option.bind_some, hpass, if_neg (by decide),
    hlabel, hcast x hx hzero hbelow, Option.bind_some, hset, Option.bind_some]

/-- The loop, where every label that is not a number comes after one that fails the check. -/
theorem OneHotBelow.oneHotRows_result
    (h : OneHotBelow labels classes k out) (hlabels : labels.Shaped labels.rows 1)
    (hcast : TruncatesBelow classes cast) {rounds : ℕ} (hrounds : k + rounds = labels.rows)
    (hnan : ∀ r, k ≤ r → r < labels.rows → labels.at r 0 = .nan →
      ∃ r', k ≤ r' ∧ r' < r ∧ labelRejected classes (labels.at r' 0) = true) :
  OneHotResult labels classes (oneHotRows cast labels classes rounds k out)
  := by
  induction rounds generalizing k out with
  | zero => exact ⟨out, .ok, rfl, .inl ⟨rfl, hrounds ▸ h⟩⟩
  | succ rounds ih =>
      have hk : k < labels.rows := by
        omega
      cases hcheck : labelRejected classes (labels.at k 0) with
      | true =>
          refine ⟨out, .invalidArg, ?_, .inr ⟨rfl, fun _ => ⟨k, hk, h⟩⟩⟩
          rw [oneHotRows, hlabels.entry_eq hk Nat.one_pos, Option.bind_some, hcheck, if_pos rfl]
      | false =>
          have hnumber : labels.at k 0 ≠ .nan := by
            intro heq
            obtain ⟨r', hle, hlt, -⟩ := hnan k (Nat.le_refl k) hk heq
            omega
          obtain ⟨out', h', hnext⟩ := h.exists_oneHotRows hlabels hcast hk hnumber hcheck rounds
          rw [hnext]
          apply ih h' (by omega)
          intro r hr hrows heq
          obtain ⟨r', hle, hlt, hrejected⟩ := hnan r (by omega) hrows heq
          rcases Nat.eq_or_lt_of_le hle with rfl | hlater
          · rw [hcheck] at hrejected
            cases hrejected
          · exact ⟨r', hlater, hlt, hrejected⟩

/-- The loop, where a label that is not a number comes before all that fail the check. -/
theorem OneHotBelow.oneHotRows_eq_none
    (h : OneHotBelow labels classes k out) (hlabels : labels.Shaped labels.rows 1)
    (hcast : TruncatesBelow classes cast) (hundefined : cast .nan = none) {rounds : ℕ}
    (hrounds : k + rounds = labels.rows) {r : ℕ} (hkr : k ≤ r) (hr : r < labels.rows)
    (hnan : labels.at r 0 = .nan)
    (hpass : ∀ r', k ≤ r' → r' < r → labelRejected classes (labels.at r' 0) = false) :
  oneHotRows cast labels classes rounds k out = none
  := by
  induction rounds generalizing k out with
  | zero => omega
  | succ rounds ih =>
      have hk : k < labels.rows := by
        omega
      by_cases hlabel : labels.at k 0 = .nan
      · rw [oneHotRows, hlabels.entry_eq hk Nat.one_pos, Option.bind_some, hlabel,
          labelRejected_nan, if_neg (by decide), hundefined]
        rfl
      · have hlt : k < r := Nat.lt_of_le_of_ne hkr (by rintro rfl; exact hlabel hnan)
        have hcheck := hpass k (Nat.le_refl k) hlt
        obtain ⟨out', h', hnext⟩ := h.exists_oneHotRows hlabels hcast hk hlabel hcheck rounds
        rw [hnext]
        apply ih h' (by omega) hlt
        intro r' hle
        apply hpass r' (by omega)

/-- The call clears `out` and runs the loop. -/
theorem exists_datasetOneHot
    {n : ℕ} (hlabels : labels.Shaped n 1) (hout : out.Shaped n classes)
    (cast : Binary32 → Option ℕ) :
  ∃ out₀, OneHotBelow labels classes 0 out₀
    ∧ datasetOneHot cast labels classes out = oneHotRows cast labels classes n 0 out₀
  := by
  have hclasses : 0 < classes := hout.cols_eq ▸ hout.made.cols_pos
  have hlabelsOk : ¬ (labels.data = [] ∨ labels.cols ≠ 1 ∨ classes = 0) := by
    rw [hlabels.cols_eq]
    simp [hlabels.data_ne_nil, hclasses.ne']
  have houtOk : ¬ (out.data = [] ∨ out.rows ≠ labels.rows ∨ out.cols ≠ classes) := by
    rw [hout.rows_eq, hout.cols_eq, hlabels.rows_eq]
    simp [hout.data_ne_nil]
  have hlength : (List.replicate (n * classes) (0 : Binary32)).length = out.data.length := by
    rw [List.length_replicate, hout.length_data]
  refine ⟨{ out with data := List.replicate (n * classes) 0 }, ⟨?_, ?_, ?_⟩, ?_⟩
  · rw [hlabels.rows_eq]
    apply hout.with_data hlength
  · intro r hr
    omega
  · intro r _ _ c _
    rw [MatX.at, List.getElem?_replicate]
    split <;> rfl
  · rw [datasetOneHot, if_neg hlabelsOk, if_neg houtOk, hout.made.clearData_eq, Option.bind_some,
      hlabels.rows_eq, hout.rows_eq, hout.cols_eq]

/-- Whatever the conversion does outside the numbers from zero up to `classes`, a call returns
`ERR_OK` with one-hot rows or `ERR_INVALID_ARG`: this holds exactly where every label that is not a
number comes after one that fails the check. -/
theorem datasetOneHot_iff
    {n : ℕ} (hlabels : labels.Shaped n 1) (hout : 0 < classes → out.Shaped n classes) :
  (∀ cast, TruncatesBelow classes cast →
      OneHotResult labels classes (datasetOneHot cast labels classes out))
    ↔ (0 < classes → ∀ r < n, labels.at r 0 = .nan →
      ∃ r' < r, labelRejected classes (labels.at r' 0) = true)
  := by
  rcases Nat.eq_zero_or_pos classes with rfl | hclasses
  · simp [datasetOneHot, OneHotResult]
  have hshape := hout hclasses
  obtain rfl := hlabels.rows_eq
  constructor
  · intro hcall _ r hr hnan
    by_contra! hpass
    have hcast : TruncatesBelow classes sizeCast := by
      apply truncatesBelow_sizeCast
      have hcols := hshape.made.cols_le
      rw [hshape.cols_eq] at hcols
      apply Nat.le_trans (Nat.le_mul_of_pos_right _ (by decide)) hcols
    obtain ⟨out₀, h₀, hloop⟩ := exists_datasetOneHot hlabels hshape sizeCast
    obtain ⟨out', err, hresult, -⟩ := hcall sizeCast hcast
    rw [hloop, h₀.oneHotRows_eq_none hlabels hcast rfl (Nat.zero_add _) (Nat.zero_le r) hr
      hnan] at hresult
    · cases hresult
    · intro r' _ hlt
      simpa using hpass r' hlt
  · intro hnan cast hcast
    obtain ⟨out₀, h₀, hloop⟩ := exists_datasetOneHot hlabels hshape cast
    rw [hloop]
    apply h₀.oneHotRows_result hlabels hcast (Nat.zero_add _)
    intro r _ hr heq
    obtain ⟨r', hlt, hrejected⟩ := hnan hclasses r hr heq
    exact ⟨r', Nat.zero_le r', hlt, hrejected⟩

/-- A label whose row is filled, an infinite one, which fails the check, and one that is not a
number. -/
theorem datasetOneHot_infinity :
  OneHotResult ⟨[1, .infinity, .nan], 3, 1⟩ 2
      (datasetOneHot sizeCast ⟨[1, .infinity, .nan], 3, 1⟩ 2 ⟨[1, 1, 1, 1, 1, 1], 3, 2⟩)
    ∧ datasetOneHot sizeCast ⟨[1, .infinity, .nan], 3, 1⟩ 2 ⟨[1, 1, 1, 1, 1, 1], 3, 2⟩
      = some (⟨[0, 1, 0, 0, 0, 0], 3, 2⟩, .invalidArg)
  := by
  have hlabels : (⟨[1, .infinity, .nan], 3, 1⟩ : MatX Binary32).Shaped 3 1 :=
    ⟨by rw [MatX.Made]; decide, rfl, rfl⟩
  have hout : (⟨[1, 1, 1, 1, 1, 1], 3, 2⟩ : MatX Binary32).Shaped 3 2 :=
    ⟨by rw [MatX.Made]; decide, rfl, rfl⟩
  refine ⟨(datasetOneHot_iff hlabels fun _ => hout).mpr ?_ sizeCast ?_, rfl⟩
  · intro _ r hr hnan
    have hlast : r = 2 := by
      rcases r with _ | _ | r
      · cases hnan
      · cases hnan
      · omega
    subst hlast
    exact ⟨1, by decide, by decide⟩
  · apply truncatesBelow_sizeCast (by decide)

/-- One label, which is not a number, for two classes: its conversion is undefined, and where it
gives an index that is not one of a class, the write is outside the data. -/
theorem datasetOneHot_nan :
  datasetOneHot sizeCast ⟨[.nan], 1, 1⟩ 2 ⟨[0, 0], 1, 2⟩ = none
    ∧ (∀ cast c, cast .nan = some c → 2 ≤ c →
      datasetOneHot cast ⟨[.nan], 1, 1⟩ 2 ⟨[0, 0], 1, 2⟩ = none)
    ∧ ¬ ∀ cast, TruncatesBelow 2 cast →
      OneHotResult ⟨[.nan], 1, 1⟩ 2 (datasetOneHot cast ⟨[.nan], 1, 1⟩ 2 ⟨[0, 0], 1, 2⟩)
  := by
  have hundefined : datasetOneHot sizeCast ⟨[.nan], 1, 1⟩ 2 ⟨[0, 0], 1, 2⟩ = none := by
    decide
  refine ⟨hundefined, ?_, ?_⟩
  · intro cast c hcast hc
    have houtside : matxSet (⟨[0, 0], 1, 2⟩ : MatX Binary32) 0 c 1 = none := by
      rw [matxSet, Option.bind_eq_none_iff]
      intro i hi
      have hindex : 2 ≤ i := by
        rw [entryIndex, mulSize_of_le (by simp), Option.bind_some, addSize, Nat.zero_mul,
          Nat.zero_add] at hi
        split at hi
        · exact Option.some.inj hi ▸ hc
        · cases hi
      rw [Loop.update, List.getElem?_eq_none hindex]
      rfl
    calc datasetOneHot cast ⟨[.nan], 1, 1⟩ 2 ⟨[0, 0], 1, 2⟩
      _ = (cast .nan).bind fun c => (matxSet ⟨[0, 0], 1, 2⟩ 0 c 1).bind
          (oneHotRows cast ⟨[.nan], 1, 1⟩ 2 0 1) := rfl
      _ = none := by rw [hcast, Option.bind_some, houtside, Option.bind_none]
  · intro hcall
    obtain ⟨out, err, hresult, -⟩ := hcall sizeCast (truncatesBelow_sizeCast (by decide))
    rw [hundefined] at hresult
    cases hresult

end CTemplate

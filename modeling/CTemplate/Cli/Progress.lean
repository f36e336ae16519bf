import CTemplate.Core.Int
import Mathlib.Algebra.Order.Group.Unbundled.Int
import Mathlib.Tactic.Linarith

/-!
# The progress bar

`cli_progress` of `cli/output.c`.  The percentage is computed by a product of type `int`, so a
value that is too large to be multiplied by one hundred overflows, although its percentage is at
most one hundred.
-/

namespace CTemplate

/-- What `"%3d"` gives. -/
def formatPadded (z : ℤ) : List Byte :=
  let digits := (Nat.toDigits 10 z.natAbs).map fun c => UInt8.ofNat c.toNat
  let text := if z < 0 then 45 :: digits else digits
  List.replicate (3 - text.length) 32 ++ text

/-- One cell of the bar: `'='`, `'>'` or a blank. -/
def progressCell (filled i : ℤ) : Byte :=
  if i < filled then 61 else if i = filled then 62 else 32

/-- The cells that the loop of `cli_progress` prints. -/
def progressBar (filled width : ℤ) : List Byte :=
  (List.range width.toNat).map fun i : ℕ => progressCell filled i

/-- What `cli_progress` prints: a carriage return, the bar in brackets, and the percentage. -/
def progressText (pct filled width : ℤ) : List Byte :=
  [13, 91] ++ progressBar filled width ++ [93, 32] ++ formatPadded pct ++ [37]

/-- `cli_progress`: what is printed.  The divisions of type `int` are rounded towards zero. -/
def cliProgress (int : ℤ → Option ℤ) (current total width : ℤ) : Option (List Byte) :=
  if total ≤ 0 then some []
  else
    (int (current * 100)).bind fun a =>
      let pct := if a.tdiv total > 100 then 100 else a.tdiv total
      (int (pct * width)).map fun b => progressText pct (b.tdiv 100) width

/-! ### The bar -/

/-- The percentage of a value. -/
def percentage (current total : ℤ) : ℤ :=
  min 100 (100 * current / total)

/-- The number of cells that are filled. -/
def filledCells (current total width : ℤ) : ℤ :=
  percentage current total * width / 100

/-- What is printed is a bar of `width` cells, as many of which are filled as there should be,
followed by the percentage. -/
def ShowsProgress (current total width : ℤ) (out : List Byte) : Prop :=
  ∃ bar : List Byte,
    out = [13, 91] ++ bar ++ [93, 32] ++ formatPadded (percentage current total) ++ [37]
      ∧ (bar.length : ℤ) = width
      ∧ (bar.count 61 : ℤ) = filledCells current total width

variable {current current' total width : ℤ}

theorem percentage_nonneg (hcurrent : 0 ≤ current) (htotal : 0 < total) :
  0 ≤ percentage current total
  := by
  rw [percentage, le_min_iff]
  use by decide
  apply Int.ediv_nonneg _ (Int.le_of_lt htotal)
  omega

theorem percentage_le (current total : ℤ) :
  percentage current total ≤ 100
  := min_le_left _ _

theorem percentage_mono (htotal : 0 < total) (hle : current ≤ current') :
  percentage current total ≤ percentage current' total
  := by
  apply min_le_min_left
  apply Int.ediv_le_ediv htotal
  omega

theorem percentage_done (htotal : 0 < total) (hle : total ≤ current) :
  percentage current total = 100
  := by
  apply min_eq_left
  rw [Int.le_ediv_iff_mul_le htotal]
  omega

theorem filledCells_mono (htotal : 0 < total) (hwidth : 0 ≤ width) (hle : current ≤ current') :
  filledCells current total width ≤ filledCells current' total width
  := by
  apply Int.ediv_le_ediv (by decide)
  apply Int.mul_le_mul_of_nonneg_right (percentage_mono htotal hle) hwidth

theorem filledCells_done (htotal : 0 < total) (hle : total ≤ current) :
  filledCells current total width = width
  := by
  rw [filledCells, percentage_done htotal hle, Int.mul_ediv_cancel_left _ (by decide)]

theorem filledCells_bounds (hcurrent : 0 ≤ current) (htotal : 0 < total) (hwidth : 0 ≤ width) :
  0 ≤ filledCells current total width ∧ filledCells current total width ≤ width
  := by
  have hnonneg := Int.mul_nonneg (percentage_nonneg hcurrent htotal) hwidth
  have hle := Int.mul_le_mul_of_nonneg_right (percentage_le current total) hwidth
  rw [filledCells]
  omega

/-- The bar starts with the filled cells. -/
theorem count_progressCell (filled n : ℕ) :
  ((List.range n).map fun i : ℕ => progressCell filled i).count 61 = min filled n
  := by
  induction n with
  | zero => rw [Nat.min_zero]; rfl
  | succ n ih =>
      rw [List.range_succ, List.map_append, List.count_append, ih, List.map_singleton, progressCell]
      split
      case isTrue hlt =>
        rw [List.count_singleton_self]
        omega
      case isFalse hge =>
        have hne : ∀ c : Byte, c ≠ 61 → [c].count 61 = 0 := fun c hc =>
          List.count_eq_zero.mpr fun hmem => hc (List.mem_singleton.mp hmem).symm
        rw [hne]
        · omega
        · split <;> decide

theorem count_progressBar {filled : ℤ} (hfilled : 0 ≤ filled ∧ filled ≤ width) :
  ((progressBar filled width).count 61 : ℤ) = filled
  := by
  obtain ⟨n, rfl⟩ := Int.eq_ofNat_of_zero_le hfilled.1
  rw [progressBar, count_progressCell]
  omega

theorem length_progressBar (filled : ℤ) (hwidth : 0 ≤ width) :
  ((progressBar filled width).length : ℤ) = width
  := by
  rw [progressBar, List.length_map, List.length_range, Int.toNat_of_nonneg hwidth]

/-! ### Overflow -/

/-- When the product of the value and one hundred does not overflow, the bar is the right one. -/
theorem cliProgress_shows
    (hcurrent : 0 ≤ current) (htotal : 0 < total) (hwidth : 0 ≤ width ∧ width ≤ 1000)
    (hfits : current ≤ 21474836) :
  ∃ out, cliProgress int32 current total width = some out
    ∧ ShowsProgress current total width out
  := by
  have hmax : (intMax : ℤ) = 2147483647 := rfl
  have hproduct : FitsInt (current * 100) := by
    constructor <;> omega
  have hpct : (if (current * 100).tdiv total > 100 then 100 else (current * 100).tdiv total)
      = percentage current total := by
    rw [Int.tdiv_eq_ediv_of_nonneg (by omega), percentage, Int.mul_comm]
    split <;> omega
  have hnonneg := percentage_nonneg hcurrent htotal
  have hcells : FitsInt (percentage current total * width) := by
    have hlow := Int.mul_nonneg hnonneg hwidth.1
    have hhigh := mul_le_mul (percentage_le current total) hwidth.2 hwidth.1 (by decide)
    constructor <;> omega
  have hfilled : (percentage current total * width).tdiv 100 = filledCells current total width :=
    Int.tdiv_eq_ediv_of_nonneg (Int.mul_nonneg hnonneg hwidth.1)
  refine ⟨progressText (percentage current total) (filledCells current total width) width, ?_, ?_⟩
  · rw [cliProgress, if_neg (by omega), int32_of_fits hproduct, Option.bind_some]
    dsimp only
    rw [hpct, int32_of_fits hcells, Option.map_some, hfilled]
  · refine ⟨progressBar (filledCells current total width) width, rfl, ?_, ?_⟩
    · apply length_progressBar _ hwidth.1
    · apply count_progressBar (filledCells_bounds hcurrent htotal hwidth.1)

theorem le_of_cliProgress
    {out : List Byte} (htotal : 0 < total) (h : cliProgress int32 current total width = some out) :
  current ≤ 21474836
  := by
  have hmax : (intMax : ℤ) = 2147483647 := rfl
  rw [cliProgress, if_neg (by omega)] at h
  obtain ⟨a, ha, -⟩ := Option.bind_eq_some_iff.mp h
  have hhigh := (eq_of_int32 ha).1.2
  omega

/-- `cli_progress` computes without overflow and shows the right bar exactly when its value is at
most `INT_MAX / 100`; the percentage and the number of filled cells shown do not decrease with the
value, and are one hundred and the width from the total on. -/
theorem cliProgress_iff
    {total width : CInt} (htotal : 0 < total.1) (hwidth : 0 ≤ width.1 ∧ width.1 ≤ 1000) :
  (∀ current : CInt, 0 ≤ current.1 →
      ((∃ out, cliProgress int32 current.1 total.1 width.1 = some out
          ∧ ShowsProgress current.1 total.1 width.1 out)
        ↔ current.1 ≤ 21474836))
    ∧ (∀ current current' : CInt, current.1 ≤ current'.1 →
      percentage current.1 total.1 ≤ percentage current'.1 total.1
        ∧ filledCells current.1 total.1 width.1 ≤ filledCells current'.1 total.1 width.1)
    ∧ ∀ current : CInt, total.1 ≤ current.1 →
      percentage current.1 total.1 = 100 ∧ filledCells current.1 total.1 width.1 = width.1
  := by
  refine ⟨?_, ?_, ?_⟩
  · intro current hcurrent
    constructor
    · rintro ⟨out, hout, -⟩
      apply le_of_cliProgress htotal hout
    · apply cliProgress_shows hcurrent htotal hwidth
  · intro current current' hle
    exact ⟨percentage_mono htotal hle, filledCells_mono htotal hwidth.1 hle⟩
  · intro current hle
    exact ⟨percentage_done htotal hle, filledCells_done htotal hle⟩

/-- Half of one hundred, shown in twenty cells. -/
theorem cliProgress_iff_half :
  (∃ out, cliProgress int32 50 100 20 = some out ∧ ShowsProgress 50 100 20 out)
    ∧ percentage 50 100 = 50 ∧ filledCells 100 100 20 = 20
  := by
  let total : CInt := ⟨100, by decide⟩
  let width : CInt := ⟨20, by decide⟩
  have htotal : 0 < total.1 := by decide
  have hwidth : 0 ≤ width.1 ∧ width.1 ≤ 1000 := by decide
  obtain ⟨hiff, -, hdone⟩ := cliProgress_iff htotal hwidth
  refine ⟨(hiff ⟨50, by decide⟩ (by decide)).mpr (by decide), by decide, ?_⟩
  apply (hdone ⟨100, by decide⟩ (by decide)).2

/-- A value of 21474837 overflows, also when it is all of the total. -/
theorem cliProgress_overflows :
  ¬ ∀ current total width : CInt, 0 ≤ current.1 → 0 < total.1 → 0 ≤ width.1 ∧ width.1 ≤ 1000 →
    ∃ out, cliProgress int32 current.1 total.1 width.1 = some out
      ∧ ShowsProgress current.1 total.1 width.1 out
  := by
  intro hall
  obtain ⟨out, hout, -⟩ := hall ⟨21474837, by decide⟩ ⟨21474837, by decide⟩ ⟨20, by decide⟩
    (by decide) (by decide) (by decide)
  have hnone : cliProgress int32 21474837 21474837 20 = none := by
    decide
  rw [hnone] at hout
  cases hout

example : cliProgress int32 1 4 8
    = some [13, 91, 61, 61, 62, 32, 32, 32, 32, 32, 93, 32, 32, 50, 53, 37] := by
  decide

end CTemplate

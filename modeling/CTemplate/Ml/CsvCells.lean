import CTemplate.Ml.LoadCsv

/-!
# The cells of a line

A cell of a line stands between two commas.  The loop of `dataset_load_csv` does not look for
cells: it reads as many numbers as there are cells, wherever they are.  It reads one number
from each cell when the line is what `StrictLine` says.
-/

namespace CTemplate

open Scan

variable {F : Type} [Zero F] {value : List Byte → F}

/-- The cells of a line. -/
def csvCells (line : List Byte) : List (List Byte) :=
  line.splitOn comma

/-- A cell is one number with white space around it, and `v` is its value. -/
def CellValue (value : List Byte → F) (cell : List Byte) (v : F) : Prop :=
  ∃ rest, strtofScanner cell = some rest ∧ Blank isSpace rest ∧ (strtof value cell).1 = v

/-- After the first number of a cell there is another one. -/
def TwoNumbers (cell : List Byte) : Prop :=
  ∃ rest, strtofScanner cell = some rest ∧ strtofScanner rest ≠ none

/-- No cell of the line has two numbers. -/
def SingleNumbers (line : List Byte) : Prop :=
  ∀ cell ∈ csvCells line, ¬ TwoNumbers cell

/-- No cell of the line has two numbers, and only white space follows the number in the last
cell. -/
structure StrictLine (line : List Byte) : Prop where
  single : SingleNumbers line
  last : ∀ cell ∈ (csvCells line).getLast?, ∀ rest, strtofScanner cell = some rest →
    Blank isSpace rest

/-! ### Cells -/

theorem csvCells_last {cell : List Byte} (hcell : comma ∉ cell) :
  csvCells cell = [cell]
  := List.splitOn_eq_singleton hcell

theorem csvCells_cell {cell : List Byte} (hcell : comma ∉ cell) (line : List Byte) :
  csvCells (cell ++ comma :: line) = cell :: csvCells line
  := List.splitOn_append_cons_self_of_not_mem hcell line

theorem length_csvCells (line : List Byte) :
  (csvCells line).length = countFields line
  := by
  induction line with
  | nil => rfl
  | cons c line ih =>
      rw [csvCells, List.splitOn_cons_eq_if_modifyHead, countFields, List.count_cons]
      rw [csvCells, countFields] at ih
      split
      · rw [List.length_cons, ih]
      · rw [List.length_modifyHead, ih, Nat.add_zero]

/-- White space before a cell does not change its numbers. -/
theorem twoNumbers_cons_iff {c : Byte} (hc : isSpace c = true) {cell : List Byte} :
  TwoNumbers (c :: cell) ↔ TwoNumbers cell
  := by
  have hblank : Blank isSpace [c] := by simpa [Blank] using hc
  rw [TwoNumbers, ← List.singleton_append, strtofScanner_append hblank, TwoNumbers]

theorem isSpace_of_separator {c : Byte} (hc : isSeparator c = true) (hne : c ≠ comma) :
  isSpace c = true
  := by
  rw [isSeparator, decide_eq_true_iff] at hc
  rw [hc.resolve_left hne]
  rfl

/-- The line without its first separators has no cell with two numbers either. -/
theorem SingleNumbers.dropWhile {line : List Byte} (h : SingleNumbers line) :
  SingleNumbers (line.dropWhile isSeparator)
  := by
  induction line with
  | nil => exact h
  | cons c line ih =>
      rw [List.dropWhile_cons]
      split
      case isFalse => exact h
      case isTrue hc =>
        apply ih
        rw [SingleNumbers, csvCells, List.splitOn_cons_eq_if_modifyHead] at h
        split at h
        case isTrue => exact (List.forall_mem_cons.mp h).2
        case isFalse hne =>
          have hspace := isSpace_of_separator hc (by simpa using hne)
          rw [SingleNumbers, csvCells]
          obtain ⟨cell, cells, hcells⟩ :=
            List.exists_cons_of_ne_nil (List.splitOn_ne_nil comma line)
          rw [hcells, List.modifyHead_cons, List.forall_mem_cons, twoNumbers_cons_iff hspace] at h
          rw [hcells, List.forall_mem_cons]
          exact h

/-! ### Reading numbers -/

theorem readCells_of_none {p : List Byte} (h : strtofScanner p = none) (n : ℕ) :
  readCells value (n + 1) p = none
  := by
  rw [readCells]
  apply if_pos (length_strtof_eq_iff.mpr h)

theorem readCells_of_some {p rest : List Byte} (h : strtofScanner p = some rest) (n : ℕ) :
  readCells value (n + 1) p
    = (readCells value n (rest.dropWhile isSeparator)).map ((strtof value p).1 :: ·)
  := by
  have hne : ¬ (strtof value p).2.length = p.length := by
    rw [length_strtof_eq_iff, h]
    simp
  rw [readCells, if_neg hne, strtof_snd h]

/-- Where the first of some numbers was read. -/
theorem exists_of_readCells {n : ℕ} {p : List Byte} {vs : List F}
    (h : readCells value (n + 1) p = some vs) :
  ∃ rest vs', strtofScanner p = some rest ∧ vs = (strtof value p).1 :: vs'
    ∧ readCells value n (rest.dropWhile isSeparator) = some vs'
  := by
  cases hp : strtofScanner p with
  | none =>
      rw [readCells_of_none hp] at h
      cases h
  | some rest =>
      rw [readCells_of_some hp] at h
      obtain ⟨vs', hvs', rfl⟩ := Option.map_eq_some_iff.mp h
      use rest, vs', rfl, rfl, hvs'

theorem length_readCells {n : ℕ} {p : List Byte} {vs : List F}
    (h : readCells value n p = some vs) :
  vs.length = n
  := by
  induction n generalizing p vs with
  | zero =>
      obtain rfl := Option.some.inj h
      rfl
  | succ n ih =>
      obtain ⟨rest, vs', -, rfl, hvs'⟩ := exists_of_readCells h
      rw [List.length_cons, ih hvs']

/-- White space before a text does not change the numbers that are read from it. -/
theorem readCells_append {ws : List Byte} (hws : Blank isSpace ws) (n : ℕ) (p : List Byte) :
  readCells value n (ws ++ p) = readCells value n p
  := by
  cases n with
  | zero => rfl
  | succ n =>
      have happend := strtofScanner_append hws p
      cases hp : strtofScanner p with
      | none => rw [readCells_of_none hp, readCells_of_none (happend.trans hp)]
      | some rest =>
          rw [readCells_of_some hp, readCells_of_some (happend.trans hp), strtof_append hws hp]

/-! ### One number in each cell -/

/-- A run of separators without a comma is white space. -/
theorem blank_of_separators {s : List Byte} (hs : ∀ c ∈ s, isSeparator c = true)
    (hcomma : comma ∉ s) :
  Blank isSpace s
  := by
  intro c hc
  apply isSpace_of_separator (hs c hc)
  rintro rfl
  apply hcomma hc

/-- The separators at the start of a text without a comma are white space. -/
theorem exists_dropWhile_separator {s : List Byte} (hcomma : comma ∉ s) :
  ∃ ws, Blank isSpace ws ∧ s = ws ++ s.dropWhile isSeparator
  := by
  refine ⟨s.takeWhile isSeparator, ?_, List.takeWhile_append_dropWhile.symm⟩
  apply blank_of_separators (fun c => of_mem_takeWhile)
  intro h
  apply hcomma ((List.takeWhile_prefix isSeparator).subset h)

theorem SingleNumbers.tail {cell line : List Byte} (hcell : comma ∉ cell)
    (h : SingleNumbers (cell ++ comma :: line)) :
  ¬ TwoNumbers cell ∧ SingleNumbers line
  := by
  rwa [SingleNumbers, csvCells_cell hcell, List.forall_mem_cons] at h

/-- When another number follows the first one, the first one is the first cell, and the loop
goes on with the next cell. -/
theorem SingleNumbers.exists_cell
    {p rest : List Byte} (h : SingleNumbers p) (hp : strtofScanner p = some rest)
    (hnext : strtofScanner (rest.dropWhile isSeparator) ≠ none) :
  ∃ cell line ws, p = cell ++ comma :: line ∧ comma ∉ cell ∧ strtofScanner cell = some ws
    ∧ Blank isSpace ws ∧ rest.dropWhile isSeparator = line.dropWhile isSeparator
  := by
  by_cases hcomma : comma ∈ p
  · obtain ⟨cell, line, rfl, hcell⟩ := List.eq_append_cons_of_mem hcomma
    rw [local_strtofScanner] at hp
    obtain ⟨ws, hws, rfl⟩ := Option.map_eq_some_iff.mp hp
    have hcomma_ws : comma ∉ ws := fun hmem =>
      hcell ((consumes_strtofScanner cell ws hws).1.subset hmem)
    obtain ⟨sp, hsp, hsplit⟩ := exists_dropWhile_separator hcomma_ws
    cases hdrop : ws.dropWhile isSeparator with
    | nil =>
        rw [hdrop, List.append_nil] at hsplit
        use cell, line, ws, rfl, hcell, hws, hsplit ▸ hsp
        rw [List.dropWhile_append, hdrop]
        rfl
    | cons c t =>
        -- the rest of the cell has another number
        rw [List.dropWhile_append, hdrop, List.isEmpty_cons, if_neg Bool.false_ne_true,
          local_strtofScanner] at hnext
        exfalso
        apply (h.tail hcell).1
        use ws, hws
        rw [hsplit, strtofScanner_append hsp, hdrop]
        intro hnone
        rw [hnone] at hnext
        apply hnext rfl
  · exfalso
    have hcomma_rest : comma ∉ rest := fun hmem =>
      hcomma ((consumes_strtofScanner p rest hp).1.subset hmem)
    obtain ⟨sp, hsp, hsplit⟩ := exists_dropWhile_separator hcomma_rest
    have hcell : p ∈ csvCells p := by simp [csvCells_last hcomma]
    apply h p hcell
    use rest, hp
    rwa [hsplit, strtofScanner_append hsp]

theorem count_cell {cell : List Byte} (hcell : comma ∉ cell) (line : List Byte) :
  countFields (cell ++ comma :: line) = countFields line + 1
  := by
  rw [countFields, countFields, List.count_append, List.count_cons_self,
    List.count_eq_zero_of_not_mem hcell, Nat.zero_add]

/-- The first of two or more numbers that are read is the first cell. -/
theorem SingleNumbers.exists_cell_of_readCells
    {n : ℕ} {p : List Byte} {vs : List F} (h : SingleNumbers p)
    (hread : readCells value (n + 2) p = some vs) :
  ∃ cell line ws vs', p = cell ++ comma :: line ∧ comma ∉ cell ∧ strtofScanner cell = some ws
    ∧ Blank isSpace ws ∧ vs = (strtof value cell).1 :: vs'
    ∧ readCells value (n + 1) (line.dropWhile isSeparator) = some vs'
  := by
  obtain ⟨rest, vs', hp, rfl, hvs'⟩ := exists_of_readCells hread
  obtain ⟨rest', -, hnext, -⟩ := exists_of_readCells hvs'
  obtain ⟨cell, line, ws, rfl, hcell, hws, hblank, hdrop⟩ :=
    h.exists_cell hp (by simp [hnext])
  rw [hdrop] at hvs'
  use cell, line, ws, vs', rfl, hcell, hws, hblank, by rw [strtof_comma hws]

/-- From a line without a cell with two numbers, no more numbers are read than it has
cells. -/
theorem SingleNumbers.le_countFields
    {n : ℕ} {p : List Byte} {vs : List F} (h : SingleNumbers p)
    (hread : readCells value n p = some vs) :
  n ≤ countFields p
  := by
  induction n generalizing p vs with
  | zero => apply Nat.zero_le
  | succ n ih =>
      cases n with
      | zero => apply Nat.le_add_left
      | succ n =>
          obtain ⟨cell, line, ws, vs', rfl, hcell, -, -, -, hvs'⟩ :=
            h.exists_cell_of_readCells hread
          have hle := ih (h.tail hcell).2.dropWhile hvs'
          have hcount : (line.dropWhile isSeparator).count comma ≤ line.count comma :=
            (List.dropWhile_suffix isSeparator).sublist.count_le comma
          rw [countFields] at hle
          rw [count_cell hcell, countFields]
          omega

/-- When as many numbers are read as a strict line has cells, they are the values of the
cells. -/
theorem StrictLine.forall₂_cellValue
    {p : List Byte} {vs : List F} (h : StrictLine p)
    (hread : readCells value (countFields p) p = some vs) :
  List.Forall₂ (CellValue value) (csvCells p) vs
  := by
  generalize hn : countFields p = n at hread
  induction n generalizing p vs with
  | zero => cases hn
  | succ n ih =>
      cases n with
      | zero =>
          have hcomma : comma ∉ p := by
            rw [countFields] at hn
            rw [← List.count_eq_zero]
            omega
          obtain ⟨rest, vs', hp, rfl, hvs'⟩ := exists_of_readCells hread
          obtain rfl := Option.some.inj hvs'
          have hblank := h.last p (by simp [csvCells_last hcomma]) rest hp
          rw [csvCells_last hcomma]
          exact .cons ⟨rest, hp, hblank, rfl⟩ .nil
      | succ n =>
          obtain ⟨cell, line, ws, vs', rfl, hcell, hws, hblank, rfl, hvs'⟩ :=
            h.single.exists_cell_of_readCells hread
          rw [count_cell hcell] at hn
          -- no comma was skipped before the next number
          have hle := (h.single.tail hcell).2.dropWhile.le_countFields hvs'
          have hcount : comma ∉ line.takeWhile isSeparator := by
            have hline := congrArg (List.count comma)
              (List.takeWhile_append_dropWhile (p := isSeparator) (l := line))
            rw [List.count_append] at hline
            rw [countFields] at hle hn
            rw [← List.count_eq_zero]
            omega
          have hspace := blank_of_separators (fun c => of_mem_takeWhile) hcount
          rw [← readCells_append hspace, List.takeWhile_append_dropWhile] at hvs'
          rw [csvCells_cell hcell]
          have hstrict : StrictLine line := by
            constructor
            · exact (h.single.tail hcell).2
            · intro c hc
              apply h.last c
              rw [csvCells_cell hcell]
              obtain ⟨d, cells, hcells⟩ :=
                List.exists_cons_of_ne_nil (List.splitOn_ne_nil comma line)
              rw [csvCells, hcells] at hc ⊢
              rwa [List.getLast?_cons_cons]
          exact .cons ⟨ws, hws, hblank, rfl⟩ (ih hstrict (Nat.succ.inj hn) hvs')

/-- A line whose cells are numbers is strict. -/
theorem strictLine_of_cellValue
    (value : List Byte → F) {line : List Byte}
    (h : ∀ cell ∈ csvCells line, ∃ v, CellValue value cell v) :
  StrictLine line
  := by
  constructor
  · rintro cell hcell ⟨rest, hrest, hnext⟩
    obtain ⟨v, rest', hrest', hblank, -⟩ := h cell hcell
    obtain rfl := Option.some.inj (hrest.symm.trans hrest')
    apply hnext (strtofScanner_of_blank hblank)
  · intro cell hcell rest hrest
    obtain ⟨v, rest', hrest', hblank, -⟩ := h cell (List.mem_of_mem_getLast? hcell)
    obtain rfl := Option.some.inj (hrest.symm.trans hrest')
    exact hblank

end CTemplate

import CTemplate.Ml.CsvCells
import Mathlib.Algebra.GroupWithZero.Nat
import Mathlib.Data.List.Forall2

/-!
# What a loaded table contains

When `dataset_load_csv` succeeds, the matrix should have one row for each data line that is
not blank, with the values of its cells.  It has exactly when the file is what `CsvStrict`
says: the loop takes a line that starts with a carriage return for a blank one, and it does
not check that a number fills its cell.
-/

namespace CTemplate

open Scan

variable {F : Type}

/-- The lines of a text after its header. -/
def csvLines (hasHeader : Bool) (text : List Byte) : List (List Byte) :=
  if hasHeader then (textLines text).tail else textLines text

/-- The data lines that are not blank. -/
def dataLines (hasHeader : Bool) (text : List Byte) : List (List Byte) :=
  (csvLines hasHeader text).filter fun line => !line.all isSpace

/-- The data lines that are not blank have as many cells as the matrix has columns, each of
which is one number, and the rows of the matrix are the values of their cells. -/
structure CsvFaithful [Zero F] (value : List Byte → F) (hasHeader : Bool) (text : List Byte)
    (m : MatX F) : Prop where
  rows : m.rows = (dataLines hasHeader text).length
  cells : ∀ r line, (dataLines hasHeader text)[r]? = some line →
    (csvCells line).length = m.cols ∧ ∀ c cell, (csvCells line)[c]? = some cell →
      ∃ v, matxGet m r c = some v ∧ CellValue value cell v

/-- A data line that starts with a carriage return is blank, and every data line is
strict. -/
structure CsvStrict (hasHeader : Bool) (text : List Byte) : Prop where
  blank : ∀ line ∈ csvLines hasHeader text, line.head? = some carriageReturn →
    Blank isSpace line
  strict : ∀ line ∈ csvLines hasHeader text, StrictLine line

/-! ### The loop -/

/-- The loop reads numbers from the line. -/
def csvReads (line : List Byte) : Bool :=
  ¬ (line.head? = some newline ∨ line.head? = some carriageReturn ∨ line = [])

/-- The values that the loop reads from a line of a table with `cols` columns. -/
structure CsvRow [Zero F] (value : List Byte → F) (cols : ℕ) (line : List Byte)
    (vs : List F) : Prop where
  fields : countFields line = cols
  read : readCells value cols line = some vs

variable [Zero F] {value : List Byte → F} {realloc : ℕ → Bool} {s s' : CsvState F}

/-- What the body of the loop does with a line when it finds no error. -/
theorem csvLine_cases
    {line : List Byte} (hnul : 0 ∉ line) (h : csvLine value realloc s line = .ok s') :
  s.skippedHeader = false ∧ s' = { s with skippedHeader := true }
    ∨ s.skippedHeader = true ∧ csvReads line = false ∧ s' = s
    ∨ s.skippedHeader = true ∧ csvReads line = true ∧ (s.cols ≠ 0 → s.cols = countFields line)
      ∧ ∃ cap vs, CsvRow value (countFields line) line vs
        ∧ s' = ⟨s.vals ++ vs, cap, countFields line, s.rows + 1, true⟩
  := by
  rw [csvLine, cstr_eq_self hnul] at h
  dsimp only at h
  split at h
  · cases h
  split at h
  case isTrue hheader =>
    left
    use by simpa using hheader
    exact (Except.ok.inj h).symm
  case isFalse hheader =>
  have hskipped : s.skippedHeader = true := by simpa using hheader
  right
  split at h
  case isTrue hskip =>
    left
    use hskipped, by rw [csvReads, decide_eq_false_iff_not, not_not]; exact hskip
    exact (Except.ok.inj h).symm
  case isFalse hread =>
  right
  use hskipped, by rw [csvReads, decide_eq_true_iff]; exact hread
  generalize hcols : (if s.cols = 0 then countFields line else s.cols) = cols at h
  split at h
  · cases h
  case isFalse hfields =>
  obtain rfl := not_not.mp hfields
  constructor
  · intro hne
    rwa [if_neg hne] at hcols
  split at h
  · cases h
  case h_2 cap _ =>
  split at h
  · cases h
  case h_2 vs hvs =>
  use cap, vs, ⟨rfl, hvs⟩
  exact (Except.ok.inj h).symm

/-- The loop reads the numbers of the lines after the header. -/
theorem foldlM_csvLine
    {ls : List (List Byte)} (hnul : ∀ line ∈ ls, 0 ∉ line) (hs : s.skippedHeader = true)
    (h : ls.foldlM (csvLine value realloc) s = .ok s') :
  (s.cols ≠ 0 → s'.cols = s.cols) ∧ s'.rows = s.rows + (ls.filter csvReads).length
    ∧ ∃ rows, List.Forall₂ (CsvRow value s'.cols) (ls.filter csvReads) rows
      ∧ s'.vals = s.vals ++ rows.flatten
  := by
  induction ls generalizing s with
  | nil =>
      obtain rfl := Except.ok.inj h
      use fun _ => rfl, rfl, [], .nil
      rw [List.flatten_nil, List.append_nil]
  | cons line ls ih =>
      obtain ⟨hline, hls⟩ := List.forall_mem_cons.mp hnul
      rw [List.foldlM_cons] at h
      cases hstep : csvLine value realloc s line with
      | error err =>
          rw [hstep] at h
          cases h
      | ok s₁ =>
          rw [hstep] at h
          rcases csvLine_cases hline hstep with
            ⟨hfalse, -⟩ | ⟨-, hskip, rfl⟩ | ⟨-, hread, hcols, cap, vs, hrow, rfl⟩
          · rw [hs] at hfalse
            cases hfalse
          · rw [List.filter_cons_of_neg (by simp [hskip])]
            apply ih hls hs h
          · obtain ⟨hcols', hrows, rows, hall, hvals⟩ := ih hls rfl h
            have hcols' := hcols' (Nat.succ_ne_zero _)
            dsimp only at hcols' hrows hvals
            rw [List.filter_cons_of_pos hread]
            refine ⟨?_, ?_, vs :: rows, ?_, ?_⟩
            · intro hne
              rw [hcols', hcols hne]
            · rw [hrows, List.length_cons]
              omega
            · rw [hcols'] at hall ⊢
              exact .cons hrow hall
            · rw [hvals, List.flatten_cons, List.append_assoc]

theorem mem_textLines_of_mem_csvLines
    {hasHeader : Bool} {text line : List Byte} (h : line ∈ csvLines hasHeader text) :
  line ∈ textLines text
  := by
  rw [csvLines] at h
  split at h
  · apply List.mem_of_mem_tail h
  · exact h

theorem nul_not_mem_line {text : List Byte} (hnul : 0 ∉ text) :
  ∀ line ∈ textLines text, 0 ∉ line
  := by
  intro line hline h0
  apply hnul
  rw [← Lines.flatten_lines newline text]
  apply List.mem_flatten_of_mem hline h0

/-- The loop skips the header, or finds nothing but it. -/
theorem foldlM_header
    {text : List Byte} (hnul : 0 ∉ text) {hasHeader : Bool}
    (h : (textLines text).foldlM (csvLine value realloc) ⟨[], 0, 0, 0, !hasHeader⟩ = .ok s) :
  s.rows = 0
    ∨ (csvLines hasHeader text).foldlM (csvLine value realloc) ⟨[], 0, 0, 0, true⟩ = .ok s
  := by
  cases hasHeader with
  | false => exact .inr h
  | true =>
      have hline := nul_not_mem_line hnul
      rw [csvLines, if_pos rfl]
      generalize textLines text = ls at h hline
      cases ls with
      | nil =>
          left
          obtain rfl := Except.ok.inj h
          rfl
      | cons line ls =>
          right
          rw [List.foldlM_cons] at h
          cases hstep : csvLine value realloc ⟨[], 0, 0, 0, !true⟩ line with
          | error err =>
              rw [hstep] at h
              cases h
          | ok s₁ =>
              rw [hstep] at h
              rcases csvLine_cases (hline line List.mem_cons_self) hstep with
                ⟨-, rfl⟩ | ⟨hfalse, -⟩ | ⟨hfalse, -⟩
              · exact h
              · cases hfalse
              · cases hfalse

theorem length_of_csvRow {cols : ℕ} {ls : List (List Byte)} {rows : List (List F)}
    (h : List.Forall₂ (CsvRow value cols) ls rows) :
  ∀ vs ∈ rows, vs.length = cols
  := by
  induction h with
  | nil => simp
  | cons hrow _ ih => exact List.forall_mem_cons.mpr ⟨length_readCells hrow.read, ih⟩

/-- What `dataset_load_csv` gives when it succeeds. -/
theorem datasetLoadCsv_ok
    {text : List Byte} {file : CsvFile} (hcontent : file.content = some text) {hasHeader : Bool}
    {m : MatX F} (hnul : 0 ∉ text)
    (hshort : ∀ line ∈ textLines text, line.length < csvLineMax - 1)
    (h : datasetLoadCsv value file hasHeader = .ok m) :
  ∃ rows, List.Forall₂ (CsvRow value m.cols) ((csvLines hasHeader text).filter csvReads) rows
    ∧ m.rows = rows.length ∧ m.data = rows.flatten
  := by
  have hlines : fgetsAll csvLineMax text = textLines text :=
    Lines.readAll_eq_lines (by decide) (fun line hline => Nat.le_of_lt (hshort line hline))
  rw [datasetLoadCsv, hcontent] at h
  dsimp only at h
  rw [hlines] at h
  split at h
  · cases h
  case h_2 s hloop =>
  split at h
  · cases h
  case isFalse hrows =>
  split at h
  · cases h
  case h_2 m₀ hinit =>
  have hloop := (foldlM_header hnul hloop).resolve_left (fun hzero => hrows (.inl hzero))
  have hnul_lines : ∀ line ∈ csvLines hasHeader text, 0 ∉ line := by
    intro line hline
    apply nul_not_mem_line hnul line (mem_textLines_of_mem_csvLines hline)
  obtain ⟨-, hcount, rows, hall, hvals⟩ := foldlM_csvLine hnul_lines rfl hloop
  obtain rfl := matxInit_ok hinit
  obtain rfl := Except.ok.inj h
  have hlength := hall.length_eq
  dsimp only at hcount hvals ⊢
  rw [Nat.zero_add, hlength] at hcount
  rw [List.nil_append] at hvals
  have hflat : rows.flatten.length = s.rows * s.cols := by
    rw [length_flatten (length_of_csvRow hall), hcount]
  use rows, hall, hcount
  rw [hvals, List.take_of_length_le (Nat.le_of_eq hflat), List.drop_replicate, Nat.sub_self,
    List.replicate_zero, List.append_nil]

/-! ### The lines that are read -/

theorem not_blank_iff {line : List Byte} :
  (!line.all isSpace) = true ↔ ¬ Blank isSpace line
  := by
  rw [Bool.not_eq_true', ← Bool.not_eq_true, List.all_eq_true, Blank]

/-- A line from which numbers are read is not blank. -/
theorem CsvRow.not_blank {cols : ℕ} {line : List Byte} {vs : List F}
    (h : CsvRow value cols line vs) :
  (!line.all isSpace) = true
  := by
  rw [not_blank_iff]
  intro hblank
  have hread := h.read
  rw [← h.fields, countFields, readCells_of_none (strtofScanner_of_blank hblank)] at hread
  cases hread

theorem exists_getElem?_of_forall₂ {α β : Type} {R : α → β → Prop} {s : List α} {t : List β}
    (h : List.Forall₂ R s t) {r : ℕ} {a : α} (ha : s[r]? = some a) :
  ∃ b, t[r]? = some b ∧ R a b
  := by
  induction h generalizing r with
  | nil => cases ha
  | cons hR _ ih =>
      cases r with
      | zero =>
          obtain rfl := Option.some.inj ha
          exact ⟨_, rfl, hR⟩
      | succ r => apply ih ha

theorem exists_csvRow {cols : ℕ} {ls : List (List Byte)} {rows : List (List F)}
    (h : List.Forall₂ (CsvRow value cols) ls rows) {line : List Byte} (hline : line ∈ ls) :
  ∃ vs, CsvRow value cols line vs
  := by
  obtain ⟨r, hr⟩ := List.mem_iff_getElem?.mp hline
  obtain ⟨vs, -, hrow⟩ := exists_getElem?_of_forall₂ h hr
  use vs

/-- A blank line has no numbers. -/
theorem strictLine_of_blank {line : List Byte} (h : Blank isSpace line) :
  StrictLine line
  := by
  have hcomma : comma ∉ line := fun hmem => absurd (h comma hmem) (by decide)
  have hnone := strtofScanner_of_blank h
  constructor
  · intro cell hcell
    rw [csvCells_last hcomma, List.mem_singleton] at hcell
    rintro ⟨rest, hrest, -⟩
    rw [hcell, hnone] at hrest
    cases hrest
  · intro cell hcell rest hrest
    rw [csvCells_last hcomma, List.getLast?_singleton, Option.mem_def] at hcell
    rw [← Option.some.inj hcell, hnone] at hrest
    cases hrest

/-- A data line that is not blank is read, unless it starts with a carriage return. -/
theorem csvReads_of_not_blank
    {hasHeader : Bool} {text line : List Byte} (hline : line ∈ csvLines hasHeader text)
    (hblank : (!line.all isSpace) = true) (hcr : line.head? ≠ some carriageReturn) :
  csvReads line = true
  := by
  rw [csvReads, decide_eq_true_iff]
  rintro (hnewline | hreturn | rfl)
  · have hmem := mem_textLines_of_mem_csvLines hline
    rw [Lines.eq_singleton_of_mem_lines hmem hnewline] at hblank
    exact absurd hblank (by decide)
  · apply hcr hreturn
  · exact absurd hblank (by decide)

section Strict

variable {hasHeader : Bool} {text : List Byte} {m : MatX F} {rows : List (List F)}

theorem not_blank_of_csvReads
    (hall : List.Forall₂ (CsvRow value m.cols) ((csvLines hasHeader text).filter csvReads) rows)
    {line : List Byte} (hline : line ∈ csvLines hasHeader text) (hread : csvReads line = true) :
  (!line.all isSpace) = true
  := by
  obtain ⟨vs, hrow⟩ := exists_csvRow hall (List.mem_filter.mpr ⟨hline, hread⟩)
  apply hrow.not_blank

/-- When the matrix has a row for every data line that is not blank, all of them are read. -/
theorem CsvFaithful.csvReads_of_mem
    (h : CsvFaithful value hasHeader text m)
    (hall : List.Forall₂ (CsvRow value m.cols) ((csvLines hasHeader text).filter csvReads) rows)
    (hrows : m.rows = rows.length) {line : List Byte} (hline : line ∈ dataLines hasHeader text) :
  csvReads line = true
  := by
  have hfilter : (csvLines hasHeader text).filter csvReads
      = (dataLines hasHeader text).filter csvReads := by
    rw [dataLines, List.filter_filter]
    apply List.filter_congr
    intro line hline
    cases hread : csvReads line with
    | false => rfl
    | true => rw [not_blank_of_csvReads hall hline hread, Bool.true_and]
  have hlength : ((dataLines hasHeader text).filter csvReads).length
      = (dataLines hasHeader text).length := by
    rw [← hfilter, hall.length_eq, ← hrows, h.rows]
  apply List.length_filter_eq_length_iff.mp hlength line hline

/-- A matrix that contains the data lines comes from a strict file. -/
theorem CsvFaithful.csvStrict
    (h : CsvFaithful value hasHeader text m)
    (hall : List.Forall₂ (CsvRow value m.cols) ((csvLines hasHeader text).filter csvReads) rows)
    (hrows : m.rows = rows.length) :
  CsvStrict hasHeader text
  := by
  constructor
  · intro line hline hcr
    by_contra hblank
    have hmem : line ∈ dataLines hasHeader text :=
      List.mem_filter.mpr ⟨hline, not_blank_iff.mpr hblank⟩
    have hread := h.csvReads_of_mem hall hrows hmem
    rw [csvReads, decide_eq_true_iff] at hread
    apply hread (.inr (.inl hcr))
  · intro line hline
    by_cases hblank : Blank isSpace line
    · apply strictLine_of_blank hblank
    · have hmem : line ∈ dataLines hasHeader text :=
        List.mem_filter.mpr ⟨hline, not_blank_iff.mpr hblank⟩
      obtain ⟨r, hr⟩ := List.mem_iff_getElem?.mp hmem
      apply strictLine_of_cellValue value
      intro cell hcell
      obtain ⟨c, hc⟩ := List.mem_iff_getElem?.mp hcell
      obtain ⟨v, -, hv⟩ := (h.cells r line hr).2 c cell hc
      use v

/-- In a strict file the data lines that are not blank are those that are read. -/
theorem CsvStrict.dataLines_eq
    (h : CsvStrict hasHeader text)
    (hall : List.Forall₂ (CsvRow value m.cols) ((csvLines hasHeader text).filter csvReads) rows) :
  dataLines hasHeader text = (csvLines hasHeader text).filter csvReads
  := by
  apply List.filter_congr
  intro line hline
  rw [Bool.eq_iff_iff]
  constructor
  · intro hblank
    apply csvReads_of_not_blank hline hblank
    intro hcr
    apply not_blank_iff.mp hblank (h.blank line hline hcr)
  · apply not_blank_of_csvReads hall hline

/-- The matrix of a strict file contains its data lines. -/
theorem CsvStrict.csvFaithful
    (h : CsvStrict hasHeader text)
    (hall : List.Forall₂ (CsvRow value m.cols) ((csvLines hasHeader text).filter csvReads) rows)
    (hrows : m.rows = rows.length) (hdata : m.data = rows.flatten) :
  CsvFaithful value hasHeader text m
  := by
  have hlines := h.dataLines_eq hall
  constructor
  · rw [hlines, hrows, hall.length_eq]
  · intro r line hr
    rw [hlines] at hr
    obtain ⟨vs, hvs, hrow⟩ := exists_getElem?_of_forall₂ hall hr
    have hline := (List.mem_filter.mp (List.mem_of_getElem? hr)).1
    have hcells := (h.strict line hline).forall₂_cellValue (hrow.fields ▸ hrow.read)
    use (length_csvCells line).trans hrow.fields
    intro c cell hc
    obtain ⟨v, hv, hvalue⟩ := exists_getElem?_of_forall₂ hcells hc
    refine ⟨v, ?_, hvalue⟩
    have hlt : c < m.cols := by
      rw [← length_readCells hrow.read]
      apply (List.getElem?_eq_some_iff.mp hv).1
    rw [matxGet, hdata, getElem?_flatten (length_of_csvRow hall) hlt, hvs, Option.bind_some, hv]

end Strict

/-- When `dataset_load_csv` succeeds, the matrix contains the data lines exactly when the file
is strict. -/
theorem dataset_load_csv_iff
    {text : List Byte} {file : CsvFile} (hcontent : file.content = some text) {hasHeader : Bool}
    {m : MatX F} (hnul : 0 ∉ text)
    (hshort : ∀ line ∈ textLines text, line.length < csvLineMax - 1)
    (h : datasetLoadCsv value file hasHeader = .ok m) :
  CsvFaithful value hasHeader text m ↔ CsvStrict hasHeader text
  := by
  obtain ⟨rows, hall, hrows, hdata⟩ := datasetLoadCsv_ok hcontent hnul hshort h
  constructor
  · intro hfaithful
    apply hfaithful.csvStrict hall hrows
  · intro hstrict
    apply hstrict.csvFaithful hall hrows hdata

/-- The table `"1, 2\n"`, whose matrix contains the two numbers. -/
theorem dataset_load_csv_faithful :
  ∃ file : CsvFile, file.content = some [49, 44, 32, 50, 10]
    ∧ datasetLoadCsv decimalValue file false = .ok ⟨[1, 2], 1, 2⟩
    ∧ CsvFaithful decimalValue false [49, 44, 32, 50, 10] ⟨[1, 2], 1, 2⟩
  := by
  let file : CsvFile := ⟨some [49, 44, 32, 50, 10], fun _ => true, .upTo 4096 (by decide)⟩
  have hload : datasetLoadCsv decimalValue file false = .ok ⟨[1, 2], 1, 2⟩ := by
    decide +kernel
  have hlines : csvLines false [49, 44, 32, 50, 10] = [[49, 44, 32, 50, 10]] := by decide
  have hcells : csvCells [49, 44, 32, 50, 10] = [[49], [32, 50, 10]] := by decide
  have hstrict : CsvStrict false [49, 44, 32, 50, 10] := by
    constructor
    · intro line hline hcr
      rw [hlines, List.mem_singleton] at hline
      rw [hline] at hcr
      exact absurd hcr (by decide)
    · intro line hline
      rw [hlines, List.mem_singleton] at hline
      rw [hline]
      apply strictLine_of_cellValue decimalValue
      rw [hcells]
      intro cell hcell
      rcases List.mem_pair.mp hcell with rfl | rfl
      · exact ⟨1, [], by decide, by simp [Blank], by decide⟩
      · exact ⟨2, [10], by decide, by simp [Blank, isSpace], by decide⟩
  use file, rfl, hload
  apply (dataset_load_csv_iff rfl (by decide) (by decide) hload).mpr hstrict

/-- The text is loaded, but the matrix is not what its data lines say. -/
def Misread (text : List Byte) : Prop :=
  ∃ (file : CsvFile) (m : MatX ℕ), file.content = some text
    ∧ datasetLoadCsv decimalValue file false = .ok m ∧ ¬ CsvFaithful decimalValue false text m

/-- Two numbers in a cell (`"1 2,\n"`), text after the last number (`"1,2a\n"`) and a line that
starts with a carriage return (`"\ra\n1\n"`) are accepted. -/
theorem dataset_load_csv_misread :
  Misread [49, 32, 50, 44, 10] ∧ Misread [49, 44, 50, 97, 10] ∧ Misread [13, 97, 10, 49, 10]
  := by
  refine ⟨?_, ?_, ?_⟩
  · use ⟨some [49, 32, 50, 44, 10], fun _ => true, .upTo 4096 (by decide)⟩, ⟨[1, 2], 1, 2⟩, rfl,
      by decide +kernel
    intro hfaithful
    obtain ⟨v, -, rest, hrest, -⟩ := (hfaithful.cells 0 _ rfl).2 1 [10] (by decide)
    have hnone : strtofScanner [10] = none := by decide
    rw [hnone] at hrest
    cases hrest
  · use ⟨some [49, 44, 50, 97, 10], fun _ => true, .upTo 4096 (by decide)⟩, ⟨[1, 2], 1, 2⟩, rfl,
      by decide +kernel
    intro hfaithful
    obtain ⟨v, -, rest, hrest, hblank, -⟩ :=
      (hfaithful.cells 0 _ rfl).2 1 [50, 97, 10] (by decide)
    obtain rfl := Option.some.inj hrest
    exact absurd (hblank 97 (by decide)) (by decide)
  · use ⟨some [13, 97, 10, 49, 10], fun _ => true, .upTo 4096 (by decide)⟩, ⟨[1], 1, 1⟩, rfl,
      by decide +kernel
    intro hfaithful
    exact absurd hfaithful.rows (by decide)

end CTemplate

import CTemplate.Core.Stdio
import CTemplate.Core.Strtof
import CTemplate.Math.Matx

/-!
# Loading a table of numbers

`dataset_load_csv` of `ml/dataset.c`.  The columns of a line are counted by its commas, and
its numbers are read one after the other, each followed by any run of commas and blanks.
-/

namespace CTemplate

/-- `CSV_LINE_MAX` -/
def csvLineMax : ℕ := 4096

/-- The carriage return. -/
def carriageReturn : Byte := 13

variable {F : Type}

/-- `count_fields` -/
def countFields (line : List Byte) : ℕ :=
  line.count comma + 1

/-- The loop that doubles the capacity `newCap` until it is at least `need`, or `none` when it
would overflow. -/
def growCap (need newCap : ℕ) (h : 0 < newCap) : Option ℕ :=
  if newCap < need then
    if newCap > sizeMax / 2 then none
    else growCap need (newCap * 2) (Nat.mul_pos h Nat.two_pos)
  else some newCap
termination_by need - newCap

/-- The capacity from which the doubling starts. -/
def startCap (cap : ℕ) : ℕ :=
  if cap = 0 then 256 else cap

theorem startCap_pos (cap : ℕ) :
  0 < startCap cap
  := by
  rw [startCap]
  split <;> omega

/-- The capacity for `count + cols` values, when it is `cap` so far.  A call of `realloc` for
`n` bytes succeeds when `realloc n` holds. -/
def csvReserve (realloc : ℕ → Bool) (count cols cap : ℕ) : Except ErrorCode ℕ :=
  if cols > sizeMax - count then .error .overflow
  else if count + cols > cap then
    match growCap (count + cols) (startCap cap) (startCap_pos cap) with
    | none => .error .overflow
    | some newCap =>
        if newCap > sizeMax / floatSize then .error .overflow
        else if realloc (newCap * floatSize) then .ok newCap
        else .error .nomem
  else .ok cap

/-- A character between two cells that is skipped. -/
def isSeparator (c : Byte) : Bool :=
  c = comma ∨ c = 32

/-- The loop that reads the next `n` numbers of a line from the text `p` on, or `none` when
one of them is missing. -/
def readCells [Zero F] (value : List Byte → F) : ℕ → List Byte → Option (List F)
  | 0, _ => some []
  | n + 1, p =>
      let r := strtof value p
      if r.2.length = p.length then none
      else (readCells value n (r.2.dropWhile isSeparator)).map (r.1 :: ·)

/-- The local variables of `dataset_load_csv`. -/
structure CsvState (F : Type) where
  vals : List F
  cap : ℕ
  cols : ℕ
  rows : ℕ
  skippedHeader : Bool

/-- The body of the loop of `dataset_load_csv`, for the content of its buffer. -/
def csvLine [Zero F] (value : List Byte → F) (realloc : ℕ → Bool) (s : CsvState F)
    (buf : List Byte) : Except ErrorCode (CsvState F) :=
  let line := cstr buf
  if line.length + 1 ≥ csvLineMax then .error .unsupported
  else if ¬ s.skippedHeader then .ok { s with skippedHeader := true }
  else if line.head? = some newline ∨ line.head? = some carriageReturn ∨ line = [] then .ok s
  else
    let fields := countFields line
    let cols := if s.cols = 0 then fields else s.cols
    if fields ≠ cols then .error .io
    else
      match csvReserve realloc s.vals.length cols s.cap with
      | .error err => .error err
      | .ok cap =>
          match readCells value cols line with
          | none => .error .io
          | some vs => .ok ⟨s.vals ++ vs, cap, cols, s.rows + 1, true⟩

/-- What a call of `dataset_load_csv` meets: the content of the file unless it cannot be
opened, and which allocations succeed. -/
structure CsvFile where
  content : Option (List Byte)
  realloc : ℕ → Bool
  calloc : Calloc

/-- `dataset_load_csv`: the matrix, or the error. -/
def datasetLoadCsv [Zero F] (value : List Byte → F) (file : CsvFile) (hasHeader : Bool) :
    Except ErrorCode (MatX F) :=
  match file.content with
  | none => .error .notFound
  | some text =>
      match (fgetsAll csvLineMax text).foldlM (csvLine value file.realloc)
          ⟨[], 0, 0, 0, !hasHeader⟩ with
      | .error err => .error err
      | .ok s =>
          if s.rows = 0 ∨ s.cap = 0 then .error .io
          else
            match matxInit file.calloc s.rows s.cols with
            | .error err => .error err
            | .ok m =>
                .ok { m with
                  data := s.vals.take (s.rows * s.cols) ++ m.data.drop (s.rows * s.cols) }

end CTemplate

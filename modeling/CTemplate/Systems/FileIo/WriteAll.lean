import CTemplate.Core.Error
import CTemplate.Core.Memory
import CTemplate.Library.FileSystem
import CTemplate.Library.StateMachine

/-!
# Reading and writing whole files

`file_read_all` and `file_write_all` of `systems/file_io.c`.  A call of `file_write_all` is a
sequence of steps: it opens the temporary file, hands the buffer to the file in any number of
pieces, closes the file, and renames it; when one of these fails, it removes the temporary
file.  The stream may keep bytes back until it is closed, so pieces reach the file up to that
point, and a call that found an error may still write some when it closes the stream.  The
process may die between any two steps.
-/

namespace CTemplate

/-- The files of a system, by their paths. -/
abbrev Files : Type := FileSystem CString Byte

/-- The name of the temporary file: the path followed by `".tmp"`. -/
def tmpName (path : CString) : CString :=
  ⟨path.val ++ [46, 116, 109, 112], by
    have h := path.property
    simp [h]⟩

/-- What the functions called by `file_read_all` do: each succeeds or fails. -/
structure ReadOutcome where
  fopen : Bool
  seekEnd : Bool
  ftell : Bool
  seekSet : Bool
  malloc : Bool
  fread : Bool
  fclose : Bool
  deriving DecidableEq

/-- Every call succeeds. -/
def ReadOutcome.success : ReadOutcome :=
  ⟨true, true, true, true, true, true, true⟩

/-- `file_read_all`: the bytes it gives, or the error it returns. -/
def fileReadAll (fs : Files) (path : CString) (o : ReadOutcome) :
    Except ErrorCode (List Byte) :=
  match fs.read path with
  | none => .error .io
  | some content =>
      if ¬ o.fopen then .error .io
      else if ¬ o.seekEnd then .error .io
      else if ¬ o.ftell ∨ ¬ o.seekSet then .error .io
      else
        let len := content.length
        if ¬ o.malloc then .error .nomem
        else if len > 0 ∧ ¬ o.fread then .error .io
        else if ¬ o.fclose then .error .io
        else .ok (content.take len)

/-- What a call of `file_write_all` does with its open stream: it is writing the buffer, or
it has written all of it and closes the stream, or it found an error and closes it. -/
inductive Stream where
  | writing
  | closing
  | abandoning
  deriving DecidableEq

/-- The point at which a call of `file_write_all` is. -/
inductive WritePoint where
  /-- Before the temporary file is opened. -/
  | start
  /-- The temporary file is open as an inode, and `off` bytes have reached it. -/
  | opened (stream : Stream) (inode off : ℕ)
  /-- The temporary file was closed; it is renamed next. -/
  | toRename
  /-- An error was found; the temporary file is removed next. -/
  | toRemove
  /-- The call returned. -/
  | done (code : ErrorCode)
  deriving DecidableEq

/-- What happens in a step: what the functions called do, or a piece of the buffer reaching
the file. -/
inductive WriteAct where
  | overflow
  | nomem
  | openFailed
  | opened
  | write (n : ℕ)
  | fwriteFailed
  | fwritten
  | closed (ok : Bool)
  | renameFailed
  | renamed
  | removeFailed
  | removed
  deriving DecidableEq

/-- A step of a call of `file_write_all`. -/
def fileWriteAll (path : CString) (buf : List Byte) (fs : Files) :
    WritePoint → WriteAct → Option (Files × WritePoint)
  | .start, .overflow =>
      if path.val.length > sizeMax - 5 then some (fs, .done .overflow) else none
  | .start, .nomem =>
      if path.val.length > sizeMax - 5 then none else some (fs, .done .nomem)
  | .start, .openFailed =>
      if path.val.length > sizeMax - 5 then none else some (fs, .done .io)
  | .start, .opened =>
      if path.val.length > sizeMax - 5 then none
      else some (fs.create (tmpName path), .opened .writing (fs.inodeFor (tmpName path)) 0)
  | .opened stream i off, .write n =>
      if 0 < n ∧ off + n ≤ buf.length then
        some (fs.write i off ((buf.drop off).take n), .opened stream i (off + n))
      else none
  | .opened .writing i off, .fwriteFailed =>
      if buf.length > 0 then some (fs, .opened .abandoning i off) else none
  | .opened .writing i off, .fwritten => some (fs, .opened .closing i off)
  | .opened .closing _ off, .closed true =>
      if off = buf.length then some (fs, .toRename) else none
  | .opened .closing _ _, .closed false => some (fs, .toRemove)
  | .opened .abandoning _ _, .closed _ => some (fs, .toRemove)
  | .toRename, .renamed =>
      if (fs.names (tmpName path)).isSome then
        some (fs.rename (tmpName path) path, .done .ok)
      else none
  | .toRename, .renameFailed => some (fs, .toRemove)
  | .toRemove, .removed =>
      if (fs.names (tmpName path)).isSome then some (fs.remove (tmpName path), .done .io)
      else none
  | .toRemove, .removeFailed => some (fs, .done .io)
  | _, _ => none

/-- A step of a call of `file_write_all`, which is recorded. -/
def fileWriteStep (path : CString) (buf : List Byte) (s : Files × WritePoint)
    (act : WriteAct) : Option ((Files × WritePoint) × Option WriteAct) :=
  (fileWriteAll path buf s.1 s.2 act).map fun s' => (s', some act)

/-- One call of `file_write_all` on the files `fs₀`. -/
def fileWriteMachine (path : CString) (buf : List Byte) (fs₀ : Files) :
    StateMachine (Files × WritePoint) WriteAct :=
  .ofStep (fun s => s = (fs₀, .start)) (fileWriteStep path buf)

theorem tmpName_ne (path : CString) :
  tmpName path ≠ path
  := by
  intro h
  have hlength := congrArg (fun s : CString => s.val.length) h
  simp [tmpName] at hlength

/-! ### The ways of a step -/

/-- What a step can do to the files and to the point at which the call is. -/
inductive WriteStep (path : CString) (buf : List Byte) (fs : Files) :
    WritePoint → WriteAct → Files → WritePoint → Prop where
  | refused {act : WriteAct} {code : ErrorCode}
      (hact : act = .overflow ∨ act = .nomem ∨ act = .openFailed) (hcode : code ≠ .ok) :
      WriteStep path buf fs .start act fs (.done code)
  | opened :
      WriteStep path buf fs .start .opened (fs.create (tmpName path))
        (.opened .writing (fs.inodeFor (tmpName path)) 0)
  | write {stream : Stream} {i off n : ℕ} (hn : 0 < n) (hle : off + n ≤ buf.length) :
      WriteStep path buf fs (.opened stream i off) (.write n)
        (fs.write i off ((buf.drop off).take n)) (.opened stream i (off + n))
  | flush {stream stream' : Stream} {i off : ℕ} {act : WriteAct}
      (hact : act = .fwriteFailed ∨ act = .fwritten) :
      WriteStep path buf fs (.opened stream i off) act fs (.opened stream' i off)
  | closed {i : ℕ} :
      WriteStep path buf fs (.opened .closing i buf.length) (.closed true) fs .toRename
  | failed {stream : Stream} {i off : ℕ} {ok : Bool} :
      WriteStep path buf fs (.opened stream i off) (.closed ok) fs .toRemove
  | renamed {i : ℕ} (htmp : fs.names (tmpName path) = some i) :
      WriteStep path buf fs .toRename .renamed (fs.rename (tmpName path) path) (.done .ok)
  | renameFailed : WriteStep path buf fs .toRename .renameFailed fs .toRemove
  | removed : WriteStep path buf fs .toRemove .removed (fs.remove (tmpName path)) (.done .io)
  | removeFailed : WriteStep path buf fs .toRemove .removeFailed fs (.done .io)

/-- A step while the temporary file is open. -/
theorem fileWriteAll_opened_cases
    {path : CString} {buf : List Byte} {fs fs' : Files} {stream : Stream} {i off : ℕ}
    {pt' : WritePoint} {act : WriteAct}
    (h : fileWriteAll path buf fs (.opened stream i off) act = some (fs', pt')) :
  WriteStep path buf fs (.opened stream i off) act fs' pt'
  := by
  cases act with
  | write n =>
      simp only [fileWriteAll, Option.ite_none_right_eq_some, Option.some.injEq,
        Prod.mk.injEq] at h
      obtain ⟨⟨hn, hle⟩, rfl, rfl⟩ := h
      exact .write hn hle
  | fwriteFailed =>
      cases stream <;> simp only [fileWriteAll, reduceCtorEq,
        Option.ite_none_right_eq_some, Option.some.injEq, Prod.mk.injEq] at h
      obtain ⟨-, rfl, rfl⟩ := h
      exact .flush (.inl rfl)
  | fwritten =>
      cases stream <;> simp only [fileWriteAll, reduceCtorEq, Option.some.injEq,
        Prod.mk.injEq] at h
      obtain ⟨rfl, rfl⟩ := h
      exact .flush (.inr rfl)
  | closed ok =>
      cases stream with
      | writing => cases ok <;> cases h
      | abandoning =>
          cases ok <;> cases h <;> exact .failed
      | closing =>
          cases ok with
          | false =>
              cases h
              exact .failed
          | true =>
              simp only [fileWriteAll, Option.ite_none_right_eq_some, Option.some.injEq,
                Prod.mk.injEq] at h
              obtain ⟨rfl, rfl, rfl⟩ := h
              exact .closed
  | _ => cases stream <;> cases h

/-- A step is one of these. -/
theorem fileWriteAll_cases
    {path : CString} {buf : List Byte} {fs fs' : Files} {pt pt' : WritePoint} {act : WriteAct}
    (h : fileWriteAll path buf fs pt act = some (fs', pt')) :
  WriteStep path buf fs pt act fs' pt'
  := by
  cases pt with
  | start =>
      cases act <;>
        simp only [fileWriteAll, reduceCtorEq, Option.ite_none_left_eq_some,
          Option.ite_none_right_eq_some, Option.some.injEq, Prod.mk.injEq] at h
      case overflow =>
        obtain ⟨-, rfl, rfl⟩ := h
        exact .refused (.inl rfl) (by decide)
      case nomem =>
        obtain ⟨-, rfl, rfl⟩ := h
        exact .refused (.inr (.inl rfl)) (by decide)
      case openFailed =>
        obtain ⟨-, rfl, rfl⟩ := h
        exact .refused (.inr (.inr rfl)) (by decide)
      case opened =>
        obtain ⟨-, rfl, rfl⟩ := h
        exact .opened
  | opened => apply fileWriteAll_opened_cases h
  | toRename =>
      cases act <;>
        simp only [fileWriteAll, reduceCtorEq, Option.ite_none_right_eq_some, Option.some.injEq,
          Prod.mk.injEq] at h
      case renamed =>
        obtain ⟨htmp, rfl, rfl⟩ := h
        obtain ⟨i, hi⟩ := Option.isSome_iff_exists.mp htmp
        exact .renamed hi
      case renameFailed =>
        obtain ⟨rfl, rfl⟩ := h
        exact .renameFailed
  | toRemove =>
      cases act <;>
        simp only [fileWriteAll, reduceCtorEq, Option.ite_none_right_eq_some, Option.some.injEq,
          Prod.mk.injEq] at h
      case removed =>
        obtain ⟨-, rfl, rfl⟩ := h
        exact .removed
      case removeFailed =>
        obtain ⟨rfl, rfl⟩ := h
        exact .removeFailed
  | done code => cases act <;> cases h

section Inversion

variable {path : CString} {buf : List Byte} {fs fs' : Files} {pt pt' : WritePoint}

/-- Opening the temporary file is the first step of a call. -/
theorem WriteStep.of_opened (h : WriteStep path buf fs pt .opened fs' pt') :
  pt = .start ∧ fs' = fs.create (tmpName path)
    ∧ pt' = .opened .writing (fs.inodeFor (tmpName path)) 0
  := by
  cases h with
  | opened => exact ⟨rfl, rfl, rfl⟩
  | refused hact => simp at hact
  | flush hact => simp at hact

/-- Renaming the temporary file, which exists, is the last step of a call that succeeds. -/
theorem WriteStep.of_renamed (h : WriteStep path buf fs pt .renamed fs' pt') :
  pt = .toRename ∧ fs' = fs.rename (tmpName path) path ∧ pt' = .done .ok
    ∧ ∃ i, fs.names (tmpName path) = some i
  := by
  cases h with
  | @renamed i htmp => exact ⟨rfl, rfl, rfl, i, htmp⟩
  | refused hact => simp at hact
  | flush hact => simp at hact

end Inversion

end CTemplate

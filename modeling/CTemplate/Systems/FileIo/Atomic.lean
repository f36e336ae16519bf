import CTemplate.Systems.FileIo.WriteAll

/-!
# A single call of file_write_all

One call of `file_write_all`, with nobody else using the files: whichever functions fail, and
wherever the process dies, the path has its old content until the temporary file is renamed
and the whole buffer from then on.
-/

namespace CTemplate

variable {path : CString} {buf : List Byte} {fs₀ fs fs' : Files} {log : List WriteAct}
  {pt pt' : WritePoint} {act : WriteAct}

/-- What a call knows of its temporary file, and of what it has done, at each point. -/
def WritePoint.Progress (path : CString) (buf : List Byte) (fs : Files)
    (log : List WriteAct) : WritePoint → Prop
  | .start => .renamed ∉ log ∧ .removed ∉ log
  | .opened _ i off =>
      fs.names (tmpName path) = some i ∧ fs.content i = buf.take off ∧ off ≤ buf.length
        ∧ .renamed ∉ log ∧ .removed ∉ log
  | .toRename =>
      fs.read (tmpName path) = some buf ∧ .renamed ∉ log ∧ .removed ∉ log
  | .toRemove => .renamed ∉ log ∧ .removed ∉ log
  | .done code =>
      (code = .ok ↔ .renamed ∈ log)
        ∧ (.removed ∈ log → fs.names (tmpName path) = none)

/-- What holds of the files `fs`, which were `fs₀` before the call. -/
structure AtomicInvariant (path : CString) (buf : List Byte) (fs₀ : Files)
    (log : List WriteAct) (fs : Files) (pt : WritePoint) : Prop where
  noLinks : fs.NoLinks
  names_eq : ∀ n, n ≠ path → n ≠ tmpName path → fs.names n = fs₀.names n
  read_eq : ∀ n, n ≠ path → n ≠ tmpName path → fs.read n = fs₀.read n
  before : .renamed ∉ log → fs.read path = fs₀.read path
  after : .renamed ∈ log → fs.read path = some buf
  progress : pt.Progress path buf fs log

theorem AtomicInvariant.init (h₀ : fs₀.NoLinks) :
  AtomicInvariant path buf fs₀ [] fs₀ .start
  := by
  constructor
  · exact h₀
  · intro n _ _
    rfl
  · intro n _ _
    rfl
  · intro _
    rfl
  · simp
  · simp [WritePoint.Progress]

/-- A step that leaves the files alone and neither renames nor removes anything. -/
theorem AtomicInvariant.of_same
    (h : AtomicInvariant path buf fs₀ log fs pt) (hact : act ≠ .renamed)
    (hprogress : pt'.Progress path buf fs (log ++ [act])) :
  AtomicInvariant path buf fs₀ (log ++ [act]) fs pt'
  := by
  have hmem : .renamed ∈ log ++ [act] ↔ .renamed ∈ log := by
    simp [hact.symm]
  exact
    { h with
      before := by
        rw [hmem]
        exact h.before
      after := by
        rw [hmem]
        exact h.after
      progress := hprogress }

/-- A step before the renaming that changes only what is read under the name of the temporary
file. -/
theorem AtomicInvariant.of_tmp
    (h : AtomicInvariant path buf fs₀ log fs pt) (hlog : .renamed ∉ log) (hact : act ≠ .renamed)
    (hlinks : fs'.NoLinks) (hnames : ∀ n, n ≠ tmpName path → fs'.names n = fs.names n)
    (hread : ∀ n, n ≠ tmpName path → fs'.read n = fs.read n)
    (hprogress : pt'.Progress path buf fs' (log ++ [act])) :
  AtomicInvariant path buf fs₀ (log ++ [act]) fs' pt'
  := by
  have hmem : .renamed ∉ log ++ [act] := by
    simp [hlog, hact.symm]
  exact
    { noLinks := hlinks
      names_eq := by
        intro n hpath htmp
        rw [hnames n htmp, h.names_eq n hpath htmp]
      read_eq := by
        intro n hpath htmp
        rw [hread n htmp, h.read_eq n hpath htmp]
      before := by
        intro _
        rw [hread path (tmpName_ne path).symm, h.before hlog]
      after := fun hrenamed => absurd hrenamed hmem
      progress := hprogress }

/-- Opening the temporary file. -/
theorem AtomicInvariant.opened (h : AtomicInvariant path buf fs₀ log fs .start) :
  AtomicInvariant path buf fs₀ (log ++ [.opened]) (fs.create (tmpName path))
    (.opened .writing (fs.inodeFor (tmpName path)) 0)
  := by
  obtain ⟨hrenamed, hremoved⟩ := h.progress
  apply h.of_tmp hrenamed (by decide) h.noLinks.create
  · intro n hn
    apply FileSystem.names_create_of_ne hn
  · intro n hn
    apply FileSystem.read_create_of_ne hn
    intro i hi htmp
    exact hn (h.noLinks _ _ _ hi htmp)
  · simp [WritePoint.Progress, hrenamed, hremoved]

/-- A piece of the buffer reaches the file. -/
theorem AtomicInvariant.write
    {stream : Stream} {i off n : ℕ}
    (h : AtomicInvariant path buf fs₀ log fs (.opened stream i off))
    (hle : off + n ≤ buf.length) :
  AtomicInvariant path buf fs₀ (log ++ [.write n]) (fs.write i off ((buf.drop off).take n))
    (.opened stream i (off + n))
  := by
  obtain ⟨hnames, hcontent, hoff, hrenamed, hremoved⟩ := h.progress
  have hlength : (fs.content i).length = off := by
    rw [hcontent, List.length_take, Nat.min_eq_left hoff]
  apply h.of_tmp hrenamed (by simp) (h.noLinks.write _ _)
  · intro m _
    rfl
  · intro m hm
    apply FileSystem.read_write_of_ne
    intro hi
    exact hm (h.noLinks _ _ _ hi hnames)
  · refine ⟨hnames, ?_, hle, by simpa using hrenamed, by simpa using hremoved⟩
    rw [FileSystem.content_write_end hlength, hcontent, List.take_add]

/-- The temporary file takes the place of the path. -/
theorem AtomicInvariant.renamed (h : AtomicInvariant path buf fs₀ log fs .toRename) :
  AtomicInvariant path buf fs₀ (log ++ [.renamed]) (fs.rename (tmpName path) path)
    (.done .ok)
  := by
  obtain ⟨hread, hrenamed, hremoved⟩ := h.progress
  have hne := tmpName_ne path
  exact
    { noLinks := h.noLinks.rename
      names_eq := by
        intro n hpath htmp
        rw [FileSystem.names_rename_of_ne htmp hpath, h.names_eq n hpath htmp]
      read_eq := by
        intro n hpath htmp
        rw [FileSystem.read_rename_of_ne htmp hpath, h.read_eq n hpath htmp]
      before := by simp
      after := by
        intro _
        rw [FileSystem.read_rename_target hne.symm, hread]
      progress := by
        simp [WritePoint.Progress, hremoved] }

/-- The temporary file is removed. -/
theorem AtomicInvariant.removed (h : AtomicInvariant path buf fs₀ log fs .toRemove) :
  AtomicInvariant path buf fs₀ (log ++ [.removed]) (fs.remove (tmpName path)) (.done .io)
  := by
  obtain ⟨hrenamed, -⟩ := h.progress
  apply h.of_tmp hrenamed (by decide) h.noLinks.remove
  · intro n hn
    apply FileSystem.names_remove_of_ne hn
  · intro n hn
    apply FileSystem.read_remove_of_ne hn
  · simp [WritePoint.Progress, hrenamed]

/-- Every step keeps the invariant. -/
theorem AtomicInvariant.step
    (h : AtomicInvariant path buf fs₀ log fs pt) (hstep : WriteStep path buf fs pt act fs' pt') :
  AtomicInvariant path buf fs₀ (log ++ [act]) fs' pt'
  := by
  have hprogress := h.progress
  cases hstep with
  | refused hact hcode =>
      apply h.of_same
      · rcases hact with rfl | rfl | rfl <;> decide
      · rcases hact with rfl | rfl | rfl <;>
          simp [WritePoint.Progress, hcode, hprogress.1, hprogress.2]
  | opened => apply h.opened
  | write hn hle => apply h.write hle
  | flush hact =>
      apply h.of_same
      · rcases hact with rfl | rfl <;> decide
      · rcases hact with rfl | rfl <;> simpa [WritePoint.Progress] using hprogress
  | @closed i =>
      apply h.of_same (by decide)
      obtain ⟨hnames, hcontent, -, hrenamed, hremoved⟩ := hprogress
      rw [List.take_length] at hcontent
      simp [WritePoint.Progress, FileSystem.read, hnames, hcontent, hrenamed, hremoved]
  | failed =>
      apply h.of_same (by simp)
      obtain ⟨-, -, -, hrenamed, hremoved⟩ := hprogress
      simp [WritePoint.Progress, hrenamed, hremoved]
  | renamed htmp => apply h.renamed
  | renameFailed =>
      apply h.of_same (by decide)
      simpa [WritePoint.Progress] using hprogress.2
  | removed => apply h.removed
  | removeFailed =>
      apply h.of_same (by decide)
      simp [WritePoint.Progress, hprogress.1, hprogress.2]

/-- The invariant holds after any steps of the call. -/
theorem AtomicInvariant.of_reaches
    (h₀ : fs₀.NoLinks) (h : (fileWriteMachine path buf fs₀).Reaches log (fs, pt)) :
  AtomicInvariant path buf fs₀ log fs pt
  := by
  apply h.invariant (I := fun log s => AtomicInvariant path buf fs₀ log s.1 s.2)
  · rintro s rfl
    apply AtomicInvariant.init h₀
  · rintro log ⟨fs, pt⟩ e ⟨fs', pt'⟩ - hI ⟨act, hact⟩
    rw [fileWriteStep, Option.map_eq_some_iff] at hact
    obtain ⟨⟨fs'', pt''⟩, hstep, heq⟩ := hact
    cases heq
    apply hI.step (fileWriteAll_cases hstep)

/-! ### Reading the file back -/

/-- What `file_read_all` gives is the content of the file. -/
theorem fileReadAll_eq {content bytes : List Byte} (hread : fs.read path = some content)
    {o : ReadOutcome} (h : fileReadAll fs path o = .ok bytes) :
  bytes = content
  := by
  simp only [fileReadAll, hread, List.take_length] at h
  repeat' split at h
  all_goals cases h
  rfl

theorem fileReadAll_success {content : List Byte} (hread : fs.read path = some content) :
  fileReadAll fs path .success = .ok content
  := by
  simp [fileReadAll, hread, ReadOutcome.success]

/-! ### The promises of a call -/

/-- In every state that a call of `file_write_all` can be in, also when the process dies
there: the path has its old content before the renaming and the whole buffer after it.  The
call returns `ERR_OK` exactly when the renaming succeeded, and then `file_read_all` gives the
buffer.  A call that returns an error has left the path alone, and no temporary file when it
could remove it.  Other files are never touched. -/
theorem file_write_all_atomic
    (h₀ : fs₀.NoLinks) (h : (fileWriteMachine path buf fs₀).Reaches log (fs, pt)) :
  (.renamed ∉ log → fs.read path = fs₀.read path)
    ∧ (.renamed ∈ log → fs.read path = some buf)
    ∧ (∀ code, pt = .done code →
        (code = .ok ↔ .renamed ∈ log)
          ∧ (code ≠ .ok → fs.read path = fs₀.read path
              ∧ (.removed ∈ log → fs.read (tmpName path) = none)))
    ∧ (pt = .done .ok → fileReadAll fs path .success = .ok buf
        ∧ ∀ o bytes, fileReadAll fs path o = .ok bytes → bytes = buf)
    ∧ ∀ n, n ≠ path → n ≠ tmpName path →
        fs.names n = fs₀.names n ∧ fs.read n = fs₀.read n
  := by
  have hI := AtomicInvariant.of_reaches h₀ h
  refine ⟨hI.before, hI.after, ?_, ?_, ?_⟩
  · rintro code rfl
    obtain ⟨hok, hremoved⟩ := hI.progress
    use hok
    intro hcode
    use hI.before (hok.not.mp hcode)
    intro hmem
    rw [FileSystem.read, hremoved hmem]
    rfl
  · rintro rfl
    have hread := hI.after (hI.progress.1.mp rfl)
    use fileReadAll_success hread
    intro o bytes
    apply fileReadAll_eq hread
  · intro n hpath htmp
    use hI.names_eq n hpath htmp, hI.read_eq n hpath htmp

/-- A call that writes two bytes in two pieces to a new file `"f"`. -/
theorem file_write_all_atomic_of_run :
  ∃ fs : Files, (fileWriteMachine ⟨[102], by decide⟩ [1, 2] .empty).Reaches
      [.opened, .write 1, .fwritten, .write 1, .closed true, .renamed] (fs, .done .ok)
    ∧ fs.read ⟨[102], by decide⟩ = some [1, 2]
    ∧ fileReadAll fs ⟨[102], by decide⟩ .success = .ok [1, 2]
  := by
  have hrun : ∃ fs : Files,
      StateMachine.run (fileWriteStep ⟨[102], by decide⟩ [1, 2]) (.empty, .start)
          [.opened, .write 1, .fwritten, .write 1, .closed true, .renamed]
        = some ((fs, .done .ok),
            [.opened, .write 1, .fwritten, .write 1, .closed true, .renamed]) :=
    ⟨_, rfl⟩
  obtain ⟨fs, hrun⟩ := hrun
  have hs : (fileWriteMachine ⟨[102], by decide⟩ [1, 2] .empty).Reaches _ (fs, .done .ok) :=
    StateMachine.reaches_of_run rfl hrun
  obtain ⟨-, hafter, -, hread, -⟩ := file_write_all_atomic FileSystem.noLinks_empty hs
  use fs, hs, hafter (by decide)
  exact (hread rfl).1

end CTemplate

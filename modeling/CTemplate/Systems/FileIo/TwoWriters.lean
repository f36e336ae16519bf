import CTemplate.Systems.FileIo.WriteAll

/-!
# Two calls of file_write_all

Two calls of `file_write_all` for the same path, whose steps interleave in any order.  Both
use the same temporary file, so a call may truncate what the other has written or rename it
to the path.

A call is `Exclusive` when the other one did not have the temporary file open when it opened
it, and has not opened it since.  When every call that renames is exclusive, a reader of the
path finds its old content or the whole buffer of a call.
-/

namespace CTemplate

/-! ### The two calls -/

/-- One of the two calls. -/
inductive Caller where
  | first
  | second
  deriving DecidableEq

/-- The other call. -/
def Caller.other : Caller → Caller
  | first => second
  | second => first

/-- The files, and the point at which each call is. -/
structure TwoWriters where
  fs : Files
  point : Caller → WritePoint

/-- The system after a step of a call. -/
def TwoWriters.move (s : TwoWriters) (c : Caller) (fs : Files) (pt : WritePoint) :
    TwoWriters :=
  ⟨fs, Function.update s.point c pt⟩

/-- A step of one of the calls, which is recorded. -/
def twoWritersStep (path : CString) (buf : Caller → List Byte) (s : TwoWriters)
    (e : Caller × WriteAct) : Option (TwoWriters × Option (Caller × WriteAct)) :=
  (fileWriteAll path (buf e.1) s.fs (s.point e.1) e.2).map fun s' =>
    (s.move e.1 s'.1 s'.2, some e)

/-- Two calls of `file_write_all` that write the buffers `buf` to the path, on the files
`fs₀`. -/
def twoWriters (path : CString) (buf : Caller → List Byte) (fs₀ : Files) :
    StateMachine TwoWriters (Caller × WriteAct) :=
  .ofStep (fun s => s = ⟨fs₀, fun _ => .start⟩) (twoWritersStep path buf)

/-- The other call did not have the temporary file open when the call opened it, and has not
opened it since. -/
def Exclusive (c : Caller) (log : List (Caller × WriteAct)) : Prop :=
  ∃ pre mid, log = pre ++ (c, .opened) :: mid
    ∧ (c.other, .opened) ∉ mid
    ∧ ((c.other, .opened) ∈ pre → ∃ ok, (c.other, .closed ok) ∈ pre)

/-- Every call that renames the temporary file is exclusive. -/
def ExclusiveRenames (log : List (Caller × WriteAct)) : Prop :=
  ∀ (c : Caller) (pre post : List (Caller × WriteAct)),
    log = pre ++ (c, .renamed) :: post → Exclusive c pre

/-- The path and the name of the temporary file are not bound to the same inode. -/
def Apart (path : CString) (fs : Files) : Prop :=
  ∀ i, fs.names path = some i → fs.names (tmpName path) ≠ some i

variable {path : CString} {buf : Caller → List Byte} {fs₀ fs fs' : Files}
  {log : List (Caller × WriteAct)} {c d : Caller} {act : WriteAct}

theorem Caller.other_ne (c : Caller) : c.other ≠ c := by
  cases c <;> decide

theorem Caller.eq_or_eq_other (c d : Caller) : d = c ∨ d = c.other := by
  cases c <;> cases d <;> decide

@[simp]
theorem Caller.other_other (c : Caller) : c.other.other = c := by
  cases c <;> rfl

@[simp]
theorem TwoWriters.fs_move (s : TwoWriters) (c : Caller) (fs : Files) (pt : WritePoint) :
  (s.move c fs pt).fs = fs
  := rfl

@[simp]
theorem TwoWriters.point_move_self (s : TwoWriters) (c : Caller) (fs : Files) (pt : WritePoint) :
  (s.move c fs pt).point c = pt
  := Function.update_self _ _ _

@[simp]
theorem TwoWriters.point_move_other (s : TwoWriters) (c : Caller) (fs : Files)
    (pt : WritePoint) :
  (s.move c fs pt).point c.other = s.point c.other
  := Function.update_of_ne c.other_ne _ _

/-! ### Exclusive calls -/

theorem ExclusiveRenames.of_append
    {log' : List (Caller × WriteAct)} (h : ExclusiveRenames (log ++ log')) :
  ExclusiveRenames log
  := by
  intro c pre post hlog
  apply h c pre (post ++ log')
  rw [hlog, List.append_assoc, List.cons_append]

theorem ExclusiveRenames.of_renamed (h : ExclusiveRenames (log ++ [(c, .renamed)])) :
  Exclusive c log
  := h c log [] rfl

/-- A call that is exclusive was so before a step that is not its opening of the file, and
the step is not the other call's. -/
theorem Exclusive.of_snoc
    {e : Caller × WriteAct} (h : Exclusive c (log ++ [e])) (he : e ≠ (c, .opened)) :
  Exclusive c log ∧ e ≠ (c.other, .opened)
  := by
  obtain ⟨pre, mid, hlog, hmid, hpre⟩ := h
  rcases List.eq_nil_or_concat mid with rfl | ⟨mid', e', rfl⟩
  · obtain ⟨-, hlast⟩ := List.append_inj' hlog rfl
    exact absurd (List.cons.inj hlast).1 he
  · rw [List.concat_eq_append, ← List.cons_append, ← List.append_assoc] at hlog
    obtain ⟨hinit, hlast⟩ := List.append_inj' hlog rfl
    obtain rfl := (List.cons.inj hlast).1
    rw [List.concat_eq_append, List.mem_append, not_or] at hmid
    constructor
    · exact ⟨pre, mid', hinit, hmid.1, hpre⟩
    · rintro rfl
      apply hmid.2 (List.mem_singleton_self _)

/-- When a call that opens the file for the first time is exclusive, the other one has closed
the file if it ever opened it. -/
theorem Exclusive.of_opened
    (h : Exclusive c (log ++ [(c, .opened)])) (hlog : (c, .opened) ∉ log)
    (hother : (c.other, .opened) ∈ log) :
  ∃ ok, (c.other, .closed ok) ∈ log
  := by
  obtain ⟨pre, mid, heq, hmid, hpre⟩ := h
  rcases List.eq_nil_or_concat mid with rfl | ⟨mid', e', rfl⟩
  · obtain ⟨rfl, -⟩ := List.append_inj' heq rfl
    apply hpre hother
  · rw [List.concat_eq_append, ← List.cons_append, ← List.append_assoc] at heq
    obtain ⟨heq, -⟩ := List.append_inj' heq rfl
    exact absurd (heq ▸ List.mem_append_right _ List.mem_cons_self) hlog

/-! ### What a call has done -/

/-- The call has the inode open. -/
def WritePoint.Holds (i : ℕ) (pt : WritePoint) : Prop :=
  ∃ stream off, pt = .opened stream i off

/-- What the log says of a call at some point: one that has not opened the file has not begun
or has returned, one that has not begun has done nothing, and one that has closed the file
does not have it open. -/
structure CallerLog (c : Caller) (log : List (Caller × WriteAct)) (pt : WritePoint) :
    Prop where
  unopened : (c, .opened) ∉ log → pt = .start ∨ ∃ code, pt = .done code
  unstarted : pt = .start → ∀ act, (c, act) ∉ log
  closed : ∀ {ok}, (c, .closed ok) ∈ log → ∀ i, ¬ pt.Holds i

/-- Steps of the other call are not in the log of a call. -/
theorem CallerLog.of_ne {pt : WritePoint} (h : CallerLog c log pt) (hd : d ≠ c) :
  CallerLog c (log ++ [(d, act)]) pt
  := by
  have hmem : ∀ a, (c, a) ∈ log ++ [(d, act)] ↔ (c, a) ∈ log := by
    simp [hd.symm]
  constructor
  · rw [hmem]
    exact h.unopened
  · intro hpt a
    rw [hmem]
    apply h.unstarted hpt
  · intro ok
    rw [hmem]
    exact h.closed

/-- A call that is neither before the opening of the file nor over has opened it. -/
theorem CallerLog.opened_mem
    {pt : WritePoint} (h : CallerLog c log pt) (hstart : pt ≠ .start)
    (hdone : ∀ code, pt ≠ .done code) :
  (c, .opened) ∈ log
  := by
  by_contra hlog
  rcases h.unopened hlog with hpt | ⟨code, hpt⟩
  · apply hstart hpt
  · apply hdone code hpt

theorem CallerLog.step
    {pt pt' : WritePoint} {b : List Byte} (h : CallerLog c log pt)
    (hstep : WriteStep path b fs pt act fs' pt') :
  CallerLog c (log ++ [(c, act)]) pt'
  := by
  have hopened : pt ≠ .start → (∀ code, pt ≠ .done code) → (c, .opened) ∈ log ++ [(c, act)] :=
    fun hstart hdone => List.mem_append_left _ (h.opened_mem hstart hdone)
  constructor
  · intro hlog
    cases hstep with
    | refused => exact .inr ⟨_, rfl⟩
    | opened => simp at hlog
    | renamed => exact .inr ⟨_, rfl⟩
    | removed => exact .inr ⟨_, rfl⟩
    | removeFailed => exact .inr ⟨_, rfl⟩
    | write => exact absurd (hopened (by simp) (by simp)) hlog
    | flush => exact absurd (hopened (by simp) (by simp)) hlog
    | closed => exact absurd (hopened (by simp) (by simp)) hlog
    | failed => exact absurd (hopened (by simp) (by simp)) hlog
    | renameFailed => exact absurd (hopened (by simp) (by simp)) hlog
  · intro hpt
    cases hstep <;> cases hpt
  · rintro ok hlog i ⟨stream, off, hpt⟩
    cases hstep with
    | opened =>
        have hclosed : (c, .closed ok) ∈ log := by simpa using hlog
        apply h.unstarted rfl _ hclosed
    | write =>
        have hclosed : (c, .closed ok) ∈ log := by simpa using hlog
        apply h.closed hclosed _ ⟨_, _, rfl⟩
    | flush hact =>
        have hclosed : (c, .closed ok) ∈ log := by
          rcases hact with rfl | rfl <;> simpa using hlog
        apply h.closed hclosed _ ⟨_, _, rfl⟩
    | _ => cases hpt

/-! ### What a call knows of the temporary file -/

/-- What an exclusive call knows of the temporary file, when the other one is at the point
`theirs`: the file holds what the call has written, is not open in the other call, and has
its name unless the other call took that away. -/
def WritePoint.OwnsTmp (path : CString) (buf : List Byte) (fs : Files)
    (mine theirs : WritePoint) : Prop :=
  match mine with
  | .opened _ i off =>
      fs.content i = buf.take off ∧ off ≤ buf.length
        ∧ (∀ j, fs.names (tmpName path) = some j → j = i) ∧ ¬ theirs.Holds i
  | .toRename =>
      ∀ i, fs.names (tmpName path) = some i → fs.content i = buf ∧ ¬ theirs.Holds i
  | _ => True

/-- What a call knows stays true of its own steps after the opening. -/
theorem WritePoint.OwnsTmp.step
    {b : List Byte} {mine mine' theirs : WritePoint} (h : mine.OwnsTmp path b fs theirs)
    (hstep : WriteStep path b fs mine act fs' mine') (hact : act ≠ .opened) :
  mine'.OwnsTmp path b fs' theirs
  := by
  cases hstep with
  | opened => exact absurd rfl hact
  | write hn hle =>
      obtain ⟨hcontent, hoff, hnames, htheirs⟩ := h
      have hlength := congrArg List.length hcontent
      rw [List.length_take, Nat.min_eq_left hoff] at hlength
      refine ⟨?_, hle, hnames, htheirs⟩
      rw [FileSystem.content_write_end hlength, hcontent, List.take_add]
  | flush => exact h
  | closed =>
      obtain ⟨hcontent, -, hnames, htheirs⟩ := h
      intro j hj
      obtain rfl := hnames j hj
      rw [List.take_length] at hcontent
      exact ⟨hcontent, htheirs⟩
  | _ => trivial

/-- What a call knows stays true of the other call's steps, except of its opening the file. -/
theorem WritePoint.OwnsTmp.other_step
    {b b' : List Byte} {mine theirs theirs' : WritePoint} (h : mine.OwnsTmp path b fs theirs)
    (hstep : WriteStep path b' fs theirs act fs' theirs') (hact : act ≠ .opened)
    (hapart : Apart path fs) :
  mine.OwnsTmp path b fs' theirs'
  := by
  -- a step other than an opening does not change inodes that the call does not have open
  have hcontent : ∀ i, ¬ theirs.Holds i → fs'.content i = fs.content i := by
    intro i hi
    cases hstep with
    | opened => exact absurd rfl hact
    | @write stream j off n =>
        apply FileSystem.content_write_of_ne
        rintro rfl
        apply hi ⟨stream, off, rfl⟩
    | _ => rfl
  have hholds : ∀ i, theirs'.Holds i → theirs.Holds i := by
    rintro i ⟨stream, off, hi⟩
    cases hstep with
    | opened => exact absurd rfl hact
    | write =>
        cases hi
        exact ⟨_, _, rfl⟩
    | flush =>
        cases hi
        exact ⟨_, _, rfl⟩
    | _ => cases hi
  have hnames : ∀ j, fs'.names (tmpName path) = some j → fs.names (tmpName path) = some j := by
    intro j hj
    cases hstep with
    | opened => exact absurd rfl hact
    | renamed htmp =>
        rw [FileSystem.names_rename_source] at hj
        · cases hj
        · rw [htmp]
          exact fun hpath => hapart _ hpath.symm htmp
    | removed =>
        rw [FileSystem.names_remove_self] at hj
        cases hj
    | _ => exact hj
  cases mine with
  | opened stream i off =>
      obtain ⟨hi, hoff, htmp, htheirs⟩ := h
      use (hcontent i htheirs).trans hi, hoff, fun j hj => htmp j (hnames j hj)
      exact fun hheld => htheirs (hholds i hheld)
  | toRename =>
      intro i hi
      obtain ⟨hbuf, htheirs⟩ := h i (hnames i hi)
      use (hcontent i htheirs).trans hbuf
      exact fun hheld => htheirs (hholds i hheld)
  | _ => trivial

/-! ### Interleaved steps -/

theorem names_path_step
    {b : List Byte} {pt pt' : WritePoint} (hstep : WriteStep path b fs pt act fs' pt')
    (hact : act ≠ .renamed) :
  fs'.names path = fs.names path
  := by
  have hne := (tmpName_ne path).symm
  cases hstep with
  | opened => apply FileSystem.names_create_of_ne hne
  | renamed => exact absurd rfl hact
  | removed => apply FileSystem.names_remove_of_ne hne
  | _ => rfl

/-- The inode of the path is not the one that the temporary file gets. -/
theorem Apart.names_path_ne (h : Apart path fs) :
  fs.names path ≠ some (fs.inodeFor (tmpName path))
  := by
  intro hpath
  apply FileSystem.inodeFor_ne hpath (h _ hpath) rfl

theorem Apart.step
    {b : List Byte} {pt pt' : WritePoint} (h : Apart path fs)
    (hstep : WriteStep path b fs pt act fs' pt') :
  Apart path fs'
  := by
  intro i hpath htmp
  cases hstep with
  | opened =>
      rw [FileSystem.names_create_of_ne (tmpName_ne path).symm] at hpath
      rw [FileSystem.names_create_self] at htmp
      apply h.names_path_ne (hpath.trans htmp.symm)
  | renamed hi =>
      rw [FileSystem.names_rename_source] at htmp
      · cases htmp
      · rw [hi]
        exact fun heq => h _ heq.symm hi
  | removed =>
      rw [FileSystem.names_remove_self] at htmp
      cases htmp
  | _ => apply h i hpath htmp

/-- Only a renaming changes what is read under the path, as long as no call has its inode
open. -/
theorem read_path_step
    {b : List Byte} {pt pt' : WritePoint} (hapart : Apart path fs)
    (hheld : ∀ i, pt.Holds i → fs.names path ≠ some i)
    (hstep : WriteStep path b fs pt act fs' pt') (hact : act ≠ .renamed) :
  fs'.read path = fs.read path
  := by
  have hne := (tmpName_ne path).symm
  cases hstep with
  | opened => apply FileSystem.read_create_of_ne hne hapart
  | write => apply FileSystem.read_write_of_ne (hheld _ ⟨_, _, rfl⟩)
  | renamed => exact absurd rfl hact
  | removed => apply FileSystem.read_remove_of_ne hne
  | _ => rfl

/-- What holds of two calls while every call that renames is exclusive. -/
structure TwoInvariant (path : CString) (buf : Caller → List Byte) (fs₀ : Files)
    (log : List (Caller × WriteAct)) (s : TwoWriters) : Prop where
  caller : ∀ c, CallerLog c log (s.point c)
  apart : Apart path s.fs
  held : ∀ c i, (s.point c).Holds i → s.fs.names path ≠ some i
  owns : ∀ c, Exclusive c log →
    (s.point c).OwnsTmp path (buf c) s.fs (s.point c.other)
  whole : s.fs.read path = fs₀.read path ∨ ∃ c, s.fs.read path = some (buf c)

variable {s s' : TwoWriters}

theorem TwoInvariant.init (hapart : Apart path fs₀) :
  TwoInvariant path buf fs₀ [] ⟨fs₀, fun _ => .start⟩
  := by
  constructor
  · intro c
    constructor
    · intro _
      exact .inl rfl
    · simp
    · simp
  · exact hapart
  · rintro c i ⟨stream, off, hpt⟩
    cases hpt
  · intro c _
    trivial
  · exact .inl rfl

/-- The other call does not have the file open when a call that is then exclusive opens it. -/
theorem TwoInvariant.not_holds_of_opened
    (h : TwoInvariant path buf fs₀ log s) (hstart : s.point c = .start)
    (hexclusive : Exclusive c (log ++ [(c, .opened)])) (i : ℕ) :
  ¬ (s.point c.other).Holds i
  := by
  by_cases hmem : (c.other, .opened) ∈ log
  · obtain ⟨ok, hclosed⟩ :=
      hexclusive.of_opened ((h.caller c).unstarted hstart .opened) hmem
    apply (h.caller c.other).closed hclosed
  · rintro ⟨stream, off, hpt⟩
    rcases (h.caller c.other).unopened hmem with hpt' | ⟨code, hpt'⟩ <;>
      rw [hpt] at hpt' <;> cases hpt'

/-- A call knows of the temporary file what it should after its own step. -/
theorem TwoInvariant.owns_step
    (h : TwoInvariant path buf fs₀ log s) {pt' : WritePoint}
    (hstep : WriteStep path (buf c) s.fs (s.point c) act fs' pt')
    (hexclusive : Exclusive c (log ++ [(c, act)])) :
  pt'.OwnsTmp path (buf c) fs' (s.point c.other)
  := by
  by_cases hact : act = .opened
  · subst hact
    obtain ⟨hstart, rfl, rfl⟩ := hstep.of_opened
    refine ⟨?_, Nat.zero_le _, ?_, h.not_holds_of_opened hstart hexclusive _⟩
    · rw [FileSystem.content_create_self, List.take_zero]
    · intro j hj
      rw [FileSystem.names_create_self] at hj
      exact (Option.some.inj hj).symm
  · have hbefore := hexclusive.of_snoc (by simpa using hact)
    apply (h.owns c hbefore.1).step hstep hact

/-- A call knows of the temporary file what it should after a step of the other one. -/
theorem TwoInvariant.owns_other_step
    (h : TwoInvariant path buf fs₀ log s) {pt' : WritePoint}
    (hstep : WriteStep path (buf c) s.fs (s.point c) act fs' pt')
    (hexclusive : Exclusive c.other (log ++ [(c, act)])) :
  (s.point c.other).OwnsTmp path (buf c.other) fs' pt'
  := by
  have hne : (c, act) ≠ (c.other, .opened) := by
    intro heq
    apply c.other_ne (Prod.mk.inj heq).1.symm
  obtain ⟨hbefore, hact⟩ := hexclusive.of_snoc hne
  rw [Caller.other_other] at hact
  have howns := h.owns c.other hbefore
  rw [Caller.other_other] at howns
  apply howns.other_step hstep _ h.apart
  rintro rfl
  apply hact rfl

/-- The path gets the whole buffer of an exclusive call that renames, and the other one does
not have that file open. -/
theorem TwoInvariant.of_renamed
    (h : TwoInvariant path buf fs₀ log s) (hexclusive : Exclusive c log) {pt' : WritePoint}
    (hstep : WriteStep path (buf c) s.fs (s.point c) .renamed fs' pt') :
  fs'.read path = some (buf c)
    ∧ ∀ i, fs'.names path = some i → ¬ (s.point c.other).Holds i
  := by
  have howns := h.owns c hexclusive
  obtain ⟨hpt, rfl, -, j, htmp⟩ := hstep.of_renamed
  rw [hpt] at howns
  obtain ⟨hcontent, hholds⟩ := howns j htmp
  have hne := (tmpName_ne path).symm
  constructor
  · rw [FileSystem.read_rename_target hne, FileSystem.read, htmp, Option.map_some, hcontent]
  · intro i hi
    rw [FileSystem.names_rename_target hne, htmp] at hi
    obtain rfl := Option.some.inj hi
    exact hholds

/-- An inode that a call has open after its step was open before it, or was just opened. -/
theorem holds_step
    {b : List Byte} {pt pt' : WritePoint} (hstep : WriteStep path b fs pt act fs' pt') {i : ℕ}
    (hi : pt'.Holds i) :
  pt.Holds i ∨ i = fs.inodeFor (tmpName path)
  := by
  obtain ⟨stream, off, hi⟩ := hi
  cases hstep with
  | opened =>
      cases hi
      exact .inr rfl
  | write =>
      cases hi
      exact .inl ⟨_, _, rfl⟩
  | flush =>
      cases hi
      exact .inl ⟨_, _, rfl⟩
  | _ => cases hi

/-- A step of a call keeps the invariant when the call is exclusive if it renames. -/
theorem TwoInvariant.step
    (h : TwoInvariant path buf fs₀ log s) (hlog : ExclusiveRenames (log ++ [(c, act)]))
    {pt' : WritePoint} (hstep : WriteStep path (buf c) s.fs (s.point c) act fs' pt') :
  TwoInvariant path buf fs₀ (log ++ [(c, act)]) (s.move c fs' pt')
  := by
  have hrenamed : act = .renamed → fs'.read path = some (buf c)
      ∧ ∀ i, fs'.names path = some i → ¬ (s.point c.other).Holds i := by
    rintro rfl
    apply h.of_renamed hlog.of_renamed hstep
  constructor
  · intro d
    rcases c.eq_or_eq_other d with rfl | rfl
    · rw [TwoWriters.point_move_self]
      apply (h.caller _).step hstep
    · rw [TwoWriters.point_move_other]
      apply (h.caller _).of_ne c.other_ne.symm
  · apply h.apart.step hstep
  · intro d i hi hpath
    rw [TwoWriters.fs_move] at hpath
    rcases c.eq_or_eq_other d with rfl | rfl
    · rw [TwoWriters.point_move_self] at hi
      by_cases hact : act = .renamed
      · subst hact
        obtain ⟨-, -, rfl, -⟩ := hstep.of_renamed
        obtain ⟨stream, off, hopen⟩ := hi
        cases hopen
      · rw [names_path_step hstep hact] at hpath
        rcases holds_step hstep hi with hi | rfl
        · apply h.held d i hi hpath
        · apply h.apart.names_path_ne hpath
    · rw [TwoWriters.point_move_other] at hi
      by_cases hact : act = .renamed
      · exact (hrenamed hact).2 i hpath hi
      · rw [names_path_step hstep hact] at hpath
        apply h.held _ i hi hpath
  · intro d hexclusive
    rw [TwoWriters.fs_move]
    rcases c.eq_or_eq_other d with rfl | rfl
    · rw [TwoWriters.point_move_self, TwoWriters.point_move_other]
      apply h.owns_step hstep hexclusive
    · rw [TwoWriters.point_move_other, Caller.other_other, TwoWriters.point_move_self]
      apply h.owns_other_step hstep hexclusive
  · rw [TwoWriters.fs_move]
    by_cases hact : act = .renamed
    · exact .inr ⟨c, (hrenamed hact).1⟩
    · rw [read_path_step h.apart (h.held c) hstep hact]
      exact h.whole

/-- A step of the system is a step of one of the calls. -/
theorem twoWriters_step
    {e : Option (Caller × WriteAct)} (hstep : (twoWriters path buf fs₀).step s e s') :
  ∃ c act fs' pt', e = some (c, act) ∧ s' = s.move c fs' pt'
    ∧ WriteStep path (buf c) s.fs (s.point c) act fs' pt'
  := by
  obtain ⟨⟨c, act⟩, hact⟩ := hstep
  rw [twoWritersStep, Option.map_eq_some_iff] at hact
  obtain ⟨⟨fs', pt'⟩, hcall, heq⟩ := hact
  cases heq
  use c, act, fs', pt', rfl, rfl
  apply fileWriteAll_cases hcall

/-- The invariant holds after any steps while every call that renames is exclusive. -/
theorem TwoInvariant.of_reaches
    (hapart : Apart path fs₀) (h : (twoWriters path buf fs₀).Reaches log s)
    (hlog : ExclusiveRenames log) :
  TwoInvariant path buf fs₀ log s
  := by
  apply h.invariant (I := fun log s => ExclusiveRenames log → TwoInvariant path buf fs₀ log s)
    _ _ hlog
  · rintro s rfl -
    apply TwoInvariant.init hapart
  · intro log s e s' _ hI hstep hlog
    obtain ⟨c, act, fs', pt', rfl, rfl, hcall⟩ := twoWriters_step hstep
    apply (hI hlog.of_append).step hlog hcall

/-- A call that has returned stays so. -/
theorem done_of_steps
    {code : ErrorCode} (h : (twoWriters path buf fs₀).Steps s log s')
    (hdone : s.point c = .done code) :
  s'.point c = .done code
  := by
  apply h.invariant (I := fun _ s => s.point c = .done code) hdone
  intro log t e t' _ ht hstep
  obtain ⟨d, act, fs', pt', -, rfl, hcall⟩ := twoWriters_step hstep
  rcases d.eq_or_eq_other c with rfl | rfl
  · rw [ht] at hcall
    cases hcall
  · rwa [TwoWriters.point_move_other]

/-- A call that renames has returned `ERR_OK`. -/
theorem done_of_renamed
    (hstep : (twoWriters path buf fs₀).step s (some (c, .renamed)) s') :
  s'.point c = .done .ok
  := by
  obtain ⟨d, act, fs', pt', heq, rfl, hcall⟩ := twoWriters_step hstep
  obtain ⟨rfl, rfl⟩ := Prod.mk.inj (Option.some.inj heq)
  rw [TwoWriters.point_move_self]
  apply hcall.of_renamed.2.2.1

/-! ### What a reader finds -/

/-- While every call that renames is exclusive, a reader of the path finds its old content or
the whole buffer of a call, and no step of a call that returns an error changes what it
finds. -/
theorem two_writers_whole
    (hapart : Apart path fs₀) (hlog : ExclusiveRenames log)
    (h : (twoWriters path buf fs₀).Reaches log s) :
  (s.fs.read path = fs₀.read path ∨ ∃ c, s.fs.read path = some (buf c))
    ∧ ∀ c code, s.point c = .done code → code ≠ .ok →
        ∀ (pre post : List (Caller × WriteAct)) (act : WriteAct) (t t' : TwoWriters),
          log = pre ++ (c, act) :: post → (twoWriters path buf fs₀).Reaches pre t →
          (twoWriters path buf fs₀).step t (some (c, act)) t' →
          (twoWriters path buf fs₀).Steps t' post s →
          t'.fs.read path = t.fs.read path
  := by
  use (TwoInvariant.of_reaches hapart h hlog).whole
  intro c code hdone hcode pre post act t t' hsplit ht hstep hpost
  have hact : act ≠ .renamed := by
    rintro rfl
    have hok := done_of_steps hpost (done_of_renamed hstep)
    rw [hdone] at hok
    apply hcode (WritePoint.done.inj hok)
  rw [hsplit] at hlog
  have hI := TwoInvariant.of_reaches hapart ht hlog.of_append
  obtain ⟨d, act', fs', pt', heq, rfl, hcall⟩ := twoWriters_step hstep
  obtain ⟨rfl, rfl⟩ := Prod.mk.inj (Option.some.inj heq)
  apply read_path_step hI.apart (hI.held c) hcall hact

/-- The file `"f"` with one byte. -/
def oneByteFile : Files :=
  (FileSystem.create .empty ⟨[102], by decide⟩).write 0 0 [7]

theorem apart_oneByteFile : Apart ⟨[102], by decide⟩ oneByteFile := by
  intro i _ htmp
  cases htmp

/-- The second call opens the temporary file, and so truncates it, after the first one has
closed it and before the first one renames it. -/
theorem two_writers_truncated :
  ∃ (path : CString) (buf : Caller → List Byte) (fs₀ : Files) (log : List (Caller × WriteAct))
    (s : TwoWriters), Apart path fs₀ ∧ (twoWriters path buf fs₀).Reaches log s
      ∧ s.fs.read path ≠ fs₀.read path ∧ ∀ c, s.fs.read path ≠ some (buf c)
  := by
  have hrun : ∃ s : TwoWriters,
      StateMachine.run (twoWritersStep ⟨[102], by decide⟩ fun _ => [1])
          ⟨oneByteFile, fun _ => .start⟩
          [(.first, .opened), (.first, .write 1), (.first, .fwritten), (.first, .closed true),
            (.second, .opened), (.first, .renamed)]
        = some (s, [(.first, .opened), (.first, .write 1), (.first, .fwritten),
            (.first, .closed true), (.second, .opened), (.first, .renamed)])
      ∧ s.fs.read ⟨[102], by decide⟩ = some [] :=
    ⟨_, rfl, rfl⟩
  obtain ⟨s, hrun, hread⟩ := hrun
  have hs : (twoWriters ⟨[102], by decide⟩ (fun _ => [1]) oneByteFile).Reaches _ s :=
    StateMachine.reaches_of_run rfl hrun
  refine ⟨_, _, _, _, s, apart_oneByteFile, hs, ?_, ?_⟩
  · rw [hread]
    decide
  · intro c
    rw [hread]
    decide

/-- The first call is over when the second one opens the temporary file. -/
theorem two_writers_whole_of_run :
  ∃ s : TwoWriters, (twoWriters ⟨[102], by decide⟩ (fun _ => [1]) oneByteFile).Reaches
      [(.first, .opened), (.first, .write 1), (.first, .fwritten), (.first, .closed true),
        (.first, .renamed), (.second, .opened)] s
    ∧ s.point .second = .opened .writing 2 0
    ∧ (s.fs.read ⟨[102], by decide⟩ = some [7] ∨ s.fs.read ⟨[102], by decide⟩ = some [1])
  := by
  have hrun : ∃ s : TwoWriters,
      StateMachine.run (twoWritersStep ⟨[102], by decide⟩ fun _ => [1])
          ⟨oneByteFile, fun _ => .start⟩
          [(.first, .opened), (.first, .write 1), (.first, .fwritten), (.first, .closed true),
            (.first, .renamed), (.second, .opened)]
        = some (s, [(.first, .opened), (.first, .write 1), (.first, .fwritten),
            (.first, .closed true), (.first, .renamed), (.second, .opened)])
      ∧ s.point .second = .opened .writing 2 0 :=
    ⟨_, rfl, rfl⟩
  obtain ⟨s, hrun, hpoint⟩ := hrun
  have hs : (twoWriters ⟨[102], by decide⟩ (fun _ => [1]) oneByteFile).Reaches _ s :=
    StateMachine.reaches_of_run rfl hrun
  have hlog : ExclusiveRenames [(.first, .opened), (.first, .write 1), (.first, .fwritten),
      (.first, .closed true), (.first, .renamed), (.second, .opened)] := by
    intro c pre post h
    rcases pre with _ | ⟨e₁, _ | ⟨e₂, _ | ⟨e₃, _ | ⟨e₄, _ | ⟨e₅, _ | ⟨e₆, pre⟩⟩⟩⟩⟩⟩ <;>
      simp at h
    obtain ⟨rfl, rfl, rfl, rfl, rfl, -⟩ := h
    refine ⟨[], _, rfl, ?_, ?_⟩ <;> decide
  use s, hs, hpoint
  rcases (two_writers_whole apart_oneByteFile hlog hs).1 with hold | ⟨_, hnew⟩
  · exact .inl hold
  · exact .inr hnew

end CTemplate

import CTemplate.Core.Error
import CTemplate.Systems.Path.LookUp
import CTemplate.Systems.Path.Split
import Mathlib.Data.List.DropRight

/-!
# Making directories

`path_mkdirs` calls `mkdir` for every prefix of the path that ends before a slash, and for the
path itself.  It does what one walk along the components of the path does that makes the
directories missing on the way: the same directories are made, also when it fails, and it
succeeds just when the walk leads to a directory.

`rules` says what the system does with a new directory: at which places it allows none, for want of
space or because a name is too long, and what the process may do in it, which depends on the mode.
-/

namespace CTemplate

open DirTree Route

/-- `errno` after a call that failed. -/
inductive MkdirErrno where
  | eexist
  | other
  deriving DecidableEq

variable (rules : Rules (List Byte)) (cwd : List (List Byte))

/-- `mkdir` of the last component of a path in the directory that the components before it lead
to. -/
def mkdirAt (t : Tree) (d : List (List Byte)) (last : Step (List Byte)) :
    Tree × Option MkdirErrno :=
  if h : t.Enters d last then
    match last with
    | .move (.down n) =>
        if t.entry (d ++ [n]) ≠ none then (t, some .eexist)
        else if rules.refuses t d n then (t, some .other)
        else (t.add d n (rules.made (d ++ [n])) h.1, none)
    | _ => (t, some .eexist)
  else (t, some .other)

/-- The system call `mkdir`, which ignores slashes at the end of the path. -/
def mkdir (t : Tree) (path : List Byte) : Tree × Option MkdirErrno :=
  if path = [] then (t, some .other)
  else
    match (path.rdropWhile (· = slash)) with
    | [] => (t, some .eexist)
    | name =>
        let steps := pathSteps name
        match t.walk (pathBase cwd path) steps.dropLast with
        | none => (t, some .other)
        | some d => mkdirAt rules t d (steps.getLast?.getD .within)

/-- The end of `path_mkdirs`. -/
def mkdirsFinish (t : Tree) (path : List Byte) : ErrorCode × Tree :=
  match mkdir rules cwd t path with
  | (t, some .other) => (.io, t)
  | (t, _) => (if pathIsDir cwd t path then .ok else .io, t)

/-- The loop of `path_mkdirs`, with `p` between `before` and `rest`. -/
def mkdirsLoop (t : Tree) (before : List Byte) : List Byte → ErrorCode × Tree
  | [] => mkdirsFinish rules cwd t before
  | c :: rest =>
      if c ≠ slash then mkdirsLoop t (before ++ [c]) rest
      else
        match mkdir rules cwd t before with
        | (t, some .other) => (.io, t)
        | (t, _) => mkdirsLoop t (before ++ [c]) rest

/-- `sizeof(buf)` in `path_mkdirs`. -/
def mkdirsBufSize : ℕ := 1024

/-- `path_mkdirs`: the code, and the file system after the call.  The path is `none` for a null
pointer, and `system` gives the rules for new directories with a mode. -/
def pathMkdirs (system : UInt32 → Rules (List Byte)) (t : Tree) (path : Option CString)
    (mode : UInt32) : ErrorCode × Tree :=
  match path with
  | none => (.invalidArg, t)
  | some ⟨[], _⟩ => (.invalidArg, t)
  | some ⟨c :: rest, _⟩ =>
      if (c :: rest).length + 1 > mkdirsBufSize then (.overflow, t)
      else mkdirsLoop (system mode) cwd t [c] rest

variable {rules : Rules (List Byte)} {cwd d : List (List Byte)} {t t' t₀ : Tree}
  {path before : List Byte}

/-! ### Steps of texts -/

/-- The steps before the last one, and the last one. -/
theorem pathSteps_eq_concat (path : List Byte) :
  pathSteps path = (pathSteps path).dropLast ++ [(pathSteps path).getLast?.getD .within]
  := by
  rw [List.getLast?_eq_some_getLast pathSteps_ne_nil, Option.getD_some,
    List.dropLast_append_getLast]

/-- A character that is no slash belongs to the last component. -/
theorem dropLast_pathSteps_snoc {c : Byte} (hc : c ≠ slash) (path : List Byte) :
  (pathSteps (path ++ [c])).dropLast = (pathSteps path).dropLast
  := by
  have hsnoc : ∀ {b : List Byte}, slash ∉ b → slash ∉ b ++ [c] := by
    intro b hb
    rw [List.mem_append, List.mem_singleton, not_or]
    exact ⟨hb, Ne.symm hc⟩
  rcases exists_last_slash path with hpath | ⟨a, b, rfl, hb⟩
  · rw [pathSteps_of_not_mem hpath, pathSteps_of_not_mem (hsnoc hpath)]
    rfl
  · rw [List.append_assoc, List.cons_append, pathSteps_append_slash, pathSteps_append_slash,
      pathSteps_of_not_mem hb, pathSteps_of_not_mem (hsnoc hb), List.dropLast_concat,
      List.dropLast_concat]

/-- After a slash there is an empty component. -/
theorem pathSteps_snoc_slash (path : List Byte) :
  pathSteps (path ++ [slash]) = pathSteps path ++ [.within]
  := by
  rw [pathSteps_append_slash, pathSteps_of_not_mem List.not_mem_nil]
  rfl

theorem pathBase_append (hne : path ≠ []) (rest : List Byte) :
  pathBase cwd (path ++ rest) = pathBase cwd path
  := by
  rw [pathBase, pathBase, isAbsolute, isAbsolute, List.head?_append_of_ne_nil _ hne]

/-! ### One call of mkdir -/

/-- Slashes at the end do not matter. -/
theorem mkdir_snoc_slash (hne : path ≠ []) :
  mkdir rules cwd t (path ++ [slash]) = mkdir rules cwd t path
  := by
  rw [mkdir, mkdir, if_neg hne, if_neg (List.append_ne_nil_of_left_ne_nil hne _),
    List.rdropWhile_concat_pos _ _ _ (by simp), pathBase_append hne]

theorem mkdir_of_not_slash (hne : path ≠ []) (hlast : path.getLast? ≠ some slash) :
  mkdir rules cwd t path
    = (t.walk (pathBase cwd path) (pathSteps path).dropLast).elim (t, some .other) fun d =>
      mkdirAt rules t d ((pathSteps path).getLast?.getD .within)
  := by
  have hself : path.rdropWhile (· = slash) = path := by
    rw [List.rdropWhile_eq_self_iff]
    intro hl
    rw [List.getLast?_eq_some_getLast hl, ne_eq, Option.some.injEq] at hlast
    simpa using hlast
  rw [mkdir, if_neg hne, hself]
  split
  · exact absurd rfl hne
  · dsimp only
    cases t.walk (pathBase cwd path) (pathSteps path).dropLast <;> rfl

/-- `mkdir` of a last component fails for another reason than that it exists just when the step
to it cannot be made, and it exists afterwards otherwise. -/
theorem mkdirAt_cases (rules : Rules (List Byte)) (t : Tree) (d : List (List Byte))
    (s : Step (List Byte)) :
  (mkdirAt rules t d s = (t, some .other) ∧ makeVisit rules t d s = (t, none))
    ∨ ∃ t' r, mkdirAt rules t d s = (t', r) ∧ r ≠ some .other
      ∧ makeVisit rules t d s = (t', some (s.place d))
      ∧ mkdirAt rules t' d s = (t', some .eexist)
  := by
  have hexists : ∀ {t' : Tree}, t'.Enters d s → t'.entry (s.place d) ≠ none
      → mkdirAt rules t' d s = (t', some .eexist) := by
    intro t' henters hentry
    rw [mkdirAt, dif_pos henters]
    split
    · exact if_pos hentry
    · rfl
  rcases makeVisit_cases rules t d s with
    ⟨heq, hnot⟩ | ⟨heq, hvisit⟩ | ⟨n, rfl, henters, hnew, heq⟩
  · exact .inl ⟨dif_neg hnot, heq⟩
  · obtain ⟨henters, hentry, -⟩ := visit_eq_some hvisit
    have hmkdir := hexists henters hentry
    exact .inr ⟨t, some .eexist, hmkdir, by decide, heq, hmkdir⟩
  · have hmkdir : mkdirAt rules t d (.move (.down n))
        = if rules.refuses t d n then (t, some .other)
          else (t.add d n (rules.made (d ++ [n])) henters.1, none) := by
      rw [mkdirAt, dif_pos henters]
      exact if_neg (not_not_intro hnew)
    by_cases hrefused : rules.refuses t d n = true
    · rw [if_pos hrefused] at heq
      left
      rw [hmkdir, if_pos hrefused]
      exact ⟨rfl, heq⟩
    · rw [if_neg hrefused] at heq
      obtain ⟨hdir, heq⟩ := heq
      right
      use t.add d n (rules.made (d ++ [n])) hdir, none
      rw [hmkdir, if_neg hrefused]
      refine ⟨rfl, by decide, heq, hexists ((sub_add hdir hnew).enters henters) ?_⟩
      exact ne_none_of_entry (entry_add hdir)

/-! ### The loop -/

/-- The loop has made what the steps before the last component make. -/
structure MkdirsAt (rules : Rules (List Byte)) (cwd : List (List Byte)) (t₀ t : Tree)
    (before : List Byte) : Prop where
  ne_nil : before ≠ []
  made : makeWalk rules t₀ (pathBase cwd before) (pathSteps before).dropLast
    = (t, t.walk (pathBase cwd before) (pathSteps before).dropLast)
  slashed : before.getLast? = some slash → mkdir rules cwd t before = (t, some .eexist)

/-- A call of `mkdir` makes the last component. -/
theorem MkdirsAt.mkdir_cases (h : MkdirsAt rules cwd t₀ t before) :
  (mkdir rules cwd t before = (t, some .other)
      ∧ makeWalk rules t₀ (pathBase cwd before) (pathSteps before) = (t, none))
    ∨ ∃ t' r, mkdir rules cwd t before = (t', r) ∧ r ≠ some .other
      ∧ makeWalk rules t₀ (pathBase cwd before) (pathSteps before)
        = (t', t'.walk (pathBase cwd before) (pathSteps before))
      ∧ mkdir rules cwd t' before = (t', some .eexist)
  := by
  have hmade : makeWalk rules t₀ (pathBase cwd before) (pathSteps before)
      = (t.walk (pathBase cwd before) (pathSteps before).dropLast).elim (t, none) fun d =>
        makeVisit rules t d ((pathSteps before).getLast?.getD .within) := by
    conv_lhs => rw [pathSteps_eq_concat, makeWalk_snoc, h.made]
  by_cases hlast : before.getLast? = some slash
  · refine .inr ⟨t, some .eexist, h.slashed hlast, by decide, ?_, h.slashed hlast⟩
    obtain ⟨p, rfl⟩ := List.getLast?_eq_some_iff.mp hlast
    rw [hmade, pathSteps_snoc_slash, List.dropLast_concat, List.getLast?_concat, Option.getD_some,
      walk_snoc]
    cases t.walk (pathBase cwd (p ++ [slash])) (pathSteps p) with
    | none => rfl
    | some d => exact makeVisit_within rules t d
  · rw [mkdir_of_not_slash h.ne_nil hlast]
    cases hwalk : t.walk (pathBase cwd before) (pathSteps before).dropLast with
    | none =>
        left
        rw [hwalk] at hmade
        exact ⟨rfl, hmade⟩
    | some d =>
        rw [hwalk, Option.elim_some] at hmade
        rcases mkdirAt_cases rules t d ((pathSteps before).getLast?.getD .within) with
          ⟨hat, hvisit⟩ | ⟨t', r, hat, hr, hvisit, hagain⟩
        · left
          rw [Option.elim_some, hmade, hvisit]
          exact ⟨hat, rfl⟩
        · rw [hvisit] at hmade
          have hsub : t.Sub t' := by
            have hsub : t.Sub
                (makeVisit rules t d ((pathSteps before).getLast?.getD .within)).1 := sub_makeVisit
            rwa [hvisit] at hsub
          refine .inr ⟨t', r, hat, hr, ?_, ?_⟩
          · have hwalk' := walk_of_makeWalk (congrArg Prod.snd hmade)
            rw [hmade] at hwalk' ⊢
            rw [hwalk']
          · rw [mkdir_of_not_slash h.ne_nil hlast, walk_mono hsub hwalk]
            exact hagain

/-- What the loop has made before a character that is no slash. -/
theorem MkdirsAt.snoc {c : Byte} (hc : c ≠ slash) (h : MkdirsAt rules cwd t₀ t before) :
  MkdirsAt rules cwd t₀ t (before ++ [c])
  where
  ne_nil := List.append_ne_nil_of_left_ne_nil h.ne_nil _
  made := by
    rw [dropLast_pathSteps_snoc hc, pathBase_append h.ne_nil]
    exact h.made
  slashed hlast := by
    rw [List.getLast?_concat, Option.some.injEq] at hlast
    exact absurd hlast hc

theorem MkdirsAt.init (c : Byte) : MkdirsAt rules cwd t t [c] where
  ne_nil := List.cons_ne_nil _ _
  made := by
    by_cases hc : c = slash
    · subst hc
      have hsteps : (pathSteps [slash]).dropLast = [] ++ [.within] := rfl
      rw [hsteps, makeWalk_snoc, walk_snoc]
      exact makeVisit_within rules t _
    · rw [pathSteps_of_not_mem (by simpa using Ne.symm hc)]
      rfl
  slashed hlast := by
    rw [List.getLast?_singleton, Option.some.injEq] at hlast
    subst hlast
    rfl

/-- The directories on the steps of a path are made, and the call succeeds just when the steps
lead to a directory. -/
structure MkdirsDone (rules : Rules (List Byte)) (cwd : List (List Byte)) (t : Tree)
    (path : List Byte) (result : ErrorCode × Tree) : Prop where
  tree : result.2 = (makeWalk rules t (pathBase cwd path) (pathSteps path)).1
  ok_iff : result.1 = .ok ↔ Makes rules t (pathBase cwd path) (pathSteps path)
  code : result.1 = .ok ∨ result.1 = .io

theorem MkdirsDone.of_none
    (h : makeWalk rules t₀ (pathBase cwd path) (pathSteps path) = (t, none)) :
  MkdirsDone rules cwd t₀ path (.io, t)
  where
  tree := by rw [h]
  ok_iff := by simp [Makes, h]
  code := .inr rfl

theorem MkdirsAt.finish (h : MkdirsAt rules cwd t₀ t path) :
  MkdirsDone rules cwd t₀ path (mkdirsFinish rules cwd t path)
  := by
  rcases h.mkdir_cases with ⟨hmkdir, hmade⟩ | ⟨t', r, hmkdir, hr, hmade, -⟩
  · rw [mkdirsFinish, hmkdir]
    exact .of_none hmade
  · have hfinish : mkdirsFinish rules cwd t path
        = (if pathIsDir cwd t' path then .ok else .io, t') := by
      rw [mkdirsFinish, hmkdir]
      rcases r with _ | _ | _
      · rfl
      · rfl
      · exact absurd rfl hr
    rw [hfinish]
    refine ⟨by rw [hmade], ?_, ?_⟩
    · rw [ite_eq_left_iff, Makes, hmade, ← pathIsDir_iff h.ne_nil]
      simp
    · by_cases hdir : pathIsDir cwd t' path = true
      · exact .inl (if_pos hdir)
      · exact .inr (if_neg hdir)

/-- The rest of the loop makes the rest of the path. -/
theorem MkdirsAt.loop (h : MkdirsAt rules cwd t₀ t before) (rest : List Byte) :
  MkdirsDone rules cwd t₀ (before ++ rest) (mkdirsLoop rules cwd t before rest)
  := by
  induction rest generalizing t before with
  | nil =>
      rw [List.append_nil]
      exact h.finish
  | cons c rest ih =>
      rw [List.append_cons]
      by_cases hc : c = slash
      · subst hc
        rw [mkdirsLoop, if_neg (not_not_intro rfl), List.append_assoc, List.singleton_append]
        rcases h.mkdir_cases with ⟨hmkdir, hmade⟩ | ⟨t', r, hmkdir, hr, hmade, hagain⟩
        · rw [hmkdir]
          apply MkdirsDone.of_none
          rw [pathBase_append h.ne_nil, pathSteps_append_slash]
          exact makeWalk_append_of_none hmade _
        · rw [hmkdir]
          have hnext : MkdirsAt rules cwd t₀ t' (before ++ [slash]) := by
            refine ⟨List.append_ne_nil_of_left_ne_nil h.ne_nil _, ?_, fun _ => ?_⟩
            · rw [pathSteps_snoc_slash, List.dropLast_concat, pathBase_append h.ne_nil]
              exact hmade
            · rw [mkdir_snoc_slash h.ne_nil]
              exact hagain
          have hdone := ih hnext
          rw [List.append_assoc, List.singleton_append] at hdone
          rcases r with _ | _ | _
          · exact hdone
          · exact hdone
          · exact absurd rfl hr
      · rw [mkdirsLoop, if_pos hc]
        exact ih (h.snoc hc)

/-! ### The whole path -/

variable {system : UInt32 → Rules (List Byte)} {mode : UInt32}

/-- What `path_mkdirs` does to a file system. -/
structure MkdirsLaws (system : UInt32 → Rules (List Byte)) (cwd : List (List Byte)) (t : Tree)
    (path : CString) (mode : UInt32) (code : ErrorCode) (t' : Tree) : Prop where
  ok_or_io : code = .ok ∨ code = .io
  -- The call succeeds just when the path starts at a directory and nothing is in its way.
  ok_iff : code = .ok ↔ WayOpen (system mode) t (pathBase cwd path.1) (pathSteps path.1)
  -- Afterwards the path denotes a directory.
  is_dir : code = .ok → pathIsDir cwd t' path.1 = true
    ∧ t'.entry (locate cwd path.1) = some .directory
  -- Nothing is removed, and all that is new are directories on the way that are not denied.
  keeps : t.Sub t'
  makes : ∀ p k, t'.entry p = some k → t.entry p = some k
    ∨ (k = .directory ∧ t.entry p = none ∧ t'.access p = (system mode).made p
      ∧ Clear (system mode) t p
      ∧ ∃ pre, pre <+: pathSteps path.1 ∧ p = routePlace (pathBase cwd path.1) pre)
  -- A second call changes nothing, whatever the rules are then.
  again : code = .ok → ∀ system' mode', pathMkdirs cwd system' t' (some path) mode' = (.ok, t')

theorem pathMkdirs_done (system : UInt32 → Rules (List Byte)) (cwd : List (List Byte)) (t : Tree)
    {path : CString} (mode : UInt32) (hne : path.1 ≠ []) (hshort : path.1.length < mkdirsBufSize) :
  MkdirsDone (system mode) cwd t path.1 (pathMkdirs cwd system t (some path) mode)
  := by
  obtain ⟨path, hnul⟩ := path
  cases path with
  | nil => exact absurd rfl hne
  | cons c rest =>
      have hfits : ¬ (c :: rest).length + 1 > mkdirsBufSize := Nat.not_lt.mpr hshort
      rw [pathMkdirs, if_neg hfits]
      exact (MkdirsAt.init c).loop rest

theorem MkdirsLaws.of_done
    {path : CString} (hne : path.1 ≠ []) (hshort : path.1.length < mkdirsBufSize) :
  MkdirsLaws system cwd t path mode (pathMkdirs cwd system t (some path) mode).1
    (pathMkdirs cwd system t (some path) mode).2
  := by
  have hdone := pathMkdirs_done system cwd t mode hne hshort
  constructor
  · exact hdone.code
  · rw [hdone.ok_iff, makes_iff]
  · intro hok
    obtain ⟨d, hmade, hdir⟩ := hdone.ok_iff.mp hok
    have hwalk := walk_of_makeWalk hmade
    have hplace := makeWalk_place hmade
    rw [← hdone.tree] at hwalk hdir
    rw [routePlace_pathSteps] at hplace
    rw [pathIsDir_iff hne]
    exact ⟨⟨d, hwalk, hdir⟩, hplace ▸ hdir⟩
  · rw [hdone.tree]
    exact sub_makeWalk _
  · intro p k hp
    rw [hdone.tree] at hp ⊢
    exact entry_makeWalk hp
  · intro hok system' mode'
    obtain ⟨d, hmade, hdir⟩ := hdone.ok_iff.mp hok
    have hwalk := walk_of_makeWalk hmade
    rw [← hdone.tree] at hwalk hdir
    have hagain := pathMkdirs_done system' cwd
      (pathMkdirs cwd system t (some path) mode).2 mode' hne hshort
    have hmade' := makeWalk_again (system' mode') hwalk
    apply Prod.ext
    · rw [hagain.ok_iff, Makes, hmade']
      exact ⟨d, rfl, hdir⟩
    · rw [hagain.tree, hmade']

/-- `path_mkdirs` makes the directories that are missing on the way, and succeeds just when the
way is open: the path starts at a directory, there is neither a file on the way nor a missing
directory that cannot be made, and each directory of which an entry is looked up may be searched.
An empty path and one that does not fit the buffer are rejected. -/
theorem path_mkdirs_makes_way (system : UInt32 → Rules (List Byte)) (cwd : List (List Byte))
    (t : Tree) (path : CString) (mode : UInt32) :
  (path.1 = [] → pathMkdirs cwd system t (some path) mode = (.invalidArg, t))
    ∧ (mkdirsBufSize ≤ path.1.length → pathMkdirs cwd system t (some path) mode = (.overflow, t))
    ∧ (path.1 ≠ [] → path.1.length < mkdirsBufSize →
      ∃ code t', pathMkdirs cwd system t (some path) mode = (code, t')
        ∧ MkdirsLaws system cwd t path mode code t')
  := by
  refine ⟨?_, ?_, ?_⟩
  · obtain ⟨path, hnul⟩ := path
    rintro rfl
    rfl
  · obtain ⟨path, hnul⟩ := path
    intro hlong
    cases path with
    | nil => exact absurd hlong (Nat.not_le_of_lt (Nat.zero_lt_succ _))
    | cons c rest =>
        rw [pathMkdirs, if_pos (Nat.lt_succ_of_le hlong)]
  · intro hne hshort
    exact ⟨_, _, rfl, .of_done hne hshort⟩

/-- The rules for a process that is not privileged and has no `umask`: the bits of the owner in the
mode count. -/
def ownerRules (mode : UInt32) : Rules (List Byte) where
  denied _ := false
  made _ := { search := mode &&& 0o100 ≠ 0, write := mode &&& 0o200 ≠ 0 }

/-- `"/a//b/../c"` with the mode `0755` in a file system without other entries, and with the mode
`0200`, for which `"/a"` is made but cannot be searched. -/
theorem path_mkdirs_makes_way_of_bare :
  (∃ t', pathMkdirs [] ownerRules bare (some ⟨[47, 97, 47, 47, 98, 47, 46, 46, 47, 99], by decide⟩)
        0o755 = (.ok, t')
      ∧ t'.entry [[97], [98]] = some .directory ∧ t'.entry [[97], [99]] = some .directory)
    ∧ (pathMkdirs [] ownerRules bare (some ⟨[47, 97, 47, 47, 98, 47, 46, 46, 47, 99], by decide⟩)
        0o200).1 = .io
  := by
  obtain ⟨-, -, hmakes⟩ := path_mkdirs_makes_way ownerRules [] bare
    ⟨[47, 97, 47, 47, 98, 47, 46, 46, 47, 99], by decide⟩ 0o755
  obtain ⟨code, t', heq, hlaws⟩ := hmakes (List.cons_ne_nil _ _) (by decide)
  have hok : (pathMkdirs [] ownerRules bare (some ⟨[47, 97, 47, 47, 98, 47, 46, 46, 47, 99],
      by decide⟩) 0o755).1 = .ok := by decide +kernel
  have hmade : (pathMkdirs [] ownerRules bare (some ⟨[47, 97, 47, 47, 98, 47, 46, 46, 47, 99],
      by decide⟩) 0o755).2.entry [[97], [98]] = some .directory := by decide +kernel
  rw [heq] at hok hmade
  refine ⟨⟨t', ?_, hmade, (hlaws.is_dir hok).2⟩, by decide +kernel⟩
  rw [heq, show code = .ok from hok]

end CTemplate

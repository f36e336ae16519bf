import CTemplate.Systems.Path.Canonical
import CTemplate.Systems.Path.Join

/-!
# Splitting a path

`path_basename` and `path_dirname` of `systems/path.c`, which split a path at its last slash.
The directory and the name joined again denote what the path does and are normalized to the same
text, as long as `path_join` can join them.
-/

namespace CTemplate

open Route

/-! ### The functions -/

/-- `strrchr`: the index of the last character that is `c`. -/
def strrchr (s : List Byte) (c : Byte) : Option ℕ :=
  if c ∈ s then some (s.length - 1 - (s.reverse.takeWhile (· ≠ c)).length) else none

/-- `path_basename`.  The path is `none` for a null pointer. -/
def pathBasename (path : Option CString) : List Byte :=
  match path with
  | none => []
  | some ⟨path, _⟩ =>
      match strrchr path slash with
      | some k => path.drop (k + 1)
      | none => path

/-- `path_dirname`: the code returned and the buffer after the call.  The path is `none` for a
null pointer, and the buffer has `cap` bytes. -/
def pathDirname (path : Option CString) (out : List Byte) : Option (ErrorCode × List Byte) :=
  match path with
  | none => some (.invalidArg, out)
  | some ⟨path, _⟩ =>
      if out = [] then some (.invalidArg, out)
      else
        match strrchr path slash with
        | none =>
            if out.length < 2 then some (.overflow, out)
            else
              ((Buffer.write out 0 [dot]).bind fun out => Buffer.write out 1 [0]).map fun out =>
                (.ok, out)
        | some k =>
            let n := if k = 0 then 1 else k
            if n + 1 > out.length then some (.overflow, out)
            else
              ((Buffer.write out 0 (path.take n)).bind fun out => Buffer.write out n [0]).map
                fun out => (.ok, out)

/-! ### The last slash -/

variable {p u v out : List Byte}

theorem strrchr_eq_none (h : slash ∉ p) :
  strrchr p slash = none
  := if_neg h

theorem strrchr_eq_some (hv : slash ∉ v) :
  strrchr (u ++ slash :: v) slash = some u.length
  := by
  have hrun : (u ++ slash :: v).reverse.takeWhile (· ≠ slash) = v.reverse := by
    rw [List.reverse_append, List.reverse_cons, List.append_assoc,
      List.takeWhile_append_of_pos, List.singleton_append, List.takeWhile_cons_of_neg (by simp),
      List.append_nil]
    intro x hx
    rw [decide_eq_true_iff]
    rintro rfl
    apply hv (List.mem_reverse.mp hx)
  rw [strrchr, if_pos (by simp), hrun, List.length_reverse, List.length_append, List.length_cons]
  congr 1
  omega

/-- A path has no slash or is cut by its last one. -/
theorem exists_last_slash (p : List Byte) :
  slash ∉ p ∨ ∃ u v, p = u ++ slash :: v ∧ slash ∉ v
  := by
  by_cases h : slash ∈ p
  · obtain ⟨v, u, hreverse, hv⟩ := List.eq_append_cons_of_mem (List.mem_reverse.mpr h)
    right
    use u.reverse, v.reverse
    constructor
    · rw [← List.reverse_reverse p, hreverse]
      simp
    · rwa [List.mem_reverse]
  · exact .inl h

/-- A text and its terminator are written at the start of a buffer with room for them. -/
theorem write_terminated {text : List Byte} (hroom : text.length + 1 ≤ out.length) :
  ((Buffer.write out 0 text).bind fun out => Buffer.write out text.length [0])
    = some (text ++ 0 :: out.drop (text.length + 1))
  := by
  have hwrite := Buffer.write_bind_write out 0 text [0]
  rw [Nat.zero_add] at hwrite
  rw [hwrite, Buffer.write, if_pos]
  · simp
  · rw [List.length_append, List.length_singleton]
    omega

/-! ### Joining what was split -/

/-- What `path_join` makes of the directory and the name has at most `INT_MAX` bytes: it is `"./"`
in front of a path without a slash, and a path whose last slash follows another one without one
of them; any other path comes back as it was. -/
structure RejoinsShort (p : List Byte) : Prop where
  of_no_slash : slash ∉ p → p.length + 2 ≤ intMax
  of_slash : ∀ u v, p = u ++ slash :: v → slash ∉ v → u.getLast? ≠ some slash →
    p.length ≤ intMax
  of_slashes : ∀ u v, p = u ++ slash :: v → slash ∉ v → u.getLast? = some slash →
    p.length ≤ intMax + 1

/-- The path is split into a directory and a name, which joined make a path with the same
meaning. -/
structure SplitsInto (p dir base : CString) : Prop where
  dirname : ∀ out, dir.1.length + 1 ≤ out.length →
    pathDirname (some p) out = some (.ok, dir.1 ++ 0 :: out.drop (dir.1.length + 1))
  basename : pathBasename (some p) = base.1
  dir_ne_nil : dir.1 ≠ []
  isAbsolute_base : isAbsolute base.1 = false
  isAbsolute_joined : isAbsolute (joined dir.1 base.1) = isAbsolute p.1
  moves_joined : moves (joined dir.1 base.1) = moves p.1
  short_iff : (joined dir.1 base.1).length ≤ intMax ↔ RejoinsShort p.1

/-- There is one last slash. -/
theorem last_slash_unique
    {u' v' : List Byte} (hv : slash ∉ v) (hv' : slash ∉ v')
    (h : u ++ slash :: v = u' ++ slash :: v') :
  u = u'
  := by
  have hlength : some u.length = some u'.length := by
    rw [← strrchr_eq_some hv, h, strrchr_eq_some hv']
  exact (List.append_inj h (Option.some.inj hlength)).1

theorem rejoinsShort_iff (hv : slash ∉ v) :
  RejoinsShort (u ++ slash :: v)
    ↔ (u ++ slash :: v).length ≤ if u.getLast? = some slash then intMax + 1 else intMax
  := by
  constructor
  · intro h
    split
    case isTrue hslash => apply h.of_slashes u v rfl hv hslash
    case isFalse hslash => apply h.of_slash u v rfl hv hslash
  · intro h
    constructor
    · intro hnone
      exact absurd (List.mem_append_right u List.mem_cons_self) hnone
    · intro u' v' hcut hv' hslash
      obtain rfl := last_slash_unique hv hv' hcut
      rwa [if_neg hslash] at h
    · intro u' v' hcut hv' hslash
      obtain rfl := last_slash_unique hv hv' hcut
      rwa [if_pos hslash] at h

theorem not_isAbsolute_of_not_mem (hv : slash ∉ v) :
  isAbsolute v = false
  := by
  rw [isAbsolute, decide_eq_false_iff_not]
  intro h
  apply hv (List.mem_of_mem_head? h)

/-- A path without a slash is a name in the current directory. -/
theorem splitsInto_of_no_slash (hnul : 0 ∉ p) (hp : slash ∉ p) :
  SplitsInto ⟨p, hnul⟩ ⟨[dot], by decide⟩ ⟨p, hnul⟩
  := by
  have habs := not_isAbsolute_of_not_mem hp
  have hjoined : joined [dot] p = [dot] ++ slash :: p := by
    rw [joined, if_neg (by simp [habs])]
    rfl
  constructor
  · intro out hroom
    have hne : out ≠ [] := List.ne_nil_of_length_pos (Nat.zero_lt_of_lt hroom)
    have hlength : ¬ out.length < 2 := Nat.not_lt_of_le hroom
    have hwrite := write_terminated hroom
    simp only [pathDirname, strrchr_eq_none hp, if_neg hne, if_neg hlength]
    rw [List.length_singleton] at hwrite
    rw [hwrite]
    rfl
  · simp only [pathBasename, strrchr_eq_none hp]
  · apply List.cons_ne_nil
  · exact habs
  · rw [hjoined, habs]
    rfl
  · rw [hjoined, moves_append_cons]
    rfl
  · rw [hjoined]
    simp only [List.length_append, List.length_cons, List.length_nil]
    constructor
    · intro h
      constructor
      · intro _
        omega
      · rintro u v rfl
        simp at hp
      · rintro u v rfl
        simp at hp
    · intro h
      have hle := h.of_no_slash hp
      omega

/-- The last slash of a path that does not start with it is cut out. -/
theorem splitsInto_of_slash
    (hu : 0 ∉ u) (hv_nul : 0 ∉ v) (hne : u ≠ []) (hv : slash ∉ v) (hnul : 0 ∉ u ++ slash :: v) :
  SplitsInto ⟨u ++ slash :: v, hnul⟩ ⟨u, hu⟩ ⟨v, hv_nul⟩
  := by
  have habs := not_isAbsolute_of_not_mem hv
  have hrchr := strrchr_eq_some (u := u) hv
  have hpos : u.length ≠ 0 := fun h => hne (List.length_eq_zero_iff.mp h)
  have hjoined : joined u v = asDirectory u ++ v := if_neg (by simp [habs])
  constructor
  · intro out hroom
    have hout : out ≠ [] := List.ne_nil_of_length_pos (Nat.zero_lt_of_lt hroom)
    have hlength : ¬ u.length + 1 > out.length := Nat.not_lt_of_le hroom
    simp only [pathDirname, hrchr, if_neg hout, if_neg hpos, if_neg hlength, List.take_left,
      write_terminated hroom]
    rfl
  · simp only [pathBasename, hrchr]
    rw [← List.drop_drop, List.drop_left]
    rfl
  · exact hne
  · exact habs
  · rw [hjoined, isAbsolute_asDirectory_append hne]
    obtain ⟨x, u, rfl⟩ := List.exists_cons_of_ne_nil hne
    rfl
  · rw [hjoined, moves_asDirectory_append, moves_append_cons]
  · rw [rejoinsShort_iff hv, hjoined, asDirectory]
    simp only [hne, false_or]
    split
    · simp only [List.length_append, List.length_cons]
      omega
    · simp

/-- A slash that is the first and the last one is the directory. -/
theorem splitsInto_of_root (hv_nul : 0 ∉ v) (hv : slash ∉ v) (hnul : 0 ∉ slash :: v) :
  SplitsInto ⟨slash :: v, hnul⟩ ⟨[slash], by decide⟩ ⟨v, hv_nul⟩
  := by
  have habs := not_isAbsolute_of_not_mem hv
  have hrchr : strrchr (slash :: v) slash = some 0 := strrchr_eq_some (u := []) hv
  have hjoined : joined [slash] v = slash :: v := by
    rw [joined, if_neg (by simp [habs])]
    rfl
  constructor
  · intro out hroom
    have hout : out ≠ [] := List.ne_nil_of_length_pos (Nat.zero_lt_of_lt hroom)
    have hlength : ¬ 1 + 1 > out.length := Nat.not_lt_of_le hroom
    have hwrite := write_terminated hroom
    rw [List.length_singleton] at hwrite
    simp only [pathDirname, hrchr, if_neg hout, if_true, if_neg hlength]
    rw [List.take_succ_cons, List.take_zero, hwrite]
    rfl
  · simp only [pathBasename, hrchr]
    rfl
  · apply List.cons_ne_nil
  · exact habs
  · rw [hjoined]
  · rw [hjoined]
  · rw [hjoined]
    exact (rejoinsShort_iff (u := []) hv).symm

theorem exists_splitsInto (p : CString) :
  ∃ dir base, SplitsInto p dir base
  := by
  obtain ⟨p, hnul⟩ := p
  rcases exists_last_slash p with hp | ⟨u, v, rfl, hv⟩
  · exact ⟨_, _, splitsInto_of_no_slash hnul hp⟩
  · have hv_nul : 0 ∉ v := fun h => hnul (List.mem_append_right u (List.mem_cons_of_mem _ h))
    by_cases hne : u = []
    · subst hne
      exact ⟨_, _, splitsInto_of_root hv_nul hv hnul⟩
    · have hu : 0 ∉ u := fun h => hnul (List.mem_append_left _ h)
      exact ⟨_, _, splitsInto_of_slash hu hv_nul hne hv hnul⟩

/-! ### The round trip -/

/-- Paths with the same route are normalized to the same text. -/
theorem exists_pathNormalize_eq
    {q tail buf : List Byte} (hp : 0 ∉ p) (hp_ne : p ≠ []) (hq : 0 ∉ q) (hq_ne : q ≠ [])
    (habs : isAbsolute q = isAbsolute p) (hmoves : moves q = moves p)
    (h : pathNormalize (p ++ 0 :: tail) = some (.ok, buf)) (tail' : List Byte) :
  ∃ buf', pathNormalize (q ++ 0 :: tail') = some (.ok, buf') ∧ cstr buf' = cstr buf
  := by
  obtain ⟨n, rest, hnormal, rfl, -, -, hnames⟩ := exists_render_of_ok hp hp_ne h
  have heq : normalForm q = some n := by
    rw [← hnormal, normalForm, normalForm, habs, hmoves]
  rcases pathNormalize_cases hq hq_ne tail' with
    ⟨m, buf', rest', hresult, hm, rfl, -, -, -, hm_names⟩ | ⟨buf', -, hnone, -⟩
  · rw [heq] at hm
    obtain rfl := Option.some.inj hm
    refine ⟨_, hresult, ?_⟩
    rw [habs, cstr_append (nul_not_mem_render _ hnames), cstr_append (nul_not_mem_render _ hnames)]
  · rw [heq] at hnone
    cases hnone

/-- With large enough buffers, splitting the path, joining the parts and normalizing the result
leads to the string `text`. -/
def Rejoins (p : CString) (text : List Byte) : Prop :=
  ∀ spoil, ∃ room, ∀ out₁ out₂, room ≤ out₁.length → room ≤ out₂.length →
    ∃ dir base s : CString, ∃ rest₁ rest₂ buf,
      pathDirname (some p) out₁ = some (.ok, dir.1 ++ 0 :: rest₁)
      ∧ pathBasename (some p) = base.1
      ∧ pathJoin spoil (some dir) (some base) out₂ = some (.ok, s.1 ++ 0 :: rest₂)
      ∧ pathNormalize (s.1 ++ 0 :: rest₂) = some (.ok, buf) ∧ cstr buf = text

theorem SplitsInto.short_join_iff {p dir base : CString} (h : SplitsInto p dir base) :
  JoinsShort dir.1 base.1 ↔ RejoinsShort p.1
  := by
  rw [JoinsShort, h.isAbsolute_base, ← h.short_iff]
  simp [h.dir_ne_nil]

/-- Where the round trip succeeds, `path_join` has made a string. -/
theorem Rejoins.short {p : CString} {text : List Byte} (h : Rejoins p text) :
  RejoinsShort p.1
  := by
  obtain ⟨dir, base, hsplit⟩ := exists_splitsInto p
  obtain ⟨room, hroom⟩ := h id
  obtain ⟨dir', base', s, rest₁, rest₂, _, hdir, hbase, hjoin, -⟩ :=
    hroom (List.replicate (room + (dir.1.length + 1)) 0) (List.replicate room 0)
      (by simp) (by simp)
  rw [hsplit.dirname _ (by simp)] at hdir
  have htext := congrArg cstr (Prod.mk.inj (Option.some.inj hdir)).2
  rw [cstr_append dir.2, cstr_append dir'.2] at htext
  obtain rfl := Subtype.ext htext
  obtain rfl : base = base' := Subtype.ext (hsplit.basename.symm.trans hbase)
  rw [← hsplit.short_join_iff]
  exact (pathJoins_iff.mp ⟨rest₂, hjoin⟩).2.1

/-- A path that is accepted is split and joined again to one that is normalized to the same text,
exactly when `path_join` can make a string of its length. -/
theorem path_rejoin_iff
    {p : CString} {tail buf : List Byte} (hne : p.1 ≠ [])
    (h : pathNormalize (p.1 ++ 0 :: tail) = some (.ok, buf)) :
  Rejoins p (cstr buf) ↔ RejoinsShort p.1
  := by
  constructor
  · apply Rejoins.short
  intro hshort spoil
  obtain ⟨dir, base, hsplit⟩ := exists_splitsInto p
  use dir.1.length + (joined dir.1 base.1).length + 1
  intro out₁ out₂ h₁ h₂
  have hjoins : PathJoins spoil dir base out₂ (joinedString dir base) :=
    pathJoins_iff.mpr ⟨rfl, hsplit.short_join_iff.mpr hshort, by omega⟩
  obtain ⟨rest₂, hjoin⟩ := hjoins
  obtain ⟨buf', hnormalize, hcstr⟩ := exists_pathNormalize_eq p.2 hne (joinedString dir base).2
    (joined_ne_nil hsplit.dir_ne_nil _) hsplit.isAbsolute_joined hsplit.moves_joined h rest₂
  exact ⟨dir, base, joinedString dir base, _, rest₂, buf', hsplit.dirname out₁ (by omega),
    hsplit.basename, hjoin, hnormalize, hcstr⟩

/-- The path `"a//b"`, the directory of which is `"a/"`. -/
theorem path_rejoin_slashes :
  ∃ buf, pathNormalize ([97, 47, 47, 98] ++ 0 :: []) = some (.ok, buf)
    ∧ cstr buf = [97, 47, 98] ∧ Rejoins ⟨[97, 47, 47, 98], by decide⟩ [97, 47, 98]
  := by
  have h : pathNormalize ([97, 47, 47, 98] ++ 0 :: []) = some (.ok, [97, 47, 98, 0, 0]) := by
    decide
  refine ⟨_, h, by decide, ?_⟩
  apply (path_rejoin_iff (p := ⟨[97, 47, 47, 98], by decide⟩) (by decide) h).mpr
  apply (rejoinsShort_iff (u := [97, 47]) (v := [98]) (by decide)).mpr
  decide

/-- A single name is its own normal form. -/
theorem normalForm_name {c : List Byte} (hc : IsName c) :
  normalForm c = some ⟨0, [c]⟩
  := by
  have hmoves : moves c = [.down c] := by
    have happend := moves_append hc.slash_not_mem (t := []) (by simp)
    rw [List.append_nil, moves_nil, List.append_nil, moveOf,
      if_neg (not_or.mpr ⟨hc.ne_nil, hc.ne_dot⟩), if_neg hc.ne_dotdot] at happend
    exact happend
  rw [normalForm, hmoves]
  rfl

/-- A single long name is accepted, but `"./"` and the name are too long for `path_join`. -/
theorem path_rejoin_long_fails :
  ∃ buf, pathNormalize (longPath.1 ++ 0 :: []) = some (.ok, buf) ∧ ¬ Rejoins longPath (cstr buf)
  := by
  have hslash : slash ∉ longPath.1 := by
    intro h
    exact absurd (mem_longPath h) (by decide)
  have hdot : dot ∉ longPath.1 := by
    intro h
    exact absurd (mem_longPath h) (by decide)
  have hname : IsName longPath.1 := by
    constructor
    · exact longPath_ne_nil
    · intro h
      rw [h] at hdot
      apply hdot List.mem_cons_self
    · intro h
      rw [h] at hdot
      apply hdot List.mem_cons_self
    · exact hslash
    · exact longPath.2
  rcases pathNormalize_cases longPath.2 longPath_ne_nil [] with
    ⟨n, buf, -, hresult, -⟩ | ⟨buf, -, hnone, -⟩
  · use buf, hresult
    intro h
    have hle := h.short.of_no_slash hslash
    rw [length_longPath] at hle
    omega
  · rw [normalForm_name hname] at hnone
    cases hnone

end CTemplate

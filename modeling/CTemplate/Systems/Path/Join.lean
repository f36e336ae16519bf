import CTemplate.Core.Error
import CTemplate.Core.Stdio
import CTemplate.Systems.Path.Reference

/-!
# Joining paths

`path_join` of `systems/path.c`.  The joined text is the second path after the first one as a
directory, or the second path alone when it is absolute.  Joining is associative and denotes what
the second path denotes from the place of the first one.

The result is made by `snprintf` unless the second path is copied, so it is a text of at most
`INT_MAX` bytes; where it would be longer, the call returns `ERR_OVERFLOW` whatever room there is.
-/

namespace CTemplate

open Route

/-! ### The function -/

/-- The end of `path_join`, where the parts have been found to fit. -/
def joinFormat (spoil : List Byte → List Byte) (text out : List Byte) :
    Option (ErrorCode × List Byte) :=
  (snprintf spoil out text).map fun (n, out) =>
    match n with
    | some n => (if n > 0 ∧ n < out.length then .ok else .overflow, out)
    | none => (.overflow, out)

/-- `path_join`: the code returned and the buffer after the call.  The paths are `none` for null
pointers, the buffer has `cap` bytes, and `spoil` is what a call of `snprintf` that fails does to
it. -/
def pathJoin (spoil : List Byte → List Byte) (a b : Option CString) (out : List Byte) :
    Option (ErrorCode × List Byte) :=
  match a, b with
  | some ⟨a, _⟩, some ⟨b, _⟩ =>
      if out = [] then some (.invalidArg, out)
      else if isAbsolute b ∨ a = [] then
        if b.length + 1 > out.length then some (.overflow, out)
        else (Buffer.write out 0 (b ++ [0])).map fun out => (.ok, out)
      else
        let sep := if a.getLast? ≠ some slash then [slash] else []
        if toSize (a.length + sep.length + b.length + 1) > out.length then some (.overflow, out)
        else joinFormat spoil (a ++ sep ++ b) out
  | _, _ => some (.invalidArg, out)

/-! ### Joined texts -/

/-- The text of a path with a slash after it, unless it is empty or has one already. -/
def asDirectory (a : List Byte) : List Byte :=
  if a = [] ∨ a.getLast? = some slash then a else a ++ [slash]

/-- The text of two paths joined. -/
def joined (a b : List Byte) : List Byte :=
  if isAbsolute b then b else asDirectory a ++ b

variable {a b c : List Byte}

theorem joined_of_copied (h : isAbsolute b ∨ a = []) :
  joined a b = b
  := by
  rw [joined]
  split
  · rfl
  case isFalse habs =>
  rw [h.resolve_left habs]
  rfl

theorem asDirectory_of_slash (h : a = [] ∨ a.getLast? = some slash) :
  asDirectory a = a
  := if_pos h

theorem asDirectory_of_no_slash (hne : a ≠ []) (h : a.getLast? ≠ some slash) :
  asDirectory a = a ++ [slash]
  := if_neg (not_or.mpr ⟨hne, h⟩)

theorem asDirectory_slash (a : List Byte) :
  asDirectory a = [] ∨ (asDirectory a).getLast? = some slash
  := by
  by_cases h : a = [] ∨ a.getLast? = some slash
  · rwa [asDirectory_of_slash h]
  · rw [not_or] at h
    right
    rw [asDirectory_of_no_slash h.1 h.2, List.getLast?_concat]

theorem joined_of_formatted (h : ¬ (isAbsolute b ∨ a = [])) :
  joined a b = a ++ (if a.getLast? ≠ some slash then [slash] else []) ++ b
  := by
  rw [not_or] at h
  rw [joined, if_neg h.1]
  split
  case isTrue hlast => rw [asDirectory_of_no_slash h.2 hlast]
  case isFalse hlast => rw [asDirectory_of_slash (.inr (not_not.mp hlast)), List.append_nil]

theorem asDirectory_append (a b : List Byte) :
  asDirectory (asDirectory a ++ b) = asDirectory a ++ asDirectory b
  := by
  by_cases hnil : b = []
  · rw [hnil, List.append_nil, asDirectory_of_slash (asDirectory_slash a),
      asDirectory_of_slash (.inl rfl), List.append_nil]
  have hlast : (asDirectory a ++ b).getLast? = b.getLast? :=
    List.getLast?_append_of_ne_nil _ hnil
  have hne : asDirectory a ++ b ≠ [] := List.append_ne_nil_of_right_ne_nil _ hnil
  by_cases hslash : b.getLast? = some slash
  · rw [asDirectory_of_slash (.inr (hlast.trans hslash)), asDirectory_of_slash (.inr hslash)]
  · rw [asDirectory_of_no_slash hne (by rwa [hlast]), asDirectory_of_no_slash hnil hslash,
      List.append_assoc]

/-- The first byte of a path is that of its directory. -/
theorem isAbsolute_asDirectory_append (hne : a ≠ []) (t : List Byte) :
  isAbsolute (asDirectory a ++ t) = isAbsolute a
  := by
  obtain ⟨x, a, rfl⟩ := List.exists_cons_of_ne_nil hne
  rw [asDirectory]
  split <;> rfl

theorem joined_ne_nil (hne : a ≠ []) (b : List Byte) :
  joined a b ≠ []
  := by
  rw [joined]
  split
  case isTrue hb =>
    rintro rfl
    cases hb
  case isFalse =>
    apply List.append_ne_nil_of_left_ne_nil
    rw [asDirectory]
    split
    · exact hne
    · apply List.append_ne_nil_of_left_ne_nil hne

theorem isAbsolute_joined (a b : List Byte) :
  isAbsolute (joined a b) = (isAbsolute a || isAbsolute b)
  := by
  rw [joined]
  split
  case isTrue hb => rw [hb, Bool.or_true]
  case isFalse hb =>
  rw [Bool.not_eq_true] at hb
  rw [hb, Bool.or_false]
  by_cases hnil : a = []
  · subst hnil
    exact hb
  · apply isAbsolute_asDirectory_append hnil

/-- The order in which three paths are joined does not matter. -/
theorem joined_assoc (a b c : List Byte) :
  joined (joined a b) c = joined a (joined b c)
  := by
  by_cases hc : isAbsolute c
  · rw [joined_of_copied (.inl hc), joined_of_copied (a := b) (.inl hc),
      joined_of_copied (.inl hc)]
  by_cases hb : isAbsolute b
  · have habs : isAbsolute (joined b c) := by rw [isAbsolute_joined, hb, Bool.true_or]
    rw [joined_of_copied (.inl hb), joined_of_copied (.inl habs)]
  · have hrel : ¬ isAbsolute (joined b c) := by simp [isAbsolute_joined, hb, hc]
    rw [joined.eq_def a (joined b c), if_neg hrel, joined.eq_def (joined a b), if_neg hc,
      joined.eq_def a, if_neg hb, joined.eq_def b, if_neg hc, asDirectory_append,
      List.append_assoc]

theorem nul_not_mem_asDirectory (ha : 0 ∉ a) :
  0 ∉ asDirectory a
  := by
  rw [asDirectory]
  split
  · exact ha
  · rw [List.mem_append, not_or]
    use ha
    decide

theorem nul_not_mem_joined (ha : 0 ∉ a) (hb : 0 ∉ b) :
  0 ∉ joined a b
  := by
  rw [joined]
  split
  · exact hb
  · rw [List.mem_append, not_or]
    use nul_not_mem_asDirectory ha

/-! ### What a joined path denotes -/

/-- A path is made of the routes before and after a slash. -/
theorem moves_append_cons (u v : List Byte) :
  moves (u ++ slash :: v) = moves u ++ moves v
  := by
  rw [moves, List.splitOn_append_cons_self, List.filterMap_append]
  rfl

/-- The route of a directory goes on with what comes after it. -/
theorem moves_asDirectory_append (a t : List Byte) :
  moves (asDirectory a ++ t) = moves a ++ moves t
  := by
  rw [asDirectory]
  split
  case isFalse => rw [List.append_assoc, List.singleton_append, moves_append_cons]
  case isTrue h =>
  rcases h with rfl | hslash
  · rfl
  · obtain ⟨u, rfl⟩ := List.getLast?_eq_some_iff.mp hslash
    rw [List.append_assoc, List.singleton_append, moves_append_cons, moves_append_cons, moves_nil,
      List.append_nil]

/-- A joined path denotes what the second one denotes from the place of the first one. -/
theorem locate_joined (cwd : List (List Byte)) (a b : List Byte) :
  locate cwd (joined a b) = locate (locate cwd a) b
  := by
  by_cases hb : isAbsolute b
  · rw [joined_of_copied (.inl hb), locate, locate, hb]
    rfl
  rw [Bool.not_eq_true] at hb
  have habs : isAbsolute (joined a b) = isAbsolute a := by
    rw [isAbsolute_joined, hb, Bool.or_false]
  rw [locate, habs, joined, if_neg (by simp [hb]), moves_asDirectory_append, Route.act,
    List.foldl_append, locate.eq_def _ b, hb]
  rfl

/-! ### Calls -/

/-- A call that does not copy its second path gives a text that `snprintf` can give. -/
def JoinsShort (a b : List Byte) : Prop :=
  isAbsolute b ∨ a = [] ∨ (joined a b).length ≤ intMax

/-- The result of a call that succeeds when the joined text and its terminator fit in the buffer,
and otherwise leaves it unchanged. -/
def joinResult (a b out : List Byte) : ErrorCode × List Byte :=
  if (joined a b).length + 1 ≤ out.length then
    (.ok, joined a b ++ 0 :: out.drop ((joined a b).length + 1))
  else (.overflow, out)

variable {spoil : List Byte → List Byte} {out : List Byte}

/-- The second path is copied. -/
theorem pathJoin_copied
    (ha : 0 ∉ a) (hb : 0 ∉ b) (hcopied : isAbsolute b ∨ a = []) (hout : out ≠ []) :
  pathJoin spoil (some ⟨a, ha⟩) (some ⟨b, hb⟩) out = some (joinResult a b out)
  := by
  simp only [pathJoin]
  rw [if_neg hout, if_pos hcopied, joinResult, joined_of_copied hcopied]
  split
  case isTrue hgt => rw [if_neg (by omega)]
  case isFalse hle =>
  rw [if_pos (by omega), Buffer.write, if_pos]
  · simp
  · rw [List.length_append, List.length_singleton]
    omega

/-- What is compared with the size of the buffer. -/
theorem pathJoin_of_formatted
    (ha : 0 ∉ a) (hb : 0 ∉ b) (hformatted : ¬ (isAbsolute b ∨ a = [])) (hout : out ≠ []) :
  pathJoin spoil (some ⟨a, ha⟩) (some ⟨b, hb⟩) out
    = if toSize ((joined a b).length + 1) > out.length then some (.overflow, out)
      else joinFormat spoil (joined a b) out
  := by
  simp only [pathJoin]
  rw [if_neg hout, if_neg hformatted, joined_of_formatted hformatted, List.length_append,
    List.length_append]

/-- A call with a short result does what it should. -/
theorem pathJoin_short
    (ha : 0 ∉ a) (hb : 0 ∉ b) (h : JoinsShort a b) (hout : out ≠ []) :
  pathJoin spoil (some ⟨a, ha⟩) (some ⟨b, hb⟩) out = some (joinResult a b out)
  := by
  by_cases hcopied : isAbsolute b ∨ a = []
  · apply pathJoin_copied ha hb hcopied hout
  have hshort : (joined a b).length ≤ intMax := (or_assoc.mpr h).resolve_left hcopied
  have hsize : toSize ((joined a b).length + 1) = (joined a b).length + 1 := by
    apply toSize_of_le
    unfold intMax sizeMax at *
    omega
  have hpos : (joined a b).length > 0 := by
    rw [joined_of_formatted hcopied]
    rw [not_or] at hcopied
    have hne := List.length_pos_of_ne_nil hcopied.2
    simp only [List.length_append]
    omega
  rw [pathJoin_of_formatted ha hb hcopied hout, hsize, joinResult]
  split
  case isTrue hgt => rw [if_neg (by omega)]
  case isFalse hle =>
  rw [if_pos (by omega), joinFormat, snprintf_eq spoil hshort (by omega), Option.map_some]
  dsimp only
  rw [if_pos]
  use hpos
  simp only [List.length_append, List.length_cons, List.length_drop]
  omega

/-- A call with a long result fails, whatever room there is. -/
theorem pathJoin_long
    (ha : 0 ∉ a) (hb : 0 ∉ b) (h : ¬ JoinsShort a b) (hout : out ≠ []) :
  ∃ out', pathJoin spoil (some ⟨a, ha⟩) (some ⟨b, hb⟩) out = some (.overflow, out')
  := by
  rw [JoinsShort, ← or_assoc, not_or] at h
  rw [pathJoin_of_formatted ha hb h.1 hout]
  split
  · exact ⟨out, rfl⟩
  · rw [joinFormat, snprintf_of_lt spoil out (Nat.lt_of_not_le h.2)]
    exact ⟨_, rfl⟩

/-! ### The laws -/

/-- The call returns `ERR_OK` and leaves the string `s` in the buffer. -/
def PathJoins (spoil : List Byte → List Byte) (a b : CString) (out : List Byte) (s : CString) :
    Prop :=
  ∃ rest, pathJoin spoil (some a) (some b) out = some (.ok, s.1 ++ 0 :: rest)

/-- A call succeeds exactly when its result is short and fits. -/
theorem pathJoins_iff {a b s : CString} :
  PathJoins spoil a b out s
    ↔ s.1 = joined a.1 b.1 ∧ JoinsShort a.1 b.1 ∧ (joined a.1 b.1).length + 1 ≤ out.length
  := by
  obtain ⟨a, ha⟩ := a
  obtain ⟨b, hb⟩ := b
  obtain ⟨s, hs⟩ := s
  rw [PathJoins]
  constructor
  · rintro ⟨rest, hresult⟩
    have hout : out ≠ [] := by
      rintro rfl
      simp [pathJoin] at hresult
    have hshort : JoinsShort a b := by
      by_contra hlong
      obtain ⟨out', hfails⟩ :
          ∃ out', pathJoin spoil (some ⟨a, ha⟩) (some ⟨b, hb⟩) out = some (.overflow, out') :=
        pathJoin_long ha hb hlong hout
      rw [hfails] at hresult
      cases hresult
    rw [pathJoin_short ha hb hshort hout, joinResult] at hresult
    split at hresult
    case isFalse => cases hresult
    case isTrue hfits =>
    obtain ⟨-, hbuf⟩ := Prod.mk.inj (Option.some.inj hresult)
    have htext := congrArg cstr hbuf
    rw [cstr_append (nul_not_mem_joined ha hb), cstr_append hs] at htext
    exact ⟨htext.symm, hshort, hfits⟩
  · rintro ⟨rfl, hshort, hfits⟩
    have hout : out ≠ [] := by
      rintro rfl
      cases hfits
    use out.drop ((joined a b).length + 1)
    rw [pathJoin_short ha hb hshort hout, joinResult, if_pos hfits]

/-- With enough room three paths are joined in either order, with the same result. -/
def JoinsAssoc (a b c : CString) : Prop :=
  ∀ spoil, ∃ room, ∀ out₁ out₂ out₃ out₄, room ≤ out₁.length → room ≤ out₂.length →
    room ≤ out₃.length → room ≤ out₄.length →
    ∃ ab bc s, PathJoins spoil a b out₁ ab ∧ PathJoins spoil ab c out₂ s
      ∧ PathJoins spoil b c out₃ bc ∧ PathJoins spoil a bc out₄ s

/-- What holds of `path_join` for the paths `a`, `b` and `c`: it succeeds exactly when its result
and the terminator fit and otherwise leaves the buffer unchanged, it is associative, and the
joined path denotes what `b` denotes from the place of `a`. -/
structure JoinLaws (a b c : CString) : Prop where
  fits : ∀ spoil out, out ≠ [] →
    pathJoin spoil (some a) (some b) out = some (joinResult a.1 b.1 out)
  assoc : JoinsAssoc a b c
  denotes : ∀ spoil out s, PathJoins spoil a b out s → ∀ cwd,
    locate cwd s.1 = locate (locate cwd a.1) b.1
  copies : ∀ spoil out s, PathJoins spoil a b out s → isAbsolute b.1 ∨ a.1 = [] → s = b

/-- The string of two paths joined. -/
def joinedString (a b : CString) : CString :=
  ⟨joined a.1 b.1, nul_not_mem_joined a.2 b.2⟩

/-- Three paths are joined in either order when all results on the way are short. -/
theorem joinsAssoc_iff {a b c : CString} :
  JoinsAssoc a b c
    ↔ JoinsShort a.1 b.1 ∧ JoinsShort (joined a.1 b.1) c.1 ∧ JoinsShort b.1 c.1
      ∧ JoinsShort a.1 (joined b.1 c.1)
  := by
  constructor
  · intro h
    obtain ⟨room, hroom⟩ := h id
    have hlength : room ≤ (List.replicate room (0 : Byte)).length := by
      rw [List.length_replicate]
    obtain ⟨ab, bc, s, hab, habc, hbc, ha_bc⟩ :=
      hroom _ _ _ _ hlength hlength hlength hlength
    rw [pathJoins_iff] at hab habc hbc ha_bc
    rw [hab.1] at habc
    rw [hbc.1] at ha_bc
    exact ⟨hab.2.1, habc.2.1, hbc.2.1, ha_bc.2.1⟩
  · rintro ⟨hab, habc, hbc, ha_bc⟩ spoil
    use (joined a.1 b.1).length + (joined b.1 c.1).length
      + (joined (joined a.1 b.1) c.1).length + 1
    intro out₁ out₂ out₃ out₄ h₁ h₂ h₃ h₄
    use joinedString a b, joinedString b c, joinedString (joinedString a b) c
    simp only [pathJoins_iff]
    refine ⟨⟨rfl, hab, ?_⟩, ⟨rfl, habc, ?_⟩, ⟨rfl, hbc, ?_⟩, joined_assoc _ _ _, ha_bc, ?_⟩
    · omega
    · simp only [joinedString]
      omega
    · omega
    · simp only [joinedString, ← joined_assoc]
      omega

/-- The laws hold exactly when every one of the four joins copies its second path or has a result
of at most `INT_MAX` bytes. -/
theorem path_join_laws_iff (a b c : CString) :
  JoinLaws a b c
    ↔ JoinsShort a.1 b.1 ∧ JoinsShort (joined a.1 b.1) c.1 ∧ JoinsShort b.1 c.1
      ∧ JoinsShort a.1 (joined b.1 c.1)
  := by
  constructor
  · intro h
    apply joinsAssoc_iff.mp h.assoc
  · intro h
    constructor
    · intro spoil out hout
      apply pathJoin_short a.2 b.2 h.1 hout
    · apply joinsAssoc_iff.mpr h
    · intro spoil out s hs cwd
      rw [(pathJoins_iff.mp hs).1, locate_joined]
    · intro spoil out s hs hcopied
      apply Subtype.ext
      rw [(pathJoins_iff.mp hs).1, joined_of_copied hcopied]

/-- A path of `INT_MAX` bytes. -/
def longPath : CString :=
  ⟨List.replicate intMax 97, fun h => absurd (List.eq_of_mem_replicate h) (by decide)⟩

theorem mem_longPath {x : Byte} (h : x ∈ longPath.1) :
  x = 97
  := List.eq_of_mem_replicate h

theorem length_longPath : longPath.1.length = intMax := List.length_replicate

theorem longPath_ne_nil : longPath.1 ≠ [] := by
  intro h
  have hlength := congrArg List.length h
  rw [length_longPath] at hlength
  cases hlength

theorem length_joined_longPath : (joined longPath.1 [98]).length = intMax + 2 := by
  have hlast : longPath.1.getLast? ≠ some slash := by
    intro h
    exact absurd (mem_longPath (List.mem_of_getLast? h)) (by decide)
  rw [joined, if_neg (by decide), asDirectory_of_no_slash longPath_ne_nil hlast,
    List.length_append, List.length_append, length_longPath]
  rfl

/-- A long path and `"b"` fit in the buffer when they are joined, but the call fails. -/
theorem path_join_long_fails :
  ¬ JoinLaws longPath ⟨[98], by decide⟩ ⟨[], by decide⟩
    ∧ (joined longPath.1 [98]).length + 1 ≤ (List.replicate (intMax + 3) (0 : Byte)).length
    ∧ ∃ out, pathJoin id (some longPath) (some ⟨[98], by decide⟩) (List.replicate (intMax + 3) 0)
      = some (.overflow, out)
  := by
  have hlong : ¬ JoinsShort longPath.1 [98] := by
    rw [JoinsShort, length_joined_longPath]
    rintro (habs | hnil | hle)
    · exact absurd habs (by decide)
    · apply longPath_ne_nil hnil
    · omega
  refine ⟨fun h => hlong (joinsAssoc_iff.mp h.assoc).1, ?_, ?_⟩
  · rw [length_joined_longPath, List.length_replicate]
  · apply pathJoin_long _ _ hlong
    rw [List.replicate_succ]
    apply List.cons_ne_nil

end CTemplate

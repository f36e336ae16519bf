import CTemplate.Systems.Path.Correct

/-!
# Normalized paths are canonical

The text of a normal form reads back as that normal form, so paths with the same normalized
text have the same normal form and denote the same place from every directory.  Conversely,
normal forms that denote the same place from the directories made of one of two names are
equal.
-/

namespace CTemplate

open Route

variable {n : Normal (List Byte)} {absolute : Bool}

/-! ### Reading a normal form back -/

theorem filterMap_moveOf (hnames : ∀ c ∈ n.names, IsName c) :
  (components n).filterMap moveOf = n.moves
  := by
  rw [components, List.filterMap_append, Normal.moves]
  congr 1
  · rw [List.filterMap_replicate_of_some moveOf_dotdot]
  · rw [← List.filterMap_eq_map]
    apply List.filterMap_congr
    intro c hc
    have hname := hnames c hc
    rw [moveOf, if_neg (not_or.mpr ⟨hname.ne_nil, hname.ne_dot⟩), if_neg hname.ne_dotdot]
    rfl

/-- The components of a text joined from components. -/
theorem moves_intercalate (hnames : ∀ c ∈ n.names, IsName c) :
  moves ([slash].intercalate (components n)) = n.moves
  := by
  rw [← filterMap_moveOf hnames]
  by_cases hnil : components n = []
  · rw [hnil]
    rfl
  · rw [moves, List.splitOn_intercalate slash _ hnil]
    intro c hc
    exact (isComponent_of_mem hnames hc).slash_not_mem

theorem isAbsolute_render (hnames : ∀ c ∈ n.names, IsName c) :
  isAbsolute (render absolute n) = absolute
  := by
  cases absolute with
  | true => rfl
  | false =>
      rw [render, if_neg Bool.false_ne_true]
      split
      · rfl
      · case isFalse hne =>
          obtain ⟨c, cs, hcs⟩ := List.exists_cons_of_ne_nil hne
          have hc := isComponent_of_mem hnames (hcs ▸ List.mem_cons_self : c ∈ components n)
          obtain ⟨x, c', rfl⟩ := List.exists_cons_of_ne_nil hc.ne_nil
          have hx : x ≠ slash := by
            rintro rfl
            exact hc.slash_not_mem List.mem_cons_self
          rw [hcs]
          cases cs with
          | nil => simp [isAbsolute, hx]
          | cons d cs =>
              rw [List.intercalate_cons_of_ne_nil (List.cons_ne_nil _ _)]
              simp [isAbsolute, hx]

theorem moves_render (hnames : ∀ c ∈ n.names, IsName c) :
  moves (render absolute n) = n.moves
  := by
  rw [render]
  split
  · rw [← List.singleton_append, moves_slashes (by simp), moves_intercalate hnames]
  split
  · case isTrue hnil =>
      rw [← filterMap_moveOf hnames, hnil]
      rfl
  · apply moves_intercalate hnames

/-- A normal form is that of its text. -/
theorem normalForm_render
    (hproper : n.Proper absolute) (hsize : n.size ≤ maxComponents)
    (hnames : ∀ c ∈ n.names, IsName c) :
  normalForm (render absolute n) = some n
  := by
  rw [normalForm, moves_render hnames, isAbsolute_render hnames]
  apply Normal.foldlM_moves hproper hsize

/-- A path denotes what its normal form does. -/
theorem locate_eq {p : List Byte} (h : normalForm p = some n) (cwd : List (List Byte)) :
  locate cwd p = n.act (Normal.base (isAbsolute p) cwd)
  := by
  rw [locate, Normal.act_of_foldlM h cwd, Normal.act_here]

/-! ### Normal forms with the same meaning -/

theorem isDirectory_replicate {c : List Byte} (hc : IsName c) (k : ℕ) :
  IsDirectory (List.replicate k c)
  := by
  intro d hd
  rwa [List.eq_of_mem_replicate hd]

/-- A name of one letter. -/
theorem isName_letter {x : Byte} (hx : x ∈ [(97 : Byte), 98]) : IsName [x] := by
  rcases List.mem_pair.mp hx with rfl | rfl
  · constructor <;> decide
  · constructor <;> decide

/-- Normal forms that denote the same place from every directory are equal, and both or none
are those of absolute paths. -/
theorem normal_eq_of_act
    {absolute' : Bool} {m : Normal (List Byte)} (hn : n.Proper absolute) (hm : m.Proper absolute')
    (h : ∀ cwd, IsDirectory cwd →
      n.act (Normal.base absolute cwd) = m.act (Normal.base absolute' cwd)) :
  absolute = absolute' ∧ n = m
  := by
  have hletter : ∀ x ∈ [(97 : Byte), 98], ∀ k,
      n.act (Normal.base absolute (List.replicate k [x]))
        = m.act (Normal.base absolute' (List.replicate k [x])) := by
    intro x hx k
    apply h
    apply isDirectory_replicate (isName_letter hx)
  cases absolute with
  | false =>
      cases absolute' with
      | false =>
          use rfl
          apply Normal.ext_of_act (a := [97]) (b := [98]) (by decide)
          intro c hc k
          obtain ⟨x, hx, rfl⟩ : ∃ x ∈ [(97 : Byte), 98], c = [x] := by simpa using hc
          apply hletter x hx k
      | true =>
          obtain ⟨k, hk⟩ := Normal.exists_act_ne m n [97]
          have heq := hletter 97 (by simp) k
          rw [hm.act_root] at heq
          exact absurd heq.symm hk
  | true =>
      cases absolute' with
      | false =>
          obtain ⟨k, hk⟩ := Normal.exists_act_ne n m [97]
          have heq := hletter 97 (by simp) k
          rw [hn.act_root] at heq
          exact absurd heq hk
      | true =>
          use rfl
          have heq := hletter 97 (by simp) 0
          rw [hn.act_root, hm.act_root] at heq
          ext1
          · rw [hn rfl, hm rfl]
          · exact heq

/-- What an accepted path is rewritten to. -/
theorem exists_render_of_ok
    {p tail buf : List Byte} (hnul : 0 ∉ p) (hne : p ≠ [])
    (h : pathNormalize (p ++ 0 :: tail) = some (.ok, buf)) :
  ∃ n rest, normalForm p = some n ∧ buf = render (isAbsolute p) n ++ 0 :: rest
    ∧ n.Proper (isAbsolute p) ∧ n.size ≤ maxComponents ∧ ∀ c ∈ n.names, IsName c
  := by
  rcases pathNormalize_cases hnul hne tail with
    ⟨n, buf', rest, hresult, hnormal, hbuf, -, hvalid⟩ | ⟨buf', hresult, -⟩
  · rw [h] at hresult
    obtain rfl : buf = buf' := (Prod.mk.inj (Option.some.inj hresult)).2
    use n, rest, hnormal, hbuf
  · rw [h] at hresult
    cases hresult

/-- Two accepted paths are rewritten to the same text exactly when they denote the same place
from every directory.  The text that a path is rewritten to denotes what the path does, and
is rewritten to itself. -/
theorem path_normalize_canonical
    {p q tail tail' buf buf' : List Byte} (hp_nul : 0 ∉ p) (hp_ne : p ≠ []) (hq_nul : 0 ∉ q)
    (hq_ne : q ≠ []) (hp : pathNormalize (p ++ 0 :: tail) = some (.ok, buf))
    (hq : pathNormalize (q ++ 0 :: tail') = some (.ok, buf')) :
  (cstr buf = cstr buf' ↔ ∀ cwd, IsDirectory cwd → locate cwd p = locate cwd q)
    ∧ (∀ cwd, locate cwd (cstr buf) = locate cwd p)
    ∧ ∃ buf₂, pathNormalize buf = some (.ok, buf₂) ∧ cstr buf₂ = cstr buf
  := by
  obtain ⟨n, rest, hn, rfl, hn_proper, hn_size, hn_names⟩ := exists_render_of_ok hp_nul hp_ne hp
  obtain ⟨m, rest', hm, rfl, hm_proper, hm_size, hm_names⟩ := exists_render_of_ok hq_nul hq_ne hq
  have hn_nul := nul_not_mem_render (isAbsolute p) hn_names
  have hn_self := normalForm_render hn_proper hn_size hn_names
  rw [cstr_append hn_nul, cstr_append (nul_not_mem_render (isAbsolute q) hm_names)]
  refine ⟨⟨?_, ?_⟩, ?_, ?_⟩
  · intro heq cwd _
    have habs : isAbsolute (render (isAbsolute p) n) = isAbsolute p :=
      isAbsolute_render hn_names
    rw [heq, isAbsolute_render hm_names] at habs
    rw [heq, normalForm_render hm_proper hm_size hm_names] at hn_self
    obtain rfl := Option.some.inj hn_self
    rw [locate_eq hn, locate_eq hm, habs]
  · intro h
    have hact : ∀ cwd, IsDirectory cwd →
        n.act (Normal.base (isAbsolute p) cwd) = m.act (Normal.base (isAbsolute q) cwd) := by
      intro cwd hcwd
      rw [← locate_eq hn, ← locate_eq hm]
      apply h cwd hcwd
    obtain ⟨habs, rfl⟩ := normal_eq_of_act hn_proper hm_proper hact
    rw [habs]
  · intro cwd
    rw [locate_eq hn_self, locate_eq hn, isAbsolute_render hn_names]
  · rcases pathNormalize_cases hn_nul (render_ne_nil _ hn_names) rest with
      ⟨k, buf₂, rest₂, hresult, hk, rfl, -, -, -, hk_names⟩ | ⟨buf₂, -, hnone, -⟩
    · rw [hn_self] at hk
      obtain rfl := Option.some.inj hk
      refine ⟨_, hresult, ?_⟩
      rw [cstr_append (nul_not_mem_render _ hk_names), isAbsolute_render hn_names]
    · rw [hn_self] at hnone
      cases hnone

/-- The paths `"a/../b"` and `"./b"`, both of which are rewritten to `"b"`. -/
theorem path_normalize_canonical_pair :
  ∃ buf buf',
    pathNormalize [97, 47, 46, 46, 47, 98, 0] = some (.ok, buf)
      ∧ pathNormalize [46, 47, 98, 0] = some (.ok, buf') ∧ cstr buf = cstr buf'
      ∧ ∀ cwd, IsDirectory cwd → locate cwd [97, 47, 46, 46, 47, 98] = locate cwd [46, 47, 98]
  := by
  have hp : pathNormalize ([97, 47, 46, 46, 47, 98] ++ 0 :: [])
      = some (.ok, [98, 0, 46, 46, 47, 98, 0]) := by decide
  have hq : pathNormalize ([46, 47, 98] ++ 0 :: []) = some (.ok, [98, 0, 98, 0]) := by decide
  have hcanonical := path_normalize_canonical (by decide) (by decide) (by decide) (by decide) hp hq
  refine ⟨_, _, hp, hq, by decide, hcanonical.1.mp (by decide)⟩

end CTemplate

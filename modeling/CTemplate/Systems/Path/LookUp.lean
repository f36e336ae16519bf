import CTemplate.Library.DirTree
import CTemplate.Systems.Path.Canonical

/-!
# Looking up a path

The entry that the system finds for a path, and `path_exists` and `path_is_dir`.  The file system
is a tree without links, and a directory in which a component is looked up has to be searchable.
What is found for a path is found for its normalized text.
-/

namespace CTemplate

open DirTree Route

/-- A file system, with the names of its entries. -/
abbrev Tree : Type := DirTree (List Byte)

/-- The step that a component stands for: an empty one and `"."` stay in a directory, and only an
empty one is not looked up in it. -/
def stepOf (c : List Byte) : Step (List Byte) :=
  if c = [] then .within else (moveOf c).elim .here .move

/-- The steps of a path. -/
def pathSteps (path : List Byte) : List (Step (List Byte)) :=
  (path.splitOn slash).map stepOf

/-- The directory in which the look-up of a path starts. -/
def pathBase (cwd : List (List Byte)) (path : List Byte) : List (List Byte) :=
  Normal.base (isAbsolute path) cwd

/-- The place of the entry that the system finds for a path, if there is one. -/
def lookUp (cwd : List (List Byte)) (t : Tree) (path : List Byte) : Option (List (List Byte)) :=
  if path = [] then none else t.walk (pathBase cwd path) (pathSteps path)

/-- `path_exists` -/
def pathExists (cwd : List (List Byte)) (t : Tree) (path : List Byte) : Bool :=
  (lookUp cwd t path).isSome

/-- `path_is_dir` -/
def pathIsDir (cwd : List (List Byte)) (t : Tree) (path : List Byte) : Bool :=
  (lookUp cwd t path).any fun d => t.entry d = some .directory

variable {cwd d : List (List Byte)} {t : Tree} {path : List Byte}

/-! ### Steps of texts -/

theorem move?_stepOf (c : List Byte) :
  (stepOf c).move? = moveOf c
  := by
  rw [stepOf]
  split
  case isTrue hnil =>
    rw [moveOf, if_pos (.inl hnil)]
    rfl
  case isFalse hne => cases moveOf c <;> rfl

theorem pathSteps_append_slash (path rest : List Byte) :
  pathSteps (path ++ slash :: rest) = pathSteps path ++ pathSteps rest
  := by
  rw [pathSteps, List.splitOn_append_cons_self, List.map_append]
  rfl

theorem pathSteps_of_not_mem (h : slash ∉ path) :
  pathSteps path = [stepOf path]
  := by
  rw [pathSteps, List.splitOn_eq_singleton h]
  rfl

theorem pathSteps_ne_nil : pathSteps path ≠ [] := by
  rw [pathSteps, ne_eq, List.map_eq_nil_iff]
  exact List.splitOn_ne_nil slash path

theorem filterMap_pathSteps (path : List Byte) :
  (pathSteps path).filterMap Step.move? = moves path
  := by
  rw [pathSteps, List.filterMap_map, moves]
  congr 1
  funext c
  exact move?_stepOf c

/-- The route of the steps of a path is the route of the path. -/
theorem routePlace_pathSteps (cwd : List (List Byte)) (path : List Byte) :
  routePlace (pathBase cwd path) (pathSteps path) = locate cwd path
  := by
  rw [routePlace, filterMap_pathSteps, locate]
  rfl

/-- The first component of a relative path is looked up. -/
theorem pathSteps_of_relative (hne : path ≠ []) (hrel : isAbsolute path = false) :
  ∃ s rest, pathSteps path = s :: rest ∧ s.searches = true
  := by
  have hfirst : ∀ {c : List Byte}, c ≠ [] → (stepOf c).searches = true := by
    intro c hc
    rw [stepOf, if_neg hc]
    cases moveOf c <;> rfl
  by_cases hmem : slash ∈ path
  · obtain ⟨c, rest, rfl, hc⟩ := List.eq_append_cons_of_mem hmem
    have hne' : c ≠ [] := by
      rintro rfl
      cases hrel
    rw [pathSteps_append_slash, pathSteps_of_not_mem hc]
    exact ⟨_, pathSteps rest, rfl, hfirst hne'⟩
  · exact ⟨_, [], pathSteps_of_not_mem hmem, hfirst hne⟩

theorem pathIsDir_iff (hne : path ≠ []) :
  pathIsDir cwd t path = true
    ↔ ∃ d, t.walk (pathBase cwd path) (pathSteps path) = some d ∧ t.entry d = some .directory
  := by
  rw [pathIsDir, lookUp, if_neg hne, Option.any_eq_true]
  simp only [decide_eq_true_eq]

/-! ### Normalized paths -/

theorem map_stepOf {n : Normal (List Byte)} (hnames : ∀ c ∈ n.names, IsName c) :
  (components n).map stepOf = n.moves.map .move
  := by
  rw [components, Normal.moves, List.map_append, List.map_append, List.map_replicate,
    List.map_replicate, List.map_map]
  congr 1
  apply List.map_congr_left
  intro c hc
  have hname := hnames c hc
  rw [stepOf, if_neg hname.ne_nil, moveOf, if_neg (not_or.mpr ⟨hname.ne_nil, hname.ne_dot⟩),
    if_neg hname.ne_dotdot]
  rfl

theorem pathSteps_intercalate
    {n : Normal (List Byte)} (hnames : ∀ c ∈ n.names, IsName c) (hne : components n ≠ []) :
  pathSteps ([slash].intercalate (components n)) = n.moves.map .move
  := by
  rw [← map_stepOf hnames, pathSteps, List.splitOn_intercalate slash _ hne]
  intro c hc
  exact (isComponent_of_mem hnames hc).slash_not_mem

/-- The steps of the text of an absolute normal form. -/
theorem pathSteps_render_absolute {n : Normal (List Byte)} (hnames : ∀ c ∈ n.names, IsName c) :
  ∃ k, pathSteps (render true n) = List.replicate k .within ++ n.moves.map .move
  := by
  have hslash : pathSteps (render true n)
      = .within :: pathSteps ([slash].intercalate (components n)) :=
    pathSteps_append_slash [] _
  rw [hslash]
  by_cases hnil : components n = []
  · use 2
    rw [← map_stepOf hnames, hnil]
    rfl
  · use 1
    rw [pathSteps_intercalate hnames hnil]
    rfl

/-- The steps of the text of a normal form that is not absolute. -/
theorem pathSteps_render_relative {n : Normal (List Byte)} (hnames : ∀ c ∈ n.names, IsName c) :
  pathSteps (render false n) = if n.moves = [] then [.here] else n.moves.map .move
  := by
  rw [render, if_neg Bool.false_ne_true]
  have hmoves : components n = [] ↔ n.moves = [] := by
    rw [← List.map_eq_nil_iff (f := Step.move), ← map_stepOf hnames, List.map_eq_nil_iff]
  by_cases hnil : components n = []
  · rw [if_pos hnil, if_pos (hmoves.mp hnil)]
    rfl
  · rw [if_neg hnil, if_neg (hmoves.not.mp hnil), pathSteps_intercalate hnames hnil]

/-- The text that a path is normalized to leads to the entry that the path leads to.  So it exists
and is a directory when the path does and is. -/
theorem path_normalize_finds
    {tail buf : List Byte} (hnul : 0 ∉ path) (hne : path ≠ [])
    (hok : pathNormalize (path ++ 0 :: tail) = some (.ok, buf)) (t : Tree)
    (cwd : List (List Byte)) :
  (∀ d, lookUp cwd t path = some d → lookUp cwd t (cstr buf) = some d ∧ d = locate cwd path)
    ∧ (pathExists cwd t path = true → pathExists cwd t (cstr buf) = true)
    ∧ (pathIsDir cwd t path = true → pathIsDir cwd t (cstr buf) = true)
  := by
  have hfinds : ∀ d, lookUp cwd t path = some d →
      lookUp cwd t (cstr buf) = some d ∧ d = locate cwd path := by
    intro d hfound
    obtain ⟨n, rest, hnormal, rfl, -, -, hnames⟩ := exists_render_of_ok hnul hne hok
    rw [lookUp, if_neg hne] at hfound
    have hplace := walk_eq_routePlace hfound
    rw [routePlace_pathSteps] at hplace
    rw [normalForm, ← filterMap_pathSteps] at hnormal
    have hmoves := (walk_normal hnormal hfound).2
    rw [cstr_append (nul_not_mem_render _ hnames), lookUp, if_neg (render_ne_nil _ hnames),
      pathBase, isAbsolute_render hnames]
    refine ⟨?_, hplace⟩
    cases habs : isAbsolute path with
    | true =>
        obtain ⟨k, hsteps⟩ := pathSteps_render_absolute hnames
        rw [habs] at hmoves
        have hroot : t.entry (Normal.base true cwd) = some .directory := t.root
        rw [hsteps, walk_append, walk_within hroot]
        exact hmoves
    | false =>
        obtain ⟨s, steps, hsteps, hsearches⟩ := pathSteps_of_relative hne habs
        rw [hsteps, pathBase] at hfound
        obtain ⟨⟨hdir, hsearch⟩, -⟩ := entry_of_walk hfound
        rw [habs] at hmoves hdir hsearch
        rw [pathSteps_render_relative hnames]
        split
        case isTrue hnil =>
          rw [hnil] at hmoves
          cases hmoves
          rw [walk_singleton]
          apply visit_of_not_down ⟨hdir, fun _ => hsearch hsearches⟩
          intro a h
          cases h
        case isFalse => exact hmoves
  refine ⟨hfinds, ?_, ?_⟩
  · rw [pathExists, pathExists, Option.isSome_iff_exists, Option.isSome_iff_exists]
    rintro ⟨d, hd⟩
    exact ⟨d, (hfinds d hd).1⟩
  · rw [pathIsDir, pathIsDir, Option.any_eq_true, Option.any_eq_true]
    rintro ⟨d, hd, hdir⟩
    exact ⟨d, (hfinds d hd).1, hdir⟩

/-- `"a/../a"` in the directory `"/b"` becomes `"a"`. -/
theorem path_normalize_finds_name :
  ∃ (t : Tree) (buf : List Byte), lookUp [[98]] t [97, 47, 46, 46, 47, 97] = some [[98], [97]]
    ∧ pathNormalize [97, 47, 46, 46, 47, 97, 0] = some (.ok, buf)
    ∧ lookUp [[98]] t (cstr buf) = some [[98], [97]] ∧ pathIsDir [[98]] t (cstr buf) = true
  := by
  have hok : ∃ buf, pathNormalize [97, 47, 46, 46, 47, 97, 0] = some (.ok, buf) := by
    use [97, 0, 46, 46, 47, 97, 0]
    decide
  obtain ⟨buf, hok⟩ := hok
  let rules : Rules (List Byte) := ⟨fun _ => false, fun _ => ⟨true, true⟩⟩
  let t : Tree := (makeWalk rules bare [] [.move (.down [98]), .move (.down [97])]).1
  have hfound : lookUp [[98]] t [97, 47, 46, 46, 47, 97] = some [[98], [97]] := by decide
  have hdir : pathIsDir [[98]] t [97, 47, 46, 46, 47, 97] = true := by decide
  have hnul : 0 ∉ ([97, 47, 46, 46, 47, 97] : List Byte) := by decide
  obtain ⟨hfinds, -, hisDir⟩ := path_normalize_finds hnul (List.cons_ne_nil _ _) hok t [[98]]
  exact ⟨t, buf, hfound, hok, (hfinds _ hfound).1, hisDir hdir⟩

end CTemplate

import CTemplate.Library.Route
import Mathlib.Data.List.Induction
import Mathlib.Tactic.Use

/-!
# Trees of directories

A `DirTree` has an entry, a directory or a file, at some of its places, and each entry lies in a
directory.  What may be done in a directory is its `Access`.  `walk` follows steps from a place:
each step is taken in a directory, which has to be searched unless the step is empty, and leads to
an entry.  `makeWalk` makes the directories that are missing on the way, where the `Rules` do not
deny them and their parent may be written.

A walk leads to the same place in a larger tree, `walk_mono`, and what `makeWalk` makes it can
walk, `walk_of_makeWalk`.  It leads to a directory just when the way to it is open, `makes_iff`.
-/

universe u

open Route

/-- What may be done in a directory: its entries may be looked up, and new ones made. -/
structure Access where
  search : Bool
  write : Bool
  deriving DecidableEq

/-- What an entry is. -/
inductive Kind where
  | directory
  | file
  deriving DecidableEq

/-- A step: a move, `here`, which stays in a directory, or `within`, which stays in it without a
look-up. -/
inductive Step (ν : Type u) where
  | within
  | here
  | move (m : Move ν)

/-- The entries of a tree by their places. -/
structure DirTree (ν : Type u) where
  entry : List ν → Option Kind
  access : List ν → Access
  root : entry [] = some .directory
  parent : ∀ {d : List ν} {n : ν}, entry (d ++ [n]) ≠ none → entry d = some .directory

namespace Step

variable {ν : Type u}

/-- The move of a step, if it is one. -/
def move? : Step ν → Option (Move ν)
  | within => none
  | here => none
  | move m => some m

/-- The step is looked up. -/
def searches : Step ν → Bool
  | within => false
  | here => true
  | move _ => true

/-- The place that a step leads to. -/
def place (d : List ν) (s : Step ν) : List ν :=
  s.move?.elim d (Move.act d)

end Step

namespace DirTree

/-- A tree with nothing below its root. -/
def bare {ν : Type u} : DirTree ν where
  entry p := if p.isEmpty then some .directory else none
  access _ := ⟨true, true⟩
  root := rfl
  parent := by simp

variable {ν : Type u} {t t' : DirTree ν} {d d' : List ν} {steps : List (Step ν)} {s : Step ν}

theorem ne_none_of_entry {k : Kind} (h : t.entry d = some k) :
  t.entry d ≠ none
  := by
  rw [h]
  exact Option.some_ne_none k

/-- A step may be taken from `d`. -/
def Enters (t : DirTree ν) (d : List ν) (s : Step ν) : Prop :=
  t.entry d = some .directory ∧ (s.searches = true → (t.access d).search = true)

instance : Decidable (t.Enters d s) :=
  inferInstanceAs (Decidable (_ ∧ _))

/-- A step from `d` to an entry. -/
def visit (t : DirTree ν) (d : List ν) (s : Step ν) : Option (List ν) :=
  if t.Enters d s ∧ t.entry (s.place d) ≠ none then some (s.place d) else none

/-- The place that steps lead to. -/
def walk (t : DirTree ν) (d : List ν) (steps : List (Step ν)) : Option (List ν) :=
  steps.foldlM t.visit d

theorem walk_snoc (steps : List (Step ν)) (s : Step ν) :
  t.walk d (steps ++ [s]) = (t.walk d steps).bind fun d => t.visit d s
  := by
  rw [walk, List.foldlM_append]
  cases h : steps.foldlM t.visit d with
  | none => rw [walk, h]; rfl
  | some d' =>
      rw [walk, h, Option.bind_some, Option.bind_eq_bind, Option.bind_some, List.foldlM_cons]
      cases t.visit d' s <;> rfl

theorem walk_singleton (s : Step ν) :
  t.walk d [s] = t.visit d s
  := walk_snoc [] s

theorem walk_append (steps steps' : List (Step ν)) :
  t.walk d (steps ++ steps') = (t.walk d steps).bind fun d => t.walk d steps'
  := by
  rw [walk, List.foldlM_append]
  rfl

theorem visit_eq_some (h : t.visit d s = some d') :
  t.Enters d s ∧ t.entry d' ≠ none ∧ d' = s.place d
  := by
  rw [visit, Option.ite_none_right_eq_some] at h
  obtain ⟨⟨henters, hentry⟩, heq⟩ := h
  cases heq
  exact ⟨henters, hentry, rfl⟩

/-- The place that a route of steps leads to. -/
def routePlace (d : List ν) (steps : List (Step ν)) : List ν :=
  Route.act d (steps.filterMap Step.move?)

theorem routePlace_snoc (steps : List (Step ν)) (s : Step ν) :
  routePlace d (steps ++ [s]) = s.place (routePlace d steps)
  := by
  rw [routePlace, routePlace, List.filterMap_append, Route.act, Route.act, List.foldl_append]
  cases s <;> rfl

/-- A walk leads to the place of its route. -/
theorem walk_eq_routePlace (h : t.walk d steps = some d') :
  d' = routePlace d steps
  := by
  induction steps using List.reverseRecOn generalizing d' with
  | nil =>
      cases h
      rfl
  | append_singleton steps s ih =>
      rw [walk_snoc, Option.bind_eq_some_iff] at h
      obtain ⟨d₁, hwalk, hvisit⟩ := h
      obtain ⟨-, -, rfl⟩ := visit_eq_some hvisit
      rw [ih hwalk, routePlace_snoc]

/-- The entries above an entry are directories. -/
theorem entry_dropLast (t : DirTree ν) (h : t.entry d ≠ none) :
  t.entry d.dropLast ≠ none
  := by
  rcases List.eq_nil_or_concat d with rfl | ⟨d, n, rfl⟩
  · exact h
  · rw [List.concat_eq_append] at h
    rw [List.concat_eq_append, List.dropLast_concat]
    exact ne_none_of_entry (t.parent h)

/-- Staying in a directory and going up from it lead to an entry. -/
theorem visit_of_not_down (h : t.Enters d s) (hs : ∀ n, s ≠ .move (.down n)) :
  t.visit d s = some (s.place d)
  := by
  have hentry := ne_none_of_entry h.1
  apply if_pos
  use h
  rcases s with _ | _ | _ | n
  · exact hentry
  · exact hentry
  · exact t.entry_dropLast hentry
  · exact absurd rfl (hs n)

/-- Empty steps stay in a directory. -/
theorem walk_within (hdir : t.entry d = some .directory) (k : ℕ) :
  t.walk d (List.replicate k .within) = some d
  := by
  induction k with
  | zero => rfl
  | succ k ih =>
      rw [List.replicate_succ', walk_snoc, ih]
      apply visit_of_not_down ⟨hdir, fun h => by cases h⟩
      intro n h
      cases h

/-- A walk with a first step starts at a directory where that step may be taken, and leads to an
entry. -/
theorem entry_of_walk (h : t.walk d (s :: steps) = some d') :
  t.Enters d s ∧ t.entry d' ≠ none
  := by
  constructor
  · rw [walk, List.foldlM_cons, Option.bind_eq_bind, Option.bind_eq_some_iff] at h
    obtain ⟨d₁, hvisit, -⟩ := h
    exact (visit_eq_some hvisit).1
  · obtain ⟨steps', s', hsteps⟩ : ∃ steps' s', s :: steps = steps' ++ [s'] :=
      ⟨_, _, (List.dropLast_append_getLast (List.cons_ne_nil s steps)).symm⟩
    rw [hsteps, walk_snoc, Option.bind_eq_some_iff] at h
    obtain ⟨d₁, -, hvisit⟩ := h
    exact (visit_eq_some hvisit).2.1

/-- A walk along the moves of a normal form and one more move, along those of the normal form with
that move. -/
theorem walk_normal_step
    {rooted : Bool} {n : Normal ν} {m : Move ν} (hproper : n.Proper rooted)
    (h : t.walk (Normal.base rooted d) (n.moves.map .move) = some d')
    {d'' : List ν} (hvisit : t.visit d' (.move m) = some d'') :
  t.walk (Normal.base rooted d) ((n.step rooted m).moves.map .move) = some d''
  := by
  have hsnoc : ∀ {n' : Normal ν}, n'.moves = n.moves ++ [m] →
      t.walk (Normal.base rooted d) (n'.moves.map .move) = some d'' := by
    intro n' hn'
    rw [hn', List.map_append, List.map_singleton, walk_snoc, h]
    exact hvisit
  cases m with
  | down a =>
      apply hsnoc
      rw [Normal.moves, Normal.step, List.map_append, ← List.append_assoc]
      rfl
  | up =>
      obtain ⟨-, -, rfl⟩ := visit_eq_some hvisit
      rcases List.eq_nil_or_concat n.names with hnil | ⟨names, a, hnames⟩
      · cases rooted with
        | true =>
            have hmoves : n.moves = [] := by
              rw [Normal.moves, hnil, hproper rfl]
              rfl
            rw [Normal.step, if_pos hnil, if_pos rfl, hmoves]
            rw [hmoves] at h
            cases h
            rfl
        | false =>
            apply hsnoc
            rw [Normal.step, if_pos hnil, if_neg Bool.false_ne_true, Normal.moves, Normal.moves,
              hnil, List.replicate_succ', List.map_nil, List.append_nil, List.append_nil]
      · rw [List.concat_eq_append] at hnames
        have hne : n.names ≠ [] := by
          rw [hnames]
          exact List.concat_ne_nil _ _
        have hmoves : n.moves = (⟨n.ups, names⟩ : Normal ν).moves ++ [.down a] := by
          rw [Normal.moves, Normal.moves, hnames, List.map_append, ← List.append_assoc]
          rfl
        rw [hmoves, List.map_append, List.map_singleton, walk_snoc, Option.bind_eq_some_iff] at h
        obtain ⟨d₀, hwalk, hdown⟩ := h
        obtain ⟨-, -, rfl⟩ := visit_eq_some hdown
        rw [Normal.step, if_neg hne, hnames, List.dropLast_concat, hwalk]
        exact congrArg some List.dropLast_concat.symm

/-- Where a walk leads, the moves of the normal form of its route lead too. -/
theorem walk_normal
    {limit : ℕ} {rooted : Bool} {n : Normal ν}
    (hn : (steps.filterMap Step.move?).foldlM (Normal.stepWithin limit rooted) .here = some n)
    (h : t.walk (Normal.base rooted d) steps = some d') :
  n.Proper rooted ∧ t.walk (Normal.base rooted d) (n.moves.map .move) = some d'
  := by
  induction steps using List.reverseRecOn generalizing n d' with
  | nil =>
      cases hn
      cases h
      exact ⟨Normal.proper_here rooted, rfl⟩
  | append_singleton steps s ih =>
      rw [walk_snoc, Option.bind_eq_some_iff] at h
      obtain ⟨d₁, hwalk, hvisit⟩ := h
      rw [List.filterMap_append, List.foldlM_append, Option.bind_eq_bind,
        Option.bind_eq_some_iff] at hn
      obtain ⟨n₁, hn₁, hstep⟩ := hn
      obtain ⟨hproper, hmoves⟩ := ih hn₁ hwalk
      cases s with
      | within | here =>
          obtain ⟨-, -, rfl⟩ := visit_eq_some hvisit
          cases hstep
          exact ⟨hproper, hmoves⟩
      | move m =>
          have hone : Normal.stepWithin limit rooted n₁ m = some n := by
            simpa [Step.move?] using hstep
          rw [Normal.stepWithin, Option.ite_none_right_eq_some] at hone
          cases hone.2
          exact ⟨hproper.step m, walk_normal_step hproper hmoves hvisit⟩

/-! ### Larger trees -/

/-- Every entry is one of the other tree too, and as much may be done in it. -/
structure Sub (t t' : DirTree ν) : Prop where
  entry_eq : ∀ {d k}, t.entry d = some k → t'.entry d = some k
  access_eq : ∀ {d}, t.entry d ≠ none → t'.access d = t.access d

theorem Sub.refl : t.Sub t where
  entry_eq h := h
  access_eq _ := rfl

theorem Sub.ne_none (h : t.Sub t') (hd : t.entry d ≠ none) :
  t'.entry d ≠ none
  := by
  obtain ⟨k, hk⟩ := Option.ne_none_iff_exists'.mp hd
  exact ne_none_of_entry (h.entry_eq hk)

theorem Sub.trans {t'' : DirTree ν} (h : t.Sub t') (h' : t'.Sub t'') : t.Sub t'' where
  entry_eq hd := h'.entry_eq (h.entry_eq hd)
  access_eq hd := (h'.access_eq (h.ne_none hd)).trans (h.access_eq hd)

theorem Sub.enters (h : t.Sub t') (henters : t.Enters d s) :
  t'.Enters d s
  := by
  obtain ⟨hdir, hsearch⟩ := henters
  use h.entry_eq hdir
  rwa [h.access_eq (ne_none_of_entry hdir)]

/-- A walk leads to the same place in a larger tree. -/
theorem walk_mono (h : t.Sub t') (hwalk : t.walk d steps = some d') :
  t'.walk d steps = some d'
  := by
  induction steps using List.reverseRecOn generalizing d' with
  | nil => exact hwalk
  | append_singleton steps s ih =>
      rw [walk_snoc, Option.bind_eq_some_iff] at hwalk
      obtain ⟨d₁, hwalk, hvisit⟩ := hwalk
      obtain ⟨henters, hentry, rfl⟩ := visit_eq_some hvisit
      rw [walk_snoc, ih hwalk, Option.bind_some, visit,
        if_pos ⟨h.enters henters, h.ne_none hentry⟩]

/-! ### Making directories -/

/-- What happens to new directories: where they are denied, and what may be done in one. -/
structure Rules (ν : Type u) where
  denied : List ν → Bool
  made : List ν → Access

/-- There can be no new directory `n` in the directory `d`. -/
def Rules.refuses (rules : Rules ν) (t : DirTree ν) (d : List ν) (n : ν) : Bool :=
  rules.denied (d ++ [n]) || !(t.access d).write

/-- What may be done in a directory, which is made if it is missing. -/
def accessAt (rules : Rules ν) (t : DirTree ν) (p : List ν) : Access :=
  if t.entry p = none then rules.made p else t.access p

theorem Sub.access_eq_accessAt
    {rules : Rules ν} {p : List ν} (h : t.Sub t')
    (hnew : t.entry p = none → t'.access p = rules.made p) :
  t'.access p = accessAt rules t p
  := by
  by_cases hnone : t.entry p = none
  · rw [accessAt, if_pos hnone, hnew hnone]
  · rw [accessAt, if_neg hnone, h.access_eq hnone]

variable [DecidableEq ν]

/-- The tree with a new directory `n` in the directory `d`. -/
def add (t : DirTree ν) (d : List ν) (n : ν) (access : Access)
    (hdir : t.entry d = some .directory) : DirTree ν where
  entry p := if p = d ++ [n] then some .directory else t.entry p
  access p := if p = d ++ [n] then access else t.access p
  root := by
    rw [if_neg (by simp)]
    exact t.root
  parent := by
    intro p m hp
    have hne : ∀ q m, q ++ [m] = d ++ [n] → q ≠ d ++ [n] := by
      rintro q m heq rfl
      have := congrArg List.length heq
      simp at this
    by_cases heq : p ++ [m] = d ++ [n]
    · rw [if_neg (hne p m heq)]
      obtain ⟨rfl, -⟩ := List.append_inj' heq rfl
      exact hdir
    · rw [if_neg heq] at hp
      split
      · rfl
      · exact t.parent hp

theorem sub_add
    {n : ν} {access : Access} (hdir : t.entry d = some .directory)
    (hnew : t.entry (d ++ [n]) = none) :
  t.Sub (t.add d n access hdir)
  where
  entry_eq := by
    intro p k hp
    rw [add]
    dsimp only
    rw [if_neg]
    · exact hp
    · rintro rfl
      rw [hnew] at hp
      cases hp
  access_eq := by
    intro p hp
    rw [add]
    dsimp only
    rw [if_neg]
    rintro rfl
    exact hp hnew

/-- A step, before which the directory that it leads to is made unless it is there or refused. -/
def makeVisit (rules : Rules ν) (t : DirTree ν) (d : List ν) (s : Step ν) :
    DirTree ν × Option (List ν) :=
  if h : t.Enters d s then
    match s with
    | .move (.down n) =>
        if t.entry (d ++ [n]) ≠ none then (t, some (d ++ [n]))
        else if rules.refuses t d n then (t, none)
        else (t.add d n (rules.made (d ++ [n])) h.1, some (d ++ [n]))
    | s => (t, some (s.place d))
  else (t, none)

/-- Steps on which missing directories are made: the tree, and the place that the steps lead to
unless they end before. -/
def makeWalk (rules : Rules ν) (t : DirTree ν) (d : List ν) (steps : List (Step ν)) :
    DirTree ν × Option (List ν) :=
  steps.foldl (fun (t, d) s => d.elim (t, none) fun d => makeVisit rules t d s) (t, some d)

variable {rules : Rules ν}

theorem makeWalk_snoc (steps : List (Step ν)) (s : Step ν) :
  makeWalk rules t d (steps ++ [s])
    = (makeWalk rules t d steps).2.elim ((makeWalk rules t d steps).1, none) fun d' =>
      makeVisit rules (makeWalk rules t d steps).1 d' s
  := by
  rw [makeWalk, List.foldl_append]
  rfl

/-- What making a step does. -/
theorem makeVisit_cases (rules : Rules ν) (t : DirTree ν) (d : List ν) (s : Step ν) :
  (makeVisit rules t d s = (t, none) ∧ ¬ t.Enters d s)
    ∨ (makeVisit rules t d s = (t, some (s.place d)) ∧ t.visit d s = some (s.place d))
    ∨ ∃ n, s = .move (.down n) ∧ t.Enters d s ∧ t.entry (d ++ [n]) = none
      ∧ if rules.refuses t d n then makeVisit rules t d s = (t, none)
        else ∃ hdir, makeVisit rules t d s
          = (t.add d n (rules.made (d ++ [n])) hdir, some (d ++ [n]))
  := by
  by_cases henters : t.Enters d s
  · by_cases hdown : ∃ n, s = .move (.down n)
    · obtain ⟨n, rfl⟩ := hdown
      by_cases hentry : t.entry (d ++ [n]) = none
      · refine .inr (.inr ⟨n, rfl, henters, hentry, ?_⟩)
        simp only [makeVisit, dif_pos henters, hentry, ne_eq, not_true_eq_false, if_false]
        split
        · rfl
        · exact ⟨henters.1, rfl⟩
      · refine .inr (.inl ⟨?_, if_pos ⟨henters, hentry⟩⟩)
        simp only [makeVisit, dif_pos henters, ne_eq, hentry, not_false_eq_true, if_true]
        rfl
    · rw [not_exists] at hdown
      refine .inr (.inl ⟨?_, visit_of_not_down henters hdown⟩)
      rw [makeVisit, dif_pos henters]
      split
      · exact absurd rfl (hdown _)
      · rfl
  · exact .inl ⟨by rw [makeVisit, dif_neg henters], henters⟩

theorem sub_makeVisit : t.Sub (makeVisit rules t d s).1 := by
  rcases makeVisit_cases rules t d s with ⟨heq, -⟩ | ⟨heq, -⟩ | ⟨n, rfl, -, hnew, heq⟩
  · rw [heq]
    exact .refl
  · rw [heq]
    exact .refl
  · split at heq
    · rw [heq]
      exact .refl
    · obtain ⟨hdir, heq⟩ := heq
      rw [heq]
      exact sub_add hdir hnew

theorem sub_makeWalk (steps : List (Step ν)) :
  t.Sub (makeWalk rules t d steps).1
  := by
  induction steps using List.reverseRecOn with
  | nil => exact .refl
  | append_singleton steps s ih =>
      rw [makeWalk_snoc]
      cases (makeWalk rules t d steps).2 with
      | none => exact ih
      | some d' => exact ih.trans sub_makeVisit

theorem entry_add {n : ν} {access : Access} (hdir : t.entry d = some .directory) :
  (t.add d n access hdir).entry (d ++ [n]) = some .directory
  := if_pos rfl

/-- A step that was made can be taken. -/
theorem visit_of_makeVisit (h : (makeVisit rules t d s).2 = some d') :
  (makeVisit rules t d s).1.visit d s = some d'
  := by
  rcases makeVisit_cases rules t d s with ⟨heq, -⟩ | ⟨heq, hvisit⟩ | ⟨n, rfl, henters, hnew, heq⟩
  · rw [heq] at h
    cases h
  · rw [heq] at h ⊢
    cases h
    exact hvisit
  · split at heq
    · rw [heq] at h
      cases h
    · obtain ⟨hdir, heq⟩ := heq
      rw [heq] at h ⊢
      cases h
      apply if_pos
      use (sub_add hdir hnew).enters henters
      exact ne_none_of_entry (entry_add hdir)

/-- What was made can be walked. -/
theorem walk_of_makeWalk (h : (makeWalk rules t d steps).2 = some d') :
  (makeWalk rules t d steps).1.walk d steps = some d'
  := by
  induction steps using List.reverseRecOn generalizing d' with
  | nil => exact h
  | append_singleton steps s ih =>
      rw [makeWalk_snoc] at h ⊢
      cases hd : (makeWalk rules t d steps).2 with
      | none =>
          rw [hd] at h
          cases h
      | some d₁ =>
          rw [hd, Option.elim_some] at h
          rw [Option.elim_some, walk_snoc, walk_mono sub_makeVisit (ih hd), Option.bind_some]
          exact visit_of_makeVisit h

/-- An empty step makes nothing. -/
theorem makeVisit_within (rules : Rules ν) (t : DirTree ν) (d : List ν) :
  makeVisit rules t d .within = (t, t.visit d .within)
  := by
  rcases makeVisit_cases rules t d .within with ⟨heq, hnot⟩ | ⟨heq, hvisit⟩ | ⟨n, hdown, -⟩
  · rw [heq, visit, if_neg fun h => hnot h.1]
  · rw [heq, hvisit]
  · cases hdown

/-- No step is made after one that cannot be made. -/
theorem makeWalk_append_of_none
    (h : makeWalk rules t d steps = (t', none)) (rest : List (Step ν)) :
  makeWalk rules t d (steps ++ rest) = (t', none)
  := by
  induction rest using List.reverseRecOn with
  | nil => rwa [List.append_nil]
  | append_singleton rest s ih => rw [← List.append_assoc, makeWalk_snoc, ih, Option.elim_none]

/-! ### What is made -/

theorem makeWalk_place (h : (makeWalk rules t d steps).2 = some d') :
  d' = routePlace d steps
  := walk_eq_routePlace (walk_of_makeWalk h)

/-- There is no file at a place, and a directory that is missing there is not denied and lies in one
that may be written. -/
def Clear (rules : Rules ν) (t : DirTree ν) (p : List ν) : Prop :=
  t.entry p ≠ some .file
    ∧ (t.entry p = none → rules.denied p = false ∧ (accessAt rules t p.dropLast).write = true)

/-- An entry that was not there is a directory that was not refused. -/
theorem entry_makeVisit {p : List ν} {k : Kind} (h : (makeVisit rules t d s).1.entry p = some k) :
  t.entry p = some k
    ∨ (k = .directory ∧ t.entry p = none ∧ (makeVisit rules t d s).1.access p = rules.made p
      ∧ t.entry d = some .directory ∧ rules.denied p = false ∧ (t.access d).write = true
      ∧ p.dropLast = d ∧ p = s.place d)
  := by
  rcases makeVisit_cases rules t d s with ⟨heq, -⟩ | ⟨heq, -⟩ | ⟨n, rfl, henters, hnew, heq⟩
  · rw [heq] at h
    exact .inl h
  · rw [heq] at h
    exact .inl h
  · by_cases hrefused : rules.refuses t d n = true
    · rw [if_pos hrefused] at heq
      rw [heq] at h
      exact .inl h
    · rw [if_neg hrefused] at heq
      obtain ⟨hdir, heq⟩ := heq
      rw [heq] at h ⊢
      by_cases hp : p = d ++ [n]
      · subst hp
        rw [entry_add] at h
        cases h
        rw [Rules.refuses, Bool.or_eq_true, not_or, Bool.not_eq_true, Bool.not_eq_true',
          Bool.not_eq_false] at hrefused
        exact .inr ⟨rfl, hnew, if_pos rfl, hdir, hrefused.1, hrefused.2, List.dropLast_concat, rfl⟩
      · left
        rw [add] at h
        dsimp only at h
        rwa [if_neg hp] at h

/-- An entry that was not there is a directory on the way, which was clear. -/
theorem entry_makeWalk
    {p : List ν} {k : Kind} (h : (makeWalk rules t d steps).1.entry p = some k) :
  t.entry p = some k
    ∨ (k = .directory ∧ t.entry p = none ∧ (makeWalk rules t d steps).1.access p = rules.made p
      ∧ Clear rules t p ∧ ∃ pre, pre <+: steps ∧ p = routePlace d pre)
  := by
  induction steps using List.reverseRecOn generalizing p k with
  | nil => exact .inl h
  | append_singleton steps s ih =>
      rw [makeWalk_snoc] at h ⊢
      have hsub : t.Sub (makeWalk rules t d steps).1 := sub_makeWalk steps
      cases hd : (makeWalk rules t d steps).2 with
      | none =>
          rw [hd] at h
          rcases ih h with hold | ⟨hk, hnone, haccess, hclear, pre, hpre, hplace⟩
          · exact .inl hold
          · have hpre' := hpre.trans (List.prefix_append steps [s])
            exact .inr ⟨hk, hnone, haccess, hclear, pre, hpre', hplace⟩
      | some d₁ =>
          have hplace₁ := makeWalk_place hd
          rw [hd, Option.elim_some] at h
          rw [Option.elim_some]
          generalize (makeWalk rules t d steps).1 = t₁ at h ih hsub ⊢
          have hsub₁ : t₁.Sub (makeVisit rules t₁ d₁ s).1 := sub_makeVisit
          rcases entry_makeVisit h with
            hold | ⟨rfl, hnone₁, haccess, hdir, hdenied, hwrite, hparent, hplace⟩
          · rcases ih hold with hold | ⟨hk, hnone, haccess, hclear, pre, hpre, hplace⟩
            · exact .inl hold
            · refine .inr ⟨hk, hnone, ?_, hclear, pre, hpre.trans (List.prefix_append _ _), hplace⟩
              rw [← haccess]
              exact hsub₁.access_eq (ne_none_of_entry hold)
          · have hnone : t.entry p = none := by
              by_contra hsome
              exact hsub.ne_none hsome hnone₁
            have haccess₁ : t₁.access d₁ = accessAt rules t d₁ := by
              apply hsub.access_eq_accessAt
              intro hnone₁
              rcases ih hdir with hold | ⟨-, -, haccess₁, -⟩
              · rw [hnone₁] at hold
                cases hold
              · exact haccess₁
            refine .inr ⟨rfl, hnone, haccess, ⟨?_, fun _ => ⟨hdenied, ?_⟩⟩, _, List.prefix_rfl, ?_⟩
            · rw [hnone]
              exact (Option.some_ne_none _).symm
            · rwa [hparent, ← haccess₁]
            · rw [hplace, routePlace_snoc, ← hplace₁]

/-- What may be done in a directory after directories were made. -/
theorem access_makeWalk
    {p : List ν} {k : Kind} (h : (makeWalk rules t d steps).1.entry p = some k) :
  (makeWalk rules t d steps).1.access p = accessAt rules t p
  := by
  apply (sub_makeWalk steps).access_eq_accessAt
  intro hnone
  rcases entry_makeWalk h with hold | ⟨-, -, haccess, -⟩
  · rw [hnone] at hold
    cases hold
  · exact haccess

/-- A place with an entry after directories were made was clear just when it is a directory. -/
theorem clear_iff {p : List ν} {k : Kind} (h : (makeWalk rules t d steps).1.entry p = some k) :
  Clear rules t p ↔ k = .directory
  := by
  rcases entry_makeWalk h with hold | ⟨rfl, -, -, hclear, -⟩
  · cases k <;> simp [Clear, hold]
  · exact iff_of_true hclear rfl

/-- The steps lead to a directory. -/
def Makes (rules : Rules ν) (t : DirTree ν) (d : List ν) (steps : List (Step ν)) : Prop :=
  ∃ d', (makeWalk rules t d steps).2 = some d'
    ∧ (makeWalk rules t d steps).1.entry d' = some .directory

theorem makes_snoc (steps : List (Step ν)) (s : Step ν) :
  Makes rules t d (steps ++ [s])
    ↔ Makes rules t d steps
      ∧ (s.searches = true → (accessAt rules t (routePlace d steps)).search = true)
      ∧ Clear rules t (routePlace d (steps ++ [s]))
  := by
  rw [Makes, Makes, makeWalk_snoc]
  cases hd : (makeWalk rules t d steps).2 with
  | none => simp
  | some d₁ =>
      rw [Option.elim_some, routePlace_snoc, ← makeWalk_place hd]
      have hclear : ∀ {p k}, (makeWalk rules t d steps).1.entry p = some k →
          (Clear rules t p ↔ k = .directory) := clear_iff
      have haccess : ∀ {p k}, (makeWalk rules t d steps).1.entry p = some k →
          (makeWalk rules t d steps).1.access p = accessAt rules t p := access_makeWalk
      have hsub : t.Sub (makeWalk rules t d steps).1 := sub_makeWalk steps
      generalize (makeWalk rules t d steps).1 = t₁ at hclear haccess hsub ⊢
      rcases makeVisit_cases rules t₁ d₁ s with
        ⟨heq, hnot⟩ | ⟨heq, hvisit⟩ | ⟨n, rfl, henters, hnew, heq⟩
      · rw [heq]
        apply iff_of_false
        · rintro ⟨d', hd', -⟩
          cases hd'
        · rintro ⟨⟨d', hd', hdir⟩, hsearch, -⟩
          cases hd'
          rw [← haccess hdir] at hsearch
          exact hnot ⟨hdir, hsearch⟩
      · obtain ⟨⟨hdir, hsearch⟩, hsome, -⟩ := visit_eq_some hvisit
        obtain ⟨k, hk⟩ := Option.ne_none_iff_exists'.mp hsome
        rw [haccess hdir] at hsearch
        rw [heq, hclear hk]
        simp only [hdir, hk, Option.some.injEq, exists_eq_left', true_and]
        exact (and_iff_right hsearch).symm
      · obtain ⟨hdir, hsearch⟩ := henters
        have hnone : t.entry (d₁ ++ [n]) = none := by
          by_contra hsome
          exact hsub.ne_none hsome hnew
        have hrefuses : Clear rules t ((Step.move (.down n)).place d₁)
            ↔ rules.refuses t₁ d₁ n = false := by
          rw [Rules.refuses, haccess hdir, Bool.or_eq_false_iff, Bool.not_eq_false']
          simp [Clear, Step.place, Step.move?, Move.act, hnone]
        rw [haccess hdir] at hsearch
        rw [hrefuses]
        by_cases hrefused : rules.refuses t₁ d₁ n = true
        · rw [if_pos hrefused] at heq
          rw [heq]
          simp [hrefused]
        · rw [if_neg hrefused] at heq
          obtain ⟨hdir, heq⟩ := heq
          rw [heq]
          simp only [hdir, entry_add, Option.some.injEq, exists_eq_left', true_and,
            Bool.eq_false_iff.mpr hrefused, and_true, true_iff]
          exact hsearch

/-- The way along steps is open: it starts at a directory, each place on it is clear, and each
directory of which an entry is looked up may be searched. -/
structure WayOpen (rules : Rules ν) (t : DirTree ν) (d : List ν) (steps : List (Step ν)) :
    Prop where
  start : t.entry d = some .directory
  clear : ∀ pre, pre <+: steps → Clear rules t (routePlace d pre)
  searched : ∀ pre s, pre ++ [s] <+: steps → s.searches = true →
    (accessAt rules t (routePlace d pre)).search = true

/-- Steps lead to a directory just when the way along them is open. -/
theorem makes_iff : Makes rules t d steps ↔ WayOpen rules t d steps := by
  induction steps using List.reverseRecOn with
  | nil =>
      have hplace : routePlace d [] = d := rfl
      constructor
      · rintro ⟨d', hd, hdir⟩
        cases hd
        have hentry : t.entry d = some .directory := hdir
        refine ⟨hentry, ?_, ?_⟩
        · intro pre hpre
          rw [List.prefix_nil.mp hpre, hplace]
          simp [Clear, hentry]
        · intro pre s hpre
          exact absurd (List.prefix_nil.mp hpre) (List.concat_ne_nil _ _)
      · intro h
        exact ⟨d, rfl, h.start⟩
  | append_singleton steps s ih =>
      rw [makes_snoc, ih]
      constructor
      · rintro ⟨⟨hstart, hclear, hsearched⟩, hsearch, hlast⟩
        refine ⟨hstart, ?_, ?_⟩
        · intro pre hpre
          rcases List.prefix_concat_iff.mp hpre with rfl | hpre
          · exact hlast
          · exact hclear pre hpre
        · intro pre s' hpre
          rcases List.prefix_concat_iff.mp hpre with heq | hpre
          · obtain ⟨rfl, hsame⟩ := List.append_inj' heq rfl
            cases hsame
            exact hsearch
          · exact hsearched pre s' hpre
      · rintro ⟨hstart, hclear, hsearched⟩
        have hsteps : steps <+: steps ++ [s] := List.prefix_append _ _
        exact ⟨⟨hstart, fun pre hpre => hclear pre (hpre.trans hsteps),
          fun pre s' hpre => hsearched pre s' (hpre.trans hsteps)⟩,
          hsearched steps s List.prefix_rfl, hclear _ List.prefix_rfl⟩

/-- Steps that lead to an entry make nothing when they are taken again. -/
theorem makeWalk_again (rules : Rules ν) (h : t.walk d steps = some d') :
  makeWalk rules t d steps = (t, some d')
  := by
  induction steps using List.reverseRecOn generalizing d' with
  | nil =>
      cases h
      rfl
  | append_singleton steps s ih =>
      rw [walk_snoc, Option.bind_eq_some_iff] at h
      obtain ⟨d₁, hwalk, hvisit⟩ := h
      obtain ⟨henters, hentry, rfl⟩ := visit_eq_some hvisit
      rw [makeWalk_snoc, ih hwalk, Option.elim_some]
      rcases makeVisit_cases rules t d₁ s with ⟨-, hnot⟩ | ⟨heq, -⟩ | ⟨n, rfl, -, hnew, -⟩
      · exact absurd henters hnot
      · exact heq
      · exact absurd hnew hentry

end DirTree

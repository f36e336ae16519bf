import CTemplate.Core.Memory
import CTemplate.Library.Route

/-!
# Lexical paths

What the text of a path means.  The path is split at its slashes; empty and `"."` components
are dropped, `".."` goes up, and any other component goes down to the name it is.  The path
is absolute when it starts with a slash; its route then starts at the root.

`normalForm p` is the normal form of the route of `p`, or `none` when more than 64 components
would be kept at some point, and `render` is the text of a normal form.  `locate cwd p` is
the place that `p` denotes from the directory `cwd`.
-/

namespace CTemplate

open Route

/-- The character `'/'`. -/
def slash : Byte := 47

/-- The character `'.'`. -/
def dot : Byte := 46

/-- The path starts with a slash. -/
def isAbsolute (p : List Byte) : Bool :=
  p.head? = some slash

/-- The move that a component stands for, if any. -/
def moveOf (c : List Byte) : Option (Move (List Byte)) :=
  if c = [] ∨ c = [dot] then none
  else if c = [dot, dot] then some .up
  else some (.down c)

/-- The route of a path. -/
def moves (p : List Byte) : List (Move (List Byte)) :=
  (p.splitOn slash).filterMap moveOf

/-- The most components that a normalized path may have. -/
def maxComponents : ℕ := 64

/-- The normal form of the route of a path, unless it grows too long on the way. -/
def normalForm (p : List Byte) : Option (Normal (List Byte)) :=
  (moves p).foldlM (Normal.stepWithin maxComponents (isAbsolute p)) .here

/-- The components of a normal form. -/
def components (n : Normal (List Byte)) : List (List Byte) :=
  List.replicate n.ups [dot, dot] ++ n.names

/-- The text of a normal form: its components joined by single slashes, after a slash when
the path is absolute; a path with nothing left is `"/"` or `"."`. -/
def render (absolute : Bool) (n : Normal (List Byte)) : List Byte :=
  if absolute then slash :: [slash].intercalate (components n)
  else if components n = [] then [dot]
  else [slash].intercalate (components n)

/-- The place that a path denotes from the directory `cwd`. -/
def locate (cwd : List (List Byte)) (p : List Byte) : List (List Byte) :=
  Route.act (Normal.base (isAbsolute p) cwd) (moves p)

/-- A name of a directory entry. -/
structure IsName (c : List Byte) : Prop where
  ne_nil : c ≠ []
  ne_dot : c ≠ [dot]
  ne_dotdot : c ≠ [dot, dot]
  slash_not_mem : slash ∉ c
  nul_not_mem : 0 ∉ c

/-- A directory is a stack of names. -/
def IsDirectory (cwd : List (List Byte)) : Prop :=
  ∀ c ∈ cwd, IsName c

/-! ### Routes of texts -/

theorem moves_nil : moves [] = [] := rfl

/-- A component in front of a slash is the first move. -/
theorem moves_append_slash {c : List Byte} (hc : slash ∉ c) (t : List Byte) :
  moves (c ++ slash :: t) = (moveOf c).toList ++ moves t
  := by
  rw [moves, List.splitOn_append_cons_self_of_not_mem hc, moves]
  cases h : moveOf c with
  | none => rw [List.filterMap_cons_none h, Option.toList_none, List.nil_append]
  | some m => rw [List.filterMap_cons_some h, Option.toList_some, List.singleton_append]

/-- Slashes in front of a path do not change its route. -/
theorem moves_slashes {ss : List Byte} (hs : ∀ x ∈ ss, x = slash) (t : List Byte) :
  moves (ss ++ t) = moves t
  := by
  induction ss with
  | nil => rfl
  | cons x ss ih =>
      obtain rfl := hs x List.mem_cons_self
      have hmoves := moves_append_slash (c := []) (by simp) (ss ++ t)
      rw [List.nil_append] at hmoves
      rw [List.cons_append, hmoves, ih fun y hy => hs y (List.mem_cons_of_mem _ hy)]
      rfl

/-- The first component is the first move. -/
theorem moves_append
    {c : List Byte} (hc : slash ∉ c) {t : List Byte} (ht : ∀ x ∈ t.head?, x = slash) :
  moves (c ++ t) = (moveOf c).toList ++ moves t
  := by
  cases t with
  | nil =>
      rw [List.append_nil, moves, List.splitOn_eq_singleton hc, moves_nil, List.append_nil]
      cases h : moveOf c with
      | none => rw [List.filterMap_cons_none h]; rfl
      | some m => rw [List.filterMap_cons_some h]; rfl
  | cons x t =>
      obtain rfl := ht x rfl
      have hmoves : moves ([slash] ++ t) = moves t := moves_slashes (by simp) t
      rw [List.singleton_append] at hmoves
      rw [moves_append_slash hc, hmoves]

end CTemplate

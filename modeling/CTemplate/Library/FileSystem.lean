import Mathlib.Data.Nat.Notation
import Mathlib.Logic.Function.Basic
import Mathlib.Tactic.Use

/-!
# A file system

A file system binds names to inodes, and each inode has a content.  An open file is an inode
and an offset, and stays usable when its name is bound to another inode or removed.
`create` opens a name for writing and truncates what it is bound to, `write` writes at an
offset of an inode, `rename` binds a name to the inode of another one, whose binding is
removed, and `remove` removes a binding.

A file system has no links when no inode has two names.  Then each operation changes what is
read under the names that it concerns only.
-/

universe u v

/-- A file system with names `ν` and contents made of `β`.  The inodes from `next` on are not
in use. -/
structure FileSystem (ν : Type u) (β : Type v) where
  names : ν → Option ℕ
  content : ℕ → List β
  next : ℕ
  lt_next : ∀ {n : ν} {i : ℕ}, names n = some i → i < next

namespace FileSystem

variable {ν : Type u} {β : Type v}

/-- What a reader that opens the name finds. -/
def read (fs : FileSystem ν β) (n : ν) : Option (List β) :=
  (fs.names n).map fs.content

/-- No inode has two names. -/
def NoLinks (fs : FileSystem ν β) : Prop :=
  ∀ (n m : ν) (i : ℕ), fs.names n = some i → fs.names m = some i → n = m

/-- The inode that a name opened for writing has. -/
def inodeFor (fs : FileSystem ν β) (n : ν) : ℕ :=
  (fs.names n).getD fs.next

/-- The file system without files. -/
def empty : FileSystem ν β where
  names _ := none
  content _ := []
  next := 0
  lt_next := by simp

theorem noLinks_empty : (empty : FileSystem ν β).NoLinks := by
  intro n m i h
  cases h

variable {fs : FileSystem ν β} {n m : ν} {i : ℕ}

/-- The inode of a name opened for writing is its own or a new one. -/
theorem inodeFor_ne (hm : fs.names m = some i) (hn : fs.names n ≠ some i) :
  fs.inodeFor n ≠ i
  := by
  rw [inodeFor]
  cases h : fs.names n with
  | none =>
      have := fs.lt_next hm
      simp only [Option.getD_none]
      omega
  | some j =>
      rw [h] at hn
      simpa using hn

/-! ### Writing -/

section Write

variable [Inhabited β]

/-- The content after `chunk` was written at the offset `off`; a gap before it is filled. -/
def splice (content : List β) (off : ℕ) (chunk : List β) : List β :=
  content.take off ++ (List.replicate (off - content.length) default
    ++ (chunk ++ content.drop (off + chunk.length)))

theorem splice_end {content : List β} {off : ℕ} (h : content.length = off) (chunk : List β) :
  splice content off chunk = content ++ chunk
  := by
  rw [splice, List.take_of_length_le (Nat.le_of_eq h), h, Nat.sub_self, List.replicate_zero,
    List.nil_append, List.drop_eq_nil_of_le (by omega), List.append_nil]

/-- Write a chunk at an offset of an inode. -/
def write (fs : FileSystem ν β) (i off : ℕ) (chunk : List β) : FileSystem ν β where
  names := fs.names
  content := Function.update fs.content i (splice (fs.content i) off chunk)
  next := fs.next
  lt_next := fs.lt_next

@[simp]
theorem names_write (off : ℕ) (chunk : List β) :
  (fs.write i off chunk).names = fs.names
  := rfl

theorem content_write_of_ne {j : ℕ} (h : j ≠ i) (off : ℕ) (chunk : List β) :
  (fs.write i off chunk).content j = fs.content j
  := Function.update_of_ne h _ _

/-- Writing at the end appends. -/
theorem content_write_end {off : ℕ} (h : (fs.content i).length = off) (chunk : List β) :
  (fs.write i off chunk).content i = fs.content i ++ chunk
  := by
  have hself : (fs.write i off chunk).content i = splice (fs.content i) off chunk :=
    Function.update_self _ _ _
  rw [hself, splice_end h]

/-- Writing to an inode does not change what is read under a name with another inode. -/
theorem read_write_of_ne (h : fs.names m ≠ some i) (off : ℕ) (chunk : List β) :
  (fs.write i off chunk).read m = fs.read m
  := by
  rw [read, read, names_write]
  cases hm : fs.names m with
  | none => rfl
  | some j =>
      rw [Option.map_some, Option.map_some, content_write_of_ne]
      rintro rfl
      exact h hm

theorem NoLinks.write (h : fs.NoLinks) (off : ℕ) (chunk : List β) :
  (fs.write i off chunk).NoLinks
  := h

end Write

variable [DecidableEq ν]

/-! ### Opening for writing -/

/-- Open the name for writing: its inode is truncated, or it gets a new one. -/
def create (fs : FileSystem ν β) (n : ν) : FileSystem ν β where
  names := Function.update fs.names n (some (fs.inodeFor n))
  content := Function.update fs.content (fs.inodeFor n) []
  next := fs.next + 1
  lt_next := by
    intro m i h
    by_cases hm : m = n
    · subst hm
      rw [Function.update_self] at h
      obtain rfl := Option.some.inj h
      rw [inodeFor]
      cases hn : fs.names m with
      | none => apply Nat.lt_succ_self
      | some j => apply Nat.lt_succ_of_lt (fs.lt_next hn)
    · rw [Function.update_of_ne hm] at h
      apply Nat.lt_succ_of_lt (fs.lt_next h)

@[simp]
theorem names_create_self : (fs.create n).names n = some (fs.inodeFor n) :=
  Function.update_self _ _ _

theorem names_create_of_ne (h : m ≠ n) :
  (fs.create n).names m = fs.names m
  := Function.update_of_ne h _ _

@[simp]
theorem content_create_self : (fs.create n).content (fs.inodeFor n) = [] :=
  Function.update_self _ _ _

theorem content_create_of_ne (h : i ≠ fs.inodeFor n) :
  (fs.create n).content i = fs.content i
  := Function.update_of_ne h _ _

/-- Opening a name for writing does not change what is read under a name with another
inode. -/
theorem read_create_of_ne (hne : m ≠ n) (h : ∀ i, fs.names m = some i → fs.names n ≠ some i) :
  (fs.create n).read m = fs.read m
  := by
  rw [read, read, names_create_of_ne hne]
  cases hm : fs.names m with
  | none => rfl
  | some i =>
      rw [Option.map_some, Option.map_some, content_create_of_ne]
      exact (inodeFor_ne hm (h i hm)).symm

theorem NoLinks.create (h : fs.NoLinks) : (fs.create n).NoLinks := by
  have hother : ∀ {k i}, k ≠ n → (fs.create n).names k = some i → fs.inodeFor n ≠ i := by
    intro k i hk hki
    rw [names_create_of_ne hk] at hki
    apply inodeFor_ne hki
    intro hn
    exact hk (h _ _ _ hki hn)
  intro k l i hk hl
  by_cases hkn : k = n
  · by_cases hln : l = n
    · rw [hkn, hln]
    · rw [hkn, names_create_self] at hk
      exact absurd (Option.some.inj hk) (hother hln hl)
  · by_cases hln : l = n
    · rw [hln, names_create_self] at hl
      exact absurd (Option.some.inj hl) (hother hkn hk)
    · rw [names_create_of_ne hkn] at hk
      rw [names_create_of_ne hln] at hl
      exact h _ _ _ hk hl

/-! ### Renaming -/

/-- Bind the name `m` to the inode of `n` and remove the binding of `n`; nothing happens when
both are bound to the same inode. -/
def rename (fs : FileSystem ν β) (n m : ν) : FileSystem ν β where
  names :=
    if fs.names n = fs.names m then fs.names
    else Function.update (Function.update fs.names m (fs.names n)) n none
  content := fs.content
  next := fs.next
  lt_next := by
    intro k i h
    split at h
    · apply fs.lt_next h
    · by_cases hk : k = n
      · subst hk
        rw [Function.update_self] at h
        cases h
      · rw [Function.update_of_ne hk] at h
        by_cases hm : k = m
        · subst hm
          rw [Function.update_self] at h
          apply fs.lt_next h
        · rw [Function.update_of_ne hm] at h
          apply fs.lt_next h

theorem names_rename :
  (fs.rename n m).names
    = if fs.names n = fs.names m then fs.names
      else Function.update (Function.update fs.names m (fs.names n)) n none
  := rfl

theorem names_rename_source (h : fs.names n ≠ fs.names m) :
  (fs.rename n m).names n = none
  := by
  rw [names_rename, if_neg h, Function.update_self]

theorem names_rename_target (hne : m ≠ n) :
  (fs.rename n m).names m = fs.names n
  := by
  rw [names_rename]
  split
  · case isTrue h => exact h.symm
  · rw [Function.update_of_ne hne, Function.update_self]

theorem names_rename_of_ne {k : ν} (hn : k ≠ n) (hm : k ≠ m) :
  (fs.rename n m).names k = fs.names k
  := by
  rw [names_rename]
  split
  · rfl
  · rw [Function.update_of_ne hn, Function.update_of_ne hm]

/-- The target of a renaming reads as the source did. -/
theorem read_rename_target (hne : m ≠ n) :
  (fs.rename n m).read m = fs.read n
  := by
  rw [read, names_rename_target hne]
  rfl

theorem read_rename_of_ne {k : ν} (hn : k ≠ n) (hm : k ≠ m) :
  (fs.rename n m).read k = fs.read k
  := by
  rw [read, names_rename_of_ne hn hm]
  rfl

theorem NoLinks.rename (h : fs.NoLinks) : (fs.rename n m).NoLinks := by
  -- every name but the source is bound to an inode of its own, or the target to the source's
  have hbound : ∀ k i, fs.names n ≠ fs.names m → (fs.rename n m).names k = some i →
      k ≠ n ∧ fs.names (if k = m then n else k) = some i := by
    intro k i hne hk
    have hkn : k ≠ n := by
      rintro rfl
      rw [names_rename_source hne] at hk
      cases hk
    use hkn
    by_cases hkm : k = m
    · subst hkm
      rwa [if_pos rfl, ← names_rename_target hkn]
    · rwa [if_neg hkm, ← names_rename_of_ne hkn hkm]
  by_cases hne : fs.names n = fs.names m
  · intro k l i hk hl
    rw [names_rename, if_pos hne] at hk hl
    exact h k l i hk hl
  · intro k l i hk hl
    obtain ⟨hkn, hk⟩ := hbound k i hne hk
    obtain ⟨hln, hl⟩ := hbound l i hne hl
    have heq := h _ _ i hk hl
    split at heq <;> split at heq
    · simp_all
    · exact absurd heq.symm hln
    · exact absurd heq hkn
    · exact heq

/-! ### Removing -/

/-- Remove the binding of a name. -/
def remove (fs : FileSystem ν β) (n : ν) : FileSystem ν β where
  names := Function.update fs.names n none
  content := fs.content
  next := fs.next
  lt_next := by
    intro m i h
    by_cases hm : m = n
    · subst hm
      rw [Function.update_self] at h
      cases h
    · rw [Function.update_of_ne hm] at h
      apply fs.lt_next h

@[simp]
theorem names_remove_self : (fs.remove n).names n = none :=
  Function.update_self _ _ _

theorem names_remove_of_ne (h : m ≠ n) :
  (fs.remove n).names m = fs.names m
  := Function.update_of_ne h _ _

theorem NoLinks.remove (h : fs.NoLinks) : (fs.remove n).NoLinks := by
  have hbound : ∀ k i, (fs.remove n).names k = some i → fs.names k = some i := by
    intro k i hk
    rw [← names_remove_of_ne (n := n)]
    · exact hk
    · rintro rfl
      rw [names_remove_self] at hk
      cases hk
  intro k l i hk hl
  exact h k l i (hbound k i hk) (hbound l i hl)

theorem read_remove_of_ne (h : m ≠ n) :
  (fs.remove n).read m = fs.read m
  := by
  rw [read, names_remove_of_ne h]
  rfl

end FileSystem

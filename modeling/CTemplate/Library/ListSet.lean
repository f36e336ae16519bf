import Mathlib.Algebra.Order.Ring.Nat
import Mathlib.Data.List.Basic
import Mathlib.Data.List.Perm.Basic

/-!
# Replacing one element of a list

What replacing the element at one index does to the members of a list, to the number of
its elements with a property, and to what is collected from its elements.
-/

namespace ListSet

universe u v

variable {S : Type u} {l : List S} {i : ℕ} {s : S}

/-- Modifying the element at an index replaces it. -/
theorem modify_eq_set (hs : l[i]? = some s) (f : S → S) :
  l.modify i f = l.set i (f s)
  := by
  rw [List.modify_eq_set_getElem?, hs]
  rfl

/-- Replacing an element changes the count of a property by that element. -/
theorem countP_set_add (p : S → Bool) (hs : l[i]? = some s) (s' : S) :
  (l.set i s').countP p + (if p s then 1 else 0) = l.countP p + if p s' then 1 else 0
  := by
  obtain ⟨hi, rfl⟩ := List.getElem?_eq_some_iff.mp hs
  have hle := List.boole_getElem_le_countP (p := p) hi
  rw [List.countP_set hi]
  omega

/-- Replacing an element changes a sum over the elements by what belongs to that element. -/
theorem sum_map_set_add (f : S → ℕ) (hs : l[i]? = some s) (s' : S) :
  ((l.set i s').map f).sum + f s = (l.map f).sum + f s'
  := by
  induction l generalizing i with
  | nil => simp at hs
  | cons t l ih =>
      cases i with
      | zero =>
          obtain rfl : t = s := by simpa using hs
          rw [List.set_cons_zero, List.map_cons, List.map_cons, List.sum_cons, List.sum_cons]
          omega
      | succ i =>
          have h := ih (i := i) (by simpa using hs)
          rw [List.set_cons_succ, List.map_cons, List.map_cons, List.sum_cons, List.sum_cons]
          omega

/-- Replacing an element changes what is collected from a list by what is collected from
that element. -/
theorem filterMap_set_perm {A : Type v} (f : S → Option A) (hs : l[i]? = some s) (s' : S) :
  ((f s).toList ++ (l.set i s').filterMap f).Perm ((f s').toList ++ l.filterMap f)
  := by
  induction l generalizing i with
  | nil => simp at hs
  | cons t l ih =>
      have hcons : ∀ (t : S) (l : List S),
          (t :: l).filterMap f = (f t).toList ++ l.filterMap f := by
        intro t l
        rw [List.filterMap_cons]
        cases f t <;> rfl
      cases i with
      | zero =>
          obtain rfl : t = s := by simpa using hs
          rw [List.set_cons_zero, hcons, hcons, ← List.append_assoc, ← List.append_assoc]
          apply List.Perm.append_right _ List.perm_append_comm
      | succ i =>
          have h := ih (i := i) (by simpa using hs)
          rw [List.set_cons_succ, hcons, hcons, ← List.append_assoc, ← List.append_assoc]
          apply (List.Perm.append_right _ List.perm_append_comm).trans
          rw [List.append_assoc]
          apply (List.Perm.append_left _ h).trans
          rw [← List.append_assoc]
          apply List.Perm.append_right _ List.perm_append_comm

/-- Putting the last element in the place of another one and dropping the last place
removes that element. -/
theorem swap_remove_perm (hs : l[i]? = some s) {last : S} (hlast : l.getLast? = some last) :
  (s :: (l.set i last).dropLast).Perm l
  := by
  have hi := (List.getElem?_eq_some_iff.mp hs).1
  obtain ⟨pre, rfl⟩ : ∃ pre, l = pre ++ [last] := by
    use l.dropLast
    exact (List.dropLast_append_getLast? last hlast).symm
  rw [List.length_append, List.length_singleton] at hi
  rcases Nat.lt_succ_iff_lt_or_eq.mp hi with hlt | rfl
  · rw [List.set_append_left _ _ hlt, List.dropLast_concat]
    rw [List.getElem?_append_left hlt] at hs
    have hperm := filterMap_set_perm some hs last
    simp only [List.filterMap_some, Option.toList_some, List.singleton_append] at hperm
    apply hperm.trans
    apply (List.perm_append_singleton last pre).symm
  · obtain rfl : last = s := by simpa using hs
    rw [List.set_append_right _ _ (Nat.le_refl _), Nat.sub_self, List.set_cons_zero,
      List.dropLast_concat]
    apply (List.perm_append_singleton last pre).symm

/-- An element other than the replaced one is a member afterwards if it was before or is
the new one. -/
theorem mem_set_of_ne (hs : l[i]? = some s) {a : S} (hne : a ≠ s) (s' : S) :
  a ∈ l.set i s' ↔ a = s' ∨ a ∈ l
  := by
  obtain ⟨hi, rfl⟩ := List.getElem?_eq_some_iff.mp hs
  constructor
  · intro h
    apply (List.mem_or_eq_of_mem_set h).symm
  · rintro (rfl | h)
    · apply List.mem_set hi
    · obtain ⟨j, hj⟩ := List.getElem?_of_mem h
      apply List.mem_of_getElem?
      rw [List.getElem?_set_ne _, hj]
      rintro rfl
      rw [hs] at hj
      apply hne (Option.some.inj hj).symm

/-- An element with a property is counted. -/
theorem countP_pos_of_getElem? {p : S → Bool} (hs : l[i]? = some s) (hp : p s = true) :
  0 < l.countP p
  := List.countP_pos_iff.mpr ⟨s, List.mem_of_getElem? hs, hp⟩

/-- When elements with a property are counted there is one. -/
theorem exists_getElem?_of_countP_pos {p : S → Bool} (h : 0 < l.countP p) :
  ∃ (i : ℕ) (s : S), l[i]? = some s ∧ p s = true
  := by
  obtain ⟨s, hmem, hs⟩ := List.countP_pos_iff.mp h
  obtain ⟨i, hi⟩ := List.getElem?_of_mem hmem
  use i, s

end ListSet

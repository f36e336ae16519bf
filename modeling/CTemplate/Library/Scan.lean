import Mathlib.Data.List.Basic
import Mathlib.Data.List.DropRight

/-!
# Scanning a list

A scan with a predicate `p` splits a list into its longest part from the start on which `p`
holds and the rest, which does not start with an element on which `p` holds.  The split is
the only one of this kind.  To trim a list is to remove the elements on which `p` holds from
both ends.
-/

namespace Scan

universe u

variable {α : Type u} {p : α → Bool} {s t : List α}

/-- The list does not start with an element on which `p` holds. -/
def Stops (p : α → Bool) (s : List α) : Prop :=
  ∀ x ∈ s.head?, p x = false

theorem stops_nil : Stops p [] := by
  intro x hx
  cases hx

theorem stops_cons {x : α} (hx : p x = false) : Stops p (x :: s) := by
  intro y hy
  rwa [← Option.some.inj hy]

/-- A list that is not empty stops a scan whatever follows it. -/
theorem Stops.append (hs : Stops p s) (ht : s = [] → Stops p t) :
  Stops p (s ++ t)
  := by
  cases s with
  | nil => apply ht rfl
  | cons x s => apply stops_cons (hs x rfl)

theorem stops_dropWhile (p : α → Bool) (s : List α) :
  Stops p (s.dropWhile p)
  := by
  intro x hx
  have h := List.head?_dropWhile_not p s
  rw [Option.mem_def] at hx
  rw [hx] at h
  simpa using h

theorem takeWhile_eq_self (hs : ∀ x ∈ s, p x = true) (ht : Stops p t) :
  (s ++ t).takeWhile p = s
  := by
  rw [List.takeWhile_append_of_pos hs]
  cases t with
  | nil => apply List.append_nil
  | cons x t => rw [List.takeWhile_cons_of_neg (by simp [ht x rfl]), List.append_nil]

theorem dropWhile_eq_rest (hs : ∀ x ∈ s, p x = true) (ht : Stops p t) :
  (s ++ t).dropWhile p = t
  := by
  rw [List.dropWhile_append_of_pos hs]
  cases t with
  | nil => rfl
  | cons x t => apply List.dropWhile_cons_of_neg (by simp [ht x rfl])

theorem of_mem_takeWhile {x : α} (hx : x ∈ s.takeWhile p) :
  p x = true
  := List.all_eq_true.mp List.all_takeWhile x hx

/-! ### Trimming -/

/-- The list without the elements on which `p` holds at its start and its end. -/
def trim (p : α → Bool) (s : List α) : List α :=
  (s.dropWhile p).rdropWhile p

/-- The predicate holds on every element of a list. -/
def Blank (p : α → Bool) (s : List α) : Prop :=
  ∀ x ∈ s, p x = true

theorem dropWhile_eq_nil (hs : Blank p s) :
  s.dropWhile p = []
  := List.dropWhile_eq_nil_iff.mpr hs

theorem exists_trim (p : α → Bool) (s : List α) :
  ∃ a b, Blank p a ∧ Blank p b ∧ s = a ++ (trim p s ++ b)
  := by
  use s.takeWhile p, (s.dropWhile p).rtakeWhile p, fun x => of_mem_takeWhile,
    fun x => List.mem_rtakeWhile_imp
  rw [trim, List.rdropWhile_append_rtakeWhile, List.takeWhile_append_dropWhile]

theorem trim_append_left (hs : Blank p s) (t : List α) :
  trim p (s ++ t) = trim p t
  := by
  rw [trim, List.dropWhile_append_of_pos hs, trim]

theorem rdropWhile_append (ht : Blank p t) (s : List α) :
  (s ++ t).rdropWhile p = s.rdropWhile p
  := by
  rw [List.rdropWhile, List.reverse_append, List.dropWhile_append_of_pos, List.rdropWhile]
  intro x hx
  apply ht x (List.mem_reverse.mp hx)

theorem trim_append_right (ht : Blank p t) (s : List α) :
  trim p (s ++ t) = trim p s
  := by
  rw [trim, List.dropWhile_append, trim]
  split
  case isTrue hs =>
    rw [List.isEmpty_iff.mp hs, dropWhile_eq_nil ht]
  case isFalse =>
    apply rdropWhile_append ht

/-- Trimming a trimmed list changes nothing. -/
theorem trim_trim (p : α → Bool) (s : List α) :
  trim p (trim p s) = trim p s
  := by
  obtain ⟨a, b, ha, hb, hs⟩ := exists_trim p s
  conv => rhs; rw [hs, trim_append_left ha, trim_append_right hb]

/-- A trimmed list starts with the first element on which `p` does not hold. -/
theorem head?_trim (p : α → Bool) (s : List α) :
  (trim p s).head? = (s.dropWhile p).head?
  := by
  have hstops := stops_dropWhile p s
  rw [trim]
  generalize s.dropWhile p = t at hstops
  cases t with
  | nil => rfl
  | cons x t =>
      have happend := List.rdropWhile_append_rtakeWhile (p := p) (l := x :: t)
      cases h : (x :: t).rdropWhile p with
      | nil =>
          have hx := List.rdropWhile_eq_nil_iff.mp h x List.mem_cons_self
          rw [hstops x rfl] at hx
          cases hx
      | cons y u =>
          rw [h] at happend
          rw [List.head?_cons, List.head?_cons, (List.cons.inj happend).1]

/-- Trimming removes no element on which `p` does not hold. -/
theorem mem_trim_iff {x : α} (hx : p x = false) :
  x ∈ trim p s ↔ x ∈ s
  := by
  obtain ⟨a, b, ha, hb, hs⟩ := exists_trim p s
  have hxa : x ∉ a := fun h => by simp [ha x h] at hx
  have hxb : x ∉ b := fun h => by simp [hb x h] at hx
  conv => rhs; rw [hs, List.mem_append, List.mem_append]
  simp [hxa, hxb]

theorem countP_eq_zero_iff : s.countP (fun x => !p x) = 0 ↔ Blank p s := by
  rw [List.countP_eq_zero]
  constructor
  · intro h x hx
    simpa using h x hx
  · intro h x hx
    simp [h x hx]

theorem countP_trim (p : α → Bool) (s : List α) :
  (trim p s).countP (fun x => !p x) = s.countP (fun x => !p x)
  := by
  obtain ⟨a, b, ha, hb, hs⟩ := exists_trim p s
  conv => rhs; rw [hs, List.countP_append, List.countP_append]
  rw [countP_eq_zero_iff.mpr ha, countP_eq_zero_iff.mpr hb, Nat.zero_add, Nat.add_zero]

end Scan

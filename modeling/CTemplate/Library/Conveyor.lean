import Mathlib.Data.List.Basic

/-!
# Elements that pass through places in order

Elements travel from the last place of a list to the first, and in a `Pass` some of the elements
at the front of one place join the end of the place before it.  The elements of all places, read
from the first place to the last, stay the same, `Pass.flatten_eq`, and the number of moves that
are left, `rank`, gets smaller, `Pass.rank_lt`.
-/

namespace Conveyor

universe u

variable {α : Type u}

/-- Elements at the front of a place join the end of the place before it. -/
inductive Pass : List (List α) → List (List α) → Prop where
  | first {a x b : List α} {after : List (List α)} (hx : x ≠ []) :
      Pass (a :: (x ++ b) :: after) ((a ++ x) :: b :: after)
  | later {a : List α} {places places' : List (List α)} (h : Pass places places') :
      Pass (a :: places) (a :: places')

/-- How many times elements pass from one place to the next until all are in the first. -/
def rank : List (List α) → ℕ
  | [] => 0
  | _ :: places => places.flatten.length + rank places

variable {places places' : List (List α)}

/-- Passing elements on keeps them and their order. -/
theorem Pass.flatten_eq (h : Pass places places') :
  places'.flatten = places.flatten
  := by
  induction h with
  | first => simp only [List.flatten_cons, List.append_assoc]
  | later _ ih => rw [List.flatten_cons, List.flatten_cons, ih]

/-- Passing elements on brings them closer to the first place. -/
theorem Pass.rank_lt (h : Pass places places') :
  rank places' < rank places
  := by
  induction h with
  | @first a x b after hx =>
      have hpos := List.length_pos_iff.mpr hx
      simp only [rank, List.flatten_cons, List.length_append]
      omega
  | @later a places places' hpass ih =>
      rw [rank, rank, hpass.flatten_eq]
      omega

/-- Fewer elements in a place are moved fewer times. -/
theorem rank_set_nil_le (places : List (List α)) (i : ℕ) :
  rank (places.set i []) ≤ rank places
  := by
  induction places generalizing i with
  | nil => exact Nat.le_refl _
  | cons a places ih =>
      cases i with
      | zero => exact Nat.le_refl _
      | succ i =>
          have hflatten : ∀ (l : List (List α)) (i : ℕ),
              (l.set i []).flatten.length ≤ l.flatten.length := by
            intro l
            induction l with
            | nil => exact fun _ => Nat.le_refl _
            | cons b l ih =>
                intro i
                cases i with
                | zero => simp
                | succ i =>
                    have := ih i
                    simp only [List.set_cons_succ, List.flatten_cons, List.length_append]
                    omega
          have := ih i
          have := hflatten places i
          rw [List.set_cons_succ, rank, rank]
          omega

end Conveyor

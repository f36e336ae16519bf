import Mathlib.Data.Nat.Periodic
import Mathlib.Data.Set.Card
import Mathlib.Data.Set.Finite.List
import Mathlib.Data.Set.Prod

/-!
# Rejection sampling

Draws are made until one is accepted, and the result is made of that one, `firstAccepted`.

* Of as many numbers in a row as a multiple of `bound`, equally many have each remainder,
  `card_residue`.
* When two results are made of equally many accepted draws, equally many sequences of draws lead
  to them, `ncard_drawsFor`.
-/

universe u v

namespace Sampling

open Finset

/-! ### Remainders -/

/-- Of the first `bound` numbers, one has each remainder. -/
theorem count_residue {bound r : ℕ} (hr : r < bound) :
  bound.count (fun v => v % bound = r) = 1
  := by
  rw [Nat.count_eq_card_filter_range, card_eq_one]
  use r
  ext v
  rw [mem_filter, mem_range, mem_singleton]
  constructor
  · rintro ⟨hv, rfl⟩
    exact (Nat.mod_eq_of_lt hv).symm
  · rintro rfl
    exact ⟨hr, Nat.mod_eq_of_lt hr⟩

/-- Of `bound * n` numbers in a row, `n` have each remainder. -/
theorem card_residue {bound r : ℕ} (hr : r < bound) (start n : ℕ) :
  #{v ∈ Ico start (start + bound * n) | v % bound = r} = n
  := by
  induction n with
  | zero => simp
  | succ n ih =>
      have hperiod := Nat.filter_Ico_card_eq_of_periodic (start + bound * n) bound
        (fun v => v % bound = r) (fun v => by simp only [Nat.add_mod_right])
      rw [count_residue hr] at hperiod
      rw [Nat.mul_succ, ← Nat.add_assoc, ← Ico_union_Ico_eq_Ico (Nat.le_add_right start (bound * n))
        (Nat.le_add_right _ bound), filter_union, card_union_of_disjoint, ih, hperiod]
      apply disjoint_filter_filter
      apply Ico_disjoint_Ico_consecutive

/-! ### Draws -/

variable {α : Type u} {β : Type v} {accept : α → Bool} {out : α → β}

/-- What is made of the first draw that is accepted, if any. -/
def firstAccepted (accept : α → Bool) (out : α → β) (draws : List α) : Option β :=
  (draws.find? accept).map out

theorem firstAccepted_cons (x : α) (draws : List α) :
  firstAccepted accept out (x :: draws)
    = if accept x then some (out x) else firstAccepted accept out draws
  := by
  rw [firstAccepted, List.find?_cons]
  cases accept x <;> rfl

/-- The sequences of `n` draws that lead to the result `b`. -/
def drawsFor (accept : α → Bool) (out : α → β) (n : ℕ) (b : β) : Set (List α) :=
  {draws | draws.length = n ∧ firstAccepted accept out draws = some b}

/-- A sequence that leads to a result starts with a draw of which it is made, or with a draw that
is not accepted and goes on with a sequence that leads to it. -/
theorem drawsFor_succ (n : ℕ) (b : β) :
  drawsFor accept out (n + 1) b
    = (fun x => x.1 :: x.2) ''
      ({x | accept x = true ∧ out x = b} ×ˢ {draws | draws.length = n}
        ∪ {x | accept x = false} ×ˢ drawsFor accept out n b)
  := by
  ext draws
  constructor
  · rintro ⟨hlength, hfirst⟩
    obtain ⟨x, draws, rfl⟩ := List.exists_cons_of_length_eq_add_one hlength
    refine ⟨(x, draws), ?_, rfl⟩
    rw [firstAccepted_cons] at hfirst
    cases hx : accept x with
    | true =>
        rw [if_pos hx] at hfirst
        left
        exact ⟨⟨hx, Option.some.inj hfirst⟩, Nat.succ.inj hlength⟩
    | false =>
        rw [if_neg (by simp [hx])] at hfirst
        right
        exact ⟨hx, Nat.succ.inj hlength, hfirst⟩
  · rintro ⟨⟨x, draws⟩, ⟨⟨hx, rfl⟩, hlength⟩ | ⟨hx, hlength, hfirst⟩, rfl⟩
    · constructor
      · apply congrArg Nat.succ hlength
      · rw [firstAccepted_cons, if_pos hx]
    · constructor
      · apply congrArg Nat.succ hlength
      · have hx' : accept x = false := hx
        rw [firstAccepted_cons, if_neg (by simp [hx']), hfirst]

theorem drawsFor_finite [Finite α] (n : ℕ) (b : β) :
  (drawsFor accept out n b).Finite
  := (List.finite_length_eq α n).subset fun _ h => h.1

theorem ncard_drawsFor_succ [Finite α] (n : ℕ) (b : β) :
  (drawsFor accept out (n + 1) b).ncard
    = Set.ncard {x | accept x = true ∧ out x = b} * Set.ncard {draws : List α | draws.length = n}
      + Set.ncard {x | accept x = false} * (drawsFor accept out n b).ncard
  := by
  have hcons : Function.Injective fun x : α × List α => x.1 :: x.2 := by
    rintro ⟨x, draws⟩ ⟨y, draws'⟩ h
    apply Prod.ext (List.cons.inj h).1 (List.cons.inj h).2
  have hdisjoint : Disjoint
      ({x | accept x = true ∧ out x = b} ×ˢ {draws : List α | draws.length = n})
      ({x | accept x = false} ×ˢ drawsFor accept out n b) := by
    rw [Set.disjoint_left]
    rintro ⟨x, draws⟩ ⟨⟨hx, -⟩, -⟩ ⟨hx', -⟩
    exact absurd (hx.symm.trans hx') (by decide)
  have haccepted := (Set.toFinite {x | accept x = true ∧ out x = b}).prod
    (List.finite_length_eq α n)
  have hrejected : ({x | accept x = false} ×ˢ drawsFor accept out n b).Finite :=
    (Set.toFinite _).prod (drawsFor_finite n b)
  rw [drawsFor_succ, Set.ncard_image_of_injective _ hcons,
    Set.ncard_union_eq hdisjoint haccepted hrejected, Set.ncard_prod, Set.ncard_prod]

/-- Results that are made of equally many draws come from equally many sequences. -/
theorem ncard_drawsFor
    [Finite α] {b b' : β}
    (h : Set.ncard {x | accept x = true ∧ out x = b}
      = Set.ncard {x | accept x = true ∧ out x = b'}) (n : ℕ) :
  (drawsFor accept out n b).ncard = (drawsFor accept out n b').ncard
  := by
  induction n with
  | zero =>
      have hempty : ∀ b, drawsFor accept out 0 b = ∅ := by
        intro b
        rw [Set.eq_empty_iff_forall_notMem]
        rintro draws ⟨hlength, hfirst⟩
        rw [List.eq_nil_of_length_eq_zero hlength] at hfirst
        cases hfirst
      rw [hempty, hempty]
  | succ n ih => rw [ncard_drawsFor_succ, ncard_drawsFor_succ, h, ih]

end Sampling

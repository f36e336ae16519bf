import Mathlib.Algebra.Order.Field.Basic
import Mathlib.Algebra.Order.Field.Rat
import Mathlib.Tactic.FieldSimp
import Mathlib.Tactic.IntervalCases
import Mathlib.Tactic.Linarith
import Mathlib.Tactic.NormNum
import Mathlib.Tactic.Ring
import Mathlib.Topology.Instances.Real.Lemmas
import Mathlib.Topology.Order.IntermediateValue

/-!
# Bisection

`numerical_bisect` of `simulation/numerical.c`, in exact arithmetic: a `double` is an element of
an ordered field.

A midpoint that is an exact root becomes the left end of the bracket.  The product of the values
at the next midpoint and at the left end is then zero, so that the left end moves on, past the
root, and the function need not change its sign on the bracket any more.  The bracket that is
left has a change of sign exactly when the loop comes upon one later, `BisectKeeps`.
-/

namespace CTemplate

variable {F : Type} [Field F] [LinearOrder F]

/-- The variables `a` and `b` of the loop. -/
structure Bracket (F : Type) where
  a : F
  b : F

/-- The midpoint of a bracket. -/
def Bracket.mid (s : Bracket F) : F :=
  (s.a + s.b) / 2

/-- A turn of the loop. -/
def bisectTurn (f : F → F) (s : Bracket F) : Bracket F :=
  if f s.mid * f s.a < 0 then { s with b := s.mid } else { s with a := s.mid }

/-- `max_iter` -/
def bisectMaxIter : ℕ := 80

/-- The loop, where `count` is `left` less than `max_iter`: the bracket and `count` at its end. -/
def bisectLoop (f : F → F) (tol : F) : ℕ → Bracket F → ℕ → Bracket F × ℕ
  | 0, s, count => (s, count)
  | left + 1, s, count =>
      if tol < s.b - s.a then bisectLoop f tol left (bisectTurn f s) (count + 1)
      else (s, count)

/-- The bracket held when the loop ends. -/
def finalBracket (f : F → F) (a b tol : F) : Bracket F :=
  (bisectLoop f tol bisectMaxIter ⟨a, b⟩ 0).1

/-- `numerical_bisect`: the value returned and the number of iterations. -/
def numericalBisect (f : Option (F → F)) (a b tol : F) : F × ℕ :=
  match f with
  | none => (a, 0)
  | some f =>
      if 0 < tol then
        let (s, count) := bisectLoop f tol bisectMaxIter ⟨a, b⟩ 0
        ((s.a + s.b) / 2, count)
      else (a, 0)

/-! ### The number of turns -/

/-- The number of turns, at most `left`, that halve a width `w` until it is at most `tol`. -/
def bisectTurns (tol : F) : ℕ → F → ℕ
  | 0, _ => 0
  | left + 1, w => if tol < w then bisectTurns tol left (w / 2) + 1 else 0

section Width

variable [IsStrictOrderedRing F] {f : F → F} {tol : F}

/-- A turn halves the width. -/
theorem bisectTurn_width (f : F → F) (s : Bracket F) :
  (bisectTurn f s).b - (bisectTurn f s).a = (s.b - s.a) / 2
  := by
  rw [bisectTurn]
  split
  · rw [Bracket.mid]
    ring
  · rw [Bracket.mid]
    ring

/-- The loop makes as many turns as the width and the tolerance say. -/
theorem bisectLoop_eq (f : F → F) (tol : F) (left : ℕ) (s : Bracket F) (count : ℕ) :
  bisectLoop f tol left s count
    = ((bisectTurn f)^[bisectTurns tol left (s.b - s.a)] s,
        count + bisectTurns tol left (s.b - s.a))
  := by
  induction left generalizing s count with
  | zero => rfl
  | succ left ih =>
    rw [bisectLoop, bisectTurns]
    split
    · rw [ih, bisectTurn_width, Function.iterate_succ_apply]
      simp only [Prod.mk.injEq, true_and]
      omega
    · rfl

/-- The turns made are those for which the width is still above the tolerance. -/
theorem lt_bisectTurns_iff (htol : 0 < tol) (left : ℕ) (w : F) (n : ℕ) :
  n < bisectTurns tol left w ↔ n < left ∧ tol < w / 2 ^ n
  := by
  induction left generalizing w n with
  | zero => simp [bisectTurns]
  | succ left ih =>
    rw [bisectTurns]
    split
    case isTrue hw =>
      cases n with
      | zero => simp [hw]
      | succ n =>
        rw [Nat.succ_lt_succ_iff, ih, Nat.succ_lt_succ_iff, div_div, ← pow_succ']
    case isFalse hw =>
      have hle : w / 2 ^ n ≤ tol := by
        rw [not_lt] at hw
        apply (div_le_iff₀ (by positivity)).mpr
        apply hw.trans (le_mul_of_one_le_right htol.le _)
        apply one_le_pow₀ one_le_two
      simp [hle]

end Width

/-! ### The bracket stays in the interval -/

section Bracket

variable [IsStrictOrderedRing F] {f : F → F} {tol : F} {s : Bracket F}

/-- A turn keeps one end of the bracket and moves the other one inside it. -/
theorem bisectTurn_within (f : F → F) (h : s.a ≤ s.b) :
  s.a ≤ (bisectTurn f s).a ∧ (bisectTurn f s).a ≤ (bisectTurn f s).b
    ∧ (bisectTurn f s).b ≤ s.b
  := by
  have hleft : s.a ≤ s.mid := by
    rw [Bracket.mid]
    linarith
  have hright : s.mid ≤ s.b := by
    rw [Bracket.mid]
    linarith
  rw [bisectTurn]
  split
  · exact ⟨le_rfl, hleft, hright⟩
  · exact ⟨hleft, hright, le_rfl⟩

theorem iterate_bisectTurn_within (f : F → F) (n : ℕ) (h : s.a ≤ s.b) :
  s.a ≤ ((bisectTurn f)^[n] s).a ∧ ((bisectTurn f)^[n] s).a ≤ ((bisectTurn f)^[n] s).b
    ∧ ((bisectTurn f)^[n] s).b ≤ s.b
  := by
  induction n generalizing s with
  | zero => exact ⟨le_rfl, h, le_rfl⟩
  | succ n ih =>
    obtain ⟨ha, hab, hb⟩ := bisectTurn_within f h
    obtain ⟨ha', hab', hb'⟩ := ih hab
    rw [Function.iterate_succ_apply]
    exact ⟨ha.trans ha', hab', hb'.trans hb⟩

end Bracket

/-! ### The change of sign -/

/-- Some point among the first `n` at which halving an interval from `m` towards `b` arrives is a
root or has the other sign than `b`. -/
def CrossesBeyond (f : F → F) (m b : F) (n : ℕ) : Prop :=
  ∃ i, 1 ≤ i ∧ i ≤ n ∧ f (b - (b - m) / 2 ^ i) * f b ≤ 0

/-- Every midpoint of the next `n` turns that is a root is that of the last turn, or the turns
after it come upon a root or upon a value of the other sign than at the right end. -/
def BisectKeeps (f : F → F) (n : ℕ) (s : Bracket F) : Prop :=
  ∀ k < n, f ((bisectTurn f)^[k] s).mid = 0 →
    k + 1 = n
      ∨ CrossesBeyond f ((bisectTurn f)^[k] s).mid ((bisectTurn f)^[k] s).b (n - (k + 1))

section Sign

variable {f : F → F} {s : Bracket F}

theorem not_crossesBeyond_zero (f : F → F) (m b : F) :
  ¬CrossesBeyond f m b 0
  := by
  rintro ⟨i, hi, hi', -⟩
  omega

/-- The first of the points is the midpoint, and the others are those beyond it. -/
theorem crossesBeyond_succ [IsStrictOrderedRing F] (f : F → F) (m b : F) (n : ℕ) :
  CrossesBeyond f m b (n + 1)
    ↔ f ((m + b) / 2) * f b ≤ 0 ∨ CrossesBeyond f ((m + b) / 2) b n
  := by
  have hfirst : b - (b - m) / 2 ^ 1 = (m + b) / 2 := by
    ring
  have hnext (i : ℕ) : b - (b - m) / 2 ^ (i + 1) = b - (b - (m + b) / 2) / 2 ^ i := by
    rw [pow_succ]
    field_simp
    ring
  constructor
  · rintro ⟨i, hi, hle, h⟩
    obtain ⟨i, rfl⟩ := Nat.exists_eq_add_of_le' hi
    cases i with
    | zero =>
      left
      rwa [← hfirst]
    | succ i =>
      right
      use i + 1, by omega, by omega
      rwa [← hnext]
  · rintro (h | ⟨i, hi, hle, h⟩)
    · use 1, le_rfl, by omega
      rwa [hfirst]
    · use i + 1, by omega, by omega
      rwa [hnext]

theorem bisectKeeps_zero (f : F → F) (s : Bracket F) :
  BisectKeeps f 0 s
  := by
  intro k hk
  omega

theorem bisectKeeps_succ (f : F → F) (n : ℕ) (s : Bracket F) :
  BisectKeeps f (n + 1) s
    ↔ (f s.mid = 0 → n = 0 ∨ CrossesBeyond f s.mid s.b n) ∧ BisectKeeps f n (bisectTurn f s)
  := by
  rw [BisectKeeps, Nat.forall_lt_succ_left]
  simp only [Function.iterate_zero, id_eq, zero_add, Function.iterate_succ_apply,
    Nat.add_sub_add_right, Nat.add_sub_cancel, Nat.add_right_cancel_iff, BisectKeeps]
  rw [eq_comm (a := 1)]
  simp

/-- The value at the right end of the bracket stays away from zero. -/
theorem bisectTurn_right_ne_zero (hb : f s.b ≠ 0) :
  f (bisectTurn f s).b ≠ 0
  := by
  rw [bisectTurn]
  split
  case isTrue h =>
    intro hzero
    rw [hzero, zero_mul] at h
    apply lt_irrefl _ h
  case isFalse => exact hb

/-- Whether the bracket has a change of sign in `n` turns: it has one now, or it holds a root at
its left end and no turn is left, or the turns come upon one. -/
def WillChangeSign (f : F → F) (n : ℕ) (s : Bracket F) : Prop :=
  f s.a * f s.b < 0 ∨ (n = 0 ∧ f s.a * f s.b ≤ 0) ∨ CrossesBeyond f s.a s.b n

/-- A value with the sign of a second one has the sign that the second one has against a third
one. -/
theorem mul_neg_of_mul_pos
    [IsStrictOrderedRing F] {x y z : F} (hxy : 0 < x * y) (hyz : y * z < 0) :
  x * z < 0
  := by
  have hneg : x * y * (y * z) < 0 := mul_neg_of_pos_of_neg hxy hyz
  have hsquare : x * y * (y * z) = x * z * (y * y) := by
    ring
  rw [hsquare] at hneg
  apply neg_of_mul_neg_left hneg (mul_self_nonneg y)

/-- A turn that is not at a root keeps `WillChangeSign`. -/
theorem willChangeSign_turn
    [IsStrictOrderedRing F] {n : ℕ} (hb : f s.b ≠ 0) (hmid : f s.mid ≠ 0) :
  WillChangeSign f n (bisectTurn f s) ↔ WillChangeSign f (n + 1) s
  := by
  have hstrict : f s.mid * f s.b ≤ 0 ↔ f s.mid * f s.b < 0 :=
    (mul_ne_zero hmid hb).le_iff_lt
  rw [WillChangeSign, WillChangeSign, crossesBeyond_succ, ← Bracket.mid, hstrict, bisectTurn]
  split
  case isTrue h =>
    have hturn : f s.a * f s.mid < 0 := by
      rwa [mul_comm]
    have hnow : f s.a * f s.b < 0 ∨ f s.mid * f s.b < 0 := by
      by_cases hpos : 0 < f s.b * f s.a
      · right
        rw [mul_comm]
        apply mul_neg_of_mul_pos hpos hturn
      · left
        rw [mul_comm]
        apply lt_of_le_of_ne (not_lt.mp hpos)
        apply mul_ne_zero hb (right_ne_zero_of_mul h.ne)
    constructor
    · rintro -
      apply hnow.imp_right
      intro hneg
      exact .inr (.inl hneg)
    · rintro -
      exact .inl hturn
  case isFalse h =>
    have hmove : f s.a * f s.b < 0 → f s.mid * f s.b < 0 := by
      intro hneg
      apply mul_neg_of_mul_pos _ hneg
      apply lt_of_le_of_ne (not_lt.mp h)
      apply (mul_ne_zero hmid (left_ne_zero_of_mul hneg.ne)).symm
    constructor
    · rintro (hneg | ⟨-, hle⟩ | hcross)
      · exact .inr (.inr (.inl hneg))
      · exact .inr (.inr (.inl (hstrict.mp hle)))
      · exact .inr (.inr (.inr hcross))
    · rintro (hneg | ⟨hzero, -⟩ | hneg | hcross)
      · exact .inl (hmove hneg)
      · omega
      · exact .inl hneg
      · exact .inr (.inr hcross)

/-- After a turn at a root, `WillChangeSign` says whether the root is kept. -/
theorem willChangeSign_root
    {n : ℕ} (hmid : f s.mid = 0) :
  WillChangeSign f n (bisectTurn f s) ↔ n = 0 ∨ CrossesBeyond f s.mid s.b n
  := by
  have hturn : bisectTurn f s = { s with a := s.mid } := by
    apply if_neg
    rw [hmid, zero_mul]
    apply lt_irrefl
  rw [WillChangeSign, hturn]
  simp [hmid]

/-- The bracket has a change of sign, or a root at its left end, after `n` turns exactly when it
comes upon one and `BisectKeeps` holds. -/
theorem iterate_bisectTurn_sign_iff
    [IsStrictOrderedRing F] (hb : f s.b ≠ 0) (n : ℕ) :
  f ((bisectTurn f)^[n] s).a * f ((bisectTurn f)^[n] s).b ≤ 0
    ↔ WillChangeSign f n s ∧ BisectKeeps f n s
  := by
  induction n generalizing s with
  | zero =>
    have hkeeps := bisectKeeps_zero f s
    have hcross := not_crossesBeyond_zero f s.a s.b
    simp only [Function.iterate_zero, id_eq, WillChangeSign, hcross, hkeeps, true_and, or_false,
      and_true]
    constructor
    · intro hle
      exact .inr hle
    · rintro (hneg | hle)
      · exact hneg.le
      · exact hle
  | succ n ih =>
    rw [Function.iterate_succ_apply, ih (bisectTurn_right_ne_zero hb), bisectKeeps_succ]
    by_cases hmid : f s.mid = 0
    · have hnow : WillChangeSign f (n + 1) s := by
        apply Or.inr ∘ Or.inr
        rw [crossesBeyond_succ, ← Bracket.mid, hmid, zero_mul]
        exact .inl le_rfl
      rw [willChangeSign_root hmid]
      tauto
    · rw [willChangeSign_turn hb hmid]
      tauto

end Sign

/-! ### The bracket at the end -/

section Final

variable [IsStrictOrderedRing F] {f : F → F} {a b tol : F}

theorem finalBracket_eq (f : F → F) (a b tol : F) :
  finalBracket f a b tol
    = (bisectTurn f)^[bisectTurns tol bisectMaxIter (b - a)] ⟨a, b⟩
  := by
  rw [finalBracket, bisectLoop_eq]

/-- `numerical_bisect` returns the midpoint of the bracket held when the loop ends. -/
theorem numericalBisect_eq (f : F → F) (a b : F) (htol : 0 < tol) :
  numericalBisect (some f) a b tol
    = ((finalBracket f a b tol).mid, bisectTurns tol bisectMaxIter (b - a))
  := by
  rw [numericalBisect, if_pos htol, finalBracket, bisectLoop_eq]
  simp only [Bracket.mid, zero_add]

/-- The function has a root between any two points at which its values differ in sign. -/
def HasIntermediateRoots (f : F → F) : Prop :=
  ∀ u v, u ≤ v → f u * f v ≤ 0 → ∃ r, u ≤ r ∧ r ≤ v ∧ f r = 0

/-- The bracket held when the loop ends lies in `[a, b]`, and the function changes its sign on
it. -/
structure BracketsRoot (f : F → F) (a b : F) (s : Bracket F) : Prop where
  left_le : a ≤ s.a
  le : s.a ≤ s.b
  le_right : s.b ≤ b
  sign : f s.a * f s.b ≤ 0

/-- A root is within half the width of the bracket of its midpoint. -/
theorem BracketsRoot.exists_root
    {s : Bracket F} (h : BracketsRoot f a b s) (hroots : HasIntermediateRoots f) :
  ∃ r, f r = 0 ∧ |r - s.mid| ≤ (s.b - s.a) / 2
  := by
  obtain ⟨r, hle, hle', hr⟩ := hroots s.a s.b h.le h.sign
  use r, hr
  rw [Bracket.mid, abs_le]
  constructor <;> linarith

/-- For a function that changes its sign on `[a, b]`, the bracket held when the loop ends has a
change of sign exactly when `BisectKeeps` holds for the turns of the loop, and then a root lies
within half its width of the value returned. -/
theorem finalBracket_bracketsRoot_iff
    (f : F → F) (hab : a < b) (hsign : f a * f b < 0) (htol : 0 < tol) :
  (BracketsRoot f a b (finalBracket f a b tol)
      ↔ BisectKeeps f (bisectTurns tol bisectMaxIter (b - a)) ⟨a, b⟩)
    ∧ (BracketsRoot f a b (finalBracket f a b tol) → HasIntermediateRoots f →
        ∃ r, f r = 0
          ∧ |r - (numericalBisect (some f) a b tol).1|
            ≤ ((finalBracket f a b tol).b - (finalBracket f a b tol).a) / 2)
  := by
  have hb : f (Bracket.mk a b).b ≠ 0 := right_ne_zero_of_mul hsign.ne
  constructor
  · have hiff := iterate_bisectTurn_sign_iff hb (bisectTurns tol bisectMaxIter (b - a))
    rw [← finalBracket_eq] at hiff
    have hwill : WillChangeSign f (bisectTurns tol bisectMaxIter (b - a)) ⟨a, b⟩ := .inl hsign
    constructor
    · intro h
      exact (hiff.mp h.sign).2
    · intro hkeeps
      obtain ⟨hleft, hle, hright⟩ := iterate_bisectTurn_within f
        (bisectTurns tol bisectMaxIter (b - a)) (s := ⟨a, b⟩) hab.le
      rw [← finalBracket_eq] at hleft hle hright
      exact ⟨hleft, hle, hright, hiff.mpr ⟨hwill, hkeeps⟩⟩
  · intro h hroots
    rw [numericalBisect_eq f a b htol]
    apply h.exists_root hroots

/-- The identity on `[-1, 2]`, whose midpoints `1/2` and `-1/4` are no roots. -/
theorem finalBracket_id_bracketsRoot :
  BracketsRoot id (-1 : ℚ) 2 (finalBracket id (-1) 2 1)
  := by
  apply (finalBracket_bracketsRoot_iff (id : ℚ → ℚ) (by norm_num) (by norm_num)
    (by norm_num)).1.mpr
  have hturns : bisectTurns (1 : ℚ) bisectMaxIter (2 - -1) = 2 := by
    rw [bisectMaxIter, bisectTurns, if_pos (by norm_num), bisectTurns, if_pos (by norm_num),
      bisectTurns, if_neg (by norm_num)]
  rw [hturns]
  intro k hk hroot
  interval_cases k <;> norm_num [bisectTurn, Bracket.mid] at hroot

/-- The identity on `[-1, 1]`, whose first midpoint is its root: the loop ends with the bracket
`[1/2, 1]` and returns `3/4`. -/
theorem finalBracket_id_loses_root :
  (-1 : ℚ) < 1 ∧ id (-1 : ℚ) * id 1 < 0 ∧ (0 : ℚ) < 1 / 2
    ∧ finalBracket id (-1 : ℚ) 1 (1 / 2) = ⟨1 / 2, 1⟩
    ∧ numericalBisect (some id) (-1 : ℚ) 1 (1 / 2) = (3 / 4, 2)
    ∧ ¬BracketsRoot id (-1 : ℚ) 1 (finalBracket id (-1) 1 (1 / 2))
  := by
  have hturns : bisectTurns (1 / 2 : ℚ) bisectMaxIter (1 - -1) = 2 := by
    rw [bisectMaxIter, bisectTurns, if_pos (by norm_num), bisectTurns, if_pos (by norm_num),
      bisectTurns, if_neg (by norm_num)]
  have hbracket : finalBracket id (-1 : ℚ) 1 (1 / 2) = ⟨1 / 2, 1⟩ := by
    rw [finalBracket_eq, hturns]
    norm_num [bisectTurn, Bracket.mid]
  have hvalue : numericalBisect (some id) (-1 : ℚ) 1 (1 / 2) = (3 / 4, 2) := by
    rw [numericalBisect_eq _ _ _ (by norm_num), hbracket, hturns]
    norm_num [Bracket.mid]
  refine ⟨by norm_num, by norm_num, by norm_num, hbracket, hvalue, ?_⟩
  rw [hbracket]
  intro h
  have hsign := h.sign
  norm_num at hsign

/-- A continuous function on the real numbers has a root between any two points at which its
values differ in sign. -/
theorem hasIntermediateRoots_of_continuous {f : ℝ → ℝ} (hf : Continuous f) :
  HasIntermediateRoots f
  := by
  intro u v huv hsign
  have hzero : (0 : ℝ) ∈ Set.uIcc (f u) (f v) := by
    rw [Set.mem_uIcc]
    rcases mul_nonpos_iff.mp hsign with ⟨hu, hv⟩ | ⟨hu, hv⟩
    · exact .inr ⟨hv, hu⟩
    · exact .inl ⟨hu, hv⟩
  obtain ⟨r, hr, hroot⟩ := intermediate_value_uIcc hf.continuousOn hzero
  rw [Set.uIcc_of_le huv] at hr
  exact ⟨r, hr.1, hr.2, hroot⟩

end Final

end CTemplate

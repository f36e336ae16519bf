import Mathlib.Data.List.Basic

/-!
# Routes through stacks of names

A place is a stack of names, the last one on top.  A route is a list of moves, each of which
goes up, dropping the top of the stack, or down, to a name put on top; going up from the
empty stack leaves it empty.

`Normal` is the form `ups` times up and then down along `names`.  Every route has a normal
form that acts as the route does, computed move by move by `Normal.step`, and normal forms
that act alike on all stacks over two names are equal, `Normal.ext_of_act`.  A rooted route
starts at the empty stack, where going up does nothing.
-/

namespace Route

universe u

variable {α : Type u}

/-- A move: up, or down to a name. -/
inductive Move (α : Type u) where
  | up
  | down (a : α)
  deriving DecidableEq

/-- The place that a move leads to. -/
def Move.act (s : List α) : Move α → List α
  | up => s.dropLast
  | down a => s ++ [a]

/-- The place that a route leads to. -/
def act (s : List α) (route : List (Move α)) : List α :=
  route.foldl Move.act s

/-- Up a number of times, then down along some names. -/
@[ext]
structure Normal (α : Type u) where
  ups : ℕ
  names : List α
  deriving DecidableEq

namespace Normal

/-- The normal form of the route that stays. -/
def here : Normal α := ⟨0, []⟩

/-- The number of moves of a normal form. -/
def size (n : Normal α) : ℕ := n.ups + n.names.length

/-- The place that a normal form leads to. -/
def act (s : List α) (n : Normal α) : List α :=
  s.take (s.length - n.ups) ++ n.names

/-- The normal form of a route with one more move; at the root, `rooted`, going up does
nothing. -/
def step (rooted : Bool) (n : Normal α) : Move α → Normal α
  | .up =>
      if n.names = [] then
        if rooted then n else ⟨n.ups + 1, []⟩
      else ⟨n.ups, n.names.dropLast⟩
  | .down a => ⟨n.ups, n.names ++ [a]⟩

/-- The same as `step` as long as the normal form has at most `limit` moves. -/
def stepWithin (limit : ℕ) (rooted : Bool) (n : Normal α) (m : Move α) : Option (Normal α) :=
  if (n.step rooted m).size ≤ limit then some (n.step rooted m) else none

/-- The moves of a normal form. -/
def moves (n : Normal α) : List (Move α) :=
  List.replicate n.ups .up ++ n.names.map .down

/-- A normal form that never goes up when it is rooted. -/
def Proper (rooted : Bool) (n : Normal α) : Prop :=
  rooted = true → n.ups = 0

@[simp]
theorem act_here (s : List α) :
  here.act s = s
  := by
  simp [act, here]

/-- A rooted route starts at the empty stack, any other one at `s`. -/
def base (rooted : Bool) (s : List α) : List α :=
  if rooted then [] else s

theorem proper_here (rooted : Bool) : (here : Normal α).Proper rooted := fun _ => rfl

theorem Proper.step {rooted : Bool} {n : Normal α} (h : n.Proper rooted) (m : Move α) :
  (n.step rooted m).Proper rooted
  := by
  intro hroot
  cases m with
  | up =>
      rw [Normal.step]
      split
      · simpa [hroot] using h hroot
      · apply h hroot
  | down a => apply h hroot

/-- A normal form with one more move leads where that move leads from its place. -/
theorem act_step (rooted : Bool) (s : List α) (n : Normal α) (m : Move α) :
  (n.step rooted m).act (base rooted s) = m.act (n.act (base rooted s))
  := by
  generalize hs : base rooted s = t
  cases m with
  | down a =>
      simp only [step, act, Move.act]
      rw [List.append_assoc]
  | up =>
      simp only [step, Move.act]
      split
      · case isTrue hnames =>
          simp only [act, hnames, List.append_nil]
          split
          · case isTrue hroot =>
              obtain rfl : [] = t := by simpa [base, hroot] using hs
              simp [hnames]
          · rw [List.dropLast_eq_take, List.take_take, List.length_take, List.append_nil]
            congr 1
            dsimp only
            omega
      · case isFalse hnames =>
          simp only [act]
          rw [List.dropLast_append_of_ne_nil hnames]

/-- A normal form from which the moves of a route never exceed the limit leads to one where
the route leads. -/
theorem act_of_foldlM
    {limit : ℕ} {rooted : Bool} {n n' : Normal α} {route : List (Move α)}
    (h : route.foldlM (stepWithin limit rooted) n = some n') (s : List α) :
  n'.act (base rooted s) = Route.act (n.act (base rooted s)) route
  := by
  induction route generalizing n with
  | nil =>
      obtain rfl : n = n' := by simpa using h
      rfl
  | cons m route ih =>
      rw [List.foldlM_cons, Option.bind_eq_bind, Option.bind_eq_some_iff] at h
      obtain ⟨k, hk, h⟩ := h
      rw [stepWithin, Option.ite_none_right_eq_some] at hk
      obtain rfl := Option.some.inj hk.2
      rw [ih h, act_step, Route.act, Route.act, List.foldl_cons]

/-- A rooted normal form leads to its names, wherever one is. -/
theorem Proper.act_root {n : Normal α} (h : n.Proper true) (s : List α) :
  n.act (base true s) = n.names
  := by
  simp [act, base, h rfl]

/-- From `k` copies of a name, a normal form leads to those it leaves followed by its
names. -/
theorem act_replicate (n : Normal α) (k : ℕ) (a : α) :
  n.act (List.replicate k a) = List.replicate (k - n.ups) a ++ n.names
  := by
  rw [act, List.length_replicate, List.take_replicate, Nat.min_eq_left (Nat.sub_le k n.ups)]

/-- If one normal form goes up less often than another but both act alike on all stacks over
two names, a name stands at two places. -/
theorem not_lt_of_act_eq
    {n m : Normal α} {a b : α} (hab : a ≠ b)
    (h : ∀ c ∈ [a, b], ∀ k, n.act (List.replicate k c) = m.act (List.replicate k c)) :
  ¬ n.ups < m.ups
  := by
  intro hlt
  have hnames : ∀ c ∈ [a, b], m.names = List.replicate (m.ups - n.ups) c ++ n.names := by
    intro c hc
    have hact := h c hc m.ups
    rw [act_replicate, act_replicate, Nat.sub_self] at hact
    exact hact.symm
  have heq := (hnames a (by simp)).symm.trans (hnames b (by simp))
  rw [List.append_left_inj, List.replicate_inj] at heq
  rcases heq.2 with hzero | h
  · omega
  · exact hab h

/-- Normal forms that act alike on all stacks over two names are equal. -/
theorem ext_of_act
    {n m : Normal α} {a b : α} (hab : a ≠ b)
    (h : ∀ c ∈ [a, b], ∀ k, n.act (List.replicate k c) = m.act (List.replicate k c)) :
  n = m
  := by
  have hle := not_lt_of_act_eq hab h
  have hge := not_lt_of_act_eq hab fun c hc k => (h c hc k).symm
  have hups : n.ups = m.ups := by omega
  have hact := h a (by simp) n.ups
  rw [act_replicate, act_replicate, ← hups, List.append_right_inj] at hact
  ext1
  · exact hups
  · exact hact

/-- A rooted normal form and one that is not act differently on large enough stacks. -/
theorem exists_act_ne (n m : Normal α) (a : α) :
  ∃ k, n.names ≠ m.act (List.replicate k a)
  := by
  use m.ups + n.names.length + 1
  intro heq
  have hlength := congrArg List.length heq
  rw [act_replicate, List.length_append, List.length_replicate] at hlength
  omega

/-- Going up `k` times, when that is within the limit. -/
theorem foldlM_replicate_up {limit k : ℕ} (hk : k ≤ limit) :
  (List.replicate k Move.up).foldlM (stepWithin limit false) here = some (⟨k, []⟩ : Normal α)
  := by
  induction k with
  | zero => rfl
  | succ k ih =>
      have hsize : ((⟨k, []⟩ : Normal α).step false .up).size ≤ limit := by
        simpa [step, size] using hk
      rw [List.replicate_succ', List.foldlM_append, ih (by omega), Option.bind_eq_bind,
        Option.bind_some, List.foldlM_cons, stepWithin, if_pos hsize]
      rfl

/-- Going down along names, when that is within the limit. -/
theorem foldlM_map_down
    {limit : ℕ} {rooted : Bool} {n : Normal α} {names : List α}
    (h : n.size + names.length ≤ limit) :
  (names.map Move.down).foldlM (stepWithin limit rooted) n = some ⟨n.ups, n.names ++ names⟩
  := by
  induction names generalizing n with
  | nil => simp
  | cons a names ih =>
      have hsize : (n.step rooted (.down a)).size + names.length ≤ limit := by
        simp only [step, size, List.length_append, List.length_cons, List.length_nil] at h ⊢
        omega
      rw [List.map_cons, List.foldlM_cons, stepWithin, if_pos (by omega), Option.bind_eq_bind,
        Option.bind_some, ih hsize]
      simp [step]

/-- The moves of a normal form within the limit give it back. -/
theorem foldlM_moves
    {limit : ℕ} {rooted : Bool} {n : Normal α} (h : n.Proper rooted) (hsize : n.size ≤ limit) :
  n.moves.foldlM (stepWithin limit rooted) here = some n
  := by
  have hups : (List.replicate n.ups Move.up).foldlM (stepWithin limit rooted) here
      = some (⟨n.ups, []⟩ : Normal α) := by
    cases rooted with
    | true =>
        rw [h rfl]
        rfl
    | false =>
        apply foldlM_replicate_up
        rw [size] at hsize
        omega
  rw [moves, List.foldlM_append, hups, Option.bind_eq_bind, Option.bind_some,
    foldlM_map_down hsize, List.nil_append]

end Normal

end Route

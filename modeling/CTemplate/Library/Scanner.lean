import Mathlib.Data.List.Basic

/-!
# Scanners

A scanner looks for something at the start of a text and gives the text after it, or fails.
Scanners are put together from scanners of one element by sequence, choice and option.  A
scanner is local to a separator when it never looks beyond it; the separator then ends
whatever is scanned.
-/

universe u

/-- A scanner of lists over `α`. -/
abbrev Scanner (α : Type u) : Type u :=
  List α → Option (List α)

namespace Scanner

variable {α : Type u}

/-- An element on which `p` holds. -/
def one (p : α → Bool) : Scanner α
  | [] => none
  | x :: s => if p x then some s else none

/-- All elements from the start on which `p` holds. -/
def many (p : α → Bool) : Scanner α :=
  fun s => some (s.dropWhile p)

/-- What `f` scans, followed by what `g` scans. -/
def seq (f g : Scanner α) : Scanner α :=
  fun s => (f s).bind g

/-- What `f` scans, or else what `g` scans. -/
def alt (f g : Scanner α) : Scanner α :=
  fun s => (f s).or (g s)

/-- What `f` scans, or else nothing. -/
def opt (f : Scanner α) : Scanner α :=
  alt f some

/-- Elements that `norm` maps to those of a word. -/
def word [DecidableEq α] (norm : α → α) : List α → Scanner α
  | [] => some
  | c :: w => seq (one fun x => norm x = c) (word norm w)

/-! ### Locality -/

/-- The separator and what follows it do not change what is scanned before it. -/
def Local (sep : α) (f : Scanner α) : Prop :=
  ∀ s t, f (s ++ sep :: t) = (f s).map (· ++ sep :: t)

variable {sep : α} {f g : Scanner α} {p : α → Bool}

theorem local_some : Local sep some :=
  fun _ _ => rfl

theorem local_one (hp : p sep = false) : Local sep (one p) := by
  intro s t
  cases s with
  | nil =>
      rw [List.nil_append, one, one, hp]
      rfl
  | cons x s =>
      rw [List.cons_append, one, one]
      split <;> rfl

theorem dropWhile_append_sep (hp : p sep = false) (s t : List α) :
  (s ++ sep :: t).dropWhile p = s.dropWhile p ++ sep :: t
  := by
  induction s with
  | nil => apply List.dropWhile_cons_of_neg (by simp [hp])
  | cons x s ih =>
      rw [List.cons_append, List.dropWhile_cons, List.dropWhile_cons]
      split
      · exact ih
      · rfl

theorem local_many (hp : p sep = false) : Local sep (many p) := by
  intro s t
  rw [many, many, Option.map_some, dropWhile_append_sep hp]

theorem Local.seq (hf : Local sep f) (hg : Local sep g) : Local sep (seq f g) := by
  intro s t
  rw [Scanner.seq, Scanner.seq, hf]
  cases f s with
  | none => rfl
  | some r => apply hg

theorem Local.alt (hf : Local sep f) (hg : Local sep g) : Local sep (alt f g) := by
  intro s t
  rw [Scanner.alt, Scanner.alt, hf, hg]
  cases f s <;> rfl

theorem Local.opt (hf : Local sep f) : Local sep (opt f) :=
  hf.alt local_some

theorem local_word [DecidableEq α] {norm : α → α} {w : List α} (h : norm sep ∉ w) :
  Local sep (word norm w)
  := by
  induction w with
  | nil => apply local_some
  | cons c w ih =>
      rw [List.mem_cons, not_or] at h
      apply Local.seq
      · apply local_one
        simpa using h.1
      · apply ih h.2

/-! ### Consumption -/

/-- The scanner gives the end of the text. -/
def Shrinks (f : Scanner α) : Prop :=
  ∀ s r, f s = some r → r <:+ s

/-- The scanner gives the end of the text, and never the whole text. -/
def Consumes (f : Scanner α) : Prop :=
  ∀ s r, f s = some r → r <:+ s ∧ r.length < s.length

theorem Consumes.shrinks (hf : Consumes f) : Shrinks f :=
  fun s r h => (hf s r h).1

theorem shrinks_some : Shrinks (some : Scanner α) := by
  intro s r h
  obtain rfl := Option.some.inj h
  apply List.suffix_refl

theorem consumes_one (p : α → Bool) : Consumes (one p) := by
  intro s r h
  cases s with
  | nil => cases h
  | cons x s =>
      rw [one] at h
      split at h
      · obtain rfl := Option.some.inj h
        use List.suffix_cons x s
        apply Nat.lt_succ_self
      · cases h

theorem shrinks_many (p : α → Bool) : Shrinks (many p) := by
  intro s r h
  obtain rfl := Option.some.inj h
  apply List.dropWhile_suffix

theorem Consumes.seq (hf : Consumes f) (hg : Shrinks g) : Consumes (seq f g) := by
  intro s r h
  obtain ⟨u, hu, hr⟩ := Option.bind_eq_some_iff.mp h
  obtain ⟨hsuffix, hlt⟩ := hf s u hu
  use (hg u r hr).trans hsuffix
  apply Nat.lt_of_le_of_lt (hg u r hr).length_le hlt

theorem Shrinks.seq (hf : Shrinks f) (hg : Consumes g) : Consumes (seq f g) := by
  intro s r h
  obtain ⟨u, hu, hr⟩ := Option.bind_eq_some_iff.mp h
  obtain ⟨hsuffix, hlt⟩ := hg u r hr
  use hsuffix.trans (hf s u hu)
  apply Nat.lt_of_lt_of_le hlt (hf s u hu).length_le

theorem Consumes.alt (hf : Consumes f) (hg : Consumes g) : Consumes (alt f g) := by
  intro s r h
  rcases Option.or_eq_some_iff.mp h with h | ⟨-, h⟩
  · apply hf s r h
  · apply hg s r h

theorem Shrinks.opt (hf : Shrinks f) : Shrinks (opt f) := by
  intro s r h
  rcases Option.or_eq_some_iff.mp h with h | ⟨-, h⟩
  · apply hf s r h
  · apply shrinks_some s r h

theorem consumes_word [DecidableEq α] {norm : α → α} {c : α} {w : List α} :
  Consumes (word norm (c :: w))
  := by
  induction w generalizing c with
  | nil => apply (consumes_one _).seq shrinks_some
  | cons d w ih => apply (consumes_one _).seq ih.shrinks

end Scanner

import Mathlib.Data.List.Basic
import Mathlib.Data.List.Induction

/-!
# Reading and writing a buffer

A buffer is a list whose length does not change.  `read buf k n` are the `n` elements from
index `k` on, `write buf k xs` puts `xs` at index `k` and `copy buf dst src n` copies `n`
elements, which may overlap their destination; all give `none` when an index is outside the
buffer.

`layAll buf texts` lays texts over the front of the buffer, one after another.  What shows in the
end is the last text at each place, so the buffer is as it was exactly when that agrees with it,
`layAll_eq_self_iff`.
-/

namespace Buffer

universe u

variable {α : Type u} {buf buf' xs : List α} {k : ℕ}

/-- The `n` elements of the buffer from index `k` on. -/
def read (buf : List α) (k n : ℕ) : Option (List α) :=
  if k + n ≤ buf.length then some ((buf.drop k).take n) else none

/-- The buffer after `xs` was written at index `k`. -/
def write (buf : List α) (k : ℕ) (xs : List α) : Option (List α) :=
  if k + xs.length ≤ buf.length then some (buf.take k ++ (xs ++ buf.drop (k + xs.length)))
  else none

/-- The buffer after `n` elements were copied from index `src` to index `dst`, as `memmove`
does. -/
def copy (buf : List α) (dst src n : ℕ) : Option (List α) :=
  if src + n ≤ buf.length then write buf dst ((buf.drop src).take n) else none

theorem read_eq_some_iff {n : ℕ} :
  read buf k n = some xs ↔ k + n ≤ buf.length ∧ xs.length = n ∧ ∃ rest, buf.drop k = xs ++ rest
  := by
  rw [read, Option.ite_none_right_eq_some, Option.some.injEq]
  constructor
  · rintro ⟨hle, rfl⟩
    refine ⟨hle, ?_, (buf.drop k).drop n, (List.take_append_drop n _).symm⟩
    rw [List.length_take, List.length_drop]
    omega
  · rintro ⟨hle, rfl, rest, hrest⟩
    rw [hrest, List.take_left]
    exact ⟨hle, rfl⟩

/-- What was read is read in two parts. -/
theorem read_append {ys : List α} {n : ℕ} (h : read buf k n = some (xs ++ ys)) :
  read buf k xs.length = some xs ∧ read buf (k + xs.length) ys.length = some ys
  := by
  obtain ⟨hle, hlength, rest, hrest⟩ := read_eq_some_iff.mp h
  rw [List.length_append] at hlength
  constructor
  · rw [read_eq_some_iff]
    refine ⟨by omega, rfl, ys ++ rest, ?_⟩
    rw [hrest, List.append_assoc]
  · rw [read_eq_some_iff]
    refine ⟨by omega, rfl, rest, ?_⟩
    rw [← List.drop_drop, hrest, List.append_assoc, List.drop_left]

/-- The buffer `buf'` is `buf` after `xs` was written at index `k`. -/
structure Wrote (buf : List α) (k : ℕ) (xs buf' : List α) : Prop where
  length_eq : buf'.length = buf.length
  take_eq : buf'.take (k + xs.length) = buf.take k ++ xs
  drop_eq : ∀ {j}, k + xs.length ≤ j → buf'.drop j = buf.drop j

/-- A write within the buffer succeeds. -/
theorem exists_write
    (buf : List α) (k : ℕ) (xs : List α) (h : k + xs.length ≤ buf.length) :
  ∃ buf', write buf k xs = some buf' ∧ Wrote buf k xs buf'
  := by
  have hlength : (buf.take k).length = k := by
    rw [List.length_take]
    omega
  have hfront : (buf.take k ++ xs).length = k + xs.length := by
    rw [List.length_append, hlength]
  rw [write, if_pos h]
  refine ⟨_, rfl, ?_, ?_, ?_⟩
  · simp only [List.length_append, hlength, List.length_drop]
    omega
  · rw [← List.append_assoc, List.take_left' hfront]
  · intro j hj
    rw [← List.append_assoc, List.drop_append, hfront, List.drop_eq_nil_of_le (by omega),
      List.nil_append, List.drop_drop, Nat.add_sub_cancel' hj]

/-- The elements of a buffer after a write. -/
theorem getElem?_write {k : ℕ} (h : write buf k xs = some buf') (j : ℕ) :
  buf'[j]? = if k ≤ j ∧ j < k + xs.length then xs[j - k]? else buf[j]?
  := by
  rw [write] at h
  split at h
  case isFalse => cases h
  case isTrue hle =>
  obtain rfl := Option.some.inj h
  have hlength : (buf.take k).length = k := by
    rw [List.length_take]
    omega
  rw [List.getElem?_append, hlength]
  by_cases hbefore : j < k
  · rw [if_pos hbefore, if_neg (by omega), List.getElem?_take_of_lt hbefore]
  · rw [if_neg hbefore, List.getElem?_append]
    by_cases hin : j < k + xs.length
    · rw [if_pos (by omega), if_pos (by omega)]
    · rw [if_neg (by omega), if_neg (by omega), List.getElem?_drop]
      congr 1
      omega

/-- A write that goes on where the last one ended. -/
theorem write_bind_write (buf : List α) (k : ℕ) (xs ys : List α) :
  ((write buf k xs).bind fun buf' => write buf' (k + xs.length) ys) = write buf k (xs ++ ys)
  := by
  rw [write, write]
  by_cases hxs : k + xs.length ≤ buf.length
  · have hfront : (buf.take k ++ xs).length = k + xs.length := by
      rw [List.length_append, List.length_take]
      omega
    have hwritten : buf.take k ++ (xs ++ buf.drop (k + xs.length))
        = (buf.take k ++ xs) ++ buf.drop (k + xs.length) := (List.append_assoc _ _ _).symm
    have hlength : ((buf.take k ++ xs) ++ buf.drop (k + xs.length)).length = buf.length := by
      rw [List.length_append, hfront, List.length_drop]
      omega
    have hdrop : ((buf.take k ++ xs) ++ buf.drop (k + xs.length)).drop (k + (xs ++ ys).length)
        = buf.drop (k + (xs ++ ys).length) := by
      rw [List.drop_append, hfront, List.drop_eq_nil_of_le, List.nil_append, List.drop_drop]
      · congr 1
        rw [List.length_append]
        omega
      · rw [hfront, List.length_append]
        omega
    have hsum : k + xs.length + ys.length = k + (xs ++ ys).length := by
      rw [List.length_append, Nat.add_assoc]
    rw [if_pos hxs, Option.bind_some, hwritten, write, hlength, List.take_left' hfront, hsum, hdrop,
      List.append_assoc, List.append_assoc]
  · rw [if_neg hxs, Option.bind_none, if_neg (by rw [List.length_append]; omega)]

/-- A copy within the buffer succeeds. -/
theorem exists_copy
    (buf : List α) (dst src n : ℕ) (hsrc : src + n ≤ buf.length) (hdst : dst + n ≤ buf.length) :
  ∃ buf', copy buf dst src n = some buf' ∧ Wrote buf dst ((buf.drop src).take n) buf'
  := by
  have hlength : ((buf.drop src).take n).length = n := by
    rw [List.length_take, List.length_drop]
    omega
  rw [copy, if_pos hsrc]
  apply exists_write
  rwa [hlength]

/-! ### Texts over the front -/

/-- The buffer after `text` was laid over its front. -/
def lay (buf text : List α) : List α :=
  text ++ buf.drop text.length

/-- The buffer after texts were laid over its front one after another. -/
def layAll (buf : List α) (texts : List (List α)) : List α :=
  texts.foldl lay buf

/-- The element of `text` at index `k` is not covered by a later text. -/
def Shows (texts : List (List α)) (text : List α) (k : ℕ) : Prop :=
  ∃ before after, texts = before ++ text :: after ∧ k < text.length
    ∧ ∀ later ∈ after, later.length ≤ k

variable {text : List α} {texts : List (List α)}

theorem getElem?_lay (buf text : List α) (k : ℕ) :
  (lay buf text)[k]? = if k < text.length then text[k]? else buf[k]?
  := by
  rw [lay, List.getElem?_append]
  by_cases h : k < text.length
  · rw [if_pos h, if_pos h]
  · rw [if_neg h, if_neg h, List.getElem?_drop]
    congr 1
    omega

/-- A text that the buffer starts with changes nothing. -/
theorem lay_eq_self (h : buf.take text.length = text) :
  lay buf text = buf
  := by
  rw [lay, ← List.take_append_drop text.length buf, List.drop_append, h, List.drop_length,
    List.nil_append, Nat.sub_self, List.drop_zero]

theorem lay_append (h : text.length ≤ buf.length) (rest : List α) :
  lay (buf ++ rest) text = lay buf text ++ rest
  := by
  rw [lay, lay, List.drop_append_of_le_length h, List.append_assoc]

theorem length_lay (h : text.length ≤ buf.length) :
  (lay buf text).length = buf.length
  := by
  rw [lay, List.length_append, List.length_drop]
  omega

theorem layAll_cons (buf text : List α) (texts : List (List α)) :
  layAll buf (text :: texts) = layAll (lay buf text) texts
  := List.foldl_cons

/-- Texts that are not longer than the front change only the front. -/
theorem layAll_append (h : ∀ text ∈ texts, text.length ≤ buf.length) (rest : List α) :
  layAll (buf ++ rest) texts = layAll buf texts ++ rest
  := by
  induction texts generalizing buf with
  | nil => rfl
  | cons text texts ih =>
      obtain ⟨htext, htexts⟩ := List.forall_mem_cons.mp h
      rw [layAll_cons, layAll_cons, lay_append htext, ih]
      rwa [length_lay htext]

/-- Elements that show are those of a text. -/
theorem Shows.mem {k : ℕ} (h : Shows texts text k) :
  text ∈ texts ∧ k < text.length
  := by
  obtain ⟨before, after, rfl, hk, -⟩ := h
  exact ⟨by simp, hk⟩

theorem shows_concat_iff (last : List α) (k : ℕ) :
  Shows (texts ++ [last]) text k
    ↔ (text = last ∧ k < last.length) ∨ (last.length ≤ k ∧ Shows texts text k)
  := by
  constructor
  · rintro ⟨before, after, heq, hk, hafter⟩
    rcases List.eq_nil_or_concat after with rfl | ⟨after, last', rfl⟩
    · obtain ⟨-, hlast⟩ := List.append_inj' heq rfl
      obtain rfl := (List.cons.inj hlast).1
      exact .inl ⟨rfl, hk⟩
    · rw [List.concat_eq_append] at *
      rw [← List.cons_append, ← List.append_assoc] at heq
      obtain ⟨htexts, hlast⟩ := List.append_inj' heq rfl
      obtain rfl := (List.cons.inj hlast).1
      right
      use hafter last (by simp), before, after, htexts, hk
      intro later hlater
      apply hafter later (by simp [hlater])
  · rintro (⟨rfl, hk⟩ | ⟨hle, before, after, rfl, hk, hafter⟩)
    · exact ⟨texts, [], rfl, hk, by simp⟩
    · use before, after ++ [last], by simp, hk
      intro later hlater
      rcases List.mem_append.mp hlater with hlater | hlater
      · apply hafter later hlater
      · rwa [List.mem_singleton.mp hlater]

/-- What is at an index is what the buffer had there exactly when the text that shows there
agrees with it. -/
theorem getElem?_layAll_eq_iff (buf : List α) (texts : List (List α)) (k : ℕ) :
  (layAll buf texts)[k]? = buf[k]? ↔ ∀ text, Shows texts text k → text[k]? = buf[k]?
  := by
  induction texts using List.reverseRecOn with
  | nil =>
      apply iff_of_true rfl
      rintro text ⟨before, after, heq, -⟩
      exact absurd heq.symm (by simp)
  | append_singleton texts last ih =>
      rw [layAll, List.foldl_append, List.foldl_cons, List.foldl_nil, getElem?_lay]
      simp only [shows_concat_iff]
      split
      case isTrue hlt =>
        constructor
        · rintro h text (⟨rfl, -⟩ | ⟨hle, -⟩)
          · exact h
          · omega
        · intro h
          apply h last (.inl ⟨rfl, hlt⟩)
      case isFalse hge =>
        rw [← layAll, ih]
        constructor
        · rintro h text (⟨-, hlt⟩ | ⟨-, hshows⟩)
          · exact absurd hlt hge
          · apply h text hshows
        · intro h text hshows
          apply h text (.inr ⟨Nat.le_of_not_lt hge, hshows⟩)

/-- Texts leave the buffer as it is exactly when those that show agree with it. -/
theorem layAll_eq_self_iff (buf : List α) (texts : List (List α)) :
  layAll buf texts = buf ↔ ∀ text k, Shows texts text k → text[k]? = buf[k]?
  := by
  rw [List.ext_getElem?_iff, forall_comm]
  apply forall_congr'
  intro k
  rw [getElem?_layAll_eq_iff]

end Buffer

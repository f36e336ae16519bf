import CTemplate.Containers.Hash
import Mathlib.Data.List.Basic
import Mathlib.Data.UInt

/-!
# Hashes of strings that differ in one byte

Every step of FNV-1a can be undone: the bytes that were mixed in by an exclusive or, and the
multiplication because the prime is odd.  So two strings of the same length have different hashes
when they differ in just one byte.
-/

namespace CTemplate

universe u v

/-- Steps that can be undone keep different states apart. -/
theorem foldl_injective
    {α : Type u} {β : Type v} {f : α → β → α} (hf : ∀ b, Function.Injective fun a => f a b)
    (l : List β) :
  Function.Injective fun a => l.foldl f a
  := by
  induction l with
  | nil => exact fun _ _ h => h
  | cons b l ih => exact fun _ _ h => hf b (ih h)

/-- Two lists that differ at just one index have the same elements before and after it. -/
theorem exists_of_existsUnique_ne
    {α : Type u} {p q : List α} (hlen : p.length = q.length) (h : ∃! i : ℕ, p[i]? ≠ q[i]?) :
  ∃ before b c after, b ≠ c ∧ p = before ++ b :: after ∧ q = before ++ c :: after
  := by
  obtain ⟨i, hne, honly⟩ := h
  have hsame : ∀ j, j ≠ i → p[j]? = q[j]? := by
    intro j hj
    by_contra hdiff
    exact hj (honly j hdiff)
  have hp : i < p.length := by
    by_contra hge
    apply hne
    rw [List.getElem?_eq_none (by omega), List.getElem?_eq_none (by omega)]
  have hq : i < q.length := hlen ▸ hp
  have hbefore : p.take i = q.take i := by
    apply List.ext_getElem?
    intro j
    rw [List.getElem?_take, List.getElem?_take]
    split
    case isTrue hlt => apply hsame j (Nat.ne_of_lt hlt)
    case isFalse => rfl
  have hafter : p.drop (i + 1) = q.drop (i + 1) := by
    apply List.ext_getElem?
    intro j
    rw [List.getElem?_drop, List.getElem?_drop]
    apply hsame
    omega
  refine ⟨p.take i, p[i], q[i], p.drop (i + 1), ?_, ?_, ?_⟩
  · intro heq
    apply hne
    rw [List.getElem?_eq_getElem hp, List.getElem?_eq_getElem hq, heq]
  · rw [List.getElem_cons_drop, List.take_append_drop]
  · rw [hbefore, hafter, List.getElem_cons_drop, List.take_append_drop]

/-- The multiplication by the prime can be undone. -/
theorem fnvPrime_injective :
  Function.Injective fun h : UInt64 => h * fnvPrime
  := by
  have hinverse : fnvPrime * 14886173955864302971 = 1 := by decide
  apply (IsUnit.of_mul_eq_one _ hinverse).mul_left_injective

/-- Two strings of the same length that differ in just one byte have different hashes. -/
theorem hashFnv1a_ne
    {p q : List Byte} (hlen : p.length = q.length) (h : ∃! i : ℕ, p[i]? ≠ q[i]?) :
  hashFnv1a (some p) ≠ hashFnv1a (some q)
  := by
  obtain ⟨before, b, c, after, hne, rfl, rfl⟩ := exists_of_existsUnique_ne hlen h
  have hmix : ∀ b : Byte, Function.Injective fun h : UInt64 => (h ^^^ b.toUInt64) * fnvPrime := by
    intro b h h' heq
    apply (UInt64.xor_left_inj b.toUInt64).mp
    apply fnvPrime_injective heq
  intro heq
  rw [hashFnv1a, hashFnv1a, List.foldl_append, List.foldl_append, List.foldl_cons,
    List.foldl_cons] at heq
  have hbyte := fnvPrime_injective (foldl_injective hmix after heq)
  rw [UInt64.xor_right_inj, UInt8.toUInt64_inj] at hbyte
  exact hne hbyte

/-- Strings that differ in their middle byte. -/
theorem hashFnv1a_ne_of_middle :
  hashFnv1a (some [97, 98, 99]) ≠ hashFnv1a (some [97, 120, 99])
  := by
  apply hashFnv1a_ne (by decide)
  refine ⟨1, by decide, ?_⟩
  intro i hi
  match i with
  | 0 => exact absurd rfl hi
  | 1 => rfl
  | 2 => exact absurd rfl hi
  | i + 3 => exact absurd rfl hi

end CTemplate

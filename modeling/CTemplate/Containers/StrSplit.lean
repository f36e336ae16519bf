import CTemplate.Core.Memory
import CTemplate.Library.Buffer
import CTemplate.Library.Scan

/-!
# Splitting a view

The iterator `sv_split_next` of `containers/str.c`.  Here a view is a range of a memory, so that
its tokens can be located in it.  Calls until one returns false yield the texts between the
delimiters, from left to right, each as a part of the view.

A function gives `none` when it reads outside the memory.
-/

namespace CTemplate

open Scan

/-! ### The iterator -/

/-- `StrView`: the index of the first byte, or `none` for a null pointer, and the number of
bytes. -/
structure StrRange where
  data : Option ℕ
  len : ℕ
  deriving DecidableEq

/-- The bytes of a range that is not a null pointer. -/
def StrRange.read (mem : List Byte) (r : StrRange) : Option (List Byte) :=
  r.data.bind fun p => Buffer.read mem p r.len

/-- `memchr`: the index of the first of `n` bytes that is `c`. -/
def memchr (mem : List Byte) (p : ℕ) (c : Byte) (n : ℕ) : Option (Option ℕ) :=
  (Buffer.read mem p n).map fun bytes =>
    if (bytes.takeWhile (· ≠ c)).length < n then some (p + (bytes.takeWhile (· ≠ c)).length)
    else none

/-- `sv_split_next`, for pointers to a remainder and to a token: the remainder after the call, and
the token when the call returns true. -/
def svSplitNext (mem : List Byte) (rest : StrRange) (delim : Byte) :
    Option (StrRange × Option StrRange) :=
  match rest.data with
  | none => some (rest, none)
  | some p =>
      (memchr mem p delim rest.len).map fun sep =>
        match sep with
        | some sep =>
            let tokLen := sep - p
            ({ data := some (sep + 1), len := rest.len - (tokLen + 1) },
              some { data := some p, len := tokLen })
        | none => ({ data := none, len := 0 }, some rest)

/-- `while (sv_split_next(&rest, delim, &tok))`, for at most `rounds` calls: the tokens. -/
def splitTokens (mem : List Byte) (delim : Byte) : ℕ → StrRange → Option (List StrRange)
  | 0, _ => none
  | rounds + 1, rest =>
      (svSplitNext mem rest delim).bind fun (rest, tok) =>
        match tok with
        | none => some []
        | some tok => (splitTokens mem delim rounds rest).map fun toks => tok :: toks

/-! ### Calls -/

variable {mem bytes t r : List Byte} {p len : ℕ} {delim : Byte}

theorem takeWhile_ne (ht : delim ∉ t) (hr : ∀ x ∈ r.head?, x = delim) :
  (t ++ r).takeWhile (· ≠ delim) = t
  := by
  apply takeWhile_eq_self
  · intro x hx
    rw [decide_eq_true_iff]
    rintro rfl
    apply ht hx
  · intro x hx
    simpa using hr x hx

/-- A text without the delimiter is the last token. -/
theorem svSplitNext_last (h : Buffer.read mem p len = some bytes) (hbytes : delim ∉ bytes) :
  svSplitNext mem ⟨some p, len⟩ delim = some (⟨none, 0⟩, some ⟨some p, len⟩)
  := by
  have hrun := takeWhile_ne (r := []) hbytes (by simp)
  have hlength := (Buffer.read_eq_some_iff.mp h).2.1
  rw [List.append_nil] at hrun
  simp only [svSplitNext, memchr, h, Option.map_some, hrun, hlength, Nat.lt_irrefl, if_false]

/-- The token ends at the first delimiter, and the remainder begins after it. -/
theorem svSplitNext_more (h : Buffer.read mem p len = some (t ++ delim :: r)) (ht : delim ∉ t) :
  svSplitNext mem ⟨some p, len⟩ delim
    = some (⟨some (p + t.length + 1), r.length⟩, some ⟨some p, t.length⟩)
  := by
  have hrun := takeWhile_ne (r := delim :: r) ht (by simp)
  have hlength := (Buffer.read_eq_some_iff.mp h).2.1
  rw [List.length_append, List.length_cons] at hlength
  have hlt : t.length < len := by omega
  have hrest : len - (t.length + 1) = r.length := by omega
  simp only [svSplitNext, memchr, h, Option.map_some, hrun, if_pos hlt, Nat.add_sub_cancel_left,
    hrest]

/-! ### All tokens -/

/-- The tokens of a view of `bytes` at the index `p`: they are ranges within the view, one more
than there are delimiters, and hold the texts between the delimiters. -/
structure IsSplit (mem : List Byte) (delim : Byte) (p : ℕ) (bytes : List Byte)
    (toks : List StrRange) : Prop where
  length_eq : toks.length = bytes.count delim + 1
  texts : ∃ texts, toks.map (·.read mem) = texts.map some ∧ (∀ t ∈ texts, delim ∉ t)
    ∧ [delim].intercalate texts = bytes
  within : ∀ tok ∈ toks, ∃ q, tok.data = some q ∧ p ≤ q ∧ q + tok.len ≤ p + bytes.length

theorem IsSplit.last (h : Buffer.read mem p len = some bytes) (hbytes : delim ∉ bytes) :
  IsSplit mem delim p bytes [⟨some p, len⟩]
  := by
  have hlength := (Buffer.read_eq_some_iff.mp h).2.1
  constructor
  · rw [List.count_eq_zero_of_not_mem hbytes, List.length_singleton]
  · refine ⟨[bytes], ?_, ?_, List.intercalate_singleton⟩
    · simpa [StrRange.read] using h
    · simpa using hbytes
  · intro tok htok
    obtain rfl := List.mem_singleton.mp htok
    use p, rfl, Nat.le_refl p
    rw [hlength]

/-- A token in front of those of the remainder. -/
theorem IsSplit.cons
    (h : Buffer.read mem p len = some (t ++ delim :: r)) (ht : delim ∉ t) {toks : List StrRange}
    (hrest : IsSplit mem delim (p + t.length + 1) r toks) :
  IsSplit mem delim p (t ++ delim :: r) (⟨some p, t.length⟩ :: toks)
  := by
  obtain ⟨hcount, ⟨texts, hread, hnot_mem, hjoined⟩, hwithin⟩ := hrest
  have htexts : texts ≠ [] := by
    rintro rfl
    have hlength := congrArg List.length hread
    simp [hcount] at hlength
  constructor
  · rw [List.length_cons, hcount, List.count_append, List.count_eq_zero_of_not_mem ht,
      List.count_cons_self, Nat.zero_add]
  · refine ⟨t :: texts, ?_, ?_, ?_⟩
    · rw [List.map_cons, List.map_cons, hread, StrRange.read, Option.bind_some,
        (Buffer.read_append h).1]
    · exact List.forall_mem_cons.mpr ⟨ht, hnot_mem⟩
    · rw [List.intercalate_cons_of_ne_nil htexts, hjoined, List.append_assoc,
        List.singleton_append]
  · rw [List.forall_mem_cons]
    rw [List.length_append, List.length_cons]
    constructor
    · use p, rfl, Nat.le_refl p
      dsimp only
      omega
    · intro tok htok
      obtain ⟨q, hq, hle, hend⟩ := hwithin tok htok
      use q, hq
      omega

/-- Calls until one returns false yield the tokens of the view. -/
theorem exists_splitTokens (h : Buffer.read mem p len = some bytes) :
  ∃ toks, IsSplit mem delim p bytes toks
    ∧ ∀ rounds, bytes.count delim + 1 < rounds →
      splitTokens mem delim rounds ⟨some p, len⟩ = some toks
  := by
  induction hn : bytes.length using Nat.strong_induction_on generalizing p len bytes with
  | _ n ih =>
  by_cases hmem : delim ∈ bytes
  · obtain ⟨t, r, rfl, ht⟩ := List.eq_append_cons_of_mem hmem
    have hcount : (t ++ delim :: r).count delim = r.count delim + 1 := by
      rw [List.count_append, List.count_eq_zero_of_not_mem ht, List.count_cons_self, Nat.zero_add]
    have hread : Buffer.read mem (p + t.length + 1) r.length = some r := by
      have hrest : Buffer.read mem (p + t.length) (delim :: r).length = some ([delim] ++ r) :=
        (Buffer.read_append h).2
      exact (Buffer.read_append hrest).2
    obtain ⟨toks, hsplit, hrun⟩ := ih r.length
      (by rw [← hn, List.length_append, List.length_cons]; omega) hread rfl
    refine ⟨_, IsSplit.cons h ht hsplit, ?_⟩
    intro rounds hrounds
    obtain ⟨rounds, rfl⟩ := Nat.exists_eq_add_one_of_ne_zero (Nat.ne_zero_of_lt hrounds)
    rw [splitTokens, svSplitNext_more h ht, Option.bind_some]
    dsimp only
    rw [hrun rounds (by omega), Option.map_some]
  · refine ⟨_, IsSplit.last h hmem, ?_⟩
    intro rounds hrounds
    obtain ⟨rounds, rfl⟩ : ∃ k, rounds = k + 2 := ⟨rounds - 2, by omega⟩
    rw [splitTokens, svSplitNext_last h hmem, Option.bind_some]
    rfl

/-- Calls of `sv_split_next` on a view that is not a null pointer end after one token more than
the view has delimiters.  The tokens are parts of the view, none contains the delimiter, and with
delimiters between them they make up the view.  A null pointer yields no token. -/
theorem sv_split_next_tokens (mem : List Byte) (delim : Byte) :
  (∀ p len bytes, Buffer.read mem p len = some bytes →
      ∃ toks, IsSplit mem delim p bytes toks
        ∧ ∀ rounds, bytes.count delim + 1 < rounds →
          splitTokens mem delim rounds ⟨some p, len⟩ = some toks)
    ∧ ∀ rounds len, 0 < rounds → splitTokens mem delim rounds ⟨none, len⟩ = some []
  := by
  constructor
  · intro p len bytes h
    apply exists_splitTokens h
  · intro rounds len hrounds
    obtain ⟨rounds, rfl⟩ := Nat.exists_eq_add_one_of_ne_zero (Nat.ne_of_gt hrounds)
    rfl

/-- The view `"a,b,,c,"` of a memory in which a quote is on either side of it. -/
theorem sv_split_next_tokens_quoted :
  ∃ toks, IsSplit [34, 97, 44, 98, 44, 44, 99, 44, 34] 44 1 [97, 44, 98, 44, 44, 99, 44] toks
    ∧ splitTokens [34, 97, 44, 98, 44, 44, 99, 44, 34] 44 6 ⟨some 1, 7⟩ = some toks
    ∧ toks = [⟨some 1, 1⟩, ⟨some 3, 1⟩, ⟨some 5, 0⟩, ⟨some 6, 1⟩, ⟨some 8, 0⟩]
  := by
  obtain ⟨toks, hsplit, hrun⟩ := (sv_split_next_tokens [34, 97, 44, 98, 44, 44, 99, 44, 34] 44).1
    1 7 [97, 44, 98, 44, 44, 99, 44] (by decide)
  have htokens := hrun 6 (by decide)
  have hexpected : splitTokens [34, 97, 44, 98, 44, 44, 99, 44, 34] 44 6 ⟨some 1, 7⟩
      = some [⟨some 1, 1⟩, ⟨some 3, 1⟩, ⟨some 5, 0⟩, ⟨some 6, 1⟩, ⟨some 8, 0⟩] := by decide
  use toks, hsplit, htokens
  apply Option.some.inj (htokens.symm.trans hexpected)

end CTemplate

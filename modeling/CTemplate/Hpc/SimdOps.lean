import CTemplate.Core.Memory
import CTemplate.Library.Buffer
import CTemplate.Library.Loop
import Mathlib.Algebra.BigOperators.Group.Finset.Basic
import Mathlib.Algebra.Ring.Int.Defs
import Mathlib.Tactic.Abel

/-!
# Vector operations in four lanes

The functions of `hpc/simd_ops.c`, for every instruction set they can be compiled for.  They
work on arrays in one memory, given by the index of their first element, so that the arrays may
be the same one.  The elements are those of an arbitrary commutative ring.

A function gives `none` when it reads or writes outside the memory.
-/

namespace CTemplate

open Loop

variable {F : Type}

/-! ### The functions -/

/-- The instruction set: NEON on `aarch64`, NEON on other processors, SSE4.2, or none. -/
inductive Isa where
  | neonAarch64
  | neon
  | sse42
  | scalar
  deriving DecidableEq

/-- A register of four lanes, `float32x4_t` or `__m128`. -/
structure Lanes (F : Type) where
  s0 : F
  s1 : F
  s2 : F
  s3 : F
  deriving DecidableEq

/-- The operation on each lane: `vaddq_f32`, `vmulq_f32`, `_mm_add_ps`, `_mm_mul_ps`. -/
def Lanes.zipWith (op : F → F → F) (u v : Lanes F) : Lanes F where
  s0 := op u.s0 v.s0
  s1 := op u.s1 v.s1
  s2 := op u.s2 v.s2
  s3 := op u.s3 v.s3

/-- The same number in each lane: `vdupq_n_f32`, `_mm_set1_ps`, `_mm_setzero_ps`. -/
def Lanes.dup (x : F) : Lanes F where
  s0 := x
  s1 := x
  s2 := x
  s3 := x

/-- `vld1q_f32`, `_mm_loadu_ps` -/
def loadLanes (mem : List F) (k : ℕ) : Option (Lanes F) :=
  mem[k]?.bind fun s0 => mem[k + 1]?.bind fun s1 => mem[k + 2]?.bind fun s2 =>
    mem[k + 3]?.map fun s3 => ⟨s0, s1, s2, s3⟩

/-- `vst1q_f32`, `_mm_storeu_ps` -/
def storeLanes (mem : List F) (k : ℕ) (v : Lanes F) : Option (List F) :=
  Buffer.write mem k [v.s0, v.s1, v.s2, v.s3]

/-- The sum of the lanes: `vaddvq_f32`, which adds pairs of neighbours, the sum of the two halves
of the register and then of their lanes, or the sum from left to right.  Without registers it is
the zero that `sum` starts with. -/
def Isa.sumLanes [Zero F] [Add F] : Isa → Lanes F → F
  | .neonAarch64, v => (v.s0 + v.s1) + (v.s2 + v.s3)
  | .neon, v => (v.s0 + v.s2) + (v.s1 + v.s3)
  | .sse42, v => v.s0 + v.s1 + v.s2 + v.s3
  | .scalar, _ => 0

/-- `for (; i + 4 <= n; i += 4)` from index 0 on, which is missing without registers of four
lanes: the index and the state after it. -/
def Isa.wideLoop {σ : Type} (isa : Isa) (n : ℕ) (body : ℕ → σ → Option σ) (s : σ) :
    Option (ℕ × σ) :=
  if isa = .scalar then some (0, s)
  else forNext (fun i => toSize (i + 4) ≤ n) (fun i => toSize (i + 4)) body (n + 1) 0 s

/-- `for (; i < n; i++)` -/
def tailLoop {σ : Type} (n : ℕ) (body : ℕ → σ → Option σ) (i : ℕ) (s : σ) : Option σ :=
  (forNext (fun i => i < n) (fun i => toSize (i + 1)) body (n + 1) i s).map fun (_, s) => s

/-- The loops of a function that sets `dst[i]`: `wide` and `narrow` give the elements for four
indices and for one. -/
def Isa.assign (isa : Isa) (wide : List F → ℕ → Option (Lanes F))
    (narrow : List F → ℕ → Option F) (dst n : ℕ) (mem : List F) : Option (List F) :=
  (isa.wideLoop n (fun i mem => (wide mem i).bind fun v => storeLanes mem (dst + i) v) mem).bind
    fun (i, mem) =>
      tailLoop n (fun i mem => (narrow mem i).bind fun x => Buffer.write mem (dst + i) [x]) i mem

/-- The element-wise operation on two arrays. -/
def Isa.assign₂ (isa : Isa) (op : F → F → F) (mem : List F) (dst a b : Option ℕ) (n : ℕ) :
    Option (List F) :=
  match dst, a, b with
  | some dst, some a, some b =>
      if n = 0 then some mem
      else
        isa.assign
          (fun mem i => (loadLanes mem (a + i)).bind fun u =>
            (loadLanes mem (b + i)).map fun v => u.zipWith op v)
          (fun mem i => mem[a + i]?.bind fun x => mem[b + i]?.map fun y => op x y) dst n mem
  | _, _, _ => some mem

/-- `simd_add_f32`: the memory after the call.  The pointers are `none` for null pointers. -/
def simdAddF32 [Add F] (isa : Isa) (mem : List F) (dst a b : Option ℕ) (n : ℕ) :
    Option (List F) :=
  isa.assign₂ (· + ·) mem dst a b n

/-- `simd_mul_f32` -/
def simdMulF32 [Mul F] (isa : Isa) (mem : List F) (dst a b : Option ℕ) (n : ℕ) :
    Option (List F) :=
  isa.assign₂ (· * ·) mem dst a b n

/-- `simd_scale_f32` -/
def simdScaleF32 [Mul F] (isa : Isa) (mem : List F) (dst a : Option ℕ) (scalar : F) (n : ℕ) :
    Option (List F) :=
  match dst, a with
  | some dst, some a =>
      if n = 0 then some mem
      else
        isa.assign
          (fun mem i => (loadLanes mem (a + i)).map fun u => u.zipWith (· * ·) (.dup scalar))
          (fun mem i => mem[a + i]?.map fun x => x * scalar) dst n mem
  | _, _ => some mem

/-- The loops of a function that sums up: `wide` and `narrow` give what is added for four indices
and for one.  The product of `vmlaq_f32` is added in the same way. -/
def Isa.accumulate [Zero F] [Add F] (isa : Isa) (wide : ℕ → Option (Lanes F))
    (narrow : ℕ → Option F) (n : ℕ) : Option F :=
  (isa.wideLoop n (fun i vsum => (wide i).map fun v => vsum.zipWith (· + ·) v) (.dup 0)).bind
    fun (i, vsum) =>
      tailLoop n (fun i sum => (narrow i).map fun x => sum + x) i (isa.sumLanes vsum)

/-- `simd_dot_f32` -/
def simdDotF32 [Zero F] [Add F] [Mul F] (isa : Isa) (mem : List F) (a b : Option ℕ) (n : ℕ) :
    Option F :=
  match a, b with
  | some a, some b =>
      if n = 0 then some 0
      else
        isa.accumulate
          (fun i => (loadLanes mem (a + i)).bind fun u =>
            (loadLanes mem (b + i)).map fun v => u.zipWith (· * ·) v)
          (fun i => mem[a + i]?.bind fun x => mem[b + i]?.map fun y => x * y) n
  | _, _ => some 0

/-- `simd_sum_f32` -/
def simdSumF32 [Zero F] [Add F] (isa : Isa) (mem : List F) (a : Option ℕ) (n : ℕ) : Option F :=
  match a with
  | some a =>
      if n = 0 then some 0
      else isa.accumulate (fun i => loadLanes mem (a + i)) (fun i => mem[a + i]?) n
  | none => some 0

/-! ### The loops -/

section Loops

variable {σ : Type} {n : ℕ} {body : ℕ → σ → Option σ} {I : ℕ → σ → Prop} {s : σ}

/-- The loop over four indices at a time ends within the array with what its body keeps. -/
theorem Isa.exists_wideLoop
    (isa : Isa) (hn : 4 * n ≤ sizeMax)
    (hbody : ∀ i s, i + 4 ≤ n → I i s → ∃ s', body i s = some s' ∧ I (i + 4) s') (hI : I 0 s) :
  ∃ i s', isa.wideLoop n body s = some (i, s') ∧ i ≤ n ∧ I i s' ∧ (isa = .scalar → i = 0)
  := by
  rw [wideLoop]
  split
  case isTrue => exact ⟨0, s, rfl, Nat.zero_le n, hI, fun _ => rfl⟩
  case isFalse hvector =>
  -- an index within the array does not wrap around
  have hnext : ∀ i, i ≤ n → toSize (i + 4) = i + 4 := by
    intro i hi
    apply toSize_of_le
    unfold sizeMax at *
    omega
  have hloop : ∃ i s', forNext (fun i => toSize (i + 4) ≤ n) (fun i => toSize (i + 4)) body
      (n + 1) 0 s = some (i, s') ∧ (i ≤ n ∧ I i s') ∧ decide (toSize (i + 4) ≤ n) = false := by
    apply exists_forNext (n := n) _ _ (by omega) ⟨Nat.zero_le n, hI⟩
    · rintro i s hmore ⟨hi, -⟩
      rw [decide_eq_true_iff] at hmore
      rw [hnext i hi] at hmore ⊢
      exact ⟨Nat.lt_add_of_pos_right (by decide), hmore⟩
    · rintro i s hmore ⟨hi, hIi⟩
      rw [decide_eq_true_iff, hnext i hi] at hmore
      rw [hnext i hi]
      obtain ⟨s', hs', hI'⟩ := hbody i s hmore hIi
      exact ⟨s', hs', hmore, hI'⟩
  obtain ⟨i, s', hloop, ⟨hle, hI'⟩, -⟩ := hloop
  exact ⟨i, s', hloop, hle, hI', fun hscalar => absurd hscalar hvector⟩

/-- The loop over the rest of the array ends with what its body keeps. -/
theorem exists_tailLoop
    {i : ℕ} (hn : 4 * n ≤ sizeMax)
    (hbody : ∀ i s, i < n → I i s → ∃ s', body i s = some s' ∧ I (i + 1) s') (hi : i ≤ n)
    (hI : I i s) :
  ∃ s', tailLoop n body i s = some s' ∧ I n s'
  := by
  have hnext : ∀ i, i < n → toSize (i + 1) = i + 1 := by
    intro i hi
    apply toSize_of_le
    omega
  have hloop : ∃ j s', forNext (fun i => i < n) (fun i => toSize (i + 1)) body (n + 1) i s
      = some (j, s') ∧ (j ≤ n ∧ I j s') ∧ decide (j < n) = false := by
    apply exists_forNext (n := n) _ _ (by omega) ⟨hi, hI⟩
    · rintro i s hmore -
      rw [decide_eq_true_iff] at hmore
      rw [hnext i hmore]
      exact ⟨Nat.lt_succ_self i, hmore⟩
    · rintro i s hmore ⟨-, hIi⟩
      rw [decide_eq_true_iff] at hmore
      rw [hnext i hmore]
      obtain ⟨s', hs', hI'⟩ := hbody i s hmore hIi
      exact ⟨s', hs', hmore, hI'⟩
  obtain ⟨j, s', hloop, ⟨hle, hI'⟩, hdone⟩ := hloop
  rw [decide_eq_false_iff_not] at hdone
  obtain rfl : j = n := by omega
  use s'
  rw [tailLoop, hloop]
  exact ⟨rfl, hI'⟩

end Loops

/-! ### Arrays in memory -/

variable {isa : Isa} {mem mem' : List F} {a b dst i n : ℕ} {x y z : ℕ → F}

/-- The array of `n` elements at the index `a` has the elements `x`. -/
def HoldsArray (mem : List F) (a n : ℕ) (x : ℕ → F) : Prop :=
  ∀ i < n, mem[a + i]? = some (x i)

/-- Two arrays of `n` elements are the same one or do not overlap. -/
def SameOrApart (a b n : ℕ) : Prop :=
  a = b ∨ a + n ≤ b ∨ b + n ≤ a

/-- The memory `mem'` is `mem` after the first `n` elements of the array at `dst` were set to
those of `z`. -/
structure Assigned (mem : List F) (dst n : ℕ) (z : ℕ → F) (mem' : List F) : Prop where
  length_eq : mem'.length = mem.length
  getElem?_eq : ∀ k, mem'[k]? = if dst ≤ k ∧ k < dst + n then some (z (k - dst)) else mem[k]?

/-- The elements of an array with the index `i` and the three after it, in the lanes. -/
def lanesFrom (x : ℕ → F) (i : ℕ) : Lanes F :=
  ⟨x i, x (i + 1), x (i + 2), x (i + 3)⟩

theorem loadLanes_eq (h : ∀ j, i ≤ j → j < n → mem[a + j]? = some (x j)) (hi : i + 4 ≤ n) :
  loadLanes mem (a + i) = some (lanesFrom x i)
  := by
  rw [loadLanes, h i (by omega) (by omega), Nat.add_assoc, h (i + 1) (by omega) (by omega),
    Nat.add_assoc, h (i + 2) (by omega) (by omega), Nat.add_assoc,
    h (i + 3) (by omega) (by omega)]
  rfl

theorem Assigned.zero (mem : List F) (dst : ℕ) (z : ℕ → F) :
  Assigned mem dst 0 z mem
  := by
  constructor
  · rfl
  · intro k
    rw [if_neg (by omega)]

/-- Further elements are set. -/
theorem Assigned.write
    (h : Assigned mem dst i z mem') {xs : List F} (hfits : dst + (i + xs.length) ≤ mem.length)
    (hxs : ∀ j < xs.length, xs[j]? = some (z (i + j))) :
  ∃ mem'', Buffer.write mem' (dst + i) xs = some mem''
    ∧ Assigned mem dst (i + xs.length) z mem''
  := by
  obtain ⟨mem'', hwrite, hwrote⟩ := Buffer.exists_write mem' (dst + i) xs
    (by rw [h.length_eq]; omega)
  use mem'', hwrite
  constructor
  · rw [hwrote.length_eq, h.length_eq]
  · intro k
    rw [Buffer.getElem?_write hwrite, h.getElem?_eq]
    by_cases hnew : dst + i ≤ k ∧ k < dst + i + xs.length
    · rw [if_pos hnew, if_pos (by omega), hxs (k - (dst + i)) (by omega)]
      congr 2
      omega
    · rw [if_neg hnew]
      by_cases hold : dst ≤ k ∧ k < dst + i
      · rw [if_pos hold, if_pos (by omega)]
      · rw [if_neg hold, if_neg (by omega)]

/-- The elements of an array that come after those set are still there. -/
theorem HoldsArray.of_assigned
    (ha : HoldsArray mem a n x) (happart : SameOrApart dst a n) (h : Assigned mem dst i z mem') :
  ∀ j, i ≤ j → j < n → mem'[a + j]? = some (x j)
  := by
  intro j hj hjn
  rw [h.getElem?_eq, if_neg, ha j hjn]
  unfold SameOrApart at happart
  omega

/-- The elements in the lanes are set. -/
theorem Assigned.store (h : Assigned mem dst i z mem') (hfits : dst + (i + 4) ≤ mem.length) :
  ∃ mem'', storeLanes mem' (dst + i) (lanesFrom z i) = some mem''
    ∧ Assigned mem dst (i + 4) z mem''
  := by
  apply h.write
  · exact hfits
  intro j hj
  rcases j with _ | _ | _ | _ | j
  · rfl
  · rfl
  · rfl
  · rfl
  · simp only [List.length_cons, List.length_nil] at hj
    omega

/-- One element is set. -/
theorem Assigned.set (h : Assigned mem dst i z mem') (hfits : dst + (i + 1) ≤ mem.length) :
  ∃ mem'', Buffer.write mem' (dst + i) [z i] = some mem'' ∧ Assigned mem dst (i + 1) z mem''
  := by
  apply h.write
  · exact hfits
  intro j hj
  obtain rfl : j = 0 := Nat.lt_one_iff.mp hj
  rfl

/-! ### Element-wise operations -/

/-- The loops set the elements of the array that their bodies give. -/
theorem Isa.exists_assign
    (isa : Isa) (hn : 4 * n ≤ sizeMax) (hdst : dst + n ≤ mem.length)
    {wide : List F → ℕ → Option (Lanes F)} {narrow : List F → ℕ → Option F}
    (hwide : ∀ i mem', i + 4 ≤ n → Assigned mem dst i z mem' →
      wide mem' i = some (lanesFrom z i))
    (hnarrow : ∀ i mem', i < n → Assigned mem dst i z mem' → narrow mem' i = some (z i)) :
  ∃ mem', isa.assign wide narrow dst n mem = some mem' ∧ Assigned mem dst n z mem'
  := by
  have hstore : ∀ i mem', i + 4 ≤ n → Assigned mem dst i z mem' →
      ∃ mem'', ((wide mem' i).bind fun v => storeLanes mem' (dst + i) v) = some mem''
        ∧ Assigned mem dst (i + 4) z mem'' := by
    intro i mem' hi h
    rw [hwide i mem' hi h, Option.bind_some]
    apply h.store (by omega)
  have hset : ∀ i mem', i < n → Assigned mem dst i z mem' →
      ∃ mem'', ((narrow mem' i).bind fun x => Buffer.write mem' (dst + i) [x]) = some mem''
        ∧ Assigned mem dst (i + 1) z mem'' := by
    intro i mem' hi h
    rw [hnarrow i mem' hi h, Option.bind_some]
    apply h.set (by omega)
  obtain ⟨i, mem₁, hloop, hi, h₁, -⟩ := isa.exists_wideLoop hn hstore (Assigned.zero mem dst z)
  rw [assign, hloop, Option.bind_some]
  apply exists_tailLoop hn hset hi h₁

/-- The element-wise operation on two arrays, the result of which may replace one of them. -/
theorem Isa.exists_assign₂
    (isa : Isa) (op : F → F → F) (hn : 4 * n ≤ sizeMax) (ha : HoldsArray mem a n x)
    (hb : HoldsArray mem b n y) (hdst : dst + n ≤ mem.length) (hdst_a : SameOrApart dst a n)
    (hdst_b : SameOrApart dst b n) :
  ∃ mem', isa.assign₂ op mem (some dst) (some a) (some b) n = some mem'
    ∧ Assigned mem dst n (fun i => op (x i) (y i)) mem'
  := by
  simp only [assign₂]
  split
  case isTrue hzero =>
    subst hzero
    exact ⟨mem, rfl, Assigned.zero mem dst _⟩
  case isFalse =>
  apply isa.exists_assign hn hdst
  · intro i mem' hi h
    rw [loadLanes_eq (ha.of_assigned hdst_a h) hi, loadLanes_eq (hb.of_assigned hdst_b h) hi]
    rfl
  · intro i mem' hi h
    rw [ha.of_assigned hdst_a h i (Nat.le_refl i) hi, hb.of_assigned hdst_b h i (Nat.le_refl i) hi]
    rfl

/-- The multiplication of an array by a number. -/
theorem Isa.exists_scale
    [Mul F] (isa : Isa) (c : F) (hn : 4 * n ≤ sizeMax) (ha : HoldsArray mem a n x)
    (hdst : dst + n ≤ mem.length) (hdst_a : SameOrApart dst a n) :
  ∃ mem', simdScaleF32 isa mem (some dst) (some a) c n = some mem'
    ∧ Assigned mem dst n (fun i => x i * c) mem'
  := by
  simp only [simdScaleF32]
  split
  case isTrue hzero =>
    subst hzero
    exact ⟨mem, rfl, Assigned.zero mem dst _⟩
  case isFalse =>
  apply isa.exists_assign hn hdst
  · intro i mem' hi h
    rw [loadLanes_eq (ha.of_assigned hdst_a h) hi]
    rfl
  · intro i mem' hi h
    rw [ha.of_assigned hdst_a h i (Nat.le_refl i) hi]
    rfl

/-! ### Sums -/

section Sums

open Finset

variable [CommRing F]

theorem Isa.sumLanes_eq (isa : Isa) (hvector : isa ≠ .scalar) (v : Lanes F) :
  isa.sumLanes v = v.s0 + v.s1 + v.s2 + v.s3
  := by
  cases isa with
  | neonAarch64 =>
      simp only [sumLanes]
      abel
  | neon =>
      simp only [sumLanes]
      abel
  | sse42 => rfl
  | scalar => exact absurd rfl hvector

/-- The lanes together have the sum of the elements seen so far; the sum of four further elements
is added to them lane by lane. -/
theorem Isa.exists_accumulate
    (isa : Isa) (hn : 4 * n ≤ sizeMax) {wide : ℕ → Option (Lanes F)} {narrow : ℕ → Option F}
    (hwide : ∀ i, i + 4 ≤ n → wide i = some (lanesFrom z i))
    (hnarrow : ∀ i, i < n → narrow i = some (z i)) :
  isa.accumulate wide narrow n = some (∑ i ∈ range n, z i)
  := by
  have hadd : ∀ i (v : Lanes F), i + 4 ≤ n → v.s0 + v.s1 + v.s2 + v.s3 = ∑ k ∈ range i, z k →
      ∃ v', ((wide i).map fun u => v.zipWith (· + ·) u) = some v'
        ∧ v'.s0 + v'.s1 + v'.s2 + v'.s3 = ∑ k ∈ range (i + 4), z k := by
    intro i v hi hsum
    rw [hwide i hi]
    refine ⟨_, rfl, ?_⟩
    simp only [Lanes.zipWith, lanesFrom, sum_range_succ, ← hsum]
    abel
  have hnext : ∀ i (sum : F), i < n → sum = ∑ k ∈ range i, z k →
      ∃ sum', ((narrow i).map fun x => sum + x) = some sum'
        ∧ sum' = ∑ k ∈ range (i + 1), z k := by
    intro i sum hi hsum
    rw [hnarrow i hi, sum_range_succ, hsum]
    exact ⟨_, rfl, rfl⟩
  have hzero : (Lanes.dup (0 : F)).s0 + (Lanes.dup (0 : F)).s1 + (Lanes.dup (0 : F)).s2
      + (Lanes.dup (0 : F)).s3 = ∑ k ∈ range 0, z k := by
    simp [Lanes.dup]
  obtain ⟨i, v, hloop, hi, hv, hscalar⟩ := isa.exists_wideLoop hn hadd hzero
  have hsum : isa.sumLanes v = ∑ k ∈ range i, z k := by
    by_cases hisa : isa = .scalar
    · rw [hscalar hisa, hisa, range_zero, sum_empty]
      rfl
    · rw [sumLanes_eq isa hisa, hv]
  obtain ⟨sum, htail, rfl⟩ := exists_tailLoop hn hnext hi hsum
  rw [accumulate, hloop, Option.bind_some]
  exact htail

theorem Isa.exists_dot
    (isa : Isa) (hn : 4 * n ≤ sizeMax) (ha : HoldsArray mem a n x) (hb : HoldsArray mem b n y) :
  simdDotF32 isa mem (some a) (some b) n = some (∑ i ∈ range n, x i * y i)
  := by
  simp only [simdDotF32]
  split
  case isTrue hzero => rw [hzero, range_zero, sum_empty]
  case isFalse =>
  apply isa.exists_accumulate hn
  · intro i hi
    rw [loadLanes_eq (fun j _ hj => ha j hj) hi, loadLanes_eq (fun j _ hj => hb j hj) hi]
    rfl
  · intro i hi
    rw [ha i hi, hb i hi]
    rfl

theorem Isa.exists_sum (isa : Isa) (hn : 4 * n ≤ sizeMax) (ha : HoldsArray mem a n x) :
  simdSumF32 isa mem (some a) n = some (∑ i ∈ range n, x i)
  := by
  simp only [simdSumF32]
  split
  case isTrue hzero => rw [hzero, range_zero, sum_empty]
  case isFalse =>
  apply isa.exists_accumulate hn
  · intro i hi
    apply loadLanes_eq (fun j _ hj => ha j hj) hi
  · intro i hi
    apply ha i hi

/-- With every instruction set the sums are those over the arrays, and the element-wise functions
set the elements of `dst` and no others to the results, also when `dst` is `a` or `b`. -/
theorem simd_ops_correct
    (isa : Isa) (hn : 4 * n ≤ sizeMax) (ha : HoldsArray mem a n x) (hb : HoldsArray mem b n y) :
  simdDotF32 isa mem (some a) (some b) n = some (∑ i ∈ range n, x i * y i)
    ∧ simdSumF32 isa mem (some a) n = some (∑ i ∈ range n, x i)
    ∧ ∀ dst, dst + n ≤ mem.length → SameOrApart dst a n →
      (∀ c, ∃ mem', simdScaleF32 isa mem (some dst) (some a) c n = some mem'
          ∧ Assigned mem dst n (fun i => x i * c) mem')
        ∧ (SameOrApart dst b n →
          (∃ mem', simdAddF32 isa mem (some dst) (some a) (some b) n = some mem'
              ∧ Assigned mem dst n (fun i => x i + y i) mem')
            ∧ ∃ mem', simdMulF32 isa mem (some dst) (some a) (some b) n = some mem'
              ∧ Assigned mem dst n (fun i => x i * y i) mem')
  := by
  refine ⟨isa.exists_dot hn ha hb, isa.exists_sum hn ha, ?_⟩
  intro dst hdst hdst_a
  refine ⟨fun c => isa.exists_scale c hn ha hdst hdst_a, ?_⟩
  intro hdst_b
  constructor
  · apply isa.exists_assign₂ (· + ·) hn ha hb hdst hdst_a hdst_b
  · apply isa.exists_assign₂ (· * ·) hn ha hb hdst hdst_a hdst_b

/-- The array 1, …, 5 is multiplied with 6, …, 10, to which it is then added in place. -/
theorem simd_ops_correct_five :
  simdDotF32 .sse42 [1, 2, 3, 4, 5, 6, 7, 8, 9, 10] (some 0) (some 5) 5 = some (130 : ℤ)
    ∧ ∃ mem', simdAddF32 .sse42 [(1 : ℤ), 2, 3, 4, 5, 6, 7, 8, 9, 10] (some 5) (some 0) (some 5) 5
        = some mem'
      ∧ mem'[4]? = some 5 ∧ mem'[9]? = some 15
  := by
  have ha : HoldsArray [(1 : ℤ), 2, 3, 4, 5, 6, 7, 8, 9, 10] 0 5 (fun i => i + 1) := by
    unfold HoldsArray
    decide
  have hb : HoldsArray [(1 : ℤ), 2, 3, 4, 5, 6, 7, 8, 9, 10] 5 5 (fun i => i + 6) := by
    unfold HoldsArray
    decide
  obtain ⟨hdot, -, hassign⟩ := simd_ops_correct .sse42 (by decide) ha hb
  obtain ⟨-, hboth⟩ := hassign 5 (by decide) (.inr (.inr (by decide)))
  obtain ⟨⟨mem', hadd, hassigned⟩, -⟩ := hboth (.inl rfl)
  constructor
  · rw [hdot]
    decide
  use mem', hadd
  rw [hassigned.getElem?_eq, hassigned.getElem?_eq]
  exact ⟨rfl, rfl⟩

end Sums

end CTemplate

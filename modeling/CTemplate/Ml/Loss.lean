import CTemplate.Library.LogSumExp
import CTemplate.Ml.DensePass

/-!
# Losses

The losses of `ml/nn.c`, each with its gradient: the mean squared error, and the cross-entropy of
the softmax of each row.  The maximum of a row is subtracted before the exponentials, so that
their arguments are never positive and the sum is at least one.

The matrix for the gradient is `none` for a null pointer.
-/

namespace CTemplate

open Loop

variable {F : Type} [Field F] [LinearOrder F]

/-- The matrix for the gradient has another shape. -/
def gradientMismatch (pred : MatX F) (dpred : Option (MatX F)) : Prop :=
  ∃ d ∈ dpred, d.rows ≠ pred.rows ∨ d.cols ≠ pred.cols

instance (pred : MatX F) (dpred : Option (MatX F)) : Decidable (gradientMismatch pred dpred) :=
  inferInstanceAs (Decidable (∃ d ∈ dpred, _))

/-- `dpred->data[i] = v`, unless `dpred` is a null pointer. -/
def setGradient (i : ℕ) (v : F) : Option (List F) → Option (Option (List F))
  | none => some none
  | some data => (update (fun _ x => x) data i v).map some

/-- `loss_mse`: the matrix `dpred` after the call, and the loss or the code returned. -/
def lossMse (pred target : MatX F) (dpred : Option (MatX F)) :
    Option (Option (MatX F) × Except ErrorCode F) :=
  if pred.data = [] ∨ target.data = [] then some (dpred, .error .invalidArg)
  else if pred.rows ≠ target.rows ∨ pred.cols ≠ target.cols then some (dpred, .error .invalidArg)
  else if gradientMismatch pred dpred then some (dpred, .error .invalidArg)
  else
    (mulSize pred.rows pred.cols).bind fun n =>
      (forRange 0 n (fun i s =>
        pred.data[i]?.bind fun p => target.data[i]?.bind fun t =>
          let diff := p - t
          (setGradient i (((2 : ℕ) : F) * diff / n) s.2).map fun data => (s.1 + diff * diff, data))
        (0, dpred.map (·.data))).map fun s =>
          (dpred.bind fun d => s.2.map fun data => { d with data }, .ok (s.1 / n))

/-- The column of the first largest element of a row. -/
def rowArgmax (a : MatX F) (r : ℕ) : Option ℕ :=
  forRange 1 a.cols (fun c best =>
    (a.entry r c).bind fun x => (a.entry r best).map fun y => if x > y then c else best) 0

/-- The sum of the exponentials of a row from which the element in column `maxC` was
subtracted. -/
def shiftedSum (libm : Libm F) (logits : MatX F) (r maxC : ℕ) (max : F) : Option F :=
  forRange 0 logits.cols (fun c sum =>
    if c ≠ maxC then (logits.entry r c).map fun x => sum + libm.expf (x - max) else some sum) 1

/-- `log_sum` in `loss_softmax_xent`. -/
def rowLogSum (libm : Libm F) (logits : MatX F) (r : ℕ) : Option F :=
  (rowArgmax logits r).bind fun maxC => (logits.entry r maxC).bind fun max =>
    (shiftedSum libm logits r maxC max).map fun sum => libm.logf sum + max

/-- An element in `loss_softmax_xent`: the sum so far and the gradient after it. -/
def xentEntry (libm : Libm F) (logits onehot : MatX F) (logSum : F) (r c : ℕ)
    (s : F × Option (List F)) : Option (F × Option (List F)) :=
  (logits.entry r c).bind fun x => (onehot.entry r c).bind fun y =>
    let p := libm.expf (x - logSum)
    let total := if y > 0 then s.1 + y * (logSum - x) else s.1
    (entryIndex logits.cols r c).bind fun i =>
      (setGradient i ((p - y) / logits.rows) s.2).map fun data => (total, data)

/-- A row in `loss_softmax_xent`. -/
def xentRow (libm : Libm F) (logits onehot : MatX F) (r : ℕ) (s : F × Option (List F)) :
    Option (F × Option (List F)) :=
  (rowLogSum libm logits r).bind fun logSum =>
    forRange 0 logits.cols (xentEntry libm logits onehot logSum r) s

/-- `loss_softmax_xent`: the matrix `dlogits` after the call, and the loss or the code
returned. -/
def lossSoftmaxXent (libm : Libm F) (logits onehot : MatX F) (dlogits : Option (MatX F)) :
    Option (Option (MatX F) × Except ErrorCode F) :=
  if logits.data = [] ∨ onehot.data = [] then some (dlogits, .error .invalidArg)
  else if logits.rows ≠ onehot.rows ∨ logits.cols ≠ onehot.cols then
    some (dlogits, .error .invalidArg)
  else if gradientMismatch logits dlogits then some (dlogits, .error .invalidArg)
  else if logits.rows = 0 ∨ logits.cols = 0 then some (dlogits, .error .invalidArg)
  else
    (forRange 0 logits.rows (xentRow libm logits onehot) (0, dlogits.map (·.data))).map fun s =>
      (dlogits.bind fun d => s.2.map fun data => { d with data }, .ok (s.1 / logits.rows))

/-! ### Loops over a matrix -/

omit [Field F] [LinearOrder F] in
theorem not_gradientMismatch
    {a d : MatX F} {n k : ℕ} (ha : a.Shaped n k) (hd : d.Shaped n k) :
  ¬ gradientMismatch a (some d)
  := by
  rintro ⟨m, hm, hne⟩
  cases hm
  rw [hd.rows_eq, hd.cols_eq, ha.rows_eq, ha.cols_eq] at hne
  simp at hne

/-- A loop that adds to a sum. -/
theorem forRange_add {M : Type} [AddCommMonoid M] (f : ℕ → M) (n : ℕ) (t : M) :
  forRange 0 n (fun i t => some (t + f i)) t = some (t + ∑ i : Fin n, f i)
  := by
  have hbody : ∀ i t', 0 ≤ i → i < n → t' = t + ∑ j : Fin i, f j
      → ∃ t'', some (t' + f i) = some t'' ∧ t'' = t + ∑ j : Fin (i + 1), f j := by
    rintro i t' - - rfl
    use t + ∑ j : Fin i, f j + f i, rfl
    rw [Fin.sum_univ_castSucc, add_assoc]
    rfl
  have hzero : t = t + ∑ j : Fin 0, f j := by
    rw [Fin.sum_univ_zero, add_zero]
  obtain ⟨t', hloop, rfl⟩ := exists_forRange (Nat.zero_le n) hbody hzero
  exact hloop

/-- A loop that writes the gradient into a row. -/
def setRow (k : ℕ) (grad : ℕ → ℕ → F) (r : ℕ) (data : List F) : Option (List F) :=
  forRange 0 k (fun c data => update (fun _ x => x) data (r * k + c) (grad r c)) data

omit [Field F] [LinearOrder F] in
theorem forRange_setGradient (k : ℕ) (grad : ℕ → ℕ → F) (r : ℕ) (data : Option (List F)) :
  forRange 0 k (fun c => setGradient (r * k + c) (grad r c)) data
    = data.elim (some none) fun data => (setRow k grad r data).map some
  := forRange_option (fun c data => update (fun _ x => x) data (r * k + c) (grad r c))
    (fun c => setGradient (r * k + c) (grad r c)) (fun _ => rfl) (fun _ _ => rfl) 0 k data

omit [LinearOrder F] in
/-- The sum, and the matrix for the gradient unless it is a null pointer, after a loop over the
elements. -/
theorem forRange_gradient
    {n k : ℕ} {body : ℕ → ℕ → F × Option (List F) → Option (F × Option (List F))}
    (term grad : ℕ → ℕ → F) {d : Option (MatX F)} (hd : ∀ m ∈ d, m.Shaped n k)
    (hbody : ∀ r c s, r < n → c < k →
      body r c s = (setGradient (r * k + c) (grad r c) s.2).map fun data => (s.1 + term r c, data))
    (t : F) :
  ∃ data, forRange 0 n (fun r => forRange 0 k (body r)) (t, d.map (·.data))
      = some (t + ∑ r : Fin n, ∑ c : Fin k, term r c, data)
    ∧ (d = none ∧ data = none ∨ ∃ m xs, d = some m ∧ data = some xs
      ∧ MatX.Holds { m with data := xs } n k grad)
  := by
  let write (r : ℕ) (data : Option (List F)) : Option (Option (List F)) :=
    data.elim (some none) fun data => (setRow k grad r data).map some
  have hrow : ∀ r s, r < n → forRange 0 k (body r) s
      = (some (s.1 + ∑ c : Fin k, term r c)).bind fun t =>
        (write r s.2).map fun data => (t, data) := by
    rintro r ⟨t, data⟩ hr
    have hbody' : ∀ c, 0 ≤ c → c < k → ∀ s, body r c s
        = (some (s.1 + term r c)).bind fun t =>
          (setGradient (r * k + c) (grad r c) s.2).map fun data => (t, data) :=
      fun c _ hc s => hbody r c s hr hc
    rw [forRange_congr hbody', forRange_pair (fun c t => some (t + term r c))
      (fun c => setGradient (r * k + c) (grad r c)), forRange_add, forRange_setGradient]
  have hloop : forRange 0 n (fun r => forRange 0 k (body r)) (t, d.map (·.data))
      = (some (t + ∑ r : Fin n, ∑ c : Fin k, term r c)).bind fun t =>
        (forRange 0 n write (d.map (·.data))).map fun data => (t, data) := by
    rw [forRange_congr fun r _ hr s => hrow r s hr,
      forRange_pair (fun r t => some (t + ∑ c : Fin k, term r c)) write, forRange_add]
  rw [hloop, forRange_option (setRow k grad) write (fun _ => rfl) (fun _ _ => rfl)]
  cases d with
  | none => exact ⟨none, rfl, .inl ⟨rfl, rfl⟩⟩
  | some m =>
      obtain ⟨xs, hloop, hshaped, hat⟩ := (hd m rfl).fill_grid (fun r _ => r) (fun _ c => c)
        (fun r c data _ _ => (rfl : update (fun _ x => x) data (r * k + c) (grad r c) = _))
        (fun _ _ hr hc => ⟨hr, hc⟩) fun i j hi hj => ⟨i, j, hi, hj, rfl, fun _ _ _ _ => Iff.rfl⟩
      have hrows : forRange 0 n (setRow k grad) m.data = some xs := hloop
      refine ⟨some xs, ?_, .inr ⟨m, xs, rfl, rfl, hshaped, fun hr hc => hat _ _ hr hc⟩⟩
      rw [Option.map_some, Option.elim_some, hrows]
      rfl

/-! ### The rows of the logits -/

/-- The first of the largest elements of a row. -/
theorem rowArgmax_eq {a : MatX F} {n k r : ℕ} (ha : a.Shaped n k) (hr : r < n) :
  ∃ best, rowArgmax a r = some best ∧ best < k ∧ (∀ c, c < k → a.at r c ≤ a.at r best)
    ∧ ∀ c, c < best → a.at r c < a.at r best
  := by
  have hk : 0 < k := ha.cols_eq ▸ ha.made.cols_pos
  rw [rowArgmax, ha.cols_eq]
  apply exists_forRange (I := fun i best => best < i ∧ (∀ c, c < i → a.at r c ≤ a.at r best)
    ∧ ∀ c, c < best → a.at r c < a.at r best) hk
  · rintro i best - hi ⟨hbest, hmax, hfirst⟩
    rw [ha.entry_eq hr hi, ha.entry_eq hr (hbest.trans hi), Option.bind_some, Option.map_some]
    by_cases hlt : a.at r i > a.at r best
    · rw [if_pos hlt]
      refine ⟨i, rfl, Nat.lt_succ_self i, ?_, ?_⟩
      · intro c hc
        rcases Nat.lt_succ_iff_lt_or_eq.mp hc with hc | rfl
        · exact (hmax c hc).trans hlt.le
        · exact le_rfl
      · intro c hc
        exact (hmax c hc).trans_lt hlt
    · rw [if_neg hlt]
      refine ⟨best, rfl, hbest.trans (Nat.lt_succ_self i), ?_, hfirst⟩
      intro c hc
      rcases Nat.lt_succ_iff_lt_or_eq.mp hc with hc | rfl
      · exact hmax c hc
      · exact not_lt.mp hlt
  · refine ⟨Nat.one_pos, ?_, ?_⟩
    · intro c hc
      rw [Nat.lt_one_iff.mp hc]
    · intro c hc
      exact absurd hc (Nat.not_lt_zero c)

open LogSumExp

variable {logits onehot : MatX ℝ} {n k r maxC : ℕ}

/-- The exponentials of a row from which its element in column `maxC` was subtracted; that element
counts as one. -/
theorem shiftedSum_eq (h : logits.Shaped n k) (hr : r < n) (hmax : maxC < k) :
  shiftedSum Libm.real logits r maxC (logits.at r maxC)
    = some (∑ c : Fin k, Real.exp (rowOf logits k r c - logits.at r maxC))
  := by
  let f (c : ℕ) : ℝ := if c ≠ maxC then Real.exp (logits.at r c - logits.at r maxC) else 0
  have hbody : ∀ c, 0 ≤ c → c < k → ∀ sum : ℝ,
      (if c ≠ maxC then (logits.entry r c).map fun x =>
        sum + Libm.real.expf (x - logits.at r maxC) else some sum) = some (sum + f c) := by
    intro c _ hc sum
    by_cases hne : c ≠ maxC
    · rw [if_pos hne, h.entry_eq hr hc, Option.map_some]
      simp only [f, if_pos hne]
      rfl
    · rw [if_neg hne]
      simp only [f, if_neg hne, add_zero]
  have hsum : ∑ c : Fin k, Real.exp (rowOf logits k r c - logits.at r maxC)
      = 1 + ∑ c : Fin k, f c := by
    have hone : (1 : ℝ) = ∑ c : Fin k, if c = ⟨maxC, hmax⟩ then 1 else 0 := by
      rw [Finset.sum_ite_eq' Finset.univ, if_pos (Finset.mem_univ _)]
    rw [hone, ← Finset.sum_add_distrib]
    apply Finset.sum_congr rfl
    intro c _
    by_cases hc : c = ⟨maxC, hmax⟩
    · subst hc
      simp [f, rowOf]
    · have hne : (c : ℕ) ≠ maxC := fun heq => hc (Fin.ext heq)
      simp [f, rowOf, hc, hne]
  rw [shiftedSum, h.cols_eq, forRange_congr hbody, forRange_add, hsum]

/-- No exponential overflows: no argument of `expf` is positive, neither before `log_sum` is known
nor after, and the sum of which the logarithm is taken is at least one. -/
def StableRow (logits : MatX ℝ) (k r : ℕ) : Prop :=
  ∃ maxC max sum logSum, rowArgmax logits r = some maxC ∧ logits.entry r maxC = some max
    ∧ shiftedSum Libm.real logits r maxC max = some sum ∧ 1 ≤ sum ∧ sum ≤ k
    ∧ (∀ c : Fin k, rowOf logits k r c - max ≤ 0)
    ∧ rowLogSum Libm.real logits r = some logSum ∧ ∀ c : Fin k, rowOf logits k r c - logSum ≤ 0

/-- `log_sum` is the logarithm of the sum of the exponentials of the row. -/
theorem rowLogSum_eq (h : logits.Shaped n k) (hr : r < n) :
  rowLogSum Libm.real logits r = some (logSumExp (rowOf logits k r))
  := by
  obtain ⟨maxC, hargmax, hmaxC, -⟩ := rowArgmax_eq h hr
  have : Nonempty (Fin k) := ⟨⟨maxC, hmaxC⟩⟩
  rw [rowLogSum, hargmax, Option.bind_some, h.entry_eq hr hmaxC, Option.bind_some,
    shiftedSum_eq h hr hmaxC, Option.map_some, ← logSumExp_shift _ (logits.at r maxC)]
  rfl

theorem stableRow (h : logits.Shaped n k) (hr : r < n) : StableRow logits k r := by
  obtain ⟨maxC, hargmax, hmaxC, hle, -⟩ := rowArgmax_eq h hr
  have hle' : ∀ c : Fin k, rowOf logits k r c - logits.at r maxC ≤ 0 :=
    fun c => sub_nonpos.mpr (hle c c.isLt)
  have : Nonempty (Fin k) := ⟨⟨maxC, hmaxC⟩⟩
  have hlog : ∀ c : Fin k, rowOf logits k r c - logSumExp (rowOf logits k r) ≤ 0 :=
    fun c => sub_nonpos.mpr (le_logSumExp _ c)
  refine ⟨maxC, _, _, _, hargmax, h.entry_eq hr hmaxC, shiftedSum_eq h hr hmaxC, ?_, ?_, hle',
    rowLogSum_eq h hr, hlog⟩
  · have hone : Real.exp (rowOf logits k r ⟨maxC, hmaxC⟩ - logits.at r maxC) = 1 := by
      rw [rowOf, sub_self, Real.exp_zero]
    rw [← hone]
    exact Finset.single_le_sum
      (f := fun c : Fin k => Real.exp (rowOf logits k r c - logits.at r maxC))
      (fun c _ => (Real.exp_pos _).le) (Finset.mem_univ (⟨maxC, hmaxC⟩ : Fin k))
  · calc
      ∑ c : Fin k, Real.exp (rowOf logits k r c - logits.at r maxC)
        ≤ ∑ _c : Fin k, (1 : ℝ) := Finset.sum_le_sum fun c _ => Real.exp_le_one_iff.mpr (hle' c)
      _ = k := by simp

/-! ### The cross-entropy -/

/-- The targets of a batch: each row is a distribution over the classes. -/
structure Targets (onehot : MatX ℝ) (n k : ℕ) : Prop where
  shaped : onehot.Shaped n k
  nonneg : ∀ r c, r < n → c < k → 0 ≤ onehot.at r c
  sum_eq : ∀ r, r < n → ∑ c : Fin k, onehot.at r c = 1

/-- The mean over the rows of the cross-entropy. -/
noncomputable def meanCrossEntropy (Y X : Matrix (Fin n) (Fin k) ℝ) : ℝ :=
  (∑ r, crossEntropy (Y r) (X r)) / n

/-- The gradient of the mean cross-entropy. -/
noncomputable def crossEntropyGradient (Y X : Matrix (Fin n) (Fin k) ℝ) :
    Matrix (Fin n) (Fin k) ℝ :=
  Matrix.of fun r c => (softmax (X r) c - Y r c) / n

theorem hasGradient_meanCrossEntropy
    [Nonempty (Fin k)] {Y : Matrix (Fin n) (Fin k) ℝ} (hY : ∀ r, ∑ c, Y r c = 1)
    (X : Matrix (Fin n) (Fin k) ℝ) :
  Backprop.HasGradient (meanCrossEntropy Y) (crossEntropyGradient Y X) X
  := by
  rintro X' dX t rfl hX
  have hrows : HasDerivAt (fun s => ∑ r, crossEntropy (Y r) (X' s r))
      (∑ r, ∑ c, (softmax (X' t r) c - Y r c) * dX r c) t :=
    HasDerivAt.fun_sum fun r _ => hasDerivAt_crossEntropy (hY r) (hX r)
  have hmean := hrows.div_const (n : ℝ)
  have hderiv : (∑ r, ∑ c, (softmax (X' t r) c - Y r c) * dX r c) / (n : ℝ)
      = Frobenius.entryPairing (crossEntropyGradient Y (X' t)) dX := by
    simp only [Frobenius.entryPairing, crossEntropyGradient, Matrix.of_apply, Finset.sum_div,
      div_mul_eq_mul_div]
  rwa [hderiv] at hmean

theorem xentEntry_eq
    (hlogits : logits.Shaped n k) (htargets : Targets onehot n k) (hr : r < n) {c : ℕ}
    (hc : c < k) (logSum : ℝ) (s : ℝ × Option (List ℝ)) :
  xentEntry Libm.real logits onehot logSum r c s
    = (setGradient (r * k + c) ((Real.exp (logits.at r c - logSum) - onehot.at r c) / n) s.2).map
      fun data => (s.1 + onehot.at r c * (logSum - logits.at r c), data)
  := by
  have htotal : (if onehot.at r c > 0 then s.1 + onehot.at r c * (logSum - logits.at r c) else s.1)
      = s.1 + onehot.at r c * (logSum - logits.at r c) := by
    by_cases hpos : onehot.at r c > 0
    · rw [if_pos hpos]
    · have hzero : onehot.at r c = 0 := le_antisymm (not_lt.mp hpos) (htargets.nonneg r c hr hc)
      rw [if_neg hpos, hzero, zero_mul, add_zero]
  rw [xentEntry, hlogits.entry_eq hr hc, Option.bind_some, htargets.shaped.entry_eq hr hc,
    Option.bind_some, hlogits.cols_eq, hlogits.entryIndex_eq hr hc, Option.bind_some,
    hlogits.rows_eq, htotal]
  rfl

/-- What `loss_softmax_xent` computes. -/
theorem lossSoftmaxXent_eq
    (hlogits : logits.Shaped n k) (htargets : Targets onehot n k) {d : MatX ℝ}
    (hd : d.Shaped n k) :
  ∃ d', lossSoftmaxXent Libm.real logits onehot (some d)
      = some (some d', .ok (meanCrossEntropy (onehot.matrix n k) (logits.matrix n k)))
    ∧ d'.Shaped n k
    ∧ d'.matrix n k = crossEntropyGradient (onehot.matrix n k) (logits.matrix n k)
  := by
  have honehot := htargets.shaped
  have hn : 0 < n := hlogits.rows_eq ▸ hlogits.made.rows_pos
  have hk : 0 < k := hlogits.cols_eq ▸ hlogits.made.cols_pos
  let logSum (r : ℕ) : ℝ := logSumExp (rowOf logits k r)
  obtain ⟨data, hloop, hdata⟩ := forRange_gradient (d := some d)
    (fun r c => onehot.at r c * (logSum r - logits.at r c))
    (fun r c => (Real.exp (logits.at r c - logSum r) - onehot.at r c) / n)
    (fun m hm => by cases hm; exact hd) (fun _ _ _ _ _ => rfl) 0
  obtain ⟨⟨⟩, -⟩ | ⟨m, xs, hm, rfl, hholds⟩ := hdata
  cases hm
  have hrow : ∀ r, 0 ≤ r → r < n → ∀ s, xentRow Libm.real logits onehot r s
      = forRange 0 k (fun c s => (setGradient (r * k + c)
        ((Real.exp (logits.at r c - logSum r) - onehot.at r c) / n) s.2).map fun data =>
          (s.1 + onehot.at r c * (logSum r - logits.at r c), data)) s := by
    intro r _ hr s
    rw [xentRow, rowLogSum_eq hlogits hr, Option.bind_some, hlogits.cols_eq]
    apply forRange_congr
    intro c _ hc s
    exact xentEntry_eq hlogits htargets hr hc (logSum r) s
  refine ⟨{ d with data := xs }, ?_, hholds.shaped, ?_⟩
  · rw [lossSoftmaxXent, if_neg (not_or.mpr ⟨hlogits.data_ne_nil, honehot.data_ne_nil⟩), if_neg,
      if_neg (not_gradientMismatch hlogits hd), if_neg, hlogits.rows_eq, forRange_congr hrow,
      hloop]
    · rw [zero_add]
      rfl
    · rw [hlogits.rows_eq, hlogits.cols_eq]
      omega
    · rw [hlogits.rows_eq, hlogits.cols_eq, honehot.rows_eq, honehot.cols_eq]
      simp
  · ext r c
    exact hholds.at_eq r.isLt c.isLt

/-- `loss_softmax_xent` gives the mean cross-entropy of the softmax of the rows and its exact
gradient with respect to the logits; the gradient of each row has the sum zero, and no
exponential that it computes overflows. -/
theorem loss_softmax_xent_gradient
    (hlogits : logits.Shaped n k) (htargets : Targets onehot n k) {d : MatX ℝ}
    (hd : d.Shaped n k) :
  ∃ d' loss, lossSoftmaxXent Libm.real logits onehot (some d) = some (some d', .ok loss)
    ∧ loss = meanCrossEntropy (onehot.matrix n k) (logits.matrix n k) ∧ 0 ≤ loss
    ∧ Backprop.HasGradient (meanCrossEntropy (onehot.matrix n k)) (d'.matrix n k)
      (logits.matrix n k)
    ∧ ∀ r, r < n → StableRow logits k r ∧ ∑ c : Fin k, d'.at r c = 0
  := by
  have hk : 0 < k := hlogits.cols_eq ▸ hlogits.made.cols_pos
  have : Nonempty (Fin k) := ⟨⟨0, hk⟩⟩
  obtain ⟨d', hcall, -, hgrad⟩ := lossSoftmaxXent_eq hlogits htargets hd
  refine ⟨d', _, hcall, rfl, ?_, ?_, ?_⟩
  · apply div_nonneg _ (Nat.cast_nonneg n)
    apply Finset.sum_nonneg
    intro r _
    exact crossEntropy_nonneg (fun c : Fin k => htargets.nonneg r c r.isLt c.isLt) _
  · rw [hgrad]
    exact hasGradient_meanCrossEntropy (fun r => htargets.sum_eq r r.isLt) _
  · intro r hr
    use stableRow hlogits hr
    have hat : ∀ c : Fin k, d'.at r c
        = (softmax (logits.matrix n k ⟨r, hr⟩) c - onehot.at r c) / n :=
      fun c => congrFun (congrFun hgrad ⟨r, hr⟩) c
    simp only [hat]
    rw [← Finset.sum_div, Finset.sum_sub_distrib, sum_softmax, htargets.sum_eq r hr, sub_self,
      zero_div]

/-- Two classes, of which the second one is right. -/
theorem loss_softmax_xent_gradient_two :
  ∃ (d : MatX ℝ) (loss : ℝ), lossSoftmaxXent Libm.real ⟨[1, 2], 1, 2⟩ ⟨[0, 1], 1, 2⟩
      (some ⟨[0, 0], 1, 2⟩) = some (some d, .ok loss)
    ∧ 0 ≤ loss ∧ ∑ c : Fin 2, d.at 0 c = 0
  := by
  have hcount : checkedCount 1 2 = .ok 2 := by decide
  have htwo : ∀ a b : ℝ, MatX.Shaped ⟨[a, b], 1, 2⟩ 1 2 := fun _ _ => ⟨hcount, rfl, rfl⟩
  have htargets : Targets ⟨[0, 1], 1, 2⟩ 1 2 := by
    refine ⟨htwo 0 1, ?_, ?_⟩
    · intro r c hr hc
      obtain rfl : r = 0 := Nat.lt_one_iff.mp hr
      rcases Nat.le_one_iff_eq_zero_or_eq_one.mp (Nat.lt_succ_iff.mp hc) with rfl | rfl
      · exact le_refl 0
      · exact zero_le_one
    · intro r hr
      obtain rfl : r = 0 := Nat.lt_one_iff.mp hr
      exact (Fin.sum_univ_two _).trans (zero_add 1)
  obtain ⟨d, loss, hcall, -, hnonneg, -, hrows⟩ :=
    loss_softmax_xent_gradient (htwo 1 2) htargets (htwo 0 0)
  exact ⟨d, loss, hcall, hnonneg, (hrows 0 Nat.one_pos).2⟩

/-! ### The squared error -/

/-- The mean over the elements of the squared differences. -/
noncomputable def meanSquaredError (T P : Matrix (Fin n) (Fin k) ℝ) : ℝ :=
  (∑ r, ∑ c, (P r c - T r c) * (P r c - T r c)) / ((n * k : ℕ) : ℝ)

theorem hasGradient_meanSquaredError (T P : Matrix (Fin n) (Fin k) ℝ) :
  Backprop.HasGradient (meanSquaredError T)
    (Matrix.of fun r c => ((2 : ℕ) : ℝ) * (P r c - T r c) / ((n * k : ℕ) : ℝ)) P
  := by
  rintro X dX t rfl hX
  have hsum : HasDerivAt (fun s => ∑ r, ∑ c, (X s r c - T r c) * (X s r c - T r c))
      (∑ r, ∑ c, (dX r c * (X t r c - T r c) + (X t r c - T r c) * dX r c)) t :=
    HasDerivAt.fun_sum fun r _ => HasDerivAt.fun_sum fun c _ =>
      ((hX r c).sub_const (T r c)).mul ((hX r c).sub_const (T r c))
  have hmean := hsum.div_const ((n * k : ℕ) : ℝ)
  have hderiv : (∑ r, ∑ c, (dX r c * (X t r c - T r c) + (X t r c - T r c) * dX r c))
        / ((n * k : ℕ) : ℝ)
      = Frobenius.entryPairing
        (Matrix.of fun r c => ((2 : ℕ) : ℝ) * (X t r c - T r c) / ((n * k : ℕ) : ℝ)) dX := by
    simp only [Frobenius.entryPairing, Matrix.of_apply, Finset.sum_div]
    apply Finset.sum_congr rfl
    intro r _
    apply Finset.sum_congr rfl
    intro c _
    ring
  rwa [hderiv] at hmean

/-- A sum over the elements of a matrix, stored row by row. -/
theorem sum_elements (f : ℕ → ℕ → ℝ) (n k : ℕ) :
  ∑ i : Fin (n * k), f (i / k) (i % k) = ∑ r : Fin n, ∑ c : Fin k, f r c
  := by
  rw [← Fintype.sum_prod_type', ← finProdFinEquiv.sum_comp]
  apply Finset.sum_congr rfl
  rintro ⟨r, c⟩ _
  have hk : 0 < k := Nat.zero_lt_of_lt c.isLt
  simp only [finProdFinEquiv_apply_val, Nat.add_mul_div_left _ _ hk, Nat.div_eq_of_lt c.isLt,
    Nat.add_mul_mod_self_left, Nat.mod_eq_of_lt c.isLt, Nat.zero_add]

variable {pred target : MatX ℝ}

/-- `loss_mse` gives the mean squared error and its exact gradient with respect to the
predictions. -/
theorem loss_mse_gradient
    (hpred : pred.Shaped n k) (htarget : target.Shaped n k) {d : MatX ℝ} (hd : d.Shaped n k) :
  ∃ d', lossMse pred target (some d)
      = some (some d', .ok (meanSquaredError (target.matrix n k) (pred.matrix n k)))
    ∧ Backprop.HasGradient (meanSquaredError (target.matrix n k)) (d'.matrix n k)
      (pred.matrix n k)
  := by
  have hk : 0 < k := hpred.cols_eq ▸ hpred.made.cols_pos
  have hcount : mulSize n k = some (n * k) := by
    have hsize := hpred.made.size_le
    rw [hpred.rows_eq, hpred.cols_eq] at hsize
    exact mulSize_of_le (Nat.le_trans (Nat.le_mul_of_pos_right _ (by decide)) hsize)
  let diff (i : ℕ) : ℝ := pred.at (i / k) (i % k) - target.at (i / k) (i % k)
  let grad (i : ℕ) : ℝ := ((2 : ℕ) : ℝ) * diff i / ((n * k : ℕ) : ℝ)
  have hget : ∀ {a : MatX ℝ}, a.Shaped n k → ∀ i, i < n * k →
      a.data[i]? = some (a.at (i / k) (i % k)) := by
    intro a ha i hi
    have hr : i / k < n := Nat.div_lt_of_lt_mul (by rwa [Nat.mul_comm] at hi)
    have hentry := ha.getElem?_eq hr (Nat.mod_lt i hk)
    rwa [Nat.div_add_mod'] at hentry
  have hgrad : ∀ r c, r < n → c < k →
      some (grad (r * k + c))
      = some (((2 : ℕ) : ℝ) * (pred.at r c - target.at r c) / ((n * k : ℕ) : ℝ)) := by
    intro r c _ hc
    simp only [grad, diff, Nat.mul_comm r k, Nat.mul_add_div hk, Nat.div_eq_of_lt hc,
      Nat.mul_add_mod, Nat.mod_eq_of_lt hc, Nat.add_zero]
  obtain ⟨d', hassign, hshaped, hat⟩ := hd.assignAll (f := fun i => some (grad i)) hgrad
  rw [assignAll, hcount, Option.bind_some, Option.map_eq_some_iff] at hassign
  obtain ⟨data, hdata, heq⟩ := hassign
  cases heq
  refine ⟨{ d with data }, ?_, ?_⟩
  · rw [lossMse, if_neg (not_or.mpr ⟨hpred.data_ne_nil, htarget.data_ne_nil⟩), if_neg,
      if_neg (not_gradientMismatch hpred hd), hpred.rows_eq, hpred.cols_eq, hcount,
      Option.bind_some]
    · have hbody : ∀ i, 0 ≤ i → i < n * k → ∀ s : ℝ × Option (List ℝ),
          (pred.data[i]?.bind fun p => target.data[i]?.bind fun t =>
            (setGradient i (((2 : ℕ) : ℝ) * (p - t) / ((n * k : ℕ) : ℝ)) s.2).map fun data =>
              (s.1 + (p - t) * (p - t), data))
          = (some (s.1 + diff i * diff i)).bind fun t =>
            (setGradient i (grad i) s.2).map fun data => (t, data) := by
        intro i _ hi s
        rw [hget hpred i hi, hget htarget i hi]
        rfl
      rw [forRange_congr hbody, forRange_pair (fun i t => some (t + diff i * diff i))
        (fun i => setGradient i (grad i)), forRange_add,
        forRange_option (fun i data => update (fun _ x => x) data i (grad i))
          (fun i => setGradient i (grad i)) (fun _ => rfl) (fun _ _ => rfl),
        Option.map_some, Option.elim_some]
      have hsum : ∑ i : Fin (n * k), diff i * diff i
          = ∑ r : Fin n, ∑ c : Fin k,
            (pred.at r c - target.at r c) * (pred.at r c - target.at r c) :=
        sum_elements (fun r c => (pred.at r c - target.at r c) * (pred.at r c - target.at r c)) n k
      have hwrite : forRange 0 (n * k) (fun i data => update (fun _ x => x) data i (grad i)) d.data
          = some data := hdata
      rw [hwrite, zero_add, hsum]
      rfl
    · rw [hpred.rows_eq, hpred.cols_eq, htarget.rows_eq, htarget.cols_eq]
      simp
  · have hmatrix : MatX.matrix { d with data } n k
        = Matrix.of fun r c => ((2 : ℕ) : ℝ) * (pred.matrix n k r c - target.matrix n k r c)
          / ((n * k : ℕ) : ℝ) := by
      ext r c
      exact hat r c r.isLt c.isLt
    rw [hmatrix]
    exact hasGradient_meanSquaredError _ _

/-- Two predictions. -/
theorem loss_mse_gradient_two :
  lossMse ⟨[3, 5], 1, 2⟩ ⟨[1, 1], 1, 2⟩ (some ⟨[0, 0], 1, 2⟩)
      = some (some (⟨[2, 4], 1, 2⟩ : MatX ℝ), .ok 10)
    ∧ Backprop.HasGradient (meanSquaredError (MatX.matrix (⟨[1, 1], 1, 2⟩ : MatX ℝ) 1 2))
      (MatX.matrix ⟨[2, 4], 1, 2⟩ 1 2) (MatX.matrix ⟨[3, 5], 1, 2⟩ 1 2)
  := by
  have hcount : checkedCount 1 2 = .ok 2 := by decide
  have htwo : ∀ a b : ℝ, MatX.Shaped ⟨[a, b], 1, 2⟩ 1 2 := fun _ _ => ⟨hcount, rfl, rfl⟩
  have hmul : mulSize 1 2 = some 2 := by decide
  have hcomputed : lossMse ⟨[3, 5], 1, 2⟩ ⟨[1, 1], 1, 2⟩ (some ⟨[0, 0], 1, 2⟩)
      = some (some (⟨[2, 4], 1, 2⟩ : MatX ℝ), .ok 10) := by
    rw [lossMse, if_neg (by simp)]
    norm_num [hmul, forRange, gradientMismatch, setGradient, update, List.range']
  obtain ⟨d, hcall, hgradient⟩ := loss_mse_gradient (htwo 3 5) (htwo 1 1) (htwo 0 0)
  rw [hcomputed] at hcall
  obtain rfl := Option.some.inj (Prod.mk.inj (Option.some.inj hcall)).1
  exact ⟨hcomputed, hgradient⟩

end CTemplate

import CTemplate.Core.Stdio
import CTemplate.Library.MovingAverage
import CTemplate.Ml.Activation

/-!
# Adam

`adam_init` and `adam_step` of `ml/nn.c`.  After any steps the two moments of a parameter are
sums of its gradients and their squares with decaying weights, and dividing them by `bc1` and `bc2`
makes averages of them.  No step moves a parameter by ten times the learning rate, whatever the
gradients are.

The elements are those of an ordered field; the constants of the source are exact.
-/

namespace CTemplate

open Loop

variable {F : Type}

section Functions

variable [Field F] [LinearOrder F]

/-- `ADAM_BETA1` -/
def adamBeta1 : F := 9 / 10

/-- `ADAM_BETA2` -/
def adamBeta2 : F := 999 / 1000

/-- `ADAM_EPS` -/
def adamEps : F := 1 / 100000000

/-- `AdamState` -/
structure AdamState (F : Type) where
  mw : MatX F
  vw : MatX F
  mb : MatX F
  vb : MatX F
  t : ℕ

/-- `adam_init` -/
def adamInit (calloc : ℕ → Calloc) (l : DenseLayer F) : Except ErrorCode (AdamState F) :=
  if l.w.data = [] then .error .invalidArg
  else do
    let mw ← matxInit (calloc 0) l.w.rows l.w.cols
    let vw ← matxInit (calloc 1) l.w.rows l.w.cols
    let mb ← matxInit (calloc 2) 1 l.b.cols
    let vb ← matxInit (calloc 3) 1 l.b.cols
    pure { mw, vw, mb, vb, t := 0 }

/-- A parameter with its moments. -/
structure AdamEntry (F : Type) where
  param : F
  m : F
  v : F

/-- The update of one parameter. -/
def adamEntry (libm : Libm F) (lr : F) (t : ℕ) (grad : F) (e : AdamEntry F) : AdamEntry F :=
  let bc1 := 1 - adamBeta1 ^ t
  let bc2 := 1 - adamBeta2 ^ t
  let m := adamBeta1 * e.m + (1 - adamBeta1) * grad
  let v := adamBeta2 * e.v + (1 - adamBeta2) * grad * grad
  let mhat := m / bc1
  let vhat := v / bc2
  { param := e.param - lr * mhat / (libm.sqrtf vhat + adamEps), m, v }

/-- The arrays of `adam_update`. -/
structure AdamArrays (F : Type) where
  param : List F
  m : List F
  v : List F

/-- The elements at an index of the arrays. -/
def AdamArrays.entry (s : AdamArrays F) (i : ℕ) : Option (AdamEntry F) :=
  s.param[i]?.bind fun param => s.m[i]?.bind fun m => s.v[i]?.map fun v => { param, m, v }

/-- The arrays with other elements at an index. -/
def AdamArrays.set (s : AdamArrays F) (i : ℕ) (e : AdamEntry F) : AdamArrays F where
  param := s.param.set i e.param
  m := s.m.set i e.m
  v := s.v.set i e.v

/-- `adam_update` -/
def adamUpdate (libm : Libm F) (grad : List F) (n : ℕ) (lr : F) (t : ℕ) (s : AdamArrays F) :
    Option (AdamArrays F) :=
  forRange 0 n (fun i s => grad[i]?.bind fun g => (s.entry i).map fun e =>
    s.set i (adamEntry libm lr t g e)) s

/-- The arrays of a matrix of parameters and of their moments. -/
def adamArrays (w m v : MatX F) : AdamArrays F where
  param := w.data
  m := m.data
  v := v.data

/-- The state with the moments of the weights and the biases in the arrays. -/
def AdamState.store (s : AdamState F) (t : ℕ) (ws bs : AdamArrays F) : AdamState F where
  mw := { s.mw with data := ws.m }
  vw := { s.vw with data := ws.v }
  mb := { s.mb with data := bs.m }
  vb := { s.vb with data := bs.v }
  t := t

/-- The layer with the weights and the biases in the arrays. -/
def DenseLayer.store (l : DenseLayer F) (ws bs : AdamArrays F) : DenseLayer F :=
  { l with w := { l.w with data := ws.param }, b := { l.b with data := bs.param } }

/-- `adam_step`, or `none` when the number of steps overflows. -/
def adamStep (libm : Libm F) (s : AdamState F) (l : DenseLayer F) (lr : F) :
    Option (AdamState F × DenseLayer F × ErrorCode) :=
  if s.mw.data = [] ∨ l.w.data = [] ∨ lr ≤ 0 then some (s, l, .invalidArg)
  else if s.mw.rows ≠ l.w.rows ∨ s.mw.cols ≠ l.w.cols then some (s, l, .invalidArg)
  else if s.t + 1 > intMax then none
  else
    let t := s.t + 1
    (mulSize l.w.rows l.w.cols).bind fun n =>
      (adamUpdate libm l.dw.data n lr t (adamArrays l.w s.mw s.vw)).bind fun ws =>
        (adamUpdate libm l.db.data l.b.cols lr t (adamArrays l.b s.mb s.vb)).map fun bs =>
          (s.store t ws bs, l.store ws bs, .ok)

end Functions

/-! ### One step -/

/-- The arrays have `n` elements. -/
structure AdamArrays.HasLength (s : AdamArrays F) (n : ℕ) : Prop where
  param : s.param.length = n
  m : s.m.length = n
  v : s.v.length = n

variable {s : AdamArrays F} {n i j : ℕ}

theorem AdamArrays.HasLength.set (h : s.HasLength n) (i : ℕ) (e : AdamEntry F) :
  (s.set i e).HasLength n
  where
  param := by rw [AdamArrays.set, List.length_set, h.param]
  m := by rw [AdamArrays.set, List.length_set, h.m]
  v := by rw [AdamArrays.set, List.length_set, h.v]

theorem AdamArrays.HasLength.exists_entry (h : s.HasLength n) (hi : i < n) :
  ∃ e, s.entry i = some e
  := by
  rw [AdamArrays.entry, List.getElem?_eq_getElem (by rwa [h.param]),
    List.getElem?_eq_getElem (by rwa [h.m]), List.getElem?_eq_getElem (by rwa [h.v])]
  exact ⟨_, rfl⟩

theorem AdamArrays.HasLength.entry_set_self (h : s.HasLength n) (hi : i < n) (e : AdamEntry F) :
  (s.set i e).entry i = some e
  := by
  rw [AdamArrays.entry, AdamArrays.set, List.getElem?_set_self (by rwa [h.param]),
    List.getElem?_set_self (by rwa [h.m]), List.getElem?_set_self (by rwa [h.v])]
  rfl

theorem AdamArrays.entry_set_ne (hne : i ≠ j) (e : AdamEntry F) :
  (s.set i e).entry j = s.entry j
  := by
  rw [AdamArrays.entry, AdamArrays.set, List.getElem?_set_ne hne, List.getElem?_set_ne hne,
    List.getElem?_set_ne hne]
  rfl

/-- All parameters are updated, each once. -/
theorem adamUpdate_eq
    [Field F] [LinearOrder F] {grad : List F} (hgrad : grad.length = n) (h : s.HasLength n)
    (libm : Libm F) (lr : F) (t : ℕ) :
  ∃ s', adamUpdate libm grad n lr t s = some s' ∧ s'.HasLength n
    ∧ ∀ i e g, s.entry i = some e → grad[i]? = some g →
      s'.entry i = some (adamEntry libm lr t g e)
  := by
  let Updated (i : ℕ) (s' : AdamArrays F) : Prop := s'.HasLength n
    ∧ ∀ j e g, s.entry j = some e → grad[j]? = some g →
      s'.entry j = some (if j < i then adamEntry libm lr t g e else e)
  have hbody : ∀ i s', 0 ≤ i → i < n → Updated i s' →
      ∃ s'', (grad[i]?.bind fun g => (s'.entry i).map fun e =>
        s'.set i (adamEntry libm lr t g e)) = some s'' ∧ Updated (i + 1) s'' := by
    rintro i s' - hi ⟨hlength, hentry⟩
    obtain ⟨e, he⟩ := h.exists_entry hi
    obtain ⟨g, hg⟩ : ∃ g, grad[i]? = some g := ⟨_, List.getElem?_eq_getElem (by rwa [hgrad])⟩
    have he' := hentry i e g he hg
    rw [if_neg (Nat.lt_irrefl i)] at he'
    refine ⟨_, by rw [hg, Option.bind_some, he', Option.map_some], hlength.set i _, ?_⟩
    intro j e' g' hj hg'
    by_cases hji : j = i
    · subst hji
      rw [hj] at he
      rw [hg] at hg'
      cases he
      cases hg'
      rw [hlength.entry_set_self hi, if_pos (Nat.lt_succ_self j)]
    · have hlt : j < i + 1 ↔ j < i := by
        omega
      rw [AdamArrays.entry_set_ne (Ne.symm hji), hentry j e' g' hj hg']
      simp only [hlt]
  have hstart : Updated 0 s := by
    refine ⟨h, ?_⟩
    intro j e g hj _
    rw [if_neg (Nat.not_lt_zero j), hj]
  obtain ⟨s', hrun, hlength, hentry⟩ := exists_forRange (Nat.zero_le n) hbody hstart
  refine ⟨s', hrun, hlength, ?_⟩
  intro i e g he hg
  have hi : i < n := by
    rw [← hgrad]
    exact (List.getElem?_eq_some_iff.mp hg).1
  rw [hentry i e g he hg, if_pos hi]

/-! ### One step on matrices -/

section Step

variable [Field F] [LinearOrder F]

/-- The entry of a parameter. -/
def entryAt (w m v : MatX F) (r c : ℕ) : AdamEntry F where
  param := w.at r c
  m := m.at r c
  v := v.at r c

/-- Matrices of parameters and moments, with `n` rows and `k` columns. -/
structure AdamShape (w m v : MatX F) (n k : ℕ) : Prop where
  w : w.Shaped n k
  m : m.Shaped n k
  v : v.Shaped n k

variable {w m v grad : MatX F} {k : ℕ}

omit [Field F] [LinearOrder F] in
theorem AdamShape.hasLength (h : AdamShape w m v n k) :
  (adamArrays w m v).HasLength (n * k)
  where
  param := h.w.length_data
  m := h.m.length_data
  v := h.v.length_data

omit [LinearOrder F] in
theorem AdamShape.entry_eq (h : AdamShape w m v n k) {r c : ℕ} (hr : r < n) (hc : c < k) :
  (adamArrays w m v).entry (r * k + c) = some (entryAt w m v r c)
  := by
  rw [AdamArrays.entry, adamArrays, h.w.getElem?_eq hr hc, h.m.getElem?_eq hr hc,
    h.v.getElem?_eq hr hc]
  rfl

/-- The matrices with the arrays after an update. -/
theorem AdamShape.update
    (h : AdamShape w m v n k) (hgrad : grad.Shaped n k) (libm : Libm F) (lr : F) (t : ℕ) :
  ∃ s', adamUpdate libm grad.data (n * k) lr t (adamArrays w m v) = some s'
    ∧ AdamShape { w with data := s'.param } { m with data := s'.m } { v with data := s'.v } n k
    ∧ ∀ r c, r < n → c < k →
      entryAt { w with data := s'.param } { m with data := s'.m } { v with data := s'.v } r c
        = adamEntry libm lr t (grad.at r c) (entryAt w m v r c)
  := by
  obtain ⟨s', hrun, hlength, hentry⟩ :=
    adamUpdate_eq hgrad.length_data h.hasLength libm lr t
  have hshape : AdamShape { w with data := s'.param } { m with data := s'.m }
      { v with data := s'.v } n k := by
    constructor
    · exact h.w.with_data (hlength.param.trans h.w.length_data.symm)
    · exact h.m.with_data (hlength.m.trans h.m.length_data.symm)
    · exact h.v.with_data (hlength.v.trans h.v.length_data.symm)
  refine ⟨s', hrun, hshape, ?_⟩
  intro r c hr hc
  have heq := hentry _ _ _ (h.entry_eq hr hc) (hgrad.getElem?_eq hr hc)
  have hnew := hshape.entry_eq hr hc
  rw [← Option.some.injEq, ← hnew, ← heq]
  rfl

end Step

/-! ### The moments of a parameter -/

open MovingAverage

/-- By how much a step lowers a parameter whose gradients were `gs`, the last one included. -/
noncomputable def adamMove (lr : ℝ) (gs : List ℝ) : ℝ :=
  lr * average adamBeta1 gs / (Real.sqrt (average adamBeta2 (gs.map (· ^ 2))) + adamEps)

/-- The moments of a parameter are those of the gradients `gs`. -/
structure HasMoments (gs : List ℝ) (e : AdamEntry ℝ) : Prop where
  m_eq : e.m = decay adamBeta1 gs
  v_eq : e.v = decay adamBeta2 (gs.map (· ^ 2))

theorem HasMoments.step {gs : List ℝ} {e : AdamEntry ℝ} (h : HasMoments gs e) (lr g : ℝ) :
  HasMoments (gs ++ [g]) (adamEntry Libm.real lr (gs.length + 1) g e)
    ∧ (adamEntry Libm.real lr (gs.length + 1) g e).param = e.param - adamMove lr (gs ++ [g])
  := by
  have hm : (adamEntry Libm.real lr (gs.length + 1) g e).m = decay adamBeta1 (gs ++ [g]) := by
    rw [decay_concat, ← h.m_eq]
    rfl
  have hv : (adamEntry Libm.real lr (gs.length + 1) g e).v
      = decay adamBeta2 ((gs ++ [g]).map (· ^ 2)) := by
    rw [List.map_append, List.map_singleton, decay_concat, ← h.v_eq, sq, ← mul_assoc]
    rfl
  refine ⟨⟨hm, hv⟩, ?_⟩
  have hlength : (gs ++ [g]).length = gs.length + 1 := by
    rw [List.length_append, List.length_singleton]
  rw [adamMove, average, average, List.length_map, hlength, ← hm, ← hv]
  rfl

theorem adamBeta1_bounds : (0 : ℝ) ≤ adamBeta1 ∧ (adamBeta1 : ℝ) < 1 := by
  constructor <;> norm_num [adamBeta1]

theorem adamBeta2_bounds : (adamBeta1 : ℝ) ≤ adamBeta2 ∧ (adamBeta2 : ℝ) < 1 := by
  constructor <;> norm_num [adamBeta1, adamBeta2]

theorem adamMove_denominator_pos (gs : List ℝ) :
  0 < Real.sqrt (average adamBeta2 (gs.map (· ^ 2))) + adamEps
  := by
  apply add_pos_of_nonneg_of_pos (Real.sqrt_nonneg _)
  norm_num [adamEps]

/-- The average of the gradients is at most ten times the root of the average of their squares. -/
theorem abs_average_le {gs : List ℝ} (hne : gs ≠ []) :
  |average adamBeta1 gs| ≤ 10 * Real.sqrt (average adamBeta2 (gs.map (· ^ 2)))
  := by
  obtain ⟨h0, h1⟩ := adamBeta1_bounds
  obtain ⟨hle, h2⟩ := adamBeta2_bounds
  have hsq := sq_average_le h0 hle h2 hne
  have hbound : average adamBeta1 gs ^ 2 ≤ 10 ^ 2 * average adamBeta2 (gs.map (· ^ 2)) := by
    norm_num [adamBeta1, adamBeta2] at hsq ⊢
    linarith
  rw [← Real.sqrt_sq_eq_abs]
  apply (Real.sqrt_le_sqrt hbound).trans_eq
  rw [Real.sqrt_mul (by norm_num), Real.sqrt_sq (by norm_num)]

/-- A step moves a parameter by less than ten times the learning rate. -/
theorem abs_adamMove_lt {lr : ℝ} {gs : List ℝ} (hlr : 0 < lr) (hne : gs ≠ []) :
  |adamMove lr gs| < 10 * lr
  := by
  have hpos := adamMove_denominator_pos gs
  have heps : (0 : ℝ) < adamEps := by
    norm_num [adamEps]
  rw [adamMove, abs_div, abs_mul, abs_of_pos hlr, abs_of_pos hpos, div_lt_iff₀ hpos]
  calc
    lr * |average adamBeta1 gs| ≤ lr * (10 * Real.sqrt (average adamBeta2 (gs.map (· ^ 2)))) :=
      mul_le_mul_of_nonneg_left (abs_average_le hne) hlr.le
    _ < 10 * lr * (Real.sqrt (average adamBeta2 (gs.map (· ^ 2))) + adamEps) := by
      rw [mul_add, mul_left_comm, mul_assoc 10 lr]
      exact lt_add_of_pos_right _ (mul_pos (mul_pos (by norm_num) hlr) heps)

/-- A parameter all of whose gradients were positive is lowered. -/
theorem adamMove_pos
    {lr a : ℝ} {gs : List ℝ} (hlr : 0 < lr) (hne : gs ≠ []) (ha : 0 < a) (h : ∀ g ∈ gs, a ≤ g) :
  0 < adamMove lr gs
  := by
  obtain ⟨h0, h1⟩ := adamBeta1_bounds
  apply div_pos (mul_pos hlr _) (adamMove_denominator_pos gs)
  exact ha.trans_le (le_average h0 h1 hne h)

/-- A parameter all of whose gradients were negative is raised. -/
theorem adamMove_neg
    {lr a : ℝ} {gs : List ℝ} (hlr : 0 < lr) (hne : gs ≠ []) (ha : a < 0) (h : ∀ g ∈ gs, g ≤ a) :
  adamMove lr gs < 0
  := by
  obtain ⟨h0, h1⟩ := adamBeta1_bounds
  apply div_neg_of_neg_of_pos _ (adamMove_denominator_pos gs)
  exact mul_neg_of_pos_of_neg hlr ((average_le h0 h1 hne h).trans_lt ha)

/-! ### Runs -/

/-- A layer with the state of its optimizer. -/
structure AdamRun where
  layer : DenseLayer ℝ
  adam : AdamState ℝ

/-- What happens to a layer: a step with gradients of the right shapes, or anything that leaves its
optimizer alone. -/
inductive AdamRunStep : AdamRun → Option (MatX ℝ × MatX ℝ) → AdamRun → Prop where
  | step {s : AdamRun} {dw db : MatX ℝ} {lr : ℝ} {l : DenseLayer ℝ} {adam : AdamState ℝ}
      (hdw : dw.Shaped s.layer.inDim s.layer.outDim) (hdb : db.Shaped 1 s.layer.outDim)
      (h : adamStep Libm.real s.adam { s.layer with dw, db } lr = some (adam, l, .ok)) :
      AdamRunStep s (some (dw, db)) ⟨l, adam⟩
  | other {s : AdamRun} {w b dw db xCache zCache : MatX ℝ}
      (hw : w.Shaped s.layer.inDim s.layer.outDim) (hb : b.Shaped 1 s.layer.outDim) :
      AdamRunStep s none ⟨{ s.layer with w, b, dw, db, xCache, zCache }, s.adam⟩

/-- A layer with an optimizer from `adam_init`, and what happens to it. -/
def adamMachine : StateMachine AdamRun (MatX ℝ × MatX ℝ) where
  init s := s.layer.w.Shaped s.layer.inDim s.layer.outDim ∧ s.layer.b.Shaped 1 s.layer.outDim
    ∧ ∃ calloc, adamInit calloc s.layer = .ok s.adam
  step := AdamRunStep

/-- The gradients of a weight. -/
def weightGradients (log : List (MatX ℝ × MatX ℝ)) (r c : ℕ) : List ℝ :=
  log.map fun e => e.1.at r c

/-- The gradients of a bias. -/
def biasGradients (log : List (MatX ℝ × MatX ℝ)) (c : ℕ) : List ℝ :=
  log.map fun e => e.2.at 0 c

/-- The optimizer has the moments of the gradients of the steps. -/
structure AdamInvariant (log : List (MatX ℝ × MatX ℝ)) (s : AdamRun) : Prop where
  w : AdamShape s.layer.w s.adam.mw s.adam.vw s.layer.inDim s.layer.outDim
  b : AdamShape s.layer.b s.adam.mb s.adam.vb 1 s.layer.outDim
  weights : ∀ r c, r < s.layer.inDim → c < s.layer.outDim →
    HasMoments (weightGradients log r c) (entryAt s.layer.w s.adam.mw s.adam.vw r c)
  biases : ∀ c, c < s.layer.outDim →
    HasMoments (biasGradients log c) (entryAt s.layer.b s.adam.mb s.adam.vb 0 c)
  t_eq : s.adam.t = log.length

variable {log : List (MatX ℝ × MatX ℝ)} {run : AdamRun}

theorem at_zeros (n rows cols r c : ℕ) :
  MatX.at (⟨List.replicate n (0 : ℝ), rows, cols⟩ : MatX ℝ) r c = 0
  := by
  rw [MatX.at, List.getElem?_replicate]
  split <;> rfl

theorem AdamInvariant.init (h : adamMachine.init run) : AdamInvariant [] run := by
  obtain ⟨hw, hb, calloc, hinit⟩ := h
  rw [adamInit, if_neg hw.data_ne_nil, hw.rows_eq, hw.cols_eq, hb.cols_eq] at hinit
  simp only [bind, Except.bind] at hinit
  split at hinit
  · cases hinit
  case h_2 mw hmw =>
  split at hinit
  · cases hinit
  case h_2 vw hvw =>
  split at hinit
  · cases hinit
  case h_2 mb hmb =>
  split at hinit
  · cases hinit
  case h_2 vb hvb =>
  obtain ⟨layer, adam⟩ := run
  cases hinit
  refine ⟨⟨hw, matxInit_shaped hmw, matxInit_shaped hvw⟩,
    ⟨hb, matxInit_shaped hmb, matxInit_shaped hvb⟩, ?_, ?_, rfl⟩
  · intro r c _ _
    dsimp only
    rw [matxInit_ok hmw, matxInit_ok hvw]
    exact ⟨at_zeros _ _ _ _ _, at_zeros _ _ _ _ _⟩
  · intro c _
    dsimp only
    rw [matxInit_ok hmb, matxInit_ok hvb]
    exact ⟨at_zeros _ _ _ _ _, at_zeros _ _ _ _ _⟩

/-- The parameters of `l'` are those of `l` moved by a step with the learning rate `lr`, where `log`
are the gradients of all steps, this one included. -/
structure AdamMoves (log : List (MatX ℝ × MatX ℝ)) (lr : ℝ) (l l' : DenseLayer ℝ) : Prop where
  weights : ∀ r c, r < l.inDim → c < l.outDim →
    l'.w.at r c = l.w.at r c - adamMove lr (weightGradients log r c)
  biases : ∀ c, c < l.outDim → l'.b.at 0 c = l.b.at 0 c - adamMove lr (biasGradients log c)

/-- A step succeeds and keeps the invariant. -/
theorem AdamInvariant.step
    (h : AdamInvariant log run) {dw db : MatX ℝ}
    (hdw : dw.Shaped run.layer.inDim run.layer.outDim) (hdb : db.Shaped 1 run.layer.outDim)
    {lr : ℝ} (hlr : 0 < lr) (ht : log.length < intMax) :
  ∃ adam w b, adamStep Libm.real run.adam { run.layer with dw, db } lr
      = some (adam, { run.layer with dw, db, w, b }, .ok)
    ∧ AdamInvariant (log ++ [(dw, db)]) ⟨{ run.layer with dw, db, w, b }, adam⟩
    ∧ AdamMoves (log ++ [(dw, db)]) lr run.layer { run.layer with dw, db, w, b }
  := by
  obtain ⟨ws, hws, hwshape, hwentry⟩ := h.w.update hdw Libm.real lr (log.length + 1)
  obtain ⟨bs, hbs, hbshape, hbentry⟩ := h.b.update hdb Libm.real lr (log.length + 1)
  have hsize := h.w.w.made.size_le
  rw [h.w.w.rows_eq, h.w.w.cols_eq] at hsize
  have hcount : mulSize run.layer.inDim run.layer.outDim
      = some (run.layer.inDim * run.layer.outDim) :=
    mulSize_of_le (Nat.le_trans (Nat.le_mul_of_pos_right _ (by decide)) hsize)
  rw [Nat.one_mul] at hbs
  have hdata : ¬ (run.adam.mw.data = [] ∨ run.layer.w.data = [] ∨ lr ≤ 0) := by
    rw [not_or, not_or]
    exact ⟨h.w.m.data_ne_nil, h.w.w.data_ne_nil, not_le.mpr hlr⟩
  have hshape : ¬ (run.adam.mw.rows ≠ run.layer.w.rows ∨ run.adam.mw.cols ≠ run.layer.w.cols) := by
    rw [h.w.m.rows_eq, h.w.m.cols_eq, h.w.w.rows_eq, h.w.w.cols_eq]
    simp
  have hsteps : ¬ run.adam.t + 1 > intMax := by
    rw [h.t_eq]
    omega
  have hstep : adamStep Libm.real run.adam { run.layer with dw, db } lr
      = some (run.adam.store (log.length + 1) ws bs,
        DenseLayer.store { run.layer with dw, db } ws bs, .ok) := by
    rw [adamStep, if_neg hdata, if_neg hshape, if_neg hsteps]
    dsimp only
    rw [h.w.w.rows_eq, h.w.w.cols_eq, hcount, Option.bind_some, h.b.w.cols_eq, h.t_eq, hws,
      Option.bind_some, hbs, Option.map_some]
  have hweight : ∀ r c, r < run.layer.inDim → c < run.layer.outDim →
      HasMoments (weightGradients (log ++ [(dw, db)]) r c)
        (adamEntry Libm.real lr (log.length + 1) (dw.at r c)
          (entryAt run.layer.w run.adam.mw run.adam.vw r c))
      ∧ (adamEntry Libm.real lr (log.length + 1) (dw.at r c)
          (entryAt run.layer.w run.adam.mw run.adam.vw r c)).param
        = run.layer.w.at r c - adamMove lr (weightGradients (log ++ [(dw, db)]) r c) := by
    intro r c hr hc
    have hmoments := (h.weights r c hr hc).step lr (dw.at r c)
    rw [weightGradients, List.length_map] at hmoments
    rw [weightGradients, List.map_append]
    exact hmoments
  have hbias : ∀ c, c < run.layer.outDim →
      HasMoments (biasGradients (log ++ [(dw, db)]) c)
        (adamEntry Libm.real lr (log.length + 1) (db.at 0 c)
          (entryAt run.layer.b run.adam.mb run.adam.vb 0 c))
      ∧ (adamEntry Libm.real lr (log.length + 1) (db.at 0 c)
          (entryAt run.layer.b run.adam.mb run.adam.vb 0 c)).param
        = run.layer.b.at 0 c - adamMove lr (biasGradients (log ++ [(dw, db)]) c) := by
    intro c hc
    have hmoments := (h.biases c hc).step lr (db.at 0 c)
    rw [biasGradients, List.length_map] at hmoments
    rw [biasGradients, List.map_append]
    exact hmoments
  refine ⟨_, _, _, hstep, ⟨hwshape, hbshape, ?_, ?_, ?_⟩, ?_, ?_⟩
  · intro r c hr hc
    have hmoments := (hweight r c hr hc).1
    rwa [← hwentry r c hr hc] at hmoments
  · intro c hc
    have hmoments := (hbias c hc).1
    rwa [← hbentry 0 c Nat.one_pos hc] at hmoments
  · rw [List.length_append]
    rfl
  · intro r c hr hc
    have hparam := (hweight r c hr hc).2
    rwa [← hwentry r c hr hc] at hparam
  · intro c hc
    have hparam := (hbias c hc).2
    rwa [← hbentry 0 c Nat.one_pos hc] at hparam

/-- What happens to the layer keeps the invariant. -/
theorem AdamInvariant.of_reaches (h : adamMachine.Reaches log run) : AdamInvariant log run := by
  apply h.invariant (I := AdamInvariant)
  · intro s hs
    exact AdamInvariant.init hs
  · intro log s e s' _ hs hstep
    cases hstep with
    | @step dw db lr l adam hdw hdb hcall =>
        have hlr : 0 < lr := by
          by_contra hle
          rw [adamStep, if_pos (.inr (.inr (not_lt.mp hle)))] at hcall
          cases hcall
        have ht : log.length < intMax := by
          by_contra hmax
          rw [adamStep, if_neg, if_neg, if_pos] at hcall
          · cases hcall
          · rw [hs.t_eq]
            omega
          · rw [hs.w.m.rows_eq, hs.w.m.cols_eq, hs.w.w.rows_eq, hs.w.w.cols_eq]
            simp
          · rw [not_or, not_or]
            exact ⟨hs.w.m.data_ne_nil, hs.w.w.data_ne_nil, not_le.mpr hlr⟩
        obtain ⟨adam', w, b, hcall', hinv, -⟩ := hs.step hdw hdb hlr ht
        rw [hcall] at hcall'
        cases hcall'
        exact hinv
    | @other w b dw db xCache zCache hw hb =>
        rw [Option.toList_none, List.append_nil]
        refine ⟨⟨hw, hs.w.m, hs.w.v⟩, ⟨hb, hs.b.m, hs.b.v⟩, ?_, ?_, hs.t_eq⟩
        · intro r c hr hc
          obtain ⟨hm, hv⟩ := hs.weights r c hr hc
          exact ⟨hm, hv⟩
        · intro c hc
          obtain ⟨hm, hv⟩ := hs.biases c hc
          exact ⟨hm, hv⟩

/-- What is promised of each parameter in a step: it moves by less than ten times the learning rate,
and against gradients that have all had the same sign. -/
structure AdamBounds (lr : ℝ) (gs : List ℝ) (before after : ℝ) : Prop where
  abs_lt : |after - before| < 10 * lr
  lowers : ∀ a, 0 < a → (∀ g ∈ gs, a ≤ g) → after < before
  raises : ∀ a, a < 0 → (∀ g ∈ gs, g ≤ a) → before < after

theorem adamBounds {lr : ℝ} {gs : List ℝ} (hlr : 0 < lr) (hne : gs ≠ []) (before : ℝ) :
  AdamBounds lr gs before (before - adamMove lr gs)
  where
  abs_lt := by
    rw [sub_sub_cancel_left, abs_neg]
    exact abs_adamMove_lt hlr hne
  lowers a ha h := sub_lt_self _ (adamMove_pos hlr hne ha h)
  raises a ha h := by
    have hneg := adamMove_neg hlr hne ha h
    linarith

/-- After any steps, with any gradients, a step with a positive learning rate succeeds and moves
every parameter by the average of its gradients divided by the root of the average of their
squares, so by less than ten times the learning rate. -/
theorem adam_step_moves
    (h : adamMachine.Reaches log run) {dw db : MatX ℝ}
    (hdw : dw.Shaped run.layer.inDim run.layer.outDim) (hdb : db.Shaped 1 run.layer.outDim)
    {lr : ℝ} (hlr : 0 < lr) (ht : log.length < intMax) :
  ∃ adam l, adamStep Libm.real run.adam { run.layer with dw, db } lr = some (adam, l, .ok)
    ∧ AdamMoves (log ++ [(dw, db)]) lr run.layer l
    ∧ (∀ r c, r < run.layer.inDim → c < run.layer.outDim →
      AdamBounds lr (weightGradients (log ++ [(dw, db)]) r c) (run.layer.w.at r c) (l.w.at r c))
    ∧ ∀ c, c < run.layer.outDim →
      AdamBounds lr (biasGradients (log ++ [(dw, db)]) c) (run.layer.b.at 0 c) (l.b.at 0 c)
  := by
  obtain ⟨adam, w, b, hcall, -, hmoves⟩ := (AdamInvariant.of_reaches h).step hdw hdb hlr ht
  refine ⟨adam, _, hcall, hmoves, ?_, ?_⟩
  · intro r c hr hc
    rw [hmoves.weights r c hr hc]
    exact adamBounds hlr (by simp [weightGradients]) _
  · intro c hc
    rw [hmoves.biases c hc]
    exact adamBounds hlr (by simp [biasGradients]) _

/-- The second step of a layer with two weights: the gradients of the first one were positive, and
those of the second one negative. -/
theorem adam_step_moves_second :
  ∃ (run : AdamRun) (adam : AdamState ℝ) (l : DenseLayer ℝ),
    adamMachine.Reaches [(⟨[2, -1], 1, 2⟩, ⟨[0, 0], 1, 2⟩)] run
    ∧ adamStep Libm.real run.adam { run.layer with dw := ⟨[1, -3], 1, 2⟩, db := ⟨[0, 0], 1, 2⟩ }
      (1 / 100) = some (adam, l, .ok)
    ∧ l.w.at 0 0 < run.layer.w.at 0 0 ∧ run.layer.w.at 0 1 < l.w.at 0 1
    ∧ |l.w.at 0 1 - run.layer.w.at 0 1| < 10 * (1 / 100)
  := by
  let calloc : Calloc := .upTo 100 (by decide)
  let layer : DenseLayer ℝ := {
    inDim := 1, outDim := 2, act := .linear, w := ⟨[1, 1], 1, 2⟩, b := ⟨[0, 0], 1, 2⟩
    dw := ⟨[0, 0], 1, 2⟩, db := ⟨[0, 0], 1, 2⟩, xCache := .null, zCache := .null
  }
  have hcount : checkedCount 1 2 = .ok 2 := by decide
  have htwo : ∀ a b : ℝ, MatX.Shaped ⟨[a, b], 1, 2⟩ 1 2 := fun _ _ => ⟨hcount, rfl, rfl⟩
  have hlr : (0 : ℝ) < 1 / 100 := by norm_num
  obtain ⟨adam₀, hinit⟩ : ∃ adam, adamInit (fun _ => calloc) layer = .ok adam := by
    rw [adamInit, if_neg (htwo 1 1).data_ne_nil]
    dsimp only [layer]
    exact ⟨_, rfl⟩
  have hstart : adamMachine.Reaches [] ⟨layer, adam₀⟩ :=
    .init ⟨htwo 1 1, htwo 0 0, fun _ => calloc, hinit⟩
  obtain ⟨adam₁, w, b, hfirst, -⟩ := (AdamInvariant.of_reaches hstart).step (htwo 2 (-1))
    (htwo 0 0) hlr (by decide)
  have hreaches := hstart.snoc (.step (htwo 2 (-1)) (htwo 0 0) hfirst)
  obtain ⟨adam, l, hcall, -, hbounds, -⟩ := adam_step_moves hreaches (htwo 1 (-3)) (htwo 0 0)
    hlr (by decide)
  have hfalls := hbounds 0 0 Nat.one_pos Nat.two_pos
  have hrises := hbounds 0 1 Nat.one_pos Nat.one_lt_two
  refine ⟨_, adam, l, hreaches, hcall, hfalls.lowers 1 one_pos ?_,
    hrises.raises (-1) neg_one_lt_zero ?_, hrises.abs_lt⟩
  · intro g hg
    have hcases : g = 2 ∨ g = 1 := by
      simpa [weightGradients, MatX.at] using hg
    rcases hcases with rfl | rfl <;> norm_num
  · intro g hg
    have hcases : g = -1 ∨ g = -3 := by
      simpa [weightGradients, MatX.at] using hg
    rcases hcases with rfl | rfl <;> norm_num

end CTemplate

import CTemplate.Ml.Adam
import CTemplate.Ml.Loss

/-!
# Training a network

The training loop of `ml_demo`: a layer with the activation `tanh` and a linear one, trained by
Adam on the softmax cross-entropy of batches of rows.  The functions that it calls return codes
that it does not look at.

In every batch of every epoch, the loss is the mean cross-entropy of the network on the rows of the
batch, and what the two backward passes leave in the layers is its exact gradient with respect to
all weights and biases, `ml_training_exact`.
-/

namespace CTemplate

open Backprop Frobenius

variable {F : Type}

/-! ### Batches -/

/-- `dataset_batch`: the matrix `dst` after the call, and the code returned. -/
def datasetBatch (src : MatX F) (start count : ℕ) (dst : MatX F) : Option (MatX F × ErrorCode) :=
  if src.data = [] ∨ dst.data = [] ∨ count = 0 then some (dst, .invalidArg)
  else if count > src.rows ∨ start > src.rows - count then some (dst, .invalidArg)
  else if dst.rows ≠ count ∨ dst.cols ≠ src.cols then some (dst, .invalidArg)
  else
    (mulSize start src.cols).bind fun offset => (mulSize count src.cols).bind fun size =>
      (mulSize size floatSize).bind fun _ => (Buffer.read src.data offset size).bind fun xs =>
        (Buffer.write dst.data 0 xs).map fun data => ({ dst with data }, .ok)

/-- The rows from `start` on. -/
def batchRows (src : MatX ℝ) (start batch k : ℕ) : Matrix (Fin batch) (Fin k) ℝ :=
  Matrix.of fun r c => src.at (start + r) c

theorem datasetBatch_eq
    [Zero F] {src dst : MatX F} {samples batch k start : ℕ} (hsrc : src.Shaped samples k)
    (hdst : dst.Shaped batch k) (hle : start + batch ≤ samples) :
  ∃ dst', datasetBatch src start batch dst = some (dst', .ok) ∧ dst'.Shaped batch k
    ∧ ∀ r c, r < batch → c < k → dst'.at r c = src.at (start + r) c
  := by
  have hbatch : 0 < batch := hdst.rows_eq ▸ hdst.made.rows_pos
  have hsize := hsrc.made.size_le
  rw [hsrc.rows_eq, hsrc.cols_eq] at hsize
  have hsize' := hdst.made.size_le
  rw [hdst.rows_eq, hdst.cols_eq] at hsize'
  have hwhole : (start + batch) * k ≤ samples * k := Nat.mul_le_mul_right k hle
  rw [Nat.add_mul] at hwhole
  have hoffset : mulSize start k = some (start * k) := by
    apply mulSize_of_le
    have := Nat.le_mul_of_pos_right (samples * k) (show 0 < floatSize by decide)
    omega
  have hcount : mulSize batch k = some (batch * k) :=
    mulSize_of_le (Nat.le_trans (Nat.le_mul_of_pos_right _ (by decide)) hsize')
  have hlength := hsrc.length_data
  have hread : Buffer.read src.data (start * k) (batch * k)
      = some ((src.data.drop (start * k)).take (batch * k)) := by
    rw [Buffer.read, if_pos]
    omega
  have hxs : ((src.data.drop (start * k)).take (batch * k)).length = batch * k := by
    rw [List.length_take, List.length_drop]
    omega
  have hwrite : Buffer.write dst.data 0 ((src.data.drop (start * k)).take (batch * k))
      = some ((src.data.drop (start * k)).take (batch * k)) := by
    rw [Buffer.write, hxs, if_pos (by rw [hdst.length_data]; omega), List.take_zero,
      List.nil_append, Nat.zero_add, ← hdst.length_data, List.drop_length, List.append_nil]
  have hshaped : MatX.Shaped { dst with data := (src.data.drop (start * k)).take (batch * k) }
      batch k := hdst.with_data (hxs.trans hdst.length_data.symm)
  refine ⟨_, ?_, hshaped, ?_⟩
  · rw [datasetBatch, if_neg, if_neg, if_neg, hsrc.cols_eq, hoffset, Option.bind_some, hcount,
      Option.bind_some, mulSize_of_le hsize', Option.bind_some, hread, Option.bind_some, hwrite,
      Option.map_some]
    · rw [hdst.rows_eq, hdst.cols_eq, hsrc.cols_eq]
      simp
    · rw [hsrc.rows_eq]
      omega
    · rw [not_or, not_or]
      exact ⟨hsrc.data_ne_nil, hdst.data_ne_nil, hbatch.ne'⟩
  · intro r c hr hc
    have hin := entry_lt hr hc
    have hindex : start * k + (r * k + c) = (start + r) * k + c := by
      rw [Nat.add_mul, Nat.add_assoc]
    rw [MatX.at, MatX.at]
    dsimp only
    rw [hdst.cols_eq, hsrc.cols_eq, List.getElem?_take_of_lt hin, List.getElem?_drop, hindex]

/-! ### The loop -/

/-- The constants of `ml_demo`. -/
structure TrainConfig (F : Type) where
  samples : ℕ
  features : ℕ
  hidden : ℕ
  classes : ℕ
  batch : ℕ
  epochs : ℕ
  lr : F

/-- The layers, their optimizers and the matrices of `main`. -/
structure Net (F : Type) where
  l1 : DenseLayer F
  l2 : DenseLayer F
  a1 : AdamState F
  a2 : AdamState F
  bx : MatX F
  bY : MatX F
  h : MatX F
  logits : MatX F
  dlogits : MatX F
  dh : MatX F

/-- What `calloc` gives in one batch. -/
structure BatchAllocs where
  forward1 : Fin 2 → Calloc
  forward2 : Fin 2 → Calloc
  backward2 : Fin 3 → Calloc
  backward1 : Fin 3 → Calloc

/-- The body of the loop over the batches: the network afterwards, and `loss`. -/
def trainBatch [Field F] [LinearOrder F] (libm : Libm F) (config : TrainConfig F)
    (allocs : BatchAllocs) (x y : MatX F) (start : ℕ) (s : Net F) : Option (Net F × F) :=
  (datasetBatch x start config.batch s.bx).bind fun (bx, _) =>
  (datasetBatch y start config.batch s.bY).bind fun (bY, _) =>
  (denseForward (actFn libm) s.l1 bx s.h allocs.forward1).bind fun (l1, h, _) =>
  (denseForward (actFn libm) s.l2 h s.logits allocs.forward2).bind fun (l2, logits, _) =>
  (lossSoftmaxXent libm logits bY (some s.dlogits)).bind fun (dlogits, result) =>
  let dlogits := dlogits.getD s.dlogits
  let loss := result.toOption.getD 0
  (denseBackward (actGradFn libm) l2 dlogits (some s.dh) allocs.backward2).bind
    fun (l2, dh, _) =>
  let dh := dh.getD s.dh
  (denseBackward (actGradFn libm) l1 dh none allocs.backward1).bind fun (l1, _, _) =>
  (adamStep libm s.a2 l2 config.lr).bind fun (a2, l2, _) =>
  (adamStep libm s.a1 l1 config.lr).map fun (a1, l1, _) =>
  ({ l1, l2, a1, a2, bx, bY, h, logits, dlogits, dh }, loss)

/-- The state of the training loop. -/
structure Training (F : Type) where
  net : Net F
  epoch : ℕ
  start : ℕ
  epochLoss : F
  batches : ℕ

/-- A turn of the training loop, a batch or the end of an epoch, with the first row of the batch;
`none` when the loop has ended. -/
def trainTurn [Field F] [LinearOrder F] (libm : Libm F) (config : TrainConfig F) (x y : MatX F)
    (s : Training F) (allocs : BatchAllocs) : Option (Training F × Option ℕ) :=
  if config.epochs < s.epoch then none
  else if s.start + config.batch ≤ config.samples then
    (trainBatch libm config allocs x y s.start s.net).map fun (net, loss) =>
      ({ net, epoch := s.epoch, start := s.start + config.batch, epochLoss := s.epochLoss + loss,
         batches := s.batches + 1 }, some s.start)
  else some ({ s with epoch := s.epoch + 1, start := 0, epochLoss := 0, batches := 0 }, none)

/-- No allocation of a batch fails. -/
structure BatchAllocs.Give (allocs : BatchAllocs) (config : TrainConfig F) : Prop where
  forward1 : (allocs.forward1 0).Gives config.batch config.features
    ∧ (allocs.forward1 1).Gives config.batch config.hidden
  forward2 : (allocs.forward2 0).Gives config.batch config.hidden
    ∧ (allocs.forward2 1).Gives config.batch config.classes
  backward2 : (allocs.backward2 0).Gives config.batch config.classes
    ∧ (allocs.backward2 1).Gives config.hidden config.batch
    ∧ (allocs.backward2 2).Gives config.classes config.hidden
  backward1 : (allocs.backward1 0).Gives config.batch config.hidden
    ∧ (allocs.backward1 1).Gives config.features config.batch
    ∧ (allocs.backward1 2).Gives config.hidden config.features

/-! ### A batch -/

/-- The loss of the network on a batch. -/
noncomputable def networkLoss {n d m k : ℕ} (X : Matrix (Fin n) (Fin d) ℝ)
    (Y : Matrix (Fin n) (Fin k) ℝ) (W₁ : Matrix (Fin d) (Fin m) ℝ) (b₁ : Fin m → ℝ)
    (W₂ : Matrix (Fin m) (Fin k) ℝ) (b₂ : Fin k → ℝ) : ℝ :=
  meanCrossEntropy Y (layer (actFn Libm.real .linear) (layer (actFn Libm.real .tanh) X W₁ b₁) W₂ b₂)

/-- The derivative of the loss along any change of the weights and the biases is that change
multiplied with `G₁`, `g₁`, `G₂` and `g₂`. -/
def IsLossGradient {n d m k : ℕ} (X : Matrix (Fin n) (Fin d) ℝ) (Y : Matrix (Fin n) (Fin k) ℝ)
    (W₁ : Matrix (Fin d) (Fin m) ℝ) (b₁ : Fin m → ℝ) (W₂ : Matrix (Fin m) (Fin k) ℝ)
    (b₂ : Fin k → ℝ) (G₁ : Matrix (Fin d) (Fin m) ℝ) (g₁ : Fin m → ℝ)
    (G₂ : Matrix (Fin m) (Fin k) ℝ) (g₂ : Fin k → ℝ) : Prop :=
  ∀ (t : ℝ) (V₁ : ℝ → Matrix (Fin d) (Fin m) ℝ) (v₁ : ℝ → Fin m → ℝ)
    (V₂ : ℝ → Matrix (Fin m) (Fin k) ℝ) (v₂ : ℝ → Fin k → ℝ) (dV₁ : Matrix (Fin d) (Fin m) ℝ)
    (dv₁ : Fin m → ℝ) (dV₂ : Matrix (Fin m) (Fin k) ℝ) (dv₂ : Fin k → ℝ),
    V₁ t = W₁ → v₁ t = b₁ → V₂ t = W₂ → v₂ t = b₂ → Tangent V₁ dV₁ t
    → (∀ j, HasDerivAt (fun s => v₁ s j) (dv₁ j) t) → Tangent V₂ dV₂ t
    → (∀ j, HasDerivAt (fun s => v₂ s j) (dv₂ j) t)
    → HasDerivAt (fun s => networkLoss X Y (V₁ s) (v₁ s) (V₂ s) (v₂ s))
      (entryPairing G₁ dV₁ + ∑ j, g₁ j * dv₁ j + (entryPairing G₂ dV₂ + ∑ j, g₂ j * dv₂ j)) t

/-- The products of the two backward passes are the gradient of the loss. -/
theorem isLossGradient_of_passes
    {n d m k : ℕ} [Nonempty (Fin k)] {X : Matrix (Fin n) (Fin d) ℝ} {Y : Matrix (Fin n) (Fin k) ℝ}
    {W₁ : Matrix (Fin d) (Fin m) ℝ} {b₁ : Fin m → ℝ} {W₂ : Matrix (Fin m) (Fin k) ℝ}
    {b₂ : Fin k → ℝ} {H D₁ : Matrix (Fin n) (Fin m) ℝ} {D D₂ : Matrix (Fin n) (Fin k) ℝ}
    (hY : ∀ r, ∑ c, Y r c = 1) (hH : H = layer (actFn Libm.real .tanh) X W₁ b₁)
    (hD : D = crossEntropyGradient Y (layer (actFn Libm.real .linear) H W₂ b₂))
    (hD₂ : D₂ = scaled (actGradFn Libm.real .linear) (affine H W₂ b₂) D)
    (hD₁ : D₁ = scaled (actGradFn Libm.real .tanh) (affine X W₁ b₁) (D₂ * W₂.transpose)) :
  IsLossGradient X Y W₁ b₁ W₂ b₂ (X.transpose * D₁) (fun j => ∑ i, D₁ i j) (H.transpose * D₂)
    (fun j => ∑ i, D₂ i j)
  := by
  rintro t V₁ v₁ V₂ v₂ dV₁ dv₁ dV₂ dv₂ rfl rfl rfl rfl hV₁ hv₁ hV₂ hv₂
  have hloss := hasGradient_meanCrossEntropy hY (layer (actFn Libm.real .linear) H (V₂ t) (v₂ t))
  rw [← hD] at hloss
  exact HasGradient.two_layers hH hloss hD₂ hD₁ hV₁ hv₁ hV₂ hv₂
    (fun _ => hasDerivAt_actFn fun h => by cases h) fun _ => hasDerivAt_actFn fun h => by cases h

/-- The shapes of a network, and the moments of its optimizers after some steps. -/
structure NetInvariant (config : TrainConfig ℝ) (steps : ℕ) (s : Net ℝ) : Prop where
  l1 : Maps s.l1 config.features config.hidden
  l2 : Maps s.l2 config.hidden config.classes
  tanh : s.l1.act = .tanh
  linear : s.l2.act = .linear
  a1 : ∃ log, AdamInvariant log ⟨s.l1, s.a1⟩ ∧ log.length = steps
  a2 : ∃ log, AdamInvariant log ⟨s.l2, s.a2⟩ ∧ log.length = steps
  bx : s.bx.Shaped config.batch config.features
  bY : s.bY.Shaped config.batch config.classes
  h : s.h.Shaped config.batch config.hidden
  logits : s.logits.Shaped config.batch config.classes
  dlogits : s.dlogits.Shaped config.batch config.classes
  dh : s.dh.Shaped config.batch config.hidden

/-- What a batch does to a network. -/
structure BatchDone (config : TrainConfig ℝ) (x y : MatX ℝ) (start : ℕ) (s s' : Net ℝ) (loss : ℝ) :
    Prop where
  loss_eq : loss = networkLoss (batchRows x start config.batch config.features)
    (batchRows y start config.batch config.classes)
    (s.l1.w.matrix config.features config.hidden) (rowOf s.l1.b config.hidden 0)
    (s.l2.w.matrix config.hidden config.classes) (rowOf s.l2.b config.classes 0)
  gradient : IsLossGradient (batchRows x start config.batch config.features)
    (batchRows y start config.batch config.classes)
    (s.l1.w.matrix config.features config.hidden) (rowOf s.l1.b config.hidden 0)
    (s.l2.w.matrix config.hidden config.classes) (rowOf s.l2.b config.classes 0)
    (s'.l1.dw.matrix config.features config.hidden) (rowOf s'.l1.db config.hidden 0)
    (s'.l2.dw.matrix config.hidden config.classes) (rowOf s'.l2.db config.classes 0)
  moves1 : ∃ log, AdamMoves (log ++ [(s'.l1.dw, s'.l1.db)]) config.lr s.l1 s'.l1
  moves2 : ∃ log, AdamMoves (log ++ [(s'.l2.dw, s'.l2.db)]) config.lr s.l2 s'.l2

/-- The batch of the targets. -/
theorem Targets.batch
    {y bY : MatX ℝ} {samples batch k start : ℕ} (hy : Targets y samples k)
    (hle : start + batch ≤ samples) (hbY : bY.Shaped batch k)
    (hat : ∀ r c, r < batch → c < k → bY.at r c = y.at (start + r) c) :
  Targets bY batch k
  where
  shaped := hbY
  nonneg r c hr hc := by
    rw [hat r c hr hc]
    exact hy.nonneg _ c (by omega) hc
  sum_eq r hr := by
    rw [← hy.sum_eq (start + r) (by omega)]
    apply Finset.sum_congr rfl
    intro c _
    exact hat r c hr c.isLt

/-- The moments do not depend on the gradients and the caches in the layer. -/
theorem AdamInvariant.with_caches
    {log : List (MatX ℝ × MatX ℝ)} {l : DenseLayer ℝ} {adam : AdamState ℝ}
    (h : AdamInvariant log ⟨l, adam⟩) (xCache zCache : MatX ℝ) :
  AdamInvariant log ⟨{ l with xCache, zCache }, adam⟩
  where
  w := h.w
  b := h.b
  weights := h.weights
  biases := h.biases
  t_eq := h.t_eq

/-- A layer whose parameters an optimizer has changed. -/
theorem Maps.with_parameters
    {l : DenseLayer ℝ} {w b : MatX ℝ} {d k : ℕ} (h : Maps l d k)
    (hw : w.Shaped l.inDim l.outDim) (hb : b.Shaped 1 l.outDim) :
  Maps { l with w, b } d k
  where
  shape := {
    w := hw
    b := hb
    dw := h.shape.dw
    db := h.shape.db
    xCache := h.shape.xCache
    zCache := h.shape.zCache
    caches := h.shape.caches
  }
  inDim_eq := h.inDim_eq
  outDim_eq := h.outDim_eq

/-- A batch succeeds, keeps the invariant and leaves the exact gradient in the layers. -/
theorem NetInvariant.batch
    {config : TrainConfig ℝ} {steps start : ℕ} {s : Net ℝ} {x y : MatX ℝ}
    (h : NetInvariant config steps s) (hx : x.Shaped config.samples config.features)
    (hy : Targets y config.samples config.classes) (hlr : 0 < config.lr) (hsteps : steps < intMax)
    (hle : start + config.batch ≤ config.samples) {allocs : BatchAllocs}
    (hgive : allocs.Give config) :
  ∃ s' loss, trainBatch Libm.real config allocs x y start s = some (s', loss)
    ∧ NetInvariant config (steps + 1) s' ∧ BatchDone config x y start s s' loss
  := by
  obtain ⟨bx, hbxcall, hbx, hbxat⟩ := datasetBatch_eq hx h.bx hle
  obtain ⟨bY, hbYcall, hbY, hbYat⟩ := datasetBatch_eq hy.shaped h.bY hle
  have htargets := hy.batch hle hbY hbYat
  obtain ⟨z₁, hid, hforward₁, hmaps₁, hz₁, hhid, hz₁_eq, hhid_eq⟩ :=
    h.l1.forward hbx h.h hgive.forward1
  obtain ⟨z₂, logits, hforward₂, hmaps₂, hz₂, hlogits, hz₂_eq, hlogits_eq⟩ :=
    h.l2.forward hhid h.logits hgive.forward2
  obtain ⟨dlogits, hloss, hdlogits, hdlogits_eq⟩ := lossSoftmaxXent_eq hlogits htargets h.dlogits
  have hdh : ∀ m ∈ some s.dh, m.Shaped config.batch config.hidden := by
    intro m hm
    cases hm
    exact h.dh
  have hnone : ∀ m ∈ (none : Option (MatX ℝ)), m.Shaped config.batch config.features := by
    intro m hm
    cases hm
  obtain ⟨dw₂, db₂, dx, hbackward₂, hmaps₂', hdx, hsome, hprop₂⟩ :=
    hmaps₂.backward hhid hz₂ hdlogits hdh hgive.backward2
  obtain ⟨dh, rfl⟩ := Option.isSome_iff_exists.mp hsome
  obtain ⟨dw₁, db₁, dx₁, hbackward₁, hmaps₁', -, -, hprop₁⟩ :=
    hmaps₁.backward hbx hz₁ (hdx dh rfl) hnone hgive.backward1
  obtain ⟨log₁, hadam₁, hlength₁⟩ := h.a1
  obtain ⟨log₂, hadam₂, hlength₂⟩ := h.a2
  obtain ⟨a₂, w₂, b₂, hstep₂, hinv₂, hmoves₂⟩ := (hadam₂.with_caches hid z₂).step
    hmaps₂'.shape.dw hmaps₂'.shape.db hlr (by omega)
  obtain ⟨a₁, w₁, b₁, hstep₁, hinv₁, hmoves₁⟩ := (hadam₁.with_caches bx z₁).step
    hmaps₁'.shape.dw hmaps₁'.shape.db hlr (by omega)
  have hX : bx.matrix config.batch config.features
      = batchRows x start config.batch config.features := by
    ext r c
    exact hbxat r c r.isLt c.isLt
  have hY : bY.matrix config.batch config.classes
      = batchRows y start config.batch config.classes := by
    ext r c
    exact hbYat r c r.isLt c.isLt
  rw [hX, h.tanh] at hhid_eq
  rw [hX] at hz₁_eq
  rw [hhid_eq, h.linear] at hlogits_eq
  let s' : Net ℝ := {
    l1 := { s.l1 with xCache := bx, zCache := z₁, dw := dw₁, db := db₁, w := w₁, b := b₁ }
    l2 := { s.l2 with xCache := hid, zCache := z₂, dw := dw₂, db := db₂, w := w₂, b := b₂ }
    a1 := a₁, a2 := a₂, bx, bY, h := hid, logits, dlogits, dh
  }
  have hpre₂ : preGradient { s.l2 with xCache := hid, zCache := z₂ } config.batch config.classes
        dlogits
      = scaled (actGradFn Libm.real .linear)
        (affine (hid.matrix config.batch config.hidden)
          (s.l2.w.matrix config.hidden config.classes) (rowOf s.l2.b config.classes 0))
        (dlogits.matrix config.batch config.classes) := by
    rw [preGradient, hz₂_eq, h.linear]
  have hpre₁ : preGradient { s.l1 with xCache := bx, zCache := z₁ } config.batch config.hidden dh
      = scaled (actGradFn Libm.real .tanh)
        (affine (batchRows x start config.batch config.features)
          (s.l1.w.matrix config.features config.hidden) (rowOf s.l1.b config.hidden 0))
        (dh.matrix config.batch config.hidden) := by
    rw [preGradient, hz₁_eq, h.tanh]
  rw [hprop₂.dx_eq dh rfl] at hpre₁
  have hk : 0 < config.classes := hlogits.cols_eq ▸ hlogits.made.cols_pos
  have : Nonempty (Fin config.classes) := ⟨⟨0, hk⟩⟩
  have hsum : ∀ r, ∑ c, batchRows y start config.batch config.classes r c = 1 :=
    fun r => hy.sum_eq (start + r) (by omega)
  have hgradient := isLossGradient_of_passes hsum hhid_eq
    (by rw [hdlogits_eq, hlogits_eq, hY, hhid_eq]) hpre₂ hpre₁
  have hdb : ∀ {db : MatX ℝ} {k n : ℕ} {D : Matrix (Fin n) (Fin k) ℝ},
      (∀ c : Fin k, db.at 0 c = ∑ r, D r c) → rowOf db k 0 = fun c => ∑ r, D r c :=
    fun h => funext h
  have hcall : trainBatch Libm.real config allocs x y start s
      = some (s', meanCrossEntropy (bY.matrix config.batch config.classes)
        (logits.matrix config.batch config.classes)) := by
    simp only [trainBatch, hbxcall, hbYcall, hforward₁, hforward₂, hloss, Option.bind_some,
      Option.getD_some, hbackward₂, hbackward₁, hstep₂, hstep₁, Option.map_some]
    rfl
  refine ⟨s', _, hcall, ?_, ?_⟩
  · constructor
    · exact hmaps₁'.with_parameters hinv₁.w.w hinv₁.b.w
    · exact hmaps₂'.with_parameters hinv₂.w.w hinv₂.b.w
    · exact h.tanh
    · exact h.linear
    · exact ⟨_, hinv₁, by rw [List.length_append, hlength₁]; rfl⟩
    · exact ⟨_, hinv₂, by rw [List.length_append, hlength₂]; rfl⟩
    · exact hbx
    · exact hbY
    · exact hhid
    · exact hlogits
    · exact hdlogits
    · exact hdx dh rfl
  · constructor
    · rw [hY, hlogits_eq]
      rfl
    · dsimp only [s']
      rw [hprop₁.dw_eq, hprop₂.dw_eq, hdb hprop₁.db_eq, hdb hprop₂.db_eq]
      rw [hX]
      exact hgradient
    · exact ⟨log₁, hmoves₁.weights, hmoves₁.biases⟩
    · exact ⟨log₂, hmoves₂.weights, hmoves₂.biases⟩

/-! ### Runs -/

/-- The network before the training loop. -/
structure NetStart (config : TrainConfig ℝ) (s : Net ℝ) : Prop where
  l1 : ∃ calloc rng weights,
    denseInit calloc config.features config.hidden .tanh rng weights = some (.ok s.l1)
  l2 : ∃ calloc rng weights,
    denseInit calloc config.hidden config.classes .linear rng weights = some (.ok s.l2)
  a1 : ∃ calloc, adamInit calloc s.l1 = .ok s.a1
  a2 : ∃ calloc, adamInit calloc s.l2 = .ok s.a2
  bx : ∃ calloc, matxInit calloc config.batch config.features = .ok s.bx
  bY : ∃ calloc, matxInit calloc config.batch config.classes = .ok s.bY
  h : ∃ calloc, matxInit calloc config.batch config.hidden = .ok s.h
  logits : ∃ calloc, matxInit calloc config.batch config.classes = .ok s.logits
  dlogits : ∃ calloc, matxInit calloc config.batch config.classes = .ok s.dlogits
  dh : ∃ calloc, matxInit calloc config.batch config.hidden = .ok s.dh

/-- The training loop, while no allocation fails; it emits the first rows of the batches. -/
def trainMachine (config : TrainConfig ℝ) (x y : MatX ℝ) : StateMachine (Training ℝ) ℕ where
  init s := NetStart config s.net ∧ s.epoch = 1 ∧ s.start = 0
  step s e s' := ∃ allocs : BatchAllocs, allocs.Give config
    ∧ trainTurn Libm.real config x y s allocs = some (s', e)

theorem denseInit_maps
    {calloc : Fin 4 → Calloc} {d k : ℕ} {act : Activation} {rng : Bool} {weights : ℕ → ℝ}
    {l : DenseLayer ℝ} (h : denseInit calloc d k act rng weights = some (.ok l)) :
  Maps l d k ∧ l.act = act
  := by
  have hshape := (DenseInvariant.init h).shape
  rw [denseInit] at h
  split at h
  · cases h
  split at h
  · cases h
  rw [Option.map_eq_some_iff] at h
  obtain ⟨⟨w, err⟩, -, heq⟩ := h
  cases heq
  exact ⟨⟨hshape, rfl, rfl⟩, rfl⟩

theorem NetStart.invariant {config : TrainConfig ℝ} {s : Net ℝ} (h : NetStart config s) :
  NetInvariant config 0 s
  := by
  obtain ⟨_, _, _, h1⟩ := h.l1
  obtain ⟨_, _, _, h2⟩ := h.l2
  obtain ⟨hmaps₁, hact₁⟩ := denseInit_maps h1
  obtain ⟨hmaps₂, hact₂⟩ := denseInit_maps h2
  have shaped : ∀ {n k : ℕ} {m : MatX ℝ}, (∃ calloc, matxInit calloc n k = .ok m) → m.Shaped n k :=
    fun ⟨_, hinit⟩ => matxInit_shaped hinit
  constructor
  · exact hmaps₁
  · exact hmaps₂
  · exact hact₁
  · exact hact₂
  · exact ⟨[], AdamInvariant.init ⟨hmaps₁.shape.w, hmaps₁.shape.b, h.a1⟩, rfl⟩
  · exact ⟨[], AdamInvariant.init ⟨hmaps₂.shape.w, hmaps₂.shape.b, h.a2⟩, rfl⟩
  · exact shaped h.bx
  · exact shaped h.bY
  · exact shaped h.h
  · exact shaped h.logits
  · exact shaped h.dlogits
  · exact shaped h.dh

/-- The first rows of the batches of an epoch. -/
def sweep (config : TrainConfig F) : List ℕ :=
  (List.range (config.samples / config.batch)).map (· * config.batch)

/-- The batches of an epoch have each of the first rows once, in their order. -/
theorem sweep_rows (config : TrainConfig F) :
  (sweep config).flatMap (fun start => List.range' start config.batch)
    = List.range (config.samples / config.batch * config.batch)
  := by
  rw [sweep, List.flatMap_map]
  induction config.samples / config.batch with
  | zero => simp
  | succ n ih =>
      rw [List.range_succ, List.flatMap_append, ih, List.flatMap_singleton, Nat.succ_mul,
        List.range_eq_range', List.range_eq_range', ← List.range'_append_1, Nat.zero_add]

/-- Whole epochs are done, and batches of the current one. -/
structure TrainInvariant (config : TrainConfig ℝ) (log : List ℕ) (s : Training ℝ) : Prop where
  net : NetInvariant config log.length s.net
  epoch_pos : 0 < s.epoch
  epoch_le : s.epoch ≤ config.epochs + 1
  position : ∃ j, j ≤ config.samples / config.batch ∧ s.start = j * config.batch
    ∧ log = (List.replicate (s.epoch - 1) (sweep config)).flatten ++ (sweep config).take j
    ∧ (config.epochs < s.epoch → j = 0)

section Runs

variable {config : TrainConfig ℝ} {x y : MatX ℝ} {log : List ℕ} {s s' : Training ℝ}

theorem length_sweep (config : TrainConfig ℝ) :
  (sweep config).length = config.samples / config.batch
  := by
  rw [sweep, List.length_map, List.length_range]

/-- The batches that have been done. -/
theorem length_sweeps (config : TrainConfig ℝ) (epoch : ℕ) {j : ℕ}
    (hj : j ≤ config.samples / config.batch) :
  ((List.replicate epoch (sweep config)).flatten ++ (sweep config).take j).length
    = epoch * (config.samples / config.batch) + j
  := by
  rw [List.length_append, List.length_flatten, List.map_replicate, List.sum_replicate,
    List.length_take, length_sweep, min_eq_left hj, smul_eq_mul]

theorem NetInvariant.batch_pos {steps : ℕ} {net : Net ℝ} (h : NetInvariant config steps net) :
  0 < config.batch
  := h.bx.rows_eq ▸ h.bx.made.rows_pos

/-- There is room for another batch just when the epoch has one more. -/
theorem batch_fits_iff (hbatch : 0 < config.batch) (j : ℕ) :
  j * config.batch + config.batch ≤ config.samples ↔ j < config.samples / config.batch
  := by
  rw [← Nat.succ_mul, ← Nat.le_div_iff_mul_le hbatch]
  rfl

/-- The optimizers have not counted too many steps for another batch. -/
theorem TrainInvariant.length_lt
    (h : TrainInvariant config log s)
    (hsteps : config.epochs * (config.samples / config.batch) ≤ intMax)
    (hepoch : s.epoch ≤ config.epochs) (hle : s.start + config.batch ≤ config.samples) :
  log.length < intMax
  := by
  obtain ⟨j, hj, hstart, hlog, -⟩ := h.position
  rw [hstart, batch_fits_iff h.net.batch_pos] at hle
  rw [hlog, length_sweeps config _ hj]
  obtain ⟨e, he⟩ : ∃ e, s.epoch = e + 1 := ⟨s.epoch - 1, by have := h.epoch_pos; omega⟩
  have hmul : (e + 1) * (config.samples / config.batch)
      ≤ config.epochs * (config.samples / config.batch) := Nat.mul_le_mul_right _ (by omega)
  rw [Nat.add_mul, Nat.one_mul] at hmul
  rw [he, Nat.add_sub_cancel]
  omega

/-- A batch of the training loop. -/
theorem TrainInvariant.batch
    (h : TrainInvariant config log s) (hx : x.Shaped config.samples config.features)
    (hy : Targets y config.samples config.classes) (hlr : 0 < config.lr)
    (hsteps : config.epochs * (config.samples / config.batch) ≤ intMax)
    (hepoch : s.epoch ≤ config.epochs) (hle : s.start + config.batch ≤ config.samples)
    {allocs : BatchAllocs} (hgive : allocs.Give config) :
  ∃ s' loss, trainTurn Libm.real config x y s allocs = some (s', some s.start)
    ∧ TrainInvariant config (log ++ [s.start]) s' ∧ s'.epochLoss = s.epochLoss + loss
    ∧ BatchDone config x y s.start s.net s'.net loss
  := by
  obtain ⟨net, loss, hcall, hnet, hdone⟩ :=
    h.net.batch hx hy hlr (h.length_lt hsteps hepoch hle) hle hgive
  let s' : Training ℝ := {
    net, epoch := s.epoch, start := s.start + config.batch, epochLoss := s.epochLoss + loss
    batches := s.batches + 1
  }
  refine ⟨s', loss, ?_, ⟨?_, h.epoch_pos, h.epoch_le, ?_⟩, rfl, hdone⟩
  · rw [trainTurn, if_neg (Nat.not_lt.mpr hepoch), if_pos hle, hcall]
    rfl
  · rw [List.length_append]
    exact hnet
  · obtain ⟨j, hj, hstart, hlog, -⟩ := h.position
    rw [hstart, batch_fits_iff h.net.batch_pos] at hle
    refine ⟨j + 1, hle, ?_, ?_, fun hover => absurd hover (Nat.not_lt.mpr hepoch)⟩
    · dsimp only [s']
      rw [hstart, Nat.succ_mul]
    · have hget : (sweep config)[j]? = some (j * config.batch) := by
        rw [sweep, List.getElem?_map, List.getElem?_range hle]
        rfl
      rw [hlog, List.append_assoc, List.take_add_one, hget, hstart]
      rfl

/-- The end of an epoch. -/
theorem TrainInvariant.next_epoch
    (h : TrainInvariant config log s) (hepoch : s.epoch ≤ config.epochs)
    (hdone : ¬ s.start + config.batch ≤ config.samples) :
  TrainInvariant config log
    { s with epoch := s.epoch + 1, start := 0, epochLoss := 0, batches := 0 }
  where
  net := h.net
  epoch_pos := Nat.succ_pos _
  epoch_le := Nat.succ_le_succ hepoch
  position := by
    obtain ⟨j, hj, hstart, hlog, -⟩ := h.position
    rw [hstart, batch_fits_iff h.net.batch_pos] at hdone
    obtain ⟨e, he⟩ : ∃ e, s.epoch = e + 1 := ⟨s.epoch - 1, by have := h.epoch_pos; omega⟩
    have hwhole : (sweep config).take j = sweep config := by
      apply List.take_of_length_le
      rw [length_sweep]
      omega
    refine ⟨0, Nat.zero_le _, (Nat.zero_mul _).symm, ?_, fun _ => rfl⟩
    rw [hlog, hwhole, he, Nat.add_sub_cancel, Nat.add_sub_cancel, List.replicate_succ',
      List.flatten_append, List.take_zero, List.append_nil, List.flatten_singleton]

theorem TrainInvariant.of_reaches
    (hx : x.Shaped config.samples config.features)
    (hy : Targets y config.samples config.classes) (hlr : 0 < config.lr)
    (hsteps : config.epochs * (config.samples / config.batch) ≤ intMax)
    (h : (trainMachine config x y).Reaches log s) :
  TrainInvariant config log s
  := by
  apply h.invariant (I := TrainInvariant config)
  · rintro s ⟨hnet, hepoch, hstart⟩
    refine ⟨hnet.invariant, by omega, by omega, 0, Nat.zero_le _, by omega, ?_, fun _ => rfl⟩
    rw [hepoch]
    rfl
  · rintro log s e s' - hs ⟨allocs, hgive, hturn⟩
    by_cases hepoch : s.epoch ≤ config.epochs
    · by_cases hle : s.start + config.batch ≤ config.samples
      · obtain ⟨s'', loss, hturn', hinv, -, -⟩ := hs.batch hx hy hlr hsteps hepoch hle hgive
        rw [hturn] at hturn'
        cases hturn'
        exact hinv
      · rw [trainTurn, if_neg (Nat.not_lt.mpr hepoch), if_neg hle] at hturn
        cases hturn
        rw [Option.toList_none, List.append_nil]
        exact hs.next_epoch hepoch hle
    · rw [trainTurn, if_pos (Nat.not_le.mp hepoch)] at hturn
      cases hturn

/-- In any run of the training loop in which no allocation fails, the batches are those of whole
sweeps over the rows, each row once, and of the part of one.  Every batch succeeds, its loss is
that of the network on its rows, and the gradients are exact.  The loop ends after the sweeps of
all epochs. -/
theorem ml_training_exact
    (hx : x.Shaped config.samples config.features)
    (hy : Targets y config.samples config.classes) (hlr : 0 < config.lr)
    (hsteps : config.epochs * (config.samples / config.batch) ≤ intMax)
    (h : (trainMachine config x y).Reaches log s) :
  (sweep config).flatMap (fun start => List.range' start config.batch)
      = List.range (config.samples / config.batch * config.batch)
    ∧ (∃ j, log = (List.replicate (s.epoch - 1) (sweep config)).flatten ++ (sweep config).take j)
    ∧ (∀ allocs : BatchAllocs, allocs.Give config → s.epoch ≤ config.epochs →
      s.start + config.batch ≤ config.samples →
      ∃ s' loss, trainTurn Libm.real config x y s allocs = some (s', some s.start)
        ∧ s'.epochLoss = s.epochLoss + loss ∧ BatchDone config x y s.start s.net s'.net loss)
    ∧ ((∀ e s', ¬ (trainMachine config x y).step s e s') →
      (∃ allocs : BatchAllocs, allocs.Give config) →
      log = (List.replicate config.epochs (sweep config)).flatten)
  := by
  have hinv := TrainInvariant.of_reaches hx hy hlr hsteps h
  obtain ⟨j, hj, hstart, hlog, hover⟩ := hinv.position
  refine ⟨sweep_rows config, ⟨j, hlog⟩, ?_, ?_⟩
  · intro allocs hgive hepoch hle
    obtain ⟨s', loss, hturn, -, hloss, hdone⟩ := hinv.batch hx hy hlr hsteps hepoch hle hgive
    exact ⟨s', loss, hturn, hloss, hdone⟩
  · rintro hstuck ⟨allocs, hgive⟩
    have hepoch : config.epochs < s.epoch := by
      by_contra hle
      rw [Nat.not_lt] at hle
      by_cases hfits : s.start + config.batch ≤ config.samples
      · obtain ⟨s', loss, hturn, -⟩ := hinv.batch hx hy hlr hsteps hle hfits hgive
        exact hstuck _ _ ⟨allocs, hgive, hturn⟩
      · have hturn : trainTurn Libm.real config x y s allocs = some
            ({ s with epoch := s.epoch + 1, start := 0, epochLoss := 0, batches := 0 }, none) := by
          rw [trainTurn, if_neg (Nat.not_lt.mpr hle), if_neg hfits]
        exact hstuck _ _ ⟨allocs, hgive, hturn⟩
    have hepochs : s.epoch - 1 = config.epochs := by
      have := hinv.epoch_le
      omega
    rw [hlog, hover hepoch, hepochs, List.take_zero, List.append_nil]

end Runs

/-- Two samples of two classes, in batches of one. -/
noncomputable def smallConfig : TrainConfig ℝ where
  samples := 2
  features := 2
  hidden := 2
  classes := 2
  batch := 1
  epochs := 1
  lr := 1 / 100

/-- The second batch of a small network. -/
theorem ml_training_exact_small :
  ∃ (s s' : Training ℝ) (loss : ℝ),
    (trainMachine smallConfig ⟨[1, 2, 3, 5], 2, 2⟩ ⟨[1, 0, 0, 1], 2, 2⟩).Reaches [0] s
    ∧ s'.epochLoss = s.epochLoss + loss
    ∧ BatchDone smallConfig ⟨[1, 2, 3, 5], 2, 2⟩ ⟨[1, 0, 0, 1], 2, 2⟩ 1 s.net s'.net loss
  := by
  let calloc : Calloc := .upTo 100 (by decide)
  have hlayer : ∀ act, ∃ l, denseInit (fun _ => calloc) 2 2 act true (fun i => (i : ℝ))
      = some (.ok l) ∧ ∃ adam, adamInit (fun _ => calloc) l = .ok adam := by
    intro act
    obtain ⟨l, hl⟩ : ∃ l, denseInit (fun _ => calloc) 2 2 act true (fun i => (i : ℝ))
        = some (.ok l) := ⟨_, rfl⟩
    obtain ⟨hshape, hin, hout⟩ := (denseInit_maps hl).1
    refine ⟨l, hl, ?_⟩
    rw [adamInit, if_neg hshape.w.data_ne_nil, hshape.w.rows_eq, hshape.w.cols_eq,
      hshape.b.cols_eq, hin, hout]
    exact ⟨_, rfl⟩
  obtain ⟨l1, hl1, a1, ha1⟩ := hlayer .tanh
  obtain ⟨l2, hl2, a2, ha2⟩ := hlayer .linear
  obtain ⟨m, hm⟩ : ∃ m : MatX ℝ, matxInit calloc 1 2 = .ok m := ⟨_, rfl⟩
  let net : Net ℝ := {
    l1, l2, a1, a2, bx := m, bY := m, h := m, logits := m, dlogits := m, dh := m
  }
  have hnet : NetStart smallConfig net :=
    ⟨⟨_, _, _, hl1⟩, ⟨_, _, _, hl2⟩, ⟨_, ha1⟩, ⟨_, ha2⟩, ⟨_, hm⟩, ⟨_, hm⟩, ⟨_, hm⟩, ⟨_, hm⟩,
      ⟨_, hm⟩, ⟨_, hm⟩⟩
  let start : Training ℝ := { net, epoch := 1, start := 0, epochLoss := 0, batches := 0 }
  have hstart : (trainMachine smallConfig ⟨[1, 2, 3, 5], 2, 2⟩ ⟨[1, 0, 0, 1], 2, 2⟩).Reaches
      [] start := .init ⟨hnet, rfl, rfl⟩
  have hcount : checkedCount 2 2 = .ok 4 := by decide
  have hx : MatX.Shaped (⟨[1, 2, 3, 5], 2, 2⟩ : MatX ℝ) 2 2 := ⟨hcount, rfl, rfl⟩
  have hy : Targets ⟨[1, 0, 0, 1], 2, 2⟩ 2 2 := by
    have hcases : ∀ {i : ℕ}, i < 2 → i = 0 ∨ i = 1 := by
      omega
    refine ⟨⟨hcount, rfl, rfl⟩, ?_, ?_⟩
    · intro r c hr hc
      rcases hcases hr with rfl | rfl <;> rcases hcases hc with rfl | rfl <;> norm_num [MatX.at]
    · intro r hr
      rcases hcases hr with rfl | rfl <;> norm_num [MatX.at, Fin.sum_univ_two]
  have hlr : 0 < smallConfig.lr := by
    norm_num [smallConfig]
  let allocs : BatchAllocs := ⟨fun _ => calloc, fun _ => calloc, fun _ => calloc, fun _ => calloc⟩
  have hgive : allocs.Give smallConfig :=
    ⟨⟨rfl, rfl⟩, ⟨rfl, rfl⟩, ⟨rfl, rfl, rfl⟩, ⟨rfl, rfl, rfl⟩⟩
  obtain ⟨-, -, hfirst, -⟩ := ml_training_exact hx hy hlr (by decide) hstart
  obtain ⟨s, loss₁, hturn, -, -⟩ := hfirst allocs hgive (le_refl 1) (Nat.le_succ 1)
  have hreaches := hstart.snoc ⟨allocs, hgive, hturn⟩
  obtain ⟨hepoch, hs⟩ : s.epoch = 1 ∧ s.start = 1 := by
    have hepoch : ¬ smallConfig.epochs < start.epoch := Nat.lt_irrefl 1
    have hle : start.start + smallConfig.batch ≤ smallConfig.samples := Nat.le_succ 1
    rw [trainTurn, if_neg hepoch, if_pos hle, Option.map_eq_some_iff] at hturn
    obtain ⟨_, -, heq⟩ := hturn
    cases heq
    exact ⟨rfl, rfl⟩
  obtain ⟨-, -, hsecond, -⟩ := ml_training_exact hx hy hlr (by decide) hreaches
  obtain ⟨s', loss, -, hloss, hdone⟩ := hsecond allocs hgive (by rw [hepoch]; exact le_refl 1)
    (by rw [hs]; exact le_refl 2)
  rw [hs] at hdone
  exact ⟨s, s', loss, hreaches, hloss, hdone⟩

end CTemplate

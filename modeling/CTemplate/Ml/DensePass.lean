import CTemplate.Library.Backprop
import CTemplate.Ml.Activation
import CTemplate.Ml.DenseGradient

/-!
# The passes of a dense layer as functions of matrices

When no allocation fails, `dense_forward` makes the output of the layer of matrices, and
`dense_backward` the products that propagate a gradient through it.
-/

namespace CTemplate

open Backprop Matrix

/-- The allocator gives the data of a matrix. -/
def Calloc.Gives (calloc : Calloc) (rows cols : ℕ) : Prop :=
  calloc.grants (rows * cols) floatSize = true

variable {F : Type} {l : DenseLayer F} {x out dout m : MatX F} {batch n k : ℕ}

theorem MatX.Shaped.checkedCount_eq (h : m.Shaped n k) :
  checkedCount n k = .ok (n * k)
  := by
  have hmade : checkedCount m.rows m.cols = .ok m.data.length := h.made
  rwa [h.rows_eq, h.cols_eq, h.length_data] at hmade

/-- A matrix with the shape of the transpose can be made. -/
theorem MatX.Shaped.checkedCount_swap (h : m.Shaped n k) :
  checkedCount k n = .ok (k * n)
  := by
  have hn : n ≠ 0 := by
    have := h.made.rows_pos
    rw [h.rows_eq] at this
    omega
  have hk : k ≠ 0 := by
    have := h.made.cols_pos
    rw [h.cols_eq] at this
    omega
  have hsize := h.made.size_le
  rw [h.rows_eq, h.cols_eq, Nat.mul_comm n] at hsize
  have hcount : k * n ≤ sizeMax / floatSize := (Nat.le_div_iff_mul_le (by decide)).mpr hsize
  have hrows : k ≤ sizeMax / n := by
    rw [Nat.le_div_iff_mul_le (Nat.pos_of_ne_zero hn)]
    exact hcount.trans (Nat.div_le_self _ _)
  rw [checkedCount, if_neg (not_or.mpr ⟨hk, hn⟩), if_neg (Nat.not_lt.mpr hrows),
    if_neg (Nat.not_lt.mpr hcount)]

theorem exists_matxInit
    [Zero F] {calloc : Calloc} (hcount : checkedCount n k = .ok (n * k))
    (hgives : calloc.Gives n k) :
  ∃ m : MatX F, matxInit calloc n k = .ok m ∧ m.Shaped n k
  := by
  have hinit : matxInit (F := F) calloc n k = .ok ⟨List.replicate (n * k) 0, n, k⟩ := by
    rw [matxInit, hcount]
    exact if_pos hgives
  exact ⟨_, hinit, matxInit_shaped hinit⟩

/-- A cache has the shape afterwards. -/
theorem ensureShape_ok
    [Zero F] {calloc : Calloc} (hm : m.Valid) (hcount : checkedCount n k = .ok (n * k))
    (hgives : calloc.Gives n k) :
  ∃ m', ensureShape m n k calloc = (m', .ok) ∧ m'.Shaped n k
  := by
  by_cases hshape : m.data ≠ [] ∧ m.rows = n ∧ m.cols = k
  · exact ⟨m, if_pos hshape, hm hshape.1, hshape.2.1, hshape.2.2⟩
  · obtain ⟨m', hinit, hm'⟩ := exists_matxInit (F := F) hcount hgives
    refine ⟨m', ?_, hm'⟩
    rw [ensureShape, if_neg hshape, hinit]

variable [Zero F] [Add F] [Mul F]

/-- A forward pass in which no allocation fails keeps its input and makes an output. -/
theorem DenseShape.forward_ok
    (h : DenseShape l) (hx : x.Shaped batch l.inDim) (hout : out.Shaped batch l.outDim)
    (actFn : Activation → F → F) {calloc : Fin 2 → Calloc}
    (hgives : (calloc 0).Gives batch l.inDim ∧ (calloc 1).Gives batch l.outDim) :
  ∃ z out', denseForward actFn l x out calloc
      = some ({ l with xCache := x, zCache := z }, out', .ok)
    ∧ DenseShape { l with xCache := x, zCache := z } ∧ z.Shaped batch l.outDim
    ∧ out'.Shaped batch l.outDim
    ∧ (∀ r c, r < batch → c < l.outDim → z.at r c = x.dot l.w r c + l.b.at 0 c)
    ∧ ∀ r c, r < batch → c < l.outDim → out'.at r c = actFn l.act (z.at r c)
  := by
  obtain ⟨xCache, hensure, hxc⟩ := ensureShape_ok h.xCache hx.checkedCount_eq hgives.1
  obtain ⟨zCache, hensure', hzc⟩ := ensureShape_ok h.zCache hout.checkedCount_eq hgives.2
  have hcaches : CTemplate.ensureCaches l batch calloc = ({ l with xCache, zCache }, .ok) := by
    simp only [CTemplate.ensureCaches, hensure, hensure']
    rfl
  obtain ⟨z₁, hmul, hz₁, hat₁⟩ := hx.mul h.w hzc
  obtain ⟨z, hadd, hz, hat⟩ := hz₁.addRow h.b hz₁
  obtain ⟨out', hmap, hout', hat'⟩ := hz.map hout (actFn l.act)
  refine ⟨z, out', ?_, h.with_caches hx hz, hz, hout', ?_, hat'⟩
  · rw [denseForward, if_neg (not_or.mpr ⟨hx.data_ne_nil, hout.data_ne_nil⟩),
      if_neg (not_not_intro hx.cols_eq), if_neg, hx.rows_eq, hcaches]
    · dsimp only
      rw [if_neg (not_not_intro rfl),
        copyBatch_eq (l := { l with xCache, zCache }) hx hxc, Option.bind_some]
      simp only [onOk, hmul, hadd, hmap, Option.bind_some, if_true]
    · rw [hout.rows_eq, hout.cols_eq, hx.rows_eq]
      simp
  · intro r c hr hc
    rw [hat r c hr hc, hat₁ r c hr hc]

/-- A backward pass in which no allocation fails makes the gradients. -/
theorem DenseShape.backward_ok
    (h : DenseShape l) (hx : l.xCache.Shaped batch l.inDim) (hz : l.zCache.Shaped batch l.outDim)
    (hdout : dout.Shaped batch l.outDim) {dx : Option (MatX F)}
    (hdx : ∀ m ∈ dx, m.Shaped batch l.inDim) (actGradFn : Activation → F → F)
    {calloc : Fin 3 → Calloc} (hgives : (calloc 0).Gives batch l.outDim
      ∧ (calloc 1).Gives l.inDim batch ∧ (calloc 2).Gives l.outDim l.inDim) :
  ∃ dw db dx', denseBackward actGradFn l dout dx calloc = some ({ l with dw, db }, dx', .ok)
    ∧ DenseShape { l with dw, db } ∧ (∀ m ∈ dx', m.Shaped batch l.inDim)
    ∧ dx'.isSome = dx.isSome
    ∧ Gradients l batch (fun r c => actGradFn l.act (l.zCache.at r c) * dout.at r c) dw db dx'
  := by
  obtain ⟨dz₀, hinit, hdz₀⟩ := exists_matxInit (F := F) hz.checkedCount_eq hgives.1
  obtain ⟨xt₀, hinitX, hxt₀⟩ := exists_matxInit (F := F) hx.checkedCount_swap hgives.2.1
  obtain ⟨wt₀, hinitW, hwt₀⟩ := exists_matxInit (F := F) h.w.checkedCount_swap hgives.2.2
  obtain ⟨dz₁, hmap, hdz₁, hat₁⟩ := hz.map hdz₀ (actGradFn l.act)
  obtain ⟨dz, hmul, hdz, hat⟩ := hdz₁.hadamard hdout hdz₁
  obtain ⟨xt, htranspose, hxt, hxt_at⟩ := hx.transpose hxt₀
  obtain ⟨dw, hmulW, hdw, hdw_at⟩ := hxt.mul hdz h.dw
  obtain ⟨db, hsums, hdb, hdb_at⟩ := hdz.colSums h.db
  have hdz_at : ∀ r c, r < batch → c < l.outDim →
      dz.at r c = actGradFn l.act (l.zCache.at r c) * dout.at r c := by
    intro r c hr hc
    rw [hat r c hr hc, hat₁ r c hr hc]
  have hweights : ∀ i j, i < l.inDim → j < l.outDim →
      dw.at i j = foldProducts batch (fun r => l.xCache.at r i) fun r => dz.at r j := by
    intro i j hi hj
    rw [hdw_at i j hi hj]
    apply MatX.dot_eq_foldProducts hxt.cols_eq _ (fun _ _ => rfl)
    intro r hr
    exact hxt_at i r hi hr
  have hstart : ∀ dx : Option (MatX F), (∀ m ∈ dx, m.Shaped batch l.inDim) →
      denseBackward actGradFn l dout dx calloc
        = CTemplate.layerGradients l batch dz dx calloc := by
    intro dx hdx
    have hdxShape : ¬ dx.any (fun dx => decide (dx.rows ≠ batch ∨ dx.cols ≠ l.inDim)) = true := by
      cases dx with
      | none => simp
      | some m =>
          have hm := hdx m rfl
          simp [hm.rows_eq, hm.cols_eq]
    have hdata : ¬ (dout.data = [] ∨ l.xCache.data = [] ∨ l.zCache.data = []) :=
      not_or.mpr ⟨hdout.data_ne_nil, not_or.mpr ⟨hx.data_ne_nil, hz.data_ne_nil⟩⟩
    unfold denseBackward
    rw [if_neg hdata]
    dsimp only
    rw [hx.rows_eq, if_neg, if_neg hdxShape, hinit]
    · simp only [onOk, hmap, hmul, Option.bind_some, if_true]
    · rw [hdout.rows_eq, hdout.cols_eq]
      simp
  rw [hstart dx hdx]
  cases dx with
  | none =>
      refine ⟨dw, db, none, ?_, h.with_gradients hdw hdb, (fun m hm => by cases hm), rfl, ?_⟩
      · rw [CTemplate.layerGradients, hinitX]
        simp only [onOk, htranspose, hmulW, hsums, Option.bind_some, if_true]
      · exact Gradients.congr ⟨hweights, hdb_at, (fun m hm => by cases hm)⟩ hdz_at
  | some m =>
      have hm := hdx m rfl
      obtain ⟨wt, htransposeW, hwt, hwt_at⟩ := h.w.transpose hwt₀
      obtain ⟨dx', hmulX, hdx', hdx_at⟩ := hdz.mul hwt hm
      refine ⟨dw, db, some dx', ?_, h.with_gradients hdw hdb, ?_, rfl, ?_⟩
      · rw [CTemplate.layerGradients, hinitX]
        simp only [onOk, htranspose, hmulW, hsums, Option.bind_some, if_true,
          CTemplate.inputGradient, hinitW, htransposeW, hmulX]
      · intro m' hm'
        cases hm'
        exact hdx'
      · apply Gradients.congr _ hdz_at
        refine ⟨hweights, hdb_at, ?_⟩
        intro m' hm' r i hr hi
        cases hm'
        rw [hdx_at r i hr hi]
        apply MatX.dot_eq_foldProducts hdz.cols_eq (fun _ _ => rfl)
        intro c hc
        exact hwt_at c i hc hi

/-! ### As matrices -/

/-- The first elements of a row. -/
def rowOf (a : MatX ℝ) (k r : ℕ) : Fin k → ℝ :=
  fun c => a.at r c

section Matrices

variable {l : DenseLayer ℝ} {x out dout dw db : MatX ℝ} {dx : Option (MatX ℝ)} {d : ℕ}

/-- The layer maps inputs of length `d` to outputs of length `k`. -/
structure Maps (l : DenseLayer ℝ) (d k : ℕ) : Prop where
  shape : DenseShape l
  inDim_eq : l.inDim = d
  outDim_eq : l.outDim = k

/-- The gradient with respect to `X * W + b` of the layer. -/
noncomputable def preGradient (l : DenseLayer ℝ) (batch k : ℕ) (dout : MatX ℝ) :
    Matrix (Fin batch) (Fin k) ℝ :=
  scaled (actGradFn Libm.real l.act) (l.zCache.matrix batch k) (dout.matrix batch k)

/-- The gradients with respect to the weights, the biases and the input, from the gradient `D`. -/
structure Propagates (l : DenseLayer ℝ) {batch d k : ℕ} (D : Matrix (Fin batch) (Fin k) ℝ)
    (dw db : MatX ℝ) (dx : Option (MatX ℝ)) : Prop where
  dw_eq : dw.matrix d k = (l.xCache.matrix batch d)ᵀ * D
  db_eq : ∀ c : Fin k, db.at 0 c = ∑ r, D r c
  dx_eq : ∀ m ∈ dx, m.matrix batch d = D * (l.w.matrix d k)ᵀ

/-- The input and the output of a forward pass. -/
theorem Maps.forward
    (h : Maps l d k) (hx : x.Shaped batch d) (hout : out.Shaped batch k)
    {calloc : Fin 2 → Calloc} (hgives : (calloc 0).Gives batch d ∧ (calloc 1).Gives batch k) :
  ∃ z out', denseForward (actFn Libm.real) l x out calloc
      = some ({ l with xCache := x, zCache := z }, out', .ok)
    ∧ Maps { l with xCache := x, zCache := z } d k ∧ z.Shaped batch k ∧ out'.Shaped batch k
    ∧ z.matrix batch k = affine (x.matrix batch d) (l.w.matrix d k) (rowOf l.b k 0)
    ∧ out'.matrix batch k
      = layer (actFn Libm.real l.act) (x.matrix batch d) (l.w.matrix d k) (rowOf l.b k 0)
  := by
  obtain ⟨hshape, rfl, rfl⟩ := h
  obtain ⟨z, out', hcall, hshape', hz, hout', hat, hat'⟩ :=
    hshape.forward_ok hx hout (actFn Libm.real) hgives
  have hmatrix : z.matrix batch l.outDim
      = affine (x.matrix batch l.inDim) (l.w.matrix l.inDim l.outDim) (rowOf l.b l.outDim 0) := by
    ext r c
    have hdot : x.dot l.w r c = ∑ q : Fin l.inDim, x.at r q * l.w.at q c := by
      rw [MatX.dot_eq_foldProducts hx.cols_eq (fun _ _ => rfl) (fun _ _ => rfl),
        foldProducts_eq_sum]
    rw [MatX.matrix, Matrix.of_apply, hat r c r.isLt c.isLt, hdot]
    rfl
  refine ⟨z, out', hcall, ⟨hshape', rfl, rfl⟩, hz, hout', hmatrix, ?_⟩
  rw [layer, ← hmatrix]
  ext r c
  exact hat' r c r.isLt c.isLt

/-- A backward pass propagates the gradient. -/
theorem Maps.backward
    (h : Maps l d k) (hx : l.xCache.Shaped batch d) (hz : l.zCache.Shaped batch k)
    (hdout : dout.Shaped batch k) (hdx : ∀ m ∈ dx, m.Shaped batch d) {calloc : Fin 3 → Calloc}
    (hgives : (calloc 0).Gives batch k ∧ (calloc 1).Gives d batch ∧ (calloc 2).Gives k d) :
  ∃ dw db dx', denseBackward (actGradFn Libm.real) l dout dx calloc
      = some ({ l with dw, db }, dx', .ok)
    ∧ Maps { l with dw, db } d k ∧ (∀ m ∈ dx', m.Shaped batch d) ∧ dx'.isSome = dx.isSome
    ∧ Propagates l (d := d) (preGradient l batch k dout) dw db dx'
  := by
  obtain ⟨hshape, rfl, rfl⟩ := h
  obtain ⟨dw, db, dx', hcall, hshape', hdx', hsome, hgradients⟩ :=
    hshape.backward_ok hx hz hdout hdx (actGradFn Libm.real) hgives
  refine ⟨dw, db, dx', hcall, ⟨hshape', rfl, rfl⟩, hdx', hsome, ?_, ?_, ?_⟩
  · ext i j
    rw [Matrix.mul_apply]
    exact (hgradients.dw_eq i j i.isLt j.isLt).trans (foldProducts_eq_sum _ _ _)
  · intro c
    exact (hgradients.db_eq c c.isLt).trans (foldl_range_eq_sum _ _)
  · intro m hm
    ext r i
    rw [Matrix.mul_apply]
    exact (hgradients.dx_eq m hm r i r.isLt i.isLt).trans (foldProducts_eq_sum _ _ _)

end Matrices

end CTemplate

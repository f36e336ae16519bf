import CTemplate.Library.Frobenius
import CTemplate.Ml.Dense
import Mathlib.Algebra.BigOperators.Fin

/-!
# The gradients of a dense layer

Whatever calls of `dense_forward` and `dense_backward` were made on a layer, and however its
weights were changed, a backward pass that succeeds makes the gradients for the input of the
last successful forward pass, when the weights were not changed since.  The elements are those
of a commutative ring.
-/

namespace CTemplate

open Frobenius Matrix

variable {F : Type}

/-! ### Runs -/

section Runs

/-- A layer, and the input of the last successful forward pass since its weights were changed
last. -/
structure DenseState (F : Type) where
  layer : DenseLayer F
  last : Option (MatX F)

variable [Zero F] [Add F] [Mul F] {actFn actGradFn : Activation → F → F}

/-- What happens next: a forward pass, a backward pass, or the weights are changed.  The
matrices that a caller passes were made by `matx_init` or have a null pointer for data, and do
not share their storage with the layer. -/
inductive DenseStep (actFn actGradFn : Activation → F → F) :
    DenseState F → Option Empty → DenseState F → Prop where
  | forward {s : DenseState F} {x out out' : MatX F} {calloc : Fin 2 → Calloc}
      {l : DenseLayer F} {err : ErrorCode} (hx : x.Valid) (hout : out.Valid)
      (h : denseForward actFn s.layer x out calloc = some (l, out', err)) :
      DenseStep actFn actGradFn s none ⟨l, if err = .ok then some x else s.last⟩
  | backward {s : DenseState F} {dout : MatX F} {dx dx' : Option (MatX F)}
      {calloc : Fin 3 → Calloc} {l : DenseLayer F} {err : ErrorCode} (hdout : dout.Valid)
      (hdx : ∀ m ∈ dx, m.Valid)
      (h : denseBackward actGradFn s.layer dout dx calloc = some (l, dx', err)) :
      DenseStep actFn actGradFn s none ⟨l, s.last⟩
  | train {s : DenseState F} {w b : MatX F} (hw : w.Shaped s.layer.inDim s.layer.outDim)
      (hb : b.Shaped 1 s.layer.outDim) :
      DenseStep actFn actGradFn s none ⟨{ s.layer with w, b }, none⟩

/-- A layer from `dense_init`, and what happens to it. -/
def denseMachine (actFn actGradFn : Activation → F → F) : StateMachine (DenseState F) Empty where
  init s := s.last = none ∧ ∃ calloc inDim outDim act rng weights,
    denseInit calloc inDim outDim act rng weights = some (.ok s.layer)
  step := DenseStep actFn actGradFn

/-- The caches hold the last input, or one of them is missing. -/
structure DenseInvariant (s : DenseState F) : Prop where
  shape : DenseShape s.layer
  cached : ∀ x ∈ s.last, ¬ s.layer.Uncached → Cached s.layer x

theorem DenseInvariant.init
    {calloc : Fin 4 → Calloc} {inDim outDim : ℕ} {act : Activation} {rng : Bool}
    {weights : ℕ → F} {l : DenseLayer F}
    (h : denseInit calloc inDim outDim act rng weights = some (.ok l)) :
  DenseInvariant ⟨l, none⟩
  := by
  rw [denseInit] at h
  split at h
  · cases h
  split at h
  · cases h
  case h_2 w b dw db hmatrices =>
  obtain ⟨hw, hb, hdw, hdb⟩ := denseMatrices_shaped hmatrices
  obtain ⟨w', hassign, hw', -⟩ := hw.assignAll (g := fun r c => weights (r * outDim + c))
    (f := fun i => some (weights i)) fun _ _ _ _ => rfl
  rw [hassign] at h
  obtain rfl := Except.ok.inj (Option.some.inj h)
  constructor
  · exact ⟨hw', hb, hdw, hdb, MatX.valid_null, MatX.valid_null, fun h => absurd rfl h⟩
  · intro x hx
    cases hx

/-- What happens to a layer keeps the invariant. -/
theorem DenseInvariant.step
    {s s' : DenseState F} {e : Option Empty} (h : DenseInvariant s)
    (hstep : DenseStep actFn actGradFn s e s') :
  DenseInvariant s'
  := by
  cases hstep with
  | @forward x out out' calloc l err hx hout hforward =>
      obtain ⟨xCache, zCache, out'', err', heq, hshape, hcase⟩ :=
        h.shape.forward hx hout actFn calloc
      rw [heq] at hforward
      cases hforward
      use hshape
      intro x' hlast hcached
      rcases hcase with ⟨hok, hx'⟩ | ⟨herr, rfl, rfl⟩ | ⟨-, hnull⟩
      · rw [if_pos hok] at hlast
        cases hlast
        exact hx'
      · rw [if_neg herr] at hlast
        apply h.cached x' hlast hcached
      · exact absurd hnull hcached
  | @backward dout dx dx' calloc l err hdout hdx hbackward =>
      obtain ⟨dw, db, dx'', err', heq, hshape, -⟩ :=
        h.shape.backward hdout hdx actGradFn calloc
      rw [heq] at hbackward
      cases hbackward
      use hshape
      intro x hlast hcached
      obtain ⟨hx, hz⟩ := h.cached x hlast hcached
      exact ⟨hx, hz⟩
  | @train w b hw hb =>
      constructor
      · exact ⟨hw, hb, h.shape.dw, h.shape.db, h.shape.xCache, h.shape.zCache, h.shape.caches⟩
      · intro x hlast
        cases hlast

theorem DenseInvariant.of_reaches
    {s : DenseState F} {log : List Empty} (h : (denseMachine actFn actGradFn).Reaches log s) :
  DenseInvariant s
  := by
  apply h.invariant (I := fun _ s => DenseInvariant s)
  · rintro ⟨l, last⟩ ⟨hlast, calloc, inDim, outDim, act, rng, weights, hinit⟩
    dsimp only at hlast hinit
    obtain rfl := hlast
    apply DenseInvariant.init hinit
  · intro log t e t' _ ht hstep
    apply ht.step hstep

end Runs

/-! ### Matrices over a ring -/

variable [CommRing F]

/-- The elements of a matrix of the given shape. -/
def MatX.matrix (m : MatX F) (rows cols : ℕ) : Matrix (Fin rows) (Fin cols) F :=
  Matrix.of fun r c => m.at r c

theorem foldl_range_eq_sum (n : ℕ) (f : ℕ → F) :
  (List.range n).foldl (fun sum q => sum + f q) 0 = ∑ q : Fin n, f q
  := by
  induction n with
  | zero => rfl
  | succ n ih =>
      rw [List.range_succ, List.foldl_append, ih, Fin.sum_univ_castSucc]
      rfl

theorem foldProducts_eq_sum (n : ℕ) (f g : ℕ → F) :
  foldProducts n f g = ∑ q : Fin n, f q * g q
  := foldl_range_eq_sum n fun q => f q * g q

variable {l : DenseLayer F} {x dout dw db dx : MatX F} {batch : ℕ}

/-- `X * W + b` -/
def preActivation (l : DenseLayer F) (x : MatX F) : Matrix (Fin x.rows) (Fin l.outDim) F :=
  Matrix.of fun r c =>
    (x.matrix x.rows l.inDim * l.w.matrix l.inDim l.outDim) r c + l.b.at 0 c

/-- The gradients, multiplied with changes of the input, the weights and the biases, are the
change of `X * W + b` multiplied with `dout` and the derivative `g` of the activation. -/
def ExactGradients (g : F → F) (l : DenseLayer F) (x dout dw db dx : MatX F) : Prop :=
  ∀ (dX : Matrix (Fin x.rows) (Fin l.inDim) F) (dW : Matrix (Fin l.inDim) (Fin l.outDim) F)
    (dB : Fin l.outDim → F),
  ∑ r : Fin x.rows, ∑ c : Fin l.outDim, dout.at r c * g (preActivation l x r c)
      * ((dX * l.w.matrix l.inDim l.outDim + x.matrix x.rows l.inDim * dW) r c + dB c)
    = entryPairing (dx.matrix x.rows l.inDim) dX + entryPairing (dw.matrix l.inDim l.outDim) dW
      + ∑ c : Fin l.outDim, db.at 0 c * dB c

theorem preActivation_apply
    (hx : x.cols = l.inDim) (r : Fin x.rows) (c : Fin l.outDim) :
  preActivation l x r c = x.dot l.w r c + l.b.at 0 c
  := by
  rw [preActivation, Matrix.of_apply, Matrix.mul_apply, MatX.dot_eq_foldProducts hx
    (fun _ _ => rfl) (fun _ _ => rfl), foldProducts_eq_sum]
  rfl

theorem Gradients.exact
    {g : F → F} {dz : ℕ → ℕ → F} (h : Gradients l x.rows dz dw db (some dx)) (hx : l.xCache = x)
    (hdz : ∀ (r : Fin x.rows) (c : Fin l.outDim),
      dz r c = g (preActivation l x r c) * dout.at r c) :
  ExactGradients g l x dout dw db dx
  := by
  subst hx
  intro dX dW dB
  let D : Matrix (Fin l.xCache.rows) (Fin l.outDim) F := Matrix.of fun r c => dz r c
  have hdw : dw.matrix l.inDim l.outDim = (l.xCache.matrix l.xCache.rows l.inDim)ᵀ * D := by
    ext i j
    rw [Matrix.mul_apply]
    exact (h.dw_eq i j i.isLt j.isLt).trans (foldProducts_eq_sum _ _ _)
  have hdx : dx.matrix l.xCache.rows l.inDim = D * (l.w.matrix l.inDim l.outDim)ᵀ := by
    ext r i
    rw [Matrix.mul_apply]
    exact (h.dx_eq dx rfl r i r.isLt i.isLt).trans (foldProducts_eq_sum _ _ _)
  have hdb : ∀ c : Fin l.outDim, db.at 0 c = ∑ r, D r c := fun c =>
    (h.db_eq c c.isLt).trans (foldl_range_eq_sum _ _)
  calc
    ∑ r : Fin l.xCache.rows, ∑ c : Fin l.outDim, dout.at r c * g (preActivation l l.xCache r c)
      * ((dX * l.w.matrix l.inDim l.outDim + l.xCache.matrix l.xCache.rows l.inDim * dW) r c
        + dB c)
      = entryPairing D (dX * l.w.matrix l.inDim l.outDim
          + l.xCache.matrix l.xCache.rows l.inDim * dW + Matrix.of fun _ c => dB c) := by
        rw [entryPairing]
        apply Finset.sum_congr rfl
        intro r _
        apply Finset.sum_congr rfl
        intro c _
        rw [mul_comm (dout.at r c), ← hdz]
        rfl
    _ = _ := by
        rw [entryPairing_affine, hdw, hdx]
        simp only [hdb]

/-- After any run, a backward pass that succeeds makes the exact gradients for the input of the
last successful forward pass. -/
theorem dense_backward_gradient
    {actFn actGradFn : Activation → F → F} {s : DenseState F} {log : List Empty}
    (h : (denseMachine actFn actGradFn).Reaches log s) (hlast : s.last = some x)
    (hdout : dout.Valid) (hdx : dx.Valid) (calloc : Fin 3 → Calloc) :
  ∃ dw db dx' err, denseBackward actGradFn s.layer dout (some dx) calloc
      = some ({ s.layer with dw, db }, some dx', err)
    ∧ (err = .ok → ExactGradients (actGradFn s.layer.act) s.layer x dout dw db dx')
  := by
  have hs := DenseInvariant.of_reaches h
  have hvalid : ∀ m ∈ some dx, m.Valid := by
    rintro m ⟨⟩
    exact hdx
  obtain ⟨dw, db, dx', err, heq, -, hsome, hok⟩ :=
    hs.shape.backward hdout hvalid actGradFn calloc
  obtain ⟨dx', rfl⟩ := Option.isSome_iff_exists.mp hsome
  refine ⟨dw, db, dx', err, heq, ?_⟩
  intro herr
  obtain ⟨hcached, hgradients⟩ := hok herr
  obtain ⟨hx, hz⟩ := hs.cached x hlast hcached
  rw [DenseLayer.Uncached, not_or] at hcached
  have hcols := (hs.shape.caches hcached.1 hcached.2).1.cols_eq
  rw [hx] at hgradients hcols
  apply hgradients.exact hx
  intro r c
  rw [preActivation_apply hcols, hz r c r.isLt c.isLt]

/-- A layer with weights `3` and `4`. -/
def reluLayer (xCache zCache : MatX ℤ) : DenseLayer ℤ where
  inDim := 2
  outDim := 1
  act := .relu
  w := ⟨[3, 4], 2, 1⟩
  b := ⟨[0], 1, 1⟩
  dw := ⟨[0, 0], 2, 1⟩
  db := ⟨[0], 1, 1⟩
  xCache := xCache
  zCache := zCache

/-- A backward pass after a forward pass with the input `(1, 2)`. -/
theorem dense_backward_gradient_relu :
  ∃ dw db dx', denseBackward (fun _ z => if 0 < z then 1 else 0)
      (reluLayer ⟨[1, 2], 1, 2⟩ ⟨[11], 1, 1⟩) ⟨[5], 1, 1⟩ (some ⟨[0, 0], 1, 2⟩)
      (fun _ => .upTo 100 (by decide))
      = some ({ reluLayer ⟨[1, 2], 1, 2⟩ ⟨[11], 1, 1⟩ with dw, db }, some dx', .ok)
    ∧ ExactGradients (fun z => if 0 < z then 1 else 0) (reluLayer ⟨[1, 2], 1, 2⟩ ⟨[11], 1, 1⟩)
      ⟨[1, 2], 1, 2⟩ ⟨[5], 1, 1⟩ dw db dx'
  := by
  have hx : MatX.Valid (F := ℤ) ⟨[1, 2], 1, 2⟩ := fun _ => show MatX.Made _ from rfl
  have hdx : MatX.Valid (F := ℤ) ⟨[0, 0], 1, 2⟩ := fun _ => show MatX.Made _ from rfl
  have hout : MatX.Valid (F := ℤ) ⟨[0], 1, 1⟩ := fun _ => show MatX.Made _ from rfl
  have hdout : MatX.Valid (F := ℤ) ⟨[5], 1, 1⟩ := fun _ => show MatX.Made _ from rfl
  have hforward : denseForward (fun _ z => max z 0) (reluLayer .null .null) ⟨[1, 2], 1, 2⟩
      ⟨[0], 1, 1⟩ (fun _ => .upTo 100 (by decide))
      = some (reluLayer ⟨[1, 2], 1, 2⟩ ⟨[11], 1, 1⟩, ⟨[11], 1, 1⟩, .ok) := rfl
  have hstep : DenseStep (F := ℤ) (fun _ z => max z 0) (fun _ z => if 0 < z then 1 else 0) _ none
      _ :=
    .forward (s := ⟨reluLayer .null .null, none⟩) hx hout hforward
  have hreaches : (denseMachine (fun _ z => max z 0) fun _ z => if 0 < z then 1 else 0).Reaches []
      ⟨reluLayer ⟨[1, 2], 1, 2⟩ ⟨[11], 1, 1⟩, some ⟨[1, 2], 1, 2⟩⟩ :=
    ⟨⟨reluLayer .null .null, none⟩,
      ⟨rfl, fun _ => .upTo 100 (by decide), 2, 1, .relu, true, fun i => i + 3, rfl⟩,
      .single (e := none) hstep⟩
  obtain ⟨dw, db, dx', err, heq, hgradients⟩ :=
    dense_backward_gradient hreaches rfl hdout hdx fun _ => .upTo 100 (by decide)
  have hok : err = .ok := by
    have hcode := congrArg (Option.map (·.2.2)) heq
    exact (Option.some.inj hcode).symm
  rw [hok] at heq
  exact ⟨dw, db, dx', heq, hgradients hok⟩

end CTemplate

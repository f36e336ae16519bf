import CTemplate.Library.Frobenius
import Mathlib.Analysis.Calculus.Deriv.Add
import Mathlib.Analysis.Calculus.Deriv.Mul
import Mathlib.Analysis.Calculus.Deriv.Comp

/-!
# Gradients by propagation

`Tangent X dX t` says that the entries of the matrices `X s` have the derivatives `dX` at `t`.  A
layer maps the entries of `X * W + b` by a function; `Tangent.layer` is the tangent of its output.
`HasGradient L G X` says that along every curve through `X` the derivative of `L` is `G` multiplied
with the tangent.  `HasGradient.layer` takes a gradient with respect to the output of a layer to
the gradients with respect to its input, its weights and its biases.
-/

namespace Backprop

open Frobenius Matrix

universe u v w

/-- The instance of the derivatives of functions from `ℝ` to `ℝ`. -/
scoped instance instContinuousSMulReal : ContinuousSMul ℝ ℝ := inferInstance

variable {m : Type u} {n : Type v} {k : Type w} [Fintype k]

/-- The entries of the matrices have the derivatives `dX` at `t`. -/
def Tangent (X : ℝ → Matrix m n ℝ) (dX : Matrix m n ℝ) (t : ℝ) : Prop :=
  ∀ i j, HasDerivAt (fun s => X s i j) (dX i j) t

/-- `X * W + b`, with the same `b` in each row. -/
def affine (X : Matrix m k ℝ) (W : Matrix k n ℝ) (b : n → ℝ) : Matrix m n ℝ :=
  X * W + Matrix.of fun _ j => b j

/-- The output of a layer with the activation `φ`. -/
def layer (φ : ℝ → ℝ) (X : Matrix m k ℝ) (W : Matrix k n ℝ) (b : n → ℝ) : Matrix m n ℝ :=
  (affine X W b).map φ

/-- The entries of `D` multiplied with the derivatives `φ'` of the activation. -/
def scaled (φ' : ℝ → ℝ) (Z D : Matrix m n ℝ) : Matrix m n ℝ :=
  Matrix.of fun i j => φ' (Z i j) * D i j

variable {X : ℝ → Matrix m k ℝ} {dX : Matrix m k ℝ} {W : ℝ → Matrix k n ℝ} {dW : Matrix k n ℝ}
  {b : ℝ → n → ℝ} {db : n → ℝ} {φ φ' : ℝ → ℝ} {t : ℝ}

theorem Tangent.affine
    (hX : Tangent X dX t) (hW : Tangent W dW t) (hb : ∀ j, HasDerivAt (fun s => b s j) (db j) t) :
  Tangent (fun s => affine (X s) (W s) (b s))
    (dX * W t + X t * dW + Matrix.of fun _ j => db j) t
  := by
  intro i j
  have hterm : ∀ q, HasDerivAt (fun s => X s i q * W s q j)
      (dX i q * W t q j + X t i q * dW q j) t := by
    intro q
    exact (hX i q).mul (hW q j)
  have hproduct : HasDerivAt (fun s => ∑ q, X s i q * W s q j)
      (∑ q, (dX i q * W t q j + X t i q * dW q j)) t := by
    apply HasDerivAt.fun_sum
    intro q _
    exact hterm q
  have hsum := hproduct.add (hb j)
  rw [Finset.sum_add_distrib] at hsum
  exact hsum

/-- The tangent of the output of a layer. -/
theorem Tangent.layer
    (hX : Tangent X dX t) (hW : Tangent W dW t) (hb : ∀ j, HasDerivAt (fun s => b s j) (db j) t)
    (hφ : ∀ i j, HasDerivAt φ (φ' (Backprop.affine (X t) (W t) (b t) i j))
      (Backprop.affine (X t) (W t) (b t) i j)) :
  Tangent (fun s => layer φ (X s) (W s) (b s))
    (scaled φ' (Backprop.affine (X t) (W t) (b t))
      (dX * W t + X t * dW + Matrix.of fun _ j => db j)) t
  := by
  intro i j
  exact (hφ i j).comp t (hX.affine hW hb i j)

variable [Fintype m] [Fintype n]

/-- Along every curve through `X₀` the derivative of `L` is `G` multiplied with the tangent. -/
def HasGradient (L : Matrix m n ℝ → ℝ) (G X₀ : Matrix m n ℝ) : Prop :=
  ∀ (X : ℝ → Matrix m n ℝ) (dX : Matrix m n ℝ) (t : ℝ), X t = X₀ → Tangent X dX t →
    HasDerivAt (fun s => L (X s)) (entryPairing G dX) t

theorem entryPairing_scaled (φ' : ℝ → ℝ) (Z D E : Matrix m n ℝ) :
  entryPairing D (scaled φ' Z E) = entryPairing (scaled φ' Z D) E
  := by
  apply Finset.sum_congr rfl
  intro i _
  apply Finset.sum_congr rfl
  intro j _
  simp only [scaled, Matrix.of_apply]
  ring

/-- The derivative along a tangent of the output of a layer, from the tangents of its input, its
weights and its biases. -/
theorem entryPairing_layer
    (D : Matrix m n ℝ) (Z : Matrix m n ℝ) (X₀ : Matrix m k ℝ) (W₀ : Matrix k n ℝ) :
  entryPairing D (scaled φ' Z (dX * W₀ + X₀ * dW + Matrix.of fun _ j => db j))
    = entryPairing (scaled φ' Z D * W₀ᵀ) dX + entryPairing (X₀ᵀ * scaled φ' Z D) dW
      + ∑ j, (∑ i, scaled φ' Z D i j) * db j
  := by
  rw [entryPairing_scaled, entryPairing_affine]

/-- The derivative of a loss after a layer. -/
theorem HasGradient.layer
    {L : Matrix m n ℝ → ℝ} {D : Matrix m n ℝ}
    (hL : HasGradient L D (Backprop.layer φ (X t) (W t) (b t)))
    (hX : Tangent X dX t) (hW : Tangent W dW t) (hb : ∀ j, HasDerivAt (fun s => b s j) (db j) t)
    (hφ : ∀ i j, HasDerivAt φ (φ' (affine (X t) (W t) (b t) i j)) (affine (X t) (W t) (b t) i j)) :
  HasDerivAt (fun s => L (Backprop.layer φ (X s) (W s) (b s)))
    (entryPairing (scaled φ' (affine (X t) (W t) (b t)) D * (W t)ᵀ) dX
      + entryPairing ((X t)ᵀ * scaled φ' (affine (X t) (W t) (b t)) D) dW
      + ∑ j, (∑ i, scaled φ' (affine (X t) (W t) (b t)) D i j) * db j) t
  := by
  rw [← entryPairing_layer]
  exact hL _ _ t rfl (hX.layer hW hb hφ)

/-! ### Two layers -/

universe x

variable {l : Type x} [Fintype l] {X₀ : Matrix m l ℝ} {W₁ : ℝ → Matrix l k ℝ} {dW₁ : Matrix l k ℝ}
  {b₁ : ℝ → k → ℝ} {db₁ : k → ℝ} {ψ ψ' : ℝ → ℝ}

/-- The derivative of a loss after two layers, along changes of the weights and the biases of
both. -/
theorem HasGradient.two_layers
    {L : Matrix m n ℝ → ℝ} {D : Matrix m n ℝ} {D₁ : Matrix m k ℝ} {D₂ : Matrix m n ℝ}
    {H : Matrix m k ℝ} (hH : H = Backprop.layer ψ X₀ (W₁ t) (b₁ t))
    (hL : HasGradient L D (Backprop.layer φ H (W t) (b t)))
    (hD₂ : D₂ = scaled φ' (affine H (W t) (b t)) D)
    (hD₁ : D₁ = scaled ψ' (affine X₀ (W₁ t) (b₁ t)) (D₂ * (W t)ᵀ))
    (hW₁ : Tangent W₁ dW₁ t) (hb₁ : ∀ j, HasDerivAt (fun s => b₁ s j) (db₁ j) t)
    (hW : Tangent W dW t) (hb : ∀ j, HasDerivAt (fun s => b s j) (db j) t)
    (hψ : ∀ z, HasDerivAt ψ (ψ' z) z) (hφ : ∀ z, HasDerivAt φ (φ' z) z) :
  HasDerivAt
    (fun s => L (Backprop.layer φ (Backprop.layer ψ X₀ (W₁ s) (b₁ s)) (W s) (b s)))
    (entryPairing (X₀ᵀ * D₁) dW₁ + ∑ j, (∑ i, D₁ i j) * db₁ j
      + (entryPairing (Hᵀ * D₂) dW + ∑ j, (∑ i, D₂ i j) * db j)) t
  := by
  subst hH hD₂ hD₁
  have hinput : Tangent (fun _ => X₀) (0 : Matrix m l ℝ) t := fun _ _ => hasDerivAt_const t _
  have hψ' : ∀ i j, HasDerivAt ψ (ψ' (affine X₀ (W₁ t) (b₁ t) i j))
      (affine X₀ (W₁ t) (b₁ t) i j) := fun i j => hψ _
  have hhidden := hinput.layer hW₁ hb₁ hψ'
  have hφ' : ∀ i j, HasDerivAt φ
      (φ' (affine (Backprop.layer ψ X₀ (W₁ t) (b₁ t)) (W t) (b t) i j))
      (affine (Backprop.layer ψ X₀ (W₁ t) (b₁ t)) (W t) (b t) i j) := fun i j => hφ _
  have hderiv := HasGradient.layer (X := fun s => Backprop.layer ψ X₀ (W₁ s) (b₁ s))
    hL hhidden hW hb hφ'
  rw [entryPairing_layer] at hderiv
  have hzero : ∀ A : Matrix m l ℝ, entryPairing A 0 = 0 := by
    intro A
    simp [entryPairing]
  rw [hzero, zero_add, add_assoc] at hderiv
  exact hderiv

end Backprop

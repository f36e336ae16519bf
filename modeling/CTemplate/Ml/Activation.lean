import CTemplate.Library.Backprop
import CTemplate.Ml.Dense
import Mathlib.Analysis.SpecialFunctions.ExpDeriv
import Mathlib.Analysis.SpecialFunctions.Log.Basic
import Mathlib.Analysis.SpecialFunctions.Sqrt
import Mathlib.Analysis.SpecialFunctions.Trigonometric.DerivHyp

/-!
# Activation functions

The activation functions of `ml/nn.c` and their derivatives.  The elements are those of an ordered
field with the functions of `math.h` on it; for the real numbers, the functions with the suffix
`_grad` are the derivatives.
-/

namespace CTemplate

variable {F : Type}

/-- The functions of `math.h` that `ml/nn.c` calls. -/
structure Libm (F : Type) where
  expf : F → F
  logf : F → F
  tanhf : F → F
  sqrtf : F → F

/-- The exact functions. -/
noncomputable def Libm.real : Libm ℝ where
  expf := Real.exp
  logf := Real.log
  tanhf := Real.tanh
  sqrtf := Real.sqrt

section Functions

variable [Field F] [LinearOrder F] (libm : Libm F)

/-- `act_relu` -/
def actRelu (x : F) : F :=
  if x > 0 then x else 0

/-- `act_relu_grad` -/
def actReluGrad (z : F) : F :=
  if z > 0 then 1 else 0

/-- `act_sigmoid` -/
def actSigmoid (x : F) : F :=
  1 / (1 + libm.expf (-x))

/-- `act_sigmoid_grad` -/
def actSigmoidGrad (z : F) : F :=
  let s := actSigmoid libm z
  s * (1 - s)

/-- `act_tanh` -/
def actTanh (x : F) : F :=
  libm.tanhf x

/-- `act_tanh_grad` -/
def actTanhGrad (z : F) : F :=
  let t := libm.tanhf z
  1 - t * t

/-- `act_identity` -/
def actIdentity (x : F) : F := x

/-- `act_identity_grad` -/
def actIdentityGrad (_ : F) : F := 1

/-- `act_fn` -/
def actFn : Activation → F → F
  | .relu => actRelu
  | .sigmoid => actSigmoid libm
  | .tanh => actTanh libm
  | .linear => actIdentity

/-- `act_grad_fn` -/
def actGradFn : Activation → F → F
  | .relu => actReluGrad
  | .sigmoid => actSigmoidGrad libm
  | .tanh => actTanhGrad libm
  | .linear => actIdentityGrad

end Functions

/-! ### Derivatives -/

open scoped Backprop

variable {z : ℝ}

theorem hasDerivAt_actRelu (hz : z ≠ 0) : HasDerivAt actRelu (actReluGrad z) z := by
  rcases lt_or_gt_of_ne hz with hneg | hpos
  · rw [actReluGrad, if_neg hneg.not_gt]
    apply (hasDerivAt_const z (0 : ℝ)).congr_of_eventuallyEq
    filter_upwards [eventually_lt_nhds hneg] with x hx
    exact if_neg hx.not_gt
  · rw [actReluGrad, if_pos hpos]
    apply (hasDerivAt_id z).congr_of_eventuallyEq
    filter_upwards [eventually_gt_nhds hpos] with x hx
    exact if_pos hx

theorem hasDerivAt_actSigmoid (z : ℝ) :
  HasDerivAt (actSigmoid Libm.real) (actSigmoidGrad Libm.real z) z
  := by
  have hpos : (1 + Real.exp (-z)) ≠ 0 := (add_pos one_pos (Real.exp_pos _)).ne'
  have hexp : HasDerivAt (fun x : ℝ => 1 + Real.exp (-x)) (-Real.exp (-z)) z := by
    simpa using ((hasDerivAt_neg z).exp).const_add 1
  have hderiv := hexp.inv hpos
  have heq : -(-Real.exp (-z)) / (1 + Real.exp (-z)) ^ 2 = actSigmoidGrad Libm.real z := by
    simp only [actSigmoidGrad, actSigmoid, Libm.real]
    field_simp
    ring
  rw [heq] at hderiv
  apply hderiv.congr_of_eventuallyEq
  filter_upwards with x
  exact one_div _

theorem hasDerivAt_actTanh (z : ℝ) :
  HasDerivAt (actTanh Libm.real) (actTanhGrad Libm.real z) z
  := by
  have hcosh : Real.cosh z ≠ 0 := (Real.cosh_pos z).ne'
  have hderiv := (Real.hasDerivAt_sinh z).div (Real.hasDerivAt_cosh z) hcosh
  have heq : (Real.cosh z * Real.cosh z - Real.sinh z * Real.sinh z) / Real.cosh z ^ 2
      = actTanhGrad Libm.real z := by
    simp only [actTanhGrad, Libm.real, Real.tanh_eq_sinh_div_cosh]
    field_simp
  rw [heq] at hderiv
  apply hderiv.congr_of_eventuallyEq
  filter_upwards with x
  exact Real.tanh_eq_sinh_div_cosh x

/-- A function with the suffix `_grad` is the derivative of the activation, which is not
differentiable only where a rectifier bends. -/
theorem hasDerivAt_actFn {a : Activation} (hz : a = .relu → z ≠ 0) :
  HasDerivAt (actFn Libm.real a) (actGradFn Libm.real a z) z
  := by
  cases a with
  | linear => exact hasDerivAt_id z
  | relu => exact hasDerivAt_actRelu (hz rfl)
  | sigmoid => exact hasDerivAt_actSigmoid z
  | tanh => exact hasDerivAt_actTanh z

end CTemplate

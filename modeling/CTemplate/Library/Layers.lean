import Mathlib.Data.Set.Defs
import Mathlib.Data.List.Basic

/-!
# Layers over a picture

A picture gives each point a value.  A layer covers some of the points with one value, and layers
are laid one after another, each over the ones before it.  What is seen at a point is the value of
the last layer that covers it, `paint_cases`.
-/

namespace Layers

universe u v

/-- Some of the points, all with one value. -/
structure Layer (P : Type u) (V : Type v) where
  region : Set P
  value : V

variable {P : Type u} {V : Type v}

open Classical in
/-- The picture with a layer over it. -/
noncomputable def Layer.over (layer : Layer P V) (picture : P → V) : P → V :=
  fun p => if p ∈ layer.region then layer.value else picture p

/-- The picture with the layers over it, the first one lowest. -/
noncomputable def paint (layers : List (Layer P V)) (picture : P → V) : P → V :=
  layers.foldl (fun picture layer => layer.over picture) picture

variable {layer : Layer P V} {layers : List (Layer P V)} {picture : P → V} {p : P}

theorem Layer.over_of_mem (h : p ∈ layer.region) :
  layer.over picture p = layer.value
  := if_pos h

theorem Layer.over_of_notMem (h : p ∉ layer.region) :
  layer.over picture p = picture p
  := if_neg h

@[simp]
theorem paint_nil (picture : P → V) :
  paint [] picture = picture
  := rfl

@[simp]
theorem paint_cons (layer : Layer P V) (layers : List (Layer P V)) (picture : P → V) :
  paint (layer :: layers) picture = paint layers (layer.over picture)
  := rfl

theorem paint_append (layers layers' : List (Layer P V)) (picture : P → V) :
  paint (layers ++ layers') picture = paint layers' (paint layers picture)
  := List.foldl_append

/-- Where no layer is, the picture is seen. -/
theorem paint_of_uncovered (h : ∀ layer ∈ layers, p ∉ layer.region) :
  paint layers picture p = picture p
  := by
  induction layers generalizing picture with
  | nil => rfl
  | cons layer layers ih =>
      obtain ⟨hlayer, hlayers⟩ := List.forall_mem_cons.mp h
      rw [paint_cons, ih hlayers, Layer.over_of_notMem hlayer]

/-- What is seen at a point is the last layer that covers it. -/
theorem paint_of_last {under above : List (Layer P V)}
    (hlayers : layers = under ++ layer :: above) (hlayer : p ∈ layer.region)
    (habove : ∀ layer' ∈ above, p ∉ layer'.region) :
  paint layers picture p = layer.value
  := by
  rw [hlayers, paint_append, paint_cons, paint_of_uncovered habove, Layer.over_of_mem hlayer]

/-- At each point either no layer is or a last one is. -/
theorem exists_last (layers : List (Layer P V)) (p : P) :
  (∀ layer ∈ layers, p ∉ layer.region)
    ∨ ∃ under layer above, layers = under ++ layer :: above ∧ p ∈ layer.region
      ∧ ∀ layer' ∈ above, p ∉ layer'.region
  := by
  induction layers with
  | nil =>
      left
      exact fun _ hlayer => absurd hlayer List.not_mem_nil
  | cons layer layers ih =>
      rcases ih with hnone | ⟨under, last, above, rfl, hlast, habove⟩
      · by_cases hlayer : p ∈ layer.region
        · right
          exact ⟨[], layer, layers, rfl, hlayer, hnone⟩
        · left
          exact List.forall_mem_cons.mpr ⟨hlayer, hnone⟩
      · right
        exact ⟨layer :: under, last, above, rfl, hlast, habove⟩

/-- What is seen at a point is the picture where no layer is, and else the last layer there. -/
theorem paint_cases (layers : List (Layer P V)) (picture : P → V) (p : P) :
  ((∀ layer ∈ layers, p ∉ layer.region) ∧ paint layers picture p = picture p)
    ∨ ∃ under layer above, layers = under ++ layer :: above ∧ p ∈ layer.region
      ∧ (∀ layer' ∈ above, p ∉ layer'.region) ∧ paint layers picture p = layer.value
  := by
  rcases exists_last layers p with hnone | ⟨under, layer, above, hlayers, hlayer, habove⟩
  · left
    exact ⟨hnone, paint_of_uncovered hnone⟩
  · right
    exact ⟨under, layer, above, hlayers, hlayer, habove, paint_of_last hlayers hlayer habove⟩

end Layers

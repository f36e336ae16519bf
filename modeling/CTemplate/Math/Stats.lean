import CTemplate.Core.Error
import CTemplate.Library.Loop
import CTemplate.Library.Welford

/-!
# Descriptive statistics

`stats_variance` of `math/stats.c`, in exact arithmetic: a `float` or a `double` is an element of a
field of characteristic zero, and a conversion between the two changes nothing.
-/

namespace CTemplate

open Loop

variable {F : Type} [Field F]

/-- `stats_variance`: the code returned and what `out` points to after the call, where `data` and
`out` may be null pointers, or `none` when an index is outside the data. -/
def statsVariance (data : Option (List F)) (n : ℕ) (out : Option F) :
    Option (ErrorCode × Option F) :=
  match data, out with
  | some data, some _ =>
      if n < 2 then some (.invalidArg, out)
      else
        (forRange 0 n (fun i (mean, m2) => data[i]?.map fun x =>
          let delta := x - mean
          let mean := mean + delta / (i + 1 : ℕ)
          (mean, m2 + delta * (x - mean))) ((0, 0) : F × F)).map fun (_, m2) =>
            (.ok, some (m2 / (n - 1 : ℕ)))
  | _, _ => some (.invalidArg, out)

/-- A loop that does the steps of the recurrence for a list leaves the mean of the list and its
squared deviations. -/
theorem forRange_welford
    [CharZero F] {xs : List F} {body : ℕ → F × F → Option (F × F)}
    (hbody : ∀ i (hi : i < xs.length) mean m2, body i (mean, m2)
      = some ((Welford.step i ⟨mean, m2⟩ xs[i]).mean, (Welford.step i ⟨mean, m2⟩ xs[i]).m2)) :
  forRange 0 xs.length body (0, 0) = some (Welford.mean xs, Welford.squares xs)
  := by
  have hround : ∀ i s, 0 ≤ i → i < xs.length →
      s = ((Welford.run (xs.take i)).mean, (Welford.run (xs.take i)).m2) →
      ∃ s', body i s = some s'
        ∧ s' = ((Welford.run (xs.take (i + 1))).mean, (Welford.run (xs.take (i + 1))).m2) := by
    rintro i s - hi rfl
    refine ⟨_, hbody i hi _ _, ?_⟩
    rw [← List.take_concat_get' xs i hi, Welford.run_snoc, List.length_take_of_le hi.le]
  have hstart : ((0, 0) : F × F)
      = ((Welford.run (xs.take 0)).mean, (Welford.run (xs.take 0)).m2) := rfl
  obtain ⟨s, hloop, hs⟩ := exists_forRange (Nat.zero_le _) hround hstart
  rw [hloop, hs, List.take_length, Welford.run_eq]

/-- `stats_variance` returns the sample variance of two values or more. -/
theorem statsVariance_eq
    [CharZero F] {xs : List F} (hn : 2 ≤ xs.length) (out : F) :
  statsVariance (some xs) xs.length (some out) = some (.ok, some (Welford.sampleVariance xs))
  := by
  have hlast : ((xs.length - 1 : ℕ) : F) = xs.length - 1 := Nat.cast_pred (by omega)
  rw [statsVariance, if_neg (by omega), forRange_welford]
  · rw [Option.map_some, hlast, Welford.sampleVariance]
  · intro i hi mean m2
    rw [List.getElem?_eq_getElem hi]
    rfl

end CTemplate

import CTemplate.Systems.Path.Correct

/-!
# What normalizing a path writes

`path_normalize` writes only the bytes of the path and its terminator, and a result that is not
longer than the path, unless the path is empty: then it writes `"."` and a terminator, for which
there is no room.

When it returns `ERR_OVERFLOW`, it has rewritten the front of the path already.  The texts of the
components kept after each move lie over the path, one over the other.
-/

namespace CTemplate

open Route Buffer

variable {p tail buf : List Byte} {s : PathState} {kept : Normal (List Byte)}

/-! ### The bytes written -/

/-- The call writes only inside the path and its terminator, whatever comes after them, and its
result is not longer than the path. -/
def NormalizesWithin (p : List Byte) : Prop :=
  ∀ tail, ∃ code buf, pathNormalize (p ++ 0 :: tail) = some (code, buf)
    ∧ buf.drop (p.length + 1) = tail ∧ (code = .ok → strlen buf ≤ p.length)

/-- With nothing after the terminator of the empty path, there is no room for its result. -/
theorem not_normalizesWithin_nil :
  ¬ NormalizesWithin []
  := by
  intro h
  obtain ⟨code, buf, hresult, -⟩ := h []
  have hnone : pathNormalize ([] ++ 0 :: []) = none := by decide
  rw [hnone] at hresult
  cases hresult

/-- The text of the normal form is not longer than the path. -/
theorem length_render_le
    (hnul : 0 ∉ p) (hne : p ≠ []) {n : Normal (List Byte)} (h : normalForm p = some n) :
  (render (isAbsolute p) n).length ≤ p.length
  := by
  -- without anything after the terminator the text is all there is room for
  rcases pathNormalize_cases hnul hne [] with
    ⟨m, buf, rest, -, hm, hbuf, hdrop, -⟩ | ⟨buf, -, hnone, -⟩
  · rw [h] at hm
    obtain rfl := Option.some.inj hm
    have hlength := congrArg List.length hdrop
    rw [List.length_drop, hbuf, List.length_append, List.length_cons, List.length_nil] at hlength
    omega
  · rw [h] at hnone
    cases hnone

/-- The call stays within the buffer of the path exactly when the path is not empty. -/
theorem path_normalize_within_iff (p : CString) :
  NormalizesWithin p.1 ↔ p.1 ≠ []
  := by
  obtain ⟨p, hnul⟩ := p
  constructor
  · rintro h rfl
    apply not_normalizesWithin_nil h
  · intro hne tail
    rcases pathNormalize_cases hnul hne tail with
      ⟨n, buf, rest, hresult, hnormal, hbuf, hdrop, -, -, hnames⟩ | ⟨buf, hresult, -, hdrop⟩
    · use .ok, buf, hresult, hdrop
      intro _
      rw [hbuf, strlen_buffer (nul_not_mem_render _ hnames)]
      apply length_render_le hnul hne hnormal
    · use .overflow, buf, hresult, hdrop
      intro h
      cases h

/-- The byte after the terminator of the empty path is overwritten, and the result is longer than
the path. -/
theorem path_normalize_not_within :
  ¬ NormalizesWithin [] ∧ pathNormalize [0, 255] = some (.ok, [46, 0])
  := by
  constructor
  · apply not_normalizesWithin_nil
  · decide

/-! ### The string after an overflow -/

/-- The texts of the components kept after each move of a route, up to the first move for which
there are too many. -/
def keptTexts (absolute : Bool) : Normal (List Byte) → List (Move (List Byte)) → List (List Byte)
  | _, [] => []
  | n, m :: route =>
      match n.stepWithin maxComponents absolute m with
      | none => []
      | some n' => outputText absolute (components n') :: keptTexts absolute n' route

/-- The texts that a call of `path_normalize` makes one after another in the buffer. -/
def writtenTexts (p : List Byte) : List (List Byte) :=
  keptTexts (isAbsolute p) .here (moves p)

/-- A turn lays the text of the components kept after it over the buffer. -/
theorem PathInvariant.buf_eq
    {s' : PathState} {n : Normal (List Byte)} (inv : PathInvariant p tail s' n)
    (behind : s'.buf.drop s'.out = s.buf.drop s'.out) :
  s'.buf = lay s.buf (outputText (isAbsolute p) (components n))
  := by
  rw [lay, inv.length_output, ← behind, ← inv.output, List.take_append_drop]

/-- An overflow in the loop leaves the texts of the components kept after each further move over
the buffer. -/
theorem PathInvariant.overflow
    (h : PathInvariant p tail s kept) (hnul : 0 ∉ p) {fuel : ℕ} {s' : PathState}
    (hloop : pathLoop (isAbsolute p) p.length fuel s = some (.overflow, s')) :
  s'.buf = layAll s.buf (keptTexts (isAbsolute p) kept (moves (p.drop s.i)))
    ∧ ∀ text ∈ keptTexts (isAbsolute p) kept (moves (p.drop s.i)), text.length ≤ p.length
  := by
  induction fuel generalizing s kept with
  | zero => cases hloop
  | succ fuel ih =>
      rw [pathLoop] at hloop
      split at hloop
      case isFalse => cases hloop
      case isTrue hi =>
      obtain ⟨start, c, hreads⟩ := h.reads
      have hadvance := h.advance hnul hi hreads
      generalize pathTurn (isAbsolute p) p.length s = result at hadvance hloop
      rw [hreads.moves_eq]
      cases hadvance with
      | overflow hbuf hnone =>
          obtain ⟨-, rfl⟩ := Prod.mk.inj (Option.some.inj hloop)
          cases hmove : moveOf c with
          | none => simp [keepComponent, hmove] at hnone
          | some m =>
              have hstep : kept.stepWithin maxComponents (isAbsolute p) m = none := by
                simpa [keepComponent, hmove] using hnone
              rw [Option.toList_some, List.singleton_append, keptTexts, hstep]
              exact ⟨hbuf, by simp⟩
      | @next s₁ n inv i_eq keep behind =>
          have hrest := ih inv hloop
          rw [i_eq, inv.buf_eq behind] at hrest
          cases hmove : moveOf c with
          | none =>
              obtain rfl : kept = n := by simpa [keepComponent, hmove] using keep
              rw [lay_eq_self (by rw [h.length_output, h.output])] at hrest
              exact hrest
          | some m =>
              have hstep : kept.stepWithin maxComponents (isAbsolute p) m = some n := by
                simpa [keepComponent, hmove] using keep
              rw [Option.toList_some, List.singleton_append, keptTexts, hstep, layAll_cons]
              refine ⟨hrest.1, List.forall_mem_cons.mpr ⟨?_, hrest.2⟩⟩
              rw [inv.length_output]
              apply Nat.le_trans inv.out_le inv.i_le

theorem pathNormalize_overflow
    (hnul : 0 ∉ p) (h : pathNormalize (p ++ 0 :: tail) = some (.overflow, buf)) :
  buf = layAll p (writtenTexts p) ++ 0 :: tail
  := by
  have hinit := PathInvariant.init p tail
  have hfuel : p.length - (pathInit (p ++ 0 :: tail)).i < p.length + 1 := by
    simp only [pathInit]
    omega
  rw [pathNormalize, isAbsolute_buffer, strlen_buffer hnul] at h
  rcases hinit.loop hnul hfuel with ⟨s, n, hloop, -⟩ | ⟨s, hloop, -⟩
  · simp only [hloop, Option.map_eq_some_iff, Prod.mk.injEq] at h
    obtain ⟨_, -, hcode, -⟩ := h
    cases hcode
  · simp only [hloop] at h
    obtain ⟨-, rfl⟩ := Prod.mk.inj (Option.some.inj h)
    obtain ⟨hbuf, htexts⟩ := hinit.overflow hnul hloop
    rw [hbuf]
    apply layAll_append htexts

/-- When `path_normalize` returns `ERR_OVERFLOW`, the texts of the components kept after each move
lie over the path, one over the other, and all else is as it was.  So the string is exactly as it
was when the bytes of these texts that show are those of the path. -/
theorem path_normalize_overflow
    (hnul : 0 ∉ p) (h : pathNormalize (p ++ 0 :: tail) = some (.overflow, buf)) :
  buf = layAll p (writtenTexts p) ++ 0 :: tail
    ∧ (buf = p ++ 0 :: tail
      ↔ ∀ text k, Shows (writtenTexts p) text k → text[k]? = p[k]?)
  := by
  have hbuf := pathNormalize_overflow hnul h
  use hbuf
  rw [hbuf, List.append_left_inj, layAll_eq_self_iff]

/-- A path without a normal form makes `path_normalize` return `ERR_OVERFLOW`. -/
theorem exists_overflow (hnul : 0 ∉ p) (h : normalForm p = none) (tail : List Byte) :
  ∃ buf, pathNormalize (p ++ 0 :: tail) = some (.overflow, buf)
  := by
  have hne : p ≠ [] := by
    rintro rfl
    exact absurd h (by decide)
  rcases pathNormalize_cases hnul hne tail with ⟨n, -, -, -, hsome, -⟩ | ⟨buf, hresult, -⟩
  · rw [h] at hsome
    cases hsome
  · exact ⟨buf, hresult⟩

/-- Sixty-five components: the path is normalized already and stays as it is. -/
theorem path_normalize_overflow_intact :
  ∃ buf, pathNormalize ([slash].intercalate (List.replicate 65 [97]) ++ 0 :: [])
      = some (.overflow, buf)
    ∧ buf = [slash].intercalate (List.replicate 65 [97]) ++ 0 :: []
  := by
  have htexts : ∀ text ∈ writtenTexts ([slash].intercalate (List.replicate 65 [97])),
      text <+: [slash].intercalate (List.replicate 65 [97]) := by
    decide +kernel
  obtain ⟨buf, hresult⟩ := exists_overflow (p := [slash].intercalate (List.replicate 65 [97]))
    (by decide) (by decide +kernel) []
  use buf, hresult
  rw [(path_normalize_overflow (by decide) hresult).2]
  intro text k hshows
  obtain ⟨hmem, hk⟩ := hshows.mem
  obtain ⟨rest, hrest⟩ := htexts text hmem
  rw [← hrest, List.getElem?_append_left hk]

/-- The components of the path `"./a/a/…"` are moved to the front before there are too many. -/
theorem path_normalize_overflow_changed :
  ∃ buf, pathNormalize ([dot, slash] ++ [slash].intercalate (List.replicate 65 [97]) ++ 0 :: [])
      = some (.overflow, buf)
    ∧ buf ≠ [dot, slash] ++ [slash].intercalate (List.replicate 65 [97]) ++ 0 :: []
  := by
  obtain ⟨buf, hresult⟩ := exists_overflow
    (p := [dot, slash] ++ [slash].intercalate (List.replicate 65 [97])) (by decide)
    (by decide +kernel) []
  use buf, hresult
  rw [pathNormalize_overflow (by decide) hresult]
  decide +kernel

end CTemplate

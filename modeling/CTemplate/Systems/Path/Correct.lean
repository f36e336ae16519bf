import CTemplate.Systems.Path.Turn
import Mathlib.Data.List.Induction

/-!
# The loop computes the normal form

The loop of `path_normalize` ends with the text of the normal form of the path in the output,
or with an overflow when the path has no normal form.  What follows the loop terminates the
output within the buffer of the path.
-/

namespace CTemplate

open Route

/-! ### The output as text -/

/-- Joining one more component. -/
theorem intercalate_concat {cs : List (List Byte)} (hne : cs ≠ []) (c : List Byte) :
  [slash].intercalate (cs ++ [c]) = [slash].intercalate cs ++ ([slash] ++ c)
  := by
  induction cs with
  | nil => exact absurd rfl hne
  | cons d cs ih =>
      cases cs with
      | nil => simp
      | cons e cs =>
          rw [List.cons_append, List.intercalate_cons_of_ne_nil (by simp),
            ih (List.cons_ne_nil _ _), List.intercalate_cons_of_ne_nil (List.cons_ne_nil _ _)]
          simp only [List.append_assoc]

/-- The output of an absolute path: a slash and the components joined by slashes. -/
theorem outputText_absolute {cs : List (List Byte)} (hne : cs ≠ []) :
  outputText true cs = slash :: [slash].intercalate cs
  := by
  induction cs using List.reverseRecOn with
  | nil => exact absurd rfl hne
  | append_singleton cs c ih =>
      rw [outputText_concat, appendComponent, if_pos (.inr rfl)]
      by_cases hcs : cs = []
      · subst hcs
        rw [List.nil_append, List.intercalate_singleton]
        rfl
      · rw [ih hcs, intercalate_concat hcs]
        rfl

/-- The output of a relative path: the components joined by slashes. -/
theorem outputText_relative {cs : List (List Byte)} (hcs : ∀ c ∈ cs, c ≠ []) :
  outputText false cs = [slash].intercalate cs
  := by
  induction cs using List.reverseRecOn with
  | nil => rfl
  | append_singleton cs c ih =>
      rw [outputText_concat, appendComponent, ih fun d hd => hcs d (List.mem_append_left _ hd)]
      by_cases hnil : cs = []
      · subst hnil
        rw [List.nil_append, List.intercalate_singleton]
        simp
      · rw [intercalate_concat hnil, if_pos]
        left
        obtain ⟨d, cs, rfl⟩ := List.exists_cons_of_ne_nil hnil
        have hd := hcs d (by simp)
        cases cs with
        | nil => simpa using hd
        | cons e cs =>
            rw [List.intercalate_cons_of_ne_nil (List.cons_ne_nil _ _)]
            simp [hd]

/-- A component that is not empty and contains neither a slash nor a zero byte. -/
structure IsComponent (c : List Byte) : Prop where
  ne_nil : c ≠ []
  slash_not_mem : slash ∉ c
  nul_not_mem : 0 ∉ c

theorem isComponent_of_mem
    {n : Normal (List Byte)} (hnames : ∀ c ∈ n.names, IsName c) {c : List Byte}
    (hc : c ∈ components n) :
  IsComponent c
  := by
  rcases List.mem_append.mp hc with hc | hc
  · rw [List.eq_of_mem_replicate hc]
    constructor <;> decide
  · have hname := hnames c hc
    constructor
    · exact hname.ne_nil
    · exact hname.slash_not_mem
    · exact hname.nul_not_mem

theorem nul_not_mem_outputText
    (absolute : Bool) {cs : List (List Byte)} (hcs : ∀ c ∈ cs, IsComponent c) :
  0 ∉ outputText absolute cs
  := by
  induction cs using List.reverseRecOn with
  | nil => simp [outputText]
  | append_singleton cs c ih =>
      have hc := (hcs c (by simp)).nul_not_mem
      have htext := ih fun d hd => hcs d (List.mem_append_left _ hd)
      have hsep : 0 ∉ (if outputText absolute cs ≠ [] ∨ absolute then [slash] else []) := by
        split <;> decide
      rw [outputText_concat, appendComponent]
      simp only [List.mem_append, not_or]
      use htext, hsep

/-- The output is empty only without components. -/
theorem outputText_eq_nil_iff
    (absolute : Bool) {cs : List (List Byte)} (hcs : ∀ c ∈ cs, IsComponent c) :
  outputText absolute cs = [] ↔ cs = []
  := by
  rcases List.eq_nil_or_concat cs with rfl | ⟨ds, c, rfl⟩
  · simp [outputText]
  · rw [List.concat_eq_append, outputText_concat, appendComponent]
    have hc := (hcs c (by simp)).ne_nil
    simp [hc]

/-- The text of a normal form is the output, or `"/"` or `"."` when that is empty. -/
theorem render_eq
    (absolute : Bool) {n : Normal (List Byte)} (hnames : ∀ c ∈ n.names, IsName c) :
  render absolute n
    = if outputText absolute (components n) = [] then [if absolute then slash else dot]
      else outputText absolute (components n)
  := by
  have hcs : ∀ c ∈ components n, IsComponent c := fun c => isComponent_of_mem hnames
  simp only [outputText_eq_nil_iff absolute hcs, render]
  cases absolute with
  | true =>
      by_cases hnil : components n = []
      · simp [hnil]
      · simp [hnil, outputText_absolute hnil]
  | false => simp [outputText_relative fun c hc => (hcs c hc).ne_nil]

theorem nul_not_mem_render
    (absolute : Bool) {n : Normal (List Byte)} (hnames : ∀ c ∈ n.names, IsName c) :
  0 ∉ render absolute n
  := by
  rw [render_eq absolute hnames]
  split
  · cases absolute <;> decide
  · apply nul_not_mem_outputText
    intro c
    apply isComponent_of_mem hnames

theorem render_ne_nil
    (absolute : Bool) {n : Normal (List Byte)} (hnames : ∀ c ∈ n.names, IsName c) :
  render absolute n ≠ []
  := by
  rw [render_eq absolute hnames]
  split
  · simp
  · assumption

/-! ### The whole call -/

variable {p tail : List Byte} {s : PathState} {kept : Normal (List Byte)}

/-- The bytes from an offset on after a component was read are the same before it. -/
theorem PathInvariant.drop_terminator (h : PathInvariant p tail s kept) :
  s.buf.drop (p.length + 1) = tail
  := by
  have hi := h.i_le
  rw [h.drop_eq (by omega), ← List.drop_drop, List.drop_left, List.drop_one, List.tail_cons]

/-- The loop ends with the normal form in the output, or the path has none. -/
theorem PathInvariant.loop
    (h : PathInvariant p tail s kept) (hnul : 0 ∉ p) {fuel : ℕ} (hfuel : p.length - s.i < fuel) :
  (∃ s' kept', pathLoop (isAbsolute p) p.length fuel s = some (.ok, s')
      ∧ PathInvariant p tail s' kept' ∧ normalForm p = some kept')
    ∨ ∃ s', pathLoop (isAbsolute p) p.length fuel s = some (.overflow, s')
      ∧ s'.buf.drop (p.length + 1) = tail ∧ normalForm p = none
  := by
  induction fuel generalizing s kept with
  | zero => omega
  | succ fuel ih =>
      rw [pathLoop]
      split
      · case isTrue hi =>
          have hturn := h.turn hnul hi
          generalize pathTurn (isAbsolute p) p.length s = result at hturn
          cases hturn with
          | next inv progress => apply ih inv (by omega)
          | @overflow s' hbuf hnone =>
              right
              use s', rfl
              rw [hbuf]
              use h.drop_terminator
      · case isFalse hi =>
          left
          use s, kept, rfl, h
          have hdone : p.drop s.i = [] := List.drop_eq_nil_of_le (Nat.le_of_not_lt hi)
          have hrest := h.rest
          rw [hdone, moves_nil] at hrest
          exact hrest.symm

/-- What follows the loop leaves the text of the normal form in the buffer. -/
theorem PathInvariant.finish (h : PathInvariant p tail s kept) (hne : p ≠ []) :
  ∃ buf rest, pathFinish (isAbsolute p) s = some buf
    ∧ buf = render (isAbsolute p) kept ++ 0 :: rest ∧ buf.drop (p.length + 1) = tail
  := by
  have hlength := h.length_output
  have hbound := h.length_buf
  have hout := h.out_le
  have hi := h.i_le
  have hpos := List.length_pos_of_ne_nil hne
  have hnil : outputText (isAbsolute p) (components kept) = [] ↔ s.out = 0 := by
    rw [← List.length_eq_zero_iff, hlength]
  rw [pathFinish, render_eq (isAbsolute p) h.names]
  simp only [hnil]
  split
  · generalize (if isAbsolute p then slash else dot) = d
    obtain ⟨buf₁, hwrite₁, hwrote₁⟩ := Buffer.exists_write s.buf 0 [d]
      (by simp only [List.length_singleton]; omega)
    have hbound₁ := hwrote₁.length_eq
    obtain ⟨buf₂, hwrite₂, hwrote₂⟩ := Buffer.exists_write buf₁ 1 [0]
      (by simp only [List.length_singleton]; omega)
    rw [hwrite₁, Option.bind_some]
    use buf₂, buf₂.drop 2, hwrite₂
    have htake₁ := hwrote₁.take_eq
    have htake₂ := hwrote₂.take_eq
    rw [List.length_singleton, Nat.zero_add, List.take_zero, List.nil_append] at htake₁
    rw [List.length_singleton] at htake₂
    constructor
    · rw [htake₁] at htake₂
      rw [← List.singleton_append (l := buf₂.drop 2), ← List.append_assoc, ← htake₂]
      exact (List.take_append_drop 2 buf₂).symm
    · rw [hwrote₂.drop_eq, hwrote₁.drop_eq, h.drop_terminator]
      · simp
      · simp only [List.length_singleton]
        omega
  · obtain ⟨buf, hwrite, hwrote⟩ := Buffer.exists_write s.buf s.out [0]
      (by simp only [List.length_singleton]; omega)
    use buf, buf.drop (s.out + 1), hwrite
    have htake := hwrote.take_eq
    rw [List.length_singleton, h.output] at htake
    constructor
    · rw [← List.singleton_append (l := buf.drop (s.out + 1)), ← List.append_assoc, ← htake]
      exact (List.take_append_drop (s.out + 1) buf).symm
    · rw [hwrote.drop_eq, h.drop_terminator]
      simp only [List.length_singleton]
      omega

/-- A path in a buffer is absolute when the path is. -/
theorem isAbsolute_buffer (p tail : List Byte) :
  isAbsolute (p ++ 0 :: tail) = isAbsolute p
  := by
  cases p with
  | nil => rfl
  | cons x p => rfl

theorem strlen_buffer (hnul : 0 ∉ p) (tail : List Byte) :
  strlen (p ++ 0 :: tail) = p.length
  := by
  rw [strlen, cstr_append hnul]

/-- The result of `path_normalize` on a path that is not empty: the text of its normal form,
or an overflow when it has none.  What comes after the terminator of the path is not
changed. -/
theorem pathNormalize_cases (hnul : 0 ∉ p) (hne : p ≠ []) (tail : List Byte) :
  (∃ n buf rest, pathNormalize (p ++ 0 :: tail) = some (.ok, buf) ∧ normalForm p = some n
      ∧ buf = render (isAbsolute p) n ++ 0 :: rest ∧ buf.drop (p.length + 1) = tail
      ∧ n.Proper (isAbsolute p) ∧ n.size ≤ maxComponents ∧ ∀ c ∈ n.names, IsName c)
    ∨ ∃ buf, pathNormalize (p ++ 0 :: tail) = some (.overflow, buf) ∧ normalForm p = none
      ∧ buf.drop (p.length + 1) = tail
  := by
  have hinit := PathInvariant.init p tail
  have hfuel : p.length - (pathInit (p ++ 0 :: tail)).i < p.length + 1 := by
    simp only [pathInit]
    omega
  rcases hinit.loop hnul hfuel with ⟨s, n, hloop, hinv, hnormal⟩ | ⟨s, hloop, hbuf, hnormal⟩
  · obtain ⟨buf, rest, hfinish, hbuf, hdrop⟩ := hinv.finish hne
    have hresult : pathNormalize (p ++ 0 :: tail) = some (.ok, buf) := by
      rw [pathNormalize, isAbsolute_buffer, strlen_buffer hnul]
      simp only [hloop, hfinish, Option.map_some]
    left
    use n, buf, rest, hresult, hnormal, hbuf, hdrop, hinv.proper, hinv.size_le, hinv.names
  · have hresult : pathNormalize (p ++ 0 :: tail) = some (.overflow, s.buf) := by
      rw [pathNormalize, isAbsolute_buffer, strlen_buffer hnul]
      simp only [hloop]
    right
    use s.buf, hresult, hnormal, hbuf

/-- The invariant holds whenever the loop is at its head. -/
theorem PathVisits.exists_invariant
    (hnul : 0 ∉ p) (h : PathVisits (p ++ 0 :: tail) s) :
  ∃ kept, PathInvariant p tail s kept
  := by
  induction h with
  | start => exact ⟨_, PathInvariant.init p tail⟩
  | turn before more turn ih =>
      obtain ⟨kept, hinv⟩ := ih
      rw [isAbsolute_buffer, strlen_buffer hnul] at turn
      rw [strlen_buffer hnul] at more
      have houtcome := hinv.turn hnul more
      rw [turn] at houtcome
      cases houtcome with
      | next inv progress => exact ⟨_, inv⟩

/-- The state at the head of the loop has left alone what it has not read: the bytes from the
read cursor on are those of the path, and those of the component read next still are when a
separator was written before it. -/
structure LeavesUnread (path : List Byte) (s : PathState) : Prop where
  unread : s.buf.drop s.i = path.drop s.i
  component : ∀ start i buf out, pathComponent (strlen path) s = (start, i) → start < i →
    pathSeparator (isAbsolute path) s = some (buf, out) →
    buf.drop start = path.drop start

theorem PathInvariant.leavesUnread (h : PathInvariant p tail s kept) (hnul : 0 ∉ p) :
  LeavesUnread (p ++ 0 :: tail) s
  := by
  constructor
  · exact h.unread
  · intro start i buf out hcomponent hlt hsep
    obtain ⟨start', c, hreads⟩ := h.reads
    rw [strlen_buffer hnul, hreads.component] at hcomponent
    obtain ⟨rfl, rfl⟩ := Prod.mk.inj hcomponent
    have hne : c ≠ [] := by
      rintro rfl
      simp at hlt
    obtain ⟨buf', out', hsep', -, -, hle, -, hdrop⟩ := h.separator hreads hne s rfl rfl
    rw [isAbsolute_buffer, hsep'] at hsep
    obtain ⟨rfl, rfl⟩ := Prod.mk.inj (Option.some.inj hsep)
    rw [hdrop _ hle, h.drop_eq hreads.i_le]

/-- `path_normalize` gives the text of the normal form of the path, and `ERR_OVERFLOW` exactly
when the reference has too many components at some point.  It writes neither outside the
buffer nor after the terminator, nor over what it has not read. -/
theorem path_normalize_correct {p : List Byte} (hnul : 0 ∉ p) (hne : p ≠ []) (tail : List Byte) :
  (∃ code buf, pathNormalize (p ++ 0 :: tail) = some (code, buf)
      ∧ buf.drop (p.length + 1) = tail
      ∧ match normalForm p with
        | some n => code = .ok ∧ cstr buf = render (isAbsolute p) n
        | none => code = .overflow)
    ∧ ∀ s, PathVisits (p ++ 0 :: tail) s → LeavesUnread (p ++ 0 :: tail) s
  := by
  constructor
  · rcases pathNormalize_cases hnul hne tail with
      ⟨n, buf, rest, hresult, hnormal, hbuf, hdrop, -, -, hnames⟩ | ⟨buf, hresult, hnormal, hdrop⟩
    · use .ok, buf, hresult, hdrop
      rw [hnormal]
      use rfl
      rw [hbuf]
      apply cstr_append (nul_not_mem_render _ hnames)
    · use .overflow, buf, hresult, hdrop
      rw [hnormal]
  · intro s hs
    obtain ⟨kept, hinv⟩ := hs.exists_invariant hnul
    apply hinv.leavesUnread hnul

/-- Popping the only name of a relative path leaves room for a leading `".."`. -/
theorem path_normalize_correct_pop :
  ∃ buf, pathNormalize [97, 47, 46, 46, 47, 46, 46, 47, 98, 0, 255] = some (.ok, buf)
    ∧ cstr buf = [46, 46, 47, 98] ∧ buf.drop 10 = [255]
  := by
  have hpath := path_normalize_correct (p := [97, 47, 46, 46, 47, 46, 46, 47, 98])
    (by decide) (by decide) [255]
  obtain ⟨⟨code, buf, hresult, hdrop, hmatch⟩, -⟩ := hpath
  have hnormal : normalForm [97, 47, 46, 46, 47, 46, 46, 47, 98] = some ⟨1, [[98]]⟩ := by decide
  rw [hnormal] at hmatch
  obtain ⟨rfl, hcstr⟩ := hmatch
  use buf, hresult
  rw [hcstr]
  exact ⟨by decide, hdrop⟩

end CTemplate

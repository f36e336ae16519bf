import CTemplate.Library.Scan
import CTemplate.Systems.Path.Normalize

/-!
# A turn of the loop

At the head of the loop of `path_normalize` the output holds the components of the normal
form of what was read so far, the stack of offsets says where each of them starts, and what
was not read yet is as the caller gave it, `PathInvariant`.  A turn either keeps this or
finds that the reference has too many components.
-/

namespace CTemplate

open Route Scan

/-! ### The output -/

/-- The output after one more component. -/
def appendComponent (absolute : Bool) (text c : List Byte) : List Byte :=
  text ++ ((if text ≠ [] ∨ absolute then [slash] else []) ++ c)

/-- The output that holds the components `cs`. -/
def outputText (absolute : Bool) (cs : List (List Byte)) : List Byte :=
  cs.foldl (appendComponent absolute) []

/-- The offsets at which the components of the output were appended. -/
def outputStarts (absolute : Bool) (cs : List (List Byte)) : List ℕ :=
  (List.range cs.length).map fun k => (outputText absolute (cs.take k)).length

theorem outputText_concat (absolute : Bool) (cs : List (List Byte)) (c : List Byte) :
  outputText absolute (cs ++ [c]) = appendComponent absolute (outputText absolute cs) c
  := List.foldl_concat _ _ _ _

theorem outputStarts_concat (absolute : Bool) (cs : List (List Byte)) (c : List Byte) :
  outputStarts absolute (cs ++ [c])
    = outputStarts absolute cs ++ [(outputText absolute cs).length]
  := by
  rw [outputStarts, List.length_append, List.length_singleton, List.range_succ, List.map_append,
    List.map_singleton, List.take_left]
  congr 1
  apply List.map_congr_left
  intro k hk
  rw [List.mem_range] at hk
  rw [List.take_append_of_le_length (Nat.le_of_lt hk)]

@[simp]
theorem length_outputStarts (absolute : Bool) (cs : List (List Byte)) :
  (outputStarts absolute cs).length = cs.length
  := by
  rw [outputStarts, List.length_map, List.length_range]

theorem length_components (n : Normal (List Byte)) :
  (components n).length = n.size
  := by
  rw [components, List.length_append, List.length_replicate, Normal.size]

/-! ### The invariant -/

/-- What holds at the head of the loop on the path `p` with `tail` after its terminator, when
`kept` is the normal form of what was read. -/
structure PathInvariant (p tail : List Byte) (s : PathState) (kept : Normal (List Byte)) :
    Prop where
  i_le : s.i ≤ p.length
  boundary : s.i ≠ 0 → ∀ x ∈ (p.drop s.i).head?, x = slash
  length_buf : s.buf.length = p.length + 1 + tail.length
  unread : s.buf.drop s.i = (p ++ 0 :: tail).drop s.i
  out_le : s.out ≤ s.i
  output : s.buf.take s.out = outputText (isAbsolute p) (components kept)
  starts : s.compStart = outputStarts (isAbsolute p) (components kept)
  leading : s.leading = kept.ups
  proper : kept.Proper (isAbsolute p)
  names : ∀ c ∈ kept.names, IsName c
  size_le : kept.size ≤ maxComponents
  rest : (moves (p.drop s.i)).foldlM (Normal.stepWithin maxComponents (isAbsolute p)) kept
    = normalForm p

/-- A turn reads the component `c` at the offset `start`. -/
structure PathReads (p : List Byte) (s : PathState) (start : ℕ) (c : List Byte) : Prop where
  component : pathComponent p.length s = (start, start + c.length)
  i_le : s.i ≤ start
  end_le : start + c.length ≤ p.length
  slash_not_mem : slash ∉ c
  drop_start : p.drop start = c ++ p.drop (start + c.length)
  boundary : ∀ x ∈ (p.drop (start + c.length)).head?, x = slash
  moves_eq : moves (p.drop s.i) = (moveOf c).toList ++ moves (p.drop (start + c.length))
  separated : c ≠ [] → (s.i ≠ 0 ∨ isAbsolute p = true) → s.i < start
  progress : s.i < p.length → s.i < start + c.length

variable {p tail : List Byte} {s : PathState} {kept : Normal (List Byte)}

theorem PathInvariant.init (p tail : List Byte) :
  PathInvariant p tail (pathInit (p ++ 0 :: tail)) .here
  := by
  constructor
  · apply Nat.zero_le
  · intro h
    exact absurd rfl h
  · simp only [pathInit, List.length_append, List.length_cons]
    omega
  · rfl
  · apply Nat.le_refl
  · rfl
  · rfl
  · rfl
  · apply Normal.proper_here
  · simp [Normal.here]
  · apply Nat.zero_le
  · rfl

/-- The bytes from the read cursor on are those that the caller gave. -/
theorem PathInvariant.drop_eq (h : PathInvariant p tail s kept) {j : ℕ} (hj : s.i ≤ j) :
  s.buf.drop j = (p ++ 0 :: tail).drop j
  := by
  rw [← Nat.add_sub_cancel' hj, ← List.drop_drop, h.unread, List.drop_drop]

/-- The bytes of the path that a scan from `j` on sees. -/
theorem PathInvariant.scan_eq (h : PathInvariant p tail s kept) {j : ℕ} (hj : s.i ≤ j)
    (hjp : j ≤ p.length) :
  (s.buf.take p.length).drop j = p.drop j
  := by
  rw [List.drop_take, h.drop_eq hj, List.drop_append_of_le_length hjp]
  apply List.take_left'
  rw [List.length_drop]

/-- After the start of the path, and on an absolute path, a separator is read first. -/
theorem PathInvariant.slash_of_separated
    (h : PathInvariant p tail s kept) (hsep : s.i ≠ 0 ∨ isAbsolute p = true) :
  ∀ x ∈ (p.drop s.i).head?, x = slash
  := by
  by_cases hzero : s.i = 0
  · have habs := hsep.resolve_left (not_not.mpr hzero)
    intro x hx
    rw [isAbsolute, decide_eq_true_iff] at habs
    rw [hzero, List.drop_zero, habs] at hx
    exact (Option.some.inj hx).symm
  · apply h.boundary hzero

/-- The text `r` is separators, a component and what comes after it, as the scans of a turn find
them. -/
structure ComponentCut (r seps c rest : List Byte) : Prop where
  seps_eq : r.takeWhile (· = slash) = seps
  component_eq : (c ++ rest).takeWhile (· ≠ slash) = c
  eq_append : r = seps ++ (c ++ rest)
  slash_of_mem : ∀ x ∈ seps, x = slash
  slash_not_mem : slash ∉ c
  boundary : ∀ x ∈ rest.head?, x = slash

theorem exists_componentCut (r : List Byte) :
  ∃ seps c rest, ComponentCut r seps c rest
  := by
  refine ⟨_, (r.dropWhile (· = slash)).takeWhile (· ≠ slash),
    (r.dropWhile (· = slash)).dropWhile (· ≠ slash), rfl, ?_, ?_, ?_, ?_, ?_⟩
  · rw [List.takeWhile_append_dropWhile]
  · rw [List.takeWhile_append_dropWhile, List.takeWhile_append_dropWhile]
  · intro x hx
    simpa using of_mem_takeWhile hx
  · intro hmem
    simpa using of_mem_takeWhile hmem
  · intro x hx
    simpa using stops_dropWhile _ _ x hx

/-- A text that starts with a separator is cut after one. -/
theorem ComponentCut.seps_pos
    {r seps c rest : List Byte} (h : ComponentCut r seps c rest) (hne : r ≠ [])
    (hslash : ∀ x ∈ r.head?, x = slash) :
  0 < seps.length
  := by
  obtain ⟨x, r', rfl⟩ := List.exists_cons_of_ne_nil hne
  obtain rfl := hslash x rfl
  rw [← h.seps_eq]
  simp

/-- A text that is not empty is not all left after the component. -/
theorem ComponentCut.pos
    {r seps c rest : List Byte} (h : ComponentCut r seps c rest) (hne : r ≠ []) :
  0 < seps.length + c.length
  := by
  by_contra hzero
  have hseps : seps = [] := List.eq_nil_of_length_eq_zero (by omega)
  have hc : c = [] := List.eq_nil_of_length_eq_zero (by omega)
  have hrest : r = rest := by rw [h.eq_append, hseps, hc, List.nil_append, List.nil_append]
  have hpos := h.seps_pos hne (hrest ▸ h.boundary)
  rw [hseps] at hpos
  cases hpos

/-- What a turn reads. -/
theorem PathInvariant.reads (h : PathInvariant p tail s kept) :
  ∃ start c, PathReads p s start c
  := by
  generalize hr : p.drop s.i = r
  obtain ⟨seps, c, rest, hcut⟩ := exists_componentCut r
  have hlength : r.length = p.length - s.i := by rw [← hr, List.length_drop]
  have hlengths : r.length = seps.length + (c.length + rest.length) := by
    rw [hcut.eq_append, List.length_append, List.length_append]
  have hi := h.i_le
  have hstart_le : s.i + seps.length ≤ p.length := by omega
  have hstart : p.drop (s.i + seps.length) = c ++ rest := by
    rw [← List.drop_drop, hr, hcut.eq_append, List.drop_left]
  have hend : p.drop (s.i + seps.length + c.length) = rest := by
    rw [← List.drop_drop, hstart, List.drop_left]
  use s.i + seps.length, c
  constructor
  · rw [pathComponent, scanWhile, h.scan_eq (Nat.le_refl _) hi, hr, hcut.seps_eq, scanWhile,
      h.scan_eq (Nat.le_add_right _ _) hstart_le, hstart, hcut.component_eq]
  · apply Nat.le_add_right
  · omega
  · exact hcut.slash_not_mem
  · rw [hstart, hend]
  · rw [hend]
    exact hcut.boundary
  · rw [hr, hend, hcut.eq_append, moves_slashes hcut.slash_of_mem,
      moves_append hcut.slash_not_mem hcut.boundary]
  · intro hne hsep
    have hr_ne : r ≠ [] := by
      rw [hcut.eq_append]
      simp [hne]
    have hpos := hcut.seps_pos hr_ne (hr ▸ h.slash_of_separated hsep)
    omega
  · intro hlt
    have hr_pos : 0 < r.length := by omega
    have hpos := hcut.pos (List.ne_nil_of_length_pos hr_pos)
    omega

/-! ### The ways through a turn -/

/-- The normal form after the component `c`, unless it has too many components. -/
def keepComponent (absolute : Bool) (kept : Normal (List Byte)) (c : List Byte) :
    Option (Normal (List Byte)) :=
  (moveOf c).toList.foldlM (Normal.stepWithin maxComponents absolute) kept

/-- The reference goes on as the loop does. -/
theorem PathReads.rest_eq
    (h : PathInvariant p tail s kept) {start : ℕ} {c : List Byte} (hreads : PathReads p s start c) :
  (keepComponent (isAbsolute p) kept c).bind (fun kept' =>
      (moves (p.drop (start + c.length))).foldlM
        (Normal.stepWithin maxComponents (isAbsolute p)) kept')
    = normalForm p
  := by
  rw [← h.rest, hreads.moves_eq, List.foldlM_append]
  rfl

/-- What a turn or the end of it leads to: the invariant for a larger read cursor, or an
overflow that the reference has too. -/
inductive PathOutcome (p tail : List Byte) (s : PathState) :
    Option (ErrorCode × PathState) → Prop where
  | next {s' : PathState} {n : Normal (List Byte)} (inv : PathInvariant p tail s' n)
      (progress : s.i < s'.i) : PathOutcome p tail s (some (.ok, s'))
  | overflow {s' : PathState} (hbuf : s'.buf = s.buf) (hnone : normalForm p = none) :
      PathOutcome p tail s (some (.overflow, s'))

/-- What a turn that reads the component `c` before the offset `stop` leads to.  The buffer is
written only below the write cursor. -/
inductive PathAdvance (p tail : List Byte) (s : PathState) (kept : Normal (List Byte))
    (c : List Byte) (stop : ℕ) : Option (ErrorCode × PathState) → Prop where
  | next {s' : PathState} {n : Normal (List Byte)} (inv : PathInvariant p tail s' n)
      (i_eq : s'.i = stop) (keep : keepComponent (isAbsolute p) kept c = some n)
      (behind : s'.buf.drop s'.out = s.buf.drop s'.out) :
      PathAdvance p tail s kept c stop (some (.ok, s'))
  | overflow {s' : PathState} (hbuf : s'.buf = s.buf)
      (hnone : keepComponent (isAbsolute p) kept c = none) :
      PathAdvance p tail s kept c stop (some (.overflow, s'))

theorem PathAdvance.outcome
    (h : PathInvariant p tail s kept) (hi : s.i < p.length) {start : ℕ} {c : List Byte}
    (hreads : PathReads p s start c) {result : Option (ErrorCode × PathState)}
    (hadvance : PathAdvance p tail s kept c (start + c.length) result) :
  PathOutcome p tail s result
  := by
  cases hadvance with
  | next inv i_eq keep behind =>
      apply PathOutcome.next inv
      rw [i_eq]
      apply hreads.progress hi
  | overflow hbuf hnone =>
      have hrest := hreads.rest_eq h
      rw [hnone, Option.bind_none] at hrest
      apply PathOutcome.overflow hbuf hrest.symm

/-- A component that changes nothing is skipped. -/
theorem PathInvariant.skip
    (h : PathInvariant p tail s kept) (hi : s.i < p.length) {start : ℕ} {c : List Byte}
    (hreads : PathReads p s start c)
    (hkeep : keepComponent (isAbsolute p) kept c = some kept) :
  PathAdvance p tail s kept c (start + c.length) (some (.ok, { s with i := start + c.length }))
  := by
  have hprogress := hreads.progress hi
  have hrest := hreads.rest_eq h
  rw [hkeep, Option.bind_some] at hrest
  refine .next ?_ rfl hkeep rfl
  exact
    { h with
      i_le := hreads.end_le
      boundary := fun _ => hreads.boundary
      unread := h.drop_eq (Nat.le_of_lt hprogress)
      out_le := Nat.le_trans h.out_le (Nat.le_of_lt hprogress)
      rest := hrest }

/-- The write cursor is the length of the output. -/
theorem PathInvariant.length_output (h : PathInvariant p tail s kept) :
  (outputText (isAbsolute p) (components kept)).length = s.out
  := by
  have hlength := h.length_buf
  have hi := h.i_le
  have hout := h.out_le
  rw [← h.output, List.length_take]
  omega

/-- The component that a turn reads is in the buffer. -/
theorem PathReads.drop_buf
    (h : PathInvariant p tail s kept) {start : ℕ} {c : List Byte} (hreads : PathReads p s start c) :
  ∃ w, s.buf.drop start = c ++ w
  := by
  have hend := hreads.end_le
  have hle : start ≤ p.length := by omega
  rw [h.drop_eq hreads.i_le, List.drop_append_of_le_length hle, hreads.drop_start,
    List.append_assoc]
  exact ⟨_, rfl⟩

theorem components_dropLast {n : Normal (List Byte)} (hne : n.names ≠ []) :
  components n = components ⟨n.ups, n.names.dropLast⟩ ++ [n.names.getLast hne]
  := by
  rw [components, components, List.append_assoc, List.dropLast_append_getLast hne]

/-- A `".."` after a name pops it. -/
theorem PathInvariant.pop
    (h : PathInvariant p tail s kept) (hi : s.i < p.length) {start : ℕ} {c : List Byte}
    (hreads : PathReads p s start c) (hc : moveOf c = some .up) (hne : kept.names ≠ []) :
  PathAdvance p tail s kept c (start + c.length) (some (.ok, { s with
    i := start + c.length, out := s.compStart.getLast?.getD 0,
    compStart := s.compStart.dropLast }))
  := by
  have hprogress := hreads.progress hi
  have hcomponents := components_dropLast hne
  generalize kept.names.getLast hne = name at hcomponents
  have hproper := h.proper.step .up
  rw [Normal.step, if_neg hne] at hproper
  have hsize : (⟨kept.ups, kept.names.dropLast⟩ : Normal (List Byte)).size ≤ maxComponents := by
    have := h.size_le
    simp only [Normal.size, List.length_dropLast] at *
    omega
  have hkeep : keepComponent (isAbsolute p) kept c = some ⟨kept.ups, kept.names.dropLast⟩ := by
    rw [keepComponent, hc, Option.toList_some, List.foldlM_cons, Normal.stepWithin, Normal.step,
      if_neg hne, if_pos hsize]
    rfl
  have hrest := hreads.rest_eq h
  rw [hkeep, Option.bind_some] at hrest
  have hstarts := h.starts
  have houtput := h.output
  have hlength := h.length_output
  rw [hcomponents, outputStarts_concat] at hstarts
  rw [hcomponents, outputText_concat, appendComponent] at houtput hlength
  rw [List.length_append] at hlength
  refine .next ?_ rfl hkeep rfl
  exact
    { h with
      i_le := hreads.end_le
      boundary := fun _ => hreads.boundary
      unread := h.drop_eq (Nat.le_of_lt hprogress)
      out_le := by
        have hout := h.out_le
        simp only [hstarts, List.getLast?_concat, Option.getD_some]
        omega
      output := by
        simp only [hstarts, List.getLast?_concat, Option.getD_some]
        rw [← Nat.min_eq_left (Nat.le.intro hlength), ← List.take_take, houtput, List.take_left]
      starts := by
        simp only [hstarts, List.dropLast_concat]
      proper := hproper
      names := fun c hc => h.names c ((List.dropLast_sublist _).subset hc)
      size_le := hsize
      rest := hrest }

/-- The separator before a component is written below the component. -/
theorem PathInvariant.separator
    (h : PathInvariant p tail s kept) {start : ℕ} {c : List Byte} (hreads : PathReads p s start c)
    (hne : c ≠ []) (s' : PathState) (hbuf : s'.buf = s.buf) (hout : s'.out = s.out) :
  ∃ buf out, pathSeparator (isAbsolute p) s' = some (buf, out)
    ∧ buf.length = s.buf.length ∧ s.out ≤ out ∧ out ≤ start
    ∧ buf.take out ++ c
      = appendComponent (isAbsolute p) (outputText (isAbsolute p) (components kept)) c
    ∧ ∀ j, out ≤ j → buf.drop j = s.buf.drop j
  := by
  have hlength := h.length_output
  have hle := h.out_le
  have hstart := hreads.i_le
  have hend := hreads.end_le
  have hbound := h.length_buf
  have hiff : outputText (isAbsolute p) (components kept) ≠ [] ↔ s.out > 0 := by
    rw [← List.length_pos_iff, hlength]
  simp only [pathSeparator, hbuf, hout, appendComponent, hiff]
  split
  · case isTrue hsep =>
      have hlt : s.out < start := by
        apply Nat.lt_of_le_of_lt hle
        apply hreads.separated hne
        rcases hsep with hpos | habs
        · left
          omega
        · exact .inr habs
      have hroom : s.out + [slash].length ≤ s.buf.length := by
        rw [List.length_singleton]
        omega
      obtain ⟨buf, hwrite, hwrote⟩ := Buffer.exists_write _ _ _ hroom
      use buf, s.out + 1
      rw [hwrite, Option.map_some]
      use rfl, hwrote.length_eq, Nat.le_succ _, hlt
      have htake := hwrote.take_eq
      rw [List.length_singleton, h.output] at htake
      constructor
      · rw [htake, List.append_assoc]
      · intro j hj
        apply hwrote.drop_eq
        rwa [List.length_singleton]
  · use s.buf, s.out, rfl, rfl, Nat.le_refl _, Nat.le_trans hle hstart
    rw [h.output]
    use rfl
    exact fun _ _ => rfl

/-- A component is appended to the output, unless there are too many. -/
theorem PathInvariant.append
    (h : PathInvariant p tail s kept) (hi : s.i < p.length) {start : ℕ} {c : List Byte}
    (hreads : PathReads p s start c) (hne : c ≠ []) (kept' : Normal (List Byte))
    (hcomponents : components kept' = components kept ++ [c])
    (hproper : kept'.Proper (isAbsolute p)) (hnames : ∀ d ∈ kept'.names, IsName d)
    (hkeep : keepComponent (isAbsolute p) kept c
      = if kept'.size ≤ maxComponents then some kept' else none) :
  PathAdvance p tail s kept c (start + c.length) (pathAppend (isAbsolute p) start c.length
    { s with i := start + c.length, leading := kept'.ups })
  := by
  have hprogress := hreads.progress hi
  have hrest := hreads.rest_eq h
  have hsize : kept'.size = kept.size + 1 := by
    rw [← length_components, hcomponents, List.length_append, length_components,
      List.length_singleton]
  rw [pathAppend]
  dsimp only
  rw [h.starts, length_outputStarts, length_components]
  split
  · case isTrue hfull =>
      rw [if_neg (by omega)] at hkeep
      exact .overflow rfl hkeep
  case isFalse hroom =>
  have hsize_le : kept'.size ≤ maxComponents := by omega
  rw [if_pos hsize_le] at hkeep
  rw [hkeep, Option.bind_some] at hrest
  obtain ⟨buf, out, hsep, hbuf, hout, hle, htake, hdrop⟩ := h.separator hreads hne
    { s with
      i := start + c.length, leading := kept'.ups,
      compStart := outputStarts (isAbsolute p) (components kept) } rfl rfl
  have hend := hreads.end_le
  have hbound := h.length_buf
  obtain ⟨w, hw⟩ := hreads.drop_buf h
  have hsrc : (buf.drop start).take c.length = c := by
    rw [hdrop start hle, hw, List.take_left]
  obtain ⟨buf', hcopy, hwrote⟩ := Buffer.exists_copy buf out start c.length (by omega) (by omega)
  rw [hsrc] at hwrote
  simp only [hsep, hcopy]
  refine .next ?_ rfl hkeep ?_
  case refine_2 =>
    dsimp only
    rw [hwrote.drop_eq (Nat.le_refl _), hdrop _ (Nat.le_add_right _ _)]
  exact
    { i_le := hreads.end_le
      boundary := fun _ => hreads.boundary
      length_buf := by
        dsimp only
        rw [hwrote.length_eq, hbuf, hbound]
      unread := by
        dsimp only
        rw [hwrote.drop_eq (by omega), ← h.drop_eq (Nat.le_of_lt hprogress),
          hdrop _ (by omega)]
      out_le := by
        dsimp only
        omega
      output := by
        dsimp only
        rw [hwrote.take_eq, htake, hcomponents, outputText_concat]
      starts := by
        dsimp only
        rw [hcomponents, outputStarts_concat, h.length_output]
      leading := rfl
      proper := hproper
      names := hnames
      size_le := hsize_le
      rest := hrest }

/-- The test for a component `"."`. -/
theorem single_dot_iff {buf c w : List Byte} {start : ℕ} (hw : buf.drop start = c ++ w) :
  c.length = 1 ∧ buf[start]? = some dot ↔ c = [dot]
  := by
  have hget : buf[start]? = (c ++ w)[0]? := by
    rw [← hw, List.getElem?_drop, Nat.add_zero]
  rw [hget]
  rcases c with _ | ⟨x, _ | ⟨y, c⟩⟩ <;> simp

/-- The test for a component `".."`. -/
theorem double_dot_iff {buf c w : List Byte} {start : ℕ} (hw : buf.drop start = c ++ w) :
  c.length = 2 ∧ buf[start]? = some dot ∧ buf[start + 1]? = some dot ↔ c = [dot, dot]
  := by
  have hget : ∀ j, buf[start + j]? = (c ++ w)[j]? := by
    intro j
    rw [← hw, List.getElem?_drop]
  have hget₀ := hget 0
  rw [Nat.add_zero] at hget₀
  rw [hget₀, hget]
  rcases c with _ | ⟨x, _ | ⟨y, _ | ⟨z, c⟩⟩⟩ <;> simp

theorem moveOf_dotdot : moveOf [dot, dot] = some .up := rfl

/-- More components are kept than cannot be popped when the last one is a name. -/
theorem PathInvariant.can_pop_iff (h : PathInvariant p tail s kept) :
  s.compStart.length > s.leading ↔ kept.names ≠ []
  := by
  rw [h.starts, length_outputStarts, length_components, h.leading, Normal.size,
    ← List.length_pos_iff]
  omega

/-- A `".."` that cannot be popped is dropped at the root. -/
theorem keepComponent_root
    (h : PathInvariant p tail s kept) (habs : isAbsolute p = true) (hnames : kept.names = []) :
  keepComponent (isAbsolute p) kept [dot, dot] = some kept
  := by
  have hstep : kept.step (isAbsolute p) .up = kept := by
    rw [Normal.step, if_pos hnames, if_pos habs]
  rw [keepComponent, moveOf_dotdot, Option.toList_some, List.foldlM_cons, Normal.stepWithin,
    hstep, if_pos h.size_le]
  rfl

/-- A `".."` that cannot be popped is kept in a relative path. -/
theorem PathInvariant.lead
    (h : PathInvariant p tail s kept) (hi : s.i < p.length) {start : ℕ}
    (hreads : PathReads p s start [dot, dot]) (habs : isAbsolute p = false)
    (hnames : kept.names = []) :
  PathAdvance p tail s kept [dot, dot] (start + 2) (pathAppend (isAbsolute p) start 2
    { s with i := start + 2, leading := s.leading + 1 })
  := by
  have hstep : kept.step (isAbsolute p) .up = ⟨kept.ups + 1, []⟩ := by
    rw [Normal.step, if_pos hnames, habs]
    rfl
  rw [h.leading]
  apply h.append hi hreads (by simp) ⟨kept.ups + 1, []⟩
  · rw [components, components, hnames, List.append_nil, List.append_nil, List.replicate_succ']
  · rw [← hstep]
    apply h.proper.step
  · simp
  · rw [keepComponent, moveOf_dotdot, Option.toList_some, List.foldlM_cons, Normal.stepWithin,
      hstep]
    split <;> rfl

/-- A name is appended. -/
theorem PathInvariant.down
    (h : PathInvariant p tail s kept) (hi : s.i < p.length) {start : ℕ} {c : List Byte}
    (hreads : PathReads p s start c) (hc : IsName c) :
  PathAdvance p tail s kept c (start + c.length) (pathAppend (isAbsolute p) start c.length
    { s with i := start + c.length })
  := by
  have hmove : moveOf c = some (.down c) := by
    rw [moveOf, if_neg (not_or.mpr ⟨hc.ne_nil, hc.ne_dot⟩), if_neg hc.ne_dotdot]
  have happend := h.append hi hreads hc.ne_nil (kept.step (isAbsolute p) (.down c))
  rw [Normal.step, ← h.leading] at happend
  apply happend
  · rw [h.leading, components, components, List.append_assoc]
  · rw [h.leading]
    apply h.proper.step (.down c)
  · intro d hd
    rcases List.mem_append.mp hd with hd | hd
    · apply h.names d hd
    · obtain rfl := List.mem_singleton.mp hd
      exact hc
  · rw [keepComponent, hmove, Option.toList_some, List.foldlM_cons, Normal.stepWithin,
      Normal.step, h.leading]
    split <;> rfl

/-- A component that is neither empty nor made of one or two dots is a name. -/
theorem PathReads.isName
    (hnul : 0 ∉ p) {start : ℕ} {c : List Byte} (hreads : PathReads p s start c) (hne : c ≠ [])
    (hdot : c ≠ [dot]) (hdotdot : c ≠ [dot, dot]) :
  IsName c
  := by
  constructor
  · exact hne
  · exact hdot
  · exact hdotdot
  · exact hreads.slash_not_mem
  · intro hmem
    apply hnul
    apply List.mem_of_mem_drop (i := start)
    rw [hreads.drop_start]
    apply List.mem_append_left _ hmem

/-- A turn appends the component that it reads, pops another one for it or skips it. -/
theorem PathInvariant.advance
    (h : PathInvariant p tail s kept) (hnul : 0 ∉ p) (hi : s.i < p.length) {start : ℕ}
    {c : List Byte} (hreads : PathReads p s start c) :
  PathAdvance p tail s kept c (start + c.length) (pathTurn (isAbsolute p) p.length s)
  := by
  obtain ⟨w, hw⟩ := hreads.drop_buf h
  simp only [pathTurn, hreads.component, Nat.add_sub_cancel_left, single_dot_iff hw,
    double_dot_iff hw, List.length_eq_zero_iff]
  split
  · case isTrue hskip =>
      apply h.skip hi hreads
      rw [keepComponent, moveOf, if_pos hskip]
      rfl
  case isFalse hkeep =>
  rw [not_or] at hkeep
  split
  · case isTrue hdotdot =>
      subst hdotdot
      split
      · case isTrue hpop =>
          apply h.pop hi hreads moveOf_dotdot (h.can_pop_iff.mp hpop)
      case isFalse hpop =>
      rw [h.can_pop_iff, not_not] at hpop
      split
      · case isTrue habs =>
          apply h.skip hi hreads (keepComponent_root h habs hpop)
      · case isFalse habs =>
          apply h.lead hi hreads (by simpa using habs) hpop
  · case isFalse hdotdot =>
      apply h.down hi hreads
      apply hreads.isName hnul hkeep.1 hkeep.2 hdotdot

/-- A turn keeps the invariant and advances the read cursor, or finds that the reference has
too many components. -/
theorem PathInvariant.turn
    (h : PathInvariant p tail s kept) (hnul : 0 ∉ p) (hi : s.i < p.length) :
  PathOutcome p tail s (pathTurn (isAbsolute p) p.length s)
  := by
  obtain ⟨start, c, hreads⟩ := h.reads
  apply (h.advance hnul hi hreads).outcome h hi hreads

end CTemplate

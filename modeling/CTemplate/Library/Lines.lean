import Mathlib.Data.List.Basic

/-!
# Reading a text by lines

A line of a text ends with its first separator or with the text.  A reader with a buffer of
`n` elements takes at each read the elements up to the first separator, but no more than `n`.
It cuts each line into blocks of `n` elements, and never reads across the end of a line.
-/

namespace Lines

universe u

variable {α : Type u}

/-- The blocks of `n` elements of a text, the last of which may be shorter. -/
def blocks (n : ℕ) (s : List α) : List (List α) :=
  if 0 < n ∧ s ≠ [] then s.take n :: blocks n (s.drop n) else []
termination_by s.length
decreasing_by
  obtain ⟨_, hs⟩ : 0 < n ∧ s ≠ [] := by assumption
  have hpos := List.length_pos_of_ne_nil hs
  rw [List.length_drop]
  omega

theorem blocks_nil (n : ℕ) :
  blocks n ([] : List α) = []
  := by
  rw [blocks, if_neg (by simp)]

theorem blocks_of_ne_nil {n : ℕ} (hn : 0 < n) {s : List α} (hs : s ≠ []) :
  blocks n s = s.take n :: blocks n (s.drop n)
  := by
  rw [blocks, if_pos ⟨hn, hs⟩]

/-- A short text is one block. -/
theorem blocks_of_length_le {n : ℕ} {s : List α} (hs : s ≠ []) (hn : s.length ≤ n) :
  blocks n s = [s]
  := by
  have hpos := List.length_pos_of_ne_nil hs
  rw [blocks_of_ne_nil (by omega) hs, List.take_of_length_le hn, List.drop_of_length_le hn,
    blocks_nil]

/-- The blocks make up the text. -/
theorem flatten_blocks {n : ℕ} (hn : 0 < n) (s : List α) :
  (blocks n s).flatten = s
  := by
  by_cases hs : s = []
  · rw [hs, blocks_nil, List.flatten_nil]
  · have hpos := List.length_pos_of_ne_nil hs
    rw [blocks_of_ne_nil hn hs, List.flatten_cons, flatten_blocks hn (s.drop n),
      List.take_append_drop]
termination_by s.length
decreasing_by
  rw [List.length_drop]
  omega

variable [DecidableEq α] {sep : α}

/-- The lines of a text, each with the separator at its end. -/
def lines (sep : α) : List α → List (List α)
  | [] => []
  | x :: s =>
      if x = sep then [x] :: lines sep s
      else
        match lines sep s with
        | [] => [[x]]
        | l :: ls => (x :: l) :: ls

/-- The elements that a read with room for `n` of them takes, and the text after them. -/
def read (sep : α) : ℕ → List α → List α × List α
  | 0, s => ([], s)
  | _ + 1, [] => ([], [])
  | n + 1, x :: s =>
      if x = sep then ([x], s) else (x :: (read sep n s).1, (read sep n s).2)

/-- What repeated reads take, until the text ends or `fuel` of them were made. -/
def readUpTo (sep : α) (n : ℕ) : ℕ → List α → List (List α)
  | 0, _ => []
  | fuel + 1, s =>
      if s = [] then [] else (read sep n s).1 :: readUpTo sep n fuel (read sep n s).2

/-- What repeated reads take, until the text ends. -/
def readAll (sep : α) (n : ℕ) (s : List α) : List (List α) :=
  readUpTo sep n s.length s

/-! ### Lines -/

/-- A text is empty, or its only line, or a line with its separator and the text after
it. -/
theorem text_induction
    (sep : α) {P : List α → Prop} (nil : P [])
    (last : ∀ body, sep ∉ body → body ≠ [] → P body)
    (line : ∀ body s, sep ∉ body → P s → P (body ++ sep :: s)) (s : List α) :
  P s
  := by
  by_cases hsep : sep ∈ s
  · obtain ⟨body, t, rfl, hbody⟩ := List.eq_append_cons_of_mem hsep
    apply line body t hbody (text_induction sep nil last line t)
  · by_cases hs : s = []
    · rw [hs]
      exact nil
    · apply last s hsep hs
termination_by s.length

theorem lines_last {body : List α} (hsep : sep ∉ body) (hne : body ≠ []) :
  lines sep body = [body]
  := by
  induction body with
  | nil => exact absurd rfl hne
  | cons x body ih =>
      rw [List.mem_cons, not_or] at hsep
      rw [lines, if_neg (Ne.symm hsep.1)]
      cases body with
      | nil => rfl
      | cons y body => rw [ih hsep.2 (List.cons_ne_nil y body)]

theorem lines_line {body : List α} (hsep : sep ∉ body) (s : List α) :
  lines sep (body ++ sep :: s) = (body ++ [sep]) :: lines sep s
  := by
  induction body with
  | nil => rw [List.nil_append, lines, if_pos rfl, List.nil_append]
  | cons x body ih =>
      rw [List.mem_cons, not_or] at hsep
      rw [List.cons_append, lines, if_neg (Ne.symm hsep.1), ih hsep.2]
      rfl

/-- The lines make up the text. -/
theorem flatten_lines (sep : α) (s : List α) :
  (lines sep s).flatten = s
  := by
  induction s using text_induction sep with
  | nil => rfl
  | last body hsep hne => rw [lines_last hsep hne, List.flatten_singleton]
  | line body s hsep ih =>
      rw [lines_line hsep, List.flatten_cons, ih, List.append_assoc, List.singleton_append]

theorem ne_nil_of_mem_lines {s l : List α} (h : l ∈ lines sep s) :
  l ≠ []
  := by
  induction s using text_induction sep with
  | nil => cases h
  | last body hsep hne =>
      rw [lines_last hsep hne, List.mem_singleton] at h
      rwa [h]
  | line body s hsep ih =>
      rw [lines_line hsep, List.mem_cons] at h
      rcases h with rfl | h
      · simp
      · apply ih h

/-- A line that starts with a separator has nothing else. -/
theorem eq_singleton_of_mem_lines
    {s l : List α} (h : l ∈ lines sep s) (hhead : l.head? = some sep) :
  l = [sep]
  := by
  induction s using text_induction sep with
  | nil => cases h
  | last body hsep hne =>
      rw [lines_last hsep hne, List.mem_singleton] at h
      rw [h] at hhead
      exact absurd (List.mem_of_mem_head? hhead) hsep
  | line body s hsep ih =>
      rw [lines_line hsep, List.mem_cons] at h
      rcases h with rfl | h
      · cases body with
        | nil => rfl
        | cons x body =>
            obtain rfl := Option.some.inj hhead
            exact absurd List.mem_cons_self hsep
      · apply ih h

/-- The first lines of a text are the lines of the text that they make up. -/
theorem lines_flatten_take {s : List α} {pre post : List (List α)} (h : lines sep s = pre ++ post) :
  lines sep pre.flatten = pre
  := by
  induction s using text_induction sep generalizing pre with
  | nil =>
      obtain ⟨rfl, -⟩ := List.append_eq_nil_iff.mp h.symm
      rfl
  | last body hsep hne =>
      rw [lines_last hsep hne] at h
      cases pre with
      | nil => rfl
      | cons l pre =>
          obtain ⟨rfl, hpre⟩ := List.cons.inj h
          obtain ⟨rfl, -⟩ := List.append_eq_nil_iff.mp hpre.symm
          rw [List.flatten_singleton, lines_last hsep hne]
  | line body s hsep ih =>
      rw [lines_line hsep] at h
      cases pre with
      | nil => rfl
      | cons l pre =>
          obtain ⟨rfl, hpre⟩ := List.cons.inj h
          rw [List.flatten_cons, List.append_assoc, List.singleton_append, lines_line hsep,
            ih hpre]

/-! ### Reading -/

theorem read_line {n : ℕ} {body : List α} (hsep : sep ∉ body) (hn : body.length < n) (s : List α) :
  read sep n (body ++ sep :: s) = (body ++ [sep], s)
  := by
  induction body generalizing n with
  | nil =>
      obtain ⟨n, rfl⟩ := Nat.exists_eq_add_one_of_ne_zero (Nat.ne_zero_of_lt hn)
      rw [List.nil_append, read, if_pos rfl, List.nil_append]
  | cons x body ih =>
      obtain ⟨n, rfl⟩ := Nat.exists_eq_add_one_of_ne_zero (Nat.ne_zero_of_lt hn)
      rw [List.mem_cons, not_or] at hsep
      rw [List.cons_append, read, if_neg (Ne.symm hsep.1),
        ih hsep.2 (Nat.lt_of_succ_lt_succ hn)]
      rfl

theorem read_block {n : ℕ} {body : List α} (hsep : sep ∉ body) (hn : n ≤ body.length) (s : List α) :
  read sep n (body ++ s) = (body.take n, body.drop n ++ s)
  := by
  induction n generalizing body with
  | zero => rfl
  | succ n ih =>
      obtain ⟨x, body, rfl⟩ := List.exists_cons_of_length_pos (Nat.lt_of_lt_of_le n.succ_pos hn)
      rw [List.mem_cons, not_or] at hsep
      rw [List.cons_append, read, if_neg (Ne.symm hsep.1), ih hsep.2 (Nat.le_of_succ_le_succ hn)]
      rfl

theorem read_last {n : ℕ} {body : List α} (hsep : sep ∉ body) (hn : body.length ≤ n) :
  read sep n body = (body, [])
  := by
  induction body generalizing n with
  | nil => cases n <;> rfl
  | cons x body ih =>
      obtain ⟨n, rfl⟩ := Nat.exists_eq_add_one_of_ne_zero (Nat.ne_zero_of_lt hn)
      rw [List.mem_cons, not_or] at hsep
      rw [read, if_neg (Ne.symm hsep.1), ih hsep.2 (Nat.le_of_succ_le_succ hn)]

/-- A read takes a part of the text. -/
theorem length_read_lt {n : ℕ} (hn : 0 < n) {s : List α} (hs : s ≠ []) :
  (read sep n s).2.length < s.length
  := by
  induction n generalizing s with
  | zero => exact absurd hn (Nat.lt_irrefl 0)
  | succ n ih =>
      obtain ⟨x, s, rfl⟩ := List.exists_cons_of_ne_nil hs
      rw [read, List.length_cons]
      split
      · apply Nat.lt_succ_self
      · by_cases hrec : 0 < n ∧ s ≠ []
        · apply Nat.lt_succ_of_lt (ih hrec.1 hrec.2)
        · cases n with
          | zero => apply Nat.lt_succ_self
          | succ n =>
              obtain rfl : s = [] := by simpa using hrec
              apply Nat.lt_succ_self

/-- A read takes the first block of the first line. -/
theorem flatMap_blocks_lines {n : ℕ} (hn : 0 < n) {s : List α} (hs : s ≠ []) :
  (lines sep s).flatMap (blocks n)
    = (read sep n s).1 :: (lines sep (read sep n s).2).flatMap (blocks n)
  := by
  by_cases hsep : sep ∈ s
  · obtain ⟨body, t, rfl, hbody⟩ := List.eq_append_cons_of_mem hsep
    rw [lines_line hbody, List.flatMap_cons]
    rcases Nat.lt_or_ge body.length n with hlt | hge
    · rw [read_line hbody hlt, blocks_of_length_le (by simp) (by simpa using Nat.succ_le_of_lt hlt)]
      rfl
    · have hdrop : sep ∉ body.drop n := fun h => hbody (List.mem_of_mem_drop h)
      rw [read_block hbody hge, lines_line hdrop, List.flatMap_cons,
        blocks_of_ne_nil hn (by simp), List.take_append_of_le_length hge,
        List.drop_append_of_le_length hge, List.cons_append]
  · rw [lines_last hsep hs, List.flatMap_singleton]
    rcases Nat.lt_or_ge n s.length with hlt | hge
    · have hdrop : sep ∉ s.drop n := fun h => hsep (List.mem_of_mem_drop h)
      have hne : s.drop n ≠ [] := by simpa using hlt
      have hread := read_block hsep (Nat.le_of_lt hlt) []
      rw [List.append_nil, List.append_nil] at hread
      rw [hread, lines_last hdrop hne, List.flatMap_singleton, blocks_of_ne_nil hn hs]
    · rw [read_last hsep hge, blocks_of_length_le hs hge]
      rfl

/-- Repeated reads cut each line into blocks. -/
theorem readAll_eq {n : ℕ} (hn : 0 < n) (s : List α) :
  readAll sep n s = (lines sep s).flatMap (blocks n)
  := by
  have hfuel : ∀ fuel s, s.length ≤ fuel →
      readUpTo sep n fuel s = (lines sep s).flatMap (blocks n) := by
    intro fuel
    induction fuel with
    | zero =>
        intro s hs
        obtain rfl := List.eq_nil_of_length_eq_zero (Nat.le_zero.mp hs)
        rfl
    | succ fuel ih =>
        intro s hs
        rw [readUpTo]
        split
        case isTrue hnil => rw [hnil]; rfl
        case isFalse hne =>
          have hlt : (read sep n s).2.length < s.length := length_read_lt hn hne
          rw [ih _ (by omega), flatMap_blocks_lines hn hne]
  apply hfuel s.length s (Nat.le_refl _)

/-- Repeated reads take the whole text. -/
theorem flatten_readAll {n : ℕ} (hn : 0 < n) (s : List α) :
  (readAll sep n s).flatten = s
  := by
  have hblocks : ∀ l ∈ lines sep s, (List.flatten ∘ blocks n) l = id l := fun l _ =>
    flatten_blocks hn l
  rw [readAll_eq hn, List.flatMap_def, List.flatten_flatten, List.map_map,
    List.map_congr_left hblocks, List.map_id, flatten_lines]

/-- Lines for which there is room are read as they are. -/
theorem readAll_eq_lines {n : ℕ} (hn : 0 < n) {s : List α} (h : ∀ l ∈ lines sep s, l.length ≤ n) :
  readAll sep n s = lines sep s
  := by
  rw [readAll_eq hn]
  have hblocks : ∀ l ∈ lines sep s, blocks n l = [l] := fun l hl =>
    blocks_of_length_le (ne_nil_of_mem_lines hl) (h l hl)
  rw [List.flatMap_congr hblocks, List.flatMap_singleton']

end Lines

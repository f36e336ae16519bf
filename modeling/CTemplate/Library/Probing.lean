import CTemplate.Library.ListSet

/-!
# Linear probing

A table is a list of cells, each of which is free, a tombstone, or holds a key with its
value.  The home of a key says where the search for it starts; the search goes from cell
to cell around the table until it finds the key or a free cell, and gives the first
tombstone it passed, if any, for a key it did not find.

`WellFormed home cells` says that the search for a key in the table passes no free cell
before the key, and that no key is in two cells.  With a free cell in the table the search
then finds every key in it, and a vacant cell for every other key, `WellFormed.find`.
Writing into a vacant cell, replacing a value and burying a key keep the table well formed
and have the effect on its contents that they should.
-/

namespace Probing

universe u v

/-- A cell of a table. -/
inductive Cell (K : Type u) (V : Type v) where
  | free
  | tombstone
  | live (key : K) (value : V)
  deriving DecidableEq

variable {K : Type u} {V : Type v}

/-- The cell holds a key. -/
def Cell.isLive : Cell K V → Bool
  | .live _ _ => true
  | _ => false

/-- The cell is not free. -/
def Cell.isUsed : Cell K V → Bool
  | .free => false
  | _ => true

/-- The search for the key `k` from the cell `i` on through at most `steps` cells, after
the tombstone `first` was passed. -/
def search [DecidableEq K] (cells : List (Cell K V)) (k : K) :
    (steps i : ℕ) → (first : Option ℕ) → Option ℕ
  | 0, _, first => first
  | steps + 1, i, first =>
      match cells[i]? with
      | none => none
      | some .free => some (first.getD i)
      | some .tombstone => search cells k steps ((i + 1) % cells.length) (some (first.getD i))
      | some (.live k' _) =>
          if k' = k then some i else search cells k steps ((i + 1) % cells.length) first

/-- The search for the key `k` from its home on through the whole table. -/
def find [DecidableEq K] (home : K → ℕ) (cells : List (Cell K V)) (k : K) : Option ℕ :=
  search cells k cells.length (home k % cells.length) none

/-- The cell at which the search for the key `k` from the cell `i` on through at most `steps` cells
ends: the first one that is free or holds the key. -/
def stop [DecidableEq K] (cells : List (Cell K V)) (k : K) : (steps i : ℕ) → Option ℕ
  | 0, _ => none
  | steps + 1, i =>
      match cells[i]? with
      | none => none
      | some .free => some i
      | some .tombstone => stop cells k steps ((i + 1) % cells.length)
      | some (.live k' _) =>
          if k' = k then some i else stop cells k steps ((i + 1) % cells.length)

/-- Between the home of a key and the key there is no free cell, and no key is in two
cells. -/
structure WellFormed (home : K → ℕ) (cells : List (Cell K V)) : Prop where
  reachable : ∀ (i : ℕ) (k : K) (v : V), cells[i]? = some (.live k v) →
    ∃ d < cells.length, i = (home k + d) % cells.length
      ∧ ∀ j < d, cells[(home k + j) % cells.length]? ≠ some .free
  distinct : ∀ (i j : ℕ) (k : K) (v v' : V), cells[i]? = some (.live k v) →
    cells[j]? = some (.live k v') → i = j

/-- The cell `i` holds no key, and there is no free cell between `start` and it. -/
structure Vacant (cells : List (Cell K V)) (start i : ℕ) : Prop where
  not_live : cells[i]? = some .free ∨ cells[i]? = some .tombstone
  reachable : ∃ d < cells.length, i = (start + d) % cells.length
    ∧ ∀ j < d, cells[(start + j) % cells.length]? ≠ some .free

variable {home : K → ℕ} {cells : List (Cell K V)}

/-! ### Searching -/

/-- The first `d` cells from `start` on are not free and do not hold the key. -/
def Passed (cells : List (Cell K V)) (k : K) (start d : ℕ) : Prop :=
  ∀ j < d, ∃ c, cells[(start + j) % cells.length]? = some c ∧ c ≠ .free ∧ ∀ v, c ≠ .live k v

theorem Passed.succ
    {k : K} {start d : ℕ} (h : Passed cells k start d) {c : Cell K V}
    (hc : cells[(start + d) % cells.length]? = some c) (hfree : c ≠ .free)
    (hlive : ∀ v, c ≠ .live k v) :
  Passed cells k start (d + 1)
  := by
  intro j hj
  rcases Nat.lt_succ_iff_lt_or_eq.mp hj with hlt | rfl
  · apply h j hlt
  · exact ⟨c, hc, hfree, hlive⟩

/-- The passed cells are not free. -/
theorem Passed.not_free
    {k : K} {start d : ℕ} (h : Passed cells k start d) {j : ℕ} (hj : j < d) :
  cells[(start + j) % cells.length]? ≠ some .free
  := by
  obtain ⟨c, hc, hfree, -⟩ := h j hj
  rw [hc]
  intro heq
  apply hfree (Option.some.inj heq)

/-- Every cell is some number of cells after `start`. -/
theorem exists_offset (start : ℕ) {i n : ℕ} (hi : i < n) :
  ∃ d < n, (start + d) % n = i
  := by
  have hpos : 0 < n := Nat.zero_lt_of_lt hi
  have hstart := Nat.mod_lt start hpos
  use (i + (n - start % n)) % n, Nat.mod_lt _ hpos
  rw [Nat.add_mod_mod, ← Nat.mod_add_mod, Nat.add_left_comm,
    Nat.add_sub_cancel' (Nat.le_of_lt hstart), Nat.add_mod_right, Nat.mod_eq_of_lt hi]

/-- The cell after those passed is vacant when it holds no key. -/
theorem Passed.vacant
    {k : K} {start d : ℕ} (h : Passed cells k start d) (hd : d < cells.length)
    (hc : cells[(start + d) % cells.length]? = some .free
      ∨ cells[(start + d) % cells.length]? = some .tombstone) :
  Vacant cells start ((start + d) % cells.length)
  := ⟨hc, d, hd, rfl, fun _ hj => h.not_free hj⟩

/-- A search that has passed `d` cells and seen the tombstone `first` ends at the key, or
at a vacant cell when the cells up to some free cell do not hold the key. -/
theorem search_outcome [DecidableEq K]
    {k : K} {start e : ℕ} (he : e < cells.length)
    (hfree : cells[(start + e) % cells.length]? = some .free) :
  ∀ (steps d : ℕ) (first : Option ℕ), steps + d = cells.length → Passed cells k start d →
    (∀ i, first = some i → Vacant cells start i) →
    ∃ i, search cells k steps ((start + d) % cells.length) first = some i
      ∧ ((∃ v, cells[i]? = some (.live k v))
        ∨ Vacant cells start i
          ∧ ∃ d, Passed cells k start d ∧ cells[(start + d) % cells.length]? = some .free)
  := by
  intro steps
  induction steps with
  | zero =>
      intro d first hd hpassed _
      have hnot := hpassed.not_free (j := e) (by omega)
      exact absurd hfree hnot
  | succ steps ih =>
      intro d first hd hpassed hfirst
      have hlt : (start + d) % cells.length < cells.length := Nat.mod_lt _ (by omega)
      have hnext : ((start + d) % cells.length + 1) % cells.length
          = (start + (d + 1)) % cells.length := by
        rw [Nat.mod_add_mod, Nat.add_assoc]
      -- where the search ends when the cell at which it is holds no key
      have hvacant (hc : cells[(start + d) % cells.length]? = some .free
            ∨ cells[(start + d) % cells.length]? = some .tombstone) :
          Vacant cells start (first.getD ((start + d) % cells.length)) := by
        cases first with
        | some i => apply hfirst i rfl
        | none => apply hpassed.vacant (by omega) hc
      simp only [search]
      cases hcell : cells[(start + d) % cells.length]? with
      | none =>
          rw [List.getElem?_eq_none_iff] at hcell
          omega
      | some c =>
          cases c with
          | free =>
              use first.getD ((start + d) % cells.length), rfl
              right
              exact ⟨hvacant (Or.inl hcell), d, hpassed, hcell⟩
          | tombstone =>
              rw [hnext]
              apply ih (d + 1) _ (by omega) (hpassed.succ hcell (by simp) (by simp))
              rintro i hi
              obtain rfl := Option.some.inj hi
              apply hvacant (Or.inr hcell)
          | live k' v =>
              by_cases hk : k' = k
              · subst hk
                simp only [if_true]
                exact ⟨_, rfl, Or.inl ⟨v, hcell⟩⟩
              · simp only [if_neg hk]
                rw [hnext]
                have hother : ∀ v', Cell.live k' v ≠ .live k v' := by
                  rintro v' ⟨⟩
                  apply hk rfl
                apply ih (d + 1) _ (by omega) (hpassed.succ hcell (by simp) hother) hfirst

/-- A search that has passed `d` cells stops at the latest at a free cell that is still ahead. -/
theorem exists_stop [DecidableEq K]
    {k : K} {start e : ℕ} (he : e < cells.length)
    (hfree : cells[(start + e) % cells.length]? = some .free) {steps d : ℕ}
    (hd : steps + d = cells.length) (hde : d ≤ e) :
  ∃ i, stop cells k steps ((start + d) % cells.length) = some i
    ∧ (cells[i]? = some .free ∨ ∃ v, cells[i]? = some (.live k v))
  := by
  induction steps generalizing d with
  | zero => omega
  | succ steps ih =>
      have hlt : (start + d) % cells.length < cells.length := Nat.mod_lt _ (by omega)
      have hnext : ((start + d) % cells.length + 1) % cells.length
          = (start + (d + 1)) % cells.length := by
        rw [Nat.mod_add_mod, Nat.add_assoc]
      -- the free cell is further on when the cell at which the search is is not free
      have hahead {c : Cell K V} (hc : cells[(start + d) % cells.length]? = some c)
          (hne : c ≠ .free) : d + 1 ≤ e := by
        apply Nat.lt_of_le_of_ne hde
        rintro rfl
        rw [hfree] at hc
        apply hne (Option.some.inj hc).symm
      simp only [stop]
      cases hcell : cells[(start + d) % cells.length]? with
      | none =>
          rw [List.getElem?_eq_none_iff] at hcell
          omega
      | some c =>
          cases c with
          | free => exact ⟨_, rfl, Or.inl hcell⟩
          | tombstone =>
              rw [hnext]
              apply ih (by omega) (hahead hcell (by simp))
          | live k' v =>
              by_cases hk : k' = k
              · subst hk
                simp only [if_true]
                exact ⟨_, rfl, Or.inr ⟨v, hcell⟩⟩
              · simp only [if_neg hk]
                rw [hnext]
                apply ih (by omega) (hahead hcell (by simp))

/-- A key with a free cell between its home and the first cells that hold it is not in the
table. -/
theorem WellFormed.not_mem
    (h : WellFormed home cells) {k : K} {d : ℕ} (hpassed : Passed cells k (home k) d)
    (hfree : cells[(home k + d) % cells.length]? = some .free) (v : V) :
  .live k v ∉ cells
  := by
  intro hmem
  obtain ⟨i, hi⟩ := List.getElem?_of_mem hmem
  obtain ⟨d', -, rfl, hreach⟩ := h.reachable i k v hi
  rcases Nat.lt_trichotomy d' d with hlt | rfl | hlt
  · obtain ⟨c, hc, -, hlive⟩ := hpassed d' hlt
    rw [hc] at hi
    apply hlive v (Option.some.inj hi)
  · rw [hfree] at hi
    cases hi
  · apply hreach d hlt hfree

/-- The search finds every key of the table, and a vacant cell for any other key. -/
theorem WellFormed.find [DecidableEq K]
    (h : WellFormed home cells) (hfree : .free ∈ cells) (k : K) :
  ∃ i, Probing.find home cells k = some i
    ∧ ((∃ v, cells[i]? = some (.live k v))
      ∨ Vacant cells (home k) i ∧ ∀ v, .live k v ∉ cells)
  := by
  obtain ⟨f, hf⟩ := List.getElem?_of_mem hfree
  have hlt : f < cells.length := (List.getElem?_eq_some_iff.mp hf).1
  obtain ⟨e, he, rfl⟩ := exists_offset (home k) hlt
  obtain ⟨i, hi, hcase⟩ := search_outcome (k := k) he hf cells.length 0 none rfl
    (fun j hj => absurd hj (Nat.not_lt_zero j)) (by simp)
  use i, hi
  rcases hcase with hlive | ⟨hvacant, d, hpassed, hfree'⟩
  · left
    exact hlive
  · right
    exact ⟨hvacant, h.not_mem hpassed hfree'⟩

/-! ### Writing -/

/-- Overwriting a cell with one that is not free makes no cell free. -/
theorem getElem?_set_ne_free
    {i j : ℕ} {c : Cell K V} (hc : c ≠ .free) (hj : cells[j]? ≠ some .free) :
  (cells.set i c)[j]? ≠ some .free
  := by
  rw [List.getElem?_set]
  split
  · split
    · intro heq
      apply hc (Option.some.inj heq)
    · simp
  · exact hj

/-- A cell after a write is the written one, or was there before at another index. -/
theorem getElem?_set_cases
    {i j : ℕ} {c c' : Cell K V} (h : (cells.set i c)[j]? = some c') :
  (i = j ∧ c' = c) ∨ (i ≠ j ∧ cells[j]? = some c')
  := by
  rw [List.getElem?_set] at h
  split at h
  · rename_i hij
    left
    split at h
    · exact ⟨hij, (Option.some.inj h).symm⟩
    · cases h
  · rename_i hij
    right
    exact ⟨hij, h⟩

/-- A table of free cells is well formed. -/
theorem wellFormed_free (home : K → ℕ) (n : ℕ) :
  WellFormed home (List.replicate n (.free : Cell K V))
  := by
  have hnot : ∀ (i : ℕ) (k : K) (v : V),
      (List.replicate n (.free : Cell K V))[i]? ≠ some (.live k v) := by
    intro i k v h
    have hmem := List.mem_of_getElem? h
    rw [List.mem_replicate] at hmem
    cases hmem.2
  constructor
  · intro i k v h
    exact absurd h (hnot i k v)
  · intro i j k v v' h
    exact absurd h (hnot i k v)

/-- Writing a new key into a vacant cell. -/
theorem WellFormed.occupy
    (h : WellFormed home cells) {i : ℕ} {k : K} (hi : Vacant cells (home k) i)
    (hnew : ∀ v, .live k v ∉ cells) (v : V) :
  WellFormed home (cells.set i (.live k v))
  := by
  constructor
  · intro j k' v' hj
    rw [List.length_set]
    have hreach : ∃ d < cells.length, j = (home k' + d) % cells.length
        ∧ ∀ j' < d, cells[(home k' + j') % cells.length]? ≠ some .free := by
      rcases getElem?_set_cases hj with ⟨rfl, heq⟩ | ⟨-, hj⟩
      · cases heq
        exact hi.reachable
      · apply h.reachable j k' v' hj
    obtain ⟨d, hd, heq, hpassed⟩ := hreach
    exact ⟨d, hd, heq, fun j' hj' => getElem?_set_ne_free (by simp) (hpassed j' hj')⟩
  · intro j j' k' v₁ v₂ h₁ h₂
    rcases getElem?_set_cases h₁ with ⟨rfl, heq⟩ | ⟨-, h₁⟩
    · cases heq
      rcases getElem?_set_cases h₂ with ⟨rfl, -⟩ | ⟨-, h₂⟩
      · rfl
      · exact absurd (List.mem_of_getElem? h₂) (hnew v₂)
    · rcases getElem?_set_cases h₂ with ⟨rfl, heq⟩ | ⟨-, h₂⟩
      · cases heq
        exact absurd (List.mem_of_getElem? h₁) (hnew v₁)
      · apply h.distinct j j' k' v₁ v₂ h₁ h₂

/-- Writing over a key a cell that is a tombstone or holds the same key. -/
theorem WellFormed.overwrite
    (h : WellFormed home cells) {i : ℕ} {k : K} {v : V} (hi : cells[i]? = some (.live k v))
    {c : Cell K V} (hc : c = .tombstone ∨ ∃ v', c = .live k v') :
  WellFormed home (cells.set i c)
  := by
  have hne : c ≠ .free := by
    rcases hc with rfl | ⟨v', rfl⟩ <;> simp
  -- a key of the new table was in the same cell of the old one
  have hold : ∀ (j : ℕ) (k' : K) (v' : V), (cells.set i c)[j]? = some (.live k' v') →
      ∃ v'', cells[j]? = some (.live k' v'') := by
    intro j k' v' hj
    rcases getElem?_set_cases hj with ⟨rfl, heq⟩ | ⟨-, hj⟩
    · rcases hc with rfl | ⟨v'', rfl⟩
      · cases heq
      · cases heq
        exact ⟨v, hi⟩
    · exact ⟨v', hj⟩
  constructor
  · intro j k' v' hj
    rw [List.length_set]
    obtain ⟨v'', hj⟩ := hold j k' v' hj
    obtain ⟨d, hd, heq, hpassed⟩ := h.reachable j k' v'' hj
    exact ⟨d, hd, heq, fun j' hj' => getElem?_set_ne_free hne (hpassed j' hj')⟩
  · intro j j' k' v₁ v₂ h₁ h₂
    obtain ⟨v₁', h₁⟩ := hold j k' v₁ h₁
    obtain ⟨v₂', h₂⟩ := hold j' k' v₂ h₂
    apply h.distinct j j' k' v₁' v₂' h₁ h₂

/-! ### Contents -/

/-- What a table holds after a new key was written into a vacant cell. -/
theorem Vacant.mem_occupy
    {start i : ℕ} (hi : Vacant cells start i) (k k' : K) (v v' : V) :
  .live k' v' ∈ cells.set i (.live k v) ↔ (k' = k ∧ v' = v) ∨ .live k' v' ∈ cells
  := by
  have hset : .live k' v' ∈ cells.set i (.live k v) ↔
      Cell.live k' v' = .live k v ∨ .live k' v' ∈ cells := by
    rcases hi.not_live with hi | hi
    · apply ListSet.mem_set_of_ne hi (by simp)
    · apply ListSet.mem_set_of_ne hi (by simp)
  rw [hset, Cell.live.injEq]

/-- What a table holds after a key was overwritten. -/
theorem WellFormed.mem_overwrite
    (h : WellFormed home cells) {i : ℕ} {k : K} {v : V} (hi : cells[i]? = some (.live k v))
    {c : Cell K V} (hc : c = .tombstone ∨ ∃ v', c = .live k v') (k' : K) (v' : V) :
  .live k' v' ∈ cells.set i c ↔ .live k' v' = c ∨ (k' ≠ k ∧ .live k' v' ∈ cells)
  := by
  by_cases hk : k' = k
  · subst hk
    constructor
    · intro hmem
      obtain ⟨j, hj⟩ := List.getElem?_of_mem hmem
      rcases getElem?_set_cases hj with ⟨-, heq⟩ | ⟨hne, hj⟩
      · left
        exact heq
      · exact absurd (h.distinct i j k' v v' hi hj) hne
    · rintro (heq | ⟨hne, -⟩)
      · rw [heq]
        apply List.mem_set (List.getElem?_eq_some_iff.mp hi).1
      · exact absurd rfl hne
  · rw [ListSet.mem_set_of_ne hi]
    · simp [hk]
    · rintro ⟨⟩
      apply hk rfl

/-- There is a free cell when not all cells are used. -/
theorem free_mem_of_countP_lt (h : cells.countP Cell.isUsed < cells.length) :
  .free ∈ cells
  := by
  by_contra hnot
  have hall : cells.countP Cell.isUsed = cells.length := by
    rw [List.countP_eq_length]
    intro c hc
    cases c with
    | free => exact absurd hc hnot
    | tombstone => rfl
    | live => rfl
  omega

/-- Every key in the table uses a cell. -/
theorem countP_isLive_le (cells : List (Cell K V)) :
  cells.countP Cell.isLive ≤ cells.countP Cell.isUsed
  := by
  apply List.countP_mono_left
  intro c _ hc
  cases c with
  | free => cases hc
  | tombstone => rfl
  | live => rfl

end Probing

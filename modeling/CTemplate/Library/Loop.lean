import Mathlib.Data.List.Basic

/-!
# Loops that update an array

`forRange lo hi body` runs `body` for the indices from `lo` to `hi - 1` in their order.
`forNext more next body` runs it for an index and then for the `next` one, as long as `more`
holds of the index.  What the body keeps holds at the end, `exists_forRange` and
`exists_forNext`.

`run op data us` updates the array `data` by the pairs of an index and a value in the list `us`,
one after another: the element `x` at the index becomes `op x v` for the value `v`.  The element
at an index depends only on the values for that index and their order, `exists_run`, and a loop
of updates is the update by all of them, `forRange_run`.

`tiles block n` cuts the indices below `n` into intervals of length `block`, the last of which
may be shorter.
-/

namespace Loop

universe u v

section ForRange

variable {σ : Type u} {lo hi : ℕ} {body body' : ℕ → σ → Option σ} {s : σ}

/-- Run `body` for the indices from `lo` to `hi - 1`. -/
def forRange (lo hi : ℕ) (body : ℕ → σ → Option σ) (s : σ) : Option σ :=
  (List.range' lo (hi - lo)).foldlM (fun s i => body i s) s

theorem foldlM_congr
    {α : Type v} {l : List α} {f g : σ → α → Option σ} (h : ∀ a ∈ l, ∀ s, f s a = g s a)
    (s : σ) :
  l.foldlM f s = l.foldlM g s
  := by
  induction l generalizing s with
  | nil => rfl
  | cons a l ih =>
      obtain ⟨ha, hl⟩ := List.forall_mem_cons.mp h
      rw [List.foldlM_cons, List.foldlM_cons, ha]
      cases g s a with
      | none => rfl
      | some s' => apply ih hl

/-- Bodies that agree in the range make the same loop. -/
theorem forRange_congr (h : ∀ i, lo ≤ i → i < hi → ∀ s, body i s = body' i s) (s : σ) :
  forRange lo hi body s = forRange lo hi body' s
  := by
  apply foldlM_congr
  intro i hmem
  rw [List.mem_range'_1] at hmem
  apply h i hmem.1 (by omega)

/-- A loop over a range ends with what its body keeps from one index to the next. -/
theorem exists_forRange
    {I : ℕ → σ → Prop} (hle : lo ≤ hi)
    (hbody : ∀ i s, lo ≤ i → i < hi → I i s → ∃ s', body i s = some s' ∧ I (i + 1) s')
    (hs : I lo s) :
  ∃ s', forRange lo hi body s = some s' ∧ I hi s'
  := by
  rw [forRange]
  induction hlen : hi - lo generalizing lo s with
  | zero =>
      obtain rfl : lo = hi := by
        omega
      exact ⟨s, rfl, hs⟩
  | succ len ih =>
      obtain ⟨s₁, hs₁, hnext⟩ := hbody lo s (Nat.le_refl lo) (by omega) hs
      have hrest : ∀ i s, lo + 1 ≤ i → i < hi → I i s → ∃ s', body i s = some s' ∧ I (i + 1) s' :=
        fun i s hi => hbody i s (by omega)
      obtain ⟨s', hs', hend⟩ := ih (by omega) hrest hnext (by omega)
      refine ⟨s', ?_, hend⟩
      rw [List.range'_succ, List.foldlM_cons, hs₁]
      exact hs'

/-- A loop over two parts of a state of which neither depends on the other. -/
theorem forRange_pair
    {τ : Type v} (body : ℕ → σ → Option σ) (other : ℕ → τ → Option τ) (lo hi : ℕ) (s : σ) (t : τ) :
  forRange lo hi (fun i st => (body i st.1).bind fun s => (other i st.2).map fun t => (s, t)) (s, t)
    = (forRange lo hi body s).bind fun s => (forRange lo hi other t).map fun t => (s, t)
  := by
  simp only [forRange]
  induction List.range' lo (hi - lo) generalizing s t with
  | nil => rfl
  | cons i is ih =>
      simp only [List.foldlM_cons, Option.bind_eq_bind]
      cases body i s with
      | none => rfl
      | some s' =>
          cases other i t with
          | none => simp
          | some t' => simpa using ih s' t'

/-- A loop over a state that may be missing. -/
theorem forRange_option
    (body : ℕ → σ → Option σ) (other : ℕ → Option σ → Option (Option σ))
    (hnone : ∀ i, other i none = some none)
    (hsome : ∀ i s, other i (some s) = (body i s).map some) (lo hi : ℕ) (o : Option σ) :
  forRange lo hi other o = o.elim (some none) fun s => (forRange lo hi body s).map some
  := by
  simp only [forRange]
  cases o with
  | none =>
      induction List.range' lo (hi - lo) with
      | nil => rfl
      | cons i is ih =>
          rw [List.foldlM_cons, hnone]
          exact ih
  | some s =>
      rw [Option.elim_some]
      induction List.range' lo (hi - lo) generalizing s with
      | nil => rfl
      | cons i is ih =>
          rw [List.foldlM_cons, List.foldlM_cons, hsome]
          cases body i s with
          | none => rfl
          | some s' => exact ih s'

end ForRange

section ForNext

variable {σ : Type u} {more : ℕ → Bool} {next : ℕ → ℕ} {body : ℕ → σ → Option σ}

/-- Run `body` for an index while `more` holds of it, and go on with the `next` one, for at most
`rounds` rounds: the index and the state at the end. -/
def forNext (more : ℕ → Bool) (next : ℕ → ℕ) (body : ℕ → σ → Option σ) :
    ℕ → ℕ → σ → Option (ℕ × σ)
  | 0, _, _ => none
  | rounds + 1, i, s =>
      if more i then (body i s).bind fun s => forNext more next body rounds (next i) s
      else some (i, s)

/-- A loop whose indices increase up to `n` ends with what its body keeps. -/
theorem exists_forNext
    {n : ℕ} {I : ℕ → σ → Prop}
    (hlt : ∀ i s, more i = true → I i s → i < next i ∧ next i ≤ n)
    (hbody : ∀ i s, more i = true → I i s → ∃ s', body i s = some s' ∧ I (next i) s')
    {rounds i : ℕ} {s : σ} (hrounds : n - i < rounds) (hI : I i s) :
  ∃ j s', forNext more next body rounds i s = some (j, s') ∧ I j s' ∧ more j = false
  := by
  induction rounds generalizing i s with
  | zero => omega
  | succ rounds ih =>
      rw [forNext]
      split
      case isTrue hmore =>
        obtain ⟨hnext, hle⟩ := hlt i s hmore hI
        obtain ⟨s', hs', hI'⟩ := hbody i s hmore hI
        rw [hs', Option.bind_some]
        apply ih (by omega) hI'
      case isFalse hdone => exact ⟨i, s, rfl, hI, Bool.eq_false_iff.mpr hdone⟩

end ForNext

/-! ### Updates -/

section Updates

variable {α : Type u} {β : Type v} {op : α → β → α} {data : List α} {us : List (ℕ × β)}

/-- The array after the element `x` at index `n` became `op x v`. -/
def update (op : α → β → α) (data : List α) (n : ℕ) (v : β) : Option (List α) :=
  data[n]?.map fun x => data.set n (op x v)

/-- The array after updates one after another. -/
def run (op : α → β → α) (data : List α) (us : List (ℕ × β)) : Option (List α) :=
  us.foldlM (fun data u => update op data u.1 u.2) data

/-- The values for index `n`, in their order. -/
def contributions (us : List (ℕ × β)) (n : ℕ) : List β :=
  (us.filter (·.1 = n)).map (·.2)

theorem update_eq_run (n : ℕ) (v : β) :
  update op data n v = run op data [(n, v)]
  := by
  rw [run, List.foldlM_cons]
  cases update op data n v <;> rfl

/-- Updates within the array succeed, and every element is changed by the values for its
index. -/
theorem exists_run (op : α → β → α) (h : ∀ u ∈ us, u.1 < data.length) :
  ∃ data', run op data us = some data' ∧ data'.length = data.length
    ∧ ∀ n, data'[n]? = data[n]?.map ((contributions us n).foldl op)
  := by
  induction us generalizing data with
  | nil =>
      refine ⟨data, rfl, rfl, ?_⟩
      intro n
      exact Option.map_id'.symm
  | cons u us ih =>
      obtain ⟨hu, hus⟩ := List.forall_mem_cons.mp h
      have hupdate : update op data u.1 u.2 = some (data.set u.1 (op data[u.1] u.2)) := by
        rw [update, List.getElem?_eq_getElem hu, Option.map_some]
      have hset : ∀ u' ∈ us, u'.1 < (data.set u.1 (op data[u.1] u.2)).length := by
        rwa [List.length_set]
      obtain ⟨data', hrun, hlength, hget⟩ := ih hset
      refine ⟨data', ?_, hlength.trans List.length_set, ?_⟩
      · rw [run, List.foldlM_cons, hupdate]
        exact hrun
      · intro n
        rw [hget]
        by_cases hn : u.1 = n
        · obtain rfl := hn
          rw [List.getElem?_set_self hu, List.getElem?_eq_getElem hu, contributions, contributions,
            List.filter_cons_of_pos (by simp)]
          rfl
        · rw [List.getElem?_set_ne hn, contributions, contributions,
            List.filter_cons_of_neg (by simpa using hn)]

/-- Updates in a loop are the updates of all rounds. -/
theorem foldlM_run {γ : Type*} (l : List γ) (us : γ → List (ℕ × β)) (data : List α) :
  l.foldlM (fun data i => run op data (us i)) data = run op data (l.flatMap us)
  := by
  induction l generalizing data with
  | nil => rfl
  | cons i l ih =>
      rw [List.flatMap_cons, run, List.foldlM_append, List.foldlM_cons]
      apply bind_congr
      intro data'
      apply ih

theorem contributions_singleton (m n : ℕ) (v : β) :
  contributions [(m, v)] n = if m = n then [v] else []
  := by
  by_cases h : m = n
  · rw [contributions, if_pos h, List.filter_cons_of_pos (by simpa using h)]
    rfl
  · rw [contributions, if_neg h, List.filter_cons_of_neg (by simpa using h)]
    rfl

theorem forRange_run (lo hi : ℕ) (us : ℕ → List (ℕ × β)) (data : List α) :
  forRange lo hi (fun i data => run op data (us i)) data
    = run op data ((List.range' lo (hi - lo)).flatMap us)
  := foldlM_run _ us data

theorem contributions_flatMap {γ : Type*} (l : List γ) (us : γ → List (ℕ × β)) (n : ℕ) :
  contributions (l.flatMap us) n = l.flatMap fun i => contributions (us i) n
  := by
  rw [contributions, List.filter_flatMap, List.map_flatMap]
  rfl

end Updates

theorem flatMap_ite
    {γ : Type*} {δ : Type*} (p : Prop) [Decidable p] (l : List γ) (f : γ → List δ) :
  (l.flatMap fun i => if p then f i else []) = if p then l.flatMap f else []
  := by
  split
  · rfl
  · rw [List.flatMap_eq_nil_iff]
    exact fun _ _ => rfl

/-- Of the indices in a range, one is picked. -/
theorem range'_flatMap_ite {γ : Type*} (lo hi i : ℕ) (l : List γ) :
  (List.range' lo (hi - lo)).flatMap (fun i' => if i' = i then l else [])
    = if lo ≤ i ∧ i < hi then l else []
  := by
  induction h : hi - lo generalizing lo with
  | zero =>
      rw [if_neg (by omega)]
      rfl
  | succ len ih =>
      rw [List.range'_succ, List.flatMap_cons, ih (lo + 1) (by omega)]
      by_cases heq : lo = i
      · rw [if_pos heq, if_neg (by omega), if_pos (by omega), List.append_nil]
      · rw [if_neg heq, List.nil_append]
        congr 1
        apply propext
        omega

/-- The value for an index from a loop that updates every index once. -/
theorem contributions_range {β : Type v} {lo hi n : ℕ} (f : ℕ → β) (hn : lo ≤ n ∧ n < hi) :
  contributions ((List.range' lo (hi - lo)).flatMap fun i => [(i, f i)]) n = [f n]
  := by
  have hpick := range'_flatMap_ite lo hi n [f n]
  rw [if_pos hn] at hpick
  rw [contributions_flatMap, ← hpick]
  apply List.flatMap_congr
  intro i _
  rw [contributions_singleton]
  by_cases hi : i = n
  · rw [hi]
  · rw [if_neg hi, if_neg hi]

section Grid

variable {α : Type u} {β : Type v} {op : α → β → α} {n m : ℕ} {index : ℕ → ℕ → ℕ}
  {f : ℕ → ℕ → β}

/-- The updates of two nested loops. -/
def grid (n m : ℕ) (index : ℕ → ℕ → ℕ) (f : ℕ → ℕ → β) : List (ℕ × β) :=
  (List.range' 0 (n - 0)).flatMap fun r =>
    (List.range' 0 (m - 0)).flatMap fun c => [(index r c, f r c)]

theorem exists_of_mem_grid {u : ℕ × β} (h : u ∈ grid n m index f) :
  ∃ r c, r < n ∧ c < m ∧ u = (index r c, f r c)
  := by
  simp only [grid, List.mem_flatMap, List.mem_range'_1, List.mem_singleton] at h
  obtain ⟨r, hr, c, hc, hu⟩ := h
  exact ⟨r, c, by omega, by omega, hu⟩

theorem forRange_grid
    {body : ℕ → ℕ → List α → Option (List α)}
    (h : ∀ r c data, r < n → c < m → body r c data = update op data (index r c) (f r c))
    (data : List α) :
  forRange 0 n (fun r => forRange 0 m (body r)) data = run op data (grid n m index f)
  := by
  rw [grid, ← forRange_run]
  apply forRange_congr
  intro r _ hr data
  rw [← forRange_run]
  apply forRange_congr
  intro c _ hc data
  rw [h r c data hr hc, update_eq_run]

/-- The value for an index from two nested loops that update every index once. -/
theorem contributions_grid
    {i j k : ℕ} (f : ℕ → ℕ → β) (hi : i < n) (hj : j < m)
    (hindex : ∀ r c, r < n → c < m → (index r c = k ↔ r = i ∧ c = j)) :
  contributions (grid n m index f) k = [f i j]
  := by
  have hrow := range'_flatMap_ite 0 n i [f i j]
  have hcol := range'_flatMap_ite 0 m j [f i j]
  rw [if_pos ⟨Nat.zero_le i, hi⟩] at hrow
  rw [if_pos ⟨Nat.zero_le j, hj⟩] at hcol
  rw [grid, contributions_flatMap, ← hrow]
  apply List.flatMap_congr
  intro r hr
  rw [List.mem_range'_1] at hr
  have hpick : ∀ c ∈ List.range' 0 (m - 0), contributions [(index r c, f r c)] k
      = if r = i then if c = j then [f i j] else [] else [] := by
    intro c hc
    rw [List.mem_range'_1] at hc
    rw [contributions_singleton]
    by_cases hboth : r = i ∧ c = j
    · rw [if_pos ((hindex r c (by omega) (by omega)).mpr hboth), if_pos hboth.1, if_pos hboth.2,
        hboth.1, hboth.2]
    · rw [if_neg (fun h => hboth ((hindex r c (by omega) (by omega)).mp h))]
      split
      case isTrue hri => rw [if_neg (fun h => hboth ⟨hri, h⟩)]
      case isFalse => rfl
  rw [contributions_flatMap, List.flatMap_congr hpick, flatMap_ite, hcol]

/-- The values for a column from two nested loops that update the columns. -/
theorem contributions_columns {j : ℕ} (f : ℕ → ℕ → β) (hj : j < m) :
  contributions (grid n m (fun _ c => c) f) j = (List.range n).map fun r => f r j
  := by
  rw [grid, contributions_flatMap, List.map_eq_flatMap, List.range_eq_range']
  apply List.flatMap_congr
  intro r _
  apply contributions_range (f r) ⟨Nat.zero_le j, hj⟩

end Grid

/-! ### Tiles -/

section Tiles

variable {block n : ℕ}

/-- The intervals of length `block` from `lo` on that start below `n`, at most `rounds` of
them. -/
def tilesFrom (block n : ℕ) : ℕ → ℕ → List (ℕ × ℕ)
  | 0, _ => []
  | rounds + 1, lo =>
      if lo < n then (lo, min (lo + block) n) :: tilesFrom block n rounds (lo + block) else []

/-- The intervals of length `block` that make up the indices below `n`. -/
def tiles (block n : ℕ) : List (ℕ × ℕ) :=
  tilesFrom block n n 0

/-- Every tile is within the indices below `n`. -/
theorem tilesFrom_le {block n rounds lo : ℕ} {t : ℕ × ℕ} (h : t ∈ tilesFrom block n rounds lo) :
  t.2 ≤ n
  := by
  induction rounds generalizing lo with
  | zero => cases h
  | succ rounds ih =>
      rw [tilesFrom] at h
      split at h
      case isFalse => cases h
      case isTrue =>
        rcases List.mem_cons.mp h with rfl | h
        · apply Nat.min_le_right _ _
        · apply ih h

theorem tilesFrom_flatMap (hblock : 0 < block) {rounds lo : ℕ} (h : n ≤ lo + rounds) :
  ((tilesFrom block n rounds lo).flatMap fun t => List.range' t.1 (t.2 - t.1))
    = List.range' lo (n - lo)
  := by
  induction rounds generalizing lo with
  | zero =>
      rw [Nat.sub_eq_zero_of_le (by omega)]
      rfl
  | succ rounds ih =>
      rw [tilesFrom]
      split
      case isFalse hge =>
        rw [Nat.sub_eq_zero_of_le (by omega)]
        rfl
      case isTrue hlt =>
        rw [List.flatMap_cons, ih (by omega)]
        rcases Nat.le_total (lo + block) n with hle | hle
        · rw [Nat.min_eq_left hle, Nat.add_sub_cancel_left, List.range'_append_1]
          congr 1
          omega
        · rw [Nat.min_eq_right hle, Nat.sub_eq_zero_of_le hle, List.range'_zero, List.append_nil]

/-- The tiles cover the indices below `n` in their order. -/
theorem tiles_flatMap (hblock : 0 < block) :
  ((tiles block n).flatMap fun t => List.range' t.1 (t.2 - t.1)) = List.range' 0 n
  := tilesFrom_flatMap hblock (Nat.le_add_left n 0)

/-- Of the tiles, the one with an index in it is picked. -/
theorem tiles_flatMap_ite {γ : Type*} (hblock : 0 < block) (i : ℕ) (l : List γ) :
  ((tiles block n).flatMap fun t => if t.1 ≤ i ∧ i < t.2 then l else [])
    = if i < n then l else []
  := by
  simp only [← range'_flatMap_ite]
  rw [← List.flatMap_assoc, tiles_flatMap hblock]
  have hpick := range'_flatMap_ite 0 n i l
  rw [Nat.sub_zero] at hpick
  rw [hpick]
  congr 1
  apply propext
  omega

end Tiles

end Loop

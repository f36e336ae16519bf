import CTemplate.Containers.HashMap.Iteration

/-!
# The capacity of the hash map

`hashmap_put` counts tombstones in its load limit, and at the limit it always moves the entries to
a table of twice the capacity.  A run that puts and removes one key after another so makes the
table grow, although the map never holds more than one entry.  The capacity stays within 16 and
eight times the largest number of entries exactly when every call that gets a new table finds at
most four slots for each entry of that number, `capacityBounded_iff`.
-/

namespace CTemplate

open Probing

variable {hash : CString → UInt64} {m m' : HashMap} {peak : ℕ}

/-- The largest number of entries that the map has before, between and after the calls. -/
def hashmapPeak (hash : CString → UInt64) : HashMap → List HashMapCall → ℕ
  | m, [] => hashmapLen m
  | m, call :: calls =>
      match hashmapStep hash m call with
      | none => hashmapLen m
      | some (m', _) => max (hashmapLen m) (hashmapPeak hash m' calls)

/-- The number of entries after a call of `hashmap_put` that gets the table it asks for. -/
def lenAfterPut (hash : CString → UInt64) (m : HashMap) (key : CString) (strdup : Bool) : ℕ :=
  if !hashmapContains hash m (some key) && strdup then hashmapLen m + 1 else hashmapLen m

/-- A call of `hashmap_put` that reaches the load limit and gets a new table finds at most four
slots for each entry of the peak. -/
def GrowsForEntries (hash : CString → UInt64) (m : HashMap) (peak : ℕ) : HashMapCall → Prop
  | .put (some key) _ calloc strdup =>
      m.cap * 3 < (m.used + 1) * 4 → calloc.grants (m.cap * 2) HashMapSlot.size = true →
        m.cap ≤ 4 * max peak (lenAfterPut hash m key strdup)
  | _ => True

/-! ### One call -/

/-- A key is contained when the map holds it. -/
theorem HashMapInv.contains_iff (h : HashMapInv hash m) (key : CString) :
  hashmapContains hash m (some key) = true ↔ ∃ v, Holds m key v
  := by
  rw [hashmapContains]
  rcases h.findLive key with ⟨i, v, hfind, hs⟩ | ⟨hfind, hnot⟩
  · rw [hfind]
    refine iff_of_true rfl ⟨v, ?_⟩
    apply List.mem_of_getElem?
    rw [getElem?_cellsOf, hs]
    rfl
  · rw [hfind]
    apply iff_of_false Bool.false_ne_true
    rintro ⟨v, hv⟩
    apply hnot v hv

/-- The part of `hashmap_put` after growing keeps the capacity. -/
theorem hashmapStore_cap
    {key : CString} {value : Ptr} {strdup : Bool} {code : ErrorCode} (hslots : m.slots ≠ [])
    (h : hashmapStore hash m key value strdup = some (m', code)) :
  m'.cap = m.cap ∧ m'.len = lenAfterPut hash m key strdup
  := by
  rw [lenAfterPut, hashmapContains, findLive, if_neg hslots]
  cases hi : probe hash m.slots m.cap key with
  | none =>
    simp only [hashmapStore, hi] at h
    cases h
  | some i =>
    cases hs : m.slots[i]? with
    | none =>
      simp only [hashmapStore, hi, hs] at h
      cases h
    | some s =>
      simp only [hashmapStore, hi, hs] at h ⊢
      by_cases hlive : (s.key.isSome && !s.dead) = true
      · rw [if_pos hlive] at h ⊢
        cases h
        exact ⟨rfl, rfl⟩
      · rw [if_neg hlive] at h ⊢
        cases strdup with
        | false =>
          cases h
          exact ⟨rfl, rfl⟩
        | true =>
          cases h
          exact ⟨rfl, rfl⟩

theorem hashmapRemove_cap (m : HashMap) (key : Option CString) :
  (hashmapRemove hash m key).1.cap = m.cap
  := by
  unfold hashmapRemove
  split
  · rfl
  · split <;> rfl

/-- What `hashmap_put` does to the capacity and the number of entries: at the load limit it asks
for a table of twice the capacity. -/
theorem HashMapInv.put_cap
    (h : HashMapInv hash m) {key : CString} {value : Ptr} {calloc : Calloc} {strdup : Bool}
    {code : ErrorCode} (hput : hashmapPut hash m (some key) value calloc strdup = some (m', code)) :
  (m' = m ∧ m.cap * 3 < (m.used + 1) * 4 ∧ calloc.grants (m.cap * 2) HashMapSlot.size = false)
    ∨ (m'.cap = m.cap * 2 ∧ m'.len = lenAfterPut hash m key strdup
      ∧ m.cap * 3 < (m.used + 1) * 4 ∧ calloc.grants (m.cap * 2) HashMapSlot.size = true)
    ∨ (m'.cap = m.cap ∧ m'.len = lenAfterPut hash m key strdup
      ∧ ¬m.cap * 3 < (m.used + 1) * 4)
  := by
  rw [hashmapPut, if_neg h.slots_ne_nil, h.grow_eq] at hput
  by_cases hfull : m.cap * 3 < (m.used + 1) * 4
  · rw [if_pos hfull] at hput
    cases hgrants : calloc.grants (m.cap * 2) HashMapSlot.size with
    | false =>
      rw [CTemplate.rehash, hgrants] at hput
      cases hput
      exact .inl ⟨rfl, hfull, rfl⟩
    | true =>
      right
      left
      rcases h.rehash calloc h.double_pow (by omega) with
        hfail | ⟨m₁, hok, h₁, hholds, hcap, hlen, -⟩
      · rw [CTemplate.rehash, if_pos hgrants] at hfail
        split at hfail <;> simp at hfail
      · rw [hok] at hput
        obtain ⟨hcap', hlen'⟩ := hashmapStore_cap h₁.slots_ne_nil hput
        have hsame : hashmapContains hash m₁ (some key) = hashmapContains hash m (some key) := by
          rw [Bool.eq_iff_iff, h₁.contains_iff, h.contains_iff]
          simp only [hholds]
        rw [lenAfterPut, hsame, hashmapLen, hlen] at hlen'
        exact ⟨hcap'.trans hcap, hlen', hfull, rfl⟩
  · rw [if_neg hfull] at hput
    obtain ⟨hcap, hlen⟩ := hashmapStore_cap h.slots_ne_nil hput
    exact .inr (.inr ⟨hcap, hlen, hfull⟩)

/-- The capacity stays within the bound in a call exactly when the call meets the condition. -/
theorem HashMapInv.cap_step_iff
    (h : HashMapInv hash m) (hbound : m.cap ≤ max hashmapInitialCap (8 * peak))
    {call : HashMapCall} {result : Option HashMapResult}
    (hstep : hashmapStep hash m call = some (m', result)) :
  m'.cap ≤ max hashmapInitialCap (8 * max peak m'.len) ↔ GrowsForEntries hash m peak call
  := by
  have hkept : m'.cap = m.cap → m'.cap ≤ max hashmapInitialCap (8 * max peak m'.len) := by
    intro hcap
    rw [hcap]
    apply hbound.trans
    have hmono := Nat.le_max_left peak m'.len
    omega
  cases call with
  | put key value calloc strdup =>
    cases key with
    | none =>
      cases hstep
      apply iff_of_true (hkept rfl) trivial
    | some key =>
      rw [hashmapStep] at hstep
      split at hstep
      · cases hstep
      next m₁ code hput =>
      cases hstep
      have hge := h.cap_ge
      simp only [hashmapInitialCap] at hge ⊢
      rcases h.put_cap hput with ⟨rfl, hfull, hgrants⟩ | ⟨hcap, hlen, hfull, hgrants⟩
        | ⟨hcap, hlen, hfull⟩
      · apply iff_of_true (hkept rfl)
        intro _ hgrants'
        rw [hgrants] at hgrants'
        cases hgrants'
      · rw [hcap, hlen, GrowsForEntries]
        simp only [hfull, hgrants, true_imp_iff]
        omega
      · apply iff_of_true (hkept hcap)
        intro hfull'
        exact absurd hfull' hfull
  | get key =>
    cases hstep
    apply iff_of_true (hkept rfl) trivial
  | contains key =>
    cases hstep
    apply iff_of_true (hkept rfl) trivial
  | remove key =>
    cases hstep
    apply iff_of_true (hkept (hashmapRemove_cap m key)) trivial
  | len =>
    cases hstep
    apply iff_of_true (hkept rfl) trivial

/-! ### Runs -/

/-- After every part of the calls, the capacity is at most 16 or eight times the largest number of
entries so far. -/
def CapacityBounded (hash : CString → UInt64) (m : HashMap) (calls : List HashMapCall) : Prop :=
  ∀ pre m' results, pre <+: calls → hashmapRun hash m pre = some (m', results) →
    m'.cap ≤ max hashmapInitialCap (8 * hashmapPeak hash m pre)

/-- Every call meets the condition `GrowsForEntries` when it is made. -/
def AllGrowForEntries (hash : CString → UInt64) (m : HashMap) (calls : List HashMapCall) : Prop :=
  ∀ pre call m' results, pre ++ [call] <+: calls → hashmapRun hash m pre = some (m', results) →
    GrowsForEntries hash m' (hashmapPeak hash m pre) call

theorem hashmapRun_snoc
    {m'' : HashMap} {calls : List HashMapCall} {call : HashMapCall} {results : List HashMapResult}
    {result : Option HashMapResult} (hrun : hashmapRun hash m calls = some (m', results))
    (hstep : hashmapStep hash m' call = some (m'', result)) :
  hashmapRun hash m (calls ++ [call]) = some (m'', results ++ result.toList)
  := StateMachine.run_snoc hrun hstep

/-- One more call leaves the peak or raises it to the number of entries after it. -/
theorem hashmapPeak_snoc
    {m'' : HashMap} {calls : List HashMapCall} {call : HashMapCall} {results : List HashMapResult}
    {result : Option HashMapResult} (hrun : hashmapRun hash m calls = some (m', results))
    (hstep : hashmapStep hash m' call = some (m'', result)) :
  hashmapPeak hash m (calls ++ [call]) = max (hashmapPeak hash m calls) m''.len
  := by
  induction calls generalizing m results with
  | nil =>
    cases hrun
    simp only [List.nil_append, hashmapPeak, hstep, hashmapLen]
  | cons first calls ih =>
    rw [hashmapRun, StateMachine.run_cons_iff] at hrun
    obtain ⟨m₁, result₁, results₁, hfirst, hrest, -⟩ := hrun
    simp only [List.cons_append, hashmapPeak, hfirst, ih hrest, max_assoc]

/-- One more call keeps the bound when the capacity after it is within the bound. -/
theorem capacityBounded_snoc
    {m'' : HashMap} {calls : List HashMapCall} {call : HashMapCall} {results : List HashMapResult}
    {result : Option HashMapResult} (hrun : hashmapRun hash m calls = some (m', results))
    (hstep : hashmapStep hash m' call = some (m'', result)) :
  CapacityBounded hash m (calls ++ [call])
    ↔ CapacityBounded hash m calls
      ∧ m''.cap ≤ max hashmapInitialCap (8 * max (hashmapPeak hash m calls) m''.len)
  := by
  have hlast := hashmapRun_snoc hrun hstep
  have hpeak := hashmapPeak_snoc hrun hstep
  constructor
  · intro h
    constructor
    · intro pre m₁ results₁ hpre
      apply h pre m₁ results₁ (hpre.trans (List.prefix_append _ _))
    · rw [← hpeak]
      apply h _ _ _ List.prefix_rfl hlast
  · rintro ⟨hbefore, hcap⟩ pre m₁ results₁ hpre hrun₁
    rcases List.prefix_concat_iff.mp hpre with rfl | hpre
    · rw [hlast] at hrun₁
      cases hrun₁
      rwa [hpeak]
    · apply hbefore pre m₁ results₁ hpre hrun₁

/-- One more call keeps the condition when it meets it. -/
theorem allGrowForEntries_snoc
    {calls : List HashMapCall} {call : HashMapCall} {results : List HashMapResult}
    (hrun : hashmapRun hash m calls = some (m', results)) :
  AllGrowForEntries hash m (calls ++ [call])
    ↔ AllGrowForEntries hash m calls ∧ GrowsForEntries hash m' (hashmapPeak hash m calls) call
  := by
  constructor
  · intro h
    constructor
    · intro pre call' m₁ results₁ hpre
      apply h pre call' m₁ results₁ (hpre.trans (List.prefix_append _ _))
    · apply h calls call m' results List.prefix_rfl hrun
  · rintro ⟨hbefore, hcall⟩ pre call' m₁ results₁ hpre hrun₁
    rcases List.prefix_concat_iff.mp hpre with heq | hpre
    · obtain ⟨rfl, hlast⟩ := List.append_inj' heq rfl
      obtain rfl : call' = call := by simpa using hlast
      rw [hrun] at hrun₁
      cases hrun₁
      exact hcall
    · apply hbefore pre call' m₁ results₁ hpre hrun₁

/-- Before any call, the capacity is that of a map from `hashmap_init`. -/
theorem capacityBounded_nil
    (hash : CString → UInt64) {calloc : Calloc} {m : HashMap} (hinit : hashmapInit calloc = .ok m) :
  CapacityBounded hash m []
  := by
  intro pre m' results hpre hrun
  obtain rfl := List.prefix_nil.mp hpre
  cases hrun
  unfold hashmapInit at hinit
  split at hinit
  · cases hinit
    apply Nat.le_max_left
  · cases hinit

theorem allGrowForEntries_nil (hash : CString → UInt64) (m : HashMap) :
  AllGrowForEntries hash m []
  := by
  intro pre call m' results hpre
  have hlength := hpre.length_le
  simp at hlength

/-- On a map from `hashmap_init`, the capacity stays within the bound in every run whose calls meet
the condition, and in no other one. -/
theorem capacityBounded_iff
    (hash : CString → UInt64) {calloc : Calloc} {m : HashMap} (hinit : hashmapInit calloc = .ok m)
    (calls : List HashMapCall) :
  CapacityBounded hash m calls ↔ AllGrowForEntries hash m calls
  := by
  induction calls using List.reverseRecOn with
  | nil => apply iff_of_true (capacityBounded_nil hash hinit) (allGrowForEntries_nil hash m)
  | append_singleton calls call ih =>
    obtain ⟨m', results, hrun, h⟩ := (HashMapRepr.init hash hinit).runAfter calls
    obtain ⟨m'', result, hstep, -⟩ := h.step call
    rw [capacityBounded_snoc hrun hstep, allGrowForEntries_snoc hrun, ← ih]
    apply and_congr_right
    intro hbound
    apply h.inv.cap_step_iff (hbound calls m' results List.prefix_rfl hrun) hstep

/-- Thirteen keys are put, of which each but the last is removed before the next one. -/
def churnCalls : List HashMapCall :=
  ([97, 98, 99, 100, 101, 102, 103, 104, 105, 106, 107, 108].flatMap fun c =>
    [HashMapCall.put (oneLetter c) 1 (.upTo 0 (Nat.zero_le sizeMax)) true,
      HashMapCall.remove (oneLetter c)])
    ++ [HashMapCall.put (oneLetter 109) 1 (.upTo 768 (by decide)) true]

/-- With the hash function of the code, the table of a map that never holds more than one entry
grows to 32 slots. -/
theorem churnCalls_cap :
  ∃ m' results, hashmapInit (.upTo 384 (by decide)) = .ok hashmapFresh
    ∧ hashmapRun (fun key => hashFnv1aStr (some key)) hashmapFresh churnCalls = some (m', results)
    ∧ hashmapPeak (fun key => hashFnv1aStr (some key)) hashmapFresh churnCalls = 1
    ∧ m'.cap = 32
    ∧ ¬CapacityBounded (fun key => hashFnv1aStr (some key)) hashmapFresh churnCalls
  := by
  have hpeak : hashmapPeak (fun key => hashFnv1aStr (some key)) hashmapFresh churnCalls = 1 := by
    rfl
  have hvalue : (hashmapRun (fun key => hashFnv1aStr (some key)) hashmapFresh churnCalls).map
      (fun run => run.1.cap) = some 32 := by
    rfl
  obtain ⟨⟨m', results⟩, hrun, hcap⟩ := Option.map_eq_some_iff.mp hvalue
  refine ⟨m', results, rfl, hrun, hpeak, hcap, ?_⟩
  intro hbound
  have hle := hbound churnCalls m' results List.prefix_rfl hrun
  rw [hpeak, hcap] at hle
  simp [hashmapInitialCap] at hle

/-- Calls that get no new table keep the capacity within the bound. -/
theorem capacityBounded_removal :
  CapacityBounded (fun key => hashFnv1aStr (some key)) hashmapFresh removalCalls
  := by
  have hinit : hashmapInit (.upTo 384 (by decide)) = .ok hashmapFresh := rfl
  apply (capacityBounded_iff (fun key => hashFnv1aStr (some key)) hinit removalCalls).mpr
  intro pre call m' results hpre hrun
  have hmem : call ∈ removalCalls := hpre.subset (by simp)
  simp only [removalCalls, List.mem_cons, List.not_mem_nil, or_false] at hmem
  have hnone : (Calloc.upTo 0 (by decide)).grants (m'.cap * 2) HashMapSlot.size = true →
      m'.cap = 0 := by
    intro hgrants
    have hsize : m'.cap * 2 * 24 ≤ 0 := of_decide_eq_true hgrants
    omega
  rcases hmem with rfl | rfl | rfl
  · intro _ hgrants
    rw [hnone hgrants]
    apply Nat.zero_le
  · intro _ hgrants
    rw [hnone hgrants]
    apply Nat.zero_le
  · trivial

end CTemplate

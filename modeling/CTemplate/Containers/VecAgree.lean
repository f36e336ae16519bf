import CTemplate.Containers.Vec

/-!
# Vectors of the same elements

What calls on a vector return depends on its elements alone, but for two things: `vec_pop` on an
empty vector shows whether it has storage, and `vec_push` shows when it cannot double its
capacity.
-/

namespace CTemplate

/-- A call on two vectors.  The memory that each of them is granted has contents of its own. -/
inductive BothCall (w : ℕ) where
  | push (elem : Option (Elem w)) (junk junk' : ℕ → Byte)
  | pop (out : Bool)
  | clear
  | at (i : ℕ)

/-- The call on the first vector. -/
def BothCall.fst {w : ℕ} : BothCall w → VecCall w
  | .push elem junk _ => .push elem (some junk)
  | .pop out => .pop out
  | .clear => .clear
  | .at i => .at i

/-- The call on the second vector. -/
def BothCall.snd {w : ℕ} : BothCall w → VecCall w
  | .push elem _ junk' => .push elem (some junk')
  | .pop out => .pop out
  | .clear => .clear
  | .at i => .at i

/-- The list that the vector represents. -/
def Vec.items (v : Vec) : List (List Byte) :=
  Slots.array v.elemSize (v.data.getD []) v.len

/-- The vector is full, and twice its capacity, or its first capacity, is too large for a
`size_t`. -/
def Vec.Stuck (v : Vec) : Prop :=
  v.len = v.cap ∧ sizeMax < (if v.cap = 0 then vecInitialCap else v.cap * 2) * v.elemSize

/-- The call is `vec_pop` on empty vectors, of which one alone has storage, or `vec_push` on
vectors of which one alone is full and cannot grow. -/
def Reveals {w : ℕ} (v v' : Vec) : BothCall w → Prop
  | .push elem _ _ => elem ≠ none ∧ ¬ (v.Stuck ↔ v'.Stuck)
  | .pop _ => v.len = 0 ∧ ¬ (v.data = none ↔ v'.data = none)
  | .clear => False
  | .at _ => False

/-- None of the calls reveals what is different about the vectors at that time. -/
def NeverReveals {w : ℕ} (v v' : Vec) (calls : List (BothCall w)) : Prop :=
  ∀ pre call post u u' log log',
    calls = pre ++ call :: post →
    StateMachine.run vecStep v (pre.map BothCall.fst) = some (u, log) →
    StateMachine.run vecStep v' (pre.map BothCall.snd) = some (u', log') →
    ¬ Reveals u u' call

variable {w : ℕ} {v v' : Vec} {t t' : Roomy}

theorem VecRepr.items (h : VecRepr w v t) :
  v.items = t.items
  := by
  rw [Vec.items, h.elemSize_eq, h.items_eq]

/-- The list is full and cannot grow. -/
def Roomy.Stuck (w : ℕ) (t : Roomy) : Prop :=
  t.items.length = t.cap ∧ sizeMax < t.grown * w

theorem VecRepr.stuck_iff (h : VecRepr w v t) :
  v.Stuck ↔ t.Stuck w
  := by
  rw [Vec.Stuck, Roomy.Stuck, Roomy.grown, h.len_eq, h.cap_eq, h.elemSize_eq]

instance : Decidable (t.Stuck w) :=
  inferInstanceAs (Decidable (_ ∧ _))

/-- With enough memory an element is appended, unless the list is full and cannot grow. -/
theorem Roomy.push_granted (h : t.items.length ≤ t.cap) (elem : List Byte) :
  (t.push w elem true).2 = (if t.Stuck w then .overflow else .ok)
    ∧ (t.push w elem true).1.items = if t.Stuck w then t.items else t.items ++ [elem]
  := by
  simp only [push, makeRoom]
  split
  case isTrue hroom =>
    have hgrows : ¬ t.Stuck w := fun hstuck => Nat.ne_of_lt hroom hstuck.1
    rw [if_neg hgrows, if_neg hgrows]
    exact ⟨rfl, rfl⟩
  case isFalse hfull =>
  have hgrown : ¬ t.grown ≤ t.cap := by
    rw [grown, vecInitialCap]
    split <;> omega
  simp only [reserve, if_neg hgrown]
  split
  case isTrue hlarge =>
    have hstuck : t.Stuck w := ⟨by omega, hlarge⟩
    rw [if_pos hstuck, if_pos hstuck]
    exact ⟨rfl, rfl⟩
  case isFalse hfits =>
    have hgrows : ¬ t.Stuck w := fun hstuck => hfits hstuck.2
    rw [if_neg hgrows, if_neg hgrows]
    exact ⟨rfl, rfl⟩

/-- What the call `vec_push` returns with enough memory. -/
theorem Roomy.call_push_result
    (h : t.items.length ≤ t.cap) (elem : Elem w) (junk : ℕ → Byte) :
  (t.call (.push (some elem) (some junk))).2
    = .code (if t.Stuck w then .overflow else .ok)
  := by
  rw [← (push_granted h elem.1).1]
  rfl

/-- The elements after the call `vec_push` with enough memory. -/
theorem Roomy.call_push_items
    (h : t.items.length ≤ t.cap) (elem : Elem w) (junk : ℕ → Byte) :
  (t.call (.push (some elem) (some junk))).1.items
    = if t.Stuck w then t.items else t.items ++ [elem.1]
  := by
  rw [← (push_granted h elem.1).2]
  rfl

/-- The call `vec_pop` on an empty list. -/
theorem Roomy.call_pop_nil (h : t.items = []) (out : Bool) :
  t.call (w := w) (.pop out)
    = (t, .popped (if t.cap = 0 then .invalidArg else .notFound) none)
  := by
  simp only [call, h, List.getLast?_nil]
  split <;> rfl

/-- The call `vec_pop` on a list that has an element. -/
theorem Roomy.call_pop_concat
    (hle : t.items.length ≤ t.cap) {items : List (List Byte)} {elem : List Byte}
    (h : t.items = items ++ [elem]) (out : Bool) :
  t.call (w := w) (.pop out)
    = ({ t with items }, .popped .ok (if out then some elem else none))
  := by
  have hcap : t.cap ≠ 0 := by
    rw [h, List.length_append, List.length_singleton] at hle
    omega
  simp only [call, if_neg hcap, h, List.getLast?_concat, List.dropLast_concat]

/-- The lists have the same elements and are in vectors. -/
def Roomy.Alike (w : ℕ) (t t' : Roomy) : Prop :=
  t.items = t'.items ∧ (∃ v, VecRepr w v t) ∧ ∃ v', VecRepr w v' t'

theorem VecRepr.length_le (h : VecRepr w v t) :
  t.items.length ≤ t.cap
  := by
  rw [← h.len_eq]
  exact h.len_le

/-- What is different about the lists makes the call return something else. -/
def Roomy.Reveals (t t' : Roomy) : BothCall w → Prop
  | .push elem _ _ => elem ≠ none ∧ ¬ (t.Stuck w ↔ t'.Stuck w)
  | .pop _ => t.items = [] ∧ ¬ (t.cap = 0 ↔ t'.cap = 0)
  | .clear => False
  | .at _ => False

theorem VecRepr.reveals_iff (h : VecRepr w v t) (h' : VecRepr w v' t') (call : BothCall w) :
  CTemplate.Reveals v v' call ↔ t.Reveals t' call
  := by
  cases call with
  | push elem junk junk' => rw [CTemplate.Reveals, Roomy.Reveals, h.stuck_iff, h'.stuck_iff]
  | pop out =>
      rw [CTemplate.Reveals, Roomy.Reveals, h.len_eq, List.length_eq_zero_iff, h.data_eq_none,
        h'.data_eq_none]
  | clear => rfl
  | «at» i => rfl

theorem ite_eq_ite_iff_iff
    {α : Type} {p q : Prop} [Decidable p] [Decidable q] {x y : α} (hxy : x ≠ y) :
  (if p then x else y) = (if q then x else y) ↔ (p ↔ q)
  := by
  by_cases hp : p
  · by_cases hq : q
    · simp [hp, hq]
    · simp [hp, hq, hxy]
  · by_cases hq : q
    · simp [hp, hq, hxy.symm]
    · simp [hp, hq]

/-- A call returns the same on both lists if and only if it reveals nothing. -/
theorem Roomy.call_eq_iff
    (hitems : t.items = t'.items) (hle : t.items.length ≤ t.cap)
    (hle' : t'.items.length ≤ t'.cap) (call : BothCall w) :
  (t.call call.fst).2 = (t'.call call.snd).2 ↔ ¬ t.Reveals t' call
  := by
  cases call with
  | push elem junk junk' =>
      cases elem with
      | none => simp [BothCall.fst, BothCall.snd, call, Reveals]
      | some elem =>
          rw [BothCall.fst, BothCall.snd, call_push_result hle, call_push_result hle',
            VecResult.code.injEq, ite_eq_ite_iff_iff (by decide), Reveals]
          simp
  | pop out =>
      rw [BothCall.fst, BothCall.snd, Reveals]
      rcases List.eq_nil_or_concat' t.items with hnil | ⟨items, elem, hconcat⟩
      · rw [call_pop_nil hnil, call_pop_nil (hitems.symm.trans hnil), VecResult.popped.injEq,
          ite_eq_ite_iff_iff (by decide)]
        simp [hnil]
      · rw [call_pop_concat hle hconcat, call_pop_concat hle' (hitems.symm.trans hconcat)]
        simp [hconcat]
  | clear => exact iff_of_true rfl id
  | «at» i =>
      rw [BothCall.fst, BothCall.snd, call, call, hitems]
      exact iff_of_true rfl id

/-- A call that reveals nothing leaves the same elements in both lists. -/
theorem Roomy.call_items
    (hitems : t.items = t'.items) (hle : t.items.length ≤ t.cap)
    (hle' : t'.items.length ≤ t'.cap) {call : BothCall w} (h : ¬ t.Reveals t' call) :
  (t.call call.fst).1.items = (t'.call call.snd).1.items
  := by
  cases call with
  | push elem junk junk' =>
      cases elem with
      | none => exact hitems
      | some elem =>
          have hboth : t.Stuck w ↔ t'.Stuck w := by simpa [Reveals] using h
          rw [BothCall.fst, BothCall.snd, call_push_items hle, call_push_items hle', hitems]
          simp only [hboth]
  | pop out =>
      rw [BothCall.fst, BothCall.snd]
      rcases List.eq_nil_or_concat' t.items with hnil | ⟨items, elem, hconcat⟩
      · rw [call_pop_nil hnil, call_pop_nil (hitems.symm.trans hnil)]
        exact hitems
      · rw [call_pop_concat hle hconcat, call_pop_concat hle' (hitems.symm.trans hconcat)]
  | clear => rfl
  | «at» i => exact hitems

/-- Calls on both lists return the same if and only if none of them reveals what is different
about the lists. -/
theorem Roomy.callAll_eq_iff
    (hitems : t.items = t'.items) (h : VecRepr w v t) (h' : VecRepr w v' t')
    (calls : List (BothCall w)) :
  (StateMachine.callAll Roomy.call t (calls.map BothCall.fst)).2
      = (StateMachine.callAll Roomy.call t' (calls.map BothCall.snd)).2
    ↔ ∀ pre call post, calls = pre ++ call :: post →
      ¬ (StateMachine.callAll Roomy.call t (pre.map BothCall.fst)).1.Reveals
        (StateMachine.callAll Roomy.call t' (pre.map BothCall.snd)).1 call
  := by
  simp only [StateMachine.callAll_map]
  apply StateMachine.callAll_eq_iff (R := Roomy.Alike w)
  · rintro t t' call ⟨hitems, ⟨v, h⟩, v', h'⟩ hreveals
    have hresult := (call_eq_iff hitems h.length_le h'.length_le call).mpr hreveals
    have hnext := call_items hitems h.length_le h'.length_le hreveals
    obtain ⟨u, -, hu⟩ := h.step call.fst
    obtain ⟨u', -, hu'⟩ := h'.step call.snd
    exact ⟨hresult, hnext, ⟨u, hu⟩, u', hu'⟩
  · rintro t t' call ⟨hitems, ⟨v, h⟩, v', h'⟩ hreveals
    rw [ne_eq, call_eq_iff hitems h.length_le h'.length_le call, not_not]
    exact hreveals
  · exact ⟨hitems, ⟨v, h⟩, v', h'⟩

/-- A vector reached by calls on a vector from `vec_init_a` represents a list. -/
theorem VecRepr.of_run
    {alloc : Option Allocator} {v₀ : Vec} (hinit : vecInitA w alloc = .ok v₀)
    {calls : List (VecCall w)} {log : List VecResult}
    (hrun : StateMachine.run vecStep v₀ calls = some (v, log)) :
  ∃ t, VecRepr w v t
  := by
  obtain ⟨v', hrun', h⟩ := StateMachine.run_of_rel VecRepr.step (VecRepr.init hinit) calls
  rw [hrun] at hrun'
  cases hrun'
  exact ⟨_, h⟩

theorem VecRepr.neverReveals_iff
    (h : VecRepr w v t) (h' : VecRepr w v' t') (calls : List (BothCall w)) :
  NeverReveals v v' calls
    ↔ ∀ pre call post, calls = pre ++ call :: post →
      ¬ (StateMachine.callAll Roomy.call t (pre.map BothCall.fst)).1.Reveals
        (StateMachine.callAll Roomy.call t' (pre.map BothCall.snd)).1 call
  := by
  constructor
  · intro hnever pre call post hcalls
    obtain ⟨u, hrun, hu⟩ := StateMachine.run_of_rel VecRepr.step h (pre.map BothCall.fst)
    obtain ⟨u', hrun', hu'⟩ := StateMachine.run_of_rel VecRepr.step h' (pre.map BothCall.snd)
    rw [← hu.reveals_iff hu']
    apply hnever pre call post u u' _ _ hcalls hrun hrun'
  · intro hnever pre call post u u' log log' hcalls hrun hrun'
    obtain ⟨_, hrun₁, hu⟩ := StateMachine.run_of_rel VecRepr.step h (pre.map BothCall.fst)
    obtain ⟨_, hrun₁', hu'⟩ := StateMachine.run_of_rel VecRepr.step h' (pre.map BothCall.snd)
    rw [hrun] at hrun₁
    rw [hrun'] at hrun₁'
    cases hrun₁
    cases hrun₁'
    rw [hu.reveals_iff hu']
    apply hnever pre call post hcalls

/-- `vec_pop` on an empty vector reports that there is no element if and only if the vector has
storage. -/
theorem vecPop_notFound_iff (hlen : v.len = 0) (out : Bool) :
  vecPop v out = some (v, .notFound, none) ↔ v.data ≠ none
  := by
  rw [vecPop]
  cases v.data with
  | none => simp
  | some data => simp [hlen]

/-- Take two vectors that represent the same list, each reached by any calls on a vector from
`vec_init_a`.  Further calls return the same on both if and only if none of them is `vec_pop` on
empty vectors of which one alone has storage, or `vec_push` on vectors of which one alone is full
and cannot grow.  `vec_pop` on an empty vector reports that there is no element if and only if
the vector has storage. -/
theorem vec_agree_iff
    {alloc alloc' : Option Allocator} {v₀ v₀' : Vec} {calls calls' : List (VecCall w)}
    {log log' : List VecResult} (hinit : vecInitA w alloc = .ok v₀)
    (hinit' : vecInitA w alloc' = .ok v₀')
    (hrun : StateMachine.run vecStep v₀ calls = some (v, log))
    (hrun' : StateMachine.run vecStep v₀' calls' = some (v', log'))
    (hitems : v.items = v'.items) (next : List (BothCall w)) :
  (∃ u u' results results',
      StateMachine.run vecStep v (next.map BothCall.fst) = some (u, results)
      ∧ StateMachine.run vecStep v' (next.map BothCall.snd) = some (u', results')
      ∧ (results = results' ↔ NeverReveals v v' next))
    ∧ (v.len = 0 → ∀ out, vecPop v out = some (v, .notFound, none) ↔ v.data ≠ none)
  := by
  obtain ⟨t, h⟩ := VecRepr.of_run hinit hrun
  obtain ⟨t', h'⟩ := VecRepr.of_run hinit' hrun'
  constructor
  · obtain ⟨u, hnext, -⟩ := StateMachine.run_of_rel VecRepr.step h (next.map BothCall.fst)
    obtain ⟨u', hnext', -⟩ := StateMachine.run_of_rel VecRepr.step h' (next.map BothCall.snd)
    rw [h.items, h'.items] at hitems
    refine ⟨u, u', _, _, hnext, hnext', ?_⟩
    rw [h.neverReveals_iff h', Roomy.callAll_eq_iff hitems h h']
  · intro hlen out
    apply vecPop_notFound_iff hlen

/-- A vector of which a second element was popped, and one with more storage, which got the same
first element; both are popped twice. -/
theorem vec_agree_popped :
  ∃ v v₁ v₂, vecInit 1 = .ok v
    ∧ StateMachine.run (vecStep (w := 1)) v
        [.push (some ⟨[7], rfl⟩) (some fun _ => 0), .push (some ⟨[8], rfl⟩) none, .pop true]
      = some (v₁, [.code .ok, .code .ok, .popped .ok (some [8])])
    ∧ StateMachine.run (vecStep (w := 1)) v
        [.reserve 20 (some fun _ => 0), .push (some ⟨[7], rfl⟩) none]
      = some (v₂, [.code .ok, .code .ok])
    ∧ v₁.cap ≠ v₂.cap
    ∧ (∃ u u' results results',
      StateMachine.run (vecStep (w := 1)) v₁ [.pop true, .pop true] = some (u, results)
      ∧ StateMachine.run (vecStep (w := 1)) v₂ [.pop true, .pop true] = some (u', results')
      ∧ (results = results' ↔ NeverReveals v₁ v₂ [BothCall.pop (w := 1) true, .pop true]))
  := by
  have hinit : vecInitA 1 (some allocatorLibc) = .ok ⟨none, 0, 0, 1, some allocatorLibc⟩ := rfl
  have hrun₁ : StateMachine.run (vecStep (w := 1)) ⟨none, 0, 0, 1, some allocatorLibc⟩
      [.push (some ⟨[7], rfl⟩) (some fun _ => 0), .push (some ⟨[8], rfl⟩) none, .pop true]
    = some (_, [.code .ok, .code .ok, .popped .ok (some [8])]) := rfl
  have hrun₂ : StateMachine.run (vecStep (w := 1)) ⟨none, 0, 0, 1, some allocatorLibc⟩
      [.reserve 20 (some fun _ => 0), .push (some ⟨[7], rfl⟩) none]
    = some (_, [.code .ok, .code .ok]) := rfl
  refine ⟨_, _, _, hinit, hrun₁, hrun₂, by decide, ?_⟩
  apply (vec_agree_iff hinit hinit hrun₁ hrun₂ rfl [BothCall.pop true, .pop true]).1

/-- A new vector and one that was emptied represent the same list, but `vec_pop` does not return
the same on them. -/
theorem vec_pop_reveals_storage :
  ∃ v v', vecInit 1 = .ok v
    ∧ StateMachine.run (vecStep (w := 1)) v
      [.push (some ⟨[7], rfl⟩) (some fun _ => 0), .clear] = some (v', [.code .ok, .cleared])
    ∧ v.items = v'.items ∧ v.items = []
    ∧ vecPop v true = some (v, .invalidArg, none)
    ∧ vecPop v' true = some (v', .notFound, none)
  := ⟨_, _, rfl, rfl, rfl, rfl, rfl, rfl⟩

end CTemplate

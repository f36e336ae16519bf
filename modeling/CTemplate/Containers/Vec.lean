import CTemplate.Core.Elements
import CTemplate.Core.Error
import CTemplate.Library.StateMachine

/-!
# The vector

The growable array of `containers/vec.c`.  Whatever calls are made on a vector and whichever of
its reallocations fail, they return what they return on a list with a capacity.

A function gives `none` when a product of sizes wraps around, memory outside the data is
accessed or a null pointer is followed.
-/

namespace CTemplate

/-! ### The vector -/

/-- Which functions of an `Allocator` are not null pointers. -/
structure Allocator where
  realloc : Bool
  free : Bool
  deriving DecidableEq

/-- `allocator_libc` -/
def allocatorLibc : Allocator where
  realloc := true
  free := true

/-- `Vec`.  The data and the allocator are `none` for null pointers. -/
structure Vec where
  data : Option (List Byte)
  len : ℕ
  cap : ℕ
  elemSize : ℕ
  alloc : Option Allocator
  deriving DecidableEq

/-- `vec_heap` -/
def vecHeap : Option Allocator → Option Allocator
  | none => some allocatorLibc
  | some alloc => if !alloc.realloc ∨ !alloc.free then none else some alloc

/-- `vec_init_a`: the vector, or the error. -/
def vecInitA (elemSize : ℕ) (alloc : Option Allocator) : Except ErrorCode Vec :=
  if elemSize = 0 then .error .invalidArg
  else
    match vecHeap alloc with
    | none => .error .invalidArg
    | some alloc => .ok { data := none, len := 0, cap := 0, elemSize, alloc := some alloc }

/-- `vec_init` -/
def vecInit (elemSize : ℕ) : Except ErrorCode Vec :=
  vecInitA elemSize (some allocatorLibc)

/-- `vec_reserve`, given what its call of `realloc` does: the vector after the call and the code
returned. -/
def vecReserve (v : Vec) (cap : ℕ) (realloc : Realloc) : Option (Vec × ErrorCode) :=
  if v.elemSize = 0 ∨ (v.alloc.all fun alloc => !alloc.realloc) then some (v, .invalidArg)
  else if cap ≤ v.cap then some (v, .ok)
  else if cap > sizeMax / v.elemSize then some (v, .overflow)
  else
    (mulSize cap v.elemSize).map fun size =>
      match realloc with
      | none => (v, .nomem)
      | some junk =>
          ({ v with data := some (reallocated (v.data.getD []) size junk), cap }, .ok)

/-- `VEC_INITIAL_CAP` -/
def vecInitialCap : ℕ := 8

/-- The growth of a vector in `vec_push`. -/
def vecGrow (v : Vec) (realloc : Realloc) : Option (Vec × ErrorCode) :=
  let newCap := if v.cap = 0 then vecInitialCap else toSize (v.cap * 2)
  if newCap ≤ v.cap then some (v, .overflow) else vecReserve v newCap realloc

/-- The end of `vec_push`, where there is room for the element. -/
def vecAppend (v : Vec) (elem : List Byte) : Option (Vec × ErrorCode) :=
  v.data.bind fun data =>
    (storeElem v.elemSize data v.len elem).map fun data =>
      ({ v with data := some data, len := toSize (v.len + 1) }, .ok)

/-- `vec_push`.  The element is `none` for a null pointer. -/
def vecPush (v : Vec) (elem : Option (List Byte)) (realloc : Realloc) :
    Option (Vec × ErrorCode) :=
  match elem with
  | none => some (v, .invalidArg)
  | some elem =>
      if v.elemSize = 0 then some (v, .invalidArg)
      else
        (if v.len = v.cap then vecGrow v realloc else some (v, .ok)).bind fun (v, err) =>
          if err ≠ .ok then some (v, err) else vecAppend v elem

/-- `vec_pop`, where `out` says whether its argument is not a null pointer: the vector after the
call, the code returned and the element copied to `*out`. -/
def vecPop (v : Vec) (out : Bool) : Option (Vec × ErrorCode × Option (List Byte)) :=
  match v.data with
  | none => some (v, .invalidArg, none)
  | some data =>
      if v.len = 0 then some (v, .notFound, none)
      else
        let v := { v with len := v.len - 1 }
        (if out then (loadElem v.elemSize data v.len).map some else some none).map fun elem =>
          (v, .ok, elem)

/-- `vec_at`: the element at the pointer returned, or `none` for a null pointer. -/
def vecAt (v : Vec) (i : ℕ) : Option (Option (List Byte)) :=
  match v.data with
  | none => some none
  | some data => if i ≥ v.len then some none else (loadElem v.elemSize data i).map some

/-- `vec_clear` -/
def vecClear (v : Vec) : Vec :=
  { v with len := 0 }

/-- A call on a vector of elements of `w` bytes, with what its call of `realloc` does. -/
inductive VecCall (w : ℕ) where
  | push (elem : Option (Elem w)) (realloc : Realloc)
  | pop (out : Bool)
  | reserve (cap : ℕ) (realloc : Realloc)
  | clear
  | at (i : ℕ)

/-- What a call returns. -/
inductive VecResult where
  | code (code : ErrorCode)
  | popped (code : ErrorCode) (elem : Option (List Byte))
  | cleared
  | elem (elem : Option (List Byte))
  deriving DecidableEq

/-- The call returns a code that is not `ERR_OK`. -/
def VecResult.failed : VecResult → Bool
  | .code err => err ≠ .ok
  | .popped err _ => err ≠ .ok
  | .cleared => false
  | .elem _ => false

/-- A call on the vector. -/
def vecStep {w : ℕ} (v : Vec) : VecCall w → Option (Vec × Option VecResult)
  | .push elem realloc =>
      (vecPush v (elem.map (·.1)) realloc).map fun (v, code) => (v, some (.code code))
  | .pop out => (vecPop v out).map fun (v, code, elem) => (v, some (.popped code elem))
  | .reserve cap realloc => (vecReserve v cap realloc).map fun (v, code) => (v, some (.code code))
  | .clear => some (vecClear v, some .cleared)
  | .at i => (vecAt v i).map fun elem => (v, some (.elem elem))

/-! ### Lists with a capacity -/

/-- A list of elements, and for how many of them there is room. -/
structure Roomy where
  items : List (List Byte)
  cap : ℕ
  deriving DecidableEq

/-- There is room for at least `cap` elements afterwards, if their size is a `size_t` and the
memory is granted. -/
def Roomy.reserve (w : ℕ) (t : Roomy) (cap : ℕ) (granted : Bool) : Roomy × ErrorCode :=
  if cap ≤ t.cap then (t, .ok)
  else if cap * w > sizeMax then (t, .overflow)
  else if granted then ({ t with cap }, .ok)
  else (t, .nomem)

/-- The number of elements for which there is room after it has grown. -/
def Roomy.grown (t : Roomy) : ℕ :=
  if t.cap = 0 then vecInitialCap else t.cap * 2

/-- There is room for one more element afterwards. -/
def Roomy.makeRoom (w : ℕ) (t : Roomy) (granted : Bool) : Roomy × ErrorCode :=
  if t.items.length < t.cap then (t, .ok) else t.reserve w t.grown granted

/-- The element is appended, if there is room. -/
def Roomy.push (w : ℕ) (t : Roomy) (elem : List Byte) (granted : Bool) : Roomy × ErrorCode :=
  let (t, err) := t.makeRoom w granted
  if err = .ok then ({ t with items := t.items ++ [elem] }, .ok) else (t, err)

/-- What a call does to a list of elements of `w` bytes, and what it returns. -/
def Roomy.call {w : ℕ} (t : Roomy) : VecCall w → Roomy × VecResult
  | .push none _ => (t, .code .invalidArg)
  | .push (some elem) realloc =>
      ((t.push w elem.1 realloc.isSome).1, .code (t.push w elem.1 realloc.isSome).2)
  | .pop out =>
      if t.cap = 0 then (t, .popped .invalidArg none)
      else
        match t.items.getLast? with
        | none => (t, .popped .notFound none)
        | some elem =>
            ({ t with items := t.items.dropLast }, .popped .ok (if out then some elem else none))
  | .reserve cap realloc =>
      ((t.reserve w cap realloc.isSome).1, .code (t.reserve w cap realloc.isSome).2)
  | .clear => ({ t with items := [] }, .cleared)
  | .at i => (t, .elem t.items[i]?)

variable {w : ℕ} {t : Roomy}

/-- Room is made or the list stays as it is. -/
theorem Roomy.reserve_cases (w : ℕ) (t : Roomy) (cap : ℕ) (granted : Bool) :
  ((t.reserve w cap granted).2 = .ok ∧ (t.reserve w cap granted).1.items = t.items
      ∧ cap ≤ (t.reserve w cap granted).1.cap)
    ∨ ((t.reserve w cap granted).2 ≠ .ok ∧ (t.reserve w cap granted).1 = t)
  := by
  rw [reserve]
  split
  case isTrue hle => exact .inl ⟨rfl, rfl, hle⟩
  case isFalse =>
  split
  case isTrue => exact .inr ⟨by simp, rfl⟩
  case isFalse =>
  split
  case isTrue => exact .inl ⟨rfl, rfl, Nat.le_refl cap⟩
  case isFalse => exact .inr ⟨by simp, rfl⟩

/-- Room is made for one more element or the list stays as it is. -/
theorem Roomy.makeRoom_cases (w : ℕ) (h : t.items.length ≤ t.cap) (granted : Bool) :
  ((t.makeRoom w granted).2 = .ok ∧ (t.makeRoom w granted).1.items = t.items
      ∧ t.items.length < (t.makeRoom w granted).1.cap)
    ∨ ((t.makeRoom w granted).2 ≠ .ok ∧ (t.makeRoom w granted).1 = t)
  := by
  rw [makeRoom]
  split
  case isTrue hlt => exact .inl ⟨rfl, rfl, hlt⟩
  case isFalse =>
  rcases t.reserve_cases w t.grown granted with ⟨hok, hitems, hcap⟩ | hfailed
  · have hgrown : t.items.length < t.grown := by
      rw [grown]
      split
      · rw [vecInitialCap]
        omega
      · omega
    exact .inl ⟨hok, hitems, Nat.lt_of_lt_of_le hgrown hcap⟩
  · exact .inr hfailed

/-- A call that fails leaves the list and its capacity as they are. -/
theorem Roomy.call_failed
    (hlen : t.items.length ≤ t.cap) (call : VecCall w) (h : (t.call call).2.failed = true) :
  (t.call call).1 = t
  := by
  cases call with
  | push elem realloc =>
      cases elem with
      | none => rfl
      | some elem =>
          simp only [call, push, VecResult.failed] at h ⊢
          rcases makeRoom_cases w hlen realloc.isSome with ⟨hok, -⟩ | ⟨hfailed, heq⟩
          · rw [if_pos hok] at h
            cases h
          · rw [if_neg hfailed]
            exact heq
  | pop out =>
      simp only [call] at h ⊢
      split
      · rfl
      case isFalse hcap =>
        rw [if_neg hcap] at h
        split
        · rfl
        case h_2 elem hlast =>
          rw [hlast] at h
          cases h
  | reserve cap realloc =>
      rcases t.reserve_cases w cap realloc.isSome with ⟨hok, -⟩ | ⟨-, heq⟩
      · simp only [call, VecResult.failed, hok] at h
        cases h
      · exact heq
  | clear => cases h
  | «at» i => rfl

/-! ### The list in the vector -/

/-- The vector holds the elements of the list and has its capacity. -/
structure VecRepr (w : ℕ) (v : Vec) (t : Roomy) : Prop where
  elemSize_eq : v.elemSize = w
  elemSize_pos : 0 < w
  alloc_eq : ∃ alloc, v.alloc = some alloc ∧ alloc.realloc = true
  cap_eq : v.cap = t.cap
  data_eq_none : v.data = none ↔ t.cap = 0
  length_data : (v.data.getD []).length = t.cap * w
  items_eq : t.items = Slots.array w (v.data.getD []) v.len
  len_le : v.len ≤ t.cap
  size_le : t.cap * w ≤ sizeMax

variable {v : Vec}

/-- A vector from `vec_init_a` is empty. -/
theorem VecRepr.init {alloc : Option Allocator} (hinit : vecInitA w alloc = .ok v) :
  VecRepr w v ⟨[], 0⟩
  := by
  rw [vecInitA] at hinit
  split at hinit
  · cases hinit
  case isFalse hpos =>
  split at hinit
  · cases hinit
  case h_2 alloc' halloc =>
  obtain rfl := Except.ok.inj hinit
  have hrealloc : alloc'.realloc = true := by
    cases alloc with
    | none =>
        obtain rfl := Option.some.inj halloc
        rfl
    | some alloc =>
        rw [vecHeap] at halloc
        split at halloc
        · cases halloc
        case isFalse hboth =>
          obtain rfl := Option.some.inj halloc
          rw [not_or] at hboth
          simpa using hboth.1
  exact {
    elemSize_eq := rfl
    elemSize_pos := Nat.pos_of_ne_zero hpos
    alloc_eq := ⟨alloc', rfl, hrealloc⟩
    cap_eq := rfl
    data_eq_none := iff_of_true rfl rfl
    length_data := (Nat.zero_mul w).symm
    items_eq := rfl
    len_le := Nat.le_refl 0
    size_le := by
      rw [Nat.zero_mul]
      apply Nat.zero_le }

theorem VecRepr.len_eq (h : VecRepr w v t) :
  v.len = t.items.length
  := by
  rw [h.items_eq, Slots.length_array]

theorem VecRepr.cap_le (h : VecRepr w v t) :
  t.cap ≤ sizeMax
  := Nat.le_trans (Nat.le_mul_of_pos_right t.cap h.elemSize_pos) h.size_le

/-- A reallocated vector holds the same elements. -/
theorem VecRepr.realloc
    (h : VecRepr w v t) {cap : ℕ} (hcap : t.cap < cap) (hsize : cap * w ≤ sizeMax)
    (junk : ℕ → Byte) :
  VecRepr w { v with data := some (reallocated (v.data.getD []) (cap * w) junk), cap }
    { t with cap }
  := by
  have hlength : (v.data.getD []).length ≤ cap * w := by
    rw [h.length_data]
    apply Nat.mul_le_mul_right w (Nat.le_of_lt hcap)
  exact {
    elemSize_eq := h.elemSize_eq
    elemSize_pos := h.elemSize_pos
    alloc_eq := h.alloc_eq
    cap_eq := rfl
    data_eq_none := iff_of_false (Option.some_ne_none _) (by dsimp only; omega)
    length_data := length_reallocated _ _ _
    items_eq := by
      rw [h.items_eq]
      apply Slots.array_congr (k := t.cap * w) (Nat.mul_le_mul_right w h.len_le)
      rw [← h.length_data, List.take_length, Option.getD_some, take_reallocated hlength]
    len_le := Nat.le_trans h.len_le (Nat.le_of_lt hcap)
    size_le := hsize }

theorem VecRepr.reserve (h : VecRepr w v t) (cap : ℕ) (realloc : Realloc) :
  ∃ v', vecReserve v cap realloc = some (v', (t.reserve w cap realloc.isSome).2)
    ∧ VecRepr w v' (t.reserve w cap realloc.isSome).1
  := by
  have hw := h.elemSize_pos
  obtain ⟨alloc, halloc, hrealloc⟩ := h.alloc_eq
  have hvalid : ¬ (v.elemSize = 0 ∨ (v.alloc.all fun alloc => !alloc.realloc) = true) := by
    rw [h.elemSize_eq, halloc, Option.all_some, hrealloc]
    simp only [Bool.not_true, Bool.false_eq_true, or_false]
    omega
  have hdiv : cap > sizeMax / v.elemSize ↔ cap * w > sizeMax := by
    rw [h.elemSize_eq]
    apply Nat.div_lt_iff_lt_mul hw
  simp only [vecReserve, Roomy.reserve, if_neg hvalid, h.cap_eq, hdiv]
  split
  · exact ⟨v, rfl, h⟩
  case isFalse hgt =>
  split
  · exact ⟨v, rfl, h⟩
  case isFalse hfits =>
    have hmul : mulSize cap v.elemSize = some (cap * w) := by
      rw [h.elemSize_eq, mulSize_of_le (Nat.le_of_not_lt hfits)]
    rw [hmul]
    cases realloc with
    | none => exact ⟨v, rfl, h⟩
    | some junk =>
        exact ⟨_, rfl, h.realloc (Nat.lt_of_not_le hgt) (Nat.le_of_not_lt hfits) junk⟩

/-- An element is appended where there is room for it. -/
theorem VecRepr.append (h : VecRepr w v t) (elem : Elem w) (hroom : v.len < t.cap) :
  ∃ v', vecAppend v elem.1 = some (v', .ok)
    ∧ VecRepr w v' { t with items := t.items ++ [elem.1] }
  := by
  obtain ⟨data, hdata⟩ : ∃ data, v.data = some data := by
    rw [← Option.ne_none_iff_exists', ne_eq, h.data_eq_none]
    omega
  have hlength := h.length_data
  have hitems := h.items_eq
  rw [hdata, Option.getD_some] at hlength hitems
  have hcap := h.cap_le
  have hsucc : toSize (v.len + 1) = v.len + 1 := toSize_of_le (by omega)
  rw [vecAppend, hdata, Option.bind_some, h.elemSize_eq,
    storeElem_eq hlength h.size_le hroom elem.2, hsucc]
  refine ⟨_, rfl, ?_⟩
  exact {
    elemSize_eq := rfl
    elemSize_pos := h.elemSize_pos
    alloc_eq := h.alloc_eq
    cap_eq := h.cap_eq
    data_eq_none := iff_of_false (Option.some_ne_none _) (by dsimp only; omega)
    length_data := by
      rw [Option.getD_some, Slots.length_write hlength hroom elem.2, hlength]
    items_eq := by
      rw [Option.getD_some, Slots.array_write_last hlength hroom elem.2, hitems]
    len_le := hroom
    size_le := h.size_le }

/-- The capacity after doubling, as `vec_push` computes it, wraps around or is what the list
grows to. -/
theorem VecRepr.grown_cases (h : VecRepr w v t) (granted : Bool) :
  ((if t.cap = 0 then vecInitialCap else toSize (t.cap * 2)) ≤ t.cap
      ∧ t.reserve w t.grown granted = (t, .overflow))
    ∨ (¬ (if t.cap = 0 then vecInitialCap else toSize (t.cap * 2)) ≤ t.cap
      ∧ (if t.cap = 0 then vecInitialCap else toSize (t.cap * 2)) = t.grown)
  := by
  have hcap := h.cap_le
  rw [Roomy.grown]
  split
  case isTrue hzero =>
    rw [hzero]
    exact .inr ⟨by decide, rfl⟩
  case isFalse hpos =>
  by_cases hwrap : t.cap * 2 ≤ sizeMax
  · rw [toSize_of_le hwrap]
    exact .inr ⟨by omega, rfl⟩
  · have hsize := Nat.le_mul_of_pos_right (t.cap * 2) h.elemSize_pos
    constructor
    constructor
    · unfold toSize sizeMax at *
      omega
    · rw [Roomy.reserve, if_neg (by omega), if_pos (by omega)]

theorem VecRepr.makeRoom (h : VecRepr w v t) (realloc : Realloc) :
  ∃ v', (if v.len = v.cap then vecGrow v realloc else some (v, .ok))
      = some (v', (t.makeRoom w realloc.isSome).2)
    ∧ VecRepr w v' (t.makeRoom w realloc.isSome).1
  := by
  have hle := h.len_le
  rw [Roomy.makeRoom, ← h.len_eq, h.cap_eq]
  split
  case isFalse hne =>
    rw [if_pos (by omega)]
    exact ⟨v, rfl, h⟩
  case isTrue hfull =>
    rw [if_neg (by omega)]
    simp only [vecGrow, h.cap_eq]
    rcases h.grown_cases realloc.isSome with ⟨hwrap, hreserve⟩ | ⟨hgt, heq⟩
    · rw [if_pos hwrap, hreserve]
      exact ⟨v, rfl, h⟩
    · rw [if_neg hgt, heq]
      apply h.reserve

theorem VecRepr.push (h : VecRepr w v t) (elem : Elem w) (realloc : Realloc) :
  ∃ v', vecPush v (some elem.1) realloc = some (v', (t.push w elem.1 realloc.isSome).2)
    ∧ VecRepr w v' (t.push w elem.1 realloc.isSome).1
  := by
  have hw := h.elemSize_pos
  have hle := h.len_le
  rw [h.len_eq] at hle
  obtain ⟨v₁, hroom, h₁⟩ := h.makeRoom realloc
  simp only [vecPush, Roomy.push]
  rw [if_neg (by rw [h.elemSize_eq]; omega), hroom, Option.bind_some]
  rcases Roomy.makeRoom_cases w hle realloc.isSome with ⟨hok, hitems, hlt⟩ | ⟨hfailed, -⟩
  · have hlen := h₁.len_eq
    rw [hitems] at hlen
    simp only [hok, ne_eq, not_true_eq_false, if_false, if_true]
    apply h₁.append elem (by omega)
  · simp only [ne_eq, hfailed, not_false_eq_true, if_true, if_false]
    exact ⟨v₁, rfl, h₁⟩

/-- A vector that has data has room. -/
theorem VecRepr.of_data (h : VecRepr w v t) {data : List Byte} (hdata : v.data = some data) :
  t.cap ≠ 0 ∧ data.length = t.cap * w ∧ t.items = Slots.array w data v.len
  := by
  have hnone := h.data_eq_none
  have hlength := h.length_data
  have hitems := h.items_eq
  rw [hdata] at hnone
  rw [hdata, Option.getD_some] at hlength hitems
  use fun hzero => Option.some_ne_none _ (hnone.mpr hzero), hlength, hitems

/-- A vector with fewer elements. -/
theorem VecRepr.shorten (h : VecRepr w v t) {len : ℕ} (hlen : len ≤ v.len) :
  VecRepr w { v with len } { t with items := Slots.array w (v.data.getD []) len }
  where
  elemSize_eq := h.elemSize_eq
  elemSize_pos := h.elemSize_pos
  alloc_eq := h.alloc_eq
  cap_eq := h.cap_eq
  data_eq_none := h.data_eq_none
  length_data := h.length_data
  items_eq := rfl
  len_le := Nat.le_trans hlen h.len_le
  size_le := h.size_le

theorem VecRepr.pop (h : VecRepr w v t) (out : Bool) :
  ∃ v', (vecPop v out).map (fun (v, code, elem) => (v, some (VecResult.popped code elem)))
      = some (v', some (t.call (w := w) (.pop out)).2)
    ∧ VecRepr w v' (t.call (w := w) (.pop out)).1
  := by
  have hlen := h.len_eq
  cases hdata : v.data with
  | none =>
      simp only [vecPop, hdata, Roomy.call, if_pos (h.data_eq_none.mp hdata)]
      exact ⟨v, rfl, h⟩
  | some data =>
      obtain ⟨hcap, hlength, hitems⟩ := h.of_data hdata
      simp only [vecPop, hdata, Roomy.call, if_neg hcap]
      cases hv : v.len with
      | zero =>
          have hnil : t.items = [] := List.eq_nil_of_length_eq_zero (hlen.symm.trans hv)
          rw [hnil]
          exact ⟨v, rfl, h⟩
      | succ len =>
          have hle := h.len_le
          have hcopied : (if out then (loadElem v.elemSize data len).map some else some none)
              = some (if out then some (Slots.read w data len) else none) := by
            rw [h.elemSize_eq, loadElem_eq hlength h.size_le (by omega)]
            cases out <;> rfl
          have hle : len ≤ v.len := by omega
          have hshort := h.shorten hle
          rw [hdata, Option.getD_some] at hshort
          rw [hitems, hv, Slots.array_succ, List.getLast?_append, List.dropLast_concat,
            if_neg (Nat.succ_ne_zero len), Nat.add_sub_cancel, hcopied]
          exact ⟨_, rfl, hshort⟩

theorem VecRepr.at (h : VecRepr w v t) (i : ℕ) :
  vecAt v i = some t.items[i]?
  := by
  cases hdata : v.data with
  | none =>
      have hlen := h.len_eq
      have hle := h.len_le
      rw [h.data_eq_none.mp hdata] at hle
      simp only [vecAt, hdata]
      rw [List.getElem?_eq_none (by omega)]
  | some data =>
      obtain ⟨-, hlength, hitems⟩ := h.of_data hdata
      simp only [vecAt, hdata]
      split
      case isTrue hge => rw [List.getElem?_eq_none (by rw [← h.len_eq]; exact hge)]
      case isFalse hlt =>
        rw [ge_iff_le, not_le] at hlt
        rw [h.elemSize_eq, loadElem_eq hlength h.size_le (Nat.lt_of_lt_of_le hlt h.len_le), hitems,
          Slots.getElem?_array hlt, Option.map_some]

/-! ### Runs -/

/-- A call returns what it returns on the list. -/
theorem VecRepr.step (h : VecRepr w v t) (call : VecCall w) :
  ∃ v', vecStep v call = some (v', some (t.call call).2) ∧ VecRepr w v' (t.call call).1
  := by
  cases call with
  | push elem realloc =>
      cases elem with
      | none => exact ⟨v, rfl, h⟩
      | some elem =>
          obtain ⟨v', hpush, h'⟩ := h.push elem realloc
          use v'
          rw [vecStep, Option.map_some, hpush]
          exact ⟨rfl, h'⟩
  | pop out => apply h.pop
  | reserve cap realloc =>
      obtain ⟨v', hreserve, h'⟩ := h.reserve cap realloc
      use v'
      rw [vecStep, hreserve]
      exact ⟨rfl, h'⟩
  | clear => exact ⟨vecClear v, rfl, h.shorten (Nat.zero_le _)⟩
  | «at» i =>
      use v
      rw [vecStep, h.at]
      exact ⟨rfl, h⟩

/-- Calls on a vector from `vec_init_a`, any of whose reallocations may fail, return what they
return on a list that is empty at first; the vector holds the list and has its capacity, and no
product of sizes wraps around.  A call that fails leaves the list and the capacity as they
are. -/
theorem vec_list
    {alloc : Option Allocator} (hinit : vecInitA w alloc = .ok v) (calls : List (VecCall w)) :
  ∃ v' t, StateMachine.run vecStep v calls
      = some (v', (StateMachine.callAll Roomy.call ⟨[], 0⟩ calls).2)
    ∧ t = (StateMachine.callAll Roomy.call ⟨[], 0⟩ calls).1
    ∧ VecRepr w v' t
    ∧ v'.len = t.items.length ∧ v'.cap = t.cap ∧ v'.len ≤ v'.cap ∧ v'.cap * w ≤ sizeMax
    ∧ ∀ call : VecCall w, (t.call call).2.failed = true → (t.call call).1 = t
  := by
  obtain ⟨v', hrun, h⟩ := StateMachine.run_of_rel VecRepr.step (VecRepr.init hinit) calls
  have hle := h.len_le
  have hsize := h.size_le
  refine ⟨v', _, hrun, rfl, h, h.len_eq, h.cap_eq, ?_, ?_, ?_⟩
  · rw [h.cap_eq]
    exact hle
  · rw [h.cap_eq]
    exact hsize
  · rw [h.len_eq] at hle
    intro call
    apply Roomy.call_failed hle

/-- Two elements are pushed, of which one is popped; a reallocation fails. -/
theorem vec_list_run :
  ∃ v v', vecInit 1 = .ok v
    ∧ StateMachine.run (vecStep (w := 1)) v
        [.push (some ⟨[7], rfl⟩) (some fun _ => 0), .push (some ⟨[9], rfl⟩) none, .at 1,
          .reserve 20 none, .pop true, .at 1]
      = some (v', [.code .ok, .code .ok, .elem (some [9]), .code .nomem, .popped .ok (some [9]),
          .elem none])
  := by
  obtain ⟨v', t, hrun, -⟩ := vec_list (show vecInitA 1 (some allocatorLibc) = .ok _ from rfl)
    [.push (some ⟨[7], rfl⟩) (some fun _ => 0), .push (some ⟨[9], rfl⟩) none, .at 1,
      .reserve 20 none, .pop true, .at 1]
  exact ⟨_, v', rfl, hrun⟩

end CTemplate

import CTemplate.Core.Error
import CTemplate.Core.Memory
import CTemplate.Core.Stdio
import CTemplate.Library.Buffer
import CTemplate.Library.Doubling
import CTemplate.Library.StateMachine

/-!
# The string builder

The growable string of `containers/strbuf.c`.  Whatever pieces are appended to a builder and
whichever of its allocations fail, it holds the text of the pieces that were appended, followed
by a zero byte.

A function gives `none` when the computation of a size wraps around, memory outside the data is
accessed, a null pointer is followed, or the capacity is doubled too often.
-/

namespace CTemplate

open Doubling

/-! ### The builder -/

/-- `StrBuf`.  The data is `none` for a null pointer. -/
structure StrBuf where
  data : Option (List Byte)
  len : ℕ
  cap : ℕ
  deriving DecidableEq

/-- `STRBUF_INITIAL_CAP` -/
def strbufInitialCap : ℕ := 32

/-- `strbuf_init`: the builder after the call and the code returned. -/
def strbufInit (sb : StrBuf) (malloc : Malloc) : Option (StrBuf × ErrorCode) :=
  match malloc.block strbufInitialCap with
  | none => some ({ sb with data := none }, .nomem)
  | some data =>
      (Buffer.write data 0 [0]).map fun data =>
        ({ data := some data, len := 0, cap := strbufInitialCap }, .ok)

/-- The number of bits of a `size_t`. -/
def sizeBits : ℕ := 64

/-- The loop in `ensure` that doubles the capacity, for at most `rounds` rounds. -/
def growLoop : ℕ → ℕ → ℕ → Option (Except ErrorCode ℕ)
  | 0, need, newCap => if newCap < need then none else some (.ok newCap)
  | rounds + 1, need, newCap =>
      if newCap < need then
        if newCap > sizeMax / 2 then some (.error .overflow)
        else (mulSize newCap 2).bind (growLoop rounds need)
      else some (.ok newCap)

/-- `ensure`, given what its call of `realloc` does. -/
def ensure (sb : StrBuf) (extra : ℕ) (realloc : Realloc) : Option (StrBuf × ErrorCode) :=
  ((subSize sizeMax sb.len).bind (subSize · 1)).bind fun room =>
    if extra > room then some (sb, .overflow)
    else
      ((addSize sb.len extra).bind (addSize · 1)).bind fun need =>
        if need ≤ sb.cap then some (sb, .ok)
        else
          (growLoop sizeBits need sb.cap).map fun
            | .error err => (sb, err)
            | .ok newCap =>
                match realloc with
                | none => (sb, .nomem)
                | some junk =>
                    ({ sb with
                        data := some (reallocated (sb.data.getD []) newCap junk)
                        cap := newCap }, .ok)

/-- The bytes `s` are copied behind the text, with a zero byte after them. -/
def strbufCopy (sb : StrBuf) (s : List Byte) (n : ℕ) : Option (StrBuf × ErrorCode) :=
  sb.data.bind fun data =>
    (Buffer.write data sb.len s).bind fun data =>
      (addSize sb.len n).bind fun len =>
        (Buffer.write data len [0]).map fun data => ({ sb with data := some data, len }, .ok)

/-- `strbuf_append_n`.  The bytes are `none` for a null pointer. -/
def strbufAppendN (sb : StrBuf) (s : Option (List Byte)) (n : ℕ) (realloc : Realloc) :
    Option (StrBuf × ErrorCode) :=
  if sb.data = none ∨ (s = none ∧ n > 0) then some (sb, .invalidArg)
  else
    (ensure sb n realloc).bind fun (sb, err) =>
      if err ≠ .ok then some (sb, err) else strbufCopy sb (s.getD []) n

/-- `strbuf_append`.  The string is `none` for a null pointer. -/
def strbufAppend (sb : StrBuf) (s : Option CString) (realloc : Realloc) :
    Option (StrBuf × ErrorCode) :=
  match s with
  | none => some (sb, .invalidArg)
  | some s => strbufAppendN sb (some s.1) s.1.length realloc

/-- `strbuf_append_char` -/
def strbufAppendChar (sb : StrBuf) (c : Byte) (realloc : Realloc) : Option (StrBuf × ErrorCode) :=
  strbufAppendN sb (some [c]) 1 realloc

/-- The second pass of `strbuf_appendf`. -/
def strbufFormat (sb : StrBuf) (text : Formatted) : Option (StrBuf × ErrorCode) :=
  sb.data.bind fun data =>
    ((addSize text.1.length 1).bind fun size => vsnprintf data sb.len size text).bind fun data =>
      (addSize sb.len text.1.length).map fun len => ({ sb with data := some data, len }, .ok)

/-- `strbuf_appendf`, where `fmt` says whether the format is not a null pointer and `text` is
`none` when `vsnprintf` fails.  Its first pass gives the length of the text. -/
def strbufAppendf (sb : StrBuf) (fmt : Bool) (text : Option Formatted) (realloc : Realloc) :
    Option (StrBuf × ErrorCode) :=
  if sb.data = none ∨ !fmt then some (sb, .invalidArg)
  else
    match text with
    | none => some (sb, .invalidArg)
    | some text =>
        (ensure sb text.1.length realloc).bind fun (sb, err) =>
          if err ≠ .ok then some (sb, err) else strbufFormat sb text

/-- `strbuf_clear` -/
def strbufClear (sb : StrBuf) : Option StrBuf :=
  match sb.data with
  | none => some sb
  | some data =>
      (Buffer.write data 0 [0]).map fun data => { sb with data := some data, len := 0 }

/-- `strbuf_take`: the builder after the call and the block returned. -/
def strbufTake (sb : StrBuf) (malloc : Malloc) : Option (StrBuf × Option (List Byte)) :=
  match sb.data with
  | none => some (sb, none)
  | some out =>
      (strbufInit { data := none, len := 0, cap := 0 } malloc).map fun (sb, err) =>
        (if err ≠ .ok then { sb with data := none } else sb, some out)

/-- A pointer and a number of bytes: the bytes at the pointer, if it is not null. -/
structure ByteSpan where
  bytes : Option (List Byte)
  n : ℕ
  length_eq : ∀ b ∈ bytes, b.length = n

/-- The arguments of a function that appends. -/
inductive StrBufPiece where
  | str (s : Option CString)
  | bytes (s : ByteSpan)
  | char (c : Byte)
  | formatted (fmt : Bool) (text : Option Formatted)

/-- A call on a builder, with what its allocations do. -/
inductive StrBufCall where
  | append (piece : StrBufPiece) (realloc : Realloc)
  | clear
  | take (malloc : Malloc)

/-- What a call returns. -/
inductive StrBufResult where
  | code (code : ErrorCode)
  | cleared
  | taken (out : Option (List Byte))
  deriving DecidableEq

/-- The functions that append. -/
def strbufAppendPiece (sb : StrBuf) (realloc : Realloc) :
    StrBufPiece → Option (StrBuf × ErrorCode)
  | .str s => strbufAppend sb s realloc
  | .bytes s => strbufAppendN sb s.bytes s.n realloc
  | .char c => strbufAppendChar sb c realloc
  | .formatted fmt text => strbufAppendf sb fmt text realloc

/-- A call on the builder.  Of a block that is taken, the bytes of the text and the one after
them are shown. -/
def strbufStep (sb : StrBuf) : StrBufCall → Option (StrBuf × Option StrBufResult)
  | .append piece realloc =>
      (strbufAppendPiece sb realloc piece).map fun (sb, code) => (sb, some (.code code))
  | .clear => (strbufClear sb).map fun sb => (sb, some .cleared)
  | .take malloc =>
      (strbufTake sb malloc).map fun (sb', out) =>
        (sb', some (.taken (out.map (·.take (sb.len + 1)))))

/-! ### Texts with a capacity -/

/-- A text and the number of bytes there are for it. -/
structure Builder where
  text : List Byte
  cap : ℕ
  deriving DecidableEq

/-- There is room for `extra` more bytes and a zero byte afterwards, if the capacity that takes
is a `size_t` and the memory is granted. -/
def Builder.reserve (b : Builder) (extra : ℕ) (granted : Bool) : Builder × ErrorCode :=
  let cap := doubled b.cap (b.text.length + extra + 1)
  if cap > sizeMax then (b, .overflow)
  else if cap = b.cap ∨ granted then ({ b with cap }, .ok)
  else (b, .nomem)

/-- The piece is appended, if there is room. -/
def Builder.append (b : Builder) (piece : List Byte) (granted : Bool) : Builder × ErrorCode :=
  let (b, err) := b.reserve piece.length granted
  if err = .ok then ({ b with text := b.text ++ piece }, .ok) else (b, err)

/-- The bytes to append, unless an argument is invalid. -/
def StrBufPiece.text : StrBufPiece → Option (List Byte)
  | .str s => s.map (·.1)
  | .bytes s => if s.bytes = none ∧ s.n > 0 then none else some (s.bytes.getD [])
  | .char c => some [c]
  | .formatted fmt text => if fmt then text.map (·.1) else none

def Builder.appendPiece (b : Builder) (piece : StrBufPiece) (granted : Bool) :
    Builder × ErrorCode :=
  match piece.text with
  | none => (b, .invalidArg)
  | some text => b.append text granted

/-- What a call does to a text, and what it returns.  There is none when the builder has no
storage. -/
def builderCall (t : Option Builder) : StrBufCall → Option Builder × StrBufResult
  | .append piece realloc =>
      match t with
      | none => (none, .code .invalidArg)
      | some b =>
          (some (b.appendPiece piece realloc.isSome).1,
            .code (b.appendPiece piece realloc.isSome).2)
  | .clear => (t.map fun b => { b with text := [] }, .cleared)
  | .take malloc =>
      match t with
      | none => (none, .taken none)
      | some b =>
          ((malloc.block strbufInitialCap).map fun _ => ⟨[], strbufInitialCap⟩,
            .taken (some (b.text ++ [0])))

variable {sb : StrBuf} {b : Builder} {t : Option Builder}

/-- Room is made or the text stays as it is. -/
theorem Builder.reserve_cases (hcap : 0 < b.cap) (extra : ℕ) (granted : Bool) :
  ((b.reserve extra granted).2 = .ok ∧ (b.reserve extra granted).1.text = b.text
      ∧ b.text.length + extra < (b.reserve extra granted).1.cap)
    ∨ ((b.reserve extra granted).2 ≠ .ok ∧ (b.reserve extra granted).1 = b)
  := by
  rw [reserve]
  split
  case isTrue => exact .inr ⟨by simp, rfl⟩
  case isFalse =>
  split
  case isTrue => exact .inl ⟨rfl, rfl, le_doubled hcap _⟩
  case isFalse => exact .inr ⟨by simp, rfl⟩

/-- An append that fails leaves the text and its capacity as they are. -/
theorem Builder.appendPiece_failed
    (hcap : 0 < b.cap) {piece : StrBufPiece} {granted : Bool}
    (h : (b.appendPiece piece granted).2 ≠ .ok) :
  (b.appendPiece piece granted).1 = b
  := by
  rw [appendPiece] at h ⊢
  cases htext : piece.text with
  | none => rfl
  | some text =>
      rw [htext] at h
      simp only [append] at h ⊢
      rcases reserve_cases hcap text.length granted with ⟨hok, -⟩ | ⟨hfailed, heq⟩
      · rw [if_pos hok] at h
        exact absurd rfl h
      · rw [if_neg hfailed]
        exact heq

theorem builderCall_failed
    (hcap : ∀ b ∈ t, 0 < b.cap) {call : StrBufCall} {err : ErrorCode}
    (h : (builderCall t call).2 = .code err) (herr : err ≠ .ok) :
  (builderCall t call).1 = t
  := by
  cases call with
  | append piece realloc =>
      cases t with
      | none => rfl
      | some b =>
          cases h
          apply congrArg some (Builder.appendPiece_failed (hcap b rfl) herr)
  | clear => cases h
  | take malloc => cases t <;> cases h

/-! ### Doubling the capacity -/

/-- The loop ends before the capacity has been doubled once for every bit of a size: it finds
the capacity that is large enough, or that is not a `size_t`. -/
theorem growLoop_eq
    {rounds need cap : ℕ} (hpos : 0 < cap) (hcap : cap ≤ sizeMax)
    (hrounds : sizeMax < cap * 2 ^ rounds) :
  growLoop rounds need cap = some (if doubled cap need > sizeMax then .error .overflow
    else .ok (doubled cap need))
  := by
  induction rounds generalizing cap with
  | zero => omega
  | succ rounds ih =>
      rw [growLoop]
      split
      case isFalse hge => rw [doubled_of_le hpos (by omega), if_neg (by omega)]
      case isTrue hlt =>
        have hdouble := self_le_doubled (cap * 2) need
        rw [doubled_of_lt hpos hlt]
        split
        case isTrue => rw [if_pos (by omega)]
        case isFalse =>
          rw [mulSize_of_le (by omega), Option.bind_some]
          apply ih (by omega) (by omega)
          rw [mul_assoc, ← pow_succ']
          exact hrounds

/-! ### The text in the builder -/

/-- The builder has storage, which holds the text and a zero byte after it. -/
structure StrBufRepr (sb : StrBuf) (b : Builder) : Prop where
  data_eq : ∃ data, sb.data = some data ∧ data.length = b.cap
    ∧ data.take (b.text.length + 1) = b.text ++ [0]
  len_eq : sb.len = b.text.length
  cap_eq : sb.cap = b.cap
  len_lt : b.text.length < b.cap
  cap_le : b.cap ≤ sizeMax

/-- The builder holds the text, or has no storage. -/
def StrBufRel (sb : StrBuf) : Option Builder → Prop
  | none => sb = { data := none, len := 0, cap := 0 }
  | some b => StrBufRepr sb b

theorem StrBufRepr.init (sb : StrBuf) (malloc : Malloc) :
  ∃ sb' code, strbufInit sb malloc = some (sb', code)
    ∧ ((code = .ok ∧ malloc.block strbufInitialCap ≠ none
        ∧ StrBufRepr sb' ⟨[], strbufInitialCap⟩)
      ∨ (code = .nomem ∧ malloc.block strbufInitialCap = none
        ∧ sb' = { sb with data := none }))
  := by
  rw [strbufInit]
  cases hblock : malloc.block strbufInitialCap with
  | none => exact ⟨_, _, rfl, .inr ⟨rfl, rfl, rfl⟩⟩
  | some data =>
      have hlength := malloc.length_block hblock
      have hroom : 0 + [(0 : Byte)].length ≤ data.length := by
        rw [hlength]
        decide
      obtain ⟨data', hwrite, hwrote⟩ := Buffer.exists_write data 0 [0] hroom
      simp only [hwrite, Option.map_some]
      refine ⟨_, _, rfl, .inl ⟨rfl, Option.some_ne_none _, ?_⟩⟩
      exact {
        data_eq := ⟨data', rfl, hwrote.length_eq.trans hlength, hwrote.take_eq⟩
        len_eq := rfl
        cap_eq := rfl
        len_lt := by decide
        cap_le := by decide }

/-- Room for more bytes is made, or the call fails. -/
theorem StrBufRepr.ensure (h : StrBufRepr sb b) (extra : ℕ) (realloc : Realloc) :
  ∃ sb', ensure sb extra realloc = some (sb', (b.reserve extra realloc.isSome).2)
    ∧ StrBufRepr sb' (b.reserve extra realloc.isSome).1
  := by
  obtain ⟨data, hdata, hlength, htake⟩ := h.data_eq
  have hlt := h.len_lt
  have hle := h.cap_le
  have hpos : 0 < b.cap := Nat.zero_lt_of_lt hlt
  have hneed := le_doubled hpos (b.text.length + extra + 1)
  simp only [CTemplate.ensure, Builder.reserve]
  rw [h.len_eq, h.cap_eq, subSize_of_le (by omega), Option.bind_some, subSize_of_le (by omega),
    Option.bind_some]
  split
  case isTrue hover =>
    rw [if_pos (by omega)]
    exact ⟨sb, rfl, h⟩
  case isFalse hfits =>
  rw [addSize_of_le (by omega), Option.bind_some, addSize_of_le (by omega), Option.bind_some]
  split
  case isTrue hroom =>
    rw [doubled_of_le hpos hroom, if_neg (by omega), if_pos (.inl rfl)]
    exact ⟨sb, rfl, h⟩
  case isFalse hfull =>
  have hbits : sizeMax < b.cap * 2 ^ sizeBits := by
    apply Nat.lt_of_lt_of_le _ (Nat.le_mul_of_pos_left _ hpos)
    decide
  rw [growLoop_eq hpos hle hbits]
  by_cases hcap : doubled b.cap (b.text.length + extra + 1) > sizeMax
  · rw [if_pos hcap, if_pos hcap]
    exact ⟨sb, rfl, h⟩
  rw [if_neg hcap, if_neg hcap]
  cases realloc with
  | none =>
      rw [if_neg (by simp; omega)]
      exact ⟨sb, rfl, h⟩
  | some junk =>
      rw [if_pos (.inr rfl)]
      refine ⟨_, rfl, ?_⟩
      rw [hdata, Option.getD_some]
      have hlarger : data.length ≤ doubled b.cap (b.text.length + extra + 1) := by
        rw [hlength]
        apply self_le_doubled
      have htext : b.text.length + 1 ≤ data.length := by
        rw [hlength]
        exact hlt
      exact {
        data_eq := by
          refine ⟨_, rfl, length_reallocated _ _ _, ?_⟩
          rw [← Nat.min_eq_left htext, ← List.take_take, take_reallocated hlarger, htake]
        len_eq := rfl
        cap_eq := rfl
        len_lt := by dsimp only; omega
        cap_le := Nat.le_of_not_lt hcap }

/-- The piece is in the builder when it and a zero byte were written behind the text. -/
theorem StrBufRepr.wrote
    (h : StrBufRepr sb b) {data data' piece : List Byte} (hdata : sb.data = some data)
    (hwrote : Buffer.Wrote data b.text.length (piece ++ [0]) data')
    (hroom : b.text.length + piece.length < b.cap) :
  StrBufRepr { sb with data := some data', len := b.text.length + piece.length }
    { b with text := b.text ++ piece }
  := by
  obtain ⟨data₀, hdata₀, hlength, htake⟩ := h.data_eq
  obtain rfl := Option.some.inj (hdata.symm.trans hdata₀)
  have hfront : data.take b.text.length = b.text := by
    rw [← Nat.min_eq_left (Nat.le_succ b.text.length), ← List.take_take, htake]
    apply List.take_left
  constructor
  · refine ⟨data', rfl, hwrote.length_eq.trans hlength, ?_⟩
    have hwritten := hwrote.take_eq
    rw [hfront, List.length_append, ← Nat.add_assoc, ← List.append_assoc] at hwritten
    rw [List.length_append]
    exact hwritten
  · exact (List.length_append).symm
  · exact h.cap_eq
  · rw [List.length_append]
    exact hroom
  · exact h.cap_le

/-- A piece for which there is room is written behind the text. -/
theorem StrBufRepr.write (h : StrBufRepr sb b) (piece : List Byte)
    (hroom : b.text.length + piece.length < b.cap) :
  ∃ data data', sb.data = some data
    ∧ Buffer.write data b.text.length (piece ++ [0]) = some data'
    ∧ StrBufRepr { sb with data := some data', len := b.text.length + piece.length }
        { b with text := b.text ++ piece }
  := by
  obtain ⟨data, hdata, hlength, -⟩ := h.data_eq
  have hend : b.text.length + (piece ++ [0]).length ≤ data.length := by
    rw [hlength, List.length_append, List.length_singleton]
    exact hroom
  obtain ⟨data', hwrite, hwrote⟩ := Buffer.exists_write data b.text.length (piece ++ [0]) hend
  exact ⟨data, data', hdata, hwrite, h.wrote hdata hwrote hroom⟩

theorem StrBufRepr.copy (h : StrBufRepr sb b) (piece : List Byte)
    (hroom : b.text.length + piece.length < b.cap) :
  ∃ sb', strbufCopy sb piece piece.length = some (sb', .ok)
    ∧ StrBufRepr sb' { b with text := b.text ++ piece }
  := by
  obtain ⟨data, data', hdata, hwrite, h'⟩ := h.write piece hroom
  have hcap := h.cap_le
  rw [← Buffer.write_bind_write, Option.bind_eq_some_iff] at hwrite
  obtain ⟨data₁, hpiece, hzero⟩ := hwrite
  rw [strbufCopy, hdata, Option.bind_some, h.len_eq, hpiece, Option.bind_some,
    addSize_of_le (by omega), Option.bind_some, hzero]
  exact ⟨_, rfl, h'⟩

/-- Room is made for a piece, and it is appended by what follows, or the call fails. -/
theorem StrBufRepr.append
    (h : StrBufRepr sb b) (piece : List Byte) (realloc : Realloc)
    (next : StrBuf → Option (StrBuf × ErrorCode))
    (hnext : ∀ {sb b}, StrBufRepr sb b → b.text.length + piece.length < b.cap →
      ∃ sb', next sb = some (sb', .ok) ∧ StrBufRepr sb' { b with text := b.text ++ piece }) :
  ∃ sb', ((CTemplate.ensure sb piece.length realloc).bind fun (sb, err) =>
      if err ≠ .ok then some (sb, err) else next sb)
        = some (sb', (b.append piece realloc.isSome).2)
    ∧ StrBufRepr sb' (b.append piece realloc.isSome).1
  := by
  obtain ⟨sb₁, hensure, h₁⟩ := h.ensure piece.length realloc
  simp only [Builder.append]
  rw [hensure, Option.bind_some]
  rcases b.reserve_cases (Nat.zero_lt_of_lt h.len_lt) piece.length realloc.isSome with
    ⟨hok, htext, hroom⟩ | ⟨hfailed, -⟩
  · simp only [hok, ne_eq, not_true_eq_false, if_false, if_true]
    apply hnext h₁
    rw [htext]
    exact hroom
  · simp only [ne_eq, hfailed, not_false_eq_true, if_true, if_false]
    exact ⟨sb₁, rfl, h₁⟩

theorem StrBufRepr.data_ne_none (h : StrBufRepr sb b) :
  sb.data ≠ none
  := by
  obtain ⟨data, hdata, -⟩ := h.data_eq
  rw [hdata]
  apply Option.some_ne_none

/-- Bytes are appended by `strbuf_append_n`. -/
theorem StrBufRepr.appendN
    (h : StrBufRepr sb b) {s : Option (List Byte)} (realloc : Realloc)
    (hs : ¬ (s = none ∧ (s.getD []).length > 0)) :
  ∃ sb', strbufAppendN sb s (s.getD []).length realloc
      = some (sb', (b.append (s.getD []) realloc.isSome).2)
    ∧ StrBufRepr sb' (b.append (s.getD []) realloc.isSome).1
  := by
  rw [strbufAppendN, if_neg (not_or.mpr ⟨h.data_ne_none, hs⟩)]
  apply h.append (s.getD []) realloc (strbufCopy · (s.getD []) (s.getD []).length)
  intro sb b h hroom
  apply h.copy (s.getD []) hroom

/-- The second pass of `strbuf_appendf`, where there is room for the text. -/
theorem StrBufRepr.format (h : StrBufRepr sb b) (text : Formatted)
    (hroom : b.text.length + text.1.length < b.cap) :
  ∃ sb', strbufFormat sb text = some (sb', .ok)
    ∧ StrBufRepr sb' { b with text := b.text ++ text.1 }
  := by
  obtain ⟨data, data', hdata, hwrite, h'⟩ := h.write text.1 hroom
  have hcap := h.cap_le
  rw [strbufFormat, hdata, Option.bind_some, addSize_of_le (by omega), Option.bind_some, vsnprintf,
    if_neg (Nat.succ_ne_zero _), Nat.add_sub_cancel, List.take_length, h.len_eq, hwrite,
    Option.bind_some, addSize_of_le (by omega)]
  exact ⟨_, rfl, h'⟩

/-- A text is appended by `strbuf_appendf`. -/
theorem StrBufRepr.appendf (h : StrBufRepr sb b) (text : Formatted) (realloc : Realloc) :
  ∃ sb', strbufAppendf sb true (some text) realloc
      = some (sb', (b.append text.1 realloc.isSome).2)
    ∧ StrBufRepr sb' (b.append text.1 realloc.isSome).1
  := by
  have hvalid : ¬ (sb.data = none ∨ (!true) = true) := by
    rw [not_or]
    exact ⟨h.data_ne_none, by decide⟩
  rw [strbufAppendf, if_neg hvalid]
  apply h.append text.1 realloc (strbufFormat · text)
  intro sb b h hroom
  apply h.format text hroom

/-- A function that appends does what it does to the text. -/
theorem StrBufRepr.appendPiece
    (h : StrBufRepr sb b) (piece : StrBufPiece) (realloc : Realloc) :
  ∃ sb', strbufAppendPiece sb realloc piece = some (sb', (b.appendPiece piece realloc.isSome).2)
    ∧ StrBufRepr sb' (b.appendPiece piece realloc.isSome).1
  := by
  cases piece with
  | str s =>
      cases s with
      | none => exact ⟨sb, rfl, h⟩
      | some s => apply h.appendN (s := some s.1) realloc (by simp)
  | bytes s =>
      obtain ⟨bytes, n, hn⟩ := s
      cases bytes with
      | none =>
          by_cases hpos : n > 0
          · use sb
            rw [strbufAppendPiece, strbufAppendN, if_pos (.inr ⟨rfl, hpos⟩), Builder.appendPiece,
              StrBufPiece.text, if_pos ⟨rfl, hpos⟩]
            exact ⟨rfl, h⟩
          · obtain rfl : n = 0 := by omega
            apply h.appendN (s := none) realloc (by simp)
      | some s =>
          obtain rfl := hn s rfl
          apply h.appendN (s := some s) realloc (by simp)
  | char c => apply h.appendN (s := some [c]) realloc (by simp)
  | formatted fmt text =>
      cases fmt with
      | false =>
          have hnull : strbufAppendf sb false text realloc = some (sb, .invalidArg) := by
            cases text <;> exact if_pos (.inr rfl)
          exact ⟨sb, hnull, h⟩
      | true =>
          cases text with
          | none =>
              have hfailed : strbufAppendf sb true none realloc = some (sb, .invalidArg) :=
                ite_self _
              exact ⟨sb, hfailed, h⟩
          | some text => apply h.appendf text realloc

theorem StrBufRepr.clear (h : StrBufRepr sb b) :
  ∃ sb', strbufClear sb = some sb' ∧ StrBufRepr sb' { b with text := [] }
  := by
  obtain ⟨data, hdata, hlength, -⟩ := h.data_eq
  have hpos : 0 < b.cap := Nat.zero_lt_of_lt h.len_lt
  have hroom : 0 + [(0 : Byte)].length ≤ data.length := by
    rw [hlength]
    exact hpos
  obtain ⟨data', hwrite, hwrote⟩ := Buffer.exists_write data 0 [0] hroom
  simp only [strbufClear, hdata, hwrite, Option.map_some]
  refine ⟨_, rfl, ?_⟩
  exact {
    data_eq := ⟨data', rfl, hwrote.length_eq.trans hlength, hwrote.take_eq⟩
    len_eq := rfl
    cap_eq := h.cap_eq
    len_lt := hpos
    cap_le := h.cap_le }

/-- The text is taken; the builder is empty afterwards, or has no storage. -/
theorem StrBufRepr.take (h : StrBufRepr sb b) (malloc : Malloc) :
  ∃ sb' out, strbufTake sb malloc = some (sb', some out)
    ∧ out.take (sb.len + 1) = b.text ++ [0]
    ∧ StrBufRel sb' ((malloc.block strbufInitialCap).map fun _ => ⟨[], strbufInitialCap⟩)
  := by
  obtain ⟨data, hdata, -, htake⟩ := h.data_eq
  rw [← h.len_eq] at htake
  simp only [strbufTake, hdata]
  obtain ⟨sb₁, err, hinit, hcase⟩ :=
    StrBufRepr.init { data := none, len := 0, cap := 0 } malloc
  rw [hinit]
  rcases hcase with ⟨rfl, hblock, h₁⟩ | ⟨rfl, hblock, rfl⟩
  · obtain ⟨block, hblock⟩ := Option.ne_none_iff_exists'.mp hblock
    rw [hblock]
    exact ⟨sb₁, data, rfl, htake, h₁⟩
  · rw [hblock]
    exact ⟨_, data, rfl, htake, rfl⟩

/-! ### Runs -/

/-- A call returns what it returns on the text. -/
theorem StrBufRel.step (h : StrBufRel sb t) (call : StrBufCall) :
  ∃ sb', strbufStep sb call = some (sb', some (builderCall t call).2)
    ∧ StrBufRel sb' (builderCall t call).1
  := by
  cases t with
  | none =>
      obtain rfl := h
      cases call with
      | append piece realloc =>
          refine ⟨_, ?_, rfl⟩
          rw [strbufStep]
          cases piece with
          | str s => cases s <;> rfl
          | bytes s => rfl
          | char c => rfl
          | formatted fmt text => cases fmt <;> cases text <;> rfl
      | clear => exact ⟨_, rfl, rfl⟩
      | take malloc => exact ⟨_, rfl, rfl⟩
  | some b =>
      cases call with
      | append piece realloc =>
          obtain ⟨sb', happend, h'⟩ := StrBufRepr.appendPiece h piece realloc
          use sb'
          rw [strbufStep, happend]
          exact ⟨rfl, h'⟩
      | clear =>
          obtain ⟨sb', hclear, h'⟩ := StrBufRepr.clear h
          use sb'
          rw [strbufStep, hclear]
          exact ⟨rfl, h'⟩
      | take malloc =>
          obtain ⟨sb', out, htake, hout, h'⟩ := StrBufRepr.take h malloc
          use sb'
          rw [strbufStep, htake]
          simp only [Option.map_some, hout]
          exact ⟨rfl, h'⟩

/-- A builder that is related to a text with storage has the text in it, with a zero byte after
it. -/
theorem StrBufRel.of_data (h : StrBufRel sb t) {data : List Byte} (hdata : sb.data = some data) :
  ∃ b, t = some b ∧ data.take sb.len = b.text ∧ data[sb.len]? = some 0 ∧ sb.len = b.text.length
    ∧ sb.cap = b.cap ∧ sb.len < sb.cap ∧ data.length = sb.cap
  := by
  cases t with
  | none =>
      obtain rfl := h
      cases hdata
  | some b =>
      obtain ⟨data₀, hdata₀, hlength, htake⟩ := StrBufRepr.data_eq h
      obtain rfl := Option.some.inj (hdata.symm.trans hdata₀)
      have hlen := StrBufRepr.len_eq h
      have hcap := StrBufRepr.cap_eq h
      have hlt := StrBufRepr.len_lt h
      rw [← hlen] at htake hlt
      rw [← hcap] at hlength hlt
      refine ⟨b, rfl, ?_, ?_, hlen, hcap, hlt, hlength⟩
      · rw [← Nat.min_eq_left (Nat.le_succ sb.len), ← List.take_take, htake, hlen]
        apply List.take_left
      · rw [← List.getElem?_take_of_lt (Nat.lt_succ_self sb.len), htake, hlen]
        apply List.getElem?_concat_length

theorem StrBufRel.of_null (h : StrBufRel sb t) (hnone : sb.data = none) :
  t = none ∧ sb = { data := none, len := 0, cap := 0 }
  := by
  cases t with
  | none => exact ⟨rfl, h⟩
  | some b => exact absurd hnone (StrBufRepr.data_ne_none h)

/-- Calls on a builder from `strbuf_init`, any of whose allocations may fail, return what they
return on a text that is empty at first, and no size that they compute wraps around.  A builder
with storage holds the text, followed by a zero byte; one without is destroyed.  An append that
fails leaves the text and the capacity as they are. -/
theorem strbuf_text
    {sb₀ : StrBuf} {malloc : Malloc} (hinit : strbufInit sb₀ malloc = some (sb, .ok))
    (calls : List StrBufCall) :
  ∃ sb' t, StateMachine.run strbufStep sb calls
      = some (sb', (StateMachine.callAll builderCall (some ⟨[], strbufInitialCap⟩) calls).2)
    ∧ t = (StateMachine.callAll builderCall (some ⟨[], strbufInitialCap⟩) calls).1
    ∧ (∀ data, sb'.data = some data → ∃ b, t = some b ∧ data.take sb'.len = b.text
      ∧ data[sb'.len]? = some 0 ∧ sb'.len = b.text.length ∧ sb'.cap = b.cap ∧ sb'.len < sb'.cap
      ∧ data.length = sb'.cap)
    ∧ (sb'.data = none → t = none ∧ sb' = { data := none, len := 0, cap := 0 })
    ∧ ∀ call err, (builderCall t call).2 = .code err → err ≠ .ok → (builderCall t call).1 = t
  := by
  have h₀ : StrBufRel sb (some ⟨[], strbufInitialCap⟩) := by
    obtain ⟨sb', code, hinit', hcase⟩ := StrBufRepr.init sb₀ malloc
    rw [hinit] at hinit'
    cases hinit'
    rcases hcase with ⟨-, -, h⟩ | ⟨hcode, -⟩
    · exact h
    · cases hcode
  obtain ⟨sb', hrun, h⟩ := StateMachine.run_of_rel StrBufRel.step h₀ calls
  refine ⟨sb', _, hrun, rfl, fun data => h.of_data, h.of_null, ?_⟩
  intro call err
  apply builderCall_failed
  intro b hb
  rw [Option.mem_def.mp hb] at h
  apply Nat.zero_lt_of_lt (StrBufRepr.len_lt h)

/-- Three pieces are appended, then the text is taken. -/
theorem strbuf_text_run :
  ∃ sb sb', strbufInit { data := none, len := 0, cap := 0 } (.upTo 64) = some (sb, .ok)
    ∧ StateMachine.run strbufStep sb
        [.append (.str (some ⟨[97, 98], by decide⟩)) none, .append (.char 99) none,
          .append (.formatted true (some ⟨[49], by decide⟩)) none, .append (.str none) none,
          .take (.upTo 64), .take (.upTo 0), .append (.char 100) none]
      = some (sb', [.code .ok, .code .ok, .code .ok, .code .invalidArg,
          .taken (some [97, 98, 99, 49, 0]), .taken (some [0]), .code .invalidArg])
  := by
  obtain ⟨sb', t, hrun, -⟩ := strbuf_text
    (show strbufInit { data := none, len := 0, cap := 0 } (.upTo 64) = some (_, .ok) from rfl)
    [.append (.str (some ⟨[97, 98], by decide⟩)) none, .append (.char 99) none,
      .append (.formatted true (some ⟨[49], by decide⟩)) none, .append (.str none) none,
      .take (.upTo 64), .take (.upTo 0), .append (.char 100) none]
  exact ⟨_, sb', rfl, hrun⟩

end CTemplate

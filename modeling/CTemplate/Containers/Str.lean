import CTemplate.Core.Ctype
import CTemplate.Core.Error
import CTemplate.Library.Scan
import Mathlib.Data.Int.Notation

/-!
# String views

`StrView` and the conversion of a view to a number, of `containers/str.c`.  The call of
`strtol` follows the C standard: it skips white space, takes an optional sign and the
longest run of decimal digits, and clamps a value that does not fit in a `long`.

`sv_parse_long` hands `strtol` a copy of the view that ends at a NUL byte.  It reads the
view as a whole exactly when the view is what `Strict` says.
-/

namespace CTemplate

open Scan

/-! ### Views -/

/-- `StrView`: the bytes of a view, or a null pointer. -/
structure StrView where
  data : Option (List Byte)
  deriving DecidableEq

/-- The bytes of a view, none for a null pointer. -/
def StrView.bytes (sv : StrView) : List Byte :=
  sv.data.getD []

/-- The length of a view. -/
def StrView.len (sv : StrView) : ℕ :=
  sv.bytes.length

/-- `sv_to_cstr`, for a buffer of `cap` bytes: the bytes written to it. -/
def svToCstr (sv : StrView) (cap : ℕ) : Except ErrorCode (List Byte) :=
  if sv.len > 0 ∧ sv.data = none then .error .invalidArg
  else if cap < toSize (sv.len + 1) then .error .overflow
  else .ok (sv.bytes ++ [0])

/-! ### Numbers in text -/

/-- `LONG_MIN`, for a `long` of 64 bits. -/
def longMin : ℤ := -9223372036854775808

/-- `LONG_MAX`, for a `long` of 64 bits. -/
def longMax : ℤ := 9223372036854775807

/-- The sign of a number, which may be missing. -/
inductive Sign where
  | none
  | plus
  | minus
  deriving DecidableEq

def Sign.bytes : Sign → List Byte
  | none => []
  | plus => [43]
  | minus => [45]

/-- A number with a sign. -/
def Sign.apply : Sign → ℕ → ℤ
  | minus, n => -n
  | _, n => n

/-- The sign at the start of a text, and the text after it. -/
def takeSign : List Byte → Sign × List Byte
  | 43 :: s => (.plus, s)
  | 45 :: s => (.minus, s)
  | s => (.none, s)

/-- What a call of `strtol` gives: its value, the text from `*end` on, and whether it set
`errno` to `ERANGE`. -/
structure Strtol where
  value : ℤ
  rest : List Byte
  erange : Bool
  deriving DecidableEq

/-- The result for a number followed by a text. -/
def Strtol.ofNumber (v : ℤ) (rest : List Byte) : Strtol :=
  if v < longMin then ⟨longMin, rest, true⟩
  else if v > longMax then ⟨longMax, rest, true⟩
  else ⟨v, rest, false⟩

/-- `strtol` with base 10. -/
def strtol (s : List Byte) : Strtol :=
  let (sign, t) := takeSign (s.dropWhile isSpace)
  let digits := t.takeWhile isDigit
  if digits = [] then ⟨0, s, false⟩
  else .ofNumber (sign.apply (decimalValue digits)) (t.dropWhile isDigit)

/-- `sv_parse_long`, for a pointer to a `long` with value `out`: the code returned, and the
value of the `long` after the call. -/
def svParseLong (sv : StrView) (out : ℤ) : ErrorCode × ℤ :=
  if sv.len = 0 ∨ sv.len ≥ 24 then
    (if sv.len = 0 then .invalidArg else .overflow, out)
  else
    match svToCstr sv 24 with
    | .error err => (err, out)
    | .ok buf =>
        let r := strtol buf
        if r.erange then (.overflow, out)
        else if r.rest.length = buf.length ∨ r.rest.head? ≠ some 0 then (.invalidArg, out)
        else (.ok, r.value)

/-- An optional sign and at least one decimal digit. -/
structure Numeral where
  sign : Sign
  digits : List Byte
  digits_ne_nil : digits ≠ []
  isDigit_of_mem : ∀ c ∈ digits, isDigit c = true

/-- The text of a numeral. -/
def Numeral.bytes (n : Numeral) : List Byte :=
  n.sign.bytes ++ n.digits

/-- The integer that a numeral denotes. -/
def Numeral.value (n : Numeral) : ℤ :=
  n.sign.apply (decimalValue n.digits)

/-- The value fits in a `long`. -/
def Numeral.Fits (n : Numeral) : Prop :=
  longMin ≤ n.value ∧ n.value ≤ longMax

/-- The text `s` is white space `ws`, the numeral, and a text `rest` that does not start
with a digit. -/
structure Numeral.ReadFrom (n : Numeral) (s ws rest : List Byte) : Prop where
  eq_append : s = ws ++ (n.bytes ++ rest)
  isSpace_of_mem : ∀ c ∈ ws, isSpace c = true
  stops : Stops isDigit rest

/-- The result of reading a view as a whole: its value when it is a numeral whose value
fits, and otherwise an error and no value. -/
structure ParsesWhole (s : List Byte) (out : ℤ) (result : ErrorCode × ℤ) : Prop where
  ok : ∀ n : Numeral, s = n.bytes → n.Fits → result = (.ok, n.value)
  overflow : ∀ n : Numeral, s = n.bytes → ¬ n.Fits → result = (.overflow, out)
  invalid : (∀ n : Numeral, s ≠ n.bytes) → result = (.invalidArg, out)

/-- A text is short, unless it is a numeral whose value does not fit, and a numeral that it
starts with after white space is either the whole text, or fits and is followed by a byte
other than NUL. -/
structure Strict (s : List Byte) : Prop where
  short : 24 ≤ s.length → ∃ n : Numeral, s = n.bytes ∧ ¬ n.Fits
  whole : ∀ (n : Numeral) (ws rest : List Byte), n.ReadFrom s ws rest →
    (ws = [] ∧ rest = []) ∨ (n.Fits ∧ ∃ c ∈ rest.head?, c ≠ 0)

/-! ### What strtol reads -/

theorem takeSign_eq (s : List Byte) :
  s = (takeSign s).1.bytes ++ (takeSign s).2
  := by
  unfold takeSign
  split <;> rfl

/-- The numeral at the start of a text begins with its sign. -/
theorem Numeral.takeSign_bytes (n : Numeral) (rest : List Byte) :
  takeSign (n.bytes ++ rest) = (n.sign, n.digits ++ rest)
  := by
  obtain ⟨sign, digits, hne, hdigits⟩ := n
  cases sign with
  | plus => rfl
  | minus => rfl
  | none =>
      obtain ⟨c, digits, rfl⟩ := List.exists_cons_of_ne_nil hne
      have hc := hdigits c List.mem_cons_self
      have hplus : c ≠ 43 := by
        rintro rfl
        exact absurd hc (by decide)
      have hminus : c ≠ 45 := by
        rintro rfl
        exact absurd hc (by decide)
      simp only [bytes, Sign.bytes, List.nil_append, List.cons_append]
      rw [takeSign]
      · intro t ht
        apply hplus (List.cons.inj ht).1
      · intro t ht
        apply hminus (List.cons.inj ht).1

/-- A numeral does not start with white space. -/
theorem Numeral.stops_isSpace (n : Numeral) (rest : List Byte) :
  Stops isSpace (n.bytes ++ rest)
  := by
  obtain ⟨sign, digits, hne, hdigits⟩ := n
  cases sign with
  | plus => apply stops_cons rfl
  | minus => apply stops_cons rfl
  | none =>
      obtain ⟨c, digits, rfl⟩ := List.exists_cons_of_ne_nil hne
      apply stops_cons
      apply not_isSpace_of_isDigit (hdigits c List.mem_cons_self)

/-- `strtol` reads the numeral after white space. -/
theorem Numeral.ReadFrom.strtol_eq
    {n : Numeral} {s ws rest : List Byte} (h : n.ReadFrom s ws rest) :
  strtol s = .ofNumber n.value rest
  := by
  have hspace : s.dropWhile isSpace = n.bytes ++ rest := by
    rw [h.eq_append]
    apply dropWhile_eq_rest h.isSpace_of_mem (n.stops_isSpace rest)
  have htake := takeWhile_eq_self n.isDigit_of_mem h.stops
  have hdrop := dropWhile_eq_rest n.isDigit_of_mem h.stops
  simp only [strtol, hspace, n.takeSign_bytes, htake, hdrop, if_neg n.digits_ne_nil]
  rfl

/-- Where `strtol` finds no numeral, it reads nothing. -/
theorem strtol_of_no_numeral
    {s : List Byte} (h : ∀ (n : Numeral) ws rest, ¬ n.ReadFrom s ws rest) :
  strtol s = ⟨0, s, false⟩
  := by
  generalize ht : s.dropWhile isSpace = t
  have hs : s = s.takeWhile isSpace ++ t := by
    rw [← ht, List.takeWhile_append_dropWhile]
  have hsign := takeSign_eq t
  simp only [strtol, ht]
  by_cases hdigits : (takeSign t).2.takeWhile isDigit = []
  · rw [if_pos hdigits]
  · -- the run of digits would be a numeral
    let n : Numeral :=
      ⟨(takeSign t).1, (takeSign t).2.takeWhile isDigit, hdigits, fun _ => of_mem_takeWhile⟩
    have hread : n.ReadFrom s (s.takeWhile isSpace) ((takeSign t).2.dropWhile isDigit) := by
      constructor
      · rw [Numeral.bytes, List.append_assoc, List.takeWhile_append_dropWhile, ← hsign]
        exact hs
      · intro c
        apply of_mem_takeWhile
      · apply stops_dropWhile
    exact absurd hread (h _ _ _)

/-- The NUL byte at the end of a copy of a text comes after the numeral. -/
theorem Numeral.readFrom_concat_iff {n : Numeral} {s ws rest : List Byte} :
  n.ReadFrom (s ++ [0]) ws rest ↔ ∃ t, rest = t ++ [0] ∧ n.ReadFrom s ws t
  := by
  constructor
  · rintro ⟨heq, hspace, hstops⟩
    rcases List.eq_nil_or_concat rest with rfl | ⟨t, c, rfl⟩
    · -- the last byte of a numeral is a digit
      obtain ⟨ds, c, hc⟩ := List.eq_nil_or_concat n.digits |>.resolve_left n.digits_ne_nil
      rw [List.append_nil, Numeral.bytes, hc, List.concat_eq_append, ← List.append_assoc,
        ← List.append_assoc] at heq
      obtain ⟨-, hlast⟩ := List.append_inj' heq rfl
      have hdigit := n.isDigit_of_mem c (by simp [hc])
      rw [← (List.cons.inj hlast).1] at hdigit
      exact absurd hdigit (by decide)
    · rw [List.concat_eq_append] at *
      rw [← List.append_assoc, ← List.append_assoc] at heq
      obtain ⟨hs, hlast⟩ := List.append_inj' heq rfl
      obtain rfl := (List.cons.inj hlast).1
      use t, rfl
      constructor
      · rw [hs, List.append_assoc]
      · exact hspace
      · intro c hc
        apply hstops c
        rw [Option.mem_def] at hc ⊢
        rw [List.head?_append, hc, Option.some_or]
  · rintro ⟨t, rfl, heq, hspace, hstops⟩
    constructor
    · rw [heq, List.append_assoc, List.append_assoc]
    · exact hspace
    · apply hstops.append
      intro _
      apply stops_cons rfl

/-! ### Reading a view -/

theorem Numeral.bytes_ne_nil (n : Numeral) :
  n.bytes ≠ []
  := by
  rw [bytes, Ne, List.append_eq_nil_iff]
  intro h
  apply n.digits_ne_nil h.2

/-- A numeral reads itself. -/
theorem Numeral.readFrom_self (n : Numeral) :
  n.ReadFrom n.bytes [] []
  := by
  constructor
  · rw [List.append_nil, List.nil_append]
  · simp
  · apply stops_nil

theorem Strtol.ofNumber_of_fits {n : Numeral} (h : n.Fits) (rest : List Byte) :
  ofNumber n.value rest = ⟨n.value, rest, false⟩
  := by
  rw [ofNumber, if_neg (Int.not_lt.mpr h.1), if_neg (Int.not_lt.mpr h.2)]

theorem Strtol.erange_ofNumber {n : Numeral} (h : ¬ n.Fits) (rest : List Byte) :
  (ofNumber n.value rest).erange = true
  := by
  rw [ofNumber]
  split
  · rfl
  split
  · rfl
  case isFalse hmin hmax =>
  exact absurd ⟨Int.not_lt.mp hmin, Int.not_lt.mp hmax⟩ h

theorem Strtol.rest_ofNumber (v : ℤ) (rest : List Byte) :
  (ofNumber v rest).rest = rest
  := by
  rw [ofNumber]
  split
  · rfl
  split <;> rfl

/-- A text that is a numeral contains no other numeral after white space. -/
theorem Numeral.readFrom_bytes_iff {n m : Numeral} {ws rest : List Byte} :
  m.ReadFrom n.bytes ws rest ↔ m.bytes = n.bytes ∧ ws = [] ∧ rest = []
  := by
  constructor
  · intro h
    have hrest : rest = [] := by
      rw [← Strtol.rest_ofNumber m.value rest, ← h.strtol_eq, n.readFrom_self.strtol_eq,
        Strtol.rest_ofNumber]
    subst hrest
    have heq := h.eq_append
    rw [List.append_nil] at heq
    have hws : ws = [] := by
      cases ws with
      | nil => rfl
      | cons c ws =>
          have hstop := n.stops_isSpace [] c
          rw [List.append_nil, heq] at hstop
          rw [h.isSpace_of_mem c List.mem_cons_self] at hstop
          exact absurd (hstop rfl) (by decide)
    subst hws
    use heq.symm, rfl
  · rintro ⟨h, rfl, rfl⟩
    rw [← h]
    apply m.readFrom_self

/-- Numerals with the same text denote the same number. -/
theorem Numeral.value_eq_of_bytes_eq {n m : Numeral} (h : m.bytes = n.bytes) :
  m.value = n.value
  := by
  have hm := m.takeSign_bytes []
  rw [h, n.takeSign_bytes, Prod.mk.injEq, List.append_nil, List.append_nil] at hm
  rw [value, value, hm.1, hm.2]

theorem Numeral.fits_of_bytes_eq {n m : Numeral} (h : m.bytes = n.bytes) (hn : n.Fits) :
  m.Fits
  := by
  rwa [Fits, value_eq_of_bytes_eq h]

/-- A short view is copied and given to `strtol`. -/
theorem svParseLong_of_short
    {sv : StrView} {out : ℤ} (hne : sv.bytes ≠ []) (hlen : sv.bytes.length < 24) :
  svParseLong sv out
    = if (strtol (sv.bytes ++ [0])).erange then (.overflow, out)
      else if (strtol (sv.bytes ++ [0])).rest.length = (sv.bytes ++ [0]).length
          ∨ (strtol (sv.bytes ++ [0])).rest.head? ≠ some 0 then (.invalidArg, out)
      else (.ok, (strtol (sv.bytes ++ [0])).value)
  := by
  have hpos : sv.len ≠ 0 := by
    rw [StrView.len]
    exact fun h => hne (List.length_eq_zero_iff.mp h)
  have hdata : ¬ (sv.len > 0 ∧ sv.data = none) := by
    rintro ⟨-, hnone⟩
    apply hne
    rw [StrView.bytes, hnone]
    rfl
  have hcap : ¬ 24 < toSize (sv.len + 1) := by
    rw [toSize_of_le] <;> simp only [sizeMax, StrView.len] <;> omega
  have hbig : ¬ sv.len ≥ 24 := Nat.not_le_of_lt hlen
  rw [svParseLong, if_neg (not_or.mpr ⟨hpos, hbig⟩), svToCstr, if_neg hdata, if_neg hcap]

section Short

variable {sv : StrView} {out : ℤ} {n : Numeral} {ws rest : List Byte}

theorem svParseLong_of_not_fits
    (hlen : sv.bytes.length < 24) (h : n.ReadFrom sv.bytes ws rest) (hfits : ¬ n.Fits) :
  svParseLong sv out = (.overflow, out)
  := by
  have hne : sv.bytes ≠ [] := by
    rw [h.eq_append]
    simp [n.bytes_ne_nil]
  have hread := Numeral.readFrom_concat_iff.mpr ⟨rest, rfl, h⟩
  rw [svParseLong_of_short hne hlen, hread.strtol_eq,
    if_pos (Strtol.erange_ofNumber hfits (rest ++ [0]))]

/-- A number that fits is the result when the end of the view or a NUL byte follows it. -/
theorem svParseLong_of_fits
    (hlen : sv.bytes.length < 24) (h : n.ReadFrom sv.bytes ws rest) (hfits : n.Fits) :
  svParseLong sv out
    = if (rest ++ [0]).head? = some 0 then (.ok, n.value) else (.invalidArg, out)
  := by
  have hne : sv.bytes ≠ [] := by
    rw [h.eq_append]
    simp [n.bytes_ne_nil]
  have hread := Numeral.readFrom_concat_iff.mpr ⟨rest, rfl, h⟩
  have hlt : (rest ++ [0]).length ≠ (sv.bytes ++ [0]).length := by
    have hpos := List.length_pos_of_ne_nil n.bytes_ne_nil
    rw [h.eq_append]
    simp only [List.length_append]
    omega
  rw [svParseLong_of_short hne hlen, hread.strtol_eq, Strtol.ofNumber_of_fits hfits,
    if_neg Bool.false_ne_true]
  by_cases hnul : (rest ++ [0]).head? = some 0
  · rw [if_pos hnul, if_neg (not_or.mpr ⟨hlt, not_not.mpr hnul⟩)]
  · rw [if_neg hnul, if_pos (.inr hnul)]

theorem svParseLong_of_no_numeral
    (hlen : sv.bytes.length < 24) (h : ∀ (n : Numeral) ws rest, ¬ n.ReadFrom sv.bytes ws rest) :
  svParseLong sv out = (.invalidArg, out)
  := by
  by_cases hne : sv.bytes = []
  · have hzero : sv.len = 0 := by
      rw [StrView.len, hne, List.length_nil]
    rw [svParseLong, if_pos (.inl hzero), if_pos hzero]
  · have hread : ∀ (n : Numeral) ws rest, ¬ n.ReadFrom (sv.bytes ++ [0]) ws rest := by
      intro n ws rest hread
      obtain ⟨t, -, ht⟩ := Numeral.readFrom_concat_iff.mp hread
      apply h n ws t ht
    rw [svParseLong_of_short hne hlen, strtol_of_no_numeral hread]
    simp

end Short

theorem svParseLong_of_long {sv : StrView} {out : ℤ} (hlen : 24 ≤ sv.bytes.length) :
  svParseLong sv out = (.overflow, out)
  := by
  have hne : sv.len ≠ 0 := by
    rw [StrView.len]
    omega
  rw [svParseLong, if_pos (.inr hlen), if_neg hne]

/-- A view of 24 bytes or more is read as a whole exactly when it is a numeral whose value
does not fit. -/
theorem parsesWhole_iff_of_long
    {sv : StrView} {out : ℤ} (hlen : 24 ≤ sv.bytes.length) :
  ParsesWhole sv.bytes out (svParseLong sv out) ↔ Strict sv.bytes
  := by
  rw [svParseLong_of_long hlen]
  constructor
  · intro h
    have hnumeral : ∃ n : Numeral, sv.bytes = n.bytes := by
      by_contra hnone
      cases h.invalid (not_exists.mp hnone)
    obtain ⟨n, hn⟩ := hnumeral
    have hfits : ¬ n.Fits := by
      intro hfits
      cases h.ok n hn hfits
    constructor
    · intro _
      use n
    · intro m ws rest hread
      rw [hn, Numeral.readFrom_bytes_iff] at hread
      exact .inl hread.2
  · intro h
    obtain ⟨n, hn, hfits⟩ := h.short hlen
    constructor
    · intro m hm hmfits
      exact absurd (Numeral.fits_of_bytes_eq (hn.symm.trans hm) hmfits) hfits
    · intro m _ _
      rfl
    · intro hnone
      exact absurd hn (hnone n)

/-- A view of fewer than 24 bytes is read as a whole exactly when no numeral in it is taken
for the whole. -/
theorem parsesWhole_iff_of_short
    {sv : StrView} {out : ℤ} (hlen : sv.bytes.length < 24) :
  ParsesWhole sv.bytes out (svParseLong sv out) ↔ Strict sv.bytes
  := by
  constructor
  · intro h
    constructor
    · intro hlong
      omega
    · intro n ws rest hread
      by_cases hnumeral : ∃ m : Numeral, sv.bytes = m.bytes
      · obtain ⟨m, hm⟩ := hnumeral
        rw [hm, Numeral.readFrom_bytes_iff] at hread
        exact .inl hread.2
      · have hresult := h.invalid (not_exists.mp hnumeral)
        have hfits : n.Fits := by
          by_contra hfits
          rw [svParseLong_of_not_fits hlen hread hfits] at hresult
          cases hresult
        rw [svParseLong_of_fits hlen hread hfits] at hresult
        right
        use hfits
        cases rest with
        | nil => cases hresult
        | cons c rest =>
            use c, rfl
            rintro rfl
            cases hresult
  · intro h
    constructor
    · intro n hn hfits
      rw [svParseLong_of_fits hlen (hn ▸ n.readFrom_self) hfits]
      rfl
    · intro n hn hfits
      rw [svParseLong_of_not_fits hlen (hn ▸ n.readFrom_self) hfits]
    · intro hnone
      by_cases hread : ∃ (n : Numeral) (ws rest : List Byte), n.ReadFrom sv.bytes ws rest
      · obtain ⟨n, ws, rest, hread⟩ := hread
        rcases h.whole n ws rest hread with ⟨rfl, rfl⟩ | ⟨hfits, c, hc, hne⟩
        · have heq := hread.eq_append
          rw [List.append_nil, List.nil_append] at heq
          exact absurd heq (hnone n)
        · rw [svParseLong_of_fits hlen hread hfits, if_neg]
          rw [Option.mem_def] at hc
          simp [List.head?_append, hc, hne]
      · apply svParseLong_of_no_numeral hlen
        intro n ws rest hn
        apply hread ⟨n, ws, rest, hn⟩

/-- `sv_parse_long` reads a view as a whole exactly when the view is strict. -/
theorem sv_parse_long_iff (sv : StrView) (out : ℤ) :
  ParsesWhole sv.bytes out (svParseLong sv out) ↔ Strict sv.bytes
  := by
  rcases Nat.lt_or_ge sv.bytes.length 24 with hlen | hlen
  · apply parsesWhole_iff_of_short hlen
  · apply parsesWhole_iff_of_long hlen

/-- White space before the digits of a view is accepted: the view `" 42"` gives 42. -/
theorem sv_parse_long_blank :
  ¬ ParsesWhole [32, 52, 50] 0 (svParseLong ⟨some [32, 52, 50]⟩ 0)
  := by
  intro h
  have hnone : ∀ n : Numeral, [32, 52, 50] ≠ n.bytes := by
    intro n hn
    have hstop := n.stops_isSpace []
    rw [List.append_nil, ← hn] at hstop
    exact absurd (hstop 32 rfl) (by decide)
  have hresult := h.invalid hnone
  exact absurd hresult (by decide)

end CTemplate

import Mathlib.Data.List.TakeWhile
import Mathlib.Data.Nat.Digits.Defs
import Mathlib.Data.UInt

/-!
# Portable pixmaps

The binary format `P6` for pictures in three colors, with samples of one byte.  A file consists of
the letters `P6`, the width, the height and the largest sample as decimal numbers with blanks
before each, one blank more, and the samples, row by row; comments are not read.  What `encode`
writes for a picture, `decode` reads back, whatever follows it, `decode_encode`.
-/

namespace Netpbm

/-- Red, green and blue. -/
abbrev Rgb : Type := UInt8 × UInt8 × UInt8

/-- A picture with samples up to `depth`. -/
structure Pixmap where
  width : ℕ
  height : ℕ
  depth : ℕ
  pixels : List Rgb
  depth_lt : 0 < depth ∧ depth < 256
  length_eq : pixels.length = height * width
  deriving DecidableEq

/-! ### Decimal numbers -/

/-- The blank, the tab, the newline, the vertical tab, the form feed and the carriage return. -/
def isBlank (c : UInt8) : Bool :=
  c == 32 || (9 ≤ c && c ≤ 13)

/-- A decimal digit. -/
def isDecimal (c : UInt8) : Bool :=
  48 ≤ c && c ≤ 57

/-- The digit for a number below ten. -/
def digit (d : ℕ) : UInt8 :=
  UInt8.ofNat (48 + d)

/-- A number in decimal digits, the highest one first. -/
def decimal (n : ℕ) : List UInt8 :=
  if n = 0 then [digit 0] else (Nat.digits 10 n).reverse.map digit

/-- The number that decimal digits denote. -/
def decimalValue (digits : List UInt8) : ℕ :=
  digits.foldl (fun n c => 10 * n + (c.toNat - 48)) 0

theorem toNat_digit {d : ℕ} (hd : d < 10) :
  (digit d).toNat = 48 + d
  := by
  rw [digit, UInt8.toNat_ofNat', Nat.mod_eq_of_lt (by omega)]

theorem isDecimal_digit {d : ℕ} (hd : d < 10) :
  isDecimal (digit d) = true
  := by
  simp only [isDecimal, UInt8.le_iff_toNat_le, toNat_digit hd, Bool.and_eq_true, decide_eq_true_eq,
    UInt8.reduceToNat]
  omega

theorem isDecimal_of_mem {n : ℕ} {c : UInt8} (hc : c ∈ decimal n) :
  isDecimal c = true
  := by
  rw [decimal] at hc
  split at hc
  case isTrue =>
    rw [List.mem_singleton.mp hc]
    rfl
  case isFalse =>
    obtain ⟨d, hd, rfl⟩ := List.mem_map.mp hc
    apply isDecimal_digit
    apply Nat.digits_lt_base (by decide) (List.mem_reverse.mp hd)

theorem decimal_ne_nil (n : ℕ) :
  decimal n ≠ []
  := by
  rw [decimal]
  split
  case isTrue => exact List.cons_ne_nil _ _
  case isFalse hn =>
    rw [Ne, List.map_eq_nil_iff, List.reverse_eq_nil_iff]
    apply Nat.digits_ne_nil_iff_ne_zero.mpr hn

/-- The digits of a number denote it. -/
theorem decimalValue_decimal (n : ℕ) :
  decimalValue (decimal n) = n
  := by
  rw [decimal]
  split
  case isTrue hn =>
    rw [hn]
    rfl
  case isFalse =>
    have hdigits : ∀ ds : List ℕ, (∀ d ∈ ds, d < 10) →
        decimalValue (ds.reverse.map digit) = Nat.ofDigits 10 ds := by
      intro ds hds
      induction ds with
      | nil => rfl
      | cons d ds ih =>
          obtain ⟨hd, hds⟩ := List.forall_mem_cons.mp hds
          rw [List.reverse_cons, List.map_append, decimalValue, List.foldl_append, ← decimalValue,
            ih hds, Nat.ofDigits_cons, List.map_singleton, List.foldl_cons, List.foldl_nil,
            toNat_digit hd, Nat.add_sub_cancel_left, Nat.add_comm]
    rw [hdigits _ (fun d => Nat.digits_lt_base (by decide)), Nat.ofDigits_digits]

theorem not_isBlank_of_isDecimal {c : UInt8} (h : isDecimal c = true) :
  isBlank c = false
  := by
  simp only [isDecimal, isBlank, UInt8.le_iff_toNat_le, UInt8.reduceToNat, Bool.and_eq_true,
    decide_eq_true_eq, Bool.or_eq_false_iff, beq_eq_false_iff_ne, Bool.and_eq_false_iff,
    decide_eq_false_iff_not, Ne, ← UInt8.toNat_inj] at h ⊢
  omega

/-! ### Reading -/

/-- Read blanks, at least one. -/
def blanks : List UInt8 → Option (List UInt8)
  | [] => none
  | c :: s => if isBlank c then some (s.dropWhile isBlank) else none

/-- Read one blank. -/
def blank : List UInt8 → Option (List UInt8)
  | [] => none
  | c :: s => if isBlank c then some s else none

/-- Read a decimal number. -/
def number (s : List UInt8) : Option (ℕ × List UInt8) :=
  if s.takeWhile isDecimal = [] then none
  else some (decimalValue (s.takeWhile isDecimal), s.dropWhile isDecimal)

/-- Read the samples of `n` pixels. -/
def samples :
    (n : ℕ) → List UInt8 → Option ({ pixels : List Rgb // pixels.length = n } × List UInt8)
  | 0, s => some (⟨[], rfl⟩, s)
  | n + 1, r :: g :: b :: s =>
      (samples n s).map fun (pixels, s) =>
        (⟨(r, g, b) :: pixels.1, congrArg Nat.succ pixels.2⟩, s)
  | _ + 1, _ => none

/-- Read blanks and a decimal number. -/
def field (s : List UInt8) : Option (ℕ × List UInt8) :=
  (blanks s).bind number

/-- Read a picture; what follows it is left. -/
def decode : List UInt8 → Option (Pixmap × List UInt8)
  | 80 :: 54 :: s =>
      (field s).bind fun (width, s) => (field s).bind fun (height, s) =>
        (field s).bind fun (depth, s) => (blank s).bind fun s =>
          if hdepth : 0 < depth ∧ depth < 256 then
            (samples (height * width) s).map fun (pixels, s) =>
              ({ width, height, depth
                 pixels := pixels.1
                 depth_lt := hdepth
                 length_eq := pixels.2 }, s)
          else none
  | _ => none

/-! ### Writing -/

/-- The header of a picture, with a blank between two numbers and newlines elsewhere. -/
def header (width height depth : ℕ) : List UInt8 :=
  [80, 54, 10] ++ (decimal width ++ 32 :: (decimal height ++ 10 :: (decimal depth ++ [10])))

/-- The samples of the pixels. -/
def body (pixels : List Rgb) : List UInt8 :=
  pixels.flatMap fun (r, g, b) => [r, g, b]

/-- The file of a picture. -/
def encode (p : Pixmap) : List UInt8 :=
  header p.width p.height p.depth ++ body p.pixels

/-- After blanks and a decimal number something else than a digit follows. -/
theorem field_decimal
    {b c : UInt8} (hb : isBlank b = true) (hc : isDecimal c = false) (n : ℕ) (s : List UInt8) :
  field (b :: (decimal n ++ c :: s)) = some (n, c :: s)
  := by
  have hall := fun c => isDecimal_of_mem (n := n) (c := c)
  have hblanks : (decimal n ++ c :: s).dropWhile isBlank = decimal n ++ c :: s := by
    obtain ⟨d, ds, heq⟩ := List.exists_cons_of_ne_nil (decimal_ne_nil n)
    rw [heq] at hall ⊢
    rw [List.cons_append, List.dropWhile_cons_of_neg]
    rw [not_isBlank_of_isDecimal (hall d List.mem_cons_self)]
    exact Bool.false_ne_true
  have htake : (decimal n ++ c :: s).takeWhile isDecimal = decimal n := by
    rw [List.takeWhile_append_of_pos hall, List.takeWhile_cons, hc]
    exact List.append_nil _
  have hdrop : (decimal n ++ c :: s).dropWhile isDecimal = c :: s := by
    rw [List.dropWhile_append_of_pos hall, List.dropWhile_cons, hc]
    rfl
  rw [field, blanks, if_pos hb, Option.bind_some, hblanks, number, htake,
    if_neg (decimal_ne_nil n), decimalValue_decimal, hdrop]

/-- The samples of pixels are read back. -/
theorem samples_body {n : ℕ} {pixels : List Rgb} (h : pixels.length = n) (s : List UInt8) :
  samples n (body pixels ++ s) = some (⟨pixels, h⟩, s)
  := by
  subst h
  induction pixels with
  | nil => rfl
  | cons pixel pixels ih =>
      obtain ⟨r, g, b⟩ := pixel
      rw [body, List.flatMap_cons, ← body]
      dsimp only [List.length_cons, List.cons_append, List.nil_append, samples]
      rw [ih, Option.map_some]

/-- What is written for a picture is read back. -/
theorem decode_encode (p : Pixmap) (s : List UInt8) :
  decode (encode p ++ s) = some (p, s)
  := by
  obtain ⟨width, height, depth, pixels, hdepth, hlength⟩ := p
  have hblank : blank (10 :: (body pixels ++ s)) = some (body pixels ++ s) := rfl
  rw [encode, header]
  simp only [List.append_assoc, List.cons_append, List.nil_append, decode]
  rw [field_decimal rfl rfl, Option.bind_some, field_decimal rfl rfl, Option.bind_some,
    field_decimal rfl rfl, Option.bind_some, hblank, Option.bind_some]
  dsimp only
  rw [dif_pos hdepth, samples_body hlength, Option.map_some]

end Netpbm

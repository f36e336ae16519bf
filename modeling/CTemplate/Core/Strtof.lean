import CTemplate.Core.Ctype
import CTemplate.Library.Scan
import CTemplate.Library.Scanner
import Mathlib.Algebra.Group.Defs

/-!
# Reading floating-point numbers

The function `strtof` of `stdlib.h` in the C locale.  It skips white space and reads the
longest number that follows: a sign and decimal or hexadecimal digits with a point and an
exponent, or infinity, or not a number.  The value of a number is a parameter.
-/

namespace CTemplate

open Scan Scanner

/-! ### The grammar of numbers -/

/-- A sign. -/
def signScanner : Scanner Byte :=
  one fun c => c = 43 ∨ c = 45

/-- One or more digits. -/
def digitsScanner (isDigit : Byte → Bool) : Scanner Byte :=
  seq (one isDigit) (many isDigit)

/-- One or more digits, which may contain a point. -/
def mantissaScanner (isDigit : Byte → Bool) : Scanner Byte :=
  alt (seq (digitsScanner isDigit) (opt (seq (one (· = 46)) (many isDigit))))
    (seq (one (· = 46)) (digitsScanner isDigit))

/-- An exponent, after the letter `mark` in lower or upper case. -/
def exponentScanner (mark : Byte) : Scanner Byte :=
  seq (one fun c => toLower c = mark) (seq (opt signScanner) (digitsScanner isDigit))

/-- A decimal number. -/
def decimalScanner : Scanner Byte :=
  seq (mantissaScanner isDigit) (opt (exponentScanner 101))

/-- A hexadecimal number, which starts with `"0x"`. -/
def hexScanner : Scanner Byte :=
  seq (word toLower [48, 120]) (seq (mantissaScanner isHexDigit) (opt (exponentScanner 112)))

/-- `"inf"` or `"infinity"` -/
def infinityScanner : Scanner Byte :=
  seq (word toLower [105, 110, 102]) (opt (word toLower [105, 110, 105, 116, 121]))

/-- `"nan"`, after which letters, digits and underscores may stand in parentheses. -/
def nanScanner : Scanner Byte :=
  seq (word toLower [110, 97, 110])
    (opt (seq (one (· = 40)) (seq (many fun c => isAlnum c ∨ c = 95) (one (· = 41)))))

/-- A number. -/
def numberScanner : Scanner Byte :=
  seq (opt signScanner)
    (alt hexScanner (alt decimalScanner (alt infinityScanner nanScanner)))

/-- A number after white space. -/
def strtofScanner : Scanner Byte :=
  seq (many isSpace) numberScanner

/-- `strtof`, where `value` is the value of a number: its result, and the text from `*end`
on. -/
def strtof {F : Type} [Zero F] (value : List Byte → F) (s : List Byte) : F × List Byte :=
  match strtofScanner s with
  | none => (0, s)
  | some rest =>
      let t := s.dropWhile isSpace
      (value (t.take (t.length - rest.length)), rest)

/-! ### A comma ends a number -/

/-- The character `','`. -/
def comma : Byte := 44

section Local

variable {p : Byte → Bool}

theorem local_signScanner : Local comma signScanner :=
  local_one rfl

theorem local_digitsScanner (hp : p comma = false) : Local comma (digitsScanner p) :=
  (local_one hp).seq (local_many hp)

theorem local_mantissaScanner (hp : p comma = false) : Local comma (mantissaScanner p) := by
  apply Local.alt
  · apply (local_digitsScanner hp).seq
    apply ((local_one rfl).seq (local_many hp)).opt
  · apply (local_one rfl).seq (local_digitsScanner hp)

theorem local_exponentScanner {mark : Byte} (hmark : toLower comma ≠ mark) :
  Local comma (exponentScanner mark)
  := by
  apply (local_one (by simpa using hmark)).seq
  apply local_signScanner.opt.seq (local_digitsScanner rfl)

theorem local_decimalScanner : Local comma decimalScanner :=
  (local_mantissaScanner rfl).seq (local_exponentScanner (by decide)).opt

theorem local_hexScanner : Local comma hexScanner := by
  apply (local_word (by decide)).seq
  apply (local_mantissaScanner rfl).seq (local_exponentScanner (by decide)).opt

theorem local_infinityScanner : Local comma infinityScanner :=
  (local_word (by decide)).seq (local_word (by decide)).opt

theorem local_nanScanner : Local comma nanScanner := by
  apply (local_word (by decide)).seq
  apply ((local_one rfl).seq ((local_many rfl).seq (local_one rfl))).opt

theorem local_strtofScanner : Local comma strtofScanner := by
  apply (local_many rfl).seq
  apply local_signScanner.opt.seq
  apply local_hexScanner.alt (local_decimalScanner.alt (local_infinityScanner.alt local_nanScanner))

end Local

/-! ### A number is not empty -/

section Consumes

variable (p : Byte → Bool)

theorem consumes_digitsScanner : Consumes (digitsScanner p) :=
  (consumes_one p).seq (shrinks_many p)

theorem consumes_mantissaScanner : Consumes (mantissaScanner p) := by
  apply Consumes.alt
  · apply (consumes_digitsScanner p).seq
    apply ((consumes_one _).seq (shrinks_many p)).shrinks.opt
  · apply (consumes_one _).seq (consumes_digitsScanner p).shrinks

theorem consumes_exponentScanner (mark : Byte) : Consumes (exponentScanner mark) := by
  apply (consumes_one _).seq
  apply ((consumes_one _).shrinks.opt.seq (consumes_digitsScanner isDigit)).shrinks

theorem consumes_decimalScanner : Consumes decimalScanner :=
  (consumes_mantissaScanner isDigit).seq (consumes_exponentScanner 101).shrinks.opt

theorem consumes_hexScanner : Consumes hexScanner := by
  apply consumes_word.seq
  apply ((consumes_mantissaScanner isHexDigit).seq
    (consumes_exponentScanner 112).shrinks.opt).shrinks

theorem consumes_infinityScanner : Consumes infinityScanner :=
  consumes_word.seq consumes_word.shrinks.opt

theorem consumes_nanScanner : Consumes nanScanner := by
  apply consumes_word.seq
  apply ((consumes_one _).seq
    ((shrinks_many _).seq (consumes_one _)).shrinks).shrinks.opt

theorem consumes_strtofScanner : Consumes strtofScanner := by
  apply (shrinks_many isSpace).seq
  apply (consumes_one _).shrinks.opt.seq
  apply consumes_hexScanner.alt
    (consumes_decimalScanner.alt (consumes_infinityScanner.alt consumes_nanScanner))

end Consumes

/-! ### What strtof reads -/

section Strtof

variable {F : Type} [Zero F] {value : List Byte → F} {s rest : List Byte}

/-- `strtof` moves `*end` exactly when there is a number. -/
theorem length_strtof_eq_iff :
  (strtof value s).2.length = s.length ↔ strtofScanner s = none
  := by
  rw [strtof]
  cases h : strtofScanner s with
  | none => simp
  | some rest =>
      have hlt := (consumes_strtofScanner s rest h).2
      simp
      omega

theorem strtof_snd (h : strtofScanner s = some rest) :
  (strtof value s).2 = rest
  := by
  rw [strtof, h]

/-- White space before a number is skipped. -/
theorem strtofScanner_append {ws : List Byte} (hws : Blank isSpace ws) (s : List Byte) :
  strtofScanner (ws ++ s) = strtofScanner s
  := by
  rw [strtofScanner, seq, seq, many, many, List.dropWhile_append_of_pos hws]

theorem strtofScanner_of_blank (hs : Blank isSpace s) :
  strtofScanner s = none
  := by
  have happend := strtofScanner_append hs []
  rw [List.append_nil] at happend
  rw [happend]
  rfl

/-- White space before a number does not change its value. -/
theorem strtof_append {ws : List Byte} (hws : Blank isSpace ws)
    (h : strtofScanner s = some rest) :
  strtof value (ws ++ s) = strtof value s
  := by
  rw [strtof, strtof, strtofScanner_append hws, h, List.dropWhile_append_of_pos hws]

/-- The number before a comma does not depend on what follows. -/
theorem strtof_comma (h : strtofScanner s = some rest) (t : List Byte) :
  strtof value (s ++ comma :: t) = ((strtof value s).1, rest ++ comma :: t)
  := by
  have hlocal := local_strtofScanner s t
  rw [h, Option.map_some] at hlocal
  have hcomma : isSpace comma = false := rfl
  have hlength : (s.dropWhile isSpace ++ comma :: t).length - (rest ++ comma :: t).length
      = (s.dropWhile isSpace).length - rest.length := by
    simp only [List.length_append]
    omega
  rw [strtof, strtof, hlocal, h]
  dsimp only
  rw [dropWhile_append_sep hcomma, hlength, List.take_append_of_le_length (Nat.sub_le _ _)]

end Strtof

end CTemplate

import CTemplate.Core.Memory
import CTemplate.Library.Buffer
import CTemplate.Library.Lines

/-!
# Reading and formatting text

The function `fgets` of `stdio.h`.  A call for a buffer of `size` bytes takes bytes up to the
first newline, but at most `size - 1` of them, and puts a zero byte after them; at the end of
the file it gives a null pointer.

The functions `snprintf` and `vsnprintf` put as much of a text into a buffer as there is room for,
with a zero byte after it, and return the length of the text.  They fail when that is not an
`int`.
-/

namespace CTemplate

/-- The newline character. -/
def newline : Byte := 10

/-- The lines of a text. -/
def textLines (text : List Byte) : List (List Byte) :=
  Lines.lines newline text

/-- What the calls of `fgets` for a buffer of `size` bytes read from a file, in their
order. -/
def fgetsAll (size : ℕ) (text : List Byte) : List (List Byte) :=
  Lines.readAll newline (size - 1) text

/-- `INT_MAX` -/
def intMax : ℕ := 2147483647

/-- What a format and its arguments give. -/
abbrev Formatted : Type := { text : List Byte // text.length ≤ intMax }

/-- `vsnprintf(buf + k, size, …)` for a format that gives `text`: as much of the text as there
is room for, followed by a zero byte. -/
def vsnprintf (buf : List Byte) (k size : ℕ) (text : Formatted) : Option (List Byte) :=
  if size = 0 then some buf else Buffer.write buf k (text.1.take (size - 1) ++ [0])

/-- `snprintf(out, cap, …)` for a format that gives `text` and a buffer of `cap` bytes: the number
returned, which is `none` for a negative one, and the buffer after the call.  A call that fails
leaves in the buffer what `spoil` says. -/
def snprintf (spoil : List Byte → List Byte) (out text : List Byte) :
    Option (Option ℕ × List Byte) :=
  if h : text.length ≤ intMax then
    (vsnprintf out 0 out.length ⟨text, h⟩).map fun out => (some text.length, out)
  else some (none, spoil out)

/-- A text for which there is room is put into the buffer. -/
theorem snprintf_eq
    (spoil : List Byte → List Byte) {out text : List Byte} (h : text.length ≤ intMax)
    (hroom : text.length < out.length) :
  snprintf spoil out text = some (some text.length, text ++ 0 :: out.drop (text.length + 1))
  := by
  have htake : text.take (out.length - 1) = text := List.take_of_length_le (by omega)
  rw [snprintf, dif_pos h, vsnprintf, if_neg (by omega), htake, Buffer.write, if_pos]
  · simp
  · rw [List.length_append, List.length_singleton]
    omega

theorem snprintf_of_lt
    (spoil : List Byte → List Byte) {text : List Byte} (out : List Byte)
    (h : intMax < text.length) :
  snprintf spoil out text = some (none, spoil out)
  := dif_neg (Nat.not_le_of_lt h)

end CTemplate

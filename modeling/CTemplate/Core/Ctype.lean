import CTemplate.Core.Memory

/-!
# Classes of characters

The functions of `ctype.h` that the library calls, in the C locale.
-/

namespace CTemplate

/-- `isspace`: the blank, and the tab, newline, vertical tab, form feed and carriage
return. -/
def isSpace (c : Byte) : Bool :=
  c = 32 ∨ 9 ≤ c ∧ c ≤ 13

/-- `isdigit` -/
def isDigit (c : Byte) : Bool :=
  48 ≤ c ∧ c ≤ 57

/-- `isxdigit` -/
def isHexDigit (c : Byte) : Bool :=
  isDigit c ∨ 65 ≤ c ∧ c ≤ 70 ∨ 97 ≤ c ∧ c ≤ 102

/-- `isalnum` -/
def isAlnum (c : Byte) : Bool :=
  isDigit c ∨ 65 ≤ c ∧ c ≤ 90 ∨ 97 ≤ c ∧ c ≤ 122

/-- `tolower` -/
def toLower (c : Byte) : Byte :=
  if 65 ≤ c ∧ c ≤ 90 then c + 32 else c

/-- The value of a decimal digit. -/
def digitValue (c : Byte) : ℕ :=
  c.toNat - 48

/-- The number that a string of decimal digits denotes. -/
def decimalValue (digits : List Byte) : ℕ :=
  digits.foldl (fun n c => 10 * n + digitValue c) 0

theorem not_isSpace_of_isDigit {c : Byte} (h : isDigit c = true) :
  isSpace c = false
  := by
  rw [isDigit, decide_eq_true_iff] at h
  rw [isSpace, decide_eq_false_iff_not]
  simp only [UInt8.le_iff_toNat_le, ← UInt8.toNat_inj] at *
  simp at *
  omega

end CTemplate

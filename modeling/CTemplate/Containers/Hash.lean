import CTemplate.Core.Memory
import Mathlib.Logic.Function.Iterate

/-!
# Hash functions

The 64-bit FNV-1a hash and the CRC-32 of `containers/hash.c`.
-/

namespace CTemplate

/-- `FNV_OFFSET`. -/
def fnvOffset : UInt64 := 14695981039346656037

/-- `FNV_PRIME`. -/
def fnvPrime : UInt64 := 1099511628211

/-- `hash_fnv1a` of the bytes at `data`, or of no bytes for a null pointer. -/
def hashFnv1a (data : Option (List Byte)) : UInt64 :=
  match data with
  | none => fnvOffset
  | some p => p.foldl (fun h b => (h ^^^ b.toUInt64) * fnvPrime) fnvOffset

/-- `hash_fnv1a_str`. -/
def hashFnv1aStr (s : Option CString) : UInt64 :=
  match s with
  | some s => hashFnv1a (some s.val)
  | none => hashFnv1a none

/-- One round of the inner loop of `hash_crc32`. -/
def crcRound (crc : UInt32) : UInt32 :=
  (crc >>> 1) ^^^ (0xEDB88320 &&& (0 - (crc &&& 1)))

/-- One round of the outer loop of `hash_crc32`. -/
def crcByte (crc : UInt32) (b : Byte) : UInt32 :=
  crcRound^[8] (crc ^^^ b.toUInt32)

/-- `hash_crc32` of the bytes at `data`, or zero for a null pointer. -/
def hashCrc32 (data : Option (List Byte)) : UInt32 :=
  match data with
  | none => 0
  | some p => ~~~(p.foldl crcByte 0xFFFFFFFF)

end CTemplate

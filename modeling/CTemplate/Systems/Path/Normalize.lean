import CTemplate.Core.Error
import CTemplate.Library.Buffer
import CTemplate.Systems.Path.Reference

/-!
# Normalizing a path in place

`path_normalize` of `systems/path.c`.  One turn of its loop reads the next component of the
path and drops it, pops the component kept last, or appends it to the output, which grows in
the same buffer from the front.  A write outside the buffer gives `none`.
-/

namespace CTemplate

/-- The variables of the loop: the buffer of the path, the read cursor, the write cursor, the
offsets of the components kept, and how many of these are a `".."` that cannot be popped. -/
structure PathState where
  buf : List Byte
  i : ℕ
  out : ℕ
  compStart : List ℕ
  leading : ℕ
  deriving DecidableEq

/-- The index, from `i` on and below `len`, of the first character on which `p` fails. -/
def scanWhile (p : Byte → Bool) (buf : List Byte) (i len : ℕ) : ℕ :=
  i + (((buf.take len).drop i).takeWhile p).length

/-- The bounds of the component that a turn reads: separators are skipped first. -/
def pathComponent (len : ℕ) (s : PathState) : ℕ × ℕ :=
  let start := scanWhile (· = slash) s.buf s.i len
  (start, scanWhile (· ≠ slash) s.buf start len)

/-- Write the separator before a component that is appended, unless it is the first one of a
relative path: the buffer and the write cursor after it. -/
def pathSeparator (absolute : Bool) (s : PathState) : Option (List Byte × ℕ) :=
  if s.out > 0 ∨ absolute then
    (Buffer.write s.buf s.out [slash]).map fun buf => (buf, s.out + 1)
  else some (s.buf, s.out)

/-- Append the component of `clen` characters at `start` to the output. -/
def pathAppend (absolute : Bool) (start clen : ℕ) (s : PathState) :
    Option (ErrorCode × PathState) :=
  if s.compStart.length ≥ maxComponents then some (.overflow, s)
  else
    match pathSeparator absolute s with
    | none => none
    | some (buf, out) =>
        match Buffer.copy buf out start clen with
        | none => none
        | some buf =>
            some (.ok, { s with buf, out := out + clen, compStart := s.compStart ++ [s.out] })

/-- A turn of the loop: whether the loop goes on, and the variables after it. -/
def pathTurn (absolute : Bool) (len : ℕ) (s : PathState) : Option (ErrorCode × PathState) :=
  let (start, i) := pathComponent len s
  let clen := i - start
  if clen = 0 ∨ (clen = 1 ∧ s.buf[start]? = some dot) then some (.ok, { s with i })
  else if clen = 2 ∧ s.buf[start]? = some dot ∧ s.buf[start + 1]? = some dot then
    if s.compStart.length > s.leading then
      some (.ok, { s with
        i, out := s.compStart.getLast?.getD 0, compStart := s.compStart.dropLast })
    else if absolute then some (.ok, { s with i })
    else pathAppend absolute start clen { s with i, leading := s.leading + 1 }
  else pathAppend absolute start clen { s with i }

/-- The loop, for at most `fuel` turns. -/
def pathLoop (absolute : Bool) (len : ℕ) : ℕ → PathState → Option (ErrorCode × PathState)
  | 0, _ => none
  | fuel + 1, s =>
      if s.i < len then
        match pathTurn absolute len s with
        | some (.ok, s') => pathLoop absolute len fuel s'
        | result => result
      else some (.ok, s)

/-- The variables before the loop. -/
def pathInit (path : List Byte) : PathState :=
  { buf := path, i := 0, out := 0, compStart := [], leading := 0 }

/-- What follows the loop: a path with nothing left is `"/"` or `"."`, and the output is
terminated. -/
def pathFinish (absolute : Bool) (s : PathState) : Option (List Byte) :=
  if s.out = 0 then
    (Buffer.write s.buf 0 [if absolute then slash else dot]).bind fun buf =>
      Buffer.write buf 1 [0]
  else Buffer.write s.buf s.out [0]

/-- `path_normalize`, on the buffer of the path: the code returned and the buffer after the
call. -/
def pathNormalize (path : List Byte) : Option (ErrorCode × List Byte) :=
  let absolute := isAbsolute path
  let len := strlen path
  match pathLoop absolute len (len + 1) (pathInit path) with
  | none => none
  | some (.ok, s) => (pathFinish absolute s).map fun buf => (.ok, buf)
  | some (err, s) => some (err, s.buf)

/-- The values that the variables take at the head of the loop. -/
inductive PathVisits (path : List Byte) : PathState → Prop where
  | start : PathVisits path (pathInit path)
  | turn {s s' : PathState} (before : PathVisits path s) (more : s.i < strlen path)
      (turn : pathTurn (isAbsolute path) (strlen path) s = some (.ok, s')) : PathVisits path s'

example : pathNormalize [97, 47, 46, 46, 47, 46, 46, 47, 98, 0]
    = some (.ok, [46, 46, 47, 98, 0, 46, 46, 47, 98, 0]) := by decide

end CTemplate

import PathRace.Basic
import PathRace.Fault

/-!
Frames on the wire: a length in four bytes, then that many bytes. A `Reassembly` holds the bytes
that have arrived and not been taken; it yields the same frames however the bytes were cut.
-/

namespace PathRace

namespace Frame

def announce (n : Nat) : Bytes := Bytes.le Limit.lengthSize n

def encode (body : Bytes) : Except EngineFault Bytes :=
  if Limit.frame < body.length then .error (.frameTooLarge body.length Limit.frame)
  else .ok (announce body.length ++ body)

end Frame

structure Reassembly where
  buffer : Bytes
  deriving DecidableEq

namespace Reassembly

def empty : Reassembly := ⟨[]⟩

def push (chunk : Bytes) (r : Reassembly) : Reassembly := ⟨r.buffer ++ chunk⟩

def announced (r : Reassembly) : Nat := Bytes.ofLE (r.buffer.take Limit.lengthSize)

/-- The next frame, if it is complete. A length above the limit is refused as soon as it has been read,
and stays in the buffer. -/
def next (r : Reassembly) : Except EngineFault (Option Bytes) × Reassembly :=
  if r.buffer.length < Limit.lengthSize then (.ok none, r)
  else if Limit.frame < r.announced then (.error (.frameTooLarge r.announced Limit.frame), r)
  else if r.buffer.length < Limit.lengthSize + r.announced then (.ok none, r)
  else
    let rest := r.buffer.drop Limit.lengthSize
    (.ok (some (rest.take r.announced)), ⟨rest.drop r.announced⟩)

end Reassembly

end PathRace

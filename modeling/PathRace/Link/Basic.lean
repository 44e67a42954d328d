import PathRace.Backlog
import PathRace.Close

/-!
What a path gives its reader and takes from its writer, whatever carries it.
-/

namespace PathRace

inductive End
  | a
  | b
  deriving DecidableEq, Repr

def End.other : End → End
  | a => b
  | b => a

/-- What a reader gets. Nothing follows an end or a failure. -/
inductive Inbound
  | chunk (data : Bytes)
  | ended
  | failed (fault : PathFault)
  deriving DecidableEq

inductive Writing
  /-- The path has not taken the chunk yet. -/
  | offered (chunk : Bytes)
  /-- The path has taken it and holds the writer back. -/
  | stalled (stall : Stall)
  deriving DecidableEq

/-- How far a write has come: its result, or what it now waits for. -/
abbrev Progress := Except PathFault Unit ⊕ Writing

namespace Progress

def ok : Progress := .inl (.ok ())

def failed (fault : PathFault) : Progress := .inl (.error fault)

end Progress

end PathRace

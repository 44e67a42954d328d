import PathRace.Link.Basic

/-!
An instrumented path with one end. Its far side is driven by hand: chunks are fed to the reader,
writes are answered as configured, and every write and close is recorded.
-/

namespace PathRace

inductive ProbeMode
  | accept
  | block
  | refuse (fault : PathFault)
  deriving DecidableEq

structure Probe where
  inbox : List (Except PathFault Bytes)
  feeding : Bool
  mode : ProbeMode
  closes : List CloseReason
  written : List Bytes

namespace Probe

def new : Probe := ⟨[], true, .accept, [], []⟩

def isClosed (p : Probe) : Bool := !p.closes.isEmpty

def feed (chunk : Bytes) (p : Probe) : Probe :=
  if p.feeding then { p with inbox := p.inbox ++ [.ok chunk] } else p

def finish (p : Probe) : Probe := { p with feeding := false }

def fail (fault : PathFault) (p : Probe) : Probe :=
  if p.feeding then { p with inbox := p.inbox ++ [.error fault], feeding := false } else p

def setMode (mode : ProbeMode) (p : Probe) : Probe := { p with mode }

def canRead (p : Probe) : Bool := p.isClosed || !p.inbox.isEmpty || !p.feeding

/-- A close is noticed before chunks that are still unread. -/
def read (p : Probe) : Option Inbound × Probe :=
  if p.isClosed then (some .ended, p)
  else
    match p.inbox with
    | .ok chunk :: rest => (some (.chunk chunk), { p with inbox := rest })
    | .error fault :: rest => (some (.failed fault), { p with inbox := rest })
    | [] => (if p.feeding then none else some .ended, p)

def canWrite (p : Probe) : Bool := p.isClosed || p.mode != .block

def write (chunk : Bytes) (p : Probe) : Progress × Probe :=
  if p.isClosed then (.failed .closed, p)
  else
    match p.mode with
    | .accept => (.ok, { p with written := p.written ++ [chunk] })
    | .block => (.inr (.offered chunk), p)
    | .refuse fault => (.failed fault, p)

def close (reason : CloseReason) (p : Probe) : Probe := { p with closes := p.closes ++ [reason] }

end Probe

end PathRace

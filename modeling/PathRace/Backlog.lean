import PathRace.Fault

/-!
Bytes handed to a transport and not yet sent, and the back-pressure they cause: a writer stalls
at the high watermark and resumes, at a tick of the poll interval, once the count is at or below
the low one.
-/

namespace PathRace

/-- Watermarks in bytes, the interval in milliseconds. -/
structure Watermarks where
  high : UInt64
  low : UInt64
  poll : Nat
  deriving DecidableEq, Repr

namespace Watermarks

def standard : Watermarks :=
  ⟨UInt64.ofNat Limit.highWatermark, UInt64.ofNat Limit.lowWatermark, Limit.pollInterval⟩

def check (w : Watermarks) : Except Failure Unit :=
  if w.high ≤ w.low then
    .error (.config s!"low watermark ({w.low}) must be below high watermark ({w.high})")
  else if w.poll = 0 then .error (.config "poll interval must be non-zero")
  else .ok ()

end Watermarks

structure Backlog where
  marks : Watermarks
  buffered : UInt64
  deriving DecidableEq

namespace Backlog

def empty (marks : Watermarks) : Backlog := ⟨marks, 0⟩

/-- The count wraps around. -/
def enqueue (n : UInt64) (b : Backlog) : Backlog := { b with buffered := b.buffered + n }

/-- The count stops at zero. -/
def drain (n : UInt64) (b : Backlog) : Backlog :=
  { b with buffered := if b.buffered ≤ n then 0 else b.buffered - n }

def isStalled (b : Backlog) : Bool := b.marks.high ≤ b.buffered

def isDrained (b : Backlog) : Bool := b.buffered ≤ b.marks.low

end Backlog

/-- A writer held back by the backlog, with the time of its next look. Times are milliseconds as natural
numbers: `now + poll` is assumed to be a time that the clock of the platform can represent. -/
structure Stall where
  tick : Nat
  deriving DecidableEq

namespace Stall

def begin (now : Nat) (b : Backlog) : Option Stall :=
  if b.isStalled then some ⟨now + b.marks.poll⟩ else none

def isDue (closed : Bool) (now : Nat) (w : Stall) : Bool := closed || w.tick ≤ now

/-- One look at the backlog: the result, or the stall with the time of its next look. -/
def look (closed : Bool) (b : Backlog) (w : Stall) : Except PathFault Unit ⊕ Stall :=
  if closed then .inl (.error .closed)
  else if b.isDrained then .inl (.ok ())
  else .inr ⟨w.tick + b.marks.poll⟩

end Stall

end PathRace

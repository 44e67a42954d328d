import PathRace.Basic

/-!
The stop signal that every part of an attempt shares. It can be raised from anywhere; the first
cause stays (`cause_raise_raise`), and only the raise that set it reports success.
-/

namespace PathRace

inductive Cause
  | cancelled
  | closed
  | noPathsRemaining
  | protocolError
  | pathFailed (pid : PathId)
  deriving DecidableEq, Repr

namespace Cause

def message : Cause → String
  | cancelled => "cancelled"
  | closed => "closed"
  | noPathsRemaining => "no paths remaining"
  | protocolError => "protocol error"
  | pathFailed pid => s!"path {pid} failed"

def text : Cause → String
  | cancelled => "Cancelled"
  | closed => "Closed"
  | noPathsRemaining => "NoPathsRemaining"
  | protocolError => "ProtocolError"
  | pathFailed pid => s!"PathFailed({pid})"

end Cause

/-- `stopped` wakes the listeners; the cause is recorded beside it. -/
structure Signal where
  cause : Option Cause
  stopped : Bool
  deriving DecidableEq, Repr

namespace Signal

def quiet : Signal := ⟨none, false⟩

/-- Answers whether this raise was the first. -/
def raise (c : Cause) (s : Signal) : Bool × Signal :=
  match s.cause with
  | some _ => (false, s)
  | none => (true, ⟨some c, true⟩)

/-- Wakes the listeners without naming a cause. -/
def cancel (s : Signal) : Signal := { s with stopped := true }

/-- The cause that a listener is told once the signal has stopped. -/
def heard (s : Signal) : Option Cause :=
  if s.stopped then some (s.cause.getD .cancelled) else none

theorem raise_of_cause {s : Signal} {c d : Cause} (h : s.cause = some d) :
    s.raise c = (false, s) := by
  simp [raise, h]

theorem raise_of_none {s : Signal} {c : Cause} (h : s.cause = none) :
    s.raise c = (true, ⟨some c, true⟩) := by
  simp [raise, h]

theorem cause_raise (s : Signal) (c : Cause) :
    (s.raise c).2.cause = some (s.cause.getD c) := by
  cases h : s.cause <;> simp [raise, h]

theorem cause_raise_raise (s : Signal) (c d : Cause) :
    ((s.raise c).2.raise d).2.cause = (s.raise c).2.cause := by
  rw [cause_raise, cause_raise]; simp

end Signal

end PathRace

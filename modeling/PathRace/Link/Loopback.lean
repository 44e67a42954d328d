import PathRace.Link.Basic

/-!
Two ends in one place: a bounded queue in each direction and one close for both.

A queue follows the documented behaviour of a bounded first-in-first-out channel. A write waits until
there is room, and fails once the reader has been dropped. A read takes the oldest chunk; once the writer
has been dropped it takes what is left, and then the end. The capacity is assumed to be one that the
platform allows for a queue.
-/

namespace PathRace

/-- The chunks on their way to one end, the oldest first, and which sides of the queue are still held. -/
structure Queue where
  unread : List Bytes
  writerHeld : Bool
  readerHeld : Bool
  deriving DecidableEq

structure Loopback where
  capacity : Nat
  toA : Queue
  toB : Queue
  /-- The reason of the first close. -/
  closed : Option CloseReason

namespace Loopback

/-- The capacity is at least one. -/
def new (capacity : Nat) : Loopback :=
  ⟨max capacity 1, ⟨[], true, true⟩, ⟨[], true, true⟩, none⟩

def inward (l : Loopback) : End → Queue
  | .a => l.toA
  | .b => l.toB

def outward (l : Loopback) (e : End) : Queue := l.inward e.other

def setInward (e : End) (q : Queue) (l : Loopback) : Loopback :=
  match e with
  | .a => { l with toA := q }
  | .b => { l with toB := q }

def canRead (e : End) (l : Loopback) : Bool :=
  l.closed.isSome || !(l.inward e).unread.isEmpty || !(l.inward e).writerHeld

/-- A close is noticed before chunks that are still unread. -/
def read (e : End) (l : Loopback) : Option Inbound × Loopback :=
  if l.closed.isSome then (some .ended, l)
  else
    let q := l.inward e
    match q.unread with
    | chunk :: rest => (some (.chunk chunk), l.setInward e { q with unread := rest })
    | [] => (if q.writerHeld then none else some .ended, l)

def hasRoom (e : End) (l : Loopback) : Bool := (l.outward e).unread.length < l.capacity

def canWrite (e : End) (l : Loopback) : Bool :=
  l.closed.isSome || !(l.outward e).readerHeld || l.hasRoom e

def write (e : End) (chunk : Bytes) (l : Loopback) : Progress × Loopback :=
  if l.closed.isSome then (.failed .closed, l)
  else
    let q := l.outward e
    if !q.readerHeld then (.failed .closed, l)
    else if l.hasRoom e then
      (.ok, l.setInward e.other { q with unread := q.unread ++ [chunk] })
    else (.inr (.offered chunk), l)

def close (reason : CloseReason) (l : Loopback) : Loopback :=
  { l with closed := some (l.closed.getD reason) }

def dropReader (e : End) (l : Loopback) : Loopback :=
  l.setInward e { l.inward e with readerHeld := false }

def dropWriter (e : End) (l : Loopback) : Loopback :=
  l.setInward e.other { l.outward e with writerHeld := false }

end Loopback

end PathRace

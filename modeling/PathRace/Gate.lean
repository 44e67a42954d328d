import PathRace.Backlog

/-!
A backlog over time: bytes are added and drained, writers wait for the count to fall, and the
backlog may be closed. After each event the writers that are due poll.
-/

namespace PathRace

inductive Waiter
  | waiting (stall : Stall)
  /-- With the time at which it ended. -/
  | finished (result : Except PathFault Unit) (time : Nat)

structure Gate where
  backlog : Backlog
  closed : Bool
  now : Nat
  waiters : List Waiter

namespace Gate

inductive Event
  | enqueue (n : UInt64)
  | drain (n : UInt64)
  | settle
  | close
  | tick
  deriving DecidableEq

def start (marks : Watermarks) : Gate := ⟨Backlog.empty marks, false, 0, []⟩

def look (g : Gate) : Waiter → Waiter
  | .finished result t => .finished result t
  | .waiting stall =>
    if stall.isDue g.closed g.now then
      match stall.look g.closed g.backlog with
      | .inl result => .finished result g.now
      | .inr stall => .waiting stall
    else .waiting stall

def arrive (g : Gate) : Waiter :=
  match Stall.begin g.now g.backlog with
  | none => .finished (.ok ()) g.now
  | some stall => .waiting stall

def apply (g : Gate) : Event → Gate
  | .enqueue n => { g with backlog := g.backlog.enqueue n }
  | .drain n => { g with backlog := g.backlog.drain n }
  | .settle => { g with waiters := g.waiters ++ [g.arrive] }
  | .close => { g with closed := true }
  | .tick => { g with now := g.now + 1 }

def step (g : Gate) (e : Event) : Gate :=
  let g := g.apply e
  { g with waiters := g.waiters.map g.look }

def run (g : Gate) (events : List Event) : Gate := events.foldl step g

end Gate

end PathRace

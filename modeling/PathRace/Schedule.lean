import PathRace.World

/-!
The scheduler. Tasks that can move are queued in the order in which they became able to; the
first moves for as long as it can. A round is over when the queue is empty, and only then does
the clock advance.
-/

namespace PathRace

structure Turns (E : Type) where
  line : List Task
  world : World E

namespace Turns

variable {E : Type} [Engine E]

/-- Tasks that have become able to move join the line. -/
def gather (t : Turns E) : Turns E :=
  { t with line := t.line ++ t.world.tasks.filter fun x => t.world.canMove x && !t.line.contains x }

/-- The first in line moves and keeps its place, or leaves if it cannot move. -/
def step (t : Turns E) : Turns E :=
  match t.line with
  | [] => t
  | x :: rest =>
    if t.world.canMove x then gather ⟨x :: rest, t.world.move x⟩ else ⟨rest, t.world⟩

def run : Nat → Turns E → Turns E
  | 0, t => t
  | n + 1, t => if t.line.isEmpty then t else run n t.step

end Turns

/-- A limit on the steps of one round. -/
def Limit.round : Nat := 10000000

namespace World

variable {E : Type} [Engine E]

def settle (w : World E) : World E := (Turns.run Limit.round (Turns.gather ⟨[], w⟩)).world

/-- Lets milliseconds pass, with a round after each. -/
def advance : Nat → World E → World E
  | 0, w => w
  | n + 1, w => advance n { w with now := w.now + 1 }.settle

/-- Runs an operation as far as it goes, and once more after `meanwhile` if it has to wait. If there is
no answer then, it is cancelled. -/
def perform (operation : Operation) (meanwhile : World E → World E) (w : World E) :
    Option Answer × World E :=
  let w := { w with operation := some operation, answer := none }.settle
  let w := if w.answer.isSome then w else (meanwhile w).settle
  (w.answer, { w with operation := none, answer := none })

end World

end PathRace
